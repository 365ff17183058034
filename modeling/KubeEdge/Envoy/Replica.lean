import KubeEdge.Envoy.Edge
import KubeEdge.Envoy.Isolation

namespace KubeEdge.Envoy
open Go Go.Machine LocationCache

variable {H : Digest} {L : Listers} {K : Codec} {n key : GoString} {w w' : World} {e : ControlPlane}
  {ds : List Dispatch} {R R' : Resource}

structure System (K : Codec) where
  w : World
  inFlight : List (Message K) := []
  edge : ControlPlane := {}

inductive SystemEvent
  | controller (event : Event)
  | deliver

/-- Messages are delivered in the order they were sent. -/
def systemStep (K : Codec) (H : Digest) (n : GoString) (s : System K) :
    SystemEvent → Option (System K)
  | .controller event =>
    (react H s.w event).map fun (w, ds) =>
      { s with w := w, inFlight := s.inFlight ++ messagesTo K n ds }
  | .deliver =>
    match s.inFlight with
    | [] => none
    | m :: ms =>
      (process K s.edge (trimMessage m)).toOption.map fun e =>
        { s with inFlight := ms, edge := e }

/-- What the node holds once everything in flight is processed. -/
def System.held (s : System K) : M ControlPlane := drain K s.inFlight s.edge

/-- The node is recorded in the groups of its label. -/
def Recorded (w : World) (n : GoString) : Prop :=
  ∃ node, w.nodes.get n = some node ∧ ∀ g ∈ labelGroups node, n ∈ w.c.lc.members g

structure Quiescent (n : GoString) (s : System K) : Prop where
  queue : GoSet.isEmpty s.w.c.queue
  resourceQueue : GoSet.isEmpty s.w.c.resourceQueue
  inFlight : s.inFlight = []
  ready : s.w.c.lc.getNodeStatus n = some .true
  recorded : Recorded s.w n

/-- The node stores exactly the resources of its groups, as the store has them. -/
def Converged (n : GoString) (s : System K) : Prop :=
  ∀ slot spec, s.edge.lookup slot = some spec ↔
    ∃ r R node, s.w.c.entry r = some R ∧ s.w.nodes.get n = some node ∧ SharesGroup node R ∧
      R.slot = slot ∧ R.spec = spec

/-- The node was delivered before, with the same label. -/
def LabelKept (w : World) (node : Node) : Prop :=
  ∃ old, w.nodes.get node.name = some old ∧
    index old.labels nodeGroupLabel = index node.labels nodeGroupLabel

/-- What an event of the node has to find: if the store is resent, the node has a group of
every resource; if it is not and the label is new, the node has a group of everything it
holds, and if it counted as Ready it holds everything of its groups. -/
def NodeFollowed (w : World) (e : ControlPlane) (node : Node) : Prop :=
  (BecomesReady w.c.lc node → ∀ r R, w.c.entry r = some R → SharesGroup node R) ∧
  (¬ BecomesReady w.c.lc node →
    (¬ LabelKept w node → ∀ r R, w.c.entry r = some R → (e.lookup R.slot).isSome →
      SharesGroup node R) ∧
    (w.c.lc.getNodeStatus node.name = some .true → ¬ (LabelKept w node ∧ Recorded w node.name) →
      ∀ r R, w.c.entry r = some R → r ∉ w.c.resourceQueue → SharesGroup node R →
        e.lookup R.slot = some R.spec))

/-- What an event has to find so that the node, which holds `e` once it has processed
everything, follows the store.  A deletion reaches the node if the node holds the
resource. -/
def EventFollowed (n : GoString) (w : World) (e : ControlPlane) : Event → Prop
  | .addNode node | .updateNode node => node.name = n → NodeFollowed w e node
  | .processNextEnvoyResourceWorkItem r =>
    ∀ R, w.c.entry r = some R → GoSet.isEmpty R.ingressRef → (e.lookup R.slot).isSome →
      n ∈ nodesToSend w.c.lc R.nodeGroup
  | _ => True

def ReplicaKept (n : GoString) (s : System K) : SystemEvent → Prop
  | .controller event => ∀ e, s.held = .ok e → EventFollowed n s.w e event
  | .deliver => True

/-- Resources keep their slots and groups, and one that is not queued is as it was. -/
structure Evolved (c c' : Controller) : Prop where
  persists : ∀ r R, c.entry r = some R → ∃ R', c'.entry r = some R' ∧ R'.slot = R.slot ∧
    R'.nodeGroup = R.nodeGroup
  unqueued : ∀ r R', c'.entry r = some R' → r ∉ c'.resourceQueue → r ∉ c.resourceQueue ∧
    ∃ R, c.entry r = some R ∧ R'.slot = R.slot ∧ R'.nodeGroup = R.nodeGroup ∧ R'.spec = R.spec

theorem Quiet.evolved {c c' : Controller} (h : Quiet c c') : Evolved c c' where
  persists r R hR := ⟨R, (h.entry r).trans hR, rfl, rfl⟩
  unqueued r R' hR' hq :=
    ⟨fun hm => hq (h.keeps r hm), R', (h.entry r).symm.trans hR', rfl, rfl, rfl⟩

theorem Evolved.trans {c₁ c₂ c₃ : Controller} (h : Evolved c₁ c₂) (h' : Evolved c₂ c₃) :
    Evolved c₁ c₃ where
  persists r R hR := by
    obtain ⟨R₂, hR₂, hslot, hgroup⟩ := h.persists r R hR
    obtain ⟨R₃, hR₃, hslot', hgroup'⟩ := h'.persists r R₂ hR₂
    exact ⟨R₃, hR₃, hslot'.trans hslot, hgroup'.trans hgroup⟩
  unqueued r R₃ hR₃ hq := by
    obtain ⟨hq₂, R₂, hR₂, hslot', hgroup', hspec'⟩ := h'.unqueued r R₃ hR₃ hq
    obtain ⟨hq₁, R₁, hR₁, hslot, hgroup, hspec⟩ := h.unqueued r R₂ hR₂ hq₂
    exact ⟨hq₁, R₁, hR₁, hslot'.trans hslot, hgroup'.trans hgroup, hspec'.trans hspec⟩

theorem Deleted.evolved {c c' : Controller} (h : Deleted key c c') :
    Evolved c c' where
  persists r R hR := by
    rw [h.entry, hR]
    split_ifs
    · exact ⟨R.release key, rfl, rfl, rfl⟩
    · exact ⟨R, rfl, rfl, rfl⟩
  unqueued r R' hR' hq := by
    refine ⟨fun hm => hq ((h.enqueued r).mpr (.inl hm)), ?_⟩
    rw [h.entry] at hR'
    split_ifs at hR'
    · obtain ⟨R, hR, rfl⟩ := Option.map_eq_some_iff.mp hR'
      exact ⟨R, hR, rfl, rfl, rfl⟩
    · exact ⟨R', hR', rfl, rfl, rfl⟩

theorem Dropped.evolved {fresh rs : List GoString} {c c' : Controller}
    (h : Dropped key fresh rs c c') : Evolved c c' where
  persists r R hR := by
    rw [h.entry, hR]
    split_ifs
    · exact ⟨R.release key, rfl, rfl, rfl⟩
    · exact ⟨R, rfl, rfl, rfl⟩
  unqueued r R' hR' hq := by
    refine ⟨fun hm => hq ((h.enqueued r).mpr (.inl hm)), ?_⟩
    rw [h.entry] at hR'
    split_ifs at hR'
    · obtain ⟨R, hR, rfl⟩ := Option.map_eq_some_iff.mp hR'
      exact ⟨R, hR, rfl, rfl, rfl⟩
    · exact ⟨R', hR', rfl, rfl, rfl⟩

theorem Upserted.evolved {ingress : Ingress} {xs : List Resource} {c c' : Controller}
    (h : Upserted ingress xs c c') (hc : Typed H c) (hc' : Typed H c')
    (hqueued : ∀ x ∈ xs, x.key ∈ c'.resourceQueue) : Evolved c c' where
  persists r R hR := by
    by_cases hr : ∃ x ∈ xs, x.key = r
    · obtain ⟨x, hx, rfl⟩ := hr
      obtain ⟨R', hR', -, hns, hname, hgroup, -⟩ := h.entry x hx
      rw [hR] at hns hname hgroup
      exact ⟨R', hR', slot_congr (hc' _ R' hR') (hc _ R hR) hns hname, hgroup⟩
    · exact ⟨R, (h.other r fun x hx he => hr ⟨x, hx, he⟩).trans hR, rfl, rfl⟩
  unqueued r R' hR' hq := by
    refine ⟨fun hm => hq (h.keeps r hm), R', ?_, rfl, rfl, rfl⟩
    rwa [← h.other r fun x hx he => hq (he ▸ hqueued x hx)]

theorem Synced.evolved {c c' : Controller} (h : Synced H L key c c') (hc : Typed H c) :
    Evolved c c' := by
  cases h with
  | skipped hother hthere h =>
    rw [h]
    exact (Quiet.refl c).evolved
  | deleted hgone h => exact h.evolved
  | found ingress gen c₁ hsync hdrop hup hqueued =>
    have h₁ : Typed H c₁ := hc.of_released key fun r => by
      rw [hdrop.entry]
      split_ifs <;> simp
    have hgen : ∀ x ∈ gen, Generated H ingress x := fun x hx => generated_of_mem hsync.generates hx
    exact hdrop.evolved.trans (hup.evolved h₁ (h₁.upserted hgen hup) hqueued)

/-- The node holds only stored resources of its groups, and if messages for its groups
reach it, it holds all of those that are not queued. -/
structure Replicated (n : GoString) (w : World) (e : ControlPlane) : Prop where
  held : ∀ slot spec, e.lookup slot = some spec → ∃ r R, w.c.entry r = some R ∧ R.slot = slot ∧
    ∀ node, w.nodes.get n = some node → SharesGroup node R
  current : w.c.lc.getNodeStatus n = some .true → Recorded w n → ∀ r R node,
    w.c.entry r = some R → w.nodes.get n = some node → SharesGroup node R →
      r ∉ w.c.resourceQueue → e.lookup R.slot = some R.spec

theorem SharesGroup.of_nodeGroup {node : Node} (h : SharesGroup node R)
    (hgroup : R'.nodeGroup = R.nodeGroup) : SharesGroup node R' := by
  unfold SharesGroup
  rw [hgroup]
  exact h

theorem SharesGroup.of_label {node node' : Node} (h : SharesGroup node R)
    (hlabel : index node.labels nodeGroupLabel = index node'.labels nodeGroupLabel) :
    SharesGroup node' R := by
  unfold SharesGroup
  rw [← labelGroups_congr hlabel]
  exact h

theorem Replicated.evolve (h : Replicated n w e) (hc : Evolved w.c w'.c) (hlc : w'.c.lc = w.c.lc)
    (hnodes : w'.nodes = w.nodes) :
    Replicated n w' e where
  held slot spec hslot := by
    obtain ⟨r, R, hR, hRslot, hshares⟩ := h.held slot spec hslot
    obtain ⟨R', hR', hslot', hgroup⟩ := hc.persists r R hR
    refine ⟨r, R', hR', hslot'.trans hRslot, fun node hnode => ?_⟩
    rw [hnodes] at hnode
    exact (hshares node hnode).of_nodeGroup hgroup
  current hready hrec r R' node hR' hnode hshares hq := by
    obtain ⟨hq', R, hR, hslot, hgroup, hspec⟩ := hc.unqueued r R' hR' hq
    rw [hlc] at hready
    unfold Recorded at hrec
    rw [hlc, hnodes] at hrec
    rw [hnodes] at hnode
    rw [hslot, hspec]
    exact h.current hready hrec r R node hR hnode (hshares.of_nodeGroup hgroup.symm) hq'

theorem sendable_mem_nodesToSend {node : Node} (hready : w.c.lc.getNodeStatus n = some .true)
    (hrec : Recorded w n) (hnode : w.nodes.get n = some node) (hshares : SharesGroup node R) :
    n ∈ nodesToSend w.c.lc R.nodeGroup := by
  obtain ⟨node', hnode', hmem⟩ := hrec
  obtain rfl := Option.some.inj (hnode.symm.trans hnode')
  obtain ⟨g, hlabel, hg⟩ := hshares
  rw [nodesToSend, GoSet.mem_ofList, List.mem_flatMap]
  refine ⟨g, AList.mem_keys.mp hg, List.mem_filter.mpr ⟨hmem g hlabel, ?_⟩⟩
  simp [hready]

theorem drain_worker (opr : Operation) (nodes : GoSet GoString) (hn : IsDNSSubdomain n)
    (hR : R.Typed H) (e : ControlPlane) :
    ∃ e', drain K (messagesTo K n (nodes.keys.map fun node => ⟨R, opr, node⟩)) e = .ok e' ∧
      ∀ slot, e'.lookup slot = if n ∈ nodes ∧ slot = R.slot then Dispatch.value ⟨R, opr, n⟩
        else e.lookup slot := by
  have hmem (d : Dispatch) : d ∈ (nodes.keys.map fun node => (⟨R, opr, node⟩)) ↔
      ∃ m ∈ nodes, d = ⟨R, opr, m⟩ := by
    simp [AList.mem_keys, eq_comm]
  obtain ⟨e', hdrain, hmine, hother⟩ := drain_messagesTo
    (nodes.keys.map fun node => ⟨R, opr, node⟩) hn
    (by
      intro d hd
      obtain ⟨m, -, rfl⟩ := (hmem d).mp hd
      exact hR.1)
    (by
      intro d hd d' hd' _
      obtain ⟨m, -, rfl⟩ := (hmem d).mp hd
      obtain ⟨m', -, rfl⟩ := (hmem d').mp hd'
      rfl) e
  refine ⟨e', hdrain, fun slot => ?_⟩
  split_ifs with h
  · obtain ⟨hin, rfl⟩ := h
    exact hmine ⟨R, opr, n⟩ ((hmem _).mpr ⟨n, hin, rfl⟩) rfl
  · refine hother slot fun d hd hdn hslot => ?_
    obtain ⟨m, hm, rfl⟩ := (hmem d).mp hd
    exact h ⟨hdn ▸ hm, hslot.symm⟩

section

variable {r : GoString} {c' : Controller}

theorem eq_or_not_queued {q : GoString} (hq : q ∉ w.c.resourceQueue.erase r) :
    q = r ∨ q ∉ w.c.resourceQueue := by
  by_contra hnot
  obtain ⟨hne, hmem⟩ := not_or.mp hnot
  exact hq (GoSet.mem_erase.mpr ⟨hne, not_not.mp hmem⟩)

theorem key_eq_of_slot (hc : Typed H w.c) {r' : GoString} (hR : w.c.entry r = some R)
    (hR' : w.c.entry r' = some R') (hslot : R'.slot = R.slot) :
    r' = r := by
  have hkey := key_of_slot (hc r' R' hR') (hc r R hR) hslot
  rw [Controller.key_of_entry hR', Controller.key_of_entry hR] at hkey
  exact hkey

theorem Replicated.missing {lock : RWMutex} (h : Replicated n w e) (hentry : w.c.entry r = none)
    (hquiet : Quiet
      { w.c with resourceQueue := w.c.resourceQueue.erase r, resourceStoreLock := lock } c') :
    Replicated n { w with c := c' } e := by
  constructor
  · intro slot spec hslot
    obtain ⟨r', R, hR, hrest⟩ := h.held slot spec hslot
    exact ⟨r', R, (hquiet.entry r').trans hR, hrest⟩
  · intro hready hrec r' R node hR hnode hshares hq
    rw [hquiet.entry] at hR
    unfold Recorded at hrec
    rw [hquiet.lc] at hready hrec
    rcases eq_or_not_queued (fun hm => hq (hquiet.keeps r' hm)) with rfl | hq'
    · exact absurd (hR.symm.trans hentry) (Option.some_ne_none R)
    · exact h.current hready hrec r' R node hR hnode hshares hq'

theorem Replicated.inserted {e' : ControlPlane} (h : Replicated n w e) (hw : MembersLabelled w)
    (hc : Typed H w.c) (hentry : w.c.entry r = some R)
    (hquiet : Quiet { w.c with resourceQueue := w.c.resourceQueue.erase r } c')
    (hlookup : ∀ slot, e'.lookup slot =
      if n ∈ nodesToSend w.c.lc R.nodeGroup ∧ slot = R.slot then some R.spec else e.lookup slot) :
    Replicated n { w with c := c' } e' := by
  constructor
  · intro slot spec hslot
    rw [hlookup] at hslot
    split_ifs at hslot with hsent
    · refine ⟨r, R, (hquiet.entry r).trans hentry, hsent.2.symm, fun node hnode => ?_⟩
      obtain ⟨node', hnode', hshares⟩ := sharesGroup_of_nodesToSend hw hsent.1
      obtain rfl := Option.some.inj (hnode.symm.trans hnode')
      exact hshares
    · obtain ⟨r', R', hR', hrest⟩ := h.held slot spec hslot
      exact ⟨r', R', (hquiet.entry r').trans hR', hrest⟩
  · intro hready hrec r' R' node hR' hnode hshares hq
    rw [hquiet.entry] at hR'
    unfold Recorded at hrec
    rw [hquiet.lc] at hready hrec
    rcases eq_or_not_queued (fun hm => hq (hquiet.keeps r' hm)) with rfl | hq'
    · obtain rfl := Option.some.inj (hentry.symm.trans hR')
      rw [hlookup, if_pos ⟨sendable_mem_nodesToSend hready hrec hnode hshares, rfl⟩]
    · rw [hlookup]
      split_ifs with hsent
      · obtain rfl := key_eq_of_slot hc hentry hR' hsent.2
        obtain rfl := Option.some.inj (hentry.symm.trans hR')
        rfl
      · exact h.current hready hrec r' R' node hR' hnode hshares hq'

theorem Replicated.deleted {e' : ControlPlane} (h : Replicated n w e) (hc : Typed H w.c)
    (hentry : w.c.entry r = some R)
    (hquiet : Quiet { w.c with
      resourceQueue := w.c.resourceQueue.erase r
      resourceStore := w.c.resourceStore.remove r } c')
    (hlookup : ∀ slot, e'.lookup slot =
      if n ∈ nodesToSend w.c.lc R.nodeGroup ∧ slot = R.slot then none else e.lookup slot)
    (hkept : (e.lookup R.slot).isSome → n ∈ nodesToSend w.c.lc R.nodeGroup) :
    Replicated n { w with c := c' } e' := by
  have hentry' (r' : GoString) : c'.entry r' = if r' = r then none else w.c.entry r' :=
    (hquiet.entry r').trans (entry_remove _ r r')
  constructor
  · intro slot spec hslot
    rw [hlookup] at hslot
    split_ifs at hslot with hsent
    obtain ⟨r', R', hR', hRslot, hrest⟩ := h.held slot spec hslot
    have hr : r' ≠ r := by
      rintro rfl
      obtain rfl := Option.some.inj (hentry.symm.trans hR')
      refine hsent ⟨hkept ?_, hRslot.symm⟩
      rw [hRslot, hslot]
      rfl
    exact ⟨r', R', by rw [hentry', if_neg hr, hR'], hRslot, hrest⟩
  · intro hready hrec r' R' node hR' hnode hshares hq
    rw [hentry'] at hR'
    split_ifs at hR' with hr
    unfold Recorded at hrec
    rw [hquiet.lc] at hready hrec
    rw [hlookup, if_neg fun hsent => hr (key_eq_of_slot hc hentry hR' hsent.2)]
    refine h.current hready hrec r' R' node hR' hnode hshares ?_
    exact (eq_or_not_queued fun hm => hq (hquiet.keeps r' hm)).resolve_left hr

end

theorem Replicated.resource {r : GoString} {c₁ c' : Controller} (h : Replicated n w e)
    (hn : IsDNSSubdomain n) (hw : MembersLabelled w) (hc : Typed H w.c)
    (hsync : ResourceSynced r { w.c with resourceQueue := w.c.resourceQueue.erase r } c₁ ds)
    (hquiet : Quiet c₁ c')
    (hkept : ∀ R, w.c.entry r = some R → GoSet.isEmpty R.ingressRef → (e.lookup R.slot).isSome →
      n ∈ nodesToSend w.c.lc R.nodeGroup) :
    ∃ e', drain K (messagesTo K n ds) e = .ok e' ∧ Replicated n { w with c := c' } e' := by
  cases hsync with
  | missing lock hentry hc₁ hds =>
    subst hc₁ hds
    exact ⟨e, rfl, h.missing hentry hquiet⟩
  | inserted R hentry href hc₁ hds =>
    subst hc₁ hds
    obtain ⟨e', hdrain, hlookup⟩ := drain_worker .insert
      (nodesToSend w.c.lc R.nodeGroup) hn (hc r R hentry) e
    exact ⟨e', hdrain, h.inserted hw hc hentry hquiet hlookup⟩
  | deleted R hentry href hc₁ hds =>
    subst hc₁ hds
    obtain ⟨e', hdrain, hlookup⟩ := drain_worker .delete
      (nodesToSend w.c.lc R.nodeGroup) hn (hc r R hentry) e
    exact ⟨e', hdrain, h.deleted hc hentry hquiet hlookup (hkept R hentry href)⟩

theorem getNodeStatus_of_not_becomesReady {lc lc' : LocationCache} {node : Node}
    (hlc : ∀ m, lc'.getNodeStatus m = lc.getNodeStatus m) (hnot : ¬ BecomesReady lc node)
    (h : (lc'.updateEdgeNode node).getNodeStatus node.name = some .true) :
    lc.getNodeStatus node.name = some .true := by
  rw [getNodeStatus_updateEdgeNode, hlc] at h
  split_ifs at h with hlabel
  · by_contra hs
    refine hnot ⟨hlabel.2.1, ?_, fun hboth => hs hboth.2⟩
    obtain ⟨nsc, hfind, hstatus⟩ := Option.map_eq_some_iff.mp h
    exact ⟨nsc, List.mem_of_find?_eq_some hfind, by simpa using List.find?_some hfind, hstatus⟩
  · exact h

/-- An event of the node itself that meets its condition keeps the replica right. -/
theorem Replicated.node {node : Node} {lc' : LocationCache} (h : Replicated node.name w e)
    (hc : Typed H w.c) (hfollow : NodeFollowed w e node)
    (hstatus : ∀ m, lc'.getNodeStatus m = w.c.lc.getNodeStatus m)
    (hds : ∀ d, d ∈ ds ↔ BecomesReady w.c.lc node ∧
      ∃ R ∈ w.c.resourceStore.objects, d = ⟨R, .insert, node.name⟩) :
    ∃ e', drain K (messagesTo K node.name ds) e = .ok e' ∧ Replicated node.name
      { w with c := { w.c with lc := lc'.updateEdgeNode node }, nodes := w.nodes.put node } e' := by
  have hentry {R : Resource} hR : w.c.entry R.key = some R :=
    Indexer.get_eq_some.mpr ⟨hR, rfl⟩
  have hput : (w.nodes.put node).get node.name = some node := by simp [Indexer.get_put]
  obtain ⟨e', hdrain, hmine, hother⟩ := drain_messagesTo ds node.name_valid
    (fun d hd => by
      obtain ⟨-, R, hR, rfl⟩ := (hds d).mp hd
      exact (hc _ R (hentry hR)).1)
    (fun d hd d' hd' hslot => by
      obtain ⟨-, R, hR, rfl⟩ := (hds d).mp hd
      obtain ⟨-, R', hR', rfl⟩ := (hds d').mp hd'
      have hkey := key_of_slot (hc _ R (hentry hR)) (hc _ R' (hentry hR')) hslot
      rw [Indexer.key_inj hR hR' hkey]) e
  refine ⟨e', hdrain, ?_⟩
  by_cases hready : BecomesReady w.c.lc node
  · have hall (r : GoString) (R : Resource) (hR : w.c.entry r = some R) :
        e'.lookup R.slot = some R.spec :=
      hmine ⟨R, .insert, node.name⟩
        ((hds _).mpr ⟨hready, R, (Indexer.get_eq_some.mp hR).1, rfl⟩) rfl
    have hshare := hfollow.1 hready
    refine ⟨?_, fun _ _ r R _ hR _ _ _ => hall r R hR⟩
    intro slot spec hslot
    have hstored : ∃ r R, w.c.entry r = some R ∧ R.slot = slot := by
      by_cases hd : ∃ d ∈ ds, d.node = node.name ∧ d.resource.slot = slot
      · obtain ⟨d, hd, -, hdslot⟩ := hd
        obtain ⟨-, R, hR, rfl⟩ := (hds d).mp hd
        exact ⟨R.key, R, hentry hR, hdslot⟩
      · rw [hother slot fun d hdm hdn hds => hd ⟨d, hdm, hdn, hds⟩] at hslot
        obtain ⟨r, R, hR, hRslot, -⟩ := h.held slot spec hslot
        exact ⟨r, R, hR, hRslot⟩
    obtain ⟨r, R, hR, hRslot⟩ := hstored
    refine ⟨r, R, hR, hRslot, fun node' hnode' => ?_⟩
    obtain rfl := Option.some.inj (hput.symm.trans hnode')
    exact hshare r R hR
  · have hsame (slot : ResourceKind × GoString) : e'.lookup slot = e.lookup slot :=
      hother slot fun d hd => absurd ((hds d).mp hd).1 hready
    obtain ⟨hheld, hcurrent⟩ := hfollow.2 hready
    constructor
    · intro slot spec hslot
      rw [hsame] at hslot
      obtain ⟨r, R, hR, hRslot, hshares⟩ := h.held slot spec hslot
      refine ⟨r, R, hR, hRslot, fun node' hnode' => ?_⟩
      obtain rfl := Option.some.inj (hput.symm.trans hnode')
      by_cases hlabel : LabelKept w node
      · obtain ⟨old, hold, hlabel⟩ := hlabel
        exact (hshares old hold).of_label hlabel
      · exact hheld hlabel r R hR (by rw [hRslot, hslot]; rfl)
    · intro hnow hrec r R node' hR hnode' hshares hq
      obtain rfl := Option.some.inj (hput.symm.trans hnode')
      have hbefore := getNodeStatus_of_not_becomesReady hstatus hready hnow
      rw [hsame]
      by_cases hlabel : LabelKept w node ∧ Recorded w node.name
      · obtain ⟨⟨old, hold, hlabel⟩, hrec⟩ := hlabel
        exact h.current hbefore hrec r R old hR hold (hshares.of_label hlabel.symm) hq
      · exact hcurrent hbefore hlabel r R hR hq hshares

section

variable (h : Replicated n w e) (hentry : ∀ r, w'.c.entry r = w.c.entry r)
include h hentry

theorem Replicated.other (hqueue : w'.c.resourceQueue = w.c.resourceQueue)
    (hnodes : w'.nodes.get n = w.nodes.get n)
    (hstatus : w'.c.lc.getNodeStatus n = w.c.lc.getNodeStatus n)
    (hmembers : ∀ g, n ∈ w'.c.lc.members g ↔ n ∈ w.c.lc.members g) : Replicated n w' e where
  held slot spec hslot := by
    obtain ⟨r, R, hR, hrest⟩ := h.held slot spec hslot
    rw [hnodes]
    exact ⟨r, R, (hentry r).trans hR, hrest⟩
  current hready hrec r R node hR hnode hshares hq := by
    unfold Recorded at hrec
    simp only [hnodes, hmembers] at hrec
    rw [hentry] at hR
    rw [hnodes] at hnode
    rw [hqueue] at hq
    exact h.current (hstatus ▸ hready) hrec r R node hR hnode hshares hq

theorem Replicated.gone (hnodes : w'.nodes.get n = none) :
    Replicated n w' e where
  held slot spec hslot := by
    obtain ⟨r, R, hR, hRslot, -⟩ := h.held slot spec hslot
    refine ⟨r, R, (hentry r).trans hR, hRslot, fun node hnode => ?_⟩
    rw [hnodes] at hnode
    cases hnode
  current _ _ _ _ node _ hnode := by
    rw [hnodes] at hnode
    cases hnode

end

theorem Quiet.typed {c c' : Controller} (h : Quiet c c') (hc : Typed H c) : Typed H c' :=
  fun r R hR => hc r R (h.entry r ▸ hR)

theorem react_typed (event : Event) (hw : Typed H w.c) (h : react H w event = some (w', ds)) :
    Typed H w'.c := by
  cases event with
  | object L event =>
    obtain ⟨c', hquiet, rfl, -⟩ := react_object h
    exact hquiet.typed hw
  | addNode node =>
    obtain ⟨-, rfl, -⟩ := react_addNode h
    exact hw
  | updateNode cur =>
    obtain ⟨old, -, rfl, -⟩ := react_updateNode h
    exact hw
  | deleteNode name =>
    obtain ⟨node, -, rfl, -⟩ := react_deleteNode h
    exact hw
  | processNextIngressWorkItem L key =>
    obtain ⟨c₁, c', hstep, hquiet, rfl, -⟩ := react_ingress h
    have hc : Typed H { w.c with queue := w.c.queue.erase key } := hw
    exact hquiet.typed (typed_step _ _ c₁ hc hstep)
  | processNextEnvoyResourceWorkItem r =>
    obtain ⟨c₁, c', hsync, hquiet, rfl⟩ := react_resource h
    have hc : Typed H { w.c with resourceQueue := w.c.resourceQueue.erase r } := hw
    exact hquiet.typed fun r R hR => hc r R (hsync.entry hR)

/-- An event of the controller that meets its condition keeps the replica right. -/
theorem react_replicated (event : Event) (hn : IsDNSSubdomain n) (hw : MembersLabelled w)
    (hc : Typed H w.c) (h : Replicated n w e) (hkept : EventFollowed n w e event)
    (hreact : react H w event = some (w', ds)) :
    ∃ e', drain K (messagesTo K n ds) e = .ok e' ∧ Replicated n w' e' := by
  have hnone {node : Node} (hname : node.name ≠ n) (hds : ∀ d, d ∈ ds ↔ BecomesReady w.c.lc node ∧
      ∃ R ∈ w.c.resourceStore.objects, d = ⟨R, .insert, node.name⟩) : messagesTo K n ds = [] := by
    have hfilter : ds.filter (·.node = n) = [] := by
      rw [List.filter_eq_nil_iff]
      intro d hd
      obtain ⟨-, R, -, rfl⟩ := (hds d).mp hd
      simpa using hname
    simp [messagesTo, hfilter]
  cases event with
  | object L event =>
    obtain ⟨c', hquiet, rfl, rfl⟩ := react_object hreact
    exact ⟨e, rfl, h.evolve hquiet.evolved hquiet.lc rfl⟩
  | addNode node =>
    obtain ⟨-, rfl, hds⟩ := react_addNode hreact
    by_cases hname : node.name = n
    · subst hname
      exact h.node hc (hkept rfl) (by simp) hds
    · have hne : ¬ n = node.name := fun he => hname he.symm
      refine ⟨e, by rw [hnone hname hds]; rfl, h.other (fun _ => rfl) rfl ?_ ?_ ?_⟩
      · simp [Indexer.get_put, hne]
      · simp [getNodeStatus_updateEdgeNode, hne]
      · simp [mem_members_updateNodeGroup, hne]
  | updateNode cur =>
    obtain ⟨old, hold, rfl, hds⟩ := react_updateNode hreact
    have hcur : old.name = cur.name := (Indexer.get_eq_some.mp hold).2
    by_cases hname : cur.name = n
    · subst hname
      exact h.node hc (hkept rfl) (by simp) hds
    · have hne : ¬ n = cur.name := fun he => hname he.symm
      refine ⟨e, by rw [hnone hname hds]; rfl, h.other (fun _ => rfl) rfl ?_ ?_ ?_⟩
      · simp [Indexer.get_put, hne]
      · simp [getNodeStatus_updateEdgeNode, hne]
      · intro g
        rw [members_updateEdgeNode]
        exact mem_members_regroup hcur hne
  | deleteNode name =>
    obtain ⟨node, hnode, rfl, rfl⟩ := react_deleteNode hreact
    have hcur : node.name = name := (Indexer.get_eq_some.mp hnode).2
    refine ⟨e, rfl, ?_⟩
    by_cases hname : name = n
    · subst hname
      exact h.gone (fun _ => rfl) (by simp [Indexer.get_remove])
    · have hne : ¬ n = name := fun he => hname he.symm
      refine h.other (fun _ => rfl) rfl ?_ ?_ ?_
      · simp [Indexer.get_remove, hne]
      · unfold deleteNode deleteEdgeNode getNodeStatus
        rw [GoMap.lookup_erase, hcur, if_neg hne]
        exact getNodeStatus_deleteNodeGroup _ _ _
      · simp [deleteNode, mem_members_deleteNodeGroup, hcur, hne]
  | processNextIngressWorkItem L key =>
    obtain ⟨c₁, c', hstep, hquiet, rfl, rfl⟩ := react_ingress hreact
    have hc₀ : Typed H { w.c with queue := w.c.queue.erase key } := hc
    have hevolved := ((step_syncEnvoyIngress hstep).evolved hc₀).trans hquiet.evolved
    have hlc := step_syncEnvoyIngress_lc hstep
    exact ⟨e, rfl, h.evolve ⟨hevolved.persists, hevolved.unqueued⟩ (hquiet.lc.trans hlc) rfl⟩
  | processNextEnvoyResourceWorkItem r =>
    obtain ⟨c₁, c', hsync, hquiet, rfl⟩ := react_resource hreact
    exact h.resource hn hw hc hsync hquiet hkept

/-- What holds in every state of a run that meets the conditions. -/
structure Following (H : Digest) (n : GoString) (s : System K) : Prop where
  typed : Typed H s.w.c
  members : MembersLabelled s.w
  replicated : ∃ e, s.held = .ok e ∧ Replicated n s.w e

theorem following_step (hn : IsDNSSubdomain n) (s : System K) (a : SystemEvent) (s' : System K)
    (hs : Following H n s) (hkept : ReplicaKept n s a) (h : systemStep K H n s a = some s') :
    Following H n s' := by
  obtain ⟨hc, hw, e, he, hrep⟩ := hs
  cases a with
  | controller event =>
    obtain ⟨⟨w', ds⟩, hreact, rfl⟩ := Option.map_eq_some_iff.mp h
    obtain ⟨e', hdrain, hrep'⟩ := react_replicated event hn hw hc hrep (hkept e he) hreact
    refine ⟨react_typed event hc hreact, react_membersLabelled event hw hreact, e', ?_, hrep'⟩
    exact (loopM_append he).trans hdrain
  | deliver =>
    unfold systemStep at h
    cases hms : s.inFlight with
    | nil =>
      rw [hms] at h
      cases h
    | cons m ms =>
      rw [hms] at h
      obtain ⟨e₁, hproc, rfl⟩ := Option.map_eq_some_iff.mp h
      refine ⟨hc, hw, e, ?_, hrep⟩
      unfold System.held at he
      rw [hms] at he
      obtain ⟨e₂, hproc₂, hdrain⟩ := ok_of_bind he
      obtain rfl := Except.ok.inj (hproc₂.symm.trans (toOption_eq_some.mp hproc))
      exact hdrain

theorem initiateEnvoyResources_queued {c₀ c : Controller} (hfresh : c₀.Fresh)
    (h : initiateEnvoyResources H L c₀ = .ok c) :
    ∀ r R, c.entry r = some R → r ∈ c.resourceQueue := by
  have hfirst : ∀ r R, c₀.entry r = some R → r ∈ c₀.resourceQueue := by
    intro r R hR
    rw [hfresh.entry r] at hR
    cases hR
  refine loopM_invariant (I := fun _ c => ∀ r R, c.entry r = some R → r ∈ c.resourceQueue)
    ?_ hfirst h
  intro done ingress s s' hs h
  rcases initiateIngress_ok h with ⟨-, rfl⟩ | ⟨-, gen, c₁, hgen, hentry, -, -, hqueue, hup⟩
  · exact hs
  · intro r R hR
    have hold (R₁ : Resource) (hR₁ : s.entry r = some R₁) : r ∈ s'.resourceQueue :=
      hup.keeps r (hqueue ▸ hs r R₁ hR₁)
    cases hr : s.entry r with
    | some R₁ => exact hold R₁ hr
    | none =>
      by_cases hx : ∃ x ∈ gen, x.key = r
      · obtain ⟨x, hx, rfl⟩ := hx
        exact hup.enqueues x hx ((hentry x.key).trans hr)
      · rw [hup.other r fun x hxm he => hx ⟨x, hxm, he⟩, hentry, hr] at hR
        cases hR

theorem start_following {nodes : Indexer Node (·.name)} (h : start H L nodes = .ok w) :
    Following (K := K) H n { w := w } := by
  have hmembers := start_membersLabelled h
  obtain ⟨c, hc, h⟩ := ok_of_bind h
  cases h
  have hfresh := Controller.fresh_empty (initCache nodes.objects {})
  refine ⟨initiateEnvoyResources_typed hfresh hc, hmembers, {}, rfl, ⟨?_, ?_⟩⟩
  · intro slot spec hslot
    cases hslot
  · intro _ _ r R _ hR _ _ hq
    exact absurd (initiateEnvoyResources_queued hfresh hc r R hR) hq

theorem Following.converged {s : System K} (h : Following H n s) (hq : Quiescent n s) :
    Converged n s := by
  obtain ⟨e, he, hrep⟩ := h.replicated
  unfold System.held at he
  rw [hq.inFlight] at he
  cases he
  have hnot (r : GoString) : r ∉ s.w.c.resourceQueue := GoSet.isEmpty_iff.mp hq.resourceQueue r
  obtain ⟨node, hnode, -⟩ := id hq.recorded
  intro slot spec
  constructor
  · intro hslot
    obtain ⟨r, R, hR, rfl, hshares⟩ := hrep.held slot spec hslot
    have hcur := hrep.current hq.ready hq.recorded r R node hR hnode (hshares node hnode) (hnot r)
    exact ⟨r, R, node, hR, hnode, hshares node hnode, rfl, Option.some.inj (hcur.symm.trans hslot)⟩
  · rintro ⟨r, R, node, hR, hnode, hshares, rfl, rfl⟩
    exact hrep.current hq.ready hq.recorded r R node hR hnode hshares (hnot r)

/-- In every run whose events meet their conditions, the node agrees with the store in
every quiescent state. -/
theorem edge_replica_converges (K : Codec) (H : Digest) {L : Listers}
    {nodes : Indexer Node (·.name)} {w : World} {n : GoString} (hn : IsDNSSubdomain n)
    (hstart : start H L nodes = .ok w) (events : List SystemEvent)
    (hkept : Along (systemStep K H n) (ReplicaKept n) { w := w } events) :
    Always (systemStep K H n) (fun s => Quiescent n s → Converged n s) { w := w } events :=
  (always_of_along (following_step hn) (start_following hstart) hkept).mono
    fun _ hs hq => hs.converged hq

namespace Sample

/-- The ingress `web` without rules, for which only a secret is generated. -/
def secretOnly : Ingress := { web (str "edge") tlsCert with rules := [] }

def withSecretOnly : Listers :=
  { withService ∅ with ingresses := ⟨[secretOnly], by simp⟩ }

def edgeNodes : Indexer Node (·.name) := ⟨[readyNode (str "edge")], by simp⟩

/-- The node of the group `edge` with a Ready condition that is False. -/
def awayNode : Node := { readyNode (str "edge") with conditions := [⟨.ready, .false⟩] }

def certKey : GoString := str "default/default_cert_da39a3ee5e"

def sendSecret : List SystemEvent :=
  [.controller (.processNextEnvoyResourceWorkItem certKey), .deliver]

/-- The ingress is deleted while the node is away; then the node comes back. -/
def deleteWhileAway : List SystemEvent :=
  [.controller (.updateNode awayNode),
   .controller (.object {} (.deleteIngress secretOnly)),
   .controller (.processNextIngressWorkItem {} (str "default/web")),
   .controller (.processNextEnvoyResourceWorkItem certKey),
   .controller (.updateNode (readyNode (str "edge")))]

end Sample

open Sample

/-- What a state shows of the sample node and of the secret. -/
structure View where
  queueEmpty : Bool
  resourceQueueEmpty : Bool
  inFlight : ℕ
  status : Option ConditionStatus
  groups : Option (List GoString)
  member : Bool
  stored : ℕ
  held : Bool
  deriving DecidableEq

def view (s : System codec) : View where
  queueEmpty := GoSet.isEmpty s.w.c.queue
  resourceQueueEmpty := GoSet.isEmpty s.w.c.resourceQueue
  inFlight := s.inFlight.length
  status := s.w.c.lc.getNodeStatus (str "node")
  groups := (s.w.nodes.get (str "node")).map labelGroups
  member := decide (str "node" ∈ s.w.c.lc.members (str "edge"))
  stored := s.w.c.resourceStore.objects.length
  held := (s.edge.lookup (.secret, str "default/Secret/envoydefault_cert_da39a3ee5e")).isSome

/-- Nothing is queued or in flight, and the node is recorded in its group. -/
def settled (stored : ℕ) : View :=
  ⟨true, true, 0, some .true, some [str "edge"], true, stored, true⟩

theorem quiescent_of_view {s : System codec} {k : ℕ}
    (h : view s = settled k) : Quiescent (str "node") s := by
  simp only [view, settled, View.mk.injEq] at h
  obtain ⟨hqueue, hres, hflight, hstatus, hnode, hmember, -⟩ := h
  obtain ⟨node, hget, hgroups⟩ := Option.map_eq_some_iff.mp hnode
  refine ⟨hqueue, hres, List.length_eq_zero_iff.mp hflight, hstatus, node, hget, ?_⟩
  intro g hg
  rw [hgroups, List.mem_singleton] at hg
  subst hg
  exact of_decide_eq_true hmember

/-- A secret that is sent and delivered is stored at the node. -/
theorem edge_replica_converges_secret :
    ∃ w s, start digest withSecretOnly edgeNodes = .ok w ∧
      run (systemStep codec digest (str "node")) { w := w } sendSecret = some s ∧
      Quiescent (str "node") s ∧ Converged (str "node") s := by
  have hrun : (start digest withSecretOnly edgeNodes).toOption.map (fun w =>
      ((w.c.entry certKey).map fun R => GoSet.isEmpty R.ingressRef,
       (run (systemStep codec digest (str "node")) { w := w } sendSecret).map
         view)) =
      some (some false, some (settled 1)) := by
    decide +kernel
  obtain ⟨w, hw, hread⟩ := Option.map_eq_some_iff.mp hrun
  rw [toOption_eq_some] at hw
  obtain ⟨href, hview⟩ := Prod.mk.inj hread
  obtain ⟨s, hs, hview⟩ := Option.map_eq_some_iff.mp hview
  have hq := quiescent_of_view hview
  refine ⟨w, s, hw, hs, hq, ?_⟩
  refine (edge_replica_converges codec digest (by decide +kernel) hw
    sendSecret ?_).last hs hq
  intro s₁ _
  refine ⟨?_, fun s₂ _ => ⟨trivial, trivial⟩⟩
  intro e _ R hR hempty
  rw [show w.c.entry certKey = some R from hR, Option.map_some, hempty] at href
  cases href

/-- A deletion while the node is away is not sent, and the resend does not make up for it:
the node keeps the secret of an ingress that is gone. -/
theorem deleted_while_away_stays :
    ∃ w, start digest withSecretOnly edgeNodes = .ok w ∧
      ¬ Always (systemStep codec digest (str "node"))
        (fun s => Quiescent (str "node") s → Converged (str "node") s) { w := w }
        (sendSecret ++ deleteWhileAway) := by
  have hrun : (start digest withSecretOnly edgeNodes).toOption.map (fun w =>
      (run (systemStep codec digest (str "node")) { w := w }
        (sendSecret ++ deleteWhileAway)).map view) =
      some (some (settled 0)) := by
    decide +kernel
  obtain ⟨w, hw, hread⟩ := Option.map_eq_some_iff.mp hrun
  obtain ⟨s, hs, hview⟩ := Option.map_eq_some_iff.mp hread
  refine ⟨w, toOption_eq_some.mp hw, fun h => ?_⟩
  have hconv := h.last hs (quiescent_of_view hview)
  simp only [view, settled, View.mk.injEq] at hview
  obtain ⟨-, -, -, -, -, -, hempty, hheld⟩ := hview
  obtain ⟨spec, hspec⟩ := Option.isSome_iff_exists.mp hheld
  obtain ⟨r, R, -, hR, -⟩ := (hconv _ spec).mp hspec
  have hmem := (Indexer.get_eq_some.mp hR).1
  rw [List.length_eq_zero_iff.mp hempty] at hmem
  cases hmem

end KubeEdge.Envoy
