import KubeEdge.Go.Machine
import KubeEdge.Envoy.Groups
import KubeEdge.Envoy.Handlers

namespace KubeEdge.Envoy
open Go Go.Machine LocationCache

/-- An event of an ingress, service, endpoints object or secret. -/
inductive ObjectEvent
  | addIngress (ingress : Ingress)
  | updateIngress (old cur : Ingress)
  | deleteIngress (ingress : Ingress)
  | addV1beta1Ingress (ingress : V1beta1.Ingress)
  | updateV1beta1Ingress (old cur : V1beta1.Ingress)
  | deleteV1beta1Ingress (ingress : V1beta1.Ingress)
  | addService (service : Service)
  | updateService (old cur : Service)
  | deleteService (service : Service)
  | addEndpoint (endpoint : Endpoints)
  | updateEndpoint (old cur : Endpoints)
  | deleteEndpoint (endpoint : Endpoints)
  | addSecret (secret : Secret)
  | updateSecret (old cur : Secret)
  | deleteSecret (secret : Secret)

def handle (L : Listers) (c : Controller) : ObjectEvent → M Controller
  | .addIngress ingress => .ok (addIngress ingress c)
  | .updateIngress old cur => .ok (updateIngress old cur c)
  | .deleteIngress ingress => .ok (deleteIngress ingress c)
  | .addV1beta1Ingress ingress => .ok (addV1beta1Ingress ingress c)
  | .updateV1beta1Ingress old cur => .ok (updateV1beta1Ingress old cur c)
  | .deleteV1beta1Ingress ingress => .ok (deleteV1beta1Ingress ingress c)
  | .addService service => addService L service c
  | .updateService old cur => updateService L old cur c
  | .deleteService service => deleteService L service c
  | .addEndpoint endpoint => addEndpoint L endpoint c
  | .updateEndpoint old cur => updateEndpoint L old cur c
  | .deleteEndpoint endpoint => deleteEndpoint L endpoint c
  | .addSecret secret => .ok (addSecret L secret c)
  | .updateSecret old cur => .ok (updateSecret L old cur c)
  | .deleteSecret secret => .ok (deleteSecret L secret c)

/-- An item whose sync returns an error waits again. -/
def processNextIngressWorkItem (H : Digest) (L : Listers) (key : GoString) (c : Controller) :
    M Controller := do
  let (c, err) ← syncEnvoyIngress H L key { c with queue := c.queue.erase key }
  .ok (if err.isSome then { c with queue := GoSet.add key c.queue } else c)

def processNextEnvoyResourceWorkItem (r : GoString) (c : Controller) :
    M (Controller × List Dispatch) := do
  let (c, ds, err) ← syncEnvoyResource r { c with resourceQueue := c.resourceQueue.erase r }
  .ok (if err.isSome then { c with resourceQueue := GoSet.add r c.resourceQueue } else c, ds)

/-- The controller, the nodes as they were delivered last, and the groups each ingress
had when it was last synced. -/
structure World where
  c : Controller
  nodes : Indexer Node (·.name)
  last : GoString → List GoString

def World.tracked (w : World) : Tracked := ⟨w.c, w.last⟩

inductive Event
  | object (L : Listers) (event : ObjectEvent)
  | addNode (node : Node)
  | updateNode (cur : Node)
  | deleteNode (name : GoString)
  | processNextIngressWorkItem (L : Listers) (key : GoString)
  | processNextEnvoyResourceWorkItem (r : GoString)

/-- What an event does and which messages it dispatches.  A node is added when it is not
known, or known from `initCache` with the label it is added with. -/
def react (H : Digest) (w : World) : Event → Option (World × List Dispatch)
  | .object L event => (handle L w.c event).toOption.map fun c => ({ w with c := c }, [])
  | .addNode node =>
    if ∀ old ∈ w.nodes.get node.name,
        index old.labels nodeGroupLabel = index node.labels nodeGroupLabel then
      some ({ w with c := (addNode node w.c).1, nodes := w.nodes.put node }, (addNode node w.c).2)
    else none
  | .updateNode cur =>
    (w.nodes.get cur.name).map fun old =>
      ({ w with c := (updateNode old cur w.c).1, nodes := w.nodes.put cur },
        (updateNode old cur w.c).2)
  | .deleteNode name =>
    (w.nodes.get name).map fun node =>
      ({ w with c := deleteNode node w.c, nodes := w.nodes.remove name }, [])
  | .processNextIngressWorkItem L key =>
    if key ∈ w.c.queue then
      (processNextIngressWorkItem H L key w.c).toOption.map fun c =>
        ({ w with c := c, last := noteSync L key w.last }, [])
    else none
  | .processNextEnvoyResourceWorkItem r =>
    if r ∈ w.c.resourceQueue then
      (processNextEnvoyResourceWorkItem r w.c).toOption.map fun (c, ds) => ({ w with c := c }, ds)
    else none

def advance (H : Digest) (w : World) (event : Event) : Option World :=
  (react H w event).map (·.1)

/-- `Run` up to the start of the workers. -/
def start (H : Digest) (L : Listers) (nodes : Indexer Node (·.name)) : M World := do
  let c ← initiateEnvoyResources H L { lc := initCache nodes.objects {} }
  .ok ⟨c, nodes, startupLast (startupIngresses L)⟩

variable {H : Digest} {L : Listers} {w w' : World} {ds : List Dispatch} {event : ObjectEvent}
  {key : GoString}

theorem react_of_advance {event : Event} (h : advance H w event = some w') :
    ∃ ds, react H w event = some (w', ds) := by
  obtain ⟨⟨_, ds⟩, hr, rfl⟩ := Option.map_eq_some_iff.mp h
  exact ⟨ds, hr⟩

theorem addService_quiet {service : Service} {c c' : Controller}
    (h : addService L service c = .ok c') : Quiet c c' := by
  obtain ⟨ingresses, -, h⟩ := ok_of_bind h
  cases h
  exact foldl_enqueue_quiet ingresses c

theorem updateIngress_quiet (old cur : Ingress) (c : Controller) :
    Quiet c (updateIngress old cur c) := by
  have hdel :
      Quiet c (if cur.uid ≠ old.uid ∧ isEnvoyIngress old then deleteIngress old c else c) := by
    split_ifs
    · exact ⟨rfl, rfl, rfl, fun _ => id⟩
    · exact Quiet.refl c
  unfold updateIngress
  by_cases henvoy : isEnvoyIngress cur
  · rw [if_pos henvoy]
    exact hdel.trans (enqueue_quiet _ cur)
  · rw [if_neg henvoy]
    exact hdel

theorem addIngress_quiet (ingress : Ingress) (c : Controller) : Quiet c (addIngress ingress c) := by
  unfold addIngress
  split_ifs
  · have hrec : Quiet c { c with
        ingressNodeGroupStore := (recordGroups (keyFunc ingress.toObjectMeta) (nodeGroupsOf ingress)
          c.ingressNodeGroupStore) } := ⟨rfl, rfl, rfl, fun _ => id⟩
    exact hrec.trans (enqueue_quiet _ ingress)
  · exact Quiet.refl c

theorem handle_quiet {c c' : Controller} (h : handle L c event = .ok c') : Quiet c c' := by
  have htwice {s s' : Service}
      (h : (deleteService L s c >>= fun c => addService L s' c) = .ok c') : Quiet c c' := by
    obtain ⟨c₁, h₁, h⟩ := ok_of_bind h
    exact (addService_quiet h₁).trans (addService_quiet h)
  cases event with
  | addIngress ingress => cases h; exact addIngress_quiet ingress c
  | updateIngress old cur => cases h; exact updateIngress_quiet old cur c
  | deleteIngress ingress | deleteV1beta1Ingress ingress =>
    cases h; exact ⟨rfl, rfl, rfl, fun _ => id⟩
  | addV1beta1Ingress ingress => cases h; exact addIngress_quiet _ c
  | updateV1beta1Ingress old cur => cases h; exact updateIngress_quiet _ _ c
  | addService service | deleteService service => exact addService_quiet h
  | updateService old cur =>
    change updateService L old cur c = .ok c' at h
    unfold updateService at h
    split_ifs at h
    · cases h
      exact Quiet.refl c
    · exact htwice h
  | addEndpoint endpoint =>
    change addEndpoint L endpoint c = .ok c' at h
    unfold addEndpoint at h
    split at h
    · cases h
      exact Quiet.refl c
    · exact addService_quiet h
  | updateEndpoint old cur =>
    change updateEndpoint L old cur c = .ok c' at h
    unfold updateEndpoint at h
    split_ifs at h
    · cases h
      exact Quiet.refl c
    · split at h
      · cases h
        exact Quiet.refl c
      · exact htwice h
  | deleteEndpoint endpoint =>
    change deleteEndpoint L endpoint c = .ok c' at h
    unfold deleteEndpoint at h
    split at h
    · cases h
      exact Quiet.refl c
    · exact addService_quiet h
  | addSecret secret | deleteSecret secret => cases h; exact foldl_enqueue_quiet _ c
  | updateSecret old cur =>
    cases h
    unfold updateSecret
    split_ifs
    · exact (foldl_enqueue_quiet _ c).trans (foldl_enqueue_quiet _ _)
    · exact Quiet.refl c

theorem react_object (h : react H w (.object L event) = some (w', ds)) :
    ∃ c', Quiet w.c c' ∧ w' = { w with c := c' } ∧ ds = [] := by
  obtain ⟨c', hc', heq⟩ := Option.map_eq_some_iff.mp h
  cases heq
  exact ⟨c', handle_quiet (toOption_eq_some.mp hc'), rfl, rfl⟩

theorem react_addNode {node : Node} (h : react H w (.addNode node) = some (w', ds)) :
    (∀ old, w.nodes.get node.name = some old →
      index old.labels nodeGroupLabel = index node.labels nodeGroupLabel) ∧
    w' = { w with
      c := { w.c with lc := (w.c.lc.updateNodeGroup node).updateEdgeNode node }
      nodes := w.nodes.put node } ∧
    ∀ d, d ∈ ds ↔ BecomesReady w.c.lc node ∧
      ∃ R ∈ w.c.resourceStore.objects, d = ⟨R, .insert, node.name⟩ := by
  unfold react at h
  dsimp only at h
  split_ifs at h with hknown
  cases h
  obtain ⟨hc, hds⟩ := addNode_spec node w.c
  exact ⟨hknown, by rw [hc], hds⟩

theorem react_updateNode {cur : Node} (h : react H w (.updateNode cur) = some (w', ds)) :
    ∃ old, w.nodes.get cur.name = some old ∧
    w' = { w with
      c := { w.c with lc := (w.c.lc.regroup old cur).updateEdgeNode cur }
      nodes := w.nodes.put cur } ∧
    ∀ d, d ∈ ds ↔ BecomesReady w.c.lc cur ∧
      ∃ R ∈ w.c.resourceStore.objects, d = ⟨R, .insert, cur.name⟩ := by
  obtain ⟨old, hold, heq⟩ := Option.map_eq_some_iff.mp h
  cases heq
  obtain ⟨hc, hds⟩ := updateNode_spec old cur w.c
  exact ⟨old, hold, by rw [hc], hds⟩

theorem react_deleteNode {name : GoString} (h : react H w (.deleteNode name) = some (w', ds)) :
    ∃ node, w.nodes.get name = some node ∧
    w' = { w with c := deleteNode node w.c, nodes := w.nodes.remove name } ∧ ds = [] := by
  obtain ⟨node, hnode, heq⟩ := Option.map_eq_some_iff.mp h
  cases heq
  exact ⟨node, hnode, rfl, rfl⟩

theorem react_ingress (h : react H w (.processNextIngressWorkItem L key) = some (w', ds)) :
    ∃ c₁ c', step H { w.c with queue := w.c.queue.erase key } (.syncEnvoyIngress L key) = some c₁ ∧
      Quiet c₁ c' ∧ w' = { w with c := c', last := noteSync L key w.last } ∧ ds = [] := by
  unfold react at h
  dsimp only at h
  split_ifs at h
  obtain ⟨c', hc', heq⟩ := Option.map_eq_some_iff.mp h
  cases heq
  obtain ⟨⟨c₁, err⟩, hsync, hc'⟩ := ok_of_bind (toOption_eq_some.mp hc')
  refine ⟨c₁, c', step_of_syncEnvoyIngress hsync, ?_, rfl, rfl⟩
  cases hc'
  split_ifs
  · exact ⟨rfl, rfl, rfl, fun _ => id⟩
  · exact Quiet.refl c₁

theorem react_resource {r : GoString}
    (h : react H w (.processNextEnvoyResourceWorkItem r) = some (w', ds)) :
    ∃ c₁ c', ResourceSynced r { w.c with resourceQueue := w.c.resourceQueue.erase r } c₁ ds ∧
      Quiet c₁ c' ∧ w' = { w with c := c' } := by
  unfold react at h
  dsimp only at h
  split_ifs at h
  obtain ⟨⟨c', ds'⟩, hc', heq⟩ := Option.map_eq_some_iff.mp h
  cases heq
  obtain ⟨⟨c₁, ds₁, err⟩, hsync, hc'⟩ := ok_of_bind (toOption_eq_some.mp hc')
  cases hc'
  refine ⟨c₁, _, syncEnvoyResource_ok hsync, ?_, rfl⟩
  split_ifs
  · exact ⟨rfl, rfl, rfl, fun q hq => GoSet.mem_add.mpr (.inr hq)⟩
  · exact Quiet.refl c₁

/-- A node is recorded only in groups of the label it was delivered with. -/
def MembersLabelled (w : World) : Prop :=
  ∀ g n, n ∈ w.c.lc.members g → ∃ node, w.nodes.get n = some node ∧ g ∈ labelGroups node

theorem label_of_mem_labelGroups {node : Node} {g : GoString} (h : g ∈ labelGroups node) :
    nodeGroupLabel ∈ node.labels := by
  by_contra hl
  have hindex : index node.labels nodeGroupLabel = [] := by
    unfold index
    rw [AList.lookup_eq_none.mpr hl]
    rfl
  unfold labelGroups at h
  rw [hindex] at h
  revert h
  decide +revert

theorem labelGroups_congr {old cur : Node}
    (h : index old.labels nodeGroupLabel = index cur.labels nodeGroupLabel) :
    labelGroups old = labelGroups cur := by
  unfold labelGroups
  rw [h]

theorem membersLabelled_initCache (nodes : Indexer Node (·.name)) {g n : GoString}
    (h : n ∈ (initCache nodes.objects {}).members g) :
    ∃ node, nodes.get n = some node ∧ g ∈ labelGroups node := by
  rcases mem_members_initCache.mp h with h | ⟨node, hmem, hname, -, -, hg⟩
  · cases h
  · exact ⟨node, Indexer.get_eq_some.mpr ⟨hmem, hname.symm⟩, hg⟩

theorem start_membersLabelled {nodes : Indexer Node (·.name)} (h : start H L nodes = .ok w) :
    MembersLabelled w := by
  obtain ⟨c, hc, h⟩ := ok_of_bind h
  cases h
  have hlc : c.lc = initCache nodes.objects {} := by
    refine loopM_invariant (I := fun _ c => c.lc = initCache nodes.objects {}) ?_ rfl hc
    intro done ingress s s' hs h
    rcases initiateIngress_ok h with ⟨-, rfl⟩ | ⟨-, gen, c₁, -, -, -, hlc, -, hup⟩
    · exact hs
    · rw [hup.lc, hlc, hs]
  intro g n hn
  rw [hlc] at hn
  exact membersLabelled_initCache nodes hn

theorem step_syncEnvoyIngress_lc {c c' : Controller}
    (h : step H c (.syncEnvoyIngress L key) = some c') : c'.lc = c.lc := by
  cases step_syncEnvoyIngress h with
  | skipped hother hthere h => rw [h]
  | deleted hgone h => exact h.lc
  | found ingress gen c₁ hsync hdrop hup hqueued => rw [hup.lc, hdrop.lc]

theorem ResourceSynced.lc {r : GoString} {c c' : Controller} (h : ResourceSynced r c c' ds) :
    c'.lc = c.lc := by
  cases h with
  | missing lock hentry h hds | inserted R hentry href h hds | deleted R hentry href h hds => rw [h]

theorem react_membersLabelled (event : Event) (hw : MembersLabelled w)
    (h : react H w event = some (w', ds)) : MembersLabelled w' := by
  cases event with
  | object L event =>
    obtain ⟨c', hquiet, rfl, -⟩ := react_object h
    intro g n hn
    exact hw g n (hquiet.lc ▸ hn)
  | addNode node =>
    obtain ⟨hknown, rfl, -⟩ := react_addNode h
    intro g n hn
    rw [members_updateEdgeNode, mem_members_updateNodeGroup] at hn
    rw [Indexer.get_put]
    rcases hn with ⟨rfl, -, -, hg⟩ | hn
    · exact ⟨node, if_pos rfl, hg⟩
    · obtain ⟨old, hold, hg⟩ := hw g n hn
      split_ifs with heq
      · subst heq
        exact ⟨node, rfl, labelGroups_congr (hknown old hold) ▸ hg⟩
      · exact ⟨old, hold, hg⟩
  | updateNode cur =>
    obtain ⟨old, hold, rfl, -⟩ := react_updateNode h
    have hname : old.name = cur.name := (Indexer.get_eq_some.mp hold).2
    intro g n hn
    rw [members_updateEdgeNode] at hn
    rw [Indexer.get_put]
    unfold regroup at hn
    split_ifs at hn with hlabel
    · rw [mem_members_updateNodeGroup, mem_members_deleteNodeGroup] at hn
      rcases hn with ⟨rfl, -, -, hg⟩ | ⟨hn, hnot⟩
      · exact ⟨cur, if_pos rfl, hg⟩
      · obtain ⟨node, hnode, hg⟩ := hw g n hn
        have hne : n ≠ cur.name := by
          rintro rfl
          obtain rfl := Option.some.inj (hold.symm.trans hnode)
          exact hnot ⟨hname.symm, label_of_mem_labelGroups hg, hg⟩
        exact ⟨node, by rw [if_neg hne, hnode], hg⟩
    · rw [not_not] at hlabel
      obtain ⟨node, hnode, hg⟩ := hw g n hn
      split_ifs with heq
      · subst heq
        obtain rfl := Option.some.inj (hold.symm.trans hnode)
        exact ⟨cur, rfl, labelGroups_congr hlabel.symm ▸ hg⟩
      · exact ⟨node, hnode, hg⟩
  | deleteNode name =>
    obtain ⟨node, hnode, rfl, -⟩ := react_deleteNode h
    have hname : node.name = name := (Indexer.get_eq_some.mp hnode).2
    intro g n hn
    dsimp only [deleteNode] at hn ⊢
    rw [members_deleteEdgeNode, mem_members_deleteNodeGroup] at hn
    obtain ⟨hn, hnot⟩ := hn
    obtain ⟨node', hnode', hg⟩ := hw g n hn
    have hne : n ≠ name := by
      rintro rfl
      obtain rfl := Option.some.inj (hnode.symm.trans hnode')
      exact hnot ⟨hname.symm, label_of_mem_labelGroups hg, hg⟩
    exact ⟨node', by rw [Indexer.get_remove, if_neg hne, hnode'], hg⟩
  | processNextIngressWorkItem L key =>
    obtain ⟨c₁, c', hstep, hquiet, rfl, -⟩ := react_ingress h
    intro g n hn
    rw [hquiet.lc, step_syncEnvoyIngress_lc hstep] at hn
    exact hw g n hn
  | processNextEnvoyResourceWorkItem r =>
    obtain ⟨c₁, c', hsync, hquiet, rfl⟩ := react_resource h
    intro g n hn
    rw [hquiet.lc, hsync.lc] at hn
    exact hw g n hn

end KubeEdge.Envoy
