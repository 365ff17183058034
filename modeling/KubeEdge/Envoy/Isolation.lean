import KubeEdge.Envoy.World

namespace KubeEdge.Envoy
open Go Go.Machine

variable {H : Digest} {L : Listers} {w w' : World} {ds : List Dispatch}
  {last : GoString → List GoString} {c' c : Controller}

def SharesGroup (node : Node) (R : Resource) : Prop := ∃ g ∈ labelGroups node, g ∈ R.nodeGroup

instance (node : Node) (R : Resource) : Decidable (SharesGroup node R) :=
  inferInstanceAs (Decidable (∃ g ∈ labelGroups node, g ∈ R.nodeGroup))

/-- Every message of the event goes to a node whose label has a group of the resource. -/
def Isolated (H : Digest) (w : World) (event : Event) : Prop :=
  ∀ w' ds, react H w event = some (w', ds) → ∀ d ∈ ds,
    ∃ node, w'.nodes.get d.node = some node ∧ SharesGroup node d.resource

/-- A node that becomes Ready has a group of every stored resource. -/
def ResendMatches (w : World) : Event → Prop
  | .addNode node | .updateNode node =>
    BecomesReady w.c.lc node → ∀ R ∈ w.c.resourceStore.objects, SharesGroup node R
  | _ => True

theorem sharesGroup_of_nodesToSend (hw : MembersLabelled w) {R : Resource} {n : GoString}
    (h : n ∈ nodesToSend w.c.lc R.nodeGroup) :
    ∃ node, w.nodes.get n = some node ∧ SharesGroup node R := by
  rw [nodesToSend, GoSet.mem_ofList, List.mem_flatMap] at h
  obtain ⟨g, hg, hn⟩ := h
  obtain ⟨node, hnode, hlabel⟩ := hw g n (List.mem_of_mem_filter hn)
  exact ⟨node, hnode, g, hlabel, AList.mem_keys.mpr hg⟩

theorem ResourceSynced.dispatch {r : GoString} (h : ResourceSynced r c c' ds) {d : Dispatch}
    (hd : d ∈ ds) :
    c.entry r = some d.resource ∧ d.node ∈ nodesToSend c.lc d.resource.nodeGroup ∧
      (d.opr = .insert → ¬ GoSet.isEmpty d.resource.ingressRef) := by
  cases h with
  | missing lock hentry h hds =>
    rw [hds] at hd
    cases hd
  | inserted R hentry href h hds =>
    rw [hds] at hd
    obtain ⟨n, hn, rfl⟩ := List.mem_map.mp hd
    exact ⟨hentry, AList.mem_keys.mpr hn, fun _ => href⟩
  | deleted R hentry href h hds =>
    rw [hds] at hd
    obtain ⟨n, hn, rfl⟩ := List.mem_map.mp hd
    exact ⟨hentry, AList.mem_keys.mpr hn, fun h => by cases h⟩

theorem isolated_iff (event : Event) (hw : MembersLabelled w) (h : advance H w event = some w') :
    Isolated H w event ↔ ResendMatches w event := by
  obtain ⟨ds, h⟩ := react_of_advance h
  have hresend {node : Node} {w₁ : World} {ds₁ : List Dispatch}
      (hget : w₁.nodes.get node.name = some node)
      (hr : react H w event = some (w₁, ds₁))
      (hds : ∀ d, d ∈ ds₁ ↔ BecomesReady w.c.lc node ∧
        ∃ R ∈ w.c.resourceStore.objects, d = ⟨R, .insert, node.name⟩) :
      Isolated H w event ↔ (BecomesReady w.c.lc node → ∀ R ∈ w.c.resourceStore.objects,
        SharesGroup node R) := by
    constructor
    · intro hiso hready R hR
      obtain ⟨node', hnode', hshares⟩ := hiso w₁ ds₁ hr _ ((hds _).mpr ⟨hready, R, hR, rfl⟩)
      obtain rfl := Option.some.inj (hget.symm.trans hnode')
      exact hshares
    · intro hmatch w₂ ds₂ hr₂ d hd
      obtain ⟨rfl, rfl⟩ := Prod.mk.inj (Option.some.inj (hr.symm.trans hr₂))
      obtain ⟨hready, R, hR, rfl⟩ := (hds d).mp hd
      exact ⟨node, hget, hmatch hready R hR⟩
  cases event with
  | addNode node =>
    obtain ⟨-, rfl, hds⟩ := react_addNode h
    exact hresend (by simp [Indexer.get_put]) h hds
  | updateNode cur =>
    obtain ⟨old, -, rfl, hds⟩ := react_updateNode h
    exact hresend (by simp [Indexer.get_put]) h hds
  | object L event =>
    refine iff_of_true ?_ trivial
    intro w₁ ds₁ hr d hd
    obtain ⟨-, -, -, rfl⟩ := react_object hr
    cases hd
  | deleteNode name =>
    refine iff_of_true ?_ trivial
    intro w₁ ds₁ hr d hd
    obtain ⟨-, -, -, rfl⟩ := react_deleteNode hr
    cases hd
  | processNextIngressWorkItem L key =>
    refine iff_of_true ?_ trivial
    intro w₁ ds₁ hr d hd
    obtain ⟨-, -, -, -, -, rfl⟩ := react_ingress hr
    cases hd
  | processNextEnvoyResourceWorkItem r =>
    refine iff_of_true ?_ trivial
    intro w₁ ds₁ hr d hd
    obtain ⟨c₁, c', hsync, -, rfl⟩ := react_resource hr
    exact sharesGroup_of_nodesToSend hw (hsync.dispatch hd).2.1

/-- A secret goes only to nodes with a group of an ingress that refers to it. -/
def SecretsIsolated (H : Digest) (w : World) (event : Event) : Prop :=
  ∀ w' ds, react H w event = some (w', ds) → ∀ d ∈ ds, d.opr = .insert →
    ∀ s, d.resource.spec = .secret s → ∃ node, w'.nodes.get d.node = some node ∧
      ∃ k ∈ d.resource.ingressRef, ∃ g ∈ labelGroups node, g ∈ w'.last k

/-- The groups of the resources stay right, and a node that becomes Ready has a group of
every stored secret, none of which waits for its deletion. -/
def SecretsFollowed (H : Digest) (w : World) : Event → Prop
  | .addNode node | .updateNode node =>
    BecomesReady w.c.lc node → ∀ R ∈ w.c.resourceStore.objects, ∀ s, R.spec = .secret s →
      SharesGroup node R ∧ ¬ GoSet.isEmpty R.ingressRef
  | .processNextIngressWorkItem L key => GroupsKept H w.tracked (.syncEnvoyIngress L key)
  | _ => True

theorem GroupsAgree.of_entry (h : GroupsAgree ⟨c, last⟩) (hentry : ∀ r, c'.entry r = c.entry r) :
    GroupsAgree ⟨c', last⟩ :=
  fun r R hR => h r R (hentry r ▸ hR)

theorem react_groupsAgree (event : Event) (hw : GroupsAgree w.tracked)
    (hf : SecretsFollowed H w event) (h : react H w event = some (w', ds)) :
    GroupsAgree w'.tracked := by
  cases event with
  | object L event =>
    obtain ⟨c', hquiet, rfl, -⟩ := react_object h
    exact hw.of_entry hquiet.entry
  | addNode node =>
    obtain ⟨-, rfl, -⟩ := react_addNode h
    exact hw
  | updateNode cur =>
    obtain ⟨old, -, rfl, -⟩ := react_updateNode h
    exact hw
  | deleteNode name =>
    obtain ⟨node, -, rfl, -⟩ := react_deleteNode h
    exact hw
  | processNextIngressWorkItem L key =>
    obtain ⟨c₁, c', hstep, hquiet, rfl, -⟩ := react_ingress h
    have ht : GroupsAgree ⟨{ w.c with queue := w.c.queue.erase key }, w.last⟩ := hw
    have htracked : trackedStep H ⟨{ w.c with queue := w.c.queue.erase key }, w.last⟩
        (.syncEnvoyIngress L key) = some ⟨c₁, noteSync L key w.last⟩ := by
      unfold trackedStep
      rw [hstep]
      rfl
    exact ((groupsAgree_step _ ht htracked).mpr hf).of_entry hquiet.entry
  | processNextEnvoyResourceWorkItem r =>
    obtain ⟨c₁, c', hsync, hquiet, rfl⟩ := react_resource h
    have ht : GroupsAgree ⟨{ w.c with resourceQueue := w.c.resourceQueue.erase r }, w.last⟩ := hw
    exact (groupsAgree_resource ht hsync).of_entry hquiet.entry

/-- A node that shares a group with a resource in use has a group of one of its users. -/
theorem SharesGroup.of_user {node : Node} {R : Resource} (h : SharesGroup node R)
    (hmatch : R.GroupsMatch last) (href : ¬ GoSet.isEmpty R.ingressRef) :
    ∃ k ∈ R.ingressRef, ∃ g ∈ labelGroups node, g ∈ last k := by
  obtain ⟨g, hlabel, hg⟩ := h
  obtain ⟨k, hk, hlast⟩ := (hmatch href g).mp hg
  exact ⟨k, hk, g, hlabel, hlast⟩

theorem secretsIsolated_of_followed (event : Event) (hw : MembersLabelled w)
    (ht : GroupsAgree w.tracked) (hf : SecretsFollowed H w event) : SecretsIsolated H w event := by
  intro w' ds h d hd hopr s hs
  have hresend {node : Node} (hget : w'.nodes.get node.name = some node) (hlast : w'.last = w.last)
      (hready : BecomesReady w.c.lc node → ∀ R ∈ w.c.resourceStore.objects, ∀ s,
        R.spec = .secret s → SharesGroup node R ∧ ¬ GoSet.isEmpty R.ingressRef)
      (hds : ∀ d, d ∈ ds ↔ BecomesReady w.c.lc node ∧
        ∃ R ∈ w.c.resourceStore.objects, d = ⟨R, .insert, node.name⟩) :
      ∃ node, w'.nodes.get d.node = some node ∧
        ∃ k ∈ d.resource.ingressRef, ∃ g ∈ labelGroups node, g ∈ w'.last k := by
    obtain ⟨hbecomes, R, hR, rfl⟩ := (hds d).mp hd
    obtain ⟨hshares, href⟩ := hready hbecomes R hR s hs
    have hentry : w.c.entry R.key = some R := Indexer.get_eq_some.mpr ⟨hR, rfl⟩
    rw [hlast]
    exact ⟨node, hget, hshares.of_user (ht R.key R hentry) href⟩
  cases event with
  | addNode node =>
    obtain ⟨-, rfl, hds⟩ := react_addNode h
    exact hresend (by simp [Indexer.get_put]) rfl hf hds
  | updateNode cur =>
    obtain ⟨old, -, rfl, hds⟩ := react_updateNode h
    exact hresend (by simp [Indexer.get_put]) rfl hf hds
  | object L event =>
    obtain ⟨-, -, -, rfl⟩ := react_object h
    cases hd
  | deleteNode name =>
    obtain ⟨-, -, -, rfl⟩ := react_deleteNode h
    cases hd
  | processNextIngressWorkItem L key =>
    obtain ⟨-, -, -, -, -, rfl⟩ := react_ingress h
    cases hd
  | processNextEnvoyResourceWorkItem r =>
    obtain ⟨c₁, c', hsync, -, rfl⟩ := react_resource h
    obtain ⟨hentry, hnode, href⟩ := hsync.dispatch hd
    obtain ⟨node, hget, hshares⟩ := sharesGroup_of_nodesToSend hw hnode
    exact ⟨node, hget, hshares.of_user (ht r _ hentry) (href hopr)⟩

/-- Messages keep to the groups of their resources along a run exactly when no resend of
the run goes to a node of other groups.  If also the groups of the resources stay right
and no resend has an unreferenced secret, secrets keep to the groups of the ingresses
that refer to them. -/
theorem node_group_isolation (H : Digest) {L : Listers} {nodes : Indexer Node (·.name)} {w : World}
    (hstart : start H L nodes = .ok w) (events : List Event) :
    (Along (advance H) (Isolated H) w events ↔ Along (advance H) ResendMatches w events) ∧
    (StartupGroups H L → Along (advance H) (SecretsFollowed H) w events →
      Along (advance H) (SecretsIsolated H) w events) := by
  have hw := start_membersLabelled hstart
  have hstep : ∀ s a s', MembersLabelled s → advance H s a = some s' → MembersLabelled s' := by
    intro s a s' hs h
    obtain ⟨ds, h⟩ := react_of_advance h
    exact react_membersLabelled a hs h
  refine ⟨along_congr (fun s a s' hs _ h => hstep s a s' hs h)
    (fun s a s' hs h => isolated_iff a hs h) hw, ?_⟩
  intro hgroups halong
  have ht : GroupsAgree w.tracked := by
    obtain ⟨c, hc, h⟩ := ok_of_bind hstart
    cases h
    have hfresh := Controller.fresh_empty (initCache nodes.objects {})
    obtain ⟨hs, hg⟩ := initiateEnvoyResources_grouped hfresh hc
    exact (groupsAgree_started hs hg).mpr hgroups
  refine along_of_along (I := fun w => MembersLabelled w ∧ GroupsAgree w.tracked) ?_ ⟨hw, ht⟩ halong
  rintro s a s' ⟨hs, ht⟩ hf h
  have hsecrets := secretsIsolated_of_followed a hs ht hf
  obtain ⟨ds, h⟩ := react_of_advance h
  exact ⟨⟨react_membersLabelled a hs h, react_groupsAgree a ht hf h⟩, hsecrets⟩

namespace Sample

def readyNode (groups : GoString) : Node where
  name := str "node"
  labels := AList.singleton nodeGroupLabel groups
  conditions := [⟨.ready, .true⟩]
  name_valid := by decide +kernel

/-- The listers with the ingress `web` for the group `edge`, its service and its secret. -/
def withWeb : Listers :=
  { withService ∅ with ingresses := ⟨[web (str "edge") tlsCert], by simp⟩ }

end Sample

open Sample

/-- A node of the group `edge` gets the resources of an ingress for that group. -/
theorem node_group_isolation_edge :
    ∃ w, start digest withWeb ∅ = .ok w ∧
      (react digest w (.addNode (readyNode (str "edge")))).isSome ∧
      Along (advance digest) (Isolated digest) w
        [.addNode (readyNode (str "edge"))] ∧
      Along (advance digest) (SecretsIsolated digest) w
        [.addNode (readyNode (str "edge"))] := by
  have hrun : (start digest withWeb ∅).toOption.map (fun w =>
      (w.c.resourceStore.objects.all (fun R => decide (SharesGroup (readyNode (str "edge")) R) &&
        !GoSet.isEmpty R.ingressRef),
      (react digest w (.addNode (readyNode (str "edge")))).isSome)) =
      some (true, true) := by
    decide +kernel
  obtain ⟨w, hw, hread⟩ := Option.map_eq_some_iff.mp hrun
  rw [toOption_eq_some] at hw
  obtain ⟨hall, hsome⟩ := Prod.mk.inj hread
  have hmatch (R : Resource) (hR : R ∈ w.c.resourceStore.objects) :
      SharesGroup (readyNode (str "edge")) R ∧ ¬ GoSet.isEmpty R.ingressRef := by
    simpa using List.all_eq_true.mp hall R hR
  have hgroups : StartupGroups digest withWeb := by
    intro r i hi g
    have hone (j : Ingress) (hj : j ∈ users digest withWeb
        (startupIngresses withWeb) r) : j = web (str "edge") tlsCert :=
      List.mem_singleton.mp (List.mem_of_mem_filter (List.mem_of_mem_filter hj))
    have hiu := List.mem_of_mem_head? hi
    obtain rfl := hone i hiu
    have hlast : startupLast (startupIngresses withWeb)
        (keyFunc (web (str "edge") tlsCert).toObjectMeta) =
        nodeGroupsOf (web (str "edge") tlsCert) := by decide +kernel
    constructor
    · exact fun hg => ⟨_, hiu, by rw [hlast]; exact hg⟩
    · rintro ⟨j, hj, hg⟩
      obtain rfl := hone j hj
      rwa [hlast] at hg
  obtain ⟨hiso, hsecrets⟩ := node_group_isolation digest hw
    [.addNode (readyNode (str "edge"))]
  refine ⟨w, hw, hsome, hiso.mpr ?_, hsecrets hgroups ?_⟩
  · exact fun w' _ => ⟨fun _ R hR => (hmatch R hR).1, trivial⟩
  · exact fun w' _ => ⟨fun _ R hR _ _ => hmatch R hR, trivial⟩

/-- A node of the group `core` becomes Ready and gets the secret of an ingress for the
group `edge`. -/
theorem resend_sends_secret_outside_groups :
    ∃ w w' ds d s, start digest withWeb ∅ = .ok w ∧
      react digest w (.addNode (readyNode (str "core"))) = some (w', ds) ∧
      d ∈ ds ∧ d.opr = .insert ∧ d.resource.spec = .secret s ∧
      w'.nodes.get d.node = some (readyNode (str "core")) ∧
      ¬ SharesGroup (readyNode (str "core")) d.resource := by
  have hrun : (start digest withWeb ∅).toOption.map (fun w =>
      (w.c.resourceStore.objects.any (fun R => decide (R.spec.kind = .secret) &&
        !decide (SharesGroup (readyNode (str "core")) R)),
      w.c.lc.getNodeStatus (str "node"),
      (react digest w (.addNode (readyNode (str "core")))).isSome)) =
      some (true, none, true) := by
    decide +kernel
  obtain ⟨w, hw, hread⟩ := Option.map_eq_some_iff.mp hrun
  simp only [Prod.mk.injEq] at hread
  obtain ⟨hany, hstatus, hsome⟩ := hread
  obtain ⟨R, hR, hprop⟩ := List.any_eq_true.mp hany
  simp only [Bool.and_eq_true, decide_eq_true_eq, Bool.not_eq_true',
    decide_eq_false_iff_not] at hprop
  obtain ⟨⟨w', ds⟩, hreact⟩ := Option.isSome_iff_exists.mp hsome
  obtain ⟨-, hw', hds⟩ := react_addNode hreact
  have hready : BecomesReady w.c.lc (readyNode (str "core")) := by
    refine ⟨by decide +kernel, ⟨⟨.ready, .true⟩, List.mem_singleton_self _, rfl, rfl⟩, ?_⟩
    rintro ⟨-, h⟩
    rw [show (readyNode (str "core")).name = str "node" from rfl, hstatus] at h
    cases h
  obtain ⟨s, hs⟩ : ∃ s, R.spec = .secret s := by
    cases hspec : R.spec with
    | secret s => exact ⟨s, rfl⟩
    | listener l =>
      rw [hspec] at hprop
      simp only [Spec.kind] at hprop
      split_ifs at hprop <;> cases hprop.1
    | endpoint _ | cluster _ | route _ =>
      rw [hspec] at hprop
      cases hprop.1
  refine ⟨w, w', ds, ⟨R, .insert, _⟩, s, toOption_eq_some.mp hw, hreact,
    (hds _).mpr ⟨hready, R, hR, rfl⟩, rfl, hs, ?_, hprop.2⟩
  rw [hw']
  simp [Indexer.get_put]

end KubeEdge.Envoy
