import KubeEdge.Envoy.Loops

namespace KubeEdge.Envoy
open Go LocationCache

def enqueue (c : Controller) (ingress : Ingress) : Controller :=
  if isEnvoyIngress ingress then
    { c with queue := GoSet.add (keyFunc ingress.toObjectMeta) c.queue }
  else c

def addIngress (ingress : Ingress) (c : Controller) : Controller :=
  if isEnvoyIngress ingress then
    enqueue { c with
      ingressNodeGroupStore := recordGroups (keyFunc ingress.toObjectMeta) (nodeGroupsOf ingress)
        c.ingressNodeGroupStore } ingress
  else c

/-- The queue gets the key whatever the class of the ingress. -/
def deleteIngress (ingress : Ingress) (c : Controller) : Controller :=
  { c with queue := GoSet.add (keyFunc ingress.toObjectMeta) c.queue }

def updateIngress (old cur : Ingress) (c : Controller) : Controller :=
  let c := if cur.uid ≠ old.uid ∧ isEnvoyIngress old then deleteIngress old c else c
  if isEnvoyIngress cur then enqueue c cur else c

def addV1beta1Ingress (ingress : V1beta1.Ingress) (c : Controller) : Controller :=
  addIngress (toV1Ingress ingress) c

/-- The old and the current object change places on the way to `updateIngress`. -/
def updateV1beta1Ingress (old cur : V1beta1.Ingress) (c : Controller) : Controller :=
  updateIngress (toV1Ingress cur) (toV1Ingress old) c

def deleteV1beta1Ingress (ingress : V1beta1.Ingress) (c : Controller) : Controller :=
  deleteIngress (toV1Ingress ingress) c

def addService (L : Listers) (service : Service) (c : Controller) : M Controller := do
  let ingresses ← getIngressesForService L service
  .ok (ingresses.foldl enqueue c)

def deleteService (L : Listers) (service : Service) (c : Controller) : M Controller := do
  let ingresses ← getIngressesForService L service
  .ok (ingresses.foldl enqueue c)

/-- Only a change of the selector is looked at. -/
def updateService (L : Listers) (old cur : Service) (c : Controller) : M Controller :=
  if deepEqual cur.selector old.selector then .ok c
  else do
    let c ← deleteService L old c
    addService L cur c

def addEndpoint (L : Listers) (endpoint : Endpoints) (c : Controller) : M Controller :=
  match L.services.get endpoint.key with
  | none => .ok c
  | some service => addService L service c

def updateEndpoint (L : Listers) (old cur : Endpoints) (c : Controller) : M Controller :=
  if cur.subsets = old.subsets then .ok c
  else
    match L.services.get old.key with
    | none => .ok c
    | some service => do
      let c ← deleteService L service c
      addService L service c

def deleteEndpoint (L : Listers) (endpoint : Endpoints) (c : Controller) : M Controller :=
  match L.services.get endpoint.key with
  | none => .ok c
  | some service => deleteService L service c

def addSecret (L : Listers) (secret : Secret) (c : Controller) : Controller :=
  (getIngressesForSecret L secret).foldl enqueue c

def deleteSecret (L : Listers) (secret : Secret) (c : Controller) : Controller :=
  (getIngressesForSecret L secret).foldl enqueue c

def updateSecret (L : Listers) (old cur : Secret) (c : Controller) : Controller :=
  if old.type ≠ cur.type ∨ ¬ deepEqual old.data cur.data ∨ ¬ deepEqual old.stringData cur.stringData
  then addSecret L cur (deleteSecret L old c)
  else c

/-- Every stored resource, whatever its groups. -/
def syncAllResourcesToEdgeNodes (c : Controller) (node : Node) : List Dispatch :=
  if nodeGroupLabel ∈ node.labels then
    c.resourceStore.objects.map fun resource => ⟨resource, .insert, node.name⟩
  else []

/-- One turn of the loop over the conditions of a node. -/
def conditionTurn (node : Node) (s : Controller × List Dispatch) (nsc : NodeCondition) :
    Controller × List Dispatch :=
  if nsc.type = .ready then
    let status := s.1.lc.getNodeStatus node.name
    let c := { s.1 with lc := s.1.lc.updateEdgeNode node }
    if nsc.status ≠ .true ∨ status = some nsc.status then (c, s.2)
    else (c, s.2 ++ syncAllResourcesToEdgeNodes c node)
  else s

def addNode (node : Node) (c : Controller) : Controller × List Dispatch :=
  node.conditions.foldl (conditionTurn node) ({ c with lc := c.lc.updateNodeGroup node }, [])

def updateNode (old cur : Node) (c : Controller) : Controller × List Dispatch :=
  let c :=
    if index cur.labels nodeGroupLabel ≠ index old.labels nodeGroupLabel then
      { c with lc := (c.lc.deleteNodeGroup old).updateNodeGroup cur }
    else c
  cur.conditions.foldl (conditionTurn cur) (c, [])

def deleteNode (node : Node) (c : Controller) : Controller :=
  { c with lc := (c.lc.deleteNodeGroup node).deleteEdgeNode node }

def initCache (nodes : List Node) (lc : LocationCache) : LocationCache :=
  nodes.foldl (fun lc node =>
    if nodeGroupLabel ∈ node.labels then (lc.updateNodeGroup node).updateEdgeNode node else lc) lc

/-- Stores and location cache are as before, and no resource left the queue. -/
structure Quiet (c c' : Controller) : Prop where
  lc : c'.lc = c.lc
  resourceStore : c'.resourceStore = c.resourceStore
  nameStore : c'.ingressToResourceNameStore = c.ingressToResourceNameStore
  keeps : ∀ q, q ∈ c.resourceQueue → q ∈ c'.resourceQueue

namespace Quiet

theorem refl (c : Controller) : Quiet c c := ⟨rfl, rfl, rfl, fun _ => id⟩

theorem trans {c₁ c₂ c₃ : Controller} (h : Quiet c₁ c₂) (h' : Quiet c₂ c₃) : Quiet c₁ c₃ :=
  ⟨h'.lc.trans h.lc, h'.resourceStore.trans h.resourceStore, h'.nameStore.trans h.nameStore,
    fun q hq => h'.keeps q (h.keeps q hq)⟩

theorem entry {c c' : Controller} (h : Quiet c c') (r : GoString) : c'.entry r = c.entry r := by
  unfold Controller.entry
  rw [h.resourceStore]

end Quiet

theorem enqueue_quiet (c : Controller) (ingress : Ingress) : Quiet c (enqueue c ingress) := by
  unfold enqueue
  split_ifs
  · exact ⟨rfl, rfl, rfl, fun _ => id⟩
  · exact Quiet.refl c

theorem foldl_enqueue_quiet (ingresses : List Ingress) (c : Controller) :
    Quiet c (ingresses.foldl enqueue c) := by
  induction ingresses generalizing c with
  | nil => exact Quiet.refl c
  | cons i is ih => exact (enqueue_quiet c i).trans (ih _)

theorem mem_queue_foldl_enqueue {ingresses : List Ingress} {c : Controller} {k : GoString} :
    k ∈ (ingresses.foldl enqueue c).queue ↔
      k ∈ c.queue ∨ ∃ i ∈ ingresses, isEnvoyIngress i ∧ keyFunc i.toObjectMeta = k := by
  induction ingresses generalizing c with
  | nil => simp
  | cons i is ih =>
    rw [List.foldl_cons, ih]
    unfold enqueue
    split_ifs with h
    · simp only [GoSet.mem_add, List.mem_cons, exists_eq_or_imp, h, true_and, eq_comm (a := k)]
      tauto
    · simp [h]

/-- The handlers of a node resend the store: it has a Ready condition that is True, and its
status was not known to be so. -/
def BecomesReady (lc : LocationCache) (node : Node) : Prop :=
  nodeGroupLabel ∈ node.labels ∧
  (∃ nsc ∈ node.conditions, nsc.type = .ready ∧ nsc.status = .true) ∧
  ¬ (readyStatus node = some .true ∧ lc.getNodeStatus node.name = some .true)

theorem updateEdgeNode_idem (lc : LocationCache) (node : Node) :
    (lc.updateEdgeNode node).updateEdgeNode node = lc.updateEdgeNode node := by
  unfold updateEdgeNode
  split_ifs
  · cases readyStatus node with
    | none => rfl
    | some status =>
      dsimp only
      rw [AList.insert_insert]
  · rfl

variable {node : Node} {lc : LocationCache} {nsc : NodeCondition}

theorem updateEdgeNode_of_not_ready (h : readyStatus node = none) :
    lc.updateEdgeNode node = lc := by
  unfold updateEdgeNode
  rw [h]
  exact ite_self lc

theorem conditionTurn_of_not_ready (h : nsc.type ≠ .ready) (s : Controller × List Dispatch) :
    conditionTurn node s nsc = s := if_neg h

theorem foldl_conditionTurn_of_not_ready {nscs : List NodeCondition}
    (h : ∀ nsc ∈ nscs, nsc.type ≠ .ready) (s : Controller × List Dispatch) :
    nscs.foldl (conditionTurn node) s = s := by
  induction nscs with
  | nil => rfl
  | cons nsc nscs ih =>
    rw [List.foldl_cons, conditionTurn_of_not_ready (h nsc (.head _))]
    exact ih fun x hx => h x (.tail _ hx)

theorem conditionTurn_of_ready (h : nsc.type = .ready) (c : Controller) (ds : List Dispatch) :
    conditionTurn node (c, ds) nsc =
      ({ c with lc := c.lc.updateEdgeNode node },
        ds ++ if nsc.status ≠ .true ∨ c.lc.getNodeStatus node.name = some nsc.status then []
          else syncAllResourcesToEdgeNodes c node) := by
  unfold conditionTurn
  dsimp only
  split_ifs
  · rw [List.append_nil]
  · rfl

theorem mem_syncAllResourcesToEdgeNodes {c : Controller} {d : Dispatch} :
    d ∈ syncAllResourcesToEdgeNodes c node ↔ nodeGroupLabel ∈ node.labels ∧
      ∃ R ∈ c.resourceStore.objects, d = ⟨R, .insert, node.name⟩ := by
  unfold syncAllResourcesToEdgeNodes
  split_ifs with hlabel
  · simp [hlabel, eq_comm]
  · simp [hlabel]

theorem foldl_conditionTurn_settled {c : Controller} (hc : c.lc.updateEdgeNode node = c.lc)
    (nscs : List NodeCondition) (ds : List Dispatch) :
    (nscs.foldl (conditionTurn node) (c, ds)).1 = c ∧
    ∀ d, d ∈ (nscs.foldl (conditionTurn node) (c, ds)).2 ↔
      d ∈ ds ∨ (d ∈ syncAllResourcesToEdgeNodes c node ∧
        (∃ nsc ∈ nscs, nsc.type = .ready ∧ nsc.status = .true) ∧
        c.lc.getNodeStatus node.name ≠ some .true) := by
  induction nscs generalizing ds with
  | nil => simp
  | cons nsc nscs ih =>
    rw [List.foldl_cons]
    by_cases hr : nsc.type = .ready
    · have hself : { c with lc := c.lc.updateEdgeNode node } = c := by rw [hc]
      rw [conditionTurn_of_ready hr, hself]
      split_ifs with hskip
      · rw [List.append_nil]
        refine ⟨(ih ds).1, fun d => ?_⟩
        rw [(ih ds).2]
        rcases hskip with hs | hs
        · simp [hs]
        · by_cases ht : nsc.status = .true
          · rw [ht] at hs
            simp [hs]
          · simp [ht]
      · obtain ⟨ht, hs⟩ := not_or.mp hskip
        rw [not_not] at ht
        rw [ht] at hs
        refine ⟨(ih _).1, fun d => ?_⟩
        rw [(ih _).2]
        simp only [List.mem_append, List.mem_cons, exists_eq_or_imp, hr, ht, true_or, ne_eq,
          hs, not_false_iff, and_true]
        tauto
    · rw [conditionTurn_of_not_ready hr]
      refine ⟨(ih ds).1, fun d => ?_⟩
      rw [(ih ds).2]
      simp [hr]

theorem exists_ready_iff {before after : List NodeCondition} {first : NodeCondition}
    (hbefore : ∀ nsc ∈ before, nsc.type ≠ .ready) (hready : first.type = .ready) :
    (∃ nsc ∈ before ++ first :: after, nsc.type = .ready ∧ nsc.status = .true) ↔
      first.status = .true ∨ ∃ nsc ∈ after, nsc.type = .ready ∧ nsc.status = .true := by
  constructor
  · rintro ⟨nsc, hnsc, hr, ht⟩
    rcases List.mem_append.mp hnsc with h | h
    · exact absurd hr (hbefore nsc h)
    · rcases List.mem_cons.mp h with rfl | h
      · exact .inl ht
      · exact .inr ⟨nsc, h, hr, ht⟩
  · rintro (ht | ⟨nsc, h, hr, ht⟩)
    · exact ⟨first, by simp, hready, ht⟩
    · exact ⟨nsc, by simp [h], hr, ht⟩

theorem conditionLoop_spec (node : Node) (c : Controller) :
    (node.conditions.foldl (conditionTurn node) (c, [])).1 =
      { c with lc := c.lc.updateEdgeNode node } ∧
    ∀ d, d ∈ (node.conditions.foldl (conditionTurn node) (c, [])).2 ↔
      BecomesReady c.lc node ∧ ∃ R ∈ c.resourceStore.objects, d = ⟨R, .insert, node.name⟩ := by
  cases hfind : node.conditions.find? fun nsc => nsc.type = .ready with
  | none =>
    have hnot : ∀ nsc ∈ node.conditions, nsc.type ≠ .ready := by
      simpa using hfind
    have hstatus : readyStatus node = none := by simp [readyStatus, hfind]
    rw [foldl_conditionTurn_of_not_ready hnot, updateEdgeNode_of_not_ready hstatus]
    refine ⟨rfl, fun d => ?_⟩
    refine iff_of_false (List.not_mem_nil) ?_
    rintro ⟨⟨-, ⟨nsc, hnsc, hr, -⟩, -⟩, -⟩
    exact hnot nsc hnsc hr
  | some first =>
    have hstatus : readyStatus node = some first.status := by simp [readyStatus, hfind]
    obtain ⟨hready, before, after, hconds, hbefore⟩ := List.find?_eq_some_iff_append.mp hfind
    have hready : first.type = .ready := by simpa using hready
    have hbefore : ∀ nsc ∈ before, nsc.type ≠ .ready := by simpa using hbefore
    rw [hconds, List.foldl_append, List.foldl_cons, foldl_conditionTurn_of_not_ready hbefore,
      conditionTurn_of_ready hready, List.nil_append]
    have hsettled := foldl_conditionTurn_settled
      (c := { c with lc := c.lc.updateEdgeNode node }) (updateEdgeNode_idem c.lc node) after
      (if first.status ≠ .true ∨ c.lc.getNodeStatus node.name = some first.status then []
        else syncAllResourcesToEdgeNodes c node)
    refine ⟨hsettled.1, fun d => ?_⟩
    rw [hsettled.2]
    by_cases hl : nodeGroupLabel ∈ node.labels
    · have hnow : (c.lc.updateEdgeNode node).getNodeStatus node.name = some first.status := by
        rw [getNodeStatus_updateEdgeNode, if_pos ⟨rfl, hl, by simp [hstatus]⟩, hstatus]
      unfold BecomesReady
      rw [hconds, exists_ready_iff hbefore hready, hstatus, hnow]
      by_cases ht : first.status = .true
      · by_cases hs : c.lc.getNodeStatus node.name = some .true <;>
          simp [ht, hs, mem_syncAllResourcesToEdgeNodes, hl]
      · simp [ht, mem_syncAllResourcesToEdgeNodes, hl, and_comm]
    · have hnone : d ∉ syncAllResourcesToEdgeNodes c node :=
        fun hd => hl (mem_syncAllResourcesToEdgeNodes.mp hd).1
      refine iff_of_false ?_ fun h => hl h.1.1
      rintro (hd | ⟨hd, -⟩)
      · split_ifs at hd
        · cases hd
        · exact hnone hd
      · exact hnone hd

/-- The location cache once a node has moved to its current groups. -/
def LocationCache.regroup (lc : LocationCache) (old cur : Node) : LocationCache :=
  if index cur.labels nodeGroupLabel ≠ index old.labels nodeGroupLabel then
    (lc.deleteNodeGroup old).updateNodeGroup cur
  else lc

@[simp] theorem LocationCache.getNodeStatus_regroup (lc : LocationCache) (old cur : Node)
    (n : GoString) : (lc.regroup old cur).getNodeStatus n = lc.getNodeStatus n := by
  unfold regroup
  split_ifs <;> simp

theorem mem_members_regroup {old cur : Node} {n g : GoString} (hname : old.name = cur.name)
    (hn : n ≠ cur.name) :
    n ∈ (lc.regroup old cur).members g ↔ n ∈ lc.members g := by
  unfold regroup
  split_ifs
  · rw [mem_members_updateNodeGroup, mem_members_deleteNodeGroup, hname]
    simp [hn]
  · rfl

theorem mem_members_initCache {nodes : List Node} {g n : GoString} :
    n ∈ (initCache nodes lc).members g ↔ n ∈ lc.members g ∨
      ∃ node ∈ nodes, n = node.name ∧ (readyStatus node).isSome ∧ nodeGroupLabel ∈ node.labels ∧
        g ∈ labelGroups node := by
  induction nodes generalizing lc with
  | nil => simp [initCache]
  | cons node nodes ih =>
    have hstep : initCache (node :: nodes) lc = initCache nodes
        (if nodeGroupLabel ∈ node.labels then (lc.updateNodeGroup node).updateEdgeNode node
          else lc) :=
      rfl
    rw [hstep, ih, List.exists_mem_cons_iff]
    split_ifs with hl
    · rw [members_updateEdgeNode, mem_members_updateNodeGroup]
      tauto
    · tauto

theorem addNode_spec (node : Node) (c : Controller) :
    (addNode node c).1 = { c with lc := (c.lc.updateNodeGroup node).updateEdgeNode node } ∧
    ∀ d, d ∈ (addNode node c).2 ↔
      BecomesReady c.lc node ∧ ∃ R ∈ c.resourceStore.objects, d = ⟨R, .insert, node.name⟩ := by
  have h := conditionLoop_spec node { c with lc := c.lc.updateNodeGroup node }
  unfold addNode BecomesReady
  unfold BecomesReady at h
  simpa [getNodeStatus_updateNodeGroup] using h

theorem updateNode_spec (old cur : Node) (c : Controller) :
    (updateNode old cur c).1 = { c with lc := (c.lc.regroup old cur).updateEdgeNode cur } ∧
    ∀ d, d ∈ (updateNode old cur c).2 ↔
      BecomesReady c.lc cur ∧ ∃ R ∈ c.resourceStore.objects, d = ⟨R, .insert, cur.name⟩ := by
  have hc : (if index cur.labels nodeGroupLabel ≠ index old.labels nodeGroupLabel then
      { c with lc := (c.lc.deleteNodeGroup old).updateNodeGroup cur } else c) =
      { c with lc := c.lc.regroup old cur } := by
    unfold regroup
    split_ifs <;> rfl
  have h := conditionLoop_spec cur { c with lc := c.lc.regroup old cur }
  unfold updateNode
  rw [hc]
  unfold BecomesReady at h ⊢
  simpa [getNodeStatus_regroup] using h

end KubeEdge.Envoy
