import KubeEdge.Envoy.World

namespace KubeEdge.Envoy
open Go

variable (sends : Dispatch → Option GoString)

/-- `syncEnvoyResource`, where `sends` is the error each dispatch returns. -/
def syncEnvoyResourceWith (r : GoString) (c : Controller) :
    M (Controller × List Dispatch × Option GoString) := do
  let lock ← c.resourceStoreLock.rLock
  match c.entry r with
  | none =>
    .ok ({ c with resourceStoreLock := lock }, [],
      some (str "failed to get resource " ++ r ++ str " in resource store"))
  | some resource =>
    let opr := if GoSet.isEmpty resource.ingressRef then Operation.delete else .insert
    let c :=
      if GoSet.isEmpty resource.ingressRef then { c with resourceStore := c.resourceStore.remove r }
      else c
    let dispatches := (nodesToSend c.lc resource.nodeGroup).keys.map fun node =>
      Dispatch.mk resource opr node
    .ok (c, dispatches, (dispatches.filterMap sends).getLast?)

theorem syncEnvoyResource_eq_with (r : GoString) (c : Controller) :
    syncEnvoyResource r c = syncEnvoyResourceWith Dispatch.error r c := rfl

/-- `AddRateLimited` puts the key back, some time later. -/
def processNextEnvoyResourceWorkItemWith (r : GoString) (c : Controller) :
    M (Controller × List Dispatch) := do
  let (c, ds, err) ←
    syncEnvoyResourceWith sends r { c with resourceQueue := c.resourceQueue.erase r }
  .ok (if err.isSome then { c with resourceQueue := GoSet.add r c.resourceQueue } else c, ds)

/-- A dispatch that failed is made again: the key waits, the resource is stored, and the
next turn of the worker, whatever is sent successfully then, sends the same operation to the
same node. -/
def Retried (r : GoString) (c : Controller) : Prop :=
  ∀ c' ds, processNextEnvoyResourceWorkItemWith sends r c = .ok (c', ds) →
    ∀ d ∈ ds, (sends d).isSome →
      r ∈ c'.resourceQueue ∧ (c'.entry r).isSome ∧
        ∀ sends', ∃ c'' ds', processNextEnvoyResourceWorkItemWith sends' r c' = .ok (c'', ds') ∧
          d ∈ ds'

variable {sends} {r : GoString} {c c' : Controller} {ds : List Dispatch}

def dispatchesOf (c : Controller) (R : Resource) (opr : Operation) : List Dispatch :=
  (nodesToSend c.lc R.nodeGroup).keys.map fun node => Dispatch.mk R opr node

/-- The queue after a turn that made these dispatches. -/
def requeue (sends : Dispatch → Option GoString) (r : GoString) (c : Controller)
    (ds : List Dispatch) : GoSet GoString :=
  if ((ds.filterMap sends).getLast?).isSome then GoSet.add r (c.resourceQueue.erase r)
  else c.resourceQueue.erase r

theorem mem_requeue {d : Dispatch} (hd : d ∈ ds) (herr : (sends d).isSome) :
    r ∈ requeue sends r c ds := by
  obtain ⟨e, he⟩ := Option.isSome_iff_exists.mp herr
  have hne : ds.filterMap sends ≠ [] := List.ne_nil_of_mem (List.mem_filterMap.mpr ⟨d, hd, he⟩)
  rw [requeue, if_pos (by rw [List.getLast?_isSome]; exact hne)]
  exact GoSet.mem_add.mpr (.inl rfl)

theorem addRateLimited_eq (h : c'.resourceQueue = c.resourceQueue.erase r) :
    (if ((ds.filterMap sends).getLast?).isSome then
      { c' with resourceQueue := GoSet.add r c'.resourceQueue } else c') =
      { c' with resourceQueue := requeue sends r c ds } := by
  rw [requeue, ← h]
  split_ifs <;> rfl

theorem process_of_missing (hlock : c.resourceStoreLock.writer = false) (h : c.entry r = none)
    (hturn : processNextEnvoyResourceWorkItemWith sends r c = .ok (c', ds)) : ds = [] := by
  have hentry : Controller.entry { c with resourceQueue := c.resourceQueue.erase r } r = none := h
  rw [processNextEnvoyResourceWorkItemWith, syncEnvoyResourceWith, RWMutex.rLock, if_pos hlock,
    ok_bind, hentry] at hturn
  cases hturn
  rfl

theorem process_of_insert {R : Resource} (hlock : c.resourceStoreLock.writer = false)
    (h : c.entry r = some R) (href : ¬ GoSet.isEmpty R.ingressRef) :
    processNextEnvoyResourceWorkItemWith sends r c =
      .ok ({ c with resourceQueue := requeue sends r c (dispatchesOf c R .insert) },
        dispatchesOf c R .insert) := by
  have hentry : Controller.entry { c with resourceQueue := c.resourceQueue.erase r } r = some R := h
  rw [processNextEnvoyResourceWorkItemWith, syncEnvoyResourceWith, RWMutex.rLock, if_pos hlock,
    ok_bind, hentry]
  simp only [if_neg href, ok_bind]
  exact congrArg (fun k => Except.ok (k, dispatchesOf c R .insert)) (addRateLimited_eq rfl)

theorem process_of_delete {R : Resource} (hlock : c.resourceStoreLock.writer = false)
    (h : c.entry r = some R) (href : GoSet.isEmpty R.ingressRef) :
    processNextEnvoyResourceWorkItemWith sends r c =
      .ok ({ c with
          resourceStore := c.resourceStore.remove r
          resourceQueue := requeue sends r c (dispatchesOf c R .delete) },
        dispatchesOf c R .delete) := by
  have hentry : Controller.entry { c with resourceQueue := c.resourceQueue.erase r } r = some R := h
  rw [processNextEnvoyResourceWorkItemWith, syncEnvoyResourceWith, RWMutex.rLock, if_pos hlock,
    ok_bind, hentry]
  simp only [if_pos href, ok_bind]
  exact congrArg (fun k => Except.ok (k, dispatchesOf c R .delete)) (addRateLimited_eq rfl)

/-- A failed dispatch is made again exactly if it was no deletion. -/
theorem failed_dispatch_retried_iff (sends : Dispatch → Option GoString) (r : GoString)
    (c : Controller) :
    Retried sends r c ↔ (c.resourceStoreLock.writer = false → ∀ R, c.entry r = some R →
      GoSet.isEmpty R.ingressRef → ∀ node ∈ nodesToSend c.lc R.nodeGroup,
        sends ⟨R, .delete, node⟩ = none) := by
  constructor
  · intro h hlock R hR href node hnode
    have hturn : processNextEnvoyResourceWorkItemWith sends r c = _ :=
      process_of_delete hlock hR href
    have hd : Dispatch.mk R .delete node ∈ dispatchesOf c R .delete :=
      List.mem_map.mpr ⟨node, AList.mem_keys.mp hnode, rfl⟩
    by_contra herr
    -- the resource is not there any more
    obtain ⟨-, hstored, -⟩ := h _ _ hturn _ hd (Option.isSome_iff_ne_none.mpr herr)
    have hremoved : Controller.entry { c with resourceStore := c.resourceStore.remove r } r =
        none := by
      rw [entry_remove, if_pos rfl]
    exact Option.not_isSome_iff_eq_none.mpr hremoved hstored
  · intro h c' ds hturn d hd herr
    by_cases hlock : c.resourceStoreLock.writer = false
    · cases hR : c.entry r with
      | none =>
        rw [process_of_missing hlock hR hturn] at hd
        cases hd
      | some R =>
        by_cases href : GoSet.isEmpty R.ingressRef
        · rw [process_of_delete hlock hR href] at hturn
          cases hturn
          obtain ⟨node, hnode, rfl⟩ := List.mem_map.mp hd
          rw [h hlock R hR href node (AList.mem_keys.mpr hnode)] at herr
          cases herr
        · rw [process_of_insert hlock hR href] at hturn
          cases hturn
          refine ⟨mem_requeue hd herr, ?_, fun sends' => ?_⟩
          · exact Option.isSome_iff_exists.mpr ⟨R, hR⟩
          · exact ⟨_, _, process_of_insert hlock hR href, hd⟩
    · rw [processNextEnvoyResourceWorkItemWith, syncEnvoyResourceWith, RWMutex.rLock,
        if_neg hlock] at hturn
      cases hturn

open Sample

/-- A resource of the group `edge` that no ingress refers to any more. -/
def orphan : Resource where
  name := str "web_default_envoyroute"
  ns := str "default"
  resourceVersion := []
  nodeGroup := GoSet.single (str "edge")
  ingressRef := ∅
  spec := .route (routeConfiguration envoyHTTPListener [])

/-- The orphan is stored, and `node` is a Ready node of its group. -/
def pending : Controller :=
  Controller.setEntry { lc := {
    edgeNodes := AList.singleton (str "node") .true
    group2node := AList.singleton (str "edge") [str "node"] } } orphan

/-- The message to the node fails, the resource is gone, and the retry sends nothing. -/
theorem delete_lost :
    ∃ c' ds, processNextEnvoyResourceWorkItemWith (fun _ => some (str "send failed"))
        orphan.key pending = .ok (c', ds) ∧
      ds.map (fun d => (d.opr, d.node)) = [(.delete, str "node")] ∧
      orphan.key ∈ c'.resourceQueue ∧ c'.entry orphan.key = none ∧
      ∃ c'', processNextEnvoyResourceWorkItemWith (fun _ => none) orphan.key c' =
        .ok (c'', []) := by
  refine ⟨_, _, rfl, by decide +kernel, by decide +kernel, ?_, _, rfl⟩
  rfl

end KubeEdge.Envoy
