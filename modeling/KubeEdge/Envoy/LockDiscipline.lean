import KubeEdge.Go.Locks
import KubeEdge.Envoy.Loops

namespace KubeEdge.Envoy
open Go Locks

/-- The locks of the controller, and the `RWLock` of the resource stored under a key. -/
inductive LockName
  | resourceStore
  | ingressToResourceNameStore
  | ingressNodeGroupStore
  | resource (r : GoString)
  deriving DecidableEq

abbrev LockTrace := List (Action LockName)

/-- `m.Lock()`, the operations in between, `m.Unlock()`. -/
def locked (m : LockName) (as : LockTrace) : LockTrace := .lock m :: (as ++ [.unlock m])

/-- A loop, with the operations of its turns one after the other. -/
def traceLoop {α : Type} (turn : Controller → α → Controller × LockTrace) :
    List α → Controller → Controller × LockTrace
  | [], c => (c, [])
  | a :: l, c =>
    let (c, as) := turn c a
    let (c, bs) := traceLoop turn l c
    (c, as ++ bs)

def releaseTrace (key : GoString) (c : Controller) (r : GoString) : Controller × LockTrace :=
  match c.entry r with
  -- `continue` with the lock held
  | none => (c, [.lock .resourceStore])
  | some resource =>
    let resource := resource.release key
    let c := c.setEntry resource
    (if GoSet.isEmpty resource.ingressRef then c.enqueueEnvoyResource resource else c,
      locked .resourceStore (locked (.resource r) []))

def staleTrace (key : GoString) (fresh : List GoString) (c : Controller) (r : GoString) :
    Controller × LockTrace :=
  if r ∈ fresh then (c, [])
  else
    match c.entry r with
    | none => (c, locked .resourceStore [])
    | some resource =>
      let resource := resource.release key
      let c := c.setEntry resource
      if GoSet.isEmpty resource.ingressRef then
        ((c.setNames key ((c.names key).erase r)).enqueueEnvoyResource resource,
          locked .resourceStore (locked .ingressToResourceNameStore []))
      else (c, locked .resourceStore [])

/-- A turn of the insertion loop, which runs with `resourceStoreLock` held. -/
def insertTrace (key : GoString) (c : Controller) (resource : Resource) : Controller × LockTrace :=
  (insertResource key c resource,
    match c.entry resource.key with
    | none => []
    | some _ => locked (.resource resource.key) [])

def foundTrace (H : Digest) (L : Listers) (key : GoString) (ingress : Ingress) (c : Controller) :
    M (Controller × Option GoString × LockTrace) :=
  if isEnvoyIngress ingress then do
    let envoyResources ← envoyResourcesForIngress H L ingress
    let stale := traceLoop (staleTrace key (envoyResources.map (·.key))) (c.names key).keys
      (c.setNames key (c.names key))
    let c := { stale.1 with
      ingressNodeGroupStore :=
        stale.1.ingressNodeGroupStore.insert key (recordedGroups stale.1.lc ingress) }
    let inserted := traceLoop (insertTrace key) envoyResources c
    .ok (inserted.1, none, locked .ingressToResourceNameStore [] ++ stale.2 ++
      locked .ingressNodeGroupStore [] ++ locked .resourceStore inserted.2)
  else
    .ok (c, some (str "ingress " ++ ingress.name ++ str " in namespace " ++ ingress.ns ++
      str " is not an envoy ingress"), [])

def deletedTrace (key : GoString) (c : Controller) : Controller × Option GoString × LockTrace :=
  let released := traceLoop (releaseTrace key) (c.names key).keys
    { c with ingressToResourceNameStore := c.ingressToResourceNameStore.erase key }
  ({ released.1 with
      ingressToResourceNameStore := released.1.ingressToResourceNameStore.erase key },
    none, locked .ingressToResourceNameStore [] ++ released.2 ++
      locked .ingressToResourceNameStore [])

/-- `syncEnvoyIngress`: the new state, the returned error and the operations. -/
def ingressTrace (H : Digest) (L : Listers) (key : GoString) (c : Controller) :
    M (Controller × Option GoString × LockTrace) :=
  match splitMetaNamespaceKey key with
  | none => .ok (c, some (str "unexpected key format: " ++ 34 :: key ++ [34]), [])
  | some k =>
    match findIngress L k with
    | none => .ok (deletedTrace key c)
    | some ingress => foundTrace H L key ingress c

/-- `syncEnvoyResource`: the operations; all of them come before the first dispatch. -/
def resourceTrace (r : GoString) (c : Controller) : LockTrace :=
  match c.entry r with
  -- `return` with the lock held
  | none => [.rLock .resourceStore]
  | some _ => [.rLock .resourceStore, .rLock (.resource r), .rUnlock (.resource r),
      .rUnlock .resourceStore]

inductive WorkerCall
  | syncEnvoyIngress (L : Listers) (key : GoString)
  | syncEnvoyResource (r : GoString)

/-- The operations of a call that returns, or would if it did not wait for itself. -/
def lockTrace (H : Digest) (c : Controller) : WorkerCall → M LockTrace
  | .syncEnvoyIngress L key => do
    let (_, _, as) ← ingressTrace H L key c
    .ok as
  | .syncEnvoyResource r => .ok (resourceTrace r c)

/-- The resource that is synced, or that a deleted ingress is to release, is stored. -/
def Present (c : Controller) : WorkerCall → Prop
  | .syncEnvoyIngress L key => Gone L key → ∀ r ∈ c.names key, (c.entry r).isSome
  | .syncEnvoyResource r => (c.entry r).isSome

theorem locked_neutral {held : Held LockName} {m : LockName} {as : LockTrace}
    (hm : ∀ w, (m, w) ∉ held) (h : Neutral ((m, true) :: held) as) : Neutral held (locked m as) :=
  h.locked hm

theorem traceLoop_neutral {α : Type} {turn : Controller → α → Controller × LockTrace}
    {held : Held LockName} (h : ∀ c a, Neutral held (turn c a).2) (l : List α) (c : Controller) :
    Neutral held (traceLoop turn l c).2 := by
  induction l generalizing c with
  | nil => exact .nil held
  | cons a l ih => exact (h c a).append (ih _)

theorem staleTrace_neutral (key : GoString) (fresh : List GoString) (c : Controller)
    (r : GoString) : Neutral [] (staleTrace key fresh c r).2 := by
  unfold staleTrace
  split_ifs
  · exact .nil []
  · cases c.entry r with
    | none => exact locked_neutral (by simp) (.nil _)
    | some resource =>
      dsimp only
      split_ifs
      · exact locked_neutral (by simp) (locked_neutral (by simp) (.nil _))
      · exact locked_neutral (by simp) (.nil _)

theorem insertTrace_neutral (key : GoString) (c : Controller) (resource : Resource) :
    Neutral [(.resourceStore, true)] (insertTrace key c resource).2 := by
  unfold insertTrace
  cases c.entry resource.key with
  | none => exact .nil _
  | some _ => exact locked_neutral (by simp) (.nil _)

variable {key r : GoString} {c : Controller}

theorem foundTrace_disciplined {H : Digest} {L : Listers} {ingress : Ingress} {c' : Controller}
    {err : Option GoString} {as : LockTrace}
    (h : foundTrace H L key ingress c = .ok (c', err, as)) :
    Disciplined as := by
  unfold foundTrace at h
  split_ifs at h
  · obtain ⟨gen, -, h⟩ := ok_of_bind h
    cases h
    have hstale := traceLoop_neutral (staleTrace_neutral key (gen.map (·.key)))
      (c.names key).keys (c.setNames key (c.names key))
    have hinsert := traceLoop_neutral (insertTrace_neutral key) gen
    refine Neutral.append (Neutral.append (Neutral.append ?_ hstale) ?_) ?_
    · exact locked_neutral (by simp) (Neutral.nil _)
    · exact locked_neutral (by simp) (.nil _)
    · exact locked_neutral (by simp) (hinsert _)
  · cases h
    exact Neutral.nil []

theorem releaseTrace_isSome (key : GoString) (c : Controller) (r r' : GoString) :
    ((releaseTrace key c r).1.entry r').isSome = (c.entry r').isSome := by
  unfold releaseTrace
  cases hentry : c.entry r with
  | none => rfl
  | some resource =>
    have hkey := Controller.key_of_entry hentry
    dsimp only
    split_ifs <;> by_cases hr : r' = r <;> simp [hkey, hr, hentry]

theorem releaseTrace_neutral (h : (c.entry r).isSome) : Neutral [] (releaseTrace key c r).2 := by
  obtain ⟨resource, hentry⟩ := Option.isSome_iff_exists.mp h
  unfold releaseTrace
  rw [hentry]
  exact locked_neutral (by simp) (locked_neutral (by simp) (.nil _))

theorem releaseLoop_neutral {rs : List GoString} (h : ∀ r ∈ rs, (c.entry r).isSome) :
    Neutral [] (traceLoop (releaseTrace key) rs c).2 := by
  induction rs generalizing c with
  | nil => exact .nil []
  | cons r rs ih =>
    rw [List.forall_mem_cons] at h
    refine (releaseTrace_neutral h.1).append (ih fun r' hr' => ?_)
    exact (releaseTrace_isSome key c r r').trans (h.2 r' hr')

section

variable (key : GoString)

theorem count_lock_releaseTrace (c : Controller) (r : GoString) :
    (releaseTrace key c r).2.count (.lock .resourceStore) = 1 := by
  unfold releaseTrace
  cases c.entry r <;> simp [locked]

theorem count_unlock_releaseTrace (c : Controller) (r : GoString) :
    (releaseTrace key c r).2.count (.unlock .resourceStore) =
      if (c.entry r).isSome then 1 else 0 := by
  unfold releaseTrace
  cases c.entry r <;> simp [locked]

/-- Every turn of the loop takes the lock, and those that find their resource release it. -/
theorem count_releaseLoop (rs : List GoString) (c : Controller) :
    (traceLoop (releaseTrace key) rs c).2.count (.lock .resourceStore) = rs.length ∧
      (traceLoop (releaseTrace key) rs c).2.count (.unlock .resourceStore) =
        rs.countP fun r => (c.entry r).isSome := by
  induction rs generalizing c with
  | nil => exact ⟨rfl, rfl⟩
  | cons r rs ih =>
    obtain ⟨hlock, hunlock⟩ := ih (releaseTrace key c r).1
    simp only [releaseTrace_isSome] at hunlock
    constructor
    · rw [traceLoop, List.count_append, count_lock_releaseTrace, hlock, List.length_cons]
      omega
    · rw [traceLoop, List.count_append, count_unlock_releaseTrace, hunlock, List.countP_cons]
      omega

theorem deletedTrace_disciplined_iff (c : Controller) :
    Disciplined (deletedTrace key c).2.2 ↔ ∀ r ∈ c.names key, (c.entry r).isSome := by
  constructor
  · intro h r hr
    have hcount := h.count_eq .resourceStore
    obtain ⟨hlock, hunlock⟩ := count_releaseLoop key (c.names key).keys
      { c with ingressToResourceNameStore := c.ingressToResourceNameStore.erase key }
    have hnames : ∀ a : Action LockName, a = .lock .resourceStore ∨ a = .unlock .resourceStore →
        (locked .ingressToResourceNameStore []).count a = 0 := by
      rintro a (rfl | rfl) <;> rfl
    simp only [deletedTrace, List.count_append, hnames _ (.inl rfl), hnames _ (.inr rfl),
      hlock, hunlock, zero_add, add_zero] at hcount
    exact List.countP_eq_length.mp hcount r (AList.mem_keys.mp hr)
  · intro h
    refine Neutral.append (Neutral.append ?_ (releaseLoop_neutral ?_)) ?_
    · exact locked_neutral (by simp) (Neutral.nil _)
    · exact fun r hr => h r (AList.mem_keys.mpr hr)
    · exact locked_neutral (by simp) (.nil _)

end

theorem resourceTrace_disciplined_iff (r : GoString) (c : Controller) :
    Disciplined (resourceTrace r c) ↔ (c.entry r).isSome := by
  unfold resourceTrace
  cases c.entry r with
  | none | some _ => simp [Disciplined, performAll, perform]

theorem ingressTrace_disciplined_iff (H : Digest) (L : Listers) (key : GoString)
    (c : Controller) :
    (∀ c' err as, ingressTrace H L key c = .ok (c', err, as) → Disciplined as) ↔
      (Gone L key → ∀ r ∈ c.names key, (c.entry r).isSome) := by
  unfold ingressTrace
  cases hsplit : splitMetaNamespaceKey key with
  | none =>
    refine iff_of_true ?_ ?_
    · intro c' err as h
      cases h
      exact Neutral.nil []
    · intro hgone
      have hsome := hgone.1
      simp [hsplit] at hsome
  | some k =>
    have hof : ingressOf L key = findIngress L k := by simp [ingressOf, hsplit]
    dsimp only
    cases hfind : findIngress L k with
    | none =>
      have hgone : Gone L key := ⟨by simp [hsplit], hof.trans hfind⟩
      rw [← deletedTrace_disciplined_iff, forall_prop_of_true hgone]
      constructor
      · exact fun h => h _ _ _ rfl
      · rintro h c' err as ⟨⟩
        exact h
    | some ingress =>
      refine iff_of_true (fun c' err as h => foundTrace_disciplined h) ?_
      rintro ⟨-, hnone⟩
      rw [hof, hfind] at hnone
      cases hnone

/-- The calls are disciplined exactly if the resources they look up are stored. -/
theorem lock_discipline_iff (H : Digest) (c : Controller) (call : WorkerCall) :
    (∀ as, lockTrace H c call = .ok as → Disciplined as) ↔ Present c call := by
  cases call with
  | syncEnvoyResource r =>
    rw [Present, ← resourceTrace_disciplined_iff]
    constructor
    · exact fun h => h _ rfl
    · rintro h as ⟨⟩
      exact h
  | syncEnvoyIngress L key =>
    rw [Present, ← ingressTrace_disciplined_iff H L key c]
    constructor
    · intro h c' err as has
      exact h as (by rw [lockTrace, has, ok_bind])
    · intro h as has
      obtain ⟨⟨c', err, as'⟩, htrace, has⟩ := ok_of_bind has
      cases has
      exact h c' err as htrace

open Sample

/-- A resource that is gone: the call returns with the read lock.  A recorded resource that is
gone when its ingress is deleted: the next turn waits for the lock, the last one keeps it. -/
theorem locks_leak :
    lockTrace digest {} (.syncEnvoyResource (str "default/x")) =
        .ok [.rLock .resourceStore] ∧
      ¬ Disciplined ([.rLock .resourceStore] : LockTrace) ∧
      ∃ as, lockTrace digest (Controller.setNames {} (str "default/web")
          (GoSet.ofList [str "default/x", str "default/y"]))
          (.syncEnvoyIngress {} (str "default/web")) = .ok as ∧
        as.count (.lock .resourceStore) = 2 ∧ as.count (.unlock .resourceStore) = 0 ∧
        ¬ Disciplined as := by
  refine ⟨rfl, by decide, _, rfl, by decide +kernel, by decide +kernel, by decide +kernel⟩

theorem lock_of_idle (h : c.resourceStoreLock = {}) :
    c.resourceStoreLock.lock = .ok { writer := true } := by
  rw [h]
  rfl

theorem loopM_eq_traceLoop {α : Type} (body : Controller → α → M Controller)
    (turn : Controller → α → Controller × LockTrace) {l : List α} {P : Controller → α → Prop}
    (hbody : ∀ c a, c.resourceStoreLock = {} → P c a → body c a = .ok (turn c a).1)
    (hlock : ∀ c a, (turn c a).1.resourceStoreLock = c.resourceStoreLock)
    (hP : ∀ c a b, P c b → P (turn c a).1 b) (hc : c.resourceStoreLock = {})
    (hall : ∀ a ∈ l, P c a) :
    loopM body l c = .ok (traceLoop turn l c).1 ∧
      (traceLoop turn l c).1.resourceStoreLock = {} := by
  induction l generalizing c with
  | nil => exact ⟨rfl, hc⟩
  | cons a l ih =>
    rw [List.forall_mem_cons] at hall
    have hnext := ih ((hlock c a).trans hc) fun b hb => hP c a b (hall.2 b hb)
    rw [loopM, hbody c a hc hall.1, ok_bind]
    exact hnext

theorem insertLoop_eq (key : GoString) (xs : List Resource) (c : Controller) :
    (traceLoop (insertTrace key) xs c).1 = xs.foldl (insertResource key) c := by
  induction xs generalizing c with
  | nil => rfl
  | cons x xs ih => exact ih _

theorem staleTurn_eq {fresh : List GoString} (hlock : c.resourceStoreLock = {}) :
    staleTurn key fresh c r = .ok (staleTrace key fresh c r).1 := by
  unfold staleTurn staleTrace
  split_ifs
  · rfl
  rw [lock_of_idle hlock, ok_bind]
  cases c.entry r with
  | none => rfl
  | some resource =>
    dsimp only
    split_ifs <;> rfl

theorem staleTrace_lock (key : GoString) (fresh : List GoString) (c : Controller) (r : GoString) :
    (staleTrace key fresh c r).1.resourceStoreLock = c.resourceStoreLock := by
  unfold staleTrace
  split_ifs
  · rfl
  cases c.entry r with
  | none => rfl
  | some resource =>
    dsimp only
    split_ifs <;> rfl

theorem releaseTurn_eq (hlock : c.resourceStoreLock = {}) (h : (c.entry r).isSome) :
    releaseTurn key c r = .ok (releaseTrace key c r).1 := by
  obtain ⟨resource, hentry⟩ := Option.isSome_iff_exists.mp h
  rw [releaseTurn, releaseTrace, lock_of_idle hlock, ok_bind, hentry]

theorem releaseTrace_lock (key : GoString) (c : Controller) (r : GoString) :
    (releaseTrace key c r).1.resourceStoreLock = c.resourceStoreLock := by
  unfold releaseTrace
  cases c.entry r with
  | none => rfl
  | some resource =>
    dsimp only
    split_ifs <;> rfl

theorem foundTrace_effect (H : Digest) (L : Listers) (key : GoString) (ingress : Ingress)
    (hlock : c.resourceStoreLock = {}) :
    syncFoundIngress (envoyResourcesForIngress H L) key ingress c =
      (foundTrace H L key ingress c).map fun r => (r.1, r.2.1) := by
  unfold syncFoundIngress foundTrace
  split_ifs
  · cases hgen : envoyResourcesForIngress H L ingress with
    | error e => rfl
    | ok gen =>
      obtain ⟨hloop, hidle⟩ := loopM_eq_traceLoop (staleTurn key (gen.map (·.key)))
        (staleTrace key (gen.map (·.key))) (P := fun _ _ => True) (l := (c.names key).keys)
        (c := c.setNames key (c.names key))
        (fun c r hc _ => staleTurn_eq hc) (fun c r => staleTrace_lock key _ c r)
        (fun _ _ _ => id) hlock (fun _ _ => trivial)
      simp only [hloop, ok_bind, insertLoop_eq]
      rw [lock_of_idle hidle]
      rfl
  · rfl

theorem deletedTrace_effect (hlock : c.resourceStoreLock = {})
    (hpresent : ∀ r ∈ c.names key, (c.entry r).isSome) :
    syncDeletedIngress key c = .ok ((deletedTrace key c).1, (deletedTrace key c).2.1) := by
  obtain ⟨hloop, -⟩ := loopM_eq_traceLoop (releaseTurn key) (releaseTrace key)

    (c := { c with ingressToResourceNameStore := c.ingressToResourceNameStore.erase key })
    (fun c r hc hr => releaseTurn_eq hc hr) (fun c r => releaseTrace_lock key c r)
    (fun c a b hb => (releaseTrace_isSome key c a b).trans hb) hlock
    (fun r hr => hpresent r (AList.mem_keys.mpr hr))
  unfold syncDeletedIngress
  simp only [hloop, ok_bind]
  rfl

/-- With the lock free and the resources present, the traced call of an ingress has the
effect of the call. -/
theorem ingressTrace_effect (H : Digest) (L : Listers) (key : GoString) (c : Controller)
    (hlock : c.resourceStoreLock = {}) (hpresent : Present c (.syncEnvoyIngress L key)) :
    syncEnvoyIngress H L key c =
      (ingressTrace H L key c).map fun r => (r.1, r.2.1) := by
  unfold syncEnvoyIngress syncWith ingressTrace
  cases hsplit : splitMetaNamespaceKey key with
  | none => rfl
  | some k =>
    dsimp only
    cases hfind : findIngress L k with
    | none =>
      have hgone : Gone L key := ⟨by simp [hsplit], by simp [ingressOf, hsplit, hfind]⟩
      exact deletedTrace_effect hlock (hpresent hgone)
    | some ingress => exact foundTrace_effect H L key ingress hlock

end KubeEdge.Envoy
