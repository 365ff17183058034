import KubeEdge.Go.Control

namespace KubeEdge.EdgeController.Merge
open Go

/-- `rest` has the fields of `ObjectMeta` that are compared and not looked at. -/
structure PodMeta (μ : Type) where
  uid : GoString
  resourceVersion : GoString
  generation : ℤ
  deletionTimestamp : Option ℤ
  rest : μ
  deriving DecidableEq

structure Pod (μ σ : Type) where
  objectMeta : PodMeta μ
  spec : σ

structure CachePod (μ σ : Type) where
  objectMeta : PodMeta μ
  spec : σ

inductive EventType
  | added
  | modified
  | deleted
  deriving DecidableEq, Repr

structure Event (μ σ : Type) where
  type : EventType
  object : Pod μ σ

variable {μ σ : Type}

def Pod.uid (pod : Pod μ σ) : GoString := pod.objectMeta.uid

structure PodManager (μ σ : Type) where
  /-- The pointers of the pods, by UID. -/
  pods : GoMap GoString ℕ := ∅
  /-- What the pointers point to. -/
  cells : List (CachePod μ σ) := []
  /-- What was sent to `mergedEvents`, the first event first. -/
  mergedEvents : List (Event μ σ) := []

namespace PodManager

/-- A new `CachePod` comes into the map. -/
def store (pm : PodManager μ σ) (pod : Pod μ σ) : PodManager μ σ :=
  { pm with
    pods := pm.pods.insert pod.uid pm.cells.length
    cells := pm.cells ++ [⟨pod.objectMeta, pod.spec⟩] }

def forward (pm : PodManager μ σ) (e : Event μ σ) : PodManager μ σ :=
  { pm with mergedEvents := pm.mergedEvents ++ [e] }

variable [DecidableEq μ] [DecidableEq σ]

/-- The old pod is changed where it is. -/
def isPodUpdated (pm : PodManager μ σ) (old : ℕ) (new : Pod μ σ) : M (PodManager μ σ × Bool) := do
  let cell ← deref pm.cells[old]?
  let cell := { cell with objectMeta := { cell.objectMeta with
    resourceVersion := new.objectMeta.resourceVersion
    generation := new.objectMeta.generation } }
  .ok ({ pm with cells := pm.cells.set old cell },
    decide (cell.objectMeta ≠ new.objectMeta ∨ cell.spec ≠ new.spec))

/-- A round of `merge`. -/
def mergeEvent (pm : PodManager μ σ) (re : Event μ σ) : M (PodManager μ σ) :=
  let pod := re.object
  match re.type with
  | .added =>
    let pm := pm.store pod
    if pod.objectMeta.deletionTimestamp = none then .ok (pm.forward re)
    else .ok (pm.forward { re with type := .modified })
  | .deleted =>
    let pm := { pm with pods := pm.pods.erase pod.uid }
    .ok (pm.forward re)
  | .modified =>
    let value := pm.pods.lookup pod.uid
    let pm := pm.store pod
    match value with
    | some cachedPod => do
      let (pm, updated) ← pm.isPodUpdated cachedPod pod
      if updated then .ok (pm.forward re) else .ok pm
    | none => .ok (pm.forward re)

def merge (es : List (Event μ σ)) : M (PodManager μ σ) := loopM mergeEvent es {}

end PodManager

/-- What matters of a pod: version and generation do not. -/
structure View (μ σ : Type) where
  uid : GoString
  deletionTimestamp : Option ℤ
  rest : μ
  spec : σ

def view (objectMeta : PodMeta μ) (spec : σ) : View μ σ :=
  ⟨objectMeta.uid, objectMeta.deletionTimestamp, objectMeta.rest, spec⟩

def Pod.view (pod : Pod μ σ) : View μ σ := Merge.view pod.objectMeta pod.spec

/-- Added and Modified set a pod, Deleted removes it. -/
def apply (pods : GoMap GoString (View μ σ)) (e : Event μ σ) : GoMap GoString (View μ σ) :=
  match e.type with
  | .deleted => pods.erase e.object.uid
  | _ => pods.insert e.object.uid e.object.view

def replay (es : List (Event μ σ)) : GoMap GoString (View μ σ) := es.foldl apply ∅

/-- What is handed on for an event: a pod that comes while it is being deleted is handed on as
an update. -/
def Forwarded (e e' : Event μ σ) : Prop :=
  e'.object = e.object ∧
    (e'.type = e.type ∨
      e.type = .added ∧ e.object.objectMeta.deletionTimestamp ≠ none ∧ e'.type = .modified)

theorem replay_snoc (es : List (Event μ σ)) (e : Event μ σ) :
    replay (es ++ [e]) = apply (replay es) e := by
  unfold replay
  rw [List.foldl_append]
  rfl

theorem lookup_apply (pods : GoMap GoString (View μ σ)) (e : Event μ σ) (uid : GoString) :
    (apply pods e).lookup uid =
      if uid = e.object.uid then (if e.type = .deleted then none else some e.object.view)
      else pods.lookup uid := by
  unfold apply
  cases e.type with
  | added | modified =>
    rw [GoMap.lookup_insert]
    simp
  | deleted =>
    rw [GoMap.lookup_erase]
    simp

namespace PodManager

def cached (pm : PodManager μ σ) (uid : GoString) : Option (View μ σ) := do
  let a ← pm.pods.lookup uid
  let cell ← pm.cells[a]?
  some (view cell.objectMeta cell.spec)

def Valid (pm : PodManager μ σ) : Prop :=
  -- every pointer points to something
  ∀ uid a, pm.pods.lookup uid = some a → a < pm.cells.length

theorem Valid.store {pm : PodManager μ σ} (h : pm.Valid) (pod : Pod μ σ) :
    (pm.store pod).Valid := by
  have hlen : (pm.store pod).cells.length = pm.cells.length + 1 := List.length_append
  unfold Valid
  rw [hlen]
  exact GoMap.forall_insert (fun uid a hlook => Nat.lt_succ_of_lt (h uid a hlook))
    (Nat.lt_succ_self _)

theorem cached_store {pm : PodManager μ σ} (h : pm.Valid) (pod : Pod μ σ) (uid : GoString) :
    (pm.store pod).cached uid = if uid = pod.uid then some pod.view else pm.cached uid := by
  unfold cached store
  rw [GoMap.lookup_insert]
  split_ifs with huid
  · simp [Pod.view]
  · cases hlook : pm.pods.lookup uid with
    | none => rfl
    | some a =>
      have hlt := h uid a hlook
      simp [List.getElem?_append_left hlt]

/-- The comparison changes nothing that matters in the cache, and says whether something that
matters is new. -/
theorem isPodUpdated_spec [DecidableEq μ] [DecidableEq σ] {pm : PodManager μ σ} {old : ℕ}
    (new : Pod μ σ) {cell : CachePod μ σ} (hcell : pm.cells[old]? = some cell) :
    ∃ pm' updated, pm.isPodUpdated old new = .ok (pm', updated) ∧ pm'.pods = pm.pods ∧
      pm'.mergedEvents = pm.mergedEvents ∧ pm'.cells.length = pm.cells.length ∧
      (∀ uid, pm'.cached uid = pm.cached uid) ∧
      (updated = false → view cell.objectMeta cell.spec = new.view) := by
  unfold isPodUpdated
  rw [hcell, deref_some, ok_bind]
  refine ⟨_, _, rfl, rfl, rfl, ?_, ?_, ?_⟩
  · rw [List.length_set]
  · intro uid
    unfold cached
    cases pm.pods.lookup uid with
    | none => rfl
    | some a =>
      have hlt : old < pm.cells.length := (List.getElem?_eq_some_iff.mp hcell).1
      by_cases ha : old = a
      · subst ha
        simp only [Option.bind_eq_bind, Option.bind_some]
        rw [List.getElem?_set_self hlt, hcell]
        rfl
      · simp only [Option.bind_eq_bind, Option.bind_some]
        rw [List.getElem?_set_ne ha]
  · intro hsame
    rw [decide_eq_false_iff_not, not_or, not_not, not_not] at hsame
    obtain ⟨hmeta, hspec⟩ := hsame
    unfold Pod.view
    rw [← hmeta, ← hspec]
    rfl

end PodManager

/-- The state after the events `es`. -/
structure Inv (es : List (Event μ σ)) (pm : PodManager μ σ) : Prop where
  valid : pm.Valid
  cache : ∀ uid, pm.cached uid = (replay es).lookup uid
  merged : ∀ uid, (replay pm.mergedEvents).lookup uid = (replay es).lookup uid
  deleted : pm.mergedEvents.filter (·.type = .deleted) = es.filter (·.type = .deleted)
  order : ∃ sub, List.Sublist sub es ∧ List.Forall₂ Forwarded sub pm.mergedEvents

variable {es : List (Event μ σ)} {pm pm' : PodManager μ σ}

theorem Inv.forward (h : Inv es pm) {re e : Event μ σ} (hvalid : pm'.Valid)
    (hsame : pm'.mergedEvents = pm.mergedEvents) (hfor : Forwarded re e)
    (hcache : ∀ uid, pm'.cached uid = (replay (es ++ [re])).lookup uid) :
    Inv (es ++ [re]) (pm'.forward e) := by
  have hdeleted : (e.type = .deleted) ↔ re.type = .deleted := by
    rcases hfor.2 with htype | ⟨htype, -, htype'⟩
    · rw [htype]
    · simp [htype, htype']
  refine ⟨hvalid, hcache, ?_, ?_, ?_⟩
  · intro uid
    change (replay (pm'.mergedEvents ++ [e])).lookup uid = _
    rw [hsame, replay_snoc, replay_snoc, lookup_apply, lookup_apply, h.merged, hfor.1]
    simp [hdeleted]
  · change (pm'.mergedEvents ++ [e]).filter _ = _
    have hrest := h.deleted
    by_cases htype : re.type = .deleted
    · -- a deletion is handed on as it is
      have he : e = re := by
        rcases hfor.2 with he | ⟨he, -⟩
        · obtain ⟨type, object⟩ := e
          obtain ⟨type', object'⟩ := re
          obtain rfl : object = object' := hfor.1
          obtain rfl : type = type' := he
          rfl
        · rw [he] at htype
          cases htype
      rw [hsame, List.filter_append, List.filter_append, hrest, he]
    · have he : ¬ e.type = .deleted := fun hd => htype (hdeleted.mp hd)
      rw [hsame, List.filter_append, List.filter_append, hrest]
      simp [htype, he]
  · obtain ⟨sub, hsub, hforwarded⟩ := h.order
    refine ⟨sub ++ [re], hsub.append (List.Sublist.refl _), ?_⟩
    change List.Forall₂ Forwarded (sub ++ [re]) (pm'.mergedEvents ++ [e])
    rw [hsame]
    exact List.rel_append hforwarded (List.Forall₂.cons hfor List.Forall₂.nil)

theorem Inv.drop (h : Inv es pm) {re : Event μ σ} (hvalid : pm'.Valid)
    (hsame : pm'.mergedEvents = pm.mergedEvents) (htype : re.type = .modified)
    (hold : (replay es).lookup re.object.uid = some re.object.view)
    (hcache : ∀ uid, pm'.cached uid = (replay (es ++ [re])).lookup uid) : Inv (es ++ [re]) pm' := by
  have hreplay : ∀ uid, (replay (es ++ [re])).lookup uid = (replay es).lookup uid := by
    intro uid
    rw [replay_snoc, lookup_apply]
    split_ifs with huid hdel
    · rw [htype] at hdel
      cases hdel
    · rw [huid, hold]
    · rfl
  refine ⟨hvalid, hcache, ?_, ?_, ?_⟩
  · intro uid
    rw [hsame, hreplay]
    exact h.merged uid
  · rw [hsame, List.filter_append, h.deleted]
    simp [htype]
  · obtain ⟨sub, hsub, hforwarded⟩ := h.order
    refine ⟨sub, hsub.trans (List.sublist_append_left ..), ?_⟩
    rw [hsame]
    exact hforwarded

theorem Inv.cached_store (h : Inv es pm) (re : Event μ σ) (htype : re.type ≠ .deleted)
    (uid : GoString) :
    (pm.store re.object).cached uid = (replay (es ++ [re])).lookup uid := by
  rw [PodManager.cached_store h.valid, replay_snoc, lookup_apply, if_neg htype, h.cache]

variable [DecidableEq μ] [DecidableEq σ]

theorem mergeEvent_inv (h : Inv es pm) (re : Event μ σ) :
    ∃ pm', pm.mergeEvent re = .ok pm' ∧ Inv (es ++ [re]) pm' := by
  unfold PodManager.mergeEvent
  cases htype : re.type with
  | added =>
    have hcache := h.cached_store re (by simp [htype])
    have hvalid := h.valid.store re.object
    dsimp only
    split_ifs with hdel
    · exact ⟨_, rfl, h.forward hvalid rfl ⟨rfl, .inl rfl⟩ hcache⟩
    · exact ⟨_, rfl, h.forward hvalid rfl ⟨rfl, .inr ⟨htype, hdel, rfl⟩⟩ hcache⟩
  | deleted =>
    refine ⟨_, rfl, h.forward ?_ rfl ⟨rfl, .inl rfl⟩ ?_⟩
    · exact GoMap.forall_erase h.valid _
    · intro uid
      rw [replay_snoc, lookup_apply, if_pos htype, ← h.cache]
      unfold PodManager.cached
      rw [GoMap.lookup_erase]
      split_ifs
      · rfl
      · rfl
  | modified =>
    have hcache := h.cached_store re (by simp [htype])
    have hvalid := h.valid.store re.object
    dsimp only
    cases hlook : pm.pods.lookup re.object.uid with
    | none => exact ⟨_, rfl, h.forward hvalid rfl ⟨rfl, .inl rfl⟩ hcache⟩
    | some old =>
      have hlt := h.valid _ old hlook
      have hcell : (pm.store re.object).cells[old]? = some pm.cells[old] := by
        change (pm.cells ++ [_])[old]? = _
        rw [List.getElem?_append_left hlt, List.getElem?_eq_getElem hlt]
      obtain ⟨pm', updated, hcompare, hpods, hsame, hlen, hcached, hequal⟩ :=
        PodManager.isPodUpdated_spec re.object hcell
      have hvalid' : pm'.Valid := by
        intro uid a hl
        rw [hpods] at hl
        rw [hlen]
        exact hvalid uid a hl
      have hcache' : ∀ uid, pm'.cached uid = (replay (es ++ [re])).lookup uid :=
        fun uid => (hcached uid).trans (hcache uid)
      dsimp only
      rw [hcompare, ok_bind]
      cases updated with
      | true => exact ⟨_, rfl, h.forward hvalid' hsame ⟨rfl, .inl rfl⟩ hcache'⟩
      | false =>
        refine ⟨pm', rfl, h.drop hvalid' hsame htype ?_ hcache'⟩
        rw [← h.cache, ← hequal rfl]
        unfold PodManager.cached
        simp [hlook, List.getElem?_eq_getElem hlt]

theorem merge_inv (es : List (Event μ σ)) : ∃ pm, PodManager.merge es = .ok pm ∧ Inv es pm := by
  induction es using List.reverseRecOn with
  | nil =>
    refine ⟨{}, rfl, ?_, ?_, ?_, rfl, [], List.Sublist.refl _, List.Forall₂.nil⟩
    · intro uid a hlook
      cases hlook
    · exact fun uid => rfl
    · exact fun uid => rfl
  | append_singleton es re ih =>
    obtain ⟨pm, hmerge, hinv⟩ := ih
    obtain ⟨pm', hstep, hinv'⟩ := mergeEvent_inv hinv re
    refine ⟨pm', ?_, hinv'⟩
    unfold PodManager.merge
    rw [loopM_append hmerge, loopM, hstep]
    rfl

/-- After any events the forwarded ones replay to the same pods, all deletions are among them, and
they come in the order of the events they were forwarded for. -/
theorem merge_loses_nothing (es : List (Event μ σ)) :
    ∃ pm, PodManager.merge es = .ok pm ∧
      (∀ uid, (replay pm.mergedEvents).lookup uid = (replay es).lookup uid) ∧
      pm.mergedEvents.filter (·.type = .deleted) = es.filter (·.type = .deleted) ∧
      ∃ sub, List.Sublist sub es ∧ List.Forall₂ Forwarded sub pm.mergedEvents := by
  obtain ⟨pm, hmerge, hinv⟩ := merge_inv es
  exact ⟨pm, hmerge, hinv.merged, hinv.deleted, hinv.order⟩

/-- The cache has the pods the events replay to. -/
theorem cache_replays (es : List (Event μ σ)) :
    ∃ pm, PodManager.merge es = .ok pm ∧ ∀ uid, pm.cached uid = (replay es).lookup uid := by
  obtain ⟨pm, hmerge, hinv⟩ := merge_inv es
  exact ⟨pm, hmerge, hinv.cache⟩

end KubeEdge.EdgeController.Merge
