import KubeEdge.Go.Control

namespace Go

theorem nodup_snoc {κ : Type} {l : List κ} {k : κ} (hk : k ∉ l) (hl : l.Nodup) :
    (l ++ [k]).Nodup := by
  rw [List.nodup_append_comm]
  exact List.nodup_cons.mpr ⟨hk, hl⟩

section Empty

variable {κ ω : Type}

theorem empty_queue_dirty : ∀ k ∈ ([] : List κ), k ∈ (∅ : GoSet κ) := by simp

theorem empty_queue_idle : ∀ k ∈ ([] : List κ), k ∉ (∅ : GoMap κ ω) := by simp

theorem empty_dirty_served : ∀ k ∈ (∅ : GoSet κ), k ∈ ([] : List κ) ∨ k ∈ (∅ : GoMap κ ω) := by
  simp

end Empty

structure Workqueue (κ ω : Type) [DecidableEq κ] where
  queue : List κ := []
  dirty : GoSet κ := ∅
  processing : GoMap κ ω := ∅
  waiting : GoSet κ := ∅
  nodup : queue.Nodup := by exact List.nodup_nil
  queue_dirty : ∀ k ∈ queue, k ∈ dirty := by exact empty_queue_dirty
  queue_idle : ∀ k ∈ queue, k ∉ processing := by exact empty_queue_idle
  dirty_served : ∀ k ∈ dirty, k ∈ queue ∨ k ∈ processing := by exact empty_dirty_served

namespace Workqueue

variable {κ ω : Type} [DecidableEq κ] {q : Workqueue κ ω} {k : κ}

/-- What the worker that has `k` is about to do. -/
def worker (q : Workqueue κ ω) (k : κ) : Option ω := q.processing.lookup k

/-- In the queue, with a worker, or with the rate limiter. -/
def Scheduled (q : Workqueue κ ω) (k : κ) : Prop :=
  k ∈ q.queue ∨ (∃ w, q.worker k = some w) ∨ k ∈ q.waiting

theorem mem_processing : k ∈ q.processing ↔ ∃ w, q.worker k = some w :=
  GoMap.mem_iff_lookup

theorem notMem_processing : k ∉ q.processing ↔ q.worker k = none := by
  rw [mem_processing, ← Option.isSome_iff_exists, Option.not_isSome_iff_eq_none]

theorem scheduled_of_dirty (h : k ∈ q.dirty) : q.Scheduled k := by
  rcases q.dirty_served k h with hqueue | hworker
  · exact .inl hqueue
  · exact .inr (.inl (mem_processing.mp hworker))

theorem mem_queue_of_dirty (hfree : q.worker k = none) (h : k ∈ q.dirty) : k ∈ q.queue :=
  (q.dirty_served k h).resolve_right (notMem_processing.mpr hfree)

def add (q : Workqueue κ ω) (k : κ) : Workqueue κ ω :=
  if hdirty : k ∈ q.dirty then q
  else if hworker : k ∈ q.processing then
    { q with
      dirty := GoSet.add k q.dirty
      queue_dirty := fun a ha => GoSet.mem_add.mpr (.inr (q.queue_dirty a ha))
      dirty_served := by
        intro a ha
        rcases GoSet.mem_add.mp ha with rfl | ha
        · exact .inr hworker
        · exact q.dirty_served a ha }
  else
    { q with
      queue := q.queue ++ [k]
      dirty := GoSet.add k q.dirty
      nodup := by
        have hnew : k ∉ q.queue := fun h => hdirty (q.queue_dirty k h)
        exact nodup_snoc hnew q.nodup
      queue_dirty := by
        intro a ha
        rw [GoSet.mem_add]
        rcases List.mem_append.mp ha with ha | ha
        · exact .inr (q.queue_dirty a ha)
        · exact .inl (List.mem_singleton.mp ha)
      queue_idle := by
        intro a ha
        rcases List.mem_append.mp ha with ha | ha
        · exact q.queue_idle a ha
        · rw [List.mem_singleton.mp ha]
          exact hworker
      dirty_served := by
        intro a ha
        rcases GoSet.mem_add.mp ha with rfl | ha
        · exact .inl (by simp)
        · rcases q.dirty_served a ha with h | h
          · exact .inl (List.mem_append_left _ h)
          · exact .inr h }

/-- `Get`: the first key of the queue goes to a worker. -/
def get (q : Workqueue κ ω) (w : ω) : Option (κ × Workqueue κ ω) :=
  match hq : q.queue with
  | [] => none
  | k :: rest => some (k,
    { q with
      queue := rest
      dirty := AList.erase k q.dirty
      processing := AList.insert k w q.processing
      nodup := by
        have h := q.nodup
        rw [hq] at h
        exact h.of_cons
      queue_dirty := by
        intro a ha
        have h := q.nodup
        rw [hq, List.nodup_cons] at h
        have hne : a ≠ k := fun he => h.1 (he ▸ ha)
        exact GoSet.mem_erase.mpr ⟨hne, q.queue_dirty a (hq ▸ .tail _ ha)⟩
      queue_idle := by
        intro a ha hmem
        have h := q.nodup
        rw [hq, List.nodup_cons] at h
        rcases (AList.mem_insert q.processing).mp hmem with he | hmem
        · exact h.1 (he ▸ ha)
        · exact q.queue_idle a (hq ▸ .tail _ ha) hmem
      dirty_served := by
        intro a ha
        obtain ⟨hne, ha⟩ := GoSet.mem_erase.mp ha
        rcases q.dirty_served a ha with h | h
        · rw [hq, List.mem_cons] at h
          exact .inl (h.resolve_left hne)
        · exact .inr ((AList.mem_insert q.processing).mpr (.inr h)) })

/-- The worker that has `k` goes on to `w`. -/
def setWorker (q : Workqueue κ ω) (k : κ) (w : ω) : Workqueue κ ω :=
  if hworker : k ∈ q.processing then
    { q with
      processing := AList.insert k w q.processing
      queue_idle := by
        intro a ha hmem
        rcases (AList.mem_insert q.processing).mp hmem with rfl | hmem
        · exact q.queue_idle a ha hworker
        · exact q.queue_idle a ha hmem
      dirty_served := by
        intro a ha
        rcases q.dirty_served a ha with h | h
        · exact .inl h
        · exact .inr ((AList.mem_insert q.processing).mpr (.inr h)) }
  else q

/-- `Done`: a key that was added meanwhile goes back into the queue. -/
def done (q : Workqueue κ ω) (k : κ) : Workqueue κ ω :=
  if hworker : k ∈ q.processing then
    have hnew : k ∉ q.queue := fun h => q.queue_idle k h hworker
    if hdirty : k ∈ q.dirty then
      { q with
        queue := q.queue ++ [k]
        processing := AList.erase k q.processing
        nodup := nodup_snoc hnew q.nodup
        queue_dirty := by
          intro a ha
          rcases List.mem_append.mp ha with ha | ha
          · exact q.queue_dirty a ha
          · exact List.mem_singleton.mp ha ▸ hdirty
        queue_idle := by
          intro a ha hmem
          obtain ⟨hne, hmem⟩ := AList.mem_erase.mp hmem
          rcases List.mem_append.mp ha with ha | ha
          · exact q.queue_idle a ha hmem
          · exact hne (List.mem_singleton.mp ha)
        dirty_served := by
          intro a ha
          by_cases he : a = k
          · exact .inl (by simp [he])
          · rcases q.dirty_served a ha with h | h
            · exact .inl (List.mem_append_left _ h)
            · exact .inr (AList.mem_erase.mpr ⟨he, h⟩) }
    else
      { q with
        processing := AList.erase k q.processing
        queue_idle := fun a ha hmem => q.queue_idle a ha (AList.mem_erase.mp hmem).2
        dirty_served := by
          intro a ha
          have he : a ≠ k := fun he => hdirty (he ▸ ha)
          rcases q.dirty_served a ha with h | h
          · exact .inl h
          · exact .inr (AList.mem_erase.mpr ⟨he, h⟩) }
  else q

def addRateLimited (q : Workqueue κ ω) (k : κ) : Workqueue κ ω :=
  { q with waiting := GoSet.add k q.waiting }

def release (q : Workqueue κ ω) (k : κ) : Workqueue κ ω :=
  -- the delay of a key is over
  { q.add k with waiting := AList.erase k q.waiting }

variable (q) (k) (a : κ) (w : ω)

@[simp] theorem worker_add : (q.add k).worker a = q.worker a := by
  unfold add
  split_ifs <;> rfl

@[simp] theorem mem_dirty_add : a ∈ (q.add k).dirty ↔ a = k ∨ a ∈ q.dirty := by
  unfold add
  split_ifs with hdirty
  · constructor
    · exact .inr
    · rintro (rfl | h)
      · exact hdirty
      · exact h
  · exact GoSet.mem_add
  · exact GoSet.mem_add

@[simp] theorem waiting_add : (q.add k).waiting = q.waiting := by
  unfold add
  split_ifs <;> rfl

@[simp] theorem dirty_addRateLimited : (q.addRateLimited k).dirty = q.dirty := rfl

@[simp] theorem mem_waiting_addRateLimited :
    a ∈ (q.addRateLimited k).waiting ↔ a = k ∨ a ∈ q.waiting := GoSet.mem_add

@[simp] theorem worker_release : (q.release k).worker a = q.worker a := worker_add q k a

@[simp] theorem mem_dirty_release : a ∈ (q.release k).dirty ↔ a = k ∨ a ∈ q.dirty :=
  mem_dirty_add q k a

@[simp] theorem mem_waiting_release : a ∈ (q.release k).waiting ↔ a ≠ k ∧ a ∈ q.waiting :=
  GoSet.mem_erase

@[simp] theorem dirty_setWorker : (q.setWorker k w).dirty = q.dirty := by
  unfold setWorker
  split_ifs <;> rfl

@[simp] theorem waiting_setWorker : (q.setWorker k w).waiting = q.waiting := by
  unfold setWorker
  split_ifs <;> rfl

@[simp] theorem dirty_done : (q.done k).dirty = q.dirty := by
  unfold done
  split_ifs <;> rfl

@[simp] theorem waiting_done : (q.done k).waiting = q.waiting := by
  unfold done
  split_ifs <;> rfl

theorem worker_done : (q.done k).worker a = if a = k then none else q.worker a := by
  unfold done
  by_cases hworker : k ∈ q.processing
  · rw [dif_pos hworker]
    by_cases hdirty : k ∈ q.dirty
    · rw [dif_pos hdirty]
      exact GoMap.lookup_erase q.processing k a
    · rw [dif_neg hdirty]
      exact GoMap.lookup_erase q.processing k a
  · rw [dif_neg hworker]
    split_ifs with ha
    · rw [ha]
      exact notMem_processing.mp hworker
    · rfl

variable {q k w}

theorem worker_setWorker {w₀ : ω} (h : q.worker k = some w₀) :
    (q.setWorker k w).worker a = if a = k then some w else q.worker a := by
  unfold setWorker
  rw [dif_pos (mem_processing.mpr ⟨w₀, h⟩)]
  exact GoMap.lookup_insert ..

theorem get_eq_some {q' : Workqueue κ ω} (h : q.get w = some (k, q')) :
    q.worker k = none ∧ q.queue = k :: q'.queue ∧ q'.waiting = q.waiting ∧
      (∀ a, q'.worker a = if a = k then some w else q.worker a) ∧
      ∀ a, a ∈ q'.dirty ↔ a ≠ k ∧ a ∈ q.dirty := by
  unfold get at h
  split at h
  · cases h
  · rename_i first rest hq
    cases h
    refine ⟨?_, hq, rfl, fun a => GoMap.lookup_insert .., fun a => GoSet.mem_erase⟩
    apply notMem_processing.mp
    apply q.queue_idle
    rw [hq]
    exact .head _

theorem get_of_queue {rest : List κ} (h : q.queue = k :: rest) (w : ω) :
    ∃ q', q.get w = some (k, q') := by
  unfold get
  split
  · rename_i hq
    rw [hq] at h
    cases h
  · rename_i first rest' hq
    rw [hq] at h
    cases h
    exact ⟨_, rfl⟩

end Workqueue

end Go
