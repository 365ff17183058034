import KubeEdge.CloudHub.Queue

namespace KubeEdge.CloudHub
open Go Machine Workqueue

/-- A stored message that the edge has not answered will be looked at again. -/
def StaysScheduled (s : NodeQueue) : Prop :=
  ∀ k x, s.nodeStore.lookup k = some x → x ∉ s.acked → s.nodeQueue.Scheduled k

/-- A write loop drops no key before its message was answered: neither for a message that
stays in the cloud nor when the timer of the fifth attempt runs out. -/
def NotDropped (s : NodeQueue) : Event → Prop
  | .load k => ∀ x, s.nodeStore.lookup k = some x → x.msg.isToEdge ∨ ComesBack s k
  | .tick k _ => ∀ x closed, s.nodeQueue.worker k = some (.waiting x 4 closed) →
      x ∈ s.acked ∨ ComesBack s k
  | _ => True

structure Kept (s : NodeQueue) : Prop where
  unanswered : ∀ k x, s.nodeStore.lookup k = some x → x ∉ s.acked → ComesBack s k ∨
    s.nodeQueue.worker k = some .got ∨ ∃ j, s.nodeQueue.worker k = some j ∧ j.holds = some x
  answered : ∀ k x retry, s.nodeQueue.worker k = some (.waiting x retry true) → x ∈ s.acked

variable {s s' : NodeQueue} {j : Job}

theorem Kept.staysScheduled (h : Kept s) : StaysScheduled s := by
  intro k x hx hacked
  rcases h.unanswered k x hx hacked with (hdirty | hwaiting) | hgot | ⟨j, hj, -⟩
  · exact scheduled_of_dirty hdirty
  · exact .inr (.inr hwaiting)
  · exact .inr (.inl ⟨_, hgot⟩)
  · exact .inr (.inl ⟨j, hj⟩)

theorem kept_start (objectSyncs : ObjectSyncs) :
    Kept (start objectSyncs) where
  unanswered := by intro k x h; cases h
  answered := by intro k x retry h; cases h

/-- A write loop goes on to the job `j`, which has to account for what is stored for its key. -/
theorem Kept.setJob (h : Kept s) {key : GoString}
    (hstore : ∀ k x, s'.nodeStore.lookup k = some x → s.nodeStore.lookup k = some x)
    (hacked : s.acked ⊆ s'.acked) (hback : ∀ k, ComesBack s k → ComesBack s' k)
    (hworker : ∀ k, s'.nodeQueue.worker k = if k = key then some j else s.nodeQueue.worker k)
    (hkey : ∀ x, s'.nodeStore.lookup key = some x → x ∉ s'.acked → ComesBack s' key ∨
      j.holds = some x)
    (hclosed : ∀ x retry, j = .waiting x retry true → x ∈ s'.acked) : Kept s' := by
  constructor
  · intro k x hx hx'
    rw [hworker]
    split_ifs with hk
    · subst hk
      rcases hkey x hx hx' with hback | hholds
      · exact .inl hback
      · exact .inr (.inr ⟨j, rfl, hholds⟩)
    · have hold := h.unanswered k x (hstore k x hx) fun hmem => hx' (hacked hmem)
      exact hold.imp_left (hback k)
  · intro k x retry hj
    rw [hworker] at hj
    split_ifs at hj with hk
    · exact hclosed x retry (Option.some.inj hj)
    · exact hacked (h.answered k x retry hj)

theorem Kept.holds_or_comesBack (h : Kept s) {k : GoString} {x : Stored}
    (hjob : s.nodeQueue.worker k = some j) (hgot : j ≠ .got) (hx : s.nodeStore.lookup k = some x)
    (hacked : x ∉ s.acked) : ComesBack s k ∨ j.holds = some x := by
  rcases h.unanswered k x hx hacked with hback | hgot' | ⟨j', hj', hholds⟩
  · exact .inl hback
  · rw [hjob] at hgot'
    exact absurd (Option.some.inj hgot') hgot
  · rw [hjob] at hj'
    cases hj'
    exact .inr hholds

section

variable {key : GoString}

section

variable (h : Kept s) {j₀ : Job}
include h

section

variable (hjob : s.nodeQueue.worker key = some j₀)
include hjob

theorem Kept.job
    (hkey : ∀ x, s.nodeStore.lookup key = some x → x ∉ s.acked → ComesBack s key ∨ j.holds = some x)
    (hclosed : ∀ x retry, j = .waiting x retry true → x ∈ s.acked) : Kept (s.setJob key j) := by
  refine h.setJob (fun _ _ hx => hx) (List.Subset.refl _) (fun _ => comesBack_setJob.mpr)
    (worker_setJob hjob) ?_ hclosed
  intro x hx hacked
  exact (hkey x hx hacked).imp_left comesBack_setJob.mpr

theorem Kept.carry (hgot : j₀ ≠ .got) (hholds : j.holds = j₀.holds)
    (hclosed : ∀ x retry, j = .waiting x retry true → x ∈ s.acked) : Kept (s.setJob key j) := by
  refine h.job hjob ?_ hclosed
  intro x hx hacked
  rw [hholds]
  exact h.holds_or_comesBack hjob hgot hx hacked

theorem Kept.retryLater : Kept (s.retryLater key) := by
  refine h.setJob (fun _ _ hx => hx) (List.Subset.refl _)
    (fun _ hk => comesBack_retryLater.mpr (.inr hk)) (worker_retryLater hjob) ?_ (by simp)
  intro x _ _
  exact .inl (comesBack_retryLater.mpr (.inl rfl))

end

theorem Kept.logged (log : List Entry) : Kept { s with log := log } :=
  ⟨h.unanswered, h.answered⟩

theorem Kept.put (m : Message) : Kept (s.put key m) := by
  have hworker : ∀ k, (s.put key m).nodeQueue.worker k = s.nodeQueue.worker k :=
    fun k => worker_add ..
  constructor
  · intro k x hx hacked
    rw [hworker, comesBack_put]
    by_cases hk : k = key
    · exact .inl (.inl hk)
    · have hx : s.nodeStore.lookup k = some x := by
        rwa [NodeQueue.put, GoMap.lookup_insert, if_neg hk] at hx
      exact (h.unanswered k x hx hacked).imp_left .inr
  · intro k x retry hj
    exact h.answered k x retry ((hworker k).symm.trans hj)

theorem Kept.get {q : Workqueue GoString Job} (hget : s.nodeQueue.get Job.got = some (key, q)) :
    Kept { s with nodeQueue := q } := by
  obtain ⟨-, -, hwaiting, hworker, hdirty⟩ := get_eq_some hget
  constructor
  · intro k x hx hacked
    rw [hworker]
    split_ifs with hk
    · exact .inr (.inl rfl)
    · refine (h.unanswered k x hx hacked).imp_left (Or.imp ?_ ?_)
      · exact fun hmem => (hdirty k).mpr ⟨hk, hmem⟩
      · exact fun hmem => hwaiting ▸ hmem
  · intro k x retry hj
    rw [hworker] at hj
    split_ifs at hj with hk
    · cases hj
    · exact h.answered k x retry hj

theorem Kept.answer (x : Stored) : Kept { s with acked := x :: s.acked } := by
  constructor
  · intro k y hy hacked
    exact h.unanswered k y hy fun hmem => hacked (.tail _ hmem)
  · intro k y retry hj
    exact .tail _ (h.answered k y retry hj)

theorem Kept.success {x : Stored} {retry : ℕ}
    (hjob : s.nodeQueue.worker key = some (.waiting x retry true)) :
    Kept ((s.saveSuccessPoint x).setJob key .finished) := by
  refine h.setJob (fun k y => lookup_of_saveSuccessPoint) (by simp [NodeQueue.setJob])
    (fun k => comesBack_success.mpr) (worker_success hjob) ?_ (by simp)
  intro y hy hacked
  have hacked : y ∉ s.acked := by simpa [NodeQueue.setJob] using hacked
  rcases h.holds_or_comesBack hjob (by simp) (lookup_of_saveSuccessPoint hy) hacked with hk | hholds
  · exact .inl (comesBack_success.mpr hk)
  · cases hholds
    exact absurd (h.answered key x retry hjob) hacked

theorem Kept.done (hjob : s.nodeQueue.worker key = some .finished) :
    Kept { s with nodeQueue := s.nodeQueue.done key } := by
  constructor
  · intro k x hx hacked
    rw [comesBack_done]
    rw [worker_done]
    split_ifs with hk
    · subst hk
      have hkept := h.holds_or_comesBack hjob (by simp) hx hacked
      exact .inl (hkept.resolve_right (by simp [Job.holds]))
    · exact h.unanswered k x hx hacked
  · intro k x retry hj
    rw [worker_done] at hj
    split_ifs at hj
    exact h.answered k x retry hj

theorem Kept.release : Kept { s with nodeQueue := s.nodeQueue.release key } := by
  constructor
  · intro k x hx hacked
    rw [comesBack_release]
    rw [worker_release]
    exact (h.unanswered k x hx hacked).imp_left .inr
  · intro k x retry hj
    exact h.answered k x retry ((worker_release ..).symm.trans hj)

end

end

theorem kept_step {node : GoString} {e : Event} (h : Kept s) (hcond : NotDropped s e)
    (hstep : step node s e = some s') : Kept s' := by
  cases turn_of_step hstep with
  | check hidle haccepts | informer => exact ⟨h.unanswered, h.answered⟩
  | commit hm => exact h.put _
  | get hget => exact h.get hget
  | loadGone hjob hx => exact h.job hjob (by simp [hx]) (by simp)
  | loadSkip hjob hx hedge =>
    refine h.job hjob ?_ (by simp)
    intro x' _ _
    rcases hcond _ hx with hedge' | hback
    · rw [hedge] at hedge'
      cases hedge'
    · exact .inl hback
  | load hjob hx hedge =>
    refine h.job hjob ?_ (by simp)
    intro x' hx' _
    exact .inr (hx.symm.trans hx')
  | send hjob => exact (h.logged _).carry hjob (by simp) rfl (by simp)
  | sendFails hjob => exact (h.logged _).retryLater hjob
  | ack hjob =>
    refine (h.answer _).carry hjob (by simp) rfl ?_
    intro x' retry hj
    cases hj
    exact .head _
  | lateAck hpassed => exact h.answer _
  | success hjob => exact h.success hjob
  | giveUp hjob =>
    refine h.job hjob ?_ (by simp)
    intro x' hx' hacked
    -- the message of the fifth attempt is still stored, or the key was added meanwhile
    rcases h.holds_or_comesBack hjob (by simp) hx' hacked with hback | hholds
    · exact .inl hback
    · cases hholds
      exact .inl ((hcond _ _ hjob).resolve_left hacked)
  | resend hjob =>
    refine h.carry hjob (by simp) rfl ?_
    intro x' retry hj
    cases hj
    exact h.answered _ _ _ hjob
  | resendFails hjob => exact h.retryLater hjob
  | done hjob => exact h.done hjob
  | release hwaiting => exact h.release

/-- In every run in which the write loops drop nothing, an unanswered message stays scheduled. -/
theorem unanswered_stays_scheduled (node : GoString)
    (objectSyncs : ObjectSyncs) {events : List Event}
    (hcond : Along (step node) NotDropped (start objectSyncs) events) :
    Always (step node) StaysScheduled (start objectSyncs) events :=
  (always_of_along (fun _ _ _ h hP hstep => kept_step h hP hstep) (kept_start objectSyncs)
    hcond).mono fun _ h => h.staysScheduled

namespace Sample

/-- The pod is dispatched and sent, and answered at the second attempt. -/
def answered : List Event :=
  [.check (pod (str "update") (str "1")), .commit, .get, .load podKey, .send podKey true,
    .tick podKey true, .ack podKey, .success podKey, .done podKey]

/-- The pod is dispatched and sent, and none of the five attempts is answered. -/
def unanswered : List Event :=
  [.check (pod (str "update") (str "1")), .commit, .get, .load podKey, .send podKey true,
    .tick podKey true, .tick podKey true, .tick podKey true, .tick podKey true, .tick podKey true,
    .done podKey]

def early : Job → Bool
  | .waiting _ retry _ => retry ≠ 4
  | _ => true

end Sample

open Sample

theorem answered_stays_scheduled :
    Always (step (str "node")) StaysScheduled (start ∅) answered := by
  apply unanswered_stays_scheduled
  intro s₁ h₁
  refine ⟨trivial, fun s₂ h₂ => ⟨trivial, fun s₃ h₃ => ⟨trivial, fun s₄ h₄ => ⟨?_, ?_⟩⟩⟩⟩
  · -- the pod is for the edge
    have hread : (run (step (str "node")) (start ∅) (answered.take 3)).map (fun s =>
        (s.nodeStore.lookup podKey).all (·.msg.isToEdge)) = some true := by
      decide +kernel
    have hrun : run (step (str "node")) (start ∅) (answered.take 3) = some s₃ := by
      simp [answered, run, h₁, h₂, h₃]
    rw [hrun] at hread
    intro x hx
    left
    simpa [hx] using hread
  · refine fun s₅ h₅ => ⟨trivial, fun s₆ h₆ => ⟨?_, fun s₇ _ => ⟨trivial, fun s₈ _ => ⟨trivial,
      fun s₉ _ => ⟨trivial, trivial⟩⟩⟩⟩⟩
    -- the timer is the first one
    have hread : (run (step (str "node")) (start ∅) (answered.take 5)).map (fun s =>
        (s.nodeQueue.worker podKey).any early) = some true := by
      decide +kernel
    have hrun : run (step (str "node")) (start ∅) (answered.take 5) = some s₅ := by
      simp [answered, run, h₁, h₂, h₃, h₄, h₅]
    rw [hrun] at hread
    intro x closed hjob
    simp [hjob, early] at hread

/-- After the fifth attempt the key is nowhere, though the pod is stored and unanswered. -/
theorem unanswered_dropped :
    ¬ Always (step (str "node")) StaysScheduled (start ∅) unanswered := by
  intro h
  have hread : (run (step (str "node")) (start ∅) unanswered).map (fun s =>
      (s.nodeStore.lookup podKey).isSome && s.acked.isEmpty && s.nodeQueue.queue.isEmpty &&
        (s.nodeQueue.worker podKey).isNone && GoSet.isEmpty s.nodeQueue.waiting) =
      some true := by
    decide +kernel
  obtain ⟨s, hs, hread⟩ := Option.map_eq_some_iff.mp hread
  simp only [Bool.and_eq_true, List.isEmpty_iff, Option.isNone_iff_eq_none,
    GoSet.isEmpty_iff] at hread
  obtain ⟨⟨⟨⟨hstored, hacked⟩, hqueue⟩, hworker⟩, hwaiting⟩ := hread
  obtain ⟨x, hx⟩ := Option.isSome_iff_exists.mp hstored
  rcases h.last hs _ x hx (by simp [hacked]) with hq | ⟨w, hw⟩ | hw
  · simp [hqueue] at hq
  · rw [hworker] at hw
    cases hw
  · exact hwaiting _ hw

end KubeEdge.CloudHub
