import Mathlib

namespace Go.Locks

/-- An operation on the lock `m`. -/
inductive Action (ν : Type)
  | lock (m : ν)
  | unlock (m : ν)
  | rLock (m : ν)
  | rUnlock (m : ν)
  deriving DecidableEq

variable {ν : Type} [DecidableEq ν] {as : List (Action ν)}

/-- What a goroutine holds: each lock with whether it is held in write mode. -/
abbrev Held (ν : Type) := List (ν × Bool)

/-- `none`: the goroutine waits for itself, or releases what it does not hold. -/
def perform (held : Held ν) : Action ν → Option (Held ν)
  | .lock m => if (m, true) ∈ held ∨ (m, false) ∈ held then none else some ((m, true) :: held)
  | .rLock m => if (m, true) ∈ held then none else some ((m, false) :: held)
  | .unlock m => if (m, true) ∈ held then some (held.erase (m, true)) else none
  | .rUnlock m => if (m, false) ∈ held then some (held.erase (m, false)) else none

def performAll (held : Held ν) : List (Action ν) → Option (Held ν)
  | [] => some held
  | a :: as => (perform held a).bind fun held => performAll held as

def Disciplined (as : List (Action ν)) : Prop := performAll [] as = some []

instance (as : List (Action ν)) : Decidable (Disciplined as) :=
  inferInstanceAs (Decidable (_ = _))

theorem performAll_append (held : Held ν) (as bs : List (Action ν)) :
    performAll held (as ++ bs) = (performAll held as).bind fun held => performAll held bs := by
  induction as generalizing held with
  | nil => rfl
  | cons a as ih =>
    rw [List.cons_append, performAll, performAll, Option.bind_assoc]
    exact congrArg _ (funext fun held => ih held)

/-- The operations that leave the goroutine holding what it held. -/
def Neutral (held : Held ν) (as : List (Action ν)) : Prop := performAll held as = some held

theorem Neutral.nil (held : Held ν) : Neutral held [] := rfl

theorem Neutral.append {held : Held ν} {bs : List (Action ν)} (ha : Neutral held as)
    (hb : Neutral held bs) : Neutral held (as ++ bs) := by
  rw [Neutral, performAll_append, ha]
  exact hb

theorem Neutral.locked {held : Held ν} {m : ν} (hm : ∀ w, (m, w) ∉ held)
    (h : Neutral ((m, true) :: held) as) : Neutral held (.lock m :: (as ++ [.unlock m])) := by
  have hfree : ¬ ((m, true) ∈ held ∨ (m, false) ∈ held) := by simp [hm]
  rw [Neutral, performAll, perform, if_neg hfree, Option.bind_some, performAll_append, h,
    Option.bind_some]
  simp [performAll, perform]

theorem count_performAll {held held' : Held ν} (h : performAll held as = some held') (m : ν) :
    held'.count (m, true) + as.count (.unlock m) = held.count (m, true) + as.count (.lock m) := by
  induction as generalizing held with
  | nil =>
    cases h
    simp
  | cons a as ih =>
    obtain ⟨held₁, h₁, h⟩ := Option.bind_eq_some_iff.mp h
    have hrest := ih h
    cases a with
    | lock m' =>
      simp only [perform] at h₁
      split_ifs at h₁
      cases h₁
      simp only [List.count_cons, beq_iff_eq, Prod.mk.injEq, and_true, Action.lock.injEq,
        reduceCtorEq, if_false] at hrest ⊢
      omega
    | rLock m' =>
      simp only [perform] at h₁
      split_ifs at h₁
      cases h₁
      simpa [List.count_cons] using hrest
    | unlock m' =>
      simp only [perform] at h₁
      split_ifs at h₁ with hmem
      cases h₁
      rw [List.count_erase] at hrest
      simp only [List.count_cons, beq_iff_eq, Prod.mk.injEq, and_true, Action.unlock.injEq,
        reduceCtorEq, if_false] at hrest ⊢
      split_ifs at hrest ⊢ with hm
      · subst hm
        have := List.count_pos_iff.mpr hmem
        omega
      · omega
    | rUnlock m' =>
      simp only [perform] at h₁
      split_ifs at h₁
      cases h₁
      simpa [List.count_cons] using hrest

theorem Disciplined.count_eq (h : Disciplined as) (m : ν) :
    as.count (.unlock m) = as.count (.lock m) := by
  simpa using count_performAll h m

end Go.Locks
