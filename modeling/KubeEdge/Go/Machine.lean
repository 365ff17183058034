import Mathlib

namespace Go.Machine

variable {σ α : Type*} (step : σ → α → Option σ)

def Always (Q : σ → Prop) : σ → List α → Prop
  | s, [] => Q s
  | s, a :: as => Q s ∧ ∀ s', step s a = some s' → Always Q s' as

def Along (P : σ → α → Prop) : σ → List α → Prop
  | _, [] => True
  | s, a :: as => ∀ s', step s a = some s' → P s a ∧ Along P s' as

/-- The state a run ends in, if all its calls return. -/
def run : σ → List α → Option σ
  | s, [] => some s
  | s, a :: as => (step s a).bind fun s' => run s' as

/-- Whether a decidable condition holds along a run. -/
def checkAlong (p : σ → α → Bool) : σ → List α → Bool
  | _, [] => true
  | s, a :: as =>
    match step s a with
    | none => true
    | some s' => p s a && checkAlong p s' as

variable {step}

variable {P R : σ → α → Prop} {s : σ} {as as' : List α} {Q I : σ → Prop}

theorem along_of_check {p : σ → α → Bool} (hp : ∀ s a, p s a = true → P s a)
    (h : checkAlong step p s as = true) : Along step P s as := by
  induction as generalizing s with
  | nil => trivial
  | cons a as ih =>
    intro s' hs'
    simp only [checkAlong, hs', Bool.and_eq_true] at h
    exact ⟨hp s a h.1, ih h.2⟩

theorem Always.head (h : Always step Q s as) : Q s := by
  cases as with
  | nil => exact h
  | cons a as => exact h.1

theorem Always.last {s' : σ} (h : Always step Q s as) (hrun : run step s as = some s') : Q s' := by
  induction as generalizing s with
  | nil =>
    cases hrun
    exact h
  | cons a as ih =>
    obtain ⟨s₁, h₁, hrun⟩ := Option.bind_eq_some_iff.mp hrun
    exact ih (h.2 s₁ h₁) hrun

theorem run_append {s₁ : σ} (h : run step s as = some s₁) :
    run step s (as ++ as') = run step s₁ as' := by
  induction as generalizing s with
  | nil =>
    cases h
    rfl
  | cons a as ih =>
    obtain ⟨s₂, h₂, h⟩ := Option.bind_eq_some_iff.mp h
    change (step s a).bind _ = _
    rw [h₂]
    exact ih h

theorem Along.after {s₁ : σ} (h : Along step P s (as ++ as')) (hrun : run step s as = some s₁) :
    Along step P s as ∧ Along step P s₁ as' := by
  induction as generalizing s with
  | nil =>
    cases hrun
    exact ⟨trivial, h⟩
  | cons a as ih =>
    obtain ⟨s₂, h₂, hrun⟩ := Option.bind_eq_some_iff.mp hrun
    have hrest := ih (h s₂ h₂).2 hrun
    refine ⟨?_, hrest.2⟩
    intro s' hs'
    rw [h₂] at hs'
    cases hs'
    exact ⟨(h s₂ h₂).1, hrest.1⟩

/-- What every step keeps, along with the actions taken so far, holds at the end of a run. -/
theorem run_invariant {I : List α → σ → Prop}
    (hstep : ∀ done a s s', I done s → step s a = some s' → I (done ++ [a]) s') {s' : σ}
    (hs : I [] s) (hrun : run step s as = some s') : I as s' := by
  have hrest : ∀ done, I done s → I (done ++ as) s' := by
    clear hs
    induction as generalizing s with
    | nil =>
      cases hrun
      simp
    | cons a as ih =>
      intro done hs
      obtain ⟨s₁, h₁, hrun⟩ := Option.bind_eq_some_iff.mp hrun
      simpa using ih hrun (done ++ [a]) (hstep done a s s₁ hs h₁)
  exact hrest [] hs

theorem Always.mono {R : σ → Prop} (hQR : ∀ s, Q s → R s) (h : Always step Q s as) :
    Always step R s as := by
  induction as generalizing s with
  | nil => exact hQR s h
  | cons a as ih => exact ⟨hQR s h.1, fun s' hs => ih (h.2 s' hs)⟩

/-- The invariant rule: what every call that meets the condition preserves holds
throughout a run all of whose calls meet it. -/
theorem always_of_along (hstep : ∀ s a s', I s → P s a → step s a = some s' → I s') (hs : I s)
    (h : Along step P s as) : Always step I s as := by
  induction as generalizing s with
  | nil => exact hs
  | cons a as ih =>
    refine ⟨hs, ?_⟩
    intro s' hs'
    obtain ⟨hP, hrest⟩ := h s' hs'
    exact ih (hstep s a s' hs hP hs') hrest

theorem always_of_step (hstep : ∀ s a s', I s → step s a = some s' → I s') (as : List α)
    (hs : I s) :
    Always step I s as := by
  induction as generalizing s with
  | nil => exact hs
  | cons a as ih => exact ⟨hs, fun s' hs' => ih (hstep s a s' hs hs')⟩

/-- What an invariant and a condition say of every call is so along every run all of
whose calls meet the condition. -/
theorem along_of_along (hstep : ∀ s a s', I s → P s a → step s a = some s' → I s' ∧ R s a)
    (hs : I s) (h : Along step P s as) : Along step R s as := by
  induction as generalizing s with
  | nil => trivial
  | cons a as ih =>
    intro s' hs'
    obtain ⟨hP, hrest⟩ := h s' hs'
    obtain ⟨hinv, hR⟩ := hstep s a s' hs hP hs'
    exact ⟨hR, ih hinv hrest⟩

theorem along_true (s : σ) (as : List α) : Along step (fun _ _ => True) s as := by
  induction as generalizing s with
  | nil => trivial
  | cons a as ih => exact fun s' _ => ⟨trivial, ih s'⟩

theorem along_of_step (hstep : ∀ s a s', I s → step s a = some s' → I s' ∧ P s a) (as : List α)
    (hs : I s) : Along step P s as :=
  along_of_along (fun s a s' hinv _ h => hstep s a s' hinv h) hs (along_true s as)

/-- If a call keeps the property exactly when it meets the condition, then a run
has the property throughout exactly when all its calls meet the condition. -/
theorem always_iff_along (hstep : ∀ s a s', Q s → step s a = some s' → (Q s' ↔ P s a)) (hs : Q s) :
    Always step Q s as ↔ Along step P s as := by
  induction as generalizing s with
  | nil => exact ⟨fun _ => trivial, fun _ => hs⟩
  | cons a as ih =>
    constructor
    · rintro ⟨-, h⟩ s' hs'
      have hQ := (h s' hs').head
      exact ⟨(hstep s a s' hs hs').mp hQ, (ih hQ).mp (h s' hs')⟩
    · intro h
      refine ⟨hs, ?_⟩
      intro s' hs'
      obtain ⟨hP, hrest⟩ := h s' hs'
      exact (ih ((hstep s a s' hs hs').mpr hP)).mpr hrest

/-- The same rule with the condition on another machine, whose runs the first one follows. -/
theorem always_iff_along_of_tracks {τ : Type*} {step' : τ → α → Option τ} {T : σ → τ → Prop}
    {P' : τ → α → Prop} {t : τ}
    (htracks : ∀ s t a t', T s t → step' t a = some t' → ∃ s', step s a = some s' ∧ T s' t')
    (hstep : ∀ s t a s', T s t → Q s → step s a = some s' → (Q s' ↔ P' t a))
    (ht : T s t) (hs : Q s) (hrun : (run step' t as).isSome) :
    Always step Q s as ↔ Along step' P' t as := by
  induction as generalizing s t with
  | nil => exact ⟨fun _ => trivial, fun _ => hs⟩
  | cons a as ih =>
    obtain ⟨t₁, hrun⟩ := Option.isSome_iff_exists.mp hrun
    obtain ⟨t', ht', hrun⟩ := Option.bind_eq_some_iff.mp hrun
    replace hrun := Option.isSome_of_eq_some hrun
    obtain ⟨s', hs', htracks'⟩ := htracks s t a t' ht ht'
    have hkeeps := hstep s t a s' ht hs hs'
    have hnext : ∀ {R : σ → Prop}, (∀ s₁, step s a = some s₁ → R s₁) ↔ R s' := by
      simp [hs']
    have hnext' : ∀ {R : τ → Prop}, (∀ t₁, step' t a = some t₁ → R t₁) ↔ R t' := by
      simp [ht']
    rw [Always, Along, hnext, hnext', ← hkeeps]
    constructor
    · rintro ⟨-, h⟩
      exact ⟨h.head, (ih htracks' h.head hrun).mp h⟩
    · rintro ⟨hQ, h⟩
      exact ⟨hs, (ih htracks' hQ hrun).mpr h⟩

theorem along_congr (hinv : ∀ s a s', I s → P s a → step s a = some s' → I s')
    (hPR : ∀ s a s', I s → step s a = some s' → (P s a ↔ R s a)) (hs : I s) :
    Along step P s as ↔ Along step R s as := by
  induction as generalizing s with
  | nil => exact Iff.rfl
  | cons a as ih =>
    refine forall₂_congr fun s' hs' => ?_
    rw [← hPR s a s' hs hs']
    exact and_congr_right fun hP => ih (hinv s a s' hs hP hs')

end Go.Machine
