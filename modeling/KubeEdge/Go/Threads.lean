import KubeEdge.Go.Control

namespace Go.Threads

variable {σ W Op L C : Type*}

structure Thread (Op L : Type*) where
  rest : List Op
  vars : L
  deriving DecidableEq

structure System (σ W Op L : Type*) where
  shared : σ
  threads : W → Thread Op L

/-- The effect of an operation: the shared state and the variables after it, and the operations
that it is followed by.  The choice stands for what the program does not decide. -/
abbrev Exec (σ W Op L C : Type*) := W → C → σ → L → Op → Option (σ × L × List Op)

inductive Event (W Op C : Type*)
  | call (w : W) (ops : List Op)
  | next (w : W) (choice : C)

variable [DecidableEq W]

/-- A thread that has nothing left to do takes up a program, or a thread goes on. -/
def step (exec : Exec σ W Op L C) (init : L) (s : System σ W Op L) :
    Event W Op C → Option (System σ W Op L)
  | .call w ops =>
    match (s.threads w).rest with
    | [] => some { s with threads := Function.update s.threads w ⟨ops, init⟩ }
    | _ :: _ => none
  | .next w choice =>
    match (s.threads w).rest with
    | [] => none
    | op :: rest =>
      (exec w choice s.shared (s.threads w).vars op).map fun (shared, vars, ops) =>
        ⟨shared, Function.update s.threads w ⟨ops ++ rest, vars⟩⟩

variable {exec : Exec σ W Op L C} {init : L} {s s' : System σ W Op L} {w : W} {i : ℕ}

theorem step_call {ops : List Op} (h : step exec init s (.call w ops) = some s') :
    (s.threads w).rest = [] ∧
      s' = { s with threads := Function.update s.threads w ⟨ops, init⟩ } := by
  simp only [step] at h
  cases hrest : (s.threads w).rest with
  | nil =>
    rw [hrest] at h
    cases h
    exact ⟨rfl, rfl⟩
  | cons op rest =>
    rw [hrest] at h
    cases h

theorem step_next {choice : C} (h : step exec init s (.next w choice) = some s') :
    ∃ op rest shared vars ops, s.threads w = ⟨op :: rest, (s.threads w).vars⟩ ∧
      exec w choice s.shared (s.threads w).vars op = some (shared, vars, ops) ∧
      s' = ⟨shared, Function.update s.threads w ⟨ops ++ rest, vars⟩⟩ := by
  simp only [step] at h
  cases hrest : (s.threads w).rest with
  | nil =>
    rw [hrest] at h
    cases h
  | cons op rest =>
    rw [hrest] at h
    obtain ⟨⟨shared, vars, ops⟩, hexec, rfl⟩ := Option.map_eq_some_iff.mp h
    refine ⟨op, rest, shared, vars, ops, ?_, hexec, rfl⟩
    rw [← hrest]

section List
variable {α : Type*} {l : List α} {t : ℕ} {a b x : α} {P : α → Prop}

theorem getElem?_set_of (h : l[t]? = some a) (b : α) (i : ℕ) :
    (l.set t b)[i]? = if i = t then some b else l[i]? := by
  have hlt : t < l.length := (List.getElem?_eq_some_iff.mp h).1
  by_cases hi : i = t
  · simp [hi, hlt]
  · simp [hi, Ne.symm hi]

theorem get_set (h : l[t]? = some a) (hx : (l.set t b)[i]? = some x) :
    (i = t ∧ b = x) ∨ l[i]? = some x := by
  rw [getElem?_set_of h] at hx
  split_ifs at hx with hi
  · exact .inl ⟨hi, Option.some.inj hx⟩
  · exact .inr hx

theorem get_append (hx : (l ++ [a])[i]? = some x) : l[i]? = some x ∨ (i = l.length ∧ x = a) := by
  by_cases hlt : i < l.length
  · rw [List.getElem?_append_left hlt] at hx
    exact .inl hx
  · rw [List.getElem?_append_right (Nat.not_lt.mp hlt)] at hx
    obtain ⟨hone, rfl⟩ := List.getElem?_eq_some_iff.mp hx
    rw [List.length_singleton] at hone
    exact .inr ⟨by omega, by rw [List.getElem_singleton]⟩

theorem getElem?_append_of (hx : l[i]? = some x) (a : α) : (l ++ [a])[i]? = some x := by
  rw [List.getElem?_append_left (List.getElem?_eq_some_iff.mp hx).1, hx]

theorem exists_set (h : l[t]? = some a) (i : ℕ) :
    (∃ x, (l.set t b)[i]? = some x ∧ P x) ↔
      if i = t then P b else ∃ x, l[i]? = some x ∧ P x := by
  rw [getElem?_set_of h]
  split_ifs <;> simp

theorem exists_set_iff (h : l[t]? = some a) (hP : P b ↔ P a) (i : ℕ) :
    (∃ x, (l.set t b)[i]? = some x ∧ P x) ↔ ∃ x, l[i]? = some x ∧ P x := by
  rw [exists_set h]
  split_ifs with hi
  · rw [hP, hi, h]
    simp
  · rfl

theorem countP_set_of (h : l[t]? = some a) (b : α) (p : α → Bool) :
    (l.set t b).countP p + (p a).toNat = l.countP p + (p b).toNat := by
  obtain ⟨hlt, rfl⟩ := List.getElem?_eq_some_iff.mp h
  have hbool : ∀ b : Bool, (if b = true then 1 else 0) = b.toNat := by
    intro b
    cases b <;> rfl
  have hle : (p l[t]).toNat ≤ l.countP p := by
    cases hp : p l[t] with
    | false => exact Nat.zero_le _
    | true => exact List.countP_pos_iff.mpr ⟨_, List.getElem_mem hlt, hp⟩
  have hset : (l.set t b).countP p = l.countP p - (p l[t]).toNat + (p b).toNat := by
    rw [← hbool, ← hbool]
    exact List.countP_set hlt
  omega

end List

section Registry
variable {K α : Type} (key : α → Option K) (kept : α → Bool)

def Distinct (l : List α) : Prop :=
  -- no two threads have one key
  ∀ (i j : ℕ) (a b : α) (k : K), l[i]? = some a → l[j]? = some b → key a = some k →
    key b = some k → i = j

variable {key kept} {l : List α} {t : ℕ} {a b : α} {k : K}

theorem Distinct.set (h : Distinct key l) (ha : l[t]? = some a) (hkey : key b = key a) :
    Distinct key (l.set t b) := by
  have hold : ∀ {i : ℕ} {x : α}, (l.set t b)[i]? = some x →
      ∃ y, l[i]? = some y ∧ key x = key y := by
    intro i x hx
    obtain ⟨rfl, rfl⟩ | hx := get_set ha hx
    · exact ⟨a, ha, hkey⟩
    · exact ⟨x, hx, rfl⟩
  intro i j x y k hi hj hx hy
  obtain ⟨x', hi', hx'⟩ := hold hi
  obtain ⟨y', hj', hy'⟩ := hold hj
  exact h i j x' y' k hi' hj' (hx' ▸ hx) (hy' ▸ hy)

theorem Distinct.append (h : Distinct key l)
    (hfresh : ∀ x ∈ l, ∀ k, key a = some k → key x ≠ some k) : Distinct key (l ++ [a]) := by
  intro i j x y k hi hj hx hy
  obtain hi' | ⟨hi', rfl⟩ := get_append hi
  · obtain hj' | ⟨hj', rfl⟩ := get_append hj
    · exact h i j x y k hi' hj' hx hy
    · exact absurd hx (hfresh x (List.mem_of_getElem? hi') k hy)
  · obtain hj' | ⟨hj', rfl⟩ := get_append hj
    · exact absurd hy (hfresh y (List.mem_of_getElem? hj') k hx)
    · exact hi'.trans hj'.symm

theorem Distinct.not_exists (h : Distinct key l) (ha : l[t]? = some a) (hkey : key a = some k)
    (hi : i ≠ t) :
    ¬ ∃ x, l[i]? = some x ∧ kept x = true ∧ key x = some k := by
  rintro ⟨x, hx, -, hxk⟩
  exact hi (h i t x a k hx ha hxk hkey)

variable [DecidableEq K] {m : GoMap K ℕ}

variable (key kept) in
/-- The map has the threads that are kept, each under its key. -/
def Registered (m : GoMap K ℕ) (l : List α) : Prop :=
  ∀ (k : K) (i : ℕ), m.lookup k = some i ↔
    ∃ x, l[i]? = some x ∧ kept x = true ∧ key x = some k

section

variable (h : Registered key kept m l)
include h

theorem Registered.set (ha : l[t]? = some a) (hkey : key b = key a) (hkept : kept b = kept a) :
    Registered key kept m (l.set t b) := by
  intro k i
  refine (h k i).trans (exists_set_iff ha ?_ i).symm
  rw [hkept, hkey]

theorem Registered.append (hkept : kept a = false) : Registered key kept m (l ++ [a]) := by
  intro k i
  refine (h k i).trans ⟨?_, ?_⟩
  · rintro ⟨x, hx, hxk⟩
    exact ⟨x, getElem?_append_of hx a, hxk⟩
  · rintro ⟨x, hx, hxk⟩
    obtain hx | ⟨-, rfl⟩ := get_append hx
    · exact ⟨x, hx, hxk⟩
    · rw [hkept] at hxk
      cases hxk.1

theorem Registered.insert (hdistinct : Distinct key l) (ha : l[t]? = some a) (hkey : key b = key a)
    (hkept : kept b = true) (hk : key a = some k) :
    Registered key kept (m.insert k t) (l.set t b) := by
  intro k' i
  rw [GoMap.lookup_insert, exists_set ha, hkey, hk]
  by_cases hkk : k' = k
  · subst hkk
    rw [if_pos rfl]
    split_ifs with hi
    · simp [hi, hkept]
    · simp [hdistinct.not_exists ha hk hi, Ne.symm hi]
  · rw [if_neg hkk, h]
    split_ifs with hi
    · rw [hi, ha]
      simp [hk, Ne.symm hkk]
    · rfl

theorem Registered.erase (hdistinct : Distinct key l) (ha : l[t]? = some a) (hkept : kept b = false)
    (hk : key a = some k) : Registered key kept (m.erase k) (l.set t b) := by
  intro k' i
  rw [GoMap.lookup_erase, exists_set ha, hkept]
  by_cases hkk : k' = k
  · subst hkk
    rw [if_pos rfl]
    split_ifs with hi
    · simp
    · simp [hdistinct.not_exists ha hk hi]
  · rw [if_neg hkk, h]
    split_ifs with hi
    · rw [hi, ha]
      simp [hk, Ne.symm hkk]
    · rfl

end

end Registry

end Go.Threads
