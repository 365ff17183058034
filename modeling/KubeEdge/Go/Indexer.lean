import Mathlib

namespace Go

/-- Objects with pairwise different keys. -/
structure Indexer (α : Type) {κ : Type} (key : α → κ) where
  objects : List α
  unique : (objects.map key).Nodup

namespace Indexer

variable {α κ : Type} {key : α → κ} {s : Indexer α key}

instance : EmptyCollection (Indexer α key) := ⟨⟨[], by simp⟩⟩

@[simp] theorem empty_objects : (∅ : Indexer α key).objects = [] := rfl

theorem key_inj {a b : α} (ha : a ∈ s.objects) (hb : b ∈ s.objects) (h : key a = key b) : a = b :=
  List.inj_on_of_nodup_map s.unique ha hb h

variable [DecidableEq κ]

/-- `GetByKey`. -/
def get (s : Indexer α key) (k : κ) : Option α := s.objects.find? fun o => key o = k

/-- `Update`: replace the object of that key, or append. -/
def put (s : Indexer α key) (o : α) : Indexer α key where
  objects :=
    if key o ∈ s.objects.map key then s.objects.map fun x => if key x = key o then o else x
    else s.objects ++ [o]
  unique := by
    split_ifs with h
    · have hk :
          (s.objects.map fun x => if key x = key o then o else x).map key = s.objects.map key := by
        rw [List.map_map]
        apply List.map_congr_left
        intro x _
        simp only [Function.comp_apply]
        split_ifs with hx
        · exact hx.symm
        · rfl
      rw [hk]
      exact s.unique
    · rw [List.map_append, List.nodup_append]
      refine ⟨s.unique, by simp, ?_⟩
      intro a ha b hb
      simp only [List.map_cons, List.map_nil, List.mem_singleton] at hb
      rintro rfl
      exact h (hb ▸ ha)

/-- `Delete`. -/
def remove (s : Indexer α key) (k : κ) : Indexer α key where
  objects := s.objects.filter fun o => key o ≠ k
  unique := s.unique.sublist (List.filter_sublist.map key)

theorem get_eq_some {k : κ} {o : α} : s.get k = some o ↔ o ∈ s.objects ∧ key o = k := by
  unfold get
  constructor
  · intro h
    exact ⟨List.mem_of_find?_eq_some h, by simpa using List.find?_some h⟩
  · rintro ⟨ho, rfl⟩
    cases hf : s.objects.find? fun x => key x = key o with
    | none => simpa using List.find?_eq_none.mp hf o ho
    | some x =>
      have hx : key x = key o := by simpa using List.find?_some hf
      rw [key_inj (List.mem_of_find?_eq_some hf) ho hx]

theorem get_eq_none {k : κ} : s.get k = none ↔ ∀ o ∈ s.objects, key o ≠ k := by
  simp [get]

theorem mem_put {o x : α} : x ∈ (s.put o).objects ↔ x = o ∨ (x ∈ s.objects ∧ key x ≠ key o) := by
  unfold put
  split_ifs with h
  · rw [List.mem_map]
    constructor
    · rintro ⟨y, hy, rfl⟩
      split_ifs with hk
      · exact .inl rfl
      · exact .inr ⟨hy, hk⟩
    · rintro (rfl | ⟨hx, hk⟩)
      · obtain ⟨y, hy, hyk⟩ := List.mem_map.mp h
        exact ⟨y, hy, if_pos hyk⟩
      · exact ⟨x, hx, if_neg hk⟩
  · rw [List.mem_append, List.mem_singleton]
    constructor
    · rintro (hx | rfl)
      · refine .inr ⟨hx, ?_⟩
        intro hk
        exact h (hk ▸ List.mem_map_of_mem hx)
      · exact .inl rfl
    · rintro (rfl | ⟨hx, -⟩)
      · exact .inr rfl
      · exact .inl hx

theorem mem_remove {k : κ} {x : α} : x ∈ (s.remove k).objects ↔ x ∈ s.objects ∧ key x ≠ k := by
  simp [remove]

theorem get_put (s : Indexer α key) (o : α) (k : κ) :
    (s.put o).get k = if k = key o then some o else s.get k := by
  split_ifs with h
  · rw [get_eq_some, mem_put]
    exact ⟨.inl rfl, h.symm⟩
  · ext x
    simp only [get_eq_some, mem_put]
    constructor
    · rintro ⟨rfl | ⟨hx, -⟩, hk⟩
      · exact absurd hk.symm h
      · exact ⟨hx, hk⟩
    · rintro ⟨hx, rfl⟩
      exact ⟨.inr ⟨hx, h⟩, rfl⟩

theorem get_remove (s : Indexer α key) (k k' : κ) :
    (s.remove k).get k' = if k' = k then none else s.get k' := by
  split_ifs with h
  · rw [get_eq_none]
    intro o ho
    rw [h]
    exact (mem_remove.mp ho).2
  · ext x
    simp only [get_eq_some, mem_remove]
    constructor
    · rintro ⟨⟨hx, -⟩, hk⟩
      exact ⟨hx, hk⟩
    · rintro ⟨hx, rfl⟩
      exact ⟨⟨hx, h⟩, rfl⟩

end Indexer

/-- What an informer delivers. -/
inductive Change (α : Type)
  | add (cur : α)
  | update (old cur : α)
  | delete (old : α)

namespace Change

variable {α κ : Type}

def old : Change α → Option α
  | add _ => none
  | update o _ => some o
  | delete o => some o

def cur : Change α → Option α
  | add o => some o
  | update _ o => some o
  | delete _ => none

/-- The object, in its old version if there is one. -/
def object : Change α → α
  | add o => o
  | update o _ => o
  | delete o => o

/-- An update that leaves the version alone leaves the whole object alone. -/
def Versioned {ν : Type} (version : α → ν) (ch : Change α) : Prop :=
  ∀ old cur, ch = update old cur → version cur = version old → cur = old

end Change

/-- The store before and after a change; the other objects keep their places. -/
structure Indexer.Changes {α κ : Type} {key : α → κ} (s s' : Indexer α key) (ch : Change α)
    (front back : List α) : Prop where
  before : s.objects = front ++ ch.old.toList ++ back
  after : s'.objects = front ++ ch.cur.toList ++ back
  key_eq : ∀ old cur, ch = .update old cur → key cur = key old

namespace Indexer.Changes

variable {α κ : Type} {key : α → κ} {s s' : Indexer α key} {ch : Change α} {front back : List α}

theorem key_old (o : α) (ho : o ∈ ch.old) : key o = key ch.object := by
  cases ch with
  | add cur => cases ho
  | update old cur | delete old =>
    cases ho
    rfl

theorem key_cur (h : Changes s s' ch front back) (o : α) (ho : o ∈ ch.cur) :
    key o = key ch.object := by
  cases ch with
  | add cur =>
    cases ho
    rfl
  | update old cur =>
    cases ho
    exact h.key_eq old _ rfl
  | delete old => cases ho

theorem others_ne (h : Changes s s' ch front back) {o : α} (ho : o ∈ front ++ back) :
    key o ≠ key ch.object := by
  have hmiddle {l : List α} {a : α} (hl : l = front ++ [a] ++ back) (hn : (l.map key).Nodup) :
      key o ≠ key a := by
    rw [hl, List.append_assoc, List.singleton_append, List.map_append, List.map_cons,
      List.nodup_middle, ← List.map_append, List.nodup_cons] at hn
    exact fun he => hn.1 (he ▸ List.mem_map_of_mem ho)
  cases ch with
  | add cur => exact hmiddle h.after s'.unique
  | update old cur | delete old => exact hmiddle h.before s.unique

variable [DecidableEq κ]

section

variable (h : Changes s s' ch front back)
include h

theorem get_old : s.get (key ch.object) = ch.old := by
  cases hold : ch.old with
  | some o =>
    refine get_eq_some.mpr ⟨?_, key_old o hold⟩
    rw [h.before, hold]
    simp
  | none =>
    rw [get_eq_none, h.before, hold]
    intro o ho
    exact h.others_ne (by simpa using ho)

theorem get_cur : s'.get (key ch.object) = ch.cur := by
  cases hcur : ch.cur with
  | some o =>
    refine get_eq_some.mpr ⟨?_, h.key_cur o hcur⟩
    rw [h.after, hcur]
    simp
  | none =>
    rw [get_eq_none, h.after, hcur]
    intro o ho
    exact h.others_ne (by simpa using ho)

theorem get_other {k : κ} (hk : k ≠ key ch.object) : s'.get k = s.get k := by
  ext o
  rw [get_eq_some, get_eq_some, h.before, h.after]
  refine and_congr_left fun ho => ?_
  have hold : o ∉ ch.old.toList := fun hm => hk (ho ▸ key_old o (Option.mem_toList.mp hm))
  have hcur : o ∉ ch.cur.toList := fun hm => hk (ho ▸ h.key_cur o (Option.mem_toList.mp hm))
  simp [List.mem_append, hold, hcur]

end

end Indexer.Changes

end Go
