import KubeEdge.Go.Text

namespace Go

/-- Why a call does not return. -/
inductive Fault
  | nilDereference
  | indexOutOfRange
  | deadlock
  | typeAssertion
  | panicked
  deriving DecidableEq, Repr

abbrev M := Except Fault

/-- A value or a non-nil `error`, by its text. -/
abbrev Result := Except GoString

/-- The value of a call that returned without an error. -/
def returned {α : Type} : M (Result α) → Option α
  | .ok (.ok a) => some a
  | _ => none

variable {α β ε : Type}

theorem returned_eq_some {x : M (Result α)} {a : α} : returned x = some a ↔ x = .ok (.ok a) := by
  rcases x with _ | (_ | _) <;> simp [returned]

def deref {α : Type} : Option α → M α
  | none => .error .nilDereference
  | some a => .ok a

@[simp] theorem deref_some (a : α) : deref (some a) = .ok a := rfl

@[simp] theorem deref_none : deref (none : Option α) = .error .nilDereference := rfl

theorem deref_eq_ok {o : Option α} {a : α} : deref o = .ok a ↔ o = some a := by
  cases o <;> simp

@[simp] theorem isOk_ok (a : α) : (.ok a : Except ε α).isOk = true := rfl

@[simp] theorem isOk_error (e : ε) : (.error e : Except ε α).isOk = false := rfl

@[simp] theorem ok_bind (a : α) (f : α → M β) : ((.ok a : M α) >>= f) = f a := rfl

@[simp] theorem error_bind (e : Fault) (f : α → M β) : ((.error e : M α) >>= f) = .error e := rfl

/-- A sequence that returned: its first part returned and the rest ran on the value. -/
theorem ok_of_bind {x : M α} {f : α → M β} {b : β} (h : (x >>= f) = .ok b) :
    ∃ a, x = .ok a ∧ f a = .ok b := by
  match x, h with
  | .ok a, h => exact ⟨a, rfl, h⟩

variable {a : α}

/-- The elements a loop keeps, its test evaluated in order. -/
def filterM (p : α → M Bool) : List α → M (List α)
  | [] => .ok []
  | a :: l => do
    let keep ← p a
    let rest ← filterM p l
    .ok (if keep then a :: rest else rest)

/-- The results of the loop body, in order. -/
def mapM (f : α → M β) : List α → M (List β)
  | [] => .ok []
  | a :: l => do
    let b ← f a
    let rest ← mapM f l
    .ok (b :: rest)

/-- A search loop that leaves at the first hit. -/
def anyM (p : α → M Bool) : List α → M Bool
  | [] => .ok false
  | a :: l => do
    let hit ← p a
    if hit then .ok true else anyM p l

/-- A loop that carries a state. -/
def loopM {σ : Type} (body : σ → α → M σ) : List α → σ → M σ
  | [], s => .ok s
  | a :: l, s => do
    let s ← body s a
    loopM body l s

theorem toOption_eq_some {x : M α} : x.toOption = some a ↔ x = .ok a := by
  cases x <;> simp [Except.toOption]

variable {σ : Type} {p : α → M Bool} {f : α → M β} {r : List β} {l : List α} {body : σ → α → M σ}
  {q : α → Bool}

theorem loopM_append {l' : List α} {s s₁ : σ} (h : loopM body l s = .ok s₁) :
    loopM body (l ++ l') s = loopM body l' s₁ := by
  induction l generalizing s with
  | nil =>
    cases h
    rfl
  | cons a l ih =>
    obtain ⟨s₂, h₂, h⟩ := ok_of_bind h
    change (body s a >>= fun s => loopM body (l ++ l') s) = _
    rw [h₂, ok_bind, ih h]

/-- The invariant rule of a loop: `I done s` speaks of the elements done so far. -/
theorem loopM_invariant {I : List α → σ → Prop}
    (hbody : ∀ done a s s', I done s → body s a = .ok s' → I (done ++ [a]) s') {s s' : σ}
    (hs : I [] s) (h : loopM body l s = .ok s') : I l s' := by
  suffices hgen : ∀ (l done : List α) (s : σ), I done s → loopM body l s = .ok s' →
      I (done ++ l) s' from hgen l [] s hs h
  intro l
  induction l with
  | nil =>
    intro done s hs h
    cases h
    simpa using hs
  | cons a l ih =>
    intro done s hs h
    obtain ⟨s₁, h₁, h⟩ := ok_of_bind h
    simpa using ih (done ++ [a]) s₁ (hbody done a s s₁ hs h₁) h

theorem loopM_returns (h : ∀ a ∈ l, ∀ s, ∃ s', body s a = .ok s') (s : σ) :
    ∃ s', loopM body l s = .ok s' := by
  induction l generalizing s with
  | nil => exact ⟨s, rfl⟩
  | cons a l ih =>
    obtain ⟨s₁, h₁⟩ := h a (by simp) s
    obtain ⟨s', h'⟩ := ih (fun b hb => h b (.tail _ hb)) s₁
    exact ⟨s', by rw [loopM, h₁, ok_bind, h']⟩

theorem filterM_eq_filter (h : ∀ a ∈ l, p a = .ok (q a)) : filterM p l = .ok (l.filter q) := by
  induction l with
  | nil => rfl
  | cons a l ih =>
    rw [filterM, h a (by simp), ok_bind, ih fun b hb => h b (.tail _ hb), ok_bind,
      List.filter_cons]

theorem mapM_eq_map {g : α → β} (h : ∀ a ∈ l, f a = .ok (g a)) : mapM f l = .ok (l.map g) := by
  induction l with
  | nil => rfl
  | cons a l ih =>
    rw [mapM, h a (by simp), ok_bind, ih fun b hb => h b (.tail _ hb), ok_bind,
      List.map_cons]

theorem anyM_eq_any (h : ∀ a ∈ l, p a = .ok (q a)) : anyM p l = .ok (l.any q) := by
  induction l with
  | nil => rfl
  | cons a l ih =>
    rw [anyM, h a (by simp), ok_bind, ih fun b hb => h b (.tail _ hb), List.any_cons]
    cases q a <;> rfl

/-- If the first function is defined only where the second is, equal results mean equal values
everywhere. -/
theorem filterMap_inj {f g : α → Option β} (hsome : ∀ a ∈ l, (f a).isSome → (g a).isSome)
    (h : l.filterMap f = l.filterMap g) :
    ∀ a ∈ l, f a = g a := by
  induction l with
  | nil => simp
  | cons a l ih =>
    rw [List.forall_mem_cons] at hsome ⊢
    obtain ⟨ha, hrest⟩ := hsome
    cases hf : f a with
    | some b =>
      obtain ⟨b', hg⟩ := Option.isSome_iff_exists.mp (ha (by simp [hf]))
      rw [List.filterMap_cons_some hf, List.filterMap_cons_some hg, List.cons.injEq] at h
      exact ⟨by rw [hg, h.1], ih hrest h.2⟩
    | none =>
      cases hg : g a with
      | none =>
        rw [List.filterMap_cons_none hf, List.filterMap_cons_none hg] at h
        exact ⟨rfl, ih hrest h⟩
      | some b =>
        have hlength := congrArg List.length h
        have hle : (l.filterMap f).length ≤ (l.filterMap g).length := by
          rw [List.length_filterMap_eq_countP, List.length_filterMap_eq_countP]
          exact List.countP_mono_left fun x hx hs => hrest x hx hs
        rw [List.filterMap_cons_none hf, List.filterMap_cons_some hg, List.length_cons] at hlength
        omega

theorem exists_of_forall₂ {R : α → β → Prop} {l' : List β} (h : List.Forall₂ R l l') (ha : a ∈ l) :
    ∃ b ∈ l', R a b := by
  induction h with
  | nil => cases ha
  | cons hab _ ih =>
    rcases List.mem_cons.mp ha with rfl | ha
    · exact ⟨_, .head _, hab⟩
    · obtain ⟨b, hb, hR⟩ := ih ha
      exact ⟨b, .tail _ hb, hR⟩

theorem mem_filterM {r : List α} (h : filterM p l = .ok r) : a ∈ r ↔ a ∈ l ∧ p a = .ok true := by
  induction l generalizing r with
  | nil =>
    cases h
    simp
  | cons c l ih =>
    obtain ⟨keep, hk, h⟩ := ok_of_bind h
    obtain ⟨rest, hr, h⟩ := ok_of_bind h
    cases h
    have ih := ih hr
    cases keep with
    | true =>
      simp only [if_true, List.mem_cons, ih]
      constructor
      · rintro (rfl | ⟨ha, hp⟩)
        · exact ⟨.inl rfl, hk⟩
        · exact ⟨.inr ha, hp⟩
      · rintro ⟨rfl | ha, hp⟩
        · exact .inl rfl
        · exact .inr ⟨ha, hp⟩
    | false =>
      simp only [Bool.false_eq_true, if_false, ih, List.mem_cons]
      constructor
      · rintro ⟨ha, hp⟩
        exact ⟨.inr ha, hp⟩
      · rintro ⟨rfl | ha, hp⟩
        · rw [hk] at hp
          cases hp
        · exact ⟨ha, hp⟩

theorem filterM_ok {r : List α} (h : filterM p l = .ok r) : ∀ a ∈ l, ∃ b, p a = .ok b := by
  induction l generalizing r with
  | nil => simp
  | cons a l ih =>
    obtain ⟨b, hb, h⟩ := ok_of_bind h
    obtain ⟨r', hr', -⟩ := ok_of_bind h
    exact List.forall_mem_cons.mpr ⟨⟨b, hb⟩, ih hr'⟩

theorem filterM_of_ok (h : ∀ a ∈ l, ∃ b, p a = .ok b) : ∃ r, filterM p l = .ok r := by
  induction l with
  | nil => exact ⟨[], rfl⟩
  | cons a l ih =>
    obtain ⟨b, hb⟩ := h a (by simp)
    obtain ⟨r, hr⟩ := ih fun c hc => h c (.tail _ hc)
    exact ⟨_, by rw [filterM, hb, ok_bind, hr, ok_bind]⟩

theorem anyM_ok {b : Bool} (h : anyM p l = .ok b) :
    if b then ∃ a ∈ l, p a = .ok true else ∀ a ∈ l, p a = .ok false := by
  induction l with
  | nil =>
    cases h
    simp
  | cons a l ih =>
    obtain ⟨hit, ha, h⟩ := ok_of_bind h
    cases hit with
    | true =>
      cases h
      exact ⟨a, by simp, ha⟩
    | false =>
      have ih := ih h
      cases b with
      | true =>
        obtain ⟨c, hc, hp⟩ := ih
        exact ⟨c, .tail _ hc, hp⟩
      | false => simpa [ha] using ih

theorem mapM_congr {g : α → M β} (h : ∀ a ∈ l, f a = g a) : mapM f l = mapM g l := by
  induction l with
  | nil => rfl
  | cons a l ih =>
    rw [mapM, mapM, h a (by simp), ih fun b hb => h b (.tail _ hb)]

theorem mapM_ok (h : mapM f l = .ok r) : List.Forall₂ (fun a b => f a = .ok b) l r := by
  induction l generalizing r with
  | nil =>
    cases h
    exact List.Forall₂.nil
  | cons a l ih =>
    obtain ⟨b, hb, h⟩ := ok_of_bind h
    obtain ⟨r', hr', h⟩ := ok_of_bind h
    cases h
    exact List.Forall₂.cons hb (ih hr')

theorem mem_mapM (h : mapM f l = .ok r) {b : β} : b ∈ r ↔ ∃ a ∈ l, f a = .ok b := by
  have hr := mapM_ok h
  clear h
  induction hr with
  | nil => simp
  | cons hab _ ih =>
    simp only [List.mem_cons, ih, exists_eq_or_imp, hab]
    rw [Except.ok.injEq, eq_comm]

theorem forall_mem_snoc {p : α → Prop} {a : α} (h : ∀ x ∈ l, p x) (ha : p a) :
    ∀ x ∈ l ++ [a], p x := List.forall_mem_append.mpr ⟨h, List.forall_mem_singleton.mpr ha⟩

theorem mem_flatten_mapM {γ : Type} {f : α → M (List γ)} {r : List (List γ)} (h : mapM f l = .ok r)
    {x : γ} : x ∈ r.flatten ↔ ∃ a ∈ l, ∃ b, f a = .ok b ∧ x ∈ b := by
  simp only [List.mem_flatten, mem_mapM h]
  tauto

theorem mapM_of_ok (h : ∀ a ∈ l, ∃ b, f a = .ok b) : ∃ r, mapM f l = .ok r := by
  induction l with
  | nil => exact ⟨[], rfl⟩
  | cons a l ih =>
    obtain ⟨b, hb⟩ := h a (by simp)
    obtain ⟨r, hr⟩ := ih fun c hc => h c (.tail _ hc)
    exact ⟨b :: r, by rw [mapM, hb, ok_bind, hr, ok_bind]⟩

theorem exists_mem_mapM (h : mapM f l = .ok r) (ha : a ∈ l) : ∃ b ∈ r, f a = .ok b := by
  have hr := mapM_ok h
  clear h
  induction hr with
  | nil => simp at ha
  | cons hab _ ih =>
    rcases List.mem_cons.mp ha with rfl | ha
    · exact ⟨_, (.head _), hab⟩
    · obtain ⟨b, hb, hf⟩ := ih ha
      exact ⟨b, .tail _ hb, hf⟩

abbrev GoMap (K V : Type) := AList (fun _ : K => V)

namespace GoMap

variable {K V : Type} [DecidableEq K] {m : GoMap K V}

theorem lookup_insert (m : GoMap K V) (a k : K) (v : V) :
    (AList.insert a v m).lookup k = if k = a then some v else m.lookup k := by
  split_ifs with h
  · subst h
    exact AList.lookup_insert m
  · exact AList.lookup_insert_ne h

theorem lookup_erase (m : GoMap K V) (a k : K) :
    (AList.erase a m).lookup k = if k = a then none else m.lookup k := by
  split_ifs with h
  · subst h
    exact AList.lookup_erase k m
  · exact AList.lookup_erase_ne h

section
variable {p : K → V → Prop} (h : ∀ k v, m.lookup k = some v → p k v)
include h

theorem forall_insert {a : K} {v : V} (ha : p a v) :
    ∀ k w, (AList.insert a v m).lookup k = some w → p k w := by
  intro k w hw
  rw [lookup_insert] at hw
  split_ifs at hw with hk
  · cases hw
    exact hk ▸ ha
  · exact h k w hw

theorem forall_erase (a : K) : ∀ k v, (AList.erase a m).lookup k = some v → p k v := by
  intro k v hv
  rw [lookup_erase] at hv
  split_ifs at hv
  exact h k v hv

end

theorem length_insert (m : GoMap K V) (k : K) (v : V) :
    (AList.insert k v m).entries.length =
      if k ∈ m then m.entries.length else m.entries.length + 1 := by
  split_ifs with hk
  · have hkeys : (AList.insert k v m).keys.Perm m.keys := by
      rw [AList.keys_insert]
      exact (List.perm_cons_erase (AList.mem_keys.mpr hk)).symm
    simpa [AList.keys, List.keys] using hkeys.length_eq
  · rw [AList.entries_insert_of_notMem hk, List.length_cons]

theorem length_foldl_insert (f : α → K) (g : α → V) {l : List α} (hnodup : (l.map f).Nodup)
    (hnew : ∀ a ∈ l, f a ∉ m) :
    (l.foldl (fun m a => m.insert (f a) (g a)) m).entries.length = m.entries.length + l.length := by
  induction l generalizing m with
  | nil => rfl
  | cons a l ih =>
    rw [List.map_cons, List.nodup_cons] at hnodup
    rw [List.foldl_cons, ih hnodup.2, AList.entries_insert_of_notMem (hnew a (by simp))]
    · simp only [List.length_cons]
      omega
    · intro b hb hmem
      rcases (AList.mem_insert m).mp hmem with he | hmem
      · exact hnodup.1 (he ▸ List.mem_map_of_mem hb)
      · exact hnew b (.tail _ hb) hmem

/-- Operations on different keys, where `view s k` is what a state has for a key: each key is
changed by its own operation only. -/
theorem view_foldl {σ : Type} (view : σ → K → Option V) {f : σ → K × α → σ}
    {g : Option V → α → Option V}
    (hf : ∀ s k a k', view (f s (k, a)) k' = if k' = k then g (view s k) a else view s k')
    {l : List (K × α)} (hl : (l.map Prod.fst).Nodup) (s : σ) :
    (∀ k a, (k, a) ∈ l → view (l.foldl f s) k = g (view s k) a) ∧
      ∀ k, k ∉ l.map Prod.fst → view (l.foldl f s) k = view s k := by
  induction l generalizing s with
  | nil => exact ⟨fun k a h => absurd h (by simp), fun k _ => rfl⟩
  | cons e l ih =>
    obtain ⟨k₀, a₀⟩ := e
    rw [List.map_cons, List.nodup_cons] at hl
    obtain ⟨hin, hout⟩ := ih hl.2 (f s (k₀, a₀))
    constructor
    · intro k a hmem
      rcases List.mem_cons.mp hmem with he | hrest
      · cases he
        rw [List.foldl_cons, hout _ hl.1, hf, if_pos rfl]
      · have hne : k ≠ k₀ := by
          rintro rfl
          exact hl.1 (List.mem_map.mpr ⟨(k, a), hrest, rfl⟩)
        rw [List.foldl_cons, hin k a hrest, hf, if_neg hne]
    · intro k hk
      rw [List.map_cons, List.mem_cons, not_or] at hk
      rw [List.foldl_cons, hout k hk.2, hf, if_neg hk.1]

theorem lookup_foldl {f : GoMap K V → K × α → GoMap K V} {g : Option V → α → Option V}
    (hf : ∀ m k a k', (f m (k, a)).lookup k' = if k' = k then g (m.lookup k) a else m.lookup k')
    {l : List (K × α)} (hl : (l.map Prod.fst).Nodup) (m : GoMap K V) :
    (∀ k a, (k, a) ∈ l → (l.foldl f m).lookup k = g (m.lookup k) a) ∧
      ∀ k, k ∉ l.map Prod.fst → (l.foldl f m).lookup k = m.lookup k :=
  view_foldl (fun m k => m.lookup k) hf hl m

/-- The same keys, with other values. -/
def mapValues {W : Type} (f : V → W) (m : GoMap K V) : GoMap K W where
  entries := m.entries.map fun e => ⟨e.1, f e.2⟩
  nodupKeys := by
    have h := m.nodupKeys
    rw [List.NodupKeys, List.keys] at h ⊢
    simpa [Function.comp_def] using h

theorem lookup_mapValues {W : Type} (f : V → W) (m : GoMap K V) (k : K) :
    (mapValues f m).lookup k = (m.lookup k).map f := by
  have hentries : ∀ l : List (Sigma fun _ : K => V),
      List.dlookup k (l.map fun e => (⟨e.1, f e.2⟩ : Sigma fun _ : K => W)) =
        Option.map f (List.dlookup k l) := by
    intro l
    induction l with
    | nil => rfl
    | cons e l ih =>
      obtain ⟨a, v⟩ := e
      by_cases ha : k = a
      · subst ha
        simp
      · rw [List.map_cons, List.dlookup_cons_ne _ _ ha, List.dlookup_cons_ne _ _ ha, ih]
  exact hentries m.entries

theorem foldl_dlookup {X : Type} {f : X → V → X} {k : K} {l : List (Sigma fun _ : K => V)}
    (hnodup : l.NodupKeys) (hf : ∀ e ∈ l, e.1 ≠ k → ∀ x, f x e.2 = x) (x : X) :
    (l.map (·.2)).foldl f x = ((l.dlookup k).map (f x)).getD x := by
  induction l generalizing x with
  | nil => rfl
  | cons e l ih =>
    obtain ⟨a, v⟩ := e
    obtain ⟨hfresh, hnodup⟩ := List.nodupKeys_cons.mp hnodup
    have ih := ih hnodup fun e he => hf e (.tail _ he)
    rw [List.map_cons, List.foldl_cons, ih]
    by_cases ha : a = k
    · subst ha
      rw [List.dlookup_eq_none.mpr hfresh, List.dlookup_cons_eq]
      rfl
    · rw [hf _ (.head _) ha, List.dlookup_cons_ne _ _ (Ne.symm ha)]

theorem foldl_values {X : Type} {f : X → V → X} {k : K} (m : GoMap K V)
    (hf : ∀ a v, m.lookup a = some v → a ≠ k → ∀ x, f x v = x) (x : X) :
    (m.entries.map (·.2)).foldl f x = ((m.lookup k).map (f x)).getD x := by
  apply foldl_dlookup m.nodupKeys
  intro e he
  exact hf e.1 e.2 (AList.mem_lookup_iff.mpr he)

theorem mem_iff_lookup {k : K} : k ∈ m ↔ ∃ v, m.lookup k = some v := by
  rw [← AList.lookup_isSome, Option.isSome_iff_exists]

end GoMap

/-- A `map[K]bool` whose values are all `true`. -/
abbrev GoSet (K : Type) := GoMap K Unit

namespace GoSet

variable {K : Type}

def single (k : K) : GoSet K := AList.singleton k ()

@[simp] theorem mem_single {a k : K} : k ∈ single a ↔ k = a := by
  rw [AList.mem_keys]
  simp [single]

/-- `len(s) == 0`. -/
def isEmpty (s : GoSet K) : Bool := s.entries.isEmpty

variable {s : GoSet K}

theorem isEmpty_iff : isEmpty s ↔ ∀ k, k ∉ s := by
  rw [isEmpty, List.isEmpty_iff]
  constructor
  · intro h k hk
    rw [AList.mem_keys, AList.keys, h] at hk
    simp at hk
  · intro h
    cases he : s.entries with
    | nil => rfl
    | cons e l =>
      have hk : e.1 ∈ s.keys := by simp [AList.keys, he]
      exact absurd hk (h e.1)

theorem not_isEmpty_iff : ¬ isEmpty s ↔ ∃ k, k ∈ s := by
  rw [isEmpty_iff, not_forall_not]

variable [DecidableEq K]

def add (k : K) (s : GoSet K) : GoSet K := AList.insert k () s

@[simp] theorem mem_add {a k : K} : k ∈ add a s ↔ k = a ∨ k ∈ s := AList.mem_insert s

theorem mem_erase {a k : K} : k ∈ AList.erase a s ↔ k ≠ a ∧ k ∈ s := AList.mem_erase

def ofList (l : List K) : GoSet K := l.foldl (fun s k => add k s) ∅

theorem mem_foldl_add {l : List K} {k : K} :
    k ∈ l.foldl (fun s a => add a s) s ↔ k ∈ l ∨ k ∈ s := by
  induction l generalizing s with
  | nil => simp
  | cons a l ih =>
    rw [List.foldl_cons, ih, mem_add, List.mem_cons]
    tauto

@[simp] theorem mem_ofList {l : List K} {k : K} : k ∈ ofList l ↔ k ∈ l := by
  simp [ofList, mem_foldl_add]

end GoSet

end Go
