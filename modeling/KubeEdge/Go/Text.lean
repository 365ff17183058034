import Mathlib

namespace Go

abbrev GoString := List UInt8

instance : LawfulBEq GoString := inferInstance

/-- An ASCII literal. -/
def str (s : String) : GoString := s.toList.map fun c => c.toNat.toUInt8

/-- `strings.Join` with a one-byte separator. -/
def join (sep : UInt8) (s : List GoString) : GoString := [sep].intercalate s

/-- `strings.Split` with a one-byte separator. -/
def split (sep : UInt8) (s : GoString) : List GoString := s.splitOn sep

def contains (s sub : GoString) : Bool := s.tails.any (sub.isPrefixOf ·)

/-- `strings.Index`, for a text that occurs. -/
def index (s sub : GoString) : ℕ := s.tails.findIdx (sub.isPrefixOf ·)

theorem split_join (sep : UInt8) {s : List GoString} (hs : s ≠ []) (h : ∀ x ∈ s, sep ∉ x) :
    split sep (join sep s) = s :=
  List.splitOn_intercalate sep h hs

theorem join_split (sep : UInt8) (s : GoString) : join sep (split sep s) = s :=
  List.intercalate_splitOn sep

theorem split_append_sep {sep : UInt8} {a : GoString} (ha : sep ∉ a) (b : GoString) :
    split sep (a ++ sep :: b) = a :: split sep b := by
  refine List.splitOnP_append_cons_of_forall_mem ?_ sep (by simp) b
  intro x hx
  simpa using fun he : x = sep => ha (he ▸ hx)

theorem append_sep_inj {sep : UInt8} {a a' b b' : GoString} (ha : sep ∉ a) (ha' : sep ∉ a')
    (h : a ++ sep :: b = a' ++ sep :: b') : a = a' ∧ b = b' := by
  induction a generalizing a' with
  | nil =>
    cases a' with
    | nil => exact ⟨rfl, (List.cons.inj h).2⟩
    | cons x a' => exact absurd (List.mem_cons.mpr (.inl (List.cons.inj h).1)) ha'
  | cons x a ih =>
    cases a' with
    | nil => exact absurd (List.mem_cons.mpr (.inl (List.cons.inj h).1.symm)) ha
    | cons y a' =>
      obtain ⟨rfl, htail⟩ := List.cons.inj h
      obtain ⟨rfl, rfl⟩ := ih (fun hm => ha (.tail _ hm))
        (fun hm => ha' (.tail _ hm)) htail
      exact ⟨rfl, rfl⟩

@[simp] theorem join_singleton (sep : UInt8) (a : GoString) : join sep [a] = a := by
  simp [join]

@[simp] theorem join_cons_cons (sep : UInt8) (a b : GoString) (s : List GoString) :
    join sep (a :: b :: s) = a ++ sep :: join sep (b :: s) := by
  simp [join, List.intercalate_cons_cons]

theorem contains_iff {s sub : GoString} : contains s sub = true ↔ sub <:+: s := by
  unfold contains
  rw [List.any_eq_true, List.infix_iff_prefix_suffix]
  simp [List.mem_tails, List.isPrefixOf_iff_prefix, and_comm]

theorem infix_append_cons {c : UInt8} {a b w : GoString} :
    w <:+: a ++ c :: b ↔
      w <:+: a ∨ w <:+: b ∨ ∃ u v, w = u ++ c :: v ∧ u <:+ a ∧ v <+: b := by
  constructor
  · rintro ⟨s, t, h⟩
    rw [List.append_assoc] at h
    rcases List.append_eq_append_iff.mp h with ⟨x, ha, hw⟩ | ⟨x, hs, hb⟩
    · rcases List.append_eq_append_iff.mp hw with ⟨y, hx, ht⟩ | ⟨y, hx, ht⟩
      · left
        exact ⟨s, y, by rw [ha, hx, List.append_assoc]⟩
      · cases y with
        | nil =>
          left
          exact ⟨s, [], by rw [ha, hx]; simp⟩
        | cons d v =>
          obtain ⟨rfl, hb⟩ := List.cons.inj ht
          right; right
          exact ⟨x, v, hx, ⟨s, ha.symm⟩, ⟨t, hb.symm⟩⟩
    · cases x with
      | nil =>
        cases w with
        | nil => exact .inl List.nil_infix
        | cons d v =>
          obtain ⟨rfl, htail⟩ := List.cons.inj hb
          right; right
          exact ⟨[], v, rfl, List.nil_suffix, ⟨t, htail.symm⟩⟩
      | cons d x =>
        obtain ⟨rfl, htail⟩ := List.cons.inj hb
        right; left
        exact ⟨x, t, by rw [htail, List.append_assoc]; rfl⟩
  · rintro (h | h | ⟨u, v, rfl, ⟨s, rfl⟩, ⟨t, rfl⟩⟩)
    · exact h.trans (List.prefix_append _ _).isInfix
    · exact h.trans ((List.suffix_cons _ _).trans (List.suffix_append _ _)).isInfix
    · exact ⟨s, t, by simp⟩

theorem infix_append_sep {sep : UInt8} {a b w : GoString} (hw : sep ∉ w) :
    w <:+: a ++ sep :: b ↔ w <:+: a ∨ w <:+: b := by
  rw [infix_append_cons]
  have hno : ¬ ∃ u v, w = u ++ sep :: v ∧ u <:+ a ∧ v <+: b := by
    rintro ⟨u, v, rfl, -, -⟩
    exact hw (by simp)
  simp [hno, or_false]

theorem infix_append_sep_of_sep {sep : UInt8} {a b u v : GoString} (hu : sep ∉ u) (hv : sep ∉ v) :
    u ++ sep :: v <:+: a ++ sep :: b ↔
      u ++ sep :: v <:+: a ∨ u ++ sep :: v <:+: b ∨ (u <:+ a ∧ v <+: b) := by
  rw [infix_append_cons]
  have hacross : (∃ u' v', u ++ sep :: v = u' ++ sep :: v' ∧ u' <:+ a ∧ v' <+: b) ↔
      u <:+ a ∧ v <+: b := by
    constructor
    · rintro ⟨u', v', h, ha, hb⟩
      have hu' : sep ∉ u' := by
        intro hmem
        obtain ⟨x, y, rfl⟩ := List.append_of_mem hmem
        have hcount := congrArg (List.count sep) h
        simp [List.count_eq_zero.mpr hu, List.count_eq_zero.mpr hv] at hcount
        omega
      obtain ⟨rfl, rfl⟩ := append_sep_inj hu hu' h
      exact ⟨ha, hb⟩
    · rintro ⟨ha, hb⟩
      exact ⟨u, v, rfl, ha, hb⟩
  rw [hacross]

theorem prefix_append_sep {sep : UInt8} {a b v : GoString} (hv : sep ∉ v) :
    v <+: a ++ sep :: b ↔ v <+: a := by
  constructor
  · rintro ⟨t, h⟩
    rcases List.append_eq_append_iff.mp h with ⟨x, ha, -⟩ | ⟨x, ha, hb⟩
    · exact ⟨x, ha.symm⟩
    · cases x with
      | nil => exact ⟨[], by simpa using ha⟩
      | cons d x =>
        obtain ⟨rfl, -⟩ := List.cons.inj hb
        exact absurd (ha ▸ by simp) hv
  · intro h
    exact h.trans (List.prefix_append _ _)

/-- The part `b` after `a` begins with what `c` has beyond `a`, and goes on with `d`. -/
def RunsOver {α : Type*} (a b c d : List α) : Prop := ∃ u, u ≠ [] ∧ c = a ++ u ∧ b = u ++ d

theorem RunsOver.ne {α : Type*} {a b c d : List α} (h : RunsOver a b c d) : a ≠ c := by
  obtain ⟨u, hu, hc, -⟩ := h
  intro he
  exact hu (List.self_eq_append_right.mp (he.trans hc))

theorem append_eq_append_cut {α : Type*} {a b c d : List α} :
    a ++ b = c ++ d ↔ a = c ∧ b = d ∨ RunsOver a b c d ∨ RunsOver c d a b := by
  constructor
  · intro h
    rcases List.append_eq_append_iff.mp h with ⟨u, hc, hb⟩ | ⟨u, ha, hd⟩
    · rcases eq_or_ne u [] with rfl | hu
      · exact .inl ⟨by simpa using hc.symm, hb⟩
      · exact .inr (.inl ⟨u, hu, hc, hb⟩)
    · rcases eq_or_ne u [] with rfl | hu
      · exact .inl ⟨by simpa using ha, hd.symm⟩
      · exact .inr (.inr ⟨u, hu, ha, hd⟩)
  · rintro (⟨rfl, rfl⟩ | ⟨u, -, rfl, rfl⟩ | ⟨u, -, rfl, rfl⟩)
    · rfl
    · simp
    · simp

/-- One digit of `%x`: lower case. -/
def hexDigit (n : ℕ) : UInt8 := if n < 10 then (48 + n).toUInt8 else (87 + n).toUInt8

/-- `fmt.Sprintf("%x", b)`. -/
def hex (b : List UInt8) : GoString :=
  b.flatMap fun x => [hexDigit (x.toNat / 16), hexDigit (x.toNat % 16)]

/-- The bytes `0`..`9` and `a`..`f`. -/
def IsHexDigit (c : UInt8) : Prop := (48 ≤ c.toNat ∧ c.toNat ≤ 57) ∨ (97 ≤ c.toNat ∧ c.toNat ≤ 102)

theorem hexDigit_isHexDigit {n : ℕ} (hn : n < 16) : IsHexDigit (hexDigit n) := by
  unfold hexDigit IsHexDigit
  split_ifs with h
  · left
    simp only [Nat.toUInt8_eq, UInt8.toNat_ofNat']
    omega
  · right
    simp only [Nat.toUInt8_eq, UInt8.toNat_ofNat']
    omega

@[simp] theorem hex_length (b : List UInt8) : (hex b).length = 2 * b.length := by
  simp [hex, List.length_flatMap, Nat.mul_comm]

theorem hex_isHexDigit {b : List UInt8} {c : UInt8} (h : c ∈ hex b) : IsHexDigit c := by
  obtain ⟨x, -, hx⟩ := List.mem_flatMap.mp h
  have hlt : x.toNat < 256 := x.toNat_lt
  simp only [List.mem_cons, List.not_mem_nil, or_false] at hx
  rcases hx with rfl | rfl
  · exact hexDigit_isHexDigit (by omega)
  · exact hexDigit_isHexDigit (by omega)

/-- The decimal digits of a natural number. -/
def decimal (n : ℕ) : GoString := (Nat.toDigits 10 n).map fun c => c.toNat.toUInt8

/-- `strconv.Itoa`, and `%d` of an integer. -/
def itoa (i : ℤ) : GoString := if i < 0 then 45 :: decimal i.natAbs else decimal i.natAbs

theorem decimal_digit {n : ℕ} {c : UInt8} (h : c ∈ decimal n) : 48 ≤ c.toNat ∧ c.toNat ≤ 57 := by
  obtain ⟨d, hd, rfl⟩ := List.mem_map.mp h
  have hdig := Nat.isDigit_of_mem_toDigits (by decide) (by decide) hd
  simp only [Char.isDigit, Bool.and_eq_true, decide_eq_true_eq, ge_iff_le] at hdig
  have h1 : 48 ≤ d.toNat := hdig.1
  have h2 : d.toNat ≤ 57 := hdig.2
  simp only [Nat.toUInt8_eq, UInt8.toNat_ofNat']
  omega

theorem itoa_char {i : ℤ} {c : UInt8} (h : c ∈ itoa i) :
    c = 45 ∨ (48 ≤ c.toNat ∧ c.toNat ≤ 57) := by
  unfold itoa at h
  split_ifs at h with hi
  · rcases List.mem_cons.mp h with rfl | h
    · exact .inl rfl
    · exact .inr (decimal_digit h)
  · exact .inr (decimal_digit h)

theorem decimal_length_le {n k : ℕ} (hk : 0 < k) (h : n < 10 ^ k) : (decimal n).length ≤ k := by
  simpa [decimal] using (Nat.length_toDigits_le_iff (by decide) hk).mpr h

theorem itoa_int32_length (p : Int32) : (itoa p.toInt).length ≤ 11 := by
  have hlo := p.le_toInt
  have hhi := p.toInt_lt
  have hd : (decimal p.toInt.natAbs).length ≤ 10 := decimal_length_le (by decide) (by omega)
  unfold itoa
  split_ifs
  · rw [List.length_cons]
    omega
  · omega

theorem decimal_toDigits (n : ℕ) :
    (decimal n).map (fun b => Char.ofNat b.toNat) = Nat.toDigits 10 n := by
  unfold decimal
  rw [List.map_map]
  conv_rhs => rw [← List.map_id (Nat.toDigits 10 n)]
  apply List.map_congr_left
  intro c hc
  have hdig := Nat.isDigit_of_mem_toDigits (by decide) (by decide) hc
  simp only [Char.isDigit, Bool.and_eq_true, decide_eq_true_eq, ge_iff_le] at hdig
  have hle : c.toNat ≤ 57 := hdig.2
  have hb : c.toNat.toUInt8.toNat = c.toNat := by
    simp only [Nat.toUInt8_eq, UInt8.toNat_ofNat']
    omega
  simp [Function.comp_apply, hb, Char.ofNat_toNat, id]

theorem decimal_injective : Function.Injective decimal := by
  intro m n h
  have hd : Nat.toDigits 10 m = Nat.toDigits 10 n := by
    rw [← decimal_toDigits m, ← decimal_toDigits n, h]
  simpa using congrArg (fun l => Nat.ofDigitChars 10 l 0) hd

theorem itoa_injective : Function.Injective itoa := by
  intro i j h
  -- a numeral that starts with a digit never starts with the sign
  have hsign (n m : ℕ) : decimal n ≠ 45 :: decimal m := by
    intro he
    have := decimal_digit (c := 45) (by rw [he]; simp)
    simp at this
  unfold itoa at h
  split_ifs at h with hi hj hj
  · have := decimal_injective (List.cons.inj h).2
    omega
  · exact absurd h.symm (hsign _ _)
  · exact absurd h (hsign _ _)
  · have := decimal_injective h
    omega

/-- `strconv.ParseUint` in base ten, for 64 bits. -/
def parseUint (s : GoString) : Option ℕ :=
  let n := s.foldl (fun n c => 10 * n + (c.toNat - 48)) 0
  if s ≠ [] ∧ (∀ c ∈ s, 48 ≤ c.toNat ∧ c.toNat ≤ 57) ∧ n < 2 ^ 64 then some n else none

/-- `strconv.ParseInt` in base ten, for 64 bits. -/
def parseInt (s : GoString) : Option ℤ :=
  match s with
  | 43 :: digits => (parseUint digits).bind fun n => if n < 2 ^ 63 then some n else none
  | 45 :: digits => (parseUint digits).bind fun n => if n ≤ 2 ^ 63 then some (-n) else none
  | digits => (parseUint digits).bind fun n => if n < 2 ^ 63 then some n else none

theorem parseUint_decimal (n : ℕ) :
    parseUint (decimal n) = if n < 2 ^ 64 then some n else none := by
  have hchar (b : UInt8) : (Char.ofNat b.toNat).toNat = b.toNat := by
    rw [Char.toNat_ofNat, if_pos (.inl (b.toNat_lt.trans (by decide)))]
  have hfold : (decimal n).foldl (fun n c => 10 * n + (c.toNat - 48)) 0 = n := by
    have hread := Nat.ofDigitChars_ten_toDigits (n := n)
    rw [← decimal_toDigits, Nat.ofDigitChars_eq_foldl, List.foldl_map] at hread
    simp only [hchar] at hread
    exact hread
  have hne : decimal n ≠ [] := by simp [decimal]
  have hdigits : ∀ c ∈ decimal n, 48 ≤ c.toNat ∧ c.toNat ≤ 57 := fun _ => decimal_digit
  rw [parseUint, hfold]
  exact if_congr (by simp only [hne, ne_eq, not_false_eq_true, true_and, and_iff_right hdigits]) rfl
    rfl

theorem parseInt_itoa {i j : ℤ} (h : parseInt (itoa i) = some j) : j = i := by
  unfold itoa at h
  split_ifs at h with hi
  · simp only [parseInt, parseUint_decimal] at h
    grind
  · unfold parseInt at h
    split at h
    · rename_i heq
      have := decimal_digit (n := i.natAbs) (c := 43) (by simp [heq])
      simp at this
    · rename_i heq
      have := decimal_digit (n := i.natAbs) (c := 45) (by simp [heq])
      simp at this
    · rw [parseUint_decimal] at h
      grind

/-- `time.Duration.String` for a whole number of seconds. -/
def durationString (secs : ℕ) : GoString :=
  (if 3600 ≤ secs then decimal (secs / 3600) ++ str "h" else []) ++
    (if 60 ≤ secs then decimal (secs / 60 % 60) ++ str "m" else []) ++ decimal (secs % 60) ++
    str "s"

end Go
