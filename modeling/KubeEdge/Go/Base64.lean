import KubeEdge.Go.Text

namespace Go

def base64Char (v : ℕ) : UInt8 :=
  if v < 26 then UInt8.ofNat (65 + v)
  else if v < 52 then UInt8.ofNat (97 + (v - 26))
  else if v < 62 then UInt8.ofNat (48 + (v - 52))
  else if v = 62 then 43
  else 47

/-- The digit of a character of the alphabet. -/
def base64Digit (c : UInt8) : Option ℕ :=
  if 65 ≤ c ∧ c ≤ 90 then some (c.toNat - 65)
  else if 97 ≤ c ∧ c ≤ 122 then some (c.toNat - 97 + 26)
  else if 48 ≤ c ∧ c ≤ 57 then some (c.toNat - 48 + 52)
  else if c = 43 then some 62
  else if c = 47 then some 63
  else none

/-- `=`. -/
def base64Pad : UInt8 := 61

/-- `EncodeToString`. -/
def base64Encode : List UInt8 → GoString
  | [] => []
  | [a] =>
    let v := a.toNat * 65536
    [base64Char (v / 262144 % 64), base64Char (v / 4096 % 64), base64Pad, base64Pad]
  | [a, b] =>
    let v := a.toNat * 65536 + b.toNat * 256
    [base64Char (v / 262144 % 64), base64Char (v / 4096 % 64), base64Char (v / 64 % 64), base64Pad]
  | a :: b :: c :: rest =>
    let v := a.toNat * 65536 + b.toNat * 256 + c.toNat
    base64Char (v / 262144 % 64) :: base64Char (v / 4096 % 64) :: base64Char (v / 64 % 64) ::
      base64Char (v % 64) :: base64Encode rest

/-- The bytes of groups of four characters. -/
def base64Quanta : GoString → Option (List UInt8)
  | [] => some []
  | a :: b :: c :: d :: rest => do
    let va ← base64Digit a
    let vb ← base64Digit b
    let v := va * 262144 + vb * 4096
    if c = base64Pad then
      -- the padding ends the text
      if d = base64Pad ∧ rest = [] then some [UInt8.ofNat (v / 65536)] else none
    else do
      let vc ← base64Digit c
      let v := v + vc * 64
      if d = base64Pad then
        if rest = [] then some [UInt8.ofNat (v / 65536), UInt8.ofNat (v / 256)] else none
      else do
        let vd ← base64Digit d
        let v := v + vd
        let bytes ← base64Quanta rest
        some (UInt8.ofNat (v / 65536) :: UInt8.ofNat (v / 256) :: UInt8.ofNat v :: bytes)
  | _ => none

/-- `DecodeString`. -/
def base64Decode (s : GoString) : Option (List UInt8) :=
  base64Quanta (s.filter fun c => c ≠ 10 ∧ c ≠ 13)

/-- Letters, digits, `+` and `/`, and the padding. -/
def IsBase64 (c : UInt8) : Prop :=
  (base64Digit c).isSome ∨ c = base64Pad

instance (c : UInt8) : Decidable (IsBase64 c) :=
  inferInstanceAs (Decidable (_ ∨ _))

theorem base64Digit_char {v : ℕ} (h : v < 64) : base64Digit (base64Char v) = some v := by
  have hall : ∀ v : Fin 64, base64Digit (base64Char v) = some v.val := by decide
  exact hall ⟨v, h⟩

theorem base64Char_ne_pad {v : ℕ} (h : v < 64) : base64Char v ≠ base64Pad := by
  intro heq
  have hdigit := base64Digit_char h
  have hpad : base64Digit base64Pad = none := by decide
  rw [heq, hpad] at hdigit
  cases hdigit

theorem isBase64_char {v : ℕ} (h : v < 64) : IsBase64 (base64Char v) := by
  left
  rw [base64Digit_char h]
  rfl

theorem isBase64_pad : IsBase64 base64Pad :=
  .inr rfl

theorem isBase64_encode (bytes : List UInt8) : ∀ c ∈ base64Encode bytes, IsBase64 c := by
  have hdigit : ∀ v, IsBase64 (base64Char (v % 64)) := by
    intro v
    apply isBase64_char
    omega
  fun_induction base64Encode bytes with
  | case1 => simp
  | case2 a v => simp [hdigit, isBase64_pad]
  | case3 a b v => simp [hdigit, isBase64_pad]
  | case4 a b c rest v ih => simpa [hdigit] using ih

theorem IsBase64.ne {c : UInt8} (h : IsBase64 c) {d : UInt8} (hd : ¬ IsBase64 d) : c ≠ d := by
  intro heq
  exact hd (heq ▸ h)

theorem base64Quanta_encode (bytes : List UInt8) :
    base64Quanta (base64Encode bytes) = some bytes := by
  have hdigit : ∀ v, base64Digit (base64Char (v % 64)) = some (v % 64) := by
    intro v
    apply base64Digit_char
    omega
  have hpad : ∀ v, base64Char (v % 64) ≠ base64Pad := by
    intro v
    apply base64Char_ne_pad
    omega
  have hbyte : ∀ {a : UInt8} {n : ℕ}, n % 256 = a.toNat → UInt8.ofNat n = a := by
    intro a n h
    apply UInt8.toNat.inj
    exact h
  fun_induction base64Encode bytes with
  | case1 => rfl
  | case2 a v =>
    have ha := a.toNat_lt
    have h₁ : UInt8.ofNat ((v / 262144 % 64 * 262144 + v / 4096 % 64 * 4096) / 65536) = a :=
      hbyte (by omega)
    simp [base64Quanta, hdigit, h₁]
  | case3 a b v =>
    have ha := a.toNat_lt
    have hb := b.toNat_lt
    have h₁ : UInt8.ofNat ((v / 262144 % 64 * 262144 + v / 4096 % 64 * 4096 + v / 64 % 64 * 64)
        / 65536) = a := hbyte (by omega)
    have h₂ : UInt8.ofNat ((v / 262144 % 64 * 262144 + v / 4096 % 64 * 4096 + v / 64 % 64 * 64)
        / 256) = b := hbyte (by omega)
    simp [base64Quanta, hdigit, hpad, h₁, h₂]
  | case4 a b c rest v ih =>
    have ha := a.toNat_lt
    have hb := b.toNat_lt
    have hc := c.toNat_lt
    have hv : v / 262144 % 64 * 262144 + v / 4096 % 64 * 4096 + v / 64 % 64 * 64 + v % 64 = v := by
      omega
    have h₁ : UInt8.ofNat (v / 65536) = a := hbyte (by omega)
    have h₂ : UInt8.ofNat (v / 256) = b := hbyte (by omega)
    have h₃ : UInt8.ofNat v = c := hbyte (by omega)
    -- `simp` alone would move the casts inside the sum
    simp only [base64Quanta, hdigit, hpad, hv, ih, h₁, h₂, h₃, Option.bind_eq_bind,
      Option.bind_some, if_false]

theorem base64Decode_encode (bytes : List UInt8) :
    base64Decode (base64Encode bytes) = some bytes := by
  have hline : ∀ c ∈ base64Encode bytes, decide (c ≠ 10 ∧ c ≠ 13) = true := by
    intro c hc
    have hc := isBase64_encode bytes c hc
    rw [decide_eq_true_eq]
    exact ⟨hc.ne (by decide), hc.ne (by decide)⟩
  unfold base64Decode
  rw [List.filter_eq_self.mpr hline, base64Quanta_encode]

end Go
