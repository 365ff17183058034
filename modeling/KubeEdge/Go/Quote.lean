import KubeEdge.Go.Text

namespace Go

/-- What a first byte asks for: the number of bytes that follow it, and the range of the
first of them. -/
def leadByte (a : UInt8) : Option (ℕ × UInt8 × UInt8) :=
  if 0xC2 ≤ a ∧ a ≤ 0xDF then some (1, 0x80, 0xBF)
  else if a = 0xE0 then some (2, 0xA0, 0xBF)
  else if a = 0xED then some (2, 0x80, 0x9F)
  else if 0xE1 ≤ a ∧ a ≤ 0xEF then some (2, 0x80, 0xBF)
  else if a = 0xF0 then some (3, 0x90, 0xBF)
  else if 0xF1 ≤ a ∧ a ≤ 0xF3 then some (3, 0x80, 0xBF)
  else if a = 0xF4 then some (3, 0x80, 0x8F)
  else none

/-- The bytes of the rune at the head of a string (`utf8.DecodeRuneInString`); `none` where
they are not UTF-8. -/
def firstRune : GoString → Option GoString
  | [] => none
  | a :: rest =>
    if a < 0x80 then some [a]
    else do
      let (count, low, high) ← leadByte a
      match rest.take count with
      | [] => none
      | b :: more =>
        if more.length + 1 = count ∧ low ≤ b ∧ b ≤ high ∧ ∀ c ∈ more, 0x80 ≤ c ∧ c ≤ 0xBF then
          some (a :: b :: more)
        else none

theorem firstRune_ascii {c : UInt8} (h : c < 0x80) (rest : GoString) :
    firstRune (c :: rest) = some [c] := by
  simp [firstRune, h]

/-- `utf8.ValidString`. -/
def validUtf8 : GoString → Bool
  | [] => true
  | c :: rest =>
    match firstRune (c :: rest) with
    | none => false
    | some rune => validUtf8 (rest.drop (rune.length - 1))
  termination_by s => s.length
  decreasing_by simp

/-- `utf8.EncodeRune`; surrogates have no encoding of their own. -/
def encodeRune (r : ℕ) : GoString :=
  if r < 0x80 then [r.toUInt8]
  else if r < 0x800 then [(0xC0 + r / 64).toUInt8, (0x80 + r % 64).toUInt8]
  else if (0xD800 ≤ r ∧ r ≤ 0xDFFF) ∨ 0x10FFFF < r then [0xEF, 0xBF, 0xBD]
  else if r < 0x10000 then
    [(0xE0 + r / 4096).toUInt8, (0x80 + r / 64 % 64).toUInt8, (0x80 + r % 64).toUInt8]
  else
    [(0xF0 + r / 262144).toUInt8, (0x80 + r / 4096 % 64).toUInt8, (0x80 + r / 64 % 64).toUInt8,
      (0x80 + r % 64).toUInt8]

/-- `htmlSafeSet`: printable, and none of quote, backslash, ampersand and angle brackets. -/
def htmlSafe (c : UInt8) : Bool :=
  0x20 ≤ c ∧ c < 0x80 ∧ c ≠ 34 ∧ c ≠ 92 ∧ c ≠ 38 ∧ c ≠ 60 ∧ c ≠ 62

def jsonByte (c : UInt8) : GoString :=
  -- an ASCII character of a JSON string
  if htmlSafe c then [c]
  else if c = 34 ∨ c = 92 then [92, c]
  else if c = 10 then str "\\n"
  else if c = 13 then str "\\r"
  else if c = 9 then str "\\t"
  else str "\\u00" ++ hex [c]

def jsonChars : GoString → GoString
  | [] => []
  | c :: rest =>
    if c < 0x80 then jsonByte c ++ jsonChars rest
    else
      match firstRune (c :: rest) with
      | none => str "\\ufffd" ++ jsonChars rest
      | some rune =>
        -- U+2028 and U+2029 end a line in JavaScript
        (if rune = [0xE2, 0x80, 0xA8] then str "\\u2028"
          else if rune = [0xE2, 0x80, 0xA9] then str "\\u2029" else rune) ++
        jsonChars (rest.drop (rune.length - 1))
  termination_by s => s.length
  decreasing_by all_goals simp

/-- `json.Marshal` of a string. -/
def jsonString (s : GoString) : GoString := 34 :: (jsonChars s ++ [34])

def unhex (c : UInt8) : Option ℕ :=
  if 48 ≤ c ∧ c ≤ 57 then some (c.toNat - 48)
  else if 97 ≤ c ∧ c ≤ 102 then some (c.toNat - 97 + 10)
  else if 65 ≤ c ∧ c ≤ 70 then some (c.toNat - 65 + 10)
  else none

def octalDigit (c : UInt8) : Option ℕ :=
  if 48 ≤ c ∧ c ≤ 55 then some (c.toNat - 48) else none

/-- The number that `count` digits of a base write, and what follows them. -/
def readDigits (digit : UInt8 → Option ℕ) (base : ℕ) : ℕ → ℕ → GoString → Option (ℕ × GoString)
  | 0, v, s => some (v, s)
  | _ + 1, _, [] => none
  | count + 1, v, c :: s => do
    let x ← digit c
    readDigits digit base count (v * base + x) s

/-- An escape after its backslash: the bytes it stands for and what follows it. -/
def unquoteEscape (quote : UInt8) : GoString → Option (GoString × GoString)
  | [] => none
  | c :: s =>
    if c = 97 then some ([7], s)
    else if c = 98 then some ([8], s)
    else if c = 102 then some ([12], s)
    else if c = 110 then some ([10], s)
    else if c = 114 then some ([13], s)
    else if c = 116 then some ([9], s)
    else if c = 118 then some ([11], s)
    else if c = 120 then do
      let (v, s) ← readDigits unhex 16 2 0 s
      some ([v.toUInt8], s)
    else if c = 117 then do
      let (v, s) ← readDigits unhex 16 4 0 s
      some (encodeRune v, s)
    else if c = 85 then do
      let (v, s) ← readDigits unhex 16 8 0 s
      -- the value is an `int32`: from 2^31 on it is negative and passes the bound
      if 0x10FFFF < v ∧ v < 0x80000000 then none else some (encodeRune v, s)
    else if 48 ≤ c ∧ c ≤ 55 then do
      let (v, s) ← readDigits octalDigit 8 2 (c.toNat - 48) s
      if 255 < v then none else some ([v.toUInt8], s)
    else if c = 92 then some ([92], s)
    else if c = 39 ∨ c = 34 then if c = quote then some ([c], s) else none
    else none

/-- `strconv.UnquoteChar`, as the bytes that `Unquote` appends. -/
def unquoteChar (quote : UInt8) : GoString → Option (GoString × GoString)
  | [] => none
  | c :: s =>
    if c = quote then none
    else if 0x80 ≤ c then
      match firstRune (c :: s) with
      | none => some ([0xEF, 0xBF, 0xBD], s)
      | some rune => some (rune, s.drop (rune.length - 1))
    else if c ≠ 92 then some ([c], s)
    else unquoteEscape quote s

/-- The loop of `Unquote`.  Every turn consumes a byte, so the length bounds it. -/
def unquoteChars (quote : UInt8) : ℕ → GoString → Option GoString
  | _, [] => some []
  | 0, _ :: _ => none
  | fuel + 1, s => do
    let (bytes, tail) ← unquoteChar quote s
    -- a character literal has one character
    if quote = 39 ∧ tail ≠ [] then none
    else do
      let more ← unquoteChars quote fuel tail
      some (bytes ++ more)

def unquote (s : GoString) : Option GoString :=
  match s with
  | [] | [_] => none
  | quote :: rest =>
    let body := rest.dropLast
    if rest.getLast? ≠ some quote then none
    else if quote = 96 then
      if 96 ∈ body then none else some (body.filter (· ≠ 13))
    else if quote ≠ 34 ∧ quote ≠ 39 then none
    else if 10 ∈ body then none
    else if 92 ∉ body ∧ quote ∉ body ∧
        (if quote = 34 then validUtf8 body else firstRune body = some body) then some body
    else unquoteChars quote body.length body

theorem jsonChars_safe {s : GoString} (h : ∀ c ∈ s, htmlSafe c = true) : jsonChars s = s := by
  induction s with
  | nil => simp [jsonChars]
  | cons c s ih =>
    have hc := h c (.head _)
    have hascii : c < 0x80 := by
      simp only [htmlSafe, decide_eq_true_eq] at hc
      exact hc.2.1
    rw [jsonChars, if_pos hascii, ih fun d hd => h d (.tail _ hd)]
    simp [jsonByte, hc]

theorem validUtf8_ascii {s : GoString} (h : ∀ c ∈ s, c < 0x80) : validUtf8 s = true := by
  induction s with
  | nil => simp [validUtf8]
  | cons c s ih =>
    rw [validUtf8, firstRune_ascii (h c (.head _))]
    exact ih fun d hd => h d (.tail _ hd)

theorem unquote_jsonString {s : GoString} (h : ∀ c ∈ s, htmlSafe c = true) :
    unquote (jsonString s) = some s := by
  have hsafe : ∀ c ∈ s, 0x20 ≤ c ∧ c < 0x80 ∧ c ≠ 34 ∧ c ≠ 92 := by
    intro c hc
    have hc := h c hc
    simp only [htmlSafe, decide_eq_true_eq] at hc
    exact ⟨hc.1, hc.2.1, hc.2.2.1, hc.2.2.2.1⟩
  have hline : (10 : UInt8) ∉ s := fun hc => absurd (hsafe _ hc).1 (by decide)
  have hback : (92 : UInt8) ∉ s := fun hc => (hsafe _ hc).2.2.2 rfl
  have hquote : (34 : UInt8) ∉ s := fun hc => (hsafe _ hc).2.2.1 rfl
  have hvalid : validUtf8 s = true := validUtf8_ascii fun c hc => (hsafe c hc).2.1
  unfold jsonString
  rw [jsonChars_safe h]
  unfold unquote
  split
  · rename_i heq
    cases heq
  · rename_i heq
    simp at heq
  · rename_i quote rest _ heq
    obtain ⟨rfl, rfl⟩ := List.cons.inj heq
    simp [hline, hback, hquote, hvalid]

end Go
