import KubeEdge.Go.Control

namespace Go

inductive ReadError
  | eof
  | unexpectedEOF
  deriving DecidableEq, Repr

structure Stream where
  chunks : List (List UInt8)
  /-- The end is told with the last bytes. -/
  eager : Bool := false
  nonempty : ∀ c ∈ chunks, c ≠ []

namespace Stream

def bytes (s : Stream) : List UInt8 := s.chunks.flatten

/-- `Read` with a buffer of `n` bytes. -/
def read (s : Stream) (n : ℕ) : List UInt8 × Option ReadError × Stream :=
  match h : s.chunks with
  | [] => ([], some .eof, s)
  | c :: cs =>
    if hlt : n < c.length then
      (c.take n, none,
        { s with
          chunks := c.drop n :: cs
          nonempty := by
            intro x hx
            obtain rfl | hx := List.mem_cons.mp hx
            · simpa using hlt
            · exact s.nonempty x (h ▸ .tail _ hx) })
    else
      (c, if s.eager && cs.isEmpty then some .eof else none,
        { s with
          chunks := cs
          nonempty := fun x hx => s.nonempty x (h ▸ .tail _ hx) })

/-- The loop of `io.ReadAtLeast`; `none` where it does not end with this fuel. -/
def readLoop : ℕ → Stream → List UInt8 → ℕ → Option (List UInt8 × Option ReadError × Stream)
  | fuel, s, buf, min =>
    if min ≤ buf.length then some (buf, none, s)
    else
      match fuel with
      | 0 => none
      | fuel + 1 =>
        match s.read (min - buf.length) with
        | (bytes, none, s') => readLoop fuel s' (buf ++ bytes) min
        | (bytes, some err, s') => some (buf ++ bytes, some err, s')

def readFull (s : Stream) (n : ℕ) : Option (Except ReadError (List UInt8) × Stream) :=
  (readLoop n s [] n).map fun (buf, err, s') =>
    match err with
    | some e =>
      if n ≤ buf.length then (.ok buf, s')
      else if buf ≠ [] ∧ e = .eof then (.error .unexpectedEOF, s')
      else (.error e, s')
    | none => (.ok buf, s')

variable {s : Stream} {n : ℕ} {a b : List UInt8}

/-- What a read returns is the beginning of what there is; it is told the end only at the end. -/
theorem read_spec (hn : 0 < n) (hs : s.bytes ≠ []) :
    (s.read n).1 ≠ [] ∧ (s.read n).1.length ≤ n ∧ s.bytes = (s.read n).1 ++ (s.read n).2.2.bytes ∧
      ((s.read n).2.1 ≠ none → (s.read n).2.2.bytes = []) := by
  unfold read
  split
  case h_1 h =>
    rw [bytes, h] at hs
    exact absurd rfl hs
  case h_2 c cs h =>
    have hbytes : s.bytes = c ++ cs.flatten := by rw [bytes, h, List.flatten_cons]
    have hc : c ≠ [] := s.nonempty c (h ▸ (.head _))
    split
    case isTrue hlt =>
      refine ⟨?_, ?_, ?_, ?_⟩
      · simp [hc, Nat.ne_of_gt hn]
      · simp
      · rw [hbytes, bytes, List.flatten_cons, ← List.append_assoc, List.take_append_drop]
      · intro h
        exact absurd rfl h
    case isFalse hlt =>
      refine ⟨hc, Nat.not_lt.mp hlt, hbytes, ?_⟩
      intro heof
      cases cs with
      | nil => rfl
      | cons c' cs => simp at heof

theorem read_end (hs : s.bytes = []) : s.read n = ([], some .eof, s) := by
  unfold read
  split
  case h_1 => rfl
  case h_2 c cs h =>
    have hc : c ≠ [] := s.nonempty c (h ▸ (.head _))
    rw [bytes, h, List.flatten_cons, List.append_eq_nil_iff] at hs
    exact absurd hs.1 hc

theorem read_error : ∀ e ∈ (s.read n).2.1, e = .eof := by
  intro e he
  unfold read at he
  split at he
  case h_1 => exact (Option.some.inj he).symm
  case h_2 =>
    split_ifs at he
    · cases he
    · exact (Option.some.inj he).symm
    · cases he

theorem readLoop_eq {fuel min : ℕ} (buf : List UInt8) (hbytes : s.bytes = a ++ b)
    (hmin : buf.length + a.length = min) (hfuel : a.length ≤ fuel) :
    ∃ err s', readLoop fuel s buf min = some (buf ++ a, err, s') ∧ s'.bytes = b := by
  induction fuel generalizing s buf a with
  | zero =>
    have ha : a = [] := List.length_eq_zero_iff.mp (Nat.le_zero.mp hfuel)
    subst ha
    refine ⟨none, s, ?_, hbytes⟩
    rw [readLoop, if_pos (by simpa using hmin.ge), List.append_nil]
  | succ fuel ih =>
    rw [readLoop]
    by_cases ha : a = []
    · subst ha
      refine ⟨none, s, ?_, hbytes⟩
      rw [if_pos (by simpa using hmin.ge), List.append_nil]
    · have hpos : 0 < a.length := List.length_pos_of_ne_nil ha
      rw [if_neg (by omega)]
      obtain ⟨hne, hle, happ, hend⟩ := read_spec (n := min - buf.length) (by omega)
        (by rw [hbytes]; simp [ha])
      -- what is read is a part of what is missing
      obtain ⟨a', ha', hrest⟩ : ∃ a', a = (s.read (min - buf.length)).1 ++ a' ∧
          (s.read (min - buf.length)).2.2.bytes = a' ++ b := by
        rw [hbytes] at happ
        obtain ⟨a', h₁, h₂⟩ | ⟨b', h₁, h₂⟩ := List.append_eq_append_iff.mp happ
        · have ha' : a' = [] := by
            have hlength := congrArg List.length h₁
            rw [List.length_append] at hlength
            exact List.length_eq_zero_iff.mp (by omega)
          subst ha'
          exact ⟨[], by simpa using h₁.symm, by simpa using h₂.symm⟩
        · exact ⟨b', h₁, h₂⟩
      have hlength := congrArg List.length ha'
      rw [List.length_append] at hlength
      have hread : 0 < (s.read (min - buf.length)).1.length := List.length_pos_of_ne_nil hne
      rcases hs : s.read (min - buf.length) with ⟨bytes, err, s'⟩
      simp only [hs] at ha' hrest hend hlength hread
      cases err with
      | none =>
        obtain ⟨err, s'', hloop, hb⟩ := ih (buf ++ bytes) hrest
          (by rw [List.length_append]; omega) (by omega)
        refine ⟨err, s'', ?_, hb⟩
        rw [ha', ← List.append_assoc]
        exact hloop
      | some e =>
        have hnil := hend (by simp)
        rw [hrest, List.append_eq_nil_iff] at hnil
        refine ⟨some e, s', ?_, by rw [hrest, hnil.1]; rfl⟩
        rw [ha', hnil.1, List.append_nil]

/-- The loop reads all there is, and is told the end, where its buffer has room for more. -/
theorem readLoop_short (fuel : ℕ) {min : ℕ} (buf : List UInt8)
    (hmin : buf.length + s.bytes.length < min) (hfuel : s.bytes.length < fuel) :
    ∃ s', readLoop fuel s buf min = some (buf ++ s.bytes, some .eof, s') := by
  induction fuel generalizing s buf with
  | zero => omega
  | succ fuel ih =>
    rw [readLoop, if_neg (by omega)]
    by_cases hs : s.bytes = []
    · rw [read_end hs, hs]
      exact ⟨s, rfl⟩
    · obtain ⟨hne, -, happ, hend⟩ := read_spec (n := min - buf.length) (by omega) hs
      have hread : 0 < (s.read (min - buf.length)).1.length := List.length_pos_of_ne_nil hne
      have herr := read_error (s := s) (n := min - buf.length)
      rcases hr : s.read (min - buf.length) with ⟨bytes, err, s'⟩
      simp only [hr] at happ hend hread herr
      have hlength := congrArg List.length happ
      rw [List.length_append] at hlength
      rw [happ, ← List.append_assoc]
      cases err with
      | none => exact ih (buf ++ bytes) (by rw [List.length_append]; omega) (by omega)
      | some e =>
        rw [hend (by simp), List.append_nil, herr e rfl]
        exact ⟨s', rfl⟩

theorem readFull_eq (hbytes : s.bytes = a ++ b) :
    ∃ s', s.readFull a.length = some (.ok a, s') ∧ s'.bytes = b := by
  obtain ⟨err, s', hloop, hb⟩ := readLoop_eq [] hbytes (Nat.zero_add _) le_rfl
  refine ⟨s', ?_, hb⟩
  rw [readFull, hloop]
  cases err <;> simp

theorem readFull_short (hs : s.bytes ≠ []) (hn : s.bytes.length < n) :
    ∃ s', s.readFull n = some (.error .unexpectedEOF, s') := by
  obtain ⟨s', hloop⟩ := readLoop_short n [] (by simpa using hn) hn
  refine ⟨s', ?_⟩
  rw [readFull, hloop]
  simp [hs, hn]

theorem readFull_end (hbytes : s.bytes = []) (hn : 0 < n) :
    s.readFull n = some (.error .eof, s) := by
  obtain ⟨n, rfl⟩ := Nat.exists_eq_succ_of_ne_zero (Nat.ne_of_gt hn)
  simp [readFull, readLoop, read_end hbytes]

end Stream

/-- An `io.Writer` with a state. -/
structure Writer (σ : Type) where
  write : σ → List UInt8 → Except GoString σ

def buffer : Writer (List UInt8) := ⟨fun out data => .ok (out ++ data)⟩

/-- The number with these bytes, the first one the highest. -/
def bigEndian (a b c d : UInt8) : UInt32 :=
  a.toUInt32 <<< 24 ||| b.toUInt32 <<< 16 ||| c.toUInt32 <<< 8 ||| d.toUInt32

theorem toNat_shiftLeft_byte (a : UInt8) {w : UInt32} {k : ℕ} (hw : w.toNat = k) (hk : k ≤ 24) :
    (a.toUInt32 <<< w).toNat = a.toNat * 2 ^ k := by
  have hlt : a.toNat * 2 ^ k < 2 ^ 32 := by
    have ha := a.toNat_lt
    calc a.toNat * 2 ^ k < 2 ^ 8 * 2 ^ k := by gcongr
      _ = 2 ^ (8 + k) := by rw [pow_add]
      _ ≤ 2 ^ 32 := Nat.pow_le_pow_right (by decide) (by omega)
  rw [UInt32.toNat_shiftLeft, hw, Nat.mod_eq_of_lt (by omega : k < 32), Nat.shiftLeft_eq,
    UInt8.toNat_toUInt32, Nat.mod_eq_of_lt hlt]

theorem mul_or_of_lt {b k : ℕ} (a : ℕ) (hb : b < 2 ^ k) : a * 2 ^ k ||| b = a * 2 ^ k + b := by
  rw [Nat.mul_comm, Nat.two_pow_add_eq_or_of_lt hb]

theorem toNat_bigEndian (a b c d : UInt8) : (bigEndian a b c d).toNat =
    a.toNat * 2 ^ 24 + b.toNat * 2 ^ 16 + c.toNat * 2 ^ 8 + d.toNat := by
  have hb := b.toNat_lt
  have hc := c.toNat_lt
  have hd := d.toNat_lt
  unfold bigEndian
  rw [UInt32.toNat_or, UInt32.toNat_or, UInt32.toNat_or,
    toNat_shiftLeft_byte a (k := 24) rfl (by decide),
    toNat_shiftLeft_byte b (k := 16) rfl (by decide),
    toNat_shiftLeft_byte c (k := 8) rfl (by decide), UInt8.toNat_toUInt32, Nat.or_assoc,
    Nat.or_assoc, mul_or_of_lt c.toNat hd, mul_or_of_lt b.toNat (by omega),
    mul_or_of_lt a.toNat (by omega)]
  omega

theorem toNat_shiftRight_byte (v : UInt32) {w : UInt32} {k : ℕ} (hw : w.toNat = k) (hk : k < 32) :
    (v >>> w).toUInt8.toNat = v.toNat / 2 ^ k % 2 ^ 8 := by
  rw [UInt32.toNat_toUInt8, UInt32.toNat_shiftRight, hw, Nat.mod_eq_of_lt hk,
    Nat.shiftRight_eq_div_pow]

theorem bigEndian_bytes (v : UInt32) :
    bigEndian (v >>> 24).toUInt8 (v >>> 16).toUInt8 (v >>> 8).toUInt8 v.toUInt8 = v := by
  apply UInt32.toNat_inj.mp
  have hv := v.toNat_lt
  rw [toNat_bigEndian, toNat_shiftRight_byte v (k := 24) rfl (by decide),
    toNat_shiftRight_byte v (k := 16) rfl (by decide),
    toNat_shiftRight_byte v (k := 8) rfl (by decide), UInt32.toNat_toUInt8]
  omega

end Go
