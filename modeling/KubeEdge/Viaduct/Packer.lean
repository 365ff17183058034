import KubeEdge.Go.Stream
import KubeEdge.Go.Text

namespace KubeEdge.Viaduct
open Go

/-- `Message`, the type of every package that is written here. -/
def messageType : UInt8 := 0x01

def versionSize : ℕ := 4

def packageTypeSize : ℕ := 1

def packageFlagsSize : ℕ := 1

def payloadLenSize : ℕ := 4

def headerSize : ℕ := versionSize + packageTypeSize + packageFlagsSize + payloadLenSize

def versionOffset : ℕ := 0

def packageTypeOffset : ℕ := versionSize

def flagsOffset : ℕ := versionSize + packageTypeSize

def payloadLenOffset : ℕ := versionSize + packageTypeSize + packageFlagsSize

structure PackageHeader where
  version : UInt32 := 0
  packageType : UInt8 := 0
  flags : UInt8 := 0
  payloadLen : UInt32 := 0
  deriving DecidableEq, Repr

def makeUpVersion (major minor fix : UInt8) : UInt32 :=
  major.toUInt32 <<< 24 ||| minor.toUInt32 <<< 16 ||| fix.toUInt32 <<< 8

namespace PackageHeader

/-- `NewPackageHeader`, with version 1.1.1. -/
def new (packageType : UInt8) : PackageHeader :=
  { packageType := packageType, version := makeUpVersion 1 1 1 }

def pack (h : PackageHeader) (buffer : List UInt8) : List UInt8 :=
  buffer ++
    [(h.version >>> 24).toUInt8,
      (h.version >>> 16).toUInt8,
      (h.version >>> 8).toUInt8,
      h.version.toUInt8,
      h.packageType,
      h.flags,
      (h.payloadLen >>> 24).toUInt8,
      (h.payloadLen >>> 16).toUInt8,
      (h.payloadLen >>> 8).toUInt8,
      h.payloadLen.toUInt8]

def byteAt (header : List UInt8) (i : ℕ) : M UInt8 :=
  match header[i]? with
  | some b => .ok b
  | none => .error .indexOutOfRange

/-- `Unpack` sets every field of its header. -/
def unpack (header : List UInt8) : M PackageHeader := do
  let v₀ ← byteAt header versionOffset
  let v₁ ← byteAt header (versionOffset + 1)
  let v₂ ← byteAt header (versionOffset + 2)
  let v₃ ← byteAt header (versionOffset + 3)
  let packageType ← byteAt header packageTypeOffset
  let flags ← byteAt header flagsOffset
  let l₀ ← byteAt header payloadLenOffset
  let l₁ ← byteAt header (payloadLenOffset + 1)
  let l₂ ← byteAt header (payloadLenOffset + 2)
  let l₃ ← byteAt header (payloadLenOffset + 3)
  .ok ⟨bigEndian v₀ v₁ v₂ v₃, packageType, flags, bigEndian l₀ l₁ l₂ l₃⟩

theorem unpack_pack (h : PackageHeader) : unpack (h.pack []) = .ok h := by
  change Except.ok (PackageHeader.mk (bigEndian _ _ _ _) h.packageType h.flags
    (bigEndian _ _ _ _)) = _
  rw [bigEndian_bytes, bigEndian_bytes]

theorem unpack_returns {header : List UInt8} (hlen : header.length = headerSize) :
    ∃ h, unpack header = .ok h := by
  have hbyte : ∀ i < headerSize, ∃ b, byteAt header i = .ok b := by
    intro i hi
    rw [← hlen] at hi
    exact ⟨header[i], by simp [byteAt, hi]⟩
  choose b hb using hbyte
  unfold unpack
  simp (disch := decide) only [hb, ok_bind]
  exact ⟨_, rfl⟩

end PackageHeader

def headerOf (data : List UInt8) : PackageHeader :=
  { PackageHeader.new messageType with payloadLen := UInt32.ofNat data.length }

/-- `Writer.Write`: the header, then the payload.  The state of the writer is what it has after
the last of its own writes, failed or not. -/
def write {σ : Type} (writer : Option (Writer σ)) (out : σ) (data : List UInt8) :
    Result ℕ × σ :=
  match writer with
  | none => (.error (str "bad io writer"), out)
  | some w =>
    match w.write out ((headerOf data).pack []) with
    | .error err => (.error err, out)
    | .ok out =>
      match w.write out data with
      | .error err => (.error err, out)
      | .ok out => (.ok data.length, out)

inductive PackageError
  | badReader
  | stream (e : ReadError)
  deriving DecidableEq, Repr

/-- `Reader.Read`, with what is left of the stream. -/
def read (reader : Option Stream) :
    Option (M (Except PackageError (List UInt8)) × Option Stream) :=
  match reader with
  | none => some (.ok (.error .badReader), none)
  | some s =>
    match s.readFull headerSize with
    | none => none
    | some (.error e, s) => some (.ok (.error (.stream e)), some s)
    | some (.ok headerBuffer, s) =>
      match PackageHeader.unpack headerBuffer with
      | .error fault => some (.error fault, some s)
      | .ok header =>
        match s.readFull header.payloadLen.toNat with
        | none => none
        | some (.error e, s) => some (.ok (.error (.stream e)), some s)
        | some (.ok payloadBuffer, s) => some (.ok (.ok payloadBuffer), some s)

/-- What the next `n` reads return. -/
def reads : ℕ → Option Stream → Option (List (M (Except PackageError (List UInt8))))
  | 0, _ => some []
  | n + 1, reader => do
    let (result, reader) ← read reader
    let results ← reads n reader
    some (result :: results)

/-- A header, and as many bytes of payload as it announces. -/
structure Frame where
  header : List UInt8
  payload : List UInt8
  length : header.length = headerSize
  announced : ∃ h, PackageHeader.unpack header = .ok h ∧ h.payloadLen.toNat = payload.length

def Frame.bytes (f : Frame) : List UInt8 := f.header ++ f.payload

variable {s : Stream} {payloads : List (List UInt8)} {rest data : List UInt8} {e : ReadError}

theorem read_frame {f : Frame} (hs : s.bytes = f.bytes ++ rest) :
    ∃ s', read (some s) = some (.ok (.ok f.payload), some s') ∧ s'.bytes = rest := by
  rw [Frame.bytes, List.append_assoc] at hs
  obtain ⟨s₁, hheader, hs₁⟩ := Stream.readFull_eq hs
  obtain ⟨s₂, hpayload, hs₂⟩ := Stream.readFull_eq hs₁
  obtain ⟨h, hunpack, hlen⟩ := f.announced
  rw [f.length] at hheader
  refine ⟨s₂, ?_, hs₂⟩
  simp [read, hheader, hunpack, hlen, hpayload]

/-- A payload with its header. -/
def package (data : List UInt8) : List UInt8 := (headerOf data).pack [] ++ data

/-- What a buffer holds after these payloads have been written. -/
def written (payloads : List (List UInt8)) : List UInt8 :=
  payloads.foldl (fun out data => (write (some buffer) out data).2) []

theorem write_buffer (out data : List UInt8) :
    write (some buffer) out data = (.ok data.length, out ++ package data) := by
  simp [write, buffer, package]

theorem written_eq (payloads : List (List UInt8)) :
    written payloads = (payloads.map package).flatten := by
  have hfold : ∀ out, payloads.foldl (fun out data => (write (some buffer) out data).2) out =
      out ++ (payloads.map package).flatten := by
    induction payloads with
    | nil => simp
    | cons data payloads ih =>
      intro out
      rw [List.foldl_cons, write_buffer, ih]
      simp
  exact hfold []

theorem toNat_payloadLen (h : data.length < 2 ^ 32) :
    (headerOf data).payloadLen.toNat = data.length := by
  change (UInt32.ofNat data.length).toNat = data.length
  rw [UInt32.toNat_ofNat', Nat.mod_eq_of_lt h]

theorem read_package (hlen : data.length < 2 ^ 32) (hs : s.bytes = package data ++ rest) :
    ∃ s', read (some s) = some (.ok (.ok data), some s') ∧ s'.bytes = rest := by
  exact read_frame (f := ⟨(headerOf data).pack [], data, rfl, headerOf data,
    PackageHeader.unpack_pack _, toNat_payloadLen hlen⟩) hs

theorem read_end (hs : s.bytes = []) :
    read (some s) = some (.ok (.error (.stream .eof)), some s) := by
  have hheader := Stream.readFull_end hs (show 0 < headerSize by decide)
  simp [read, hheader]

theorem reads_end (hs : s.bytes = []) (k : ℕ) :
    reads k (some s) = some (List.replicate k (.ok (.error (.stream .eof)))) := by
  induction k with
  | zero => rfl
  | succ k ih => simp [reads, read_end hs, ih, List.replicate_succ]

theorem reads_packages (hlen : ∀ p ∈ payloads, p.length < 2 ^ 32)
    (hs : s.bytes = (payloads.map package).flatten) (k : ℕ) :
    reads (payloads.length + k) (some s) =
      some (payloads.map (fun p => .ok (.ok p)) ++
        List.replicate k (.ok (.error (.stream .eof)))) := by
  induction payloads generalizing s with
  | nil =>
    rw [List.length_nil, Nat.zero_add]
    exact reads_end hs k
  | cons p payloads ih =>
    obtain ⟨s', hread, hs'⟩ := read_package (hlen p (.head _)) hs
    have hrest := ih (fun q hq => hlen q (.tail _ hq)) hs'
    rw [List.length_cons, Nat.add_right_comm]
    simp [reads, hread, hrest]

/-- Whatever was written, in payloads below 4 GiB, is read back in its order, and then the end,
however the bytes are split; and a header is unpacked as it was packed. -/
theorem framing_round_trip {payloads : List (List UInt8)}
    (hlen : ∀ p ∈ payloads, p.length < 2 ^ 32) (s : Stream) (hs : s.bytes = written payloads) :
    (∀ k, reads (payloads.length + k) (some s) =
      some (payloads.map (fun p => .ok (.ok p)) ++
        List.replicate k (.ok (.error (.stream .eof))))) ∧
    ∀ h : PackageHeader, PackageHeader.unpack (h.pack []) = .ok h := by
  rw [written_eq] at hs
  exact ⟨reads_packages hlen hs, PackageHeader.unpack_pack⟩

/-- Two payloads, the first one empty, in reads that cut through both headers. -/
def Sample.split : Stream where
  chunks := [[1, 1, 1], [0, 1, 0, 0, 0, 0, 0, 1, 1], [1, 0, 1, 0, 0, 0], [0, 2, 7], [8]]
  eager := true
  nonempty := by decide

theorem framing_round_trip_split :
    Sample.split.bytes = written [[], [7, 8]] ∧
    reads 3 (some Sample.split) =
      some [.ok (.ok []), .ok (.ok [7, 8]), .ok (.error (.stream .eof))] := by
  have hs : Sample.split.bytes = written [[], [7, 8]] := by decide +kernel
  exact ⟨hs, (framing_round_trip (by decide +kernel) Sample.split hs).1 1⟩

/-- What is left of a stream behind its last frame, and the error that a read makes of it. -/
inductive Cut : List UInt8 → ReadError → Prop
  | clean : Cut [] .eof
  | header {b : List UInt8} (hne : b ≠ []) (hlt : b.length < headerSize) : Cut b .unexpectedEOF
  | between {b : List UInt8} {h : PackageHeader} (hlen : b.length = headerSize)
      (hb : PackageHeader.unpack b = .ok h) (hpos : 0 < h.payloadLen.toNat) : Cut b .eof
  | payload {b p : List UInt8} {h : PackageHeader} (hlen : b.length = headerSize)
      (hb : PackageHeader.unpack b = .ok h) (hne : p ≠ []) (hlt : p.length < h.payloadLen.toNat) :
      Cut (b ++ p) .unexpectedEOF

def bytesOf (frames : List Frame) : List UInt8 := (frames.map Frame.bytes).flatten

theorem exists_frames (b : List UInt8) :
    ∃ frames tail e, b = bytesOf frames ++ tail ∧ Cut tail e := by
  induction hn : b.length using Nat.strong_induction_on generalizing b with
  | h n ih =>
    by_cases hnil : b = []
    · subst hnil
      exact ⟨[], _, _, rfl, .clean⟩
    by_cases hshort : b.length < headerSize
    · exact ⟨[], b, _, rfl, .header hnil hshort⟩
    have hlen : (b.take headerSize).length = headerSize := by
      rw [List.length_take]
      omega
    obtain ⟨h, hunpack⟩ := PackageHeader.unpack_returns hlen
    have hsplit := List.take_append_drop headerSize b
    by_cases hlt : (b.drop headerSize).length < h.payloadLen.toNat
    · rw [← hsplit]
      by_cases hp : b.drop headerSize = []
      · rw [hp, List.append_nil]
        exact ⟨[], _, _, rfl, .between hlen hunpack (by simpa [hp] using hlt)⟩
      · exact ⟨[], _, _, rfl, .payload hlen hunpack hp hlt⟩
    · have hrest : ((b.drop headerSize).drop h.payloadLen.toNat).length < n := by
        rw [List.length_drop, List.length_drop]
        have hpos : 0 < headerSize := by decide
        omega
      obtain ⟨frames, tail, e, htail, hcut⟩ := ih _ hrest _ rfl
      have hpayload :
          ((b.drop headerSize).take h.payloadLen.toNat).length = h.payloadLen.toNat := by
        rw [List.length_take]
        omega
      refine ⟨⟨_, _, hlen, h, hunpack, hpayload.symm⟩ :: frames, tail, e, ?_, hcut⟩
      simp only [bytesOf, List.map_cons, List.flatten_cons, Frame.bytes, List.append_assoc]
      rw [← bytesOf, ← htail, List.take_append_drop, hsplit]

theorem read_cut (h : Cut s.bytes e) :
    ∃ s', read (some s) = some (.ok (.error (.stream e)), s') := by
  generalize hs : s.bytes = b at h
  cases h with
  | clean => exact ⟨_, read_end hs⟩
  | header hne hlt =>
    subst hs
    obtain ⟨s', hheader⟩ := Stream.readFull_short hne hlt
    exact ⟨some s', by simp [read, hheader]⟩
  | between hlen hb hpos =>
    rw [← List.append_nil b] at hs
    obtain ⟨s₁, hheader, hs₁⟩ := Stream.readFull_eq hs
    rw [hlen] at hheader
    exact ⟨some s₁, by simp [read, hheader, hb, Stream.readFull_end hs₁ hpos]⟩
  | payload hlen hb hne hlt =>
    obtain ⟨s₁, hheader, rfl⟩ := Stream.readFull_eq hs
    rw [hlen] at hheader
    obtain ⟨s₂, hpayload⟩ := Stream.readFull_short hne hlt
    exact ⟨some s₂, by simp [read, hheader, hb, hpayload]⟩

/-- The reads return these payloads and then the error. -/
def Fails (s : Stream) (payloads : List (List UInt8)) (e : PackageError) : Prop :=
  reads (payloads.length + 1) (some s) =
    some (payloads.map (fun p => .ok (.ok p)) ++ [.ok (.error e)])

theorem fails_iff {frames : List Frame} {tail : List UInt8} (hcut : Cut tail e)
    (hs : s.bytes = bytesOf frames ++ tail) {err : PackageError} :
    Fails s payloads err ↔ payloads = frames.map Frame.payload ∧ err = .stream e := by
  unfold Fails
  induction frames generalizing s payloads with
  | nil =>
    obtain ⟨s', hread⟩ := read_cut (show Cut s.bytes e from hs ▸ hcut)
    cases payloads with
    | nil => simp [reads, hread, eq_comm]
    | cons p payloads =>
      rw [List.length_cons, reads, hread]
      simp [Option.bind_eq_some_iff]
  | cons f frames ih =>
    rw [bytesOf, List.map_cons, List.flatten_cons, List.append_assoc] at hs
    obtain ⟨s', hread, hs'⟩ := read_frame hs
    cases payloads with
    | nil => simp [reads, hread]
    | cons p payloads =>
      rw [List.map_cons (f := Frame.payload), List.cons.injEq, and_assoc, ← ih hs',
        List.length_cons, reads, hread, eq_comm (a := p)]
      simp [Option.bind_eq_some_iff, and_comm]

/-- The bytes are complete frames, and nothing follows them. -/
def Framed (b : List UInt8) : Prop := ∃ frames, b = bytesOf frames

/-- Behind complete frames there is a header, and nothing of the payload that it announces. -/
def EndsAfterHeader (b : List UInt8) : Prop :=
  ∃ frames header h, b = bytesOf frames ++ header ∧ header.length = headerSize ∧
    PackageHeader.unpack header = .ok h ∧ 0 < h.payloadLen.toNat

theorem length_bytesOf (frames : List Frame) : (bytesOf frames).length =
    ((frames.map Frame.payload).map fun p => headerSize + p.length).sum := by
  simp only [bytesOf, List.length_flatten, List.map_map]
  congr 1
  refine List.map_congr_left fun f _ => ?_
  simp [Frame.bytes, f.length]

/-- The reads of a stream come to an error, however it is split, and this is `io.EOF` for complete
frames only, exactly unless the stream ends between a header and its payload. -/
theorem eof_clean_iff (s : Stream) :
    ((∃ payloads e, Fails s payloads e) ∧
      ∀ payloads, Fails s payloads (.stream .eof) → Framed s.bytes) ↔
        ¬ EndsAfterHeader s.bytes := by
  constructor
  · rintro ⟨-, h⟩ ⟨frames, header, ph, hs, hlen, hunpack, hpos⟩
    have hfails := (fails_iff (.between hlen hunpack hpos) hs).mpr ⟨rfl, rfl⟩
    obtain ⟨frames', hs'⟩ := h _ hfails
    -- other frames have the same payloads and so are as long
    have hsame := ((fails_iff .clean (hs'.trans (List.append_nil _).symm)).mp hfails).1
    have hlength := congrArg List.length (hs.symm.trans hs')
    rw [List.length_append, length_bytesOf, length_bytesOf, hsame, hlen] at hlength
    exact absurd hlength (by simp [headerSize, versionSize])
  · intro hnot
    obtain ⟨frames, tail, e, hs, hcut⟩ := exists_frames s.bytes
    refine ⟨⟨_, _, (fails_iff hcut hs).mpr ⟨rfl, rfl⟩⟩, ?_⟩
    intro payloads hfails
    cases ((fails_iff hcut hs).mp hfails).2
    cases hcut with
    | clean => exact ⟨frames, hs.trans (List.append_nil _)⟩
    | between hlen hb hpos => exact absurd ⟨frames, _, _, hs, hlen, hb, hpos⟩ hnot

/-- A header that announces five bytes, and no more. -/
def Sample.headerAlone : Stream where
  chunks := [[1, 1, 1, 0, 1, 0, 0, 0, 0, 5]]
  nonempty := by decide

theorem header_alone_ends :
    Fails Sample.headerAlone [] (.stream .eof) ∧ ¬ Framed Sample.headerAlone.bytes := by
  have hfails : Fails Sample.headerAlone [] (.stream .eof) := rfl
  refine ⟨hfails, ?_⟩
  rintro ⟨frames, hs⟩
  have hnone := ((fails_iff .clean (hs.trans (List.append_nil _).symm)).mp hfails).1
  rw [List.map_eq_nil_iff.mp hnone.symm] at hs
  exact absurd hs (by decide)

end KubeEdge.Viaduct
