import KubeEdge.Go.Control
import KubeEdge.Go.Text

namespace KubeEdge.Mappers.Modbus
open Go

/-- `byte(i)`. -/
def byte (i : ℤ) : UInt8 := (i % 256).toNat.toUInt8

/-- `clients`, as pointers to the clients that were made; of a client only its `SlaveId`. -/
structure Driver where
  clients : GoMap GoString ℕ := ∅
  made : List UInt8 := []

/-- The client under the address, or a new one. -/
def Driver.clientAt (s : Driver) (addr : GoString) (slaveID : UInt8) : Driver × ℕ :=
  match s.clients.lookup addr with
  | some client => (s, client)
  | none => ({ clients := s.clients.insert addr s.made.length, made := s.made ++ [slaveID] },
      s.made.length)

def Driver.newTCPClient (s : Driver) (slaveID : UInt8) (deviceIP tcpPort : GoString) : Driver × ℕ :=
  s.clientAt (deviceIP ++ str ":" ++ tcpPort) slaveID

def Driver.newRTUClient (s : Driver) (slaveID : UInt8) (serialName : GoString) : Driver × ℕ :=
  s.clientAt serialName slaveID

inductive Config
  | modbusTCP (slaveID : UInt8) (deviceIP tcpPort : GoString)
  | modbusRTU (slaveID : UInt8) (serialName : GoString)

def Driver.newClient (s : Driver) : Config → Driver × ℕ
  | .modbusTCP slaveID deviceIP tcpPort => s.newTCPClient slaveID deviceIP tcpPort
  | .modbusRTU slaveID serialName => s.newRTUClient slaveID serialName

/-- What a device profile says about the line of a device. -/
structure Device where
  serialPort : GoString
  ip : GoString
  port : Int64
  slaveID : Int16

/-- The configuration that `initModbus` asks a client for. -/
def Device.config (d : Device) : Option Config :=
  if d.serialPort ≠ [] then some (.modbusRTU (byte d.slaveID.toInt) d.serialPort)
  else if d.ip ≠ [] then some (.modbusTCP (byte d.slaveID.toInt) d.ip (itoa d.port.toInt))
  else none

/-- The driver and the devices that were started, with their clients. -/
abbrev State := Driver × List (Device × ℕ)

def initModbus (s : State) (d : Device) : State :=
  match d.config with
  | none => s
  | some config => ((s.1.newClient config).1, s.2 ++ [(d, (s.1.newClient config).2)])

/-- The devices are started one after the other. -/
def start (ds : List Device) : State := ds.foldl initModbus ({}, [])

/-- The port of a device: its serial port or its address. -/
def Device.addr (d : Device) : Option GoString :=
  if d.serialPort ≠ [] then some d.serialPort
  else if d.ip ≠ [] then some (d.ip ++ str ":" ++ itoa d.port.toInt)
  else none

theorem initModbus_eq (x : State) (d : Device) : initModbus x d =
    d.addr.elim x fun addr => ((x.1.clientAt addr (byte d.slaveID.toInt)).1,
      x.2 ++ [(d, (x.1.clientAt addr (byte d.slaveID.toInt)).2)]) := by
  unfold initModbus Device.config Device.addr
  split_ifs <;> rfl

/-- The client of a device is in the table, and each client there was made for some device. -/
structure Inv (x : State) : Prop where
  kept : ∀ y ∈ x.2, ∃ addr, y.1.addr = some addr ∧ x.1.clients.lookup addr = some y.2
  made : ∀ addr client, x.1.clients.lookup addr = some client →
    ∃ y ∈ x.2, y.1.addr = some addr ∧ x.1.made[client]? = some (byte y.1.slaveID.toInt)

theorem initModbus_inv {x : State} (h : Inv x) (d : Device) :
    Inv (initModbus x d) := by
  rw [initModbus_eq]
  cases hd : d.addr with
  | none => exact h
  | some addr =>
    simp only [Option.elim_some, Driver.clientAt]
    split
    case h_1 client hlook =>
      refine ⟨List.forall_mem_append.mpr ⟨h.kept, by simp [hd, hlook]⟩, fun addr' client' h' => ?_⟩
      obtain ⟨y, hy, hrest⟩ := h.made addr' client' h'
      exact ⟨y, by simp [hy], hrest⟩
    case h_2 hnone =>
      refine ⟨List.forall_mem_append.mpr ⟨fun y hy => ?_, by simp [hd]⟩, fun addr' client' h' => ?_⟩
      · obtain ⟨addr', haddr', hlook⟩ := h.kept y hy
        refine ⟨addr', haddr', ?_⟩
        rw [GoMap.lookup_insert, if_neg]
        · exact hlook
        · rintro rfl
          simp [hnone] at hlook
      · rw [GoMap.lookup_insert] at h'
        split_ifs at h' with haddr
        · cases h'
          exact ⟨(d, x.1.made.length), by simp, haddr ▸ hd, by simp⟩
        · obtain ⟨y, hy, haddr', hmade⟩ := h.made addr' client' h'
          obtain ⟨hlt, -⟩ := List.getElem?_eq_some_iff.mp hmade
          exact ⟨y, by simp [hy], haddr', (List.getElem?_append_left hlt).trans hmade⟩

theorem map_foldl_initModbus (ds : List Device) (x : State) :
    (ds.foldl initModbus x).2.map Prod.fst = x.2.map Prod.fst ++ ds.filter (·.addr.isSome) := by
  induction ds generalizing x with
  | nil => simp
  | cons d ds ih =>
    rw [List.foldl_cons, ih, initModbus_eq]
    cases hd : d.addr <;> simp [hd]

theorem byte_eq_iff {i j : ℤ} : ((byte i).toNat : ℤ) = j ↔ i % 256 = j := by
  have hbyte : (byte i).toNat = (i % 256).toNat := by
    simp [byte]
    omega
  omega

/-- Whatever devices are started, those on one port get one client.  All requests go to the slaves
that the devices are configured for exactly if these have ids of a byte, the same for all devices
on a port. -/
theorem requests_to_slave_iff (ds : List Device) :
    (∀ x ∈ (start ds).2, ∃ slave : UInt8, (start ds).1.made[x.2]? = some slave ∧
        (slave.toNat : ℤ) = x.1.slaveID.toInt) ∧
      (∀ x ∈ (start ds).2, ∀ y ∈ (start ds).2, x.1.addr = y.1.addr → x.2 = y.2) ↔
    (∀ d ∈ ds, d.addr.isSome → 0 ≤ d.slaveID.toInt ∧ d.slaveID.toInt < 256) ∧
      ∀ d ∈ ds, ∀ d' ∈ ds, d.addr.isSome → d.addr = d'.addr → d.slaveID = d'.slaveID := by
  have h : Inv (start ds) :=
    List.foldlRecOn ds initModbus ⟨by simp, fun addr client h => by cases h⟩
    fun x hx d _ => initModbus_inv hx d
  have hgets : ∀ d, (∃ client, (d, client) ∈ (start ds).2) ↔ d ∈ ds ∧ d.addr.isSome := by
    intro d
    simpa [start] using congrArg (d ∈ ·) (map_foldl_initModbus ds ({}, []))
  generalize start ds = x at h hgets ⊢
  have hport : ∀ y ∈ x.2, ∀ z ∈ x.2, y.1.addr = z.1.addr → y.2 = z.2 := by
    intro y hy z hz heq
    obtain ⟨addr, haddr, hlook⟩ := h.kept y hy
    obtain ⟨addr', haddr', hlook'⟩ := h.kept z hz
    cases haddr.symm.trans (heq.trans haddr')
    exact Option.some_inj.mp (hlook.symm.trans hlook')
  rw [and_iff_left hport]
  constructor
  · intro hslave
    constructor
    · intro d hd hsome
      obtain ⟨client, hmem⟩ := (hgets d).mpr ⟨hd, hsome⟩
      obtain ⟨slave, -, hid⟩ := hslave _ hmem
      have hlt := slave.toNat_lt
      dsimp only at hid
      omega
    · intro d hd d' hd' hsome heq
      obtain ⟨client, hmem⟩ := (hgets d).mpr ⟨hd, hsome⟩
      obtain ⟨client', hmem'⟩ := (hgets d').mpr ⟨hd', heq ▸ hsome⟩
      obtain ⟨slave, hmade, hid⟩ := hslave _ hmem
      obtain ⟨slave', hmade', hid'⟩ := hslave _ hmem'
      cases hport _ hmem _ hmem' heq
      cases hmade.symm.trans hmade'
      exact Int16.toInt_inj.mp (hid.symm.trans hid')
  · rintro ⟨hrange, hsame⟩ y hy
    obtain ⟨addr, haddr, hlook⟩ := h.kept y hy
    obtain ⟨z, hz, haddr', hmade⟩ := h.made addr y.2 hlook
    obtain ⟨hyds, hsome⟩ := (hgets y.1).mp ⟨y.2, hy⟩
    have hid := hsame y.1 hyds z.1 ((hgets z.1).mp ⟨z.2, hz⟩).1 hsome (haddr.trans haddr'.symm)
    have hbyte := hrange y.1 hyds hsome
    refine ⟨_, hmade, byte_eq_iff.mpr ?_⟩
    rw [← hid]
    omega

/-- The second device on a serial port gets the client of the first, which calls the first's
slave. -/
theorem second_slave_ignored :
    start [⟨str "/dev/ttyS0", [], 0, 1⟩, ⟨str "/dev/ttyS0", [], 0, 2⟩] =
      (⟨AList.singleton (str "/dev/ttyS0") 0, [1]⟩,
        [(⟨str "/dev/ttyS0", [], 0, 1⟩, 0), (⟨str "/dev/ttyS0", [], 0, 2⟩, 0)]) := rfl

/-- `uint16(i)`. -/
def uint16 (i : ℤ) : UInt16 := (i % 65536).toNat.toUInt16

structure Slave where
  coils : UInt16 → Bool
  discreteInputs : UInt16 → Bool
  holdingRegisters : UInt16 → UInt16
  inputRegisters : UInt16 → UInt16

/-- So many bits from the address on, the first one lowest in the first byte. -/
def readBits (bits : UInt16 → Bool) (addr quantity : UInt16) : List UInt8 :=
  (List.range ((quantity.toNat + 7) / 8)).map fun k => (List.range 8).foldr (fun i b =>
    2 * b + if 8 * k + i < quantity.toNat ∧ bits (addr + (8 * k + i).toUInt16) then 1 else 0) 0

/-- So many registers, each as two bytes, the higher one first. -/
def readRegisters (registers : UInt16 → UInt16) (addr quantity : UInt16) : List UInt8 :=
  (List.range quantity.toNat).flatMap fun i =>
    let v := registers (addr + i.toUInt16)
    [(v >>> 8).toUInt8, v.toUInt8]

def Slave.get (s : Slave) (registerType : GoString) (addr quantity : UInt16) :
    Result (List UInt8) :=
  if registerType = str "CoilRegister" then .ok (readBits s.coils addr quantity)
  else if registerType = str "DiscreteInputRegister" then
    .ok (readBits s.discreteInputs addr quantity)
  else if registerType = str "HoldingRegister" then
    .ok (readRegisters s.holdingRegisters addr quantity)
  else if registerType = str "InputRegister" then .ok (readRegisters s.inputRegisters addr quantity)
  else .error (str "Bad register type")

def Slave.set (s : Slave) (registerType : GoString) (addr value : UInt16) : Result Slave :=
  if registerType = str "CoilRegister" then
    if value = 0 ∨ value = 1 then .ok { s with coils := Function.update s.coils addr (value = 1) }
    else .error (str "Wrong value")
  else if registerType = str "HoldingRegister" then
    .ok { s with holdingRegisters := Function.update s.holdingRegisters addr value }
  else .error (str "Bad register type")

/-- The value that `TwinData.Run` reports, if it reports one. -/
def run (s : Slave) (registerType : GoString) (addr quantity : UInt16) : M (Option GoString) :=
  match s.get registerType addr quantity with
  | .error _ => .ok none
  | .ok [] => .error .indexOutOfRange
  | .ok (b :: _) => .ok (some (itoa b.toNat))

/-- A twin with the property of its visitor. -/
structure Twin where
  accessMode : GoString
  dataType : GoString
  desired : GoString

-- whether `strconv.ParseFloat` takes a text, for 32 or 64 bits
variable (parseFloat : GoString → ℕ → Bool)

/-- `Convert`: an error, an `int64` or a value of another type. -/
def convert (valueType value : GoString) : Option (Option ℤ) :=
  if valueType = str "int" then (parseInt value).map some
  else if valueType = str "float" then if parseFloat value 32 then some none else none
  else if valueType = str "double" then if parseFloat value 64 then some none else none
  else if valueType = str "boolean" then
    if value ∈ ["1", "t", "T", "TRUE", "true", "True", "0", "f", "F", "FALSE", "false",
      "False"].map str then some none else none
  else if valueType = str "string" then some none
  else none

/-- `setVisitor`, if it writes.  A value that is no `int64` counts as zero. -/
def setVisitor (register : GoString) (offset : UInt16) (twin : Twin) (s : Slave) : Option Slave :=
  if twin.accessMode = str "ReadOnly" then none
  else (convert parseFloat twin.dataType twin.desired).bind fun value =>
    (s.set register offset (uint16 (value.getD 0))).toOption

variable {parseFloat} in
theorem convert_itoa {valueType : GoString} {v : ℤ} {value : Option ℤ}
    (h : convert parseFloat valueType (itoa v) = some value) : value.getD 0 = v ∨ value = none := by
  unfold convert at h
  split_ifs at h
  · obtain ⟨i, hi, rfl⟩ := Option.map_eq_some_iff.mp h
    exact .inl (parseInt_itoa hi)
  all_goals exact .inr (Option.some_inj.mp h).symm

theorem run_holding (s : Slave) (addr w : UInt16) :
    run { s with holdingRegisters := Function.update s.holdingRegisters addr w }
      (str "HoldingRegister") addr 1 = .ok (some (itoa (w.toNat / 256 : ℕ))) := by
  have hread : readRegisters (Function.update s.holdingRegisters addr w) addr 1 =
      [(w >>> 8).toUInt8, w.toUInt8] := by simp [readRegisters]
  have hhigh : (w >>> 8).toUInt8.toNat = w.toNat / 256 := by
    have := w.toNat_lt
    simp [Nat.shiftRight_eq_div_pow]
    omega
  simp [run, Slave.get, hread, hhigh, str]

/-- An integer that is written to a register is one of 16 bits and reported back, exactly if it is
zero or not written at all: what is reported is the high byte. -/
theorem written_reported_iff (offset : UInt16) (accessMode dataType : GoString) (v : ℤ)
    (s : Slave) :
    (∀ s', setVisitor parseFloat (str "HoldingRegister") offset ⟨accessMode, dataType, itoa v⟩ s =
        some s' → (0 ≤ v ∧ v ≤ 65535) ∧
          run s' (str "HoldingRegister") offset 1 = .ok (some (itoa v))) ↔
      accessMode = str "ReadOnly" ∨ convert parseFloat dataType (itoa v) = none ∨ v = 0 := by
  by_cases hread : accessMode = str "ReadOnly"
  · simp [setVisitor, hread]
  cases hvalue : convert parseFloat dataType (itoa v) with
  | none => simp [setVisitor, hvalue]
  | some value =>
    have hset (w : UInt16) : s.set (str "HoldingRegister") offset w =
        .ok { s with holdingRegisters := Function.update s.holdingRegisters offset w } := rfl
    simp only [setVisitor, hread, if_false, hvalue, Option.bind_some, hset, Except.toOption,
      Option.some_inj, forall_eq', run_holding, Except.ok.injEq, itoa_injective.eq_iff, false_or,
      reduceCtorEq]
    have hword : (uint16 (value.getD 0)).toNat = (value.getD 0 % 65536).toNat := by
      simp [uint16]
      omega
    generalize uint16 (value.getD 0) = w at hword ⊢
    rcases convert_itoa hvalue with hv | rfl
    · rw [hv] at hword
      constructor
      · rintro ⟨⟨hlow, hhigh⟩, hsame⟩
        rw [Int.emod_eq_of_lt hlow (by omega)] at hword
        omega
      · omega
    · rw [Option.getD_none, Int.zero_emod] at hword
      omega

theorem one_reported_as_zero :
    (setVisitor (fun _ _ => false) (str "HoldingRegister") 0 ⟨str "ReadWrite", str "int", str "1"⟩
      ⟨fun _ => false, fun _ => false, fun _ => 0, fun _ => 0⟩).map
        (run · (str "HoldingRegister") 0 1) = some (.ok (some (str "0"))) := by
  decide +kernel

end KubeEdge.Mappers.Modbus
