import KubeEdge.Go.Control

namespace KubeEdge.DeviceTwin
open Go

/-- `TwinVersion`. -/
structure Version where
  cloud : Int64 := 0
  edge : Int64 := 0
  deriving DecidableEq, Repr

namespace Version

/-- Neither component is smaller. -/
instance : LE Version := ⟨fun v w => v.cloud ≤ w.cloud ∧ v.edge ≤ w.edge⟩

instance (v w : Version) : Decidable (v ≤ w) :=
  inferInstanceAs (Decidable (v.cloud ≤ w.cloud ∧ v.edge ≤ w.edge))

theorem le_refl (v : Version) : v ≤ v := ⟨Int64.le_refl _, Int64.le_refl _⟩

theorem le_trans {u v w : Version} (huv : u ≤ v) (hvw : v ≤ w) : u ≤ w :=
  ⟨Int64.le_trans huv.1 hvw.1, Int64.le_trans huv.2 hvw.2⟩

theorem edge_le_succ {a : Int64} (h : a < Int64.maxValue) : a ≤ a + 1 := by
  rw [Int64.le_iff_toInt_le, Int64.toInt_add]
  rw [Int64.lt_iff_toInt_lt] at h
  have hmax : Int64.maxValue.toInt = 9223372036854775807 := by decide
  rw [Int.bmod_def]
  simp only [Int64.reduceToInt]
  split_ifs <;> omega

end Version

/-- `TwinValue`: a value, if the pointer is set. -/
structure TwinValue where
  value : Option GoString := none
  deriving DecidableEq, Repr

/-- One side of a twin: `Expected` and `ExpectedVersion`, or `Actual` and `ActualVersion`. -/
structure Side where
  value : Option TwinValue := none
  version : Option Version := none
  deriving DecidableEq, Repr

/-- `MsgTwin`, as messages have it; the only thing in its metadata is the type. -/
structure MsgTwin where
  expected : Side := {}
  actual : Side := {}
  optional : Option Bool := none
  metadata : Option GoString := none
  deriving DecidableEq, Repr

/-- `MsgTwin`, as memory has it: `Optional` and `Metadata` are set, since twins come into memory
by way of `DeviceTwinToMsgTwin` only. -/
structure Twin where
  expected : Side
  actual : Side
  optional : Bool
  type : GoString
  deriving DecidableEq, Repr

/-- `CopyMsgTwin` with the versions. -/
def Twin.toMsgTwin (t : Twin) : MsgTwin :=
  ⟨t.expected, t.actual, some t.optional, some t.type⟩

/-- `CopyMsgTwin` without them. -/
def MsgTwin.noVersion (m : MsgTwin) : MsgTwin :=
  { m with expected := ⟨m.expected.value, none⟩, actual := ⟨m.actual.value, none⟩ }

abbrev Memory := GoMap GoString Twin

/-- The map in a message; an entry may be `null`. -/
abbrev Update := GoMap GoString (Option MsgTwin)

def Twin.deleted (t : Twin) : Bool := t.type = str "deleted"

/-- The columns of one side; a null value reads as the empty string, an empty version is no
version. -/
structure Column where
  value : GoString := []
  version : Option Version := none
  deriving DecidableEq, Repr

/-- `DeviceTwin`: a row of the table. -/
structure Row where
  expected : Column
  actual : Column
  optional : Bool
  attrType : GoString
  deriving DecidableEq, Repr

/-- The rows of the device by name: a row is only inserted for a name that memory does not
have. -/
abbrev Table := GoMap GoString Row

/-- The columns that are updated.  Value, version and timestamp of a side are always written
together. -/
structure Cols where
  expected : Option (Option GoString × Version) := none
  actual : Option (Option GoString × Version) := none
  optional : Option Bool := none
  attrType : Option GoString := none
  deriving DecidableEq, Repr

def Column.update (c : Column) : Option (Option GoString × Version) → Column
  | none => c
  | some (value, version) => ⟨value.getD [], some version⟩

/-- `UpdateDeviceTwinFields`. -/
def Row.update (r : Row) (cols : Cols) : Row where
  expected := r.expected.update cols.expected
  actual := r.actual.update cols.actual
  optional := cols.optional.getD r.optional
  attrType := cols.attrType.getD r.attrType

def Column.toSide (c : Column) : Side where
  value := if c.value = [] then none else some ⟨some c.value⟩
  version := c.version

/-- `DeviceTwinToMsgTwin`, for one row. -/
def Row.toTwin (r : Row) : Twin :=
  ⟨r.expected.toSide, r.actual.toSide, r.optional, r.attrType⟩

def deviceTwinToMsgTwin (rows : Table) : Memory := rows.mapValues Row.toTwin

@[simp] theorem lookup_deviceTwinToMsgTwin (rows : Table) (k : GoString) :
    (deviceTwinToMsgTwin rows).lookup k = (rows.lookup k).map Row.toTwin :=
  GoMap.lookup_mapValues ..

section

-- whether `strconv.ParseFloat` takes a value
variable (isFloat : GoString → Bool)

def validateValue (valueType value : GoString) : Result Unit :=
  if valueType = [] ∨ valueType = str "string" then .ok ()
  else if valueType = str "int" then
    if (parseInt value).isSome then .ok () else .error (str "the value is not int")
  else if valueType = str "float" then
    if isFloat value then .ok () else .error (str "the value is not float")
  else if valueType = str "boolean" then
    if value = str "true" ∨ value = str "false" then .ok ()
    else .error (str "the bool value must be true or false")
  else if valueType = str "deleted" then .ok ()
  else .error (str "the value type is not allowed")

end

def isTwinChar (c : UInt8) : Bool :=
  (48 ≤ c && c ≤ 57) || (65 ≤ c && c ≤ 90) || (97 ≤ c && c ≤ 122) ||
    (str "-_.,:/@#").contains c

def validateTwinKey (key : GoString) : Bool :=
  key ≠ [] && key.length ≤ 128 && key.all isTwinChar

def validateTwinValue (value : GoString) : Bool :=
  value ≠ [] && value.length ≤ 512 && value.all isTwinChar

/-- A value that is not there, or empty, is not looked at. -/
def acceptsValue (v : Option TwinValue) : Bool :=
  (v.bind TwinValue.value).all fun value => value = [] || validateTwinValue value

def errorUpdate : GoString := str "Update twin error, key:twin does not exist"

/-- `ErrorKey` and `ErrorValue`. -/
def errorChars (what length : String) : GoString :=
  str "The " ++ str what ++ str " of twin must only include upper or lowercase letters, number, " ++
    str "english, and special letter - _ . , : / @ # and the length of " ++ str what ++
    str " should be less than " ++ str length ++ str " bytes"

/-- `UnmarshalDeviceTwinUpdate`, after the JSON was decoded. -/
def unmarshalDeviceTwinUpdate (twin : Option Update) : Result Update :=
  match twin with
  | none => .error errorUpdate
  | some twin =>
    if ¬ twin.keys.all validateTwinKey then .error (errorChars "key" "128")
    else if ¬ twin.entries.all (fun e => e.2.all fun m =>
        acceptsValue m.expected.value && acceptsValue m.actual.value) then
      .error (errorChars "value" "512")
    else .ok twin

end KubeEdge.DeviceTwin
