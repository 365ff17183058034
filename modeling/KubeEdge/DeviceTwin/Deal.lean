import KubeEdge.DeviceTwin.Types

namespace KubeEdge.DeviceTwin
open Go

inductive DealType
  | rest
  | sync
  | detail
  | syncTwinDelete
  deriving DecidableEq, Repr

/-- The version that is stored, if the update may be made. -/
def dealVersion (version : Version) (reqVersion : Option Version) (d : DealType) :
    Result Version :=
  if d = .rest then .ok { version with edge := version.edge + 1 }
  else
    match reqVersion with
    | none =>
      if d = .syncTwinDelete then .ok version
      else .error (str "Version not allowed be nil while syncing")
    | some req =>
      if req.cloud < version.cloud then .error (str "Version not allowed")
      else if req.edge < version.edge then
        .error (str "Not allowed to sync due to version conflict")
      else .ok req

/-- The version of a message counts in updates from the cloud only. -/
def requested (side : Side) (d : DealType) : Option Version :=
  if d = .rest then none else side.version

structure TwinDoc where
  last : Option MsgTwin := none
  current : Option MsgTwin := none
  deriving DecidableEq, Repr

inductive Change
  | add (row : Row)
  | update (cols : Cols)
  deriving DecidableEq, Repr

/-- What one entry of an update leads to. -/
structure Dealt where
  /-- The twin in memory afterwards. -/
  twin : Option Twin
  change : Option Change := none
  document : Option TwinDoc := none
  syncResult : Option MsgTwin := none
  /-- The entry in the reply, which may be `null`. -/
  result : Option (Option MsgTwin) := none
  /-- `returnResult.Err`. -/
  err : Option GoString := none
  /-- Whether an error is returned, which ends the loop. -/
  stop : Bool := false
  deriving DecidableEq, Repr

/-- One of the two equal blocks of `dealTwinDelete`: a side without a version gets one and is
otherwise left alone.  The second component is the columns to write. -/
def deleteSide (side msg : Side) (d : DealType) :
    Result (Side × Option (Option GoString × Version)) :=
  match side.version with
  | none => .ok ({ side with version := some {} }, none)
  | some version =>
    match dealVersion version (requested msg d) d with
    | .error e => .error e
    | .ok v => .ok (⟨some {}, some v⟩, some (none, v))

def typeAfter (type : GoString) (cols : Option (Option GoString × Version)) : GoString :=
  if cols.isSome then str "deleted" else type

/-- What `dealTwinDelete` does once it is clear that the twin is to be deleted. -/
def deleteTwin (twin : Twin) (msgTwin : MsgTwin) (d : DealType) : Dealt :=
  if twin.deleted then
    { twin := some twin, document := some { last := some twin.toMsgTwin.noVersion },
      syncResult := some {} }
  else
    let d := if d = .rest then d else .syncTwinDelete
    match deleteSide twin.expected msgTwin.expected d with
    | .error _ => { twin := some twin, syncResult := some twin.toMsgTwin }
    | .ok (expected, expectedCols) =>
      let twin₁ := { twin with expected := expected, type := typeAfter twin.type expectedCols }
      match deleteSide twin.actual msgTwin.actual d with
      -- what was done to the expected side stays in memory
      | .error _ => { twin := some twin₁, syncResult := some twin₁.toMsgTwin }
      | .ok (actual, actualCols) =>
        let twin₂ := { twin₁ with actual := actual, type := typeAfter twin₁.type actualCols }
        if expectedCols.isSome ∨ actualCols.isSome then
          let sync := if actualCols.isSome then twin₂.toMsgTwin else twin₁.toMsgTwin
          { twin := some twin₂
            change := some (.update { expected := expectedCols, actual := actualCols,
                                      attrType := some (str "deleted") })
            document := some { last := some twin.toMsgTwin.noVersion }
            syncResult := if d = .rest then some sync else none
            result := if d = .rest then some none else none }
        else { twin := some twin₂ }

def dealTwinDelete (twin : Twin) (msgTwin : Option MsgTwin) (d : DealType) : M Dealt :=
  if d = .rest then
    if msgTwin.isNone ∧ twin.optional then .ok (deleteTwin twin {} d)
    else .ok { twin := some twin }
  else do
    let msgTwin ← deref msgTwin
    let type ← deref msgTwin.metadata
    if type = str "deleted" then .ok (deleteTwin twin msgTwin d) else .ok { twin := some twin }

inductive Part
  | expected
  | actual
  deriving DecidableEq, Repr

def Twin.side (t : Twin) : Part → Side
  | .expected => t.expected
  | .actual => t.actual

def Twin.setSide (t : Twin) (s : Side) : Part → Twin
  | .expected => { t with expected := s }
  | .actual => { t with actual := s }

def MsgTwin.side (m : MsgTwin) : Part → Side
  | .expected => m.expected
  | .actual => m.actual

def MsgTwin.setSide (m : MsgTwin) (s : Side) : Part → MsgTwin
  | .expected => { m with expected := s }
  | .actual => { m with actual := s }

def Cols.setSide (c : Cols) (value : Option GoString × Version) : Part → Cols
  | .expected => { c with expected := some value }
  | .actual => { c with actual := some value }

/-- The type that values are checked against: a deleted twin takes the type of the message. -/
def valueType (twin : Twin) (msgTwin : MsgTwin) : GoString :=
  if twin.deleted then msgTwin.metadata.getD (str "string") else twin.type

section

variable (isFloat : GoString → Bool)

/-- A value is checked only where the twin has one already. -/
def isTwinValueDiff (valueType : GoString) (twinValue msgTwinValue : Option TwinValue) :
    M (Result Bool) :=
  match msgTwinValue, twinValue with
  | none, _ => .ok (.ok false)
  | some _, none => .ok (.ok true)
  | some m, some _ => do
    let value ← deref m.value
    match validateValue isFloat valueType value with
    | .error e => .ok (.error e)
    | .ok _ => .ok (.ok true)

inductive Compared
  | unchanged
  | invalid (err : GoString)
  | refused (version : Version) (err : GoString)
  | accepted (value : Option GoString) (version : Version)
  deriving DecidableEq, Repr

/-- A side of the twin against a side of the message; no version is taken for the first one. -/
def compareSide (valueType : GoString) (side msg : Side) (d : DealType) : M Compared := do
  match ← isTwinValueDiff isFloat valueType side.value msg.value with
  | .error e => .ok (.invalid e)
  | .ok false => .ok .unchanged
  | .ok true =>
    let version := side.version.getD {}
    match dealVersion version (requested msg d) d with
    | .error e => .ok (.refused version e)
    | .ok v => .ok (.accepted (msg.value.bind TwinValue.value) v)

/-- The variables of `dealTwinCompare`. -/
structure Comparing where
  twin : Twin
  cols : Cols := {}
  sync : MsgTwin := {}
  isChange : Bool := false
  isSyncAllow : Bool := true

/-- One of the two equal blocks of `dealTwinCompare`; an error ends the function. -/
def comparePart (msgTwin : MsgTwin) (d : DealType) (p : Part) (c : Comparing) :
    M (Result Comparing) := do
  match ← compareSide isFloat (valueType c.twin msgTwin) (c.twin.side p) (msgTwin.side p) d with
  | .unchanged => .ok (.ok c)
  | .invalid e => .ok (if d = .rest then .error e else .ok c)
  | .refused version e =>
    if c.isSyncAllow then
      if d = .rest then .ok (.error e)
      else do
        -- the refusal reports the value that the twin has
        let old ← deref (c.twin.side p).value
        .ok (.ok { c with
          twin := c.twin.setSide ⟨some old, some version⟩ p
          sync := { c.sync.setSide ⟨some old, some version⟩ p with
            optional := some c.twin.optional, metadata := some c.twin.type }
          isSyncAllow := false })
    else .ok (.ok c)
  | .accepted value version =>
    if c.isSyncAllow then
      .ok (.ok { c with
        twin := c.twin.setSide ⟨some ⟨value⟩, some version⟩ p
        cols := c.cols.setSide (value, version) p
        sync := if d = .rest then { c.sync.setSide ⟨some ⟨value⟩, some version⟩ p with
            optional := some c.twin.optional, metadata := some c.twin.type }
          else c.sync
        isChange := true })
    else .ok (.ok c)

/-- A twin that is optional may become mandatory. -/
def compareOptional (msgTwin : MsgTwin) (c : Comparing) : Comparing :=
  match msgTwin.optional with
  | none => c
  | some optional =>
    if optional ≠ c.twin.optional ∧ c.twin.optional then
      { c with
        twin := { c.twin with optional := optional }
        cols := { c.cols with optional := some optional }
        sync := { c.sync with optional := some optional }
        isChange := true }
    else c

def compareMetadata (msgTwin : MsgTwin) (c : Comparing) : Comparing :=
  -- only a deleted twin takes a new type
  let revive type (c : Comparing) := { c with
    twin := { c.twin with type := type }
    cols := { c.cols with attrType := some type }
    sync := { c.sync with metadata := some type }
    isChange := true }
  match msgTwin.metadata with
  | some type =>
    if type = c.twin.type then c
    else if c.twin.deleted then revive type c
    else { c with isChange := true }
  | none => if c.twin.deleted then revive (str "string") c else c

/-- The end of `dealTwinCompare`. -/
def compareResult (document : TwinDoc) (d : DealType) (c : Comparing) : Dealt :=
  if c.isChange then
    { twin := some c.twin
      change := some (.update c.cols)
      document := some { document with current := some c.twin.toMsgTwin.noVersion }
      syncResult := if d = .rest ∨ ¬ c.isSyncAllow then some c.sync else none
      result := if d = .rest then some (some c.sync.noVersion) else none }
  else
    { twin := some c.twin
      syncResult := if d ≠ .rest ∧ ¬ c.isSyncAllow then some c.sync else none }

def dealTwinCompare (twin : Twin) (msgTwin : MsgTwin) (d : DealType) : M Dealt := do
  let document : TwinDoc := { last := if twin.deleted then none else some twin.toMsgTwin.noVersion }
  let failed (twin : Twin) (e : GoString) : Dealt :=
    { twin := some twin, document := some document, syncResult := some {}, err := some e,
      stop := true }
  match ← comparePart isFloat msgTwin d .expected { twin := twin } with
  | .error e => .ok (failed twin e)
  | .ok c₁ =>
    match ← comparePart isFloat msgTwin d .actual c₁ with
    | .error e => .ok (failed c₁.twin e)
    | .ok c₂ =>
      let c₃ := if c₂.isSyncAllow then compareMetadata msgTwin (compareOptional msgTwin c₂) else c₂
      .ok (compareResult document d c₃)

inductive Added
  | column (c : Column)
  | refused (err : GoString)
  | invalid (err : GoString)
  deriving DecidableEq, Repr

/-- One of the two equal blocks of `dealTwinAdd`; `version` is the version of a side without a
value. -/
def addSide (type : GoString) (version : Option Version) (msg : Side) (d : DealType) :
    M Added :=
  match msg.value with
  | none => .ok (.column ⟨[], version⟩)
  | some twinValue =>
    match dealVersion {} (requested msg d) d with
    | .error e => .ok (.refused e)
    | .ok v => do
      let value ← deref twinValue.value
      match validateValue isFloat type value with
      | .error e => .ok (.invalid e)
      | .ok _ => .ok (.column ⟨value, some v⟩)

/-- The way out of `dealTwinAdd` for a side that cannot be added. -/
def addFailed (d : DealType) (e : GoString) (left : Bool) : Dealt where
  twin := none
  document := if left then some {} else none
  syncResult := if left then some {} else none
  err := if d = .rest then some e else none
  stop := d = .rest

/-- A new row comes into memory the way it will be read from the database. -/
def addRow (row : Row) (d : DealType) : Dealt where
  twin := some row.toTwin
  change := some (.add row)
  document := some
    { current := if row.toTwin.deleted then none else some row.toTwin.toMsgTwin.noVersion }
  syncResult := if d = .rest then some row.toTwin.toMsgTwin else none
  result := if d = .rest then some (some row.toTwin.toMsgTwin.noVersion) else none

/-- A deleted twin from the cloud keeps its versions. -/
def keepsVersions (msgTwin : MsgTwin) (d : DealType) : M Bool :=
  if d = .rest then .ok false else do
    let type ← deref msgTwin.metadata
    .ok (type = str "deleted")

def dealTwinAdd (msgTwin : Option MsgTwin) (d : DealType) : M Dealt :=
  match msgTwin with
  | none => .ok { twin := none, document := some {}, stop := true }
  | some m => do
    let keeps ← keepsVersions m d
    let type := m.metadata.getD (str "string")
    let version (side : Side) := if keeps then side.version else none
    match ← addSide isFloat type (version m.expected) m.expected d with
    | .refused e => .ok (addFailed d e true)
    | .invalid e => .ok (addFailed d e false)
    | .column expected =>
      match ← addSide isFloat type (version m.actual) m.actual d with
      | .refused e => .ok (addFailed d e true)
      | .invalid e => .ok (addFailed d e false)
      | .column actual => .ok (addRow ⟨expected, actual, m.optional.getD true, type⟩ d)

/-- The body of the loop of `DealMsgTwin`. -/
def dealTwin (twin : Option Twin) (msgTwin : Option MsgTwin) (d : DealType) : M Dealt :=
  match twin with
  | none => dealTwinAdd isFloat msgTwin d
  | some twin =>
    if d = .rest then
      match msgTwin with
      | none => dealTwinDelete twin none d
      | some m => dealTwinCompare isFloat twin m d
    else do
      let m ← deref msgTwin
      let type ← deref m.metadata
      if type = str "deleted" then dealTwinDelete twin (some m) d
      else dealTwinCompare isFloat twin m d

structure DealTwinResult where
  add : List (GoString × Row) := []
  update : List (GoString × Cols) := []
  result : GoMap GoString (Option MsgTwin) := ∅
  syncResult : GoMap GoString MsgTwin := ∅
  document : GoMap GoString TwinDoc := ∅
  err : Option GoString := none

/-- Take down what became of a key. -/
def DealTwinResult.record (r : DealTwinResult) (key : GoString) (o : Dealt) : DealTwinResult where
  add := match o.change with
    | some (.add row) => r.add ++ [(key, row)]
    | _ => r.add
  update := match o.change with
    | some (.update cols) => r.update ++ [(key, cols)]
    | _ => r.update
  result := match o.result with
    | none => r.result
    | some result => r.result.insert key result
  syncResult := match o.syncResult with
    | none => r.syncResult.erase key
    | some sync => r.syncResult.insert key sync
  document := match o.document with
    | none => r.document.erase key
    | some document => r.document.insert key document
  err := o.err.or r.err

/-- The twin is changed in place; no twin is ever taken out of memory. -/
def remember (twins : Memory) (key : GoString) (o : Dealt) : Memory :=
  match o.twin with
  | none => twins
  | some twin => twins.insert key twin

/-- `DealMsgTwin`: the entries come in any order. -/
def dealMsgTwin (d : DealType) :
    List (Sigma fun _ : GoString => Option MsgTwin) → Memory → DealTwinResult →
      M (Memory × DealTwinResult)
  | [], twins, r => .ok (twins, r)
  | ⟨key, msgTwin⟩ :: rest, twins, r => do
    let o ← dealTwin isFloat (twins.lookup key) msgTwin d
    let twins' := remember twins key o
    let r' := r.record key o
    if o.stop then .ok (twins', r') else dealMsgTwin d rest twins' r'

/-- The statements of a transaction that took effect: all of them, or the first few where
`Begin` or `Commit` have failed. -/
inductive Executed
  | all
  | first (n : ℕ)
  deriving DecidableEq, Repr

/-- How the database behaves during a call. -/
structure Database where
  executed : Executed
  /-- Whether the transaction reports success. -/
  ok : Bool
  /-- Whether the queries of `SyncDeviceFromSqlite` succeed. -/
  reloads : Bool
  deriving DecidableEq, Repr

namespace Database

def committed : Database := ⟨.all, true, true⟩

def rolledBack : Database := ⟨.first 0, false, true⟩

def take {α : Type} (db : Database) (l : List α) : List α :=
  match db.executed with
  | .all => l
  | .first n => l.take n

end Database

/-- An update of a row that does not exist changes nothing. -/
def execute (rows : Table) (key : GoString) : Change → Table
  | .add row => rows.insert key row
  | .update cols =>
    match rows.lookup key with
    | none => rows
    | some row => rows.insert key (row.update cols)

/-- The statements of `DeviceTwinTrans`. -/
def DealTwinResult.statements (r : DealTwinResult) : List (GoString × Change) :=
  r.add.map (fun (key, row) => (key, .add row)) ++
    r.update.map (fun (key, cols) => (key, .update cols))

def deviceTwinTrans (db : Database) (r : DealTwinResult) (rows : Table) : Table :=
  (db.take r.statements).foldl (fun rows (key, change) => execute rows key change) rows

structure Device where
  twins : Memory := ∅
  rows : Table := ∅

def syncDeviceFromSqlite (db : Database) (s : Device) : Device :=
  if db.reloads then { s with twins := deviceTwinToMsgTwin s.rows } else s

/-- The difference between expected and actual values, as `BuildDeviceTwinDelta` reports it. -/
def delta (twins : Memory) : List (GoString × GoString) :=
  twins.entries.filterMap fun e =>
    let text (value : TwinValue) := value.value.getD []
    match e.2.deleted, e.2.expected.value, e.2.actual.value with
    | false, some expected, actual =>
      if text expected ≠ [] ∧ actual.map text ≠ some (text expected) then
        some (e.1, text expected)
      else none
    | _, _, _ => none

/-- What `DealDeviceTwin` tells others. -/
inductive Reply
  /-- An error code, and the error where it is not that of the database. -/
  | rejected (code : ℕ) (err : Option GoString)
  | published (result : Option (GoMap GoString (Option MsgTwin)))
      (document : GoMap GoString TwinDoc) (delta : List (GoString × GoString))
      (syncResult : GoMap GoString MsgTwin)

def dealDeviceTwin (s : Device) (msgTwin : Option Update) (d : DealType) (db : Database) :
    M (Device × Reply) :=
  match msgTwin with
  | none => .ok (s, .rejected 400 (some errorUpdate))
  | some content => do
    let (twins, r) ← dealMsgTwin isFloat d content.entries s.twins {}
    let publish :=
      Reply.published (if d = .rest then some r.result else none) r.document (delta twins)
        r.syncResult
    if d = .rest ∧ r.err.isSome then
      .ok (syncDeviceFromSqlite db { s with twins := twins }, .rejected 400 r.err)
    else if r.statements = [] then .ok ({ s with twins := twins }, publish)
    else
      let s' := { twins := twins, rows := deviceTwinTrans db r s.rows }
      if db.ok then .ok (s', publish)
      else .ok (syncDeviceFromSqlite db s', if d = .rest then .rejected 500 none else publish)

end

end KubeEdge.DeviceTwin
