import KubeEdge.DeviceTwin.Deal
import KubeEdge.Go.Machine
import KubeEdge.Go.Threads

namespace KubeEdge.DeviceTwin.Locks
open Go Machine Threads

/-- Each deals with one message after the other. -/
inductive Worker
  | twin
  | device
  | membership
  deriving DecidableEq, Repr

instance : Fintype Worker where
  elems := {.twin, .device, .membership}
  complete w := by cases w <;> decide

/-- `DTContext`, and who holds its locks. -/
structure Context where
  /-- The devices in `DeviceList`. -/
  deviceList : GoSet GoString := ∅
  /-- `DeviceMutex`; mutexes are numbered as they are made. -/
  deviceMutex : GoMap GoString ℕ := ∅
  made : ℕ := 0
  /-- The mutexes that are locked, with the worker that has locked them. -/
  locked : GoMap ℕ Worker := ∅
  /-- `Mutex`: how many hold it for reading, whether a writer waits for them, which keeps others
  from reading, and whether the writer holds it. -/
  readers : ℕ := 0
  waiting : Bool := false
  writer : Bool := false
  /-- A panic, or the release of a lock that is not held, ends the process. -/
  ended : Bool := false

/-- A device in a message about the membership, and whether its twins and attributes are set. -/
structure NewDevice where
  id : GoString
  twin : Bool := true
  attributes : Bool := true
  deriving DecidableEq, Repr

/-- The functions that use locks or maps, and the single steps that they take. -/
inductive Op
  | lock (deviceID : GoString)
  | rLock
  | mutexLock (mutex : ℕ)
  | unlock (deviceID : GoString)
  | mutexUnlock (mutex : ℕ)
  | rUnlock
  | lockAll
  /-- `LockAll`, once new readers are kept out: it waits for the others. -/
  | drain
  | unlockAll
  | updated (deviceID : GoString)
  | dealDeviceTwin (deviceID : GoString) (d : DealType) (twin : Bool)
  | dealMsgTwin (deviceID : GoString) (d : DealType)
  | updateDeviceAttr (deviceID : GoString)
  | dealMsgAttr (deviceID : GoString)
  | syncDeviceFromSqlite (deviceID : GoString)
  /-- The end of `DealDeviceTwin` or `UpdateDeviceAttr`. -/
  | returns (deviceID : GoString)
  | addDevice (device : NewDevice)
  | addDeviceTrans (device : NewDevice)
  | removeDevice (deviceID : GoString)
  | getRemoveList (deviceIDs : List GoString)
  | loadDevice (deviceID : GoString)
  | storeDevice (deviceID : GoString)
  | deleteDevice (deviceID : GoString)
  | storeMutex (deviceID : GoString)
  | deleteMutex (deviceID : GoString)
  deriving DecidableEq, Repr

/-- What depends on the content of messages and on the database. -/
structure Choice where
  /-- Whether the update can be decoded. -/
  valid : Bool := true
  /-- Whether the loop over the twins comes to its end. -/
  finishes : Bool := true
  /-- Whether the device is read again, after an invalid value or a failed transaction. -/
  reloads : Bool := false
  /-- Whether the database has the device. -/
  found : Bool := true
  /-- Whether the transaction that adds a device succeeds. -/
  committed : Bool := true

/-- The operations on the maps.  `addDevice` and `removeDevice` are only called with `delta`
false and take no lock. -/
def follow (c : Choice) (s : Context) : Op → Context × List Op
  | .updated id => (s, if c.valid then [.dealDeviceTwin id .rest true] else [])
  | .dealDeviceTwin id d twin =>
    (s, (if id ∈ s.deviceList ∧ twin then [.dealMsgTwin id d] else []) ++ [.returns id])
  | .dealMsgTwin id d =>
    if id ∈ s.deviceList then
      (s, (if c.finishes then [.storeDevice id] else []) ++
        if c.reloads then [.syncDeviceFromSqlite id] else [])
    else (s, if d = .rest then [.syncDeviceFromSqlite id] else [])
  | .updateDeviceAttr id =>
    (s, (if id ∈ s.deviceList then [.dealMsgAttr id] else []) ++ [.returns id])
  | .dealMsgAttr id =>
    if id ∈ s.deviceList then (s, if c.reloads then [.syncDeviceFromSqlite id] else [])
    -- the attributes of a device that is not there
    else ({ s with ended := true }, [])
  | .syncDeviceFromSqlite id =>
    (s, (if id ∈ s.deviceList then [] else [.storeMutex id]) ++
      if c.found then [.storeDevice id] else [])
  | .addDevice device =>
    (s, if device.id ∈ s.deviceList then
        [.updateDeviceAttr device.id, .dealDeviceTwin device.id .sync device.twin]
      else [.storeMutex device.id, .storeDevice device.id, .addDeviceTrans device])
  | .addDeviceTrans device =>
    (s, if c.committed then
        (if device.twin then [.dealDeviceTwin device.id .sync true] else []) ++
          if device.attributes then [.updateDeviceAttr device.id] else []
      else [.deleteDevice device.id, .unlock device.id])
  | .removeDevice id =>
    (s, if id ∈ s.deviceList then [.deleteDevice id, .deleteMutex id] else [])
  | .getRemoveList ids => (s, (s.deviceList.keys.filter (· ∉ ids)).map .removeDevice)
  | .storeDevice id => ({ s with deviceList := GoSet.add id s.deviceList }, [])
  | .deleteDevice id => ({ s with deviceList := s.deviceList.erase id }, [])
  | .storeMutex id =>
    ({ s with deviceMutex := s.deviceMutex.insert id s.made, made := s.made + 1 }, [])
  | .deleteMutex id => ({ s with deviceMutex := s.deviceMutex.erase id }, [])
  | _ => (s, [])

/-- One operation.  The variable of a handler is the mutex that its `Lock` has acquired. -/
def exec (w : Worker) (c : Choice) (s : Context) (held : Option ℕ) (op : Op) :
    Option (Context × Option ℕ × List Op) :=
  if s.ended then none
  else match op with
    | .lock id =>
      match s.deviceMutex.lookup id with
      | none => some (s, held, [])
      | some m => some (s, held, [.rLock, .mutexLock m])
    | .rLock =>
      if s.waiting ∨ s.writer then none else some ({ s with readers := s.readers + 1 }, held, [])
    | .mutexLock m =>
      match s.locked.lookup m with
      | none => some ({ s with locked := s.locked.insert m w }, some m, [])
      | some _ => none
    | .unlock id =>
      match s.deviceMutex.lookup id with
      | none => some (s, held, [])
      | some m => some (s, held, [.mutexUnlock m, .rUnlock])
    | .mutexUnlock m =>
      match s.locked.lookup m with
      | none => some ({ s with ended := true }, held, [])
      | some _ => some ({ s with locked := s.locked.erase m }, none, [])
    | .rUnlock =>
      if s.readers = 0 then some ({ s with ended := true }, held, [])
      else some ({ s with readers := s.readers - 1 }, held, [])
    | .lockAll =>
      if s.waiting ∨ s.writer then none else some ({ s with waiting := true }, held, [.drain])
    | .drain =>
      if s.readers = 0 then some ({ s with waiting := false, writer := true }, held, []) else none
    | .unlockAll =>
      if s.writer then some ({ s with writer := false }, held, [])
      else some ({ s with ended := true }, held, [])
    | op => some ((follow c s op).1, held, (follow c s op).2)

inductive Handler
  | dealTwinSync (deviceID : GoString)
  | dealTwinUpdate (deviceID : GoString)
  | dealDeviceStateUpdate (deviceID : GoString)
  | dealDeviceAttrUpdate (deviceID : GoString)
  | dealMembershipDetail (devices : List NewDevice)
  | dealMembershipUpdate (addDevices : List NewDevice) (removeDevices : List GoString)

namespace Handler

def worker : Handler → Worker
  | dealTwinSync _ | dealTwinUpdate _ => .twin
  | dealDeviceStateUpdate _ | dealDeviceAttrUpdate _ => .device
  | dealMembershipDetail _ | dealMembershipUpdate _ _ => .membership

/-- A handler from the point where the message has been decoded. -/
def ops : Handler → List Op
  | dealTwinSync id => [.lock id, .dealDeviceTwin id .sync true, .unlock id]
  | dealTwinUpdate id => [.lock id, .updated id, .unlock id]
  | dealDeviceStateUpdate id => [.lock id, .loadDevice id, .unlock id]
  | dealDeviceAttrUpdate id => [.lock id, .updateDeviceAttr id, .unlock id]
  | dealMembershipDetail devices =>
    .lockAll :: ((devices.map .addDevice ++ [.getRemoveList (devices.map NewDevice.id)]) ++
      [.unlockAll])
  | dealMembershipUpdate addDevices removeDevices =>
    addDevices.map .addDevice ++ removeDevices.map .removeDevice

end Handler

abbrev Process := Threads.System Context Worker Op (Option ℕ)

inductive Event
  | receive (handler : Handler)
  | run (w : Worker) (c : Choice)

def step (s : Process) : Event → Option Process
  | .receive handler => Threads.step exec none s (.call handler.worker handler.ops)
  | .run w c => Threads.step exec none s (.next w c)

/-- What is left of a handler. -/
abbrev Run := Thread Op (Option ℕ)

/-- `Unlock` finds the mutex that `Lock` has acquired, or neither finds one, and a mutex is
released by the worker that has locked it. -/
def Releases (s : Context) (w : Worker) (r : Run) : Prop :=
  match r.rest with
  | .unlock id :: _ => s.deviceMutex.lookup id = r.vars
  | .mutexUnlock m :: _ => r.vars = some m ∧ s.locked.lookup m = some w
  | _ => True

def ReleasesOwn (s : Process) : Event → Prop
  | .receive _ => True
  | .run w _ => Releases s.shared w (s.threads w)

/-- Where no handler is running, nobody holds the lock of the context or waits for it. -/
def Quiet (s : Process) : Prop :=
  (∀ w, (s.threads w).rest = []) →
    s.shared.readers = 0 ∧ s.shared.waiting = false ∧ s.shared.writer = false

/-- The handler is inside `DealDeviceTwin` or `UpdateDeviceAttr` for the device. -/
def Inside (s : Process) (w : Worker) (id : GoString) : Prop := Op.returns id ∈ (s.threads w).rest

instance (s : Process) (w : Worker) (id : GoString) : Decidable (Inside s w id) :=
  inferInstanceAs (Decidable (_ ∈ _))

def Exclusive (s : Process) : Prop :=
  ∀ w w' id, Inside s w id → Inside s w' id → w = w'

/-- The handler has called `Lock` for the device, and not yet `Unlock`. -/
def Busy (s : Process) (w : Worker) (id : GoString) : Prop :=
  Op.unlock id ∈ (s.threads w).rest ∧ Op.lock id ∉ (s.threads w).rest

instance (s : Process) (w : Worker) (id : GoString) : Decidable (Busy s w id) :=
  inferInstanceAs (Decidable (_ ∧ _))

/-- The mutex of a device changes only while no handler of the device is under way; a handler of
a device without a mutex is alone with it; the membership deals with twins and attributes of a
device only while no handler of it is under way, or under the lock of the whole context; and
devices are added without a failure. -/
def calm (s : Process) : Event → Bool
  | .receive _ => true
  | .run w c =>
    match (s.threads w).rest with
    | .lock id :: _ =>
      decide ((s.shared.deviceMutex.lookup id).isSome ∨
        ∀ w', w' ≠ w → ¬ Busy s w' id ∧ ¬ Inside s w' id) &&
      decide (Inside s .membership id → s.shared.writer = true)
    | .storeMutex id :: _ | .deleteMutex id :: _ => decide (∀ w', ¬ Busy s w' id)
    | .dealDeviceTwin id _ _ :: _ | .updateDeviceAttr id :: _ =>
      decide (w = .membership → (∀ w', ¬ Busy s w' id) ∨
        s.shared.writer = true ∧ (s.shared.deviceMutex.lookup id).isSome)
    | .addDeviceTrans _ :: _ => c.committed
    | _ => true

/-- All operations but those of the locks. -/
def Op.plain : Op → Bool
  | .lock _ | .rLock | .mutexLock _ | .unlock _ | .mutexUnlock _ | .rUnlock | .lockAll | .drain
  | .unlockAll => false
  | _ => true

/-- The operations that a handler makes between `Lock` and `Unlock` of a device. -/
def Op.about (id : GoString) : Op → Bool
  | .updated i | .dealDeviceTwin i _ _ | .dealMsgTwin i _ | .updateDeviceAttr i | .dealMsgAttr i
  | .syncDeviceFromSqlite i | .returns i | .loadDevice i | .storeDevice i | .storeMutex i => i = id
  | _ => false

variable {op : Op} {held held' : Option ℕ} {ops body rest : List Op} {i id : GoString}
  {handler : Handler} {s s' : Context} {c : Choice} {w : Worker} {reads : Worker → Bool} {r : Run}

theorem plain_of_about (h : op.about id = true) : op.plain = true := by
  cases op <;> first | rfl | cases h

theorem exec_running {x : Context × Option ℕ × List Op} (h : exec w c s held op = some x) :
    ¬ s.ended = true := by
  intro hended
  unfold exec at h
  rw [if_pos hended] at h
  cases h

theorem exec_plain (hop : op.plain = true) (h : exec w c s held op = some (s', held', ops)) :
    s' = (follow c s op).1 ∧ held' = held ∧ ops = (follow c s op).2 := by
  have hended := exec_running h
  unfold exec at h
  rw [if_neg hended] at h
  cases op
  all_goals first
    | exact Bool.noConfusion hop
    | cases h
      exact ⟨rfl, rfl, rfl⟩

theorem follow_about (h : op.about id = true) : ∀ op' ∈ (follow c s op).2, op'.about id = true := by
  cases op
  all_goals first
    | cases h
    | simp only [Op.about, decide_eq_true_eq] at h
      subst h
      simp only [follow]
      try split_ifs
      all_goals simp [Op.about]

theorem follow_plain (hadd : ∀ device, op = .addDeviceTrans device → c.committed = true) :
    ∀ op' ∈ (follow c s op).2, op'.plain = true := by
  cases op with
  | addDeviceTrans device =>
    simp only [follow, hadd device rfl, if_true]
    split_ifs <;> simp [Op.plain]
  | getRemoveList ids =>
    intro op' hop'
    obtain ⟨id, -, rfl⟩ := List.mem_map.mp hop'
    rfl
  | _ =>
    simp only [follow]
    try split_ifs
    all_goals simp [Op.plain]

/-- What operations on the maps leave alone. -/
structure SameLocks (s s' : Context) : Prop where
  locked : s'.locked = s.locked
  readers : s'.readers = s.readers
  waiting : s'.waiting = s.waiting
  writer : s'.writer = s.writer

theorem follow_sameLocks (c : Choice) (s : Context) (op : Op) : SameLocks s (follow c s op).1 := by
  unfold follow
  split <;> try split_ifs
  all_goals exact ⟨rfl, rfl, rfl, rfl⟩

theorem follow_deviceMutex (c : Choice) (s : Context) (op : Op) (id : GoString)
    (hstore : op ≠ .storeMutex id) (hdelete : op ≠ .deleteMutex id) :
    (follow c s op).1.deviceMutex.lookup id = s.deviceMutex.lookup id := by
  cases op with
  | storeMutex i =>
    change (s.deviceMutex.insert i s.made).lookup id = _
    rw [GoMap.lookup_insert, if_neg]
    rintro rfl
    exact hstore rfl
  | deleteMutex i =>
    change (s.deviceMutex.erase i).lookup id = _
    rw [GoMap.lookup_erase, if_neg]
    rintro rfl
    exact hdelete rfl
  | _ =>
    simp only [follow]
    try split_ifs
    all_goals rfl

theorem follow_returns (h : Op.returns id ∈ (follow c s op).2) :
    (∃ d twin, op = .dealDeviceTwin id d twin) ∨ op = .updateDeviceAttr id := by
  cases op with
  | dealDeviceTwin i d twin =>
    simp only [follow] at h
    split_ifs at h <;> simp at h <;> exact .inl ⟨d, twin, by rw [h]⟩
  | updateDeviceAttr i =>
    simp only [follow] at h
    split_ifs at h <;> simp at h <;> exact .inr (by rw [h])
  | _ =>
    simp only [follow] at h
    try split_ifs at h
    all_goals simp at h

/-- The operations between `Lock` and `Unlock`. -/
def Body (id : GoString) (body : List Op) : Prop := ∀ op ∈ body, op.about id = true

/-- The places in a handler for a device, with what is known of the locks there; the flag says
whether it holds the lock of the context. -/
inductive Stage (s : Context) (w : Worker) : Run → Bool → Prop
  | idle : Stage s w ⟨[], none⟩ false
  | start {id : GoString} {body : List Op} (hbody : Body id body) (hnew : .returns id ∉ body) :
      Stage s w ⟨.lock id :: (body ++ [.unlock id]), none⟩ false
  | found {id : GoString} {m : ℕ} {body : List Op} (hbody : Body id body)
      (hnew : .returns id ∉ body) (hm : s.deviceMutex.lookup id = some m) :
      Stage s w ⟨.rLock :: .mutexLock m :: (body ++ [.unlock id]), none⟩ false
  | reading {id : GoString} {m : ℕ} {body : List Op} (hbody : Body id body)
      (hnew : .returns id ∉ body) (hm : s.deviceMutex.lookup id = some m) :
      Stage s w ⟨.mutexLock m :: (body ++ [.unlock id]), none⟩ true
  | locked {id : GoString} {m : ℕ} {body : List Op} (hbody : Body id body)
      (hm : s.deviceMutex.lookup id = some m) (hw : s.locked.lookup m = some w) :
      Stage s w ⟨body ++ [.unlock id], some m⟩ true
  | bare {id : GoString} {body : List Op} (hbody : Body id body)
      (hm : s.deviceMutex.lookup id = none) : Stage s w ⟨body ++ [.unlock id], none⟩ false
  | unlocking {m : ℕ} (hw : s.locked.lookup m = some w) :
      Stage s w ⟨[.mutexUnlock m, .rUnlock], some m⟩ true
  | released : Stage s w ⟨[.rUnlock], none⟩ true

/-- The places in a handler for the membership. -/
inductive Managing (s : Context) : Run → Prop
  | free {ops : List Op} (hops : ∀ op ∈ ops, op.plain = true) (hwaiting : s.waiting = false)
      (hwriter : s.writer = false) : Managing s ⟨ops, none⟩
  | before {ops : List Op} (hops : ∀ op ∈ ops, op.plain = true) (hwaiting : s.waiting = false)
      (hwriter : s.writer = false) : Managing s ⟨.lockAll :: (ops ++ [.unlockAll]), none⟩
  | draining {ops : List Op} (hops : ∀ op ∈ ops, op.plain = true) (hwaiting : s.waiting = true)
      (hwriter : s.writer = false) : Managing s ⟨.drain :: (ops ++ [.unlockAll]), none⟩
  | alone {ops : List Op} (hops : ∀ op ∈ ops, op.plain = true) (hwaiting : s.waiting = false)
      (hwriter : s.writer = true) : Managing s ⟨ops ++ [.unlockAll], none⟩

/-- The handler has called `Lock` for the device and not yet `Unlock`. -/
def BusyRun (r : Run) (id : GoString) : Prop := Op.unlock id ∈ r.rest ∧ Op.lock id ∉ r.rest

theorem notMem_body (hbody : Body id body) (hop : op.about id = false) : op ∉ body := by
  intro hmem
  rw [hbody op hmem] at hop
  cases hop

theorem unlock_mem_body (hbody : Body i body) : Op.unlock id ∈ body ++ [.unlock i] ↔ id = i := by
  have hnot : Op.unlock id ∉ body := notMem_body hbody rfl
  simp [hnot]

theorem busyRun_body (hbody : Body i body) : BusyRun ⟨body ++ [.unlock i], held⟩ id ↔ id = i := by
  have hlock : Op.lock id ∉ body := notMem_body hbody rfl
  simp [BusyRun, unlock_mem_body hbody, hlock]

theorem returns_mem_body (hbody : Body i body) (h : Op.returns id ∈ body ++ [.unlock i]) :
    id = i ∧ Op.returns id ∈ body := by
  have hmem : Op.returns id ∈ body := by simpa using h
  have habout := hbody _ hmem
  simp only [Op.about, decide_eq_true_eq] at habout
  exact ⟨habout, hmem⟩

section

variable {reads : Bool}

theorem Stage.frame (h : Stage s w r reads)
    (hmutex : ∀ id, BusyRun r id → s'.deviceMutex.lookup id = s.deviceMutex.lookup id)
    (hlocked : ∀ m, s.locked.lookup m = some w → s'.locked.lookup m = some w) :
    Stage s' w r reads := by
  have hbusy {id : GoString} {body : List Op} (hbody : Body id body) (held : Option ℕ) :
      BusyRun ⟨body ++ [.unlock id], held⟩ id := (busyRun_body hbody).mpr rfl
  cases h with
  | idle => exact .idle
  | start hbody hnew => exact .start hbody hnew
  | found hbody hnew hm =>
    exact .found hbody hnew ((hmutex _ (by simpa [BusyRun] using hbusy hbody none)).trans hm)
  | reading hbody hnew hm =>
    exact .reading hbody hnew ((hmutex _ (by simpa [BusyRun] using hbusy hbody none)).trans hm)
  | locked hbody hm hw => exact .locked hbody ((hmutex _ (hbusy hbody _)).trans hm) (hlocked _ hw)
  | bare hbody hm => exact .bare hbody ((hmutex _ (hbusy hbody _)).trans hm)
  | unlocking hw => exact .unlocking (hlocked _ hw)
  | released => exact .released

theorem Stage.between (hbody : Body id body) (hm : s.deviceMutex.lookup id = held)
    (hw : ∀ m ∈ held, s.locked.lookup m = some w) :
    Stage s w ⟨body ++ [.unlock id], held⟩ held.isSome := by
  cases held with
  | none => exact .bare hbody hm
  | some m => exact .locked hbody hm (hw m rfl)

theorem Stage.reads_of_idle (h : Stage s w r reads) (hrest : r.rest = []) : reads = false := by
  cases h with
  | idle | bare => rfl
  | locked => simp at hrest
  | start | found | reading | unlocking | released => cases hrest

theorem Managing.of_idle (h : Managing s r) (hrest : r.rest = []) :
    s.waiting = false ∧ s.writer = false := by
  cases h with
  | free hops hwaiting hwriter => exact ⟨hwaiting, hwriter⟩
  | before | draining => cases hrest
  | alone => simp at hrest

/-- Inside, a handler has locked the mutex of the device, or the device has none. -/
theorem Stage.of_inside (h : Stage s w r reads) (hinside : Op.returns id ∈ r.rest) :
    BusyRun r id ∧ (s.deviceMutex.lookup id = none ∨
      ∃ m, s.deviceMutex.lookup id = some m ∧ s.locked.lookup m = some w ∧ reads = true) := by
  cases h with
  | idle | unlocking hw | released => simp at hinside
  | start hbody hnew | found hbody hnew hm | reading hbody hnew hm =>
    obtain ⟨rfl, hmem⟩ := returns_mem_body hbody (by simpa using hinside)
    exact absurd hmem hnew
  | locked hbody hm hw =>
    obtain ⟨rfl, -⟩ := returns_mem_body hbody hinside
    exact ⟨(busyRun_body hbody).mpr rfl, .inr ⟨_, hm, hw, rfl⟩⟩
  | bare hbody hm =>
    obtain ⟨rfl, -⟩ := returns_mem_body hbody hinside
    exact ⟨(busyRun_body hbody).mpr rfl, .inl hm⟩

theorem Managing.not_busy (h : Managing s r) : ¬ BusyRun r id := by
  rintro ⟨hunlock, -⟩
  have hplain : ∀ ops : List Op, (∀ op ∈ ops, op.plain = true) → Op.unlock id ∉ ops := by
    intro ops hops hmem
    cases hops _ hmem
  cases h with
  | free hops => exact hplain _ hops hunlock
  | before hops | draining hops | alone hops => exact hplain _ hops (by simpa using hunlock)

end

theorem Stage.releases {reads : Bool} (h : Stage s w r reads) : Releases s w r := by
  have hunlock : ∀ id i rest body, Body i body → body ++ [.unlock i] = Op.unlock id :: rest →
      id = i := by
    intro id i rest body hbody hrest
    exact (unlock_mem_body hbody).mp (by simp [hrest])
  have hmutex : ∀ m i rest body, Body i body → body ++ [.unlock i] ≠ Op.mutexUnlock m :: rest := by
    intro m i rest body hbody hrest
    have hmem : Op.mutexUnlock m ∈ body ++ [.unlock i] := by simp [hrest]
    have hnot : Op.mutexUnlock m ∉ body := notMem_body hbody rfl
    exact hnot (by simpa using hmem)
  unfold Releases
  split
  · rename_i id rest hrest
    cases h with
    | idle | start | found | reading | unlocking | released => cases hrest
    | locked hbody hm | bare hbody hm =>
      rw [hunlock _ _ _ _ hbody hrest]
      exact hm
  · rename_i m rest hrest
    cases h with
    | idle | start | found | reading | released => cases hrest
    | locked hbody | bare hbody => exact absurd hrest (hmutex _ _ _ _ hbody)
    | unlocking hw =>
      cases hrest
      exact ⟨rfl, hw⟩
  · trivial

theorem Managing.head (h : Managing s r) (hrest : r.rest = op :: rest) :
    op.plain = true ∨ op = .lockAll ∨ op = .drain ∨ op = .unlockAll := by
  cases h with
  | free hops =>
    cases hrest
    exact .inl (hops op (.head _))
  | before => exact .inr (.inl (List.cons.inj hrest).1.symm)
  | draining => exact .inr (.inr (.inl (List.cons.inj hrest).1.symm))
  | @alone ops hops =>
    have hmem : op ∈ ops ++ [.unlockAll] := by
      rw [show ops ++ [.unlockAll] = op :: rest from hrest]
      exact .head _
    rcases List.mem_append.mp hmem with hmem | hmem
    · exact .inl (hops op hmem)
    · exact .inr (.inr (.inr (List.mem_singleton.mp hmem)))

theorem Managing.releases (h : Managing s r) : Releases s .membership r := by
  unfold Releases
  split
  · rename_i hrest
    simpa [Op.plain] using h.head hrest
  · rename_i hrest
    simpa [Op.plain] using h.head hrest
  · trivial

/-- What an operation of a handler for a device leaves to the others. -/
structure Turn (s s' : Context) (w : Worker) (r r' : Run) (reads reads' : Bool) : Prop where
  readers : s'.readers + reads.toNat = s.readers + reads'.toNat
  waiting : s'.waiting = s.waiting
  writer : s'.writer = s.writer
  reads : reads = false → reads' = true → s.writer = false
  deviceMutex : ∀ id, s'.deviceMutex.lookup id = s.deviceMutex.lookup id
  locked : ∀ w' m, w' ≠ w → s.locked.lookup m = some w' → s'.locked.lookup m = some w'
  busy : ∀ id, BusyRun r' id → BusyRun r id ∨ r.rest.head? = some (.lock id)

theorem body_turn (reads : Bool) (hbody : Body id (op :: body))
    (hmutex : ∀ i, op = .storeMutex i → ¬ BusyRun ⟨op :: (body ++ [.unlock id]), held⟩ i) :
    Body id ((follow c s op).2 ++ body) ∧
      Turn s (follow c s op).1 w ⟨op :: (body ++ [.unlock id]), held⟩
        ⟨(follow c s op).2 ++ (body ++ [.unlock id]), held⟩ reads reads := by
  obtain ⟨hop, hrest⟩ := List.forall_mem_cons.mp hbody
  have hnew : Body id ((follow c s op).2 ++ body) :=
    List.forall_mem_append.mpr ⟨follow_about hop, hrest⟩
  have hsame := follow_sameLocks c s op
  have hbusy (i : GoString) : BusyRun ⟨op :: (body ++ [.unlock id]), held⟩ i ↔ i = id :=
    busyRun_body hbody
  refine ⟨hnew, ?_, hsame.waiting, hsame.writer, ?_, ?_, ?_, ?_⟩
  · rw [hsame.readers]
  · intro hfalse htrue
    rw [hfalse] at htrue
    cases htrue
  · intro i
    apply follow_deviceMutex
    · rintro rfl
      simp only [Op.about, decide_eq_true_eq] at hop
      exact hmutex i rfl ((hbusy i).mpr hop)
    · rintro rfl
      cases hop
  · intro w' m _ h
    rw [hsame.locked]
    exact h
  · intro i hi
    rw [← List.append_assoc, busyRun_body hnew] at hi
    exact .inl ((hbusy i).mpr hi)

theorem between_next (hbody : Body id (op :: body)) (hm : s.deviceMutex.lookup id = held)
    (hw : ∀ m ∈ held, s.locked.lookup m = some w)
    (hexec : exec w c s held op = some (s', held', ops))
    (hmutex : ∀ i, op = .storeMutex i → ¬ BusyRun ⟨op :: (body ++ [.unlock id]), held⟩ i) :
    ∃ reads', Stage s' w ⟨ops ++ (body ++ [.unlock id]), held'⟩ reads' ∧
      Turn s s' w ⟨op :: (body ++ [.unlock id]), held⟩ ⟨ops ++ (body ++ [.unlock id]), held'⟩
        held.isSome reads' := by
  obtain ⟨rfl, rfl, rfl⟩ := exec_plain (plain_of_about (hbody op (.head _))) hexec
  obtain ⟨hnew, hturn⟩ := body_turn held'.isSome hbody hmutex
  refine ⟨held'.isSome, ?_, hturn⟩
  rw [← List.append_assoc]
  refine .between hnew ((hturn.deviceMutex id).trans hm) ?_
  rw [(follow_sameLocks c s op).locked]
  exact hw

theorem stage_next {reads : Bool} (h : Stage s w r reads) (hrest : r.rest = op :: rest)
    (hexec : exec w c s r.vars op = some (s', held', ops))
    (hmutex : ∀ i, op = .storeMutex i → ¬ BusyRun r i) (hreaders : reads = true → s.readers ≠ 0) :
    ∃ reads', Stage s' w ⟨ops ++ rest, held'⟩ reads' ∧
      Turn s s' w r ⟨ops ++ rest, held'⟩ reads reads' := by
  have hended := exec_running hexec
  cases h with
  | idle => cases hrest
  | @start id body hbody hnew =>
    cases hrest
    simp only [exec, if_neg hended] at hexec
    have hturn : ∀ ops held', (∀ i, BusyRun ⟨ops ++ (body ++ [.unlock id]), held'⟩ i → i = id) →
        Turn s s w ⟨.lock id :: (body ++ [.unlock id]), none⟩
          ⟨ops ++ (body ++ [.unlock id]), held'⟩ false false := by
      intro ops held' hbusy
      exact ⟨rfl, rfl, rfl, by simp, fun _ => rfl, fun _ _ _ h => h,
        fun i hi => .inr (by rw [hbusy i hi]; rfl)⟩
    cases hm : s.deviceMutex.lookup id with
    | none =>
      rw [hm] at hexec
      cases hexec
      exact ⟨false, .bare hbody hm, hturn [] none fun i hi => (unlock_mem_body hbody).mp hi.1⟩
    | some m =>
      rw [hm] at hexec
      cases hexec
      refine ⟨false, .found hbody hnew hm, hturn [.rLock, .mutexLock m] none ?_⟩
      intro i hi
      exact (unlock_mem_body hbody).mp (by simpa using hi.1)
  | @found id m body hbody hnew hm =>
    cases hrest
    simp only [exec, if_neg hended] at hexec
    split_ifs at hexec with hfree
    cases hexec
    rw [not_or, Bool.not_eq_true, Bool.not_eq_true] at hfree
    refine ⟨true, .reading hbody hnew hm, rfl, rfl, rfl, fun _ _ => hfree.2, fun _ => rfl,
      fun _ _ _ h => h, fun i hi => .inl (by simpa [BusyRun] using hi)⟩
  | @reading id m body hbody hnew hm =>
    cases hrest
    simp only [exec, if_neg hended] at hexec
    cases hlocked : s.locked.lookup m with
    | some w' =>
      rw [hlocked] at hexec
      cases hexec
    | none =>
      rw [hlocked] at hexec
      cases hexec
      refine ⟨true, .locked hbody hm ?_, rfl, rfl, rfl, by simp, fun _ => rfl, ?_, ?_⟩
      · change (s.locked.insert m w).lookup m = some w
        rw [GoMap.lookup_insert, if_pos rfl]
      · intro w' m' _ h
        rw [GoMap.lookup_insert, if_neg]
        · exact h
        · rintro rfl
          rw [hlocked] at h
          cases h
      · exact fun i hi => .inl (by simpa [BusyRun] using hi)
  | @locked id m body hbody hm hw =>
    cases body with
    | nil =>
      cases hrest
      simp only [exec, if_neg hended, hm] at hexec
      cases hexec
      refine ⟨true, .unlocking hw, rfl, rfl, rfl, by simp, fun _ => rfl, fun _ _ _ h => h, ?_⟩
      intro i hi
      simpa using hi.1
    | cons b body =>
      cases hrest
      exact between_next hbody hm (by simpa using hw) hexec hmutex
  | @bare id body hbody hm =>
    cases body with
    | nil =>
      cases hrest
      simp only [exec, if_neg hended, hm] at hexec
      cases hexec
      refine ⟨false, .idle, rfl, rfl, rfl, by simp, fun _ => rfl, fun _ _ _ h => h, ?_⟩
      intro i hi
      simpa using hi.1
    | cons b body =>
      cases hrest
      exact between_next hbody hm (by simp) hexec hmutex
  | @unlocking m hw =>
    cases hrest
    simp only [exec, if_neg hended, hw] at hexec
    cases hexec
    refine ⟨true, .released, rfl, rfl, rfl, by simp, fun _ => rfl, ?_, ?_⟩
    · intro w' m' hne h
      rw [GoMap.lookup_erase, if_neg]
      · exact h
      · rintro rfl
        rw [hw] at h
        exact hne (Option.some_inj.mp h).symm
    · intro i hi
      simpa using hi.1
  | released =>
    cases hrest
    have hsome := hreaders rfl
    simp only [exec, if_neg hended, if_neg hsome] at hexec
    cases hexec
    refine ⟨false, .idle, ?_, rfl, rfl, by simp, fun _ => rfl, fun _ _ _ h => h, ?_⟩
    · change s.readers - 1 + 1 = s.readers + 0
      omega
    · intro i hi
      simpa using hi.1

/-- What an operation of a handler for the membership leaves to the others. -/
structure ManagingTurn (s s' : Context) (op : Op) (r r' : Run) : Prop where
  readers : s'.readers = s.readers
  locked : s'.locked = s.locked
  writer : s'.writer = true → s.writer = true ∨ s.readers = 0
  deviceMutex : ∀ id, op ≠ .storeMutex id → op ≠ .deleteMutex id →
    s'.deviceMutex.lookup id = s.deviceMutex.lookup id
  inside : ∀ id, Op.returns id ∈ r'.rest → (s.writer = true → s'.writer = true) ∧
    (Op.returns id ∈ r.rest ∨ (∃ d twin, op = .dealDeviceTwin id d twin) ∨
      op = .updateDeviceAttr id)

theorem plain_turn :
    ManagingTurn s (follow c s op).1 op ⟨op :: rest, none⟩ ⟨(follow c s op).2 ++ rest, none⟩ := by
  have hsame := follow_sameLocks c s op
  refine ⟨hsame.readers, hsame.locked, ?_, follow_deviceMutex c s op, ?_⟩
  · rw [hsame.writer]
    exact .inl
  · intro id hid
    refine ⟨fun h => hsame.writer.trans h, ?_⟩
    rcases List.mem_append.mp hid with hid | hid
    · exact .inr (follow_returns hid)
    · exact .inl (.tail _ hid)

theorem managing_next (h : Managing s r) (hrest : r.rest = op :: rest)
    (hexec : exec .membership c s r.vars op = some (s', held', ops))
    (hadd : ∀ device, op = .addDeviceTrans device → c.committed = true) :
    Managing s' ⟨ops ++ rest, held'⟩ ∧ ManagingTurn s s' op r ⟨ops ++ rest, held'⟩ := by
  have hended := exec_running hexec
  -- the operations of a list of plain ones go on with plain ones
  have hfollow : ∀ ops : List Op, (∀ op' ∈ op :: ops, op'.plain = true) →
      ∀ op' ∈ (follow c s op).2 ++ ops, op'.plain = true := by
    intro ops hops
    exact List.forall_mem_append.mpr ⟨follow_plain hadd, (List.forall_mem_cons.mp hops).2⟩
  have hsame := follow_sameLocks c s op
  cases h with
  | free hops hwaiting hwriter =>
    cases hrest
    obtain ⟨rfl, rfl, rfl⟩ := exec_plain (hops op (.head _)) hexec
    exact ⟨.free (hfollow rest hops) (hsame.waiting.trans hwaiting) (hsame.writer.trans hwriter),
      plain_turn⟩
  | before hops hwaiting hwriter =>
    cases hrest
    have hfree : ¬ (s.waiting = true ∨ s.writer = true) := by simp [hwaiting, hwriter]
    simp only [exec, if_neg hended, if_neg hfree] at hexec
    cases hexec
    refine ⟨.draining hops rfl hwriter, rfl, rfl, .inl, fun _ _ _ => rfl, ?_⟩
    intro id hid
    exact ⟨fun h => h, .inl (by simpa using hid)⟩
  | draining hops hwaiting hwriter =>
    cases hrest
    simp only [exec, if_neg hended] at hexec
    split_ifs at hexec with hreaders
    cases hexec
    refine ⟨.alone hops rfl rfl, rfl, rfl, fun _ => .inr hreaders, fun _ _ _ => rfl, ?_⟩
    intro id hid
    exact ⟨fun _ => rfl, .inl (by simpa using hid)⟩
  | @alone ops' hops hwaiting hwriter =>
    cases ops' with
    | nil =>
      cases hrest
      simp only [exec, if_neg hended, if_pos hwriter] at hexec
      cases hexec
      refine ⟨.free (by simp) hwaiting rfl, rfl, rfl, Bool.noConfusion, fun _ _ _ => rfl, ?_⟩
      intro id hid
      simp at hid
    | cons op' ops' =>
      simp only [List.cons_append, List.cons.injEq] at hrest
      obtain ⟨rfl, rfl⟩ := hrest
      obtain ⟨rfl, rfl, rfl⟩ := exec_plain (hops op' (.head _)) hexec
      refine ⟨?_, plain_turn⟩
      rw [← List.append_assoc]
      exact .alone (hfollow ops' hops) (hsame.waiting.trans hwaiting) (hsame.writer.trans hwriter)

/-- How many of the handlers for devices hold the lock of the context. -/
def holding (reads : Worker → Bool) : ℕ := (reads .twin).toNat + (reads .device).toNat

structure Orderly (s : Process) (reads : Worker → Bool) : Prop where
  stage : ∀ w, w ≠ .membership → Stage s.shared w (s.threads w) (reads w)
  managing : Managing s.shared (s.threads .membership)
  readers : s.shared.readers = holding reads
  writer : s.shared.writer = true → s.shared.readers = 0
  /-- Where another worker is at the same device, the device has a mutex; if it is the membership,
  it has the whole context. -/
  apart : ∀ w w' id, w ≠ .membership → w' ≠ w → Busy s w id → Busy s w' id ∨ Inside s w' id →
    (s.shared.deviceMutex.lookup id).isSome = true ∧
      (w' = .membership → s.shared.writer = true)

theorem holding_of_reads (hw : w ≠ .membership) (h : reads w = true) : holding reads ≠ 0 := by
  unfold holding
  cases w with
  | twin | device => simp [h]
  | membership => exact absurd rfl hw

theorem holding_update (reads : Worker → Bool) (hw : w ≠ .membership) (b : Bool) :
    holding (Function.update reads w b) + (reads w).toNat = holding reads + b.toNat := by
  unfold holding
  cases w with
  | twin | device =>
    rw [Function.update_self, Function.update_of_ne (by decide)]
    omega
  | membership => exact absurd rfl hw

section

variable {s : Process} (h : Orderly s reads)
include h

theorem Orderly.exclusive : Exclusive s := by
  -- one of two different workers is not that of the membership
  have hlocking : ∀ w w' id, w ≠ .membership → w' ≠ w → Inside s w id → Inside s w' id → False := by
    intro w w' id hw hne hinside hinside'
    obtain ⟨hbusy, hmutex⟩ := (h.stage w hw).of_inside hinside
    obtain ⟨hsome, halone⟩ := h.apart w w' id hw hne hbusy (.inr hinside')
    rcases hmutex with hnone | ⟨m, hm, hlocked, hreads⟩
    · rw [hnone] at hsome
      cases hsome
    · by_cases hw' : w' = .membership
      · have hreaders := h.writer (halone hw')
        rw [h.readers] at hreaders
        exact holding_of_reads hw hreads hreaders
      · obtain ⟨-, hnone | ⟨m', hm', hlocked', -⟩⟩ := (h.stage w' hw').of_inside hinside'
        · rw [hnone] at hm
          cases hm
        · rw [hm] at hm'
          cases hm'
          rw [hlocked] at hlocked'
          exact hne (Option.some_inj.mp hlocked').symm
  intro w w' id hinside hinside'
  by_contra hne
  by_cases hw : w = .membership
  · have hw' : w' ≠ .membership := fun h => hne (hw.trans h.symm)
    exact hlocking w' w id hw' hne hinside' hinside
  · exact hlocking w w' id hw (fun h => hne h.symm) hinside hinside'

theorem Orderly.quiet : Quiet s := by
  intro hidle
  have hreads : ∀ w, w ≠ .membership → reads w = false :=
    fun w hw => (h.stage w hw).reads_of_idle (hidle w)
  refine ⟨?_, h.managing.of_idle (hidle .membership)⟩
  rw [h.readers, holding, hreads .twin (by decide), hreads .device (by decide)]
  rfl

theorem Orderly.releasesOwn (e : Event) : ReleasesOwn s e := by
  cases e with
  | receive handler => trivial
  | run w c =>
    by_cases hw : w = .membership
    · subst hw
      exact h.managing.releases
    · exact (h.stage w hw).releases

end

theorem ops_stage (hw : handler.worker ≠ .membership) (s : Context) (w : Worker) :
    Stage s w ⟨handler.ops, none⟩ false := by
  have hstart {id : GoString} {op : Op} (habout : op.about id = true) (hnew : Op.returns id ≠ op) :
      Stage s w ⟨[.lock id, op, .unlock id], none⟩ false := by
    have hbody : Body id [op] := by simpa [Body] using habout
    exact .start hbody (by simpa using hnew)
  cases handler with
  | dealTwinSync id | dealTwinUpdate id | dealDeviceStateUpdate id | dealDeviceAttrUpdate id =>
    exact hstart (by simp [Op.about]) (by simp)
  | dealMembershipDetail devices | dealMembershipUpdate addDevices removeDevices =>
    exact absurd rfl hw

theorem ops_managing (hw : handler.worker = .membership) (hwaiting : s.waiting = false)
    (hwriter : s.writer = false) :
    Managing s ⟨handler.ops, none⟩ := by
  cases handler with
  | dealMembershipDetail devices =>
    have hops : ∀ op ∈ devices.map Op.addDevice ++ [.getRemoveList (devices.map NewDevice.id)],
        op.plain = true := by
      intro op hop
      simp only [List.mem_append, List.mem_map, List.mem_singleton] at hop
      rcases hop with ⟨device, -, rfl⟩ | rfl <;> rfl
    exact .before hops hwaiting hwriter
  | dealMembershipUpdate addDevices removeDevices =>
    have hops : ∀ op ∈ addDevices.map Op.addDevice ++ removeDevices.map .removeDevice,
        op.plain = true := by
      intro op hop
      simp only [List.mem_append, List.mem_map] at hop
      rcases hop with ⟨device, -, rfl⟩ | ⟨id, -, rfl⟩ <;> rfl
    exact .free hops hwaiting hwriter
  | _ => cases hw

theorem ops_apart (handler : Handler) (id : GoString) :
    ¬ BusyRun ⟨handler.ops, none⟩ id ∧ Op.returns id ∉ handler.ops := by
  cases handler <;> simp +contextual [BusyRun, Handler.ops]

section

variable {s : Process} {shared : Context}

theorem busy_update {w' : Worker} :
    Busy ⟨shared, Function.update s.threads w r⟩ w' id ↔
      if w' = w then BusyRun r id else Busy s w' id := by
  unfold Busy BusyRun
  by_cases h : w' = w
  · subst h
    simp
  · simp [h]

theorem inside_update {w' : Worker} :
    Inside ⟨shared, Function.update s.threads w r⟩ w' id ↔
      if w' = w then Op.returns id ∈ r.rest else Inside s w' id := by
  unfold Inside
  by_cases h : w' = w
  · subst h
    simp
  · simp [h]

end

theorem receive_orderly {s s' : Process} (h : Orderly s reads)
    (hstep : step s (.receive handler) = some s') :
    ∃ reads', Orderly s' reads' := by
  have hcall : Threads.step exec none s (.call handler.worker handler.ops) = some s' := hstep
  obtain ⟨hidle, rfl⟩ := step_call hcall
  obtain ⟨hbusy, hinside⟩ := forall_and.mp (ops_apart handler)
  refine ⟨reads, ⟨?_, ?_, h.readers, h.writer, ?_⟩⟩
  · intro w hw
    by_cases hw' : w = handler.worker
    · subst hw'
      -- before, it was idle
      have hreads := (h.stage _ hw).reads_of_idle hidle
      simp only [Function.update_self, hreads]
      exact ops_stage hw s.shared _
    · simp only [Function.update_of_ne hw']
      exact h.stage w hw
  · by_cases hw : handler.worker = .membership
    · rw [hw] at hidle ⊢
      obtain ⟨hwaiting, hwriter⟩ := h.managing.of_idle hidle
      exact ops_managing hw hwaiting hwriter
    · simp only [Function.update_of_ne (Ne.symm hw)]
      exact h.managing
  · intro w w' id hw hne hbusyw hother
    rw [busy_update] at hbusyw hother
    rw [inside_update] at hother
    by_cases hw₁ : w = handler.worker
    · rw [if_pos hw₁] at hbusyw
      exact absurd hbusyw (hbusy id)
    · rw [if_neg hw₁] at hbusyw
      by_cases hw₂ : w' = handler.worker
      · rw [if_pos hw₂, if_pos hw₂] at hother
        rcases hother with hother | hother
        · exact absurd hother (hbusy id)
        · exact absurd hother (hinside id)
      · rw [if_neg hw₂, if_neg hw₂] at hother
        exact h.apart w w' id hw hne hbusyw hother

theorem Managing.frame (h : Managing s r) (hwaiting : s'.waiting = s.waiting)
    (hwriter : s'.writer = s.writer) : Managing s' r := by
  cases h with
  | free hops h₁ h₂ => exact .free hops (hwaiting.trans h₁) (hwriter.trans h₂)
  | before hops h₁ h₂ => exact .before hops (hwaiting.trans h₁) (hwriter.trans h₂)
  | draining hops h₁ h₂ => exact .draining hops (hwaiting.trans h₁) (hwriter.trans h₂)
  | alone hops h₁ h₂ => exact .alone hops (hwaiting.trans h₁) (hwriter.trans h₂)

section

variable {s s' : Process} (h : Orderly s reads) (hcalm : calm s (.run w c) = true)
include hcalm

theorem calm_mutex (hrest : (s.threads w).rest = op :: rest)
    (hop : op = .storeMutex id ∨ op = .deleteMutex id) (w' : Worker) :
    ¬ Busy s w' id := by
  have hall : ∀ w', ¬ Busy s w' id := by
    rcases hop with rfl | rfl <;> simpa [calm, hrest] using hcalm
  exact hall w'

theorem calm_lock (hrest : (s.threads w).rest = .lock id :: rest) :
    ((s.shared.deviceMutex.lookup id).isSome = true ∨
        ∀ w', w' ≠ w → ¬ Busy s w' id ∧ ¬ Inside s w' id) ∧
      (Inside s .membership id → s.shared.writer = true) := by
  simpa only [calm, hrest, Bool.and_eq_true, decide_eq_true_eq] using hcalm

theorem calm_deal (id : GoString) (hw : w = .membership) (hrest : (s.threads w).rest = op :: rest)
    (hop : (∃ d twin, op = .dealDeviceTwin id d twin) ∨ op = .updateDeviceAttr id) :
    (∀ w', ¬ Busy s w' id) ∨
      s.shared.writer = true ∧ (s.shared.deviceMutex.lookup id).isSome = true := by
  rcases hop with ⟨d, twin, rfl⟩ | rfl
  all_goals
    simp only [calm, hrest, decide_eq_true_eq] at hcalm
    exact hcalm hw

include h

theorem run_device_orderly (hw : w ≠ .membership) (hstep : step s (.run w c) = some s') :
    ∃ reads', Orderly s' reads' := by
  have hnext : Threads.step exec none s (.next w c) = some s' := hstep
  obtain ⟨op, rest, shared, held, ops, hthread, hexec, rfl⟩ := step_next hnext
  have hrest : (s.threads w).rest = op :: rest := by rw [hthread]
  have hreaders : reads w = true → s.shared.readers ≠ 0 := by
    rw [h.readers]
    exact holding_of_reads hw
  obtain ⟨b, hstage, hturn⟩ := stage_next (h.stage w hw) hrest hexec
    (fun i hop => calm_mutex hcalm hrest (.inl hop) w) hreaders
  -- the worker is at a device it was at, or calls `Lock` for it
  have hat : ∀ id, BusyRun ⟨ops ++ rest, held⟩ id ∨ Op.returns id ∈ ops ++ rest →
      Busy s w id ∨ op = .lock id := by
    intro id hid
    have hbusy : BusyRun ⟨ops ++ rest, held⟩ id := by
      rcases hid with hid | hid
      · exact hid
      · exact (hstage.of_inside hid).1
    rcases hturn.busy id hbusy with hold | hlock
    · exact .inl hold
    · rw [hrest] at hlock
      exact .inr (Option.some_inj.mp hlock)
  refine ⟨Function.update reads w b, ⟨?_, ?_, ?_, ?_, ?_⟩⟩
  · intro w' hw'
    by_cases heq : w' = w
    · subst heq
      simp only [Function.update_self]
      exact hstage
    · simp only [Function.update_of_ne heq]
      exact (h.stage w' hw').frame (fun id _ => hturn.deviceMutex id)
        (fun m hm => hturn.locked w' m heq hm)
  · simp only [Function.update_of_ne (Ne.symm hw)]
    exact h.managing.frame hturn.waiting hturn.writer
  · have hcount := hturn.readers
    have hupdate := holding_update reads hw b
    rw [h.readers] at hcount
    change shared.readers = _
    omega
  · intro hwriter
    have hbefore := h.writer (hturn.writer ▸ hwriter)
    change shared.readers = 0
    have hcount := hturn.readers
    -- while there is a writer nobody begins to read
    have hreads : reads w = true ∨ b = false := by
      by_contra hnot
      rw [not_or, Bool.not_eq_true, Bool.not_eq_false] at hnot
      rw [hturn.writer, hturn.reads hnot.1 hnot.2] at hwriter
      cases hwriter
    rcases hreads with hreads | hreads
    · exact absurd hbefore (hreaders hreads)
    · rw [hreads, hbefore] at hcount
      simp only [Bool.toNat_false] at hcount
      omega
  · intro w₁ w₂ id hw₁ hne hbusy hother
    rw [busy_update] at hbusy hother
    rw [inside_update] at hother
    rw [hturn.deviceMutex id, hturn.writer]
    by_cases heq₁ : w₁ = w
    · subst heq₁
      rw [if_pos rfl] at hbusy
      rw [if_neg hne, if_neg hne] at hother
      rcases hat id (.inl hbusy) with hold | rfl
      · exact h.apart _ _ id hw hne hold hother
      · obtain ⟨hmutex, hwriter⟩ := calm_lock hcalm hrest
        constructor
        · rcases hmutex with hsome | hnobody
          · exact hsome
          · rcases hother with hother | hother
            · exact absurd hother (hnobody w₂ hne).1
            · exact absurd hother (hnobody w₂ hne).2
        · rintro rfl
          rcases hother with hother | hother
          · exact absurd hother h.managing.not_busy
          · exact hwriter hother
    · rw [if_neg heq₁] at hbusy
      by_cases heq₂ : w₂ = w
      · subst heq₂
        rw [if_pos rfl, if_pos rfl] at hother
        rcases hat id hother with hold | rfl
        · exact h.apart _ _ id hw₁ hne hbusy (.inl hold)
        · refine ⟨?_, fun hmembership => absurd hmembership hw⟩
          rcases (calm_lock hcalm hrest).1 with hsome | hnobody
          · exact hsome
          · exact absurd hbusy (hnobody w₁ heq₁).1
      · rw [if_neg heq₂, if_neg heq₂] at hother
        exact h.apart _ _ id hw₁ hne hbusy hother

theorem run_membership_orderly (hw : w = .membership) (hstep : step s (.run w c) = some s') :
    ∃ reads', Orderly s' reads' := by
  have hnext : Threads.step exec none s (.next w c) = some s' := hstep
  obtain ⟨op, rest, shared, held, ops, hthread, hexec, rfl⟩ := step_next hnext
  have hrest : (s.threads w).rest = op :: rest := by rw [hthread]
  have hadd : ∀ device, op = .addDeviceTrans device → c.committed = true := by
    rintro device rfl
    simpa [calm, hrest] using hcalm
  have hmutex : ∀ w' id, Busy s w' id →
      op ≠ .storeMutex id ∧ op ≠ .deleteMutex id := by
    intro w' id hbusy
    exact ⟨fun hop => calm_mutex hcalm hrest (.inl hop) w' hbusy,
      fun hop => calm_mutex hcalm hrest (.inr hop) w' hbusy⟩
  have hdeal := fun id => calm_deal hcalm id hw hrest
  subst hw
  obtain ⟨hmanaging, hturn⟩ := managing_next h.managing hrest hexec hadd
  refine ⟨reads, ⟨?_, ?_, ?_, ?_, ?_⟩⟩
  · intro w' hw'
    simp only [Function.update_of_ne hw']
    apply (h.stage w' hw').frame
    · intro id hbusy
      obtain ⟨hstore, hdelete⟩ := hmutex w' id hbusy
      exact hturn.deviceMutex id hstore hdelete
    · intro m hm
      rw [hturn.locked]
      exact hm
  · simp only [Function.update_self]
    exact hmanaging
  · exact hturn.readers.trans h.readers
  · intro hwriter
    rw [hturn.readers]
    rcases hturn.writer hwriter with hbefore | hnobody
    · exact h.writer hbefore
    · exact hnobody
  · intro w₁ w₂ id hw₁ hne hbusy hother
    rw [busy_update, if_neg hw₁] at hbusy
    rw [busy_update, inside_update] at hother
    obtain ⟨hstore, hdelete⟩ := hmutex w₁ id hbusy
    rw [hturn.deviceMutex id hstore hdelete]
    by_cases hw₂ : w₂ = .membership
    · subst hw₂
      have hinside : Op.returns id ∈ ops ++ rest := by
        rcases hother with hother | hother
        · exact absurd hother hmanaging.not_busy
        · exact hother
      obtain ⟨hkeeps, hold | hop⟩ := hturn.inside id hinside
      · obtain ⟨hsome, hwriter⟩ := h.apart w₁ .membership id hw₁ hne hbusy (.inr hold)
        exact ⟨hsome, fun _ => hkeeps (hwriter rfl)⟩
      · rcases hdeal id hop with hnobody | ⟨hwriter, hsome⟩
        · exact absurd hbusy (hnobody w₁)
        · exact ⟨hsome, fun _ => hkeeps hwriter⟩
    · rw [if_neg hw₂, if_neg hw₂] at hother
      exact ⟨(h.apart w₁ w₂ id hw₁ hne hbusy hother).1, fun hmembership => absurd hmembership hw₂⟩

end

theorem step_orderly {s s' : Process} {e : Event} (h : Orderly s reads) (hcalm : calm s e = true)
    (hstep : step s e = some s') : ∃ reads', Orderly s' reads' := by
  cases e with
  | receive handler => exact receive_orderly h hstep
  | run w c =>
    by_cases hw : w = .membership
    · exact run_membership_orderly h hcalm hw hstep
    · exact run_device_orderly h hcalm hw hstep

/-- No handler is running, and nobody holds the lock of the context. -/
structure Resting (s : Process) : Prop where
  threads : ∀ w, s.threads w = ⟨[], none⟩
  readers : s.shared.readers = 0
  waiting : s.shared.waiting = false
  writer : s.shared.writer = false

theorem Resting.orderly {s : Process} (h : Resting s) : Orderly s fun _ => false := by
  refine ⟨?_, ?_, h.readers, fun _ => h.readers, ?_⟩
  · intro w hw
    rw [h.threads]
    exact .idle
  · rw [h.threads]
    exact Managing.free (by simp) h.waiting h.writer
  · intro w w' id hw hne hbusy
    simp [Busy, h.threads] at hbusy

/-- In every interleaving of the workers in which the mutexes stay while they are used, a handler
releases the mutex that it has acquired, the lock of the context is free whenever no handler is
running, and two handlers are never at the twins and attributes of one device. -/
theorem lock_discipline (s : Process) (hs : Resting s) (es : List Event)
    (hcalm : Along step (fun s e => calm s e = true) s es) :
    Along step ReleasesOwn s es ∧ Always step (fun s => Quiet s ∧ Exclusive s) s es := by
  have hstart : ∃ reads, Orderly s reads := ⟨_, hs.orderly⟩
  constructor
  · refine along_of_along (I := fun s => ∃ reads, Orderly s reads) ?_ hstart hcalm
    rintro s e s' ⟨reads, h⟩ hcalm hstep
    exact ⟨step_orderly h hcalm hstep, h.releasesOwn e⟩
  · have hall : Always step (fun s => ∃ reads, Orderly s reads) s es := by
      refine always_of_along ?_ hstart hcalm
      rintro s e s' ⟨reads, h⟩ hcalm hstep
      exact step_orderly h hcalm hstep
    apply hall.mono
    rintro s ⟨reads, h⟩
    exact ⟨h.quiet, h.exclusive⟩

/-- A device with its mutex, and nothing to do. -/
def oneDevice : Process where
  shared :=
    { deviceList := GoSet.add (str "d") ∅, deviceMutex := AList.insert (str "d") 0 ∅, made := 1 }
  threads := fun _ => ⟨[], none⟩

theorem oneDevice_resting : Resting oneDevice where
  threads _ := rfl
  readers := rfl
  waiting := rfl
  writer := rfl

def left (s : Process) : List Op × List Op × List Op :=
  ((s.threads .twin).rest, (s.threads .device).rest, (s.threads .membership).rest)

/-- The first handler holds the mutex while the second waits for it, and the third for both. -/
def threeHandlers : List Event :=
  ([.receive (.dealTwinSync (str "d")), .receive (.dealDeviceAttrUpdate (str "d")),
    .receive (.dealMembershipDetail [{ id := str "d" }])] : List Event) ++
  (([.twin, .twin, .device, .device, .twin, .membership] : List Worker) ++
    List.replicate 7 Worker.twin ++ List.replicate 7 Worker.device ++
    List.replicate 11 Worker.membership).map (Event.run · {})

theorem lock_discipline_threeHandlers :
    (run step oneDevice threeHandlers).map left = some ([], [], []) ∧
      Along step ReleasesOwn oneDevice threeHandlers ∧
        Always step (fun s => Quiet s ∧ Exclusive s) oneDevice threeHandlers := by
  refine ⟨by decide +kernel, lock_discipline oneDevice oneDevice_resting threeHandlers ?_⟩
  apply along_of_check (p := calm) (by simp)
  decide +kernel

/-- The device is removed while the twin worker holds its mutex. -/
def removedUnderLock : List Event :=
  .receive (.dealTwinSync (str "d")) :: List.replicate 3 (Event.run Worker.twin {}) ++
  .receive (.dealMembershipUpdate [] [str "d"]) ::
    List.replicate 3 (Event.run Worker.membership {}) ++ List.replicate 2 (Event.run Worker.twin {})

/-- The device is sent again while the twin worker holds its mutex. -/
def addedUnderLock : List Event :=
  .receive (.dealTwinSync (str "d")) :: List.replicate 4 (Event.run Worker.twin {}) ++
  .receive (.dealMembershipUpdate [{ id := str "d" }] []) ::
    List.replicate 2 (Event.run Worker.membership {})

/-- `Unlock` finds no mutex, so that the lock of the context stays held by a handler that has
ended; and two handlers are at the same device. -/
theorem lock_lost_and_shared :
    (∃ s, run step oneDevice removedUnderLock = some s ∧
        ¬ ReleasesOwn s (.run .twin {}) ∧
        ∃ s', step s (.run .twin {}) = some s' ∧ ¬ Quiet s') ∧
      ∃ s, run step oneDevice addedUnderLock = some s ∧ ¬ Exclusive s := by
  constructor
  · have hrun : (run step oneDevice removedUnderLock).map (fun s => ((s.threads .twin).rest,
        s.shared.deviceMutex.lookup (str "d"), (s.threads .twin).vars)) =
          some ([.unlock (str "d")], none, some 0) := by decide +kernel
    have hnext : (run step oneDevice (removedUnderLock ++ [.run .twin {}])).map (fun s =>
        (left s, s.shared.readers)) = some (([], [], []), 1) := by decide +kernel
    obtain ⟨s, hs, hstate⟩ := Option.map_eq_some_iff.mp hrun
    simp only [Prod.mk.injEq] at hstate
    obtain ⟨hrest, hmutex, hheld⟩ := hstate
    rw [run_append hs] at hnext
    obtain ⟨s', hs', hidle⟩ := Option.map_eq_some_iff.mp hnext
    simp only [left, Prod.mk.injEq] at hidle
    obtain ⟨⟨htwin, hdevice, hmembership⟩, hreaders⟩ := hidle
    obtain ⟨s₁, hstep, hlast⟩ := Option.bind_eq_some_iff.mp hs'
    cases hlast
    refine ⟨s, hs, ?_, s', hstep, ?_⟩
    · simp only [ReleasesOwn, Releases, hrest, hmutex, hheld]
      simp
    · intro hquiet
      have hfree := hquiet fun w => by cases w <;> assumption
      rw [hreaders] at hfree
      exact absurd hfree.1 one_ne_zero
  · have hrun : (run step oneDevice addedUnderLock).map (fun s =>
        (decide (Inside s .twin (str "d")), decide (Inside s .membership (str "d")))) =
          some (true, true) := by decide +kernel
    obtain ⟨s, hs, hstate⟩ := Option.map_eq_some_iff.mp hrun
    simp only [Prod.mk.injEq, decide_eq_true_eq] at hstate
    refine ⟨s, hs, ?_⟩
    intro hexclusive
    cases hexclusive _ _ _ hstate.1 hstate.2

end KubeEdge.DeviceTwin.Locks
