import KubeEdge.DeviceTwin.Cloud
import KubeEdge.Go.Machine

namespace KubeEdge.DeviceController.Profile
open Go Machine DeviceTwin Cloud

section

variable {α : Type*}

/-- The first element is overwritten with the last one, and the slice is cut. -/
def removeSwap (p : α → Bool) (l : List α) : List α :=
  match l.findIdx? p, l.getLast? with
  | some i, some last => (l.set i last).dropLast
  | _, _ => l

def modifyFirst (p : α → Bool) (f : α → α) : List α → List α
  | [] => []
  | a :: l => if p a then f a :: l else a :: modifyFirst p f l

end

-- A slice that `reflect.DeepEqual` compares is an `Option`: nil is not the same as empty.

structure Requirement where
  key : GoString
  operator : GoString
  values : Option (List GoString)
  deriving DecidableEq

structure NodeSelectorTerm where
  matchExpressions : Option (List Requirement)
  matchFields : Option (List Requirement) := none
  deriving DecidableEq

@[ext] structure NodeSelector where
  nodeSelectorTerms : Option (List NodeSelectorTerm)
  deriving DecidableEq

/-- The protocols that the controller knows. -/
inductive ProtocolKind
  | opcua
  | modbus
  | bluetooth
  | customized
  deriving DecidableEq

def ProtocolKind.name : ProtocolKind → GoString
  | opcua => str "opcua"
  | modbus => str "modbus"
  | bluetooth => str "bluetooth"
  | customized => str "customized-protocol"

structure ProtocolConfig where
  opcUA : Option GoString := none
  modbus : Option GoString := none
  bluetooth : Option GoString := none
  common : Option GoString := none
  customizedProtocol : Option GoString := none
  deriving DecidableEq

structure DevicePropertyVisitor where
  propertyName : GoString
  reportCycle : Int64 := 0
  collectCycle : Int64 := 0
  customizedValues : Option GoString := none
  opcUA : Option GoString := none
  modbus : Option GoString := none
  bluetooth : Option GoString := none
  customizedProtocol : Option GoString := none
  deriving DecidableEq

structure DeviceData where
  dataProperties : GoString := []
  dataTopic : GoString := []
  deriving DecidableEq

structure Device where
  ns : GoString
  name : GoString
  /-- Labels, annotations and so on. -/
  metadata : GoString := []
  deviceModelRef : Option GoString
  protocol : ProtocolConfig := {}
  propertyVisitors : Option (List DevicePropertyVisitor) := none
  data : DeviceData := {}
  nodeSelector : Option NodeSelector
  twins : Option (List StatusTwin) := none

/-- The values of a property that has a type. -/
structure PropertyInfo where
  accessMode : GoString
  defaultValue : GoString := []
  maximum : GoString := []
  minimum : GoString := []
  unit : GoString := []

structure DeviceProperty where
  name : GoString
  description : GoString := []
  int : Option PropertyInfo := none
  string : Option PropertyInfo := none
  double : Option PropertyInfo := none
  float : Option PropertyInfo := none
  boolean : Option PropertyInfo := none
  bytes : Option PropertyInfo := none

structure DeviceModel where
  name : GoString
  properties : List DeviceProperty := []

structure PropertyVisitor where
  name : GoString
  propertyName : GoString
  modelName : GoString
  protocol : GoString
  reportCycle : Int64
  collectCycle : Int64
  customizedValues : Option GoString
  visitorConfig : Option GoString

structure DeviceInstance where
  id : GoString
  name : GoString
  protocol : GoString
  model : GoString
  twins : List StatusTwin
  dataProperties : GoString
  dataTopic : GoString
  propertyVisitors : List PropertyVisitor

structure Property where
  name : GoString
  dataType : GoString := []
  description : GoString
  accessMode : GoString := []
  defaultValue : GoString := []
  minimum : GoString := []
  maximum : GoString := []
  unit : GoString := []

structure ProfileModel where
  name : GoString
  properties : List Property

structure Protocol where
  name : GoString := []
  protocol : GoString := []
  protocolConfig : Option GoString := none
  protocolCommonConfig : Option GoString := none

structure DeviceProfile where
  deviceInstances : List DeviceInstance := []
  deviceModels : List ProfileModel := []
  protocols : List Protocol := []

/-- The JSON is `{}`: empty lists are left out. -/
def DeviceProfile.isEmpty (profile : DeviceProfile) : Bool :=
  profile.deviceInstances.isEmpty && profile.deviceModels.isEmpty && profile.protocols.isEmpty

def ProtocolConfig.kind (c : ProtocolConfig) : Option (ProtocolKind × GoString) :=
  match c.opcUA, c.modbus, c.bluetooth, c.customizedProtocol with
  | some config, _, _, _ => some (.opcua, config)
  | none, some config, _, _ => some (.modbus, config)
  | none, none, some config, _ => some (.bluetooth, config)
  | none, none, none, some config => some (.customized, config)
  | none, none, none, none => none

/-- A device without a valid protocol gets an entry without a name. -/
def buildDeviceProtocol (device : Device) : Protocol :=
  match device.protocol.kind with
  | some (kind, config) =>
    { name := kind.name ++ str "-" ++ device.name
      protocol := kind.name
      protocolConfig := some config
      protocolCommonConfig := device.protocol.common }
  | none => { protocolCommonConfig := device.protocol.common }

/-- The protocol of a visitor; Modbus is looked for first here. -/
def DevicePropertyVisitor.kind (v : DevicePropertyVisitor) : Option (ProtocolKind × GoString) :=
  match v.modbus, v.opcUA, v.bluetooth, v.customizedProtocol with
  | some config, _, _, _ => some (.modbus, config)
  | none, some config, _, _ => some (.opcua, config)
  | none, none, some config, _ => some (.bluetooth, config)
  | none, none, none, some config => some (.customized, config)
  | none, none, none, none => none

def addPropertyVisitorsToDeviceInstance (device : Device) : M (List PropertyVisitor) :=
  (device.propertyVisitors.getD []).mapM fun pptv => do
    let modelName ← deref device.deviceModelRef
    .ok
      { name := pptv.propertyName
        propertyName := pptv.propertyName
        modelName := modelName
        protocol := (pptv.kind.map fun (kind, _) => kind.name).getD []
        reportCycle := pptv.reportCycle
        collectCycle := pptv.collectCycle
        customizedValues := pptv.customizedValues
        visitorConfig := pptv.kind.map Prod.snd }

def addDeviceInstanceAndProtocol (device : Device) (profile : DeviceProfile) :
    M DeviceProfile := do
  let model ← deref device.deviceModelRef
  let deviceProtocol := buildDeviceProtocol device
  let propertyVisitors ← addPropertyVisitorsToDeviceInstance device
  let deviceInstance : DeviceInstance :=
    { id := device.name
      name := device.name
      protocol := deviceProtocol.name
      model := model
      twins := device.twins.getD []
      dataProperties := device.data.dataProperties
      dataTopic := device.data.dataTopic
      propertyVisitors := propertyVisitors }
  .ok { profile with
    deviceInstances := profile.deviceInstances ++ [deviceInstance]
    protocols := profile.protocols ++ [deviceProtocol] }

/-- A property with the values of the first type that it has. -/
def profileProperty (ppt : DeviceProperty) : Property :=
  let property : Property := { name := ppt.name, description := ppt.description }
  let numeric (dataType : String) (info : PropertyInfo) : Property :=
    { property with
      dataType := str dataType
      accessMode := info.accessMode
      defaultValue := info.defaultValue
      maximum := info.maximum
      minimum := info.minimum
      unit := info.unit }
  let plain (dataType : String) (info : PropertyInfo) : Property :=
    { property with
      dataType := str dataType
      accessMode := info.accessMode
      defaultValue := info.defaultValue }
  match ppt.int, ppt.string, ppt.double, ppt.float, ppt.boolean, ppt.bytes with
  | some info, _, _, _, _, _ => numeric "int" info
  | none, some info, _, _, _, _ => plain "string" info
  | none, none, some info, _, _, _ => numeric "double" info
  | none, none, none, some info, _, _ => numeric "float" info
  | none, none, none, none, some info, _ => plain "boolean" info
  | none, none, none, none, none, some info =>
    { property with dataType := str "bytes", accessMode := info.accessMode }
  | none, none, none, none, none, none => property

def addDeviceModelAndVisitors (deviceModel : DeviceModel) (profile : DeviceProfile) :
    DeviceProfile :=
  let model : ProfileModel := ⟨deviceModel.name, deviceModel.properties.map profileProperty⟩
  { profile with deviceModels := profile.deviceModels ++ [model] }

/-- Without the model nothing is written. -/
def addDeviceProfile (models : GoMap GoString DeviceModel) (device : Device)
    (data : Option DeviceProfile) : M (Option DeviceProfile) := do
  let profile ← addDeviceInstanceAndProtocol device (data.getD {})
  let ref ← deref device.deviceModelRef
  match models.lookup ref with
  | none => .ok data
  | some deviceModel =>
    if profile.deviceModels.any fun dm => dm.name = deviceModel.name then .ok (some profile)
    else .ok (some (addDeviceModelAndVisitors deviceModel profile))

def deleteDeviceInstanceAndProtocol (device : Device) (profile : DeviceProfile) : DeviceProfile :=
  let named (devInst : DeviceInstance) : Bool := devInst.name = device.name
  let protocol := (profile.deviceInstances.find? named).elim [] (·.protocol)
  { profile with
    deviceInstances := removeSwap named profile.deviceInstances
    protocols := removeSwap (fun ptcl => ptcl.name = protocol) profile.protocols }

def deleteDeviceModelAndVisitors (deviceModel : DeviceModel) (profile : DeviceProfile) :
    DeviceProfile :=
  { profile with
    deviceModels := removeSwap (fun dm => dm.name = deviceModel.name) profile.deviceModels }

def deleteFromDeviceProfile (models : GoMap GoString DeviceModel) (device : Device)
    (data : Option DeviceProfile) : M (Option DeviceProfile) :=
  match data with
  | none => .ok none
  | some profile => do
    let profile := deleteDeviceInstanceAndProtocol device profile
    let ref ← deref device.deviceModelRef
    match models.lookup ref with
    | none => .ok data
    | some deviceModel =>
      if profile.deviceInstances.any fun dvc => dvc.model = deviceModel.name then .ok (some profile)
      else .ok (some (deleteDeviceModelAndVisitors deviceModel profile))

structure State where
  /-- `deviceModelManager.DeviceModel`. -/
  deviceModel : GoMap GoString DeviceModel := ∅
  /-- `deviceManager.Device`. -/
  device : GoMap GoString Device := ∅
  /-- `configMapManager.ConfigMap`: what the config map of a node has as its device profile. -/
  configMap : GoMap GoString (Option DeviceProfile) := ∅
  /-- The devices that exist, by namespace and name. -/
  existing : GoMap (GoString × GoString) Device := ∅

/-- The first element of a slice that may be nil. -/
def first? {α : Type} (l : Option (List α)) : Option α := l.bind List.head?

/-- `NodeSelectorTerms[0].MatchExpressions[0].Values[0]`, if there is one. -/
def firstValue (selector : NodeSelector) : Option GoString := do
  let term ← first? selector.nodeSelectorTerms
  let requirement ← first? term.matchExpressions
  first? requirement.values

/-- A new config map has no profile yet. -/
def addToConfigMap (s : State) (device : Device) (node : GoString) : M State := do
  let data ← addDeviceProfile s.deviceModel device (s.configMap.lookup node).join
  .ok { s with configMap := s.configMap.insert node data }

def deviceAdded (s : State) (device : Device) : M State := do
  let s := { s with device := s.device.insert device.name device }
  let selector ← deref device.nodeSelector
  match firstValue selector with
  | none => .ok s
  | some node => addToConfigMap s device node

/-- An empty profile goes with its config map. -/
def deleteFromConfigMap (s : State) (device : Device) : M State := do
  let selector ← deref device.nodeSelector
  match firstValue selector with
  | none => .ok s
  | some node =>
    match s.configMap.lookup node with
    | none => .ok s
    | some data => do
      let data ← deleteFromDeviceProfile s.deviceModel device data
      if data.all DeviceProfile.isEmpty then .ok { s with configMap := s.configMap.erase node }
      else .ok { s with configMap := s.configMap.insert node data }

def deviceDeleted (s : State) (device : Device) : M State :=
  deleteFromConfigMap { s with device := s.device.erase device.name } device

/-- What `updateConfigMap` does to the profile. -/
def updateProfile (device : Device) (profile : DeviceProfile) : M DeviceProfile := do
  let named (devInst : DeviceInstance) : Bool := devInst.name = device.name
  let oldProtocol := (profile.deviceInstances.find? named).elim [] (·.protocol)
  let protocols := profile.protocols.eraseP fun ptcl => ptcl.name = oldProtocol
  let deviceProtocol := buildDeviceProtocol device
  if (profile.deviceInstances.find? named).isNone then
    .ok { profile with protocols := protocols ++ [deviceProtocol] }
  else do
    let propertyVisitors ← addPropertyVisitorsToDeviceInstance device
    let update (devInst : DeviceInstance) : DeviceInstance :=
      { devInst with
        propertyVisitors := propertyVisitors
        twins := device.twins.getD []
        dataProperties := device.data.dataProperties
        dataTopic := device.data.dataTopic
        protocol := deviceProtocol.name }
    .ok { profile with
      deviceInstances := modifyFirst named update profile.deviceInstances
      protocols := protocols ++ [deviceProtocol] }

def updateConfigMap (s : State) (device : Device) : M State := do
  let selector ← deref device.nodeSelector
  match firstValue selector with
  | none => .ok s
  | some node =>
    match (s.configMap.lookup node).join with
    | none => .ok s
    | some profile =>
      if profile.isEmpty then .ok s
      else do
        let profile ← updateProfile device profile
        .ok { s with configMap := s.configMap.insert node (some profile) }

def isDeviceUpdated (oldTwin newTwin : Device) : Bool :=
  oldTwin.ns ≠ newTwin.ns || oldTwin.metadata ≠ newTwin.metadata ||
    oldTwin.deviceModelRef ≠ newTwin.deviceModelRef || oldTwin.protocol ≠ newTwin.protocol ||
    oldTwin.propertyVisitors ≠ newTwin.propertyVisitors || oldTwin.data ≠ newTwin.data ||
    oldTwin.nodeSelector ≠ newTwin.nodeSelector || isDeviceStatusUpdated oldTwin.twins newTwin.twins

def isNodeSelectorUpdated (oldTwin newTwin : NodeSelector) : Bool :=
  oldTwin.nodeSelectorTerms ≠ newTwin.nodeSelectorTerms

/-- The message with the twins goes to the node of the device. -/
def deviceUpdated (s : State) (device : Device) : M State :=
  match s.device.lookup device.name with
  | none => deviceAdded { s with device := s.device.insert device.name device } device
  | some cachedDevice =>
    let s := { s with device := s.device.insert device.name device }
    if isDeviceUpdated cachedDevice device then do
      let oldSelector ← deref cachedDevice.nodeSelector
      let selector ← deref device.nodeSelector
      if isNodeSelectorUpdated oldSelector selector then do
        let s ← deviceAdded s device
        deviceDeleted s cachedDevice
      else do
        let s ←
          if cachedDevice.protocol ≠ device.protocol ||
              isDeviceStatusUpdated cachedDevice.twins device.twins ||
              cachedDevice.data ≠ device.data ||
              cachedDevice.propertyVisitors ≠ device.propertyVisitors then
            updateConfigMap s device
          else .ok s
        if isDeviceStatusUpdated cachedDevice.twins device.twins ∧
            firstValue selector = none then
          .error .indexOutOfRange
        else .ok s
    else .ok s

inductive Event
  | modelAdded (deviceModel : DeviceModel)
  | modelUpdated (deviceModel : DeviceModel)
  | modelDeleted (name : GoString)
  | added (device : Device)
  | modified (device : Device)
  | deleted (ns name : GoString)

/-- A run ends with a panic. -/
def step (s : State) : Event → Option State
  | .modelAdded deviceModel | .modelUpdated deviceModel =>
    some { s with deviceModel := s.deviceModel.insert deviceModel.name deviceModel }
  | .modelDeleted name => some { s with deviceModel := s.deviceModel.erase name }
  | .added device =>
    if (device.ns, device.name) ∈ s.existing then none
    else (deviceAdded s device).toOption.map fun s =>
      { s with existing := s.existing.insert (device.ns, device.name) device }
  | .modified device =>
    if (device.ns, device.name) ∉ s.existing then none
    else (deviceUpdated s device).toOption.map fun s =>
      { s with existing := s.existing.insert (device.ns, device.name) device }
  | .deleted ns name =>
    match s.existing.lookup (ns, name) with
    | none => none
    | some device => (deviceDeleted s device).toOption.map fun s =>
        { s with existing := s.existing.erase (ns, name) }

def Device.node (device : Device) : Option GoString := device.nodeSelector.bind firstValue

def State.profile (s : State) (node : GoString) : DeviceProfile :=
  (s.configMap.lookup node).join.getD {}

/-- The names of the devices that are bound to a node. -/
def State.bound (s : State) (node : GoString) : List GoString :=
  s.existing.entries.filterMap fun e => if e.2.node = some node then some e.2.name else none

/-- The profiles list exactly the devices that exist, their protocols and their models. -/
structure Exact (s : State) : Prop where
  device : ∀ device, (∃ name, s.device.lookup name = some device) ↔
    ∃ key, s.existing.lookup key = some device
  instances : ∀ node,
    ((s.profile node).deviceInstances.map (·.name)).Perm (s.bound node)
  protocols : ∀ node, ((s.profile node).protocols.map (·.name)).Perm
    ((s.profile node).deviceInstances.map (·.protocol))
  models_nodup : ∀ node, ((s.profile node).deviceModels.map (·.name)).Nodup
  models : ∀ node model, model ∈ ((s.profile node).deviceModels.map (·.name)) ↔
    model ∈ ((s.profile node).deviceInstances.map (·.model))

/-- The models of all devices have been delivered. -/
def Delivered (s : State) : Prop :=
  ∀ key device, s.existing.lookup key = some device →
    ∀ model, device.deviceModelRef = some model → model ∈ s.deviceModel

/-- The device is not bound to a node, or its model is there. -/
def modelKnown (s : State) (device : Device) : Bool :=
  device.node.isNone || device.deviceModelRef.all fun model => decide (model ∈ s.deviceModel)

/-- Names of devices are unique over all namespaces.  When a device that is bound to a node comes
or goes, its model is there; and a device keeps its node selector and, if it is bound, its
model. -/
def calm (s : State) : Event → Bool
  | .added device => modelKnown s device && s.existing.keys.all fun key => key.2 ≠ device.name
  | .modified device =>
    (s.existing.lookup (device.ns, device.name)).all fun old =>
      old.nodeSelector = device.nodeSelector &&
        (device.node.isNone || old.deviceModelRef = device.deviceModelRef)
  | .deleted ns name => (s.existing.lookup (ns, name)).all (modelKnown s)
  | _ => true

end KubeEdge.DeviceController.Profile
