import KubeEdge.DeviceController.Listing

namespace KubeEdge.DeviceController.Profile
open Go Machine DeviceTwin Cloud

variable {s s' : State} {old device : Device} {data : Option DeviceProfile}

/-- The config map of the node has a profile. -/
def State.profiled (s : State) (node : GoString) : Bool := (s.configMap.lookup node).join.isSome

/-- A profile is read or written only for a device that is bound to a node. -/
def addable (device : Device) : Bool :=
  device.nodeSelector.isSome && (device.node.isNone || device.deviceModelRef.isSome)

def deletable (profiled : GoString → Bool) (device : Device) : Bool :=
  device.nodeSelector.isSome && (!device.node.any profiled || device.deviceModelRef.isSome)

/-- The property visitors of an instance name the model. -/
def visitable (s : State) (device : Device) : Bool :=
  device.deviceModelRef.isSome || (device.propertyVisitors.getD []).isEmpty ||
    !device.node.any fun node => (s.configMap.lookup node).join.any fun profile =>
      profile.deviceInstances.any fun devInst => devInst.name = device.name

/-- A changed twin is sent to the node without a look whether there is one. -/
def editable (s : State) (old device : Device) : Bool :=
  (!(old.protocol ≠ device.protocol || isDeviceStatusUpdated old.twins device.twins ||
      old.data ≠ device.data || old.propertyVisitors ≠ device.propertyVisitors) ||
    visitable s device) &&
  (!isDeviceStatusUpdated old.twins device.twins || device.node.isSome)

def updatable (s : State) (device : Device) : Bool :=
  match s.device.lookup device.name with
  | none => addable device
  | some old => !isDeviceUpdated old device || old.nodeSelector.isSome && (
    if old.nodeSelector ≠ device.nodeSelector then
      -- the new device has been added when the old one is deleted
      addable device && deletable (fun node => s.profiled node ||
        device.node = some node && device.deviceModelRef.any fun ref => ref ∈ s.deviceModel) old
    else editable s old device)

/-- Whether the handler follows no nil pointer and looks for no value that is not there. -/
def safe (s : State) : Event → Bool
  | .added device => addable device
  | .modified device => updatable s device
  | .deleted ns name => (s.existing.lookup (ns, name)).all (deletable s.profiled)
  | _ => true

/-- The handler of the event returns. -/
def completes (s : State) : Event → Bool
  | .added device => (deviceAdded s device).isOk
  | .modified device => (deviceUpdated s device).isOk
  | .deleted ns name => (s.existing.lookup (ns, name)).all fun device =>
      (deviceDeleted s device).isOk
  | _ => true

/-- An event that cannot come changes nothing, and nothing follows a panic. -/
def next (s : State) (e : Event) : Option State := some ((step s e).getD s)

theorem isOk_bind {α β : Type} {f : α → M β} (x : M α) (hf : ∀ a, (f a).isOk = true) :
    (x >>= f).isOk = x.isOk := by
  cases x with
  | error fault => rfl
  | ok a => exact hf a

theorem addPropertyVisitors_isOk (device : Device) :
    (addPropertyVisitorsToDeviceInstance device).isOk =
      (device.deviceModelRef.isSome || (device.propertyVisitors.getD []).isEmpty) := by
  unfold addPropertyVisitorsToDeviceInstance
  cases device.deviceModelRef with
  | none => cases device.propertyVisitors.getD [] <;> rfl
  | some ref =>
    simp only [deref_some, ok_bind]
    exact congrArg Except.isOk List.mapM_pure

theorem addDeviceProfile_isOk (models : GoMap GoString DeviceModel) (device : Device)
    (data : Option DeviceProfile) :
    (addDeviceProfile models device data).isOk = device.deviceModelRef.isSome := by
  have hvisitors := addPropertyVisitors_isOk device
  unfold addDeviceProfile addDeviceInstanceAndProtocol
  cases href : device.deviceModelRef with
  | none => rfl
  | some ref =>
    rw [href, Option.isSome_some, Bool.true_or] at hvisitors
    simp only [deref_some, ok_bind]
    rw [isOk_bind, isOk_bind, hvisitors]
    · rfl
    · exact fun _ => rfl
    · intro profile
      cases models.lookup ref with
      | none => rfl
      | some model =>
        dsimp only
        split_ifs <;> rfl

theorem addDeviceProfile_isSome {models : GoMap GoString DeviceModel} {data' : Option DeviceProfile}
    (h : addDeviceProfile models device data = .ok data') :
    data'.isSome = (data.isSome || device.deviceModelRef.any fun ref => ref ∈ models) := by
  obtain ⟨profile, -, h⟩ := ok_of_bind h
  obtain ⟨ref, href, h⟩ := ok_of_bind h
  rw [deref_eq_ok.mp href, Option.any_some]
  cases hmodel : models.lookup ref with
  | none =>
    rw [hmodel] at h
    cases h
    simp [AList.lookup_eq_none.mp hmodel]
  | some model =>
    have hmem : ref ∈ models := GoMap.mem_iff_lookup.mpr ⟨model, hmodel⟩
    rw [hmodel] at h
    dsimp only at h
    split_ifs at h <;> cases h <;> simp [hmem]

theorem deviceAdded_isOk (s : State) (device : Device) :
    (deviceAdded s device).isOk = addable device := by
  unfold deviceAdded addable Device.node
  cases device.nodeSelector with
  | none => rfl
  | some selector =>
    simp only [deref_some, ok_bind, Option.bind_some]
    cases firstValue selector with
    | none => rfl
    | some node =>
      dsimp only
      rw [addToConfigMap, isOk_bind _ fun _ => rfl, addDeviceProfile_isOk]
      rfl

theorem profiled_deviceAdded (h : deviceAdded s device = .ok s') (node : GoString) :
    s'.profiled node = (s.profiled node ||
      device.node = some node && device.deviceModelRef.any fun ref => ref ∈ s.deviceModel) := by
  unfold State.profiled
  rcases deviceAdded_spec h with ⟨hnode, rfl⟩ | ⟨node', data, hnode, hdata, rfl⟩
  · simp [hnode]
  · rw [GoMap.lookup_insert, hnode]
    split_ifs with hn
    · subst hn
      simp [addDeviceProfile_isSome hdata]
    · simp [Ne.symm hn]

theorem deviceDeleted_isOk (s : State) (device : Device) :
    (deviceDeleted s device).isOk = deletable s.profiled device := by
  unfold deviceDeleted deleteFromConfigMap deletable Device.node State.profiled
  cases device.nodeSelector with
  | none => rfl
  | some selector =>
    simp only [deref_some, ok_bind, Option.bind_some, Option.isSome_some, Bool.true_and]
    cases firstValue selector with
    | none => rfl
    | some node =>
      simp only [Option.any_some]
      cases s.configMap.lookup node with
      | none => rfl
      | some data =>
        dsimp only
        rw [isOk_bind]
        · cases data with
          | none => rfl
          | some profile =>
            simp only [deleteFromDeviceProfile]
            rw [isOk_bind]
            · cases device.deviceModelRef <;> rfl
            · intro ref
              cases s.deviceModel.lookup ref with
              | none => rfl
              | some model =>
                dsimp only
                split_ifs <;> rfl
        · intro data
          split_ifs <;> rfl

theorem updateConfigMap_isOk (s : State) {selector : NodeSelector}
    (hselector : device.nodeSelector = some selector) :
    (updateConfigMap s device).isOk = visitable s device := by
  unfold updateConfigMap visitable
  rw [node_of_selector hselector, hselector]
  simp only [deref_some, ok_bind]
  cases firstValue selector with
  | none => simp
  | some node =>
    simp only [Option.any_some]
    cases (s.configMap.lookup node).join with
    | none => simp
    | some profile =>
      simp only [Option.any_some]
      split_ifs with hempty
      · simp [DeviceProfile.isEmpty] at hempty
        simp [hempty]
      · rw [isOk_bind _ fun _ => rfl, updateProfile, ← List.isSome_find?]
        cases profile.deviceInstances.find? fun devInst => devInst.name = device.name with
        | none => simp
        | some devInst =>
          simp only [Option.isNone_some, Bool.false_eq_true, if_false]
          rw [isOk_bind _ fun _ => rfl, addPropertyVisitors_isOk]
          simp

theorem sent_iff {status : Bool} {node : Option GoString} :
    (!status || node.isSome) = true ↔ ¬ (status = true ∧ node = none) := by
  cases status <;> cases node <;> simp

theorem deviceUpdated_isOk (s : State) (device : Device) :
    (deviceUpdated s device).isOk = updatable s device := by
  unfold deviceUpdated updatable
  cases s.device.lookup device.name with
  | none => exact deviceAdded_isOk _ device
  | some old =>
    dsimp only
    by_cases hup : isDeviceUpdated old device = true
    · rw [if_pos hup, hup, Bool.not_true, Bool.false_or]
      cases hold : old.nodeSelector with
      | none => rfl
      | some oldSelector =>
        cases hselector : device.nodeSelector with
        | none => simp [addable, hselector]
        | some selector =>
          simp only [deref_some, ok_bind, Option.isSome_some, Bool.true_and]
          by_cases hsame : oldSelector = selector
          · have hkept : ¬ isNodeSelectorUpdated oldSelector selector = true := by
              simp [isNodeSelectorUpdated, hsame]
            have hkept' : ¬ some oldSelector ≠ some selector := by simp [hsame]
            rw [if_neg hkept, if_neg hkept', editable, node_of_selector hselector]
            split_ifs with hchanged hunbound hunbound
            · cases updateConfigMap { s with device := s.device.insert device.name device }
                device <;>
                simp [hunbound]
            · rw [isOk_bind _ fun _ => rfl, updateConfigMap_isOk _ hselector, hchanged,
                sent_iff.mpr hunbound]
              simp [visitable]
            · simp [hunbound]
            · rw [Bool.eq_false_iff.mpr hchanged, sent_iff.mpr hunbound]
              rfl
          · have hmoved : isNodeSelectorUpdated oldSelector selector = true := by
              simpa [isNodeSelectorUpdated, NodeSelector.ext_iff] using hsame
            have hmoved' : some oldSelector ≠ some selector := by simpa using hsame
            rw [if_pos hmoved, if_pos hmoved']
            have hadd :=
              deviceAdded_isOk { s with device := s.device.insert device.name device } device
            cases hok :
                deviceAdded { s with device := s.device.insert device.name device } device with
            | error fault =>
              rw [hok] at hadd
              rw [← hadd]
              rfl
            | ok s₁ =>
              rw [hok] at hadd
              rw [← hadd, ok_bind, deviceDeleted_isOk, funext (profiled_deviceAdded hok)]
              rfl
    · simp [hup]

/-- In every run the handlers return exactly if every event is safe when it comes. -/
theorem no_device_crashes_iff (es : List Event) :
    Along next (fun s e => completes s e = true) {} es ↔
      Along next (fun s e => safe s e = true) {} es := by
  refine along_congr (I := fun _ => True) (fun _ _ _ _ _ _ => trivial) ?_ trivial
  intro s e _ _ _
  cases e with
  | added device => exact iff_of_eq (congrArg (· = true) (deviceAdded_isOk s device))
  | modified device => exact iff_of_eq (congrArg (· = true) (deviceUpdated_isOk s device))
  | deleted ns name => simp [completes, safe, deviceDeleted_isOk]
  | _ => exact Iff.rfl

/-- A device whose node selector has no terms. -/
def unbound (twins : Option (List StatusTwin)) : Device where
  ns := str "default"
  name := str "l"
  deviceModelRef := some (str "lamp")
  nodeSelector := some ⟨some []⟩
  twins := twins

/-- The device gets a desired value, or only an empty list of twins. -/
theorem unbound_crashes :
    ¬ Along next (fun s e => completes s e = true) {}
      [.added (unbound none),
        .modified (unbound (some [⟨str "power", ⟨str "on", none⟩, ⟨str "off", none⟩⟩]))] ∧
    ¬ Along next (fun s e => completes s e = true) {}
      [.added (unbound none), .modified (unbound (some []))] := by
  constructor
  · intro h
    exact absurd ((h _ rfl).2 _ rfl).1 (by decide)
  · intro h
    exact absurd ((h _ rfl).2 _ rfl).1 (by decide)

end KubeEdge.DeviceController.Profile
