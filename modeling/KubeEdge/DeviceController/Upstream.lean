import KubeEdge.DeviceTwin.Cloud
import KubeEdge.Go.Threads

namespace KubeEdge.DeviceController
open Go Machine Threads DeviceTwin Cloud

/-- `v1alpha2.Device`: what the two controllers compare and change. -/
structure Device where
  ns : GoString
  nodeSelector : GoString := []
  twins : List StatusTwin

/-- Names of twins with their desired values and metadata. -/
abbrev Desired := List (GoString × GoString × Option (List (GoString × GoString)))

instance : DecidableEq (GoString × GoString × Option (List (GoString × GoString))) :=
  instDecidableEqProd

def desired (twins : List StatusTwin) : Desired :=
  twins.map fun t => (t.propertyName, t.desired.value,
    t.desired.metadata.map fun m => m.entries.map fun e => (e.1, e.2))

/-- `Twins[i].Reported = reported`, for the first twin of the name. -/
def setReported (name : GoString) (reported : TwinProperty) : List StatusTwin → List StatusTwin
  | [] => []
  | t :: twins =>
    if t.propertyName = name then { t with reported := reported } :: twins
    else t :: setReported name reported twins

@[simp] theorem desired_setReported (name : GoString) (reported : TwinProperty)
    (twins : List StatusTwin) : desired (setReported name reported twins) = desired twins := by
  induction twins with
  | nil => rfl
  | cons t twins ih =>
    unfold setReported
    split_ifs
    · rfl
    · change _ :: desired (setReported name reported twins) = _ :: desired twins
      rw [ih]

/-- The twins of a report with an actual value, and what becomes of it; timestamps are left out. -/
def reportedValues (twin : GoMap GoString MsgTwin) : List (GoString × TwinProperty) :=
  twin.entries.filterMap fun e => (e.2.actual.value.bind TwinValue.value).map fun value =>
    (e.1, ⟨value, some (e.2.metadata.elim ∅ fun type => AList.insert (str "type") type ∅)⟩)

inductive Delivery
  | added (name : GoString) (device : Device)
  | modified (name : GoString) (device : Device)
  | deleted (name : GoString)

structure Cluster where
  /-- The devices in the API server by namespace and name. -/
  api : GoMap (GoString × GoString) Device := ∅
  /-- What the informer has not delivered yet. -/
  watch : List Delivery := []
  /-- The objects that the informer has delivered; they are numbered. -/
  objects : ℕ → Device
  made : ℕ := 0
  /-- `deviceManager.Device`. -/
  device : GoMap GoString ℕ := ∅

def Cluster.make (s : Cluster) (device : Device) : Cluster :=
  { s with objects := Function.update s.objects s.made device, made := s.made + 1 }

/-- `deviceAdded`, `deviceUpdated` and `deviceDeleted`, as far as they change the map.  A device
that moves to another node is first added and then deleted under its name. -/
def deliver (s : Cluster) : Delivery → Cluster
  | .added name device => { s.make device with device := s.device.insert name s.made }
  | .modified name device =>
    match s.device.lookup name with
    | none => { s.make device with device := s.device.insert name s.made }
    | some p =>
      if (s.objects p).nodeSelector = device.nodeSelector then
        { s.make device with device := s.device.insert name s.made }
      else { s.make device with device := s.device.erase name }
  | .deleted name => { s with device := s.device.erase name }

/-- The single steps of `updateDeviceStatus`. -/
inductive Op
  | load (deviceID : GoString) (twin : GoMap GoString MsgTwin)
  | set (p : ℕ) (name : GoString) (reported : TwinProperty)
  | store (deviceID : GoString) (p : ℕ)
  | marshal (deviceID : GoString) (p : ℕ)
  | patch (ns deviceID : GoString) (body : List StatusTwin)

/-- A merge patch of the status; an empty list is left out of the body. -/
def patch (s : Cluster) (ns deviceID : GoString) (body : List StatusTwin) : Cluster :=
  match s.api.lookup (ns, deviceID) with
  | none => s
  | some device =>
    if body = [] then s
    else { s with
      api := s.api.insert (ns, deviceID) { device with twins := body }
      watch := s.watch ++ [.modified deviceID { device with twins := body }] }

/-- `ok` says whether the API server takes the patch. -/
def exec (n : ℕ) (_ : Fin n) (ok : Bool) (s : Cluster) (_ : Unit) :
    Op → Option (Cluster × Unit × List Op)
  | .load id twin =>
    match s.device.lookup id with
    | none => some (s, (), [])
    | some p =>
      let sets := (reportedValues twin).map fun (name, reported) => Op.set p name reported
      some (s, (), sets ++ [.store id p, .marshal id p])
  | .set p name reported =>
    let object := { s.objects p with twins := setReported name reported (s.objects p).twins }
    some ({ s with objects := Function.update s.objects p object }, (), [])
  | .store id p => some ({ s with device := s.device.insert id p }, (), [])
  | .marshal id p => some (s, (), [.patch (s.objects p).ns id (s.objects p).twins])
  | .patch ns id body => some (if ok then patch s ns id body else s, (), [])

abbrev Process (n : ℕ) := Threads.System Cluster (Fin n) Op Unit

inductive Event (n : ℕ)
  /-- A user creates or updates a device. -/
  | apply (name : GoString) (device : Device)
  | remove (ns name : GoString)
  | deliver
  /-- A worker takes a report. -/
  | receive (w : Fin n) (deviceID : GoString) (twin : GoMap GoString MsgTwin)
  | run (w : Fin n) (ok : Bool)

def step (n : ℕ) (s : Process n) : Event n → Option (Process n)
  | .apply name device =>
    let delivery := if (device.ns, name) ∈ s.shared.api then Delivery.modified name device
      else .added name device
    some { s with shared := { s.shared with
      api := s.shared.api.insert (device.ns, name) device
      watch := s.shared.watch ++ [delivery] } }
  | .remove ns name =>
    some { s with shared := { s.shared with
      api := s.shared.api.erase (ns, name)
      watch := s.shared.watch ++ [.deleted name] } }
  | .deliver =>
    match s.shared.watch with
    | [] => none
    | d :: watch => some { s with shared := deliver { s.shared with watch := watch } d }
  | .receive w id twin => Threads.step (exec n) () s (.call w [.load id twin])
  | .run w ok => Threads.step (exec n) () s (.next w ok)

/-- The worker's step leaves the names of the twins and their desired values in the API server
as they are. -/
def KeepsDesired (n : ℕ) (s : Process n) : Event n → Prop
  | .run w ok => ∀ s', step n s (.run w ok) = some s' → ∀ key,
      (s'.shared.api.lookup key).map (fun d => desired d.twins) =
        (s.shared.api.lookup key).map fun d => desired d.twins
  | _ => True

/-- The API server has the names and the desired values of the list, if it has the device. -/
def current (s : Cluster) (key : GoString × GoString) (twins : List StatusTwin) : Bool :=
  (s.api.lookup key).all fun d => desired d.twins = desired twins

/-- The device that an operation will send to the API server. -/
def Op.target (s : Cluster) : Op → Option (GoString × GoString)
  | .marshal id p => some ((s.objects p).ns, id)
  | .patch ns id _ => some (ns, id)
  | _ => none

/-- When a worker takes a device from the map, its desired values are those of the API server;
and no user changes them until the worker has sent its patch. -/
def upToDate (n : ℕ) (s : Process n) : Event n → Bool
  | .apply name device =>
    (decide ((device.ns, name) ∈ s.shared.api) &&
      current s.shared (device.ns, name) device.twins) ||
      decide (∀ w, ∀ op ∈ (s.threads w).rest, op.target s.shared ≠ some (device.ns, name))
  | .run w _ =>
    match (s.threads w).rest with
    | .load id _ :: _ => (s.shared.device.lookup id).all fun p =>
        current s.shared ((s.shared.objects p).ns, id) (s.shared.objects p).twins
    | _ => true
  | _ => true

/-- The names and desired values that the API server has for a device. -/
def Cluster.desired (s : Cluster) (key : GoString × GoString) : Option Desired :=
  (s.api.lookup key).map fun d => DeviceController.desired d.twins

variable {s : Cluster}

theorem current_iff {key : GoString × GoString} {twins : List StatusTwin} :
    current s key twins = true ↔ ∀ d, s.desired key = some d → d = desired twins := by
  simp [current, Cluster.desired, Option.all_eq_true]

/-- A pointer is to an object, and what is going to be sent has the desired values of the API
server. -/
def Op.Sound (s : Cluster) : Op → Prop
  | .load _ _ => True
  | .set p _ _ => p < s.made
  | .store _ p => p < s.made
  | .marshal id p => p < s.made ∧ current s ((s.objects p).ns, id) (s.objects p).twins = true
  | .patch ns id body => current s (ns, id) body = true

/-- Objects stay, but for reported values. -/
structure Grows (s s' : Cluster) : Prop where
  made : s.made ≤ s'.made
  ns : ∀ p < s.made, (s'.objects p).ns = (s.objects p).ns
  desired : ∀ p < s.made, desired (s'.objects p).twins = desired (s.objects p).twins

theorem Op.Sound.frame {s' : Cluster} {op : Op} (h : op.Sound s) (hgrows : Grows s s')
    (hapi : ∀ key, op.target s = some key → s'.desired key = none ∨
      s'.desired key = s.desired key) :
    op.Sound s' := by
  have hcurrent : ∀ key twins twins', op.target s = some key → desired twins' = desired twins →
      current s key twins = true → current s' key twins' = true := by
    intro key twins twins' hkey htwins hcurrent
    rw [current_iff] at hcurrent ⊢
    rw [htwins]
    rcases hapi key hkey with hnone | hsame
    · simp [hnone]
    · rw [hsame]
      exact hcurrent
  cases op with
  | load id twin => trivial
  | set p name reported | store id p => exact lt_of_lt_of_le h hgrows.made
  | marshal id p =>
    obtain ⟨hp, h⟩ := h
    refine ⟨lt_of_lt_of_le hp hgrows.made, ?_⟩
    rw [hgrows.ns p hp]
    exact hcurrent _ _ _ rfl (hgrows.desired p hp) h
  | patch ns id body => exact hcurrent _ _ _ rfl rfl h

structure Sound {n : ℕ} (s : Process n) : Prop where
  ops : ∀ w, ∀ op ∈ (s.threads w).rest, op.Sound s.shared
  device : ∀ id p, s.shared.device.lookup id = some p → p < s.shared.made

theorem grows_refl (s : Cluster) : Grows s s := ⟨le_rfl, fun _ _ => rfl, fun _ _ => rfl⟩

theorem grows_make (s : Cluster) (device : Device) : Grows s (s.make device) := by
  have hsame : ∀ p < s.made, (s.make device).objects p = s.objects p := by
    intro p hp
    exact Function.update_of_ne hp.ne _ _
  refine ⟨Nat.le_succ _, ?_, ?_⟩
  · intro p hp
    rw [hsame p hp]
  · intro p hp
    rw [hsame p hp]

theorem deliver_sound (s : Cluster) (d : Delivery) :
    Grows s (deliver s d) ∧ (deliver s d).api = s.api ∧
      ((∀ id p, s.device.lookup id = some p → p < s.made) →
        ∀ id p, (deliver s d).device.lookup id = some p → p < (deliver s d).made) := by
  have hinsert : ∀ name device, (∀ id p, s.device.lookup id = some p → p < s.made) →
      ∀ id p, (s.device.insert name s.made).lookup id = some p → p < (s.make device).made :=
    fun _ _ hs => GoMap.forall_insert (fun id p hp => Nat.lt_succ_of_lt (hs id p hp))
      (Nat.lt_succ_self _)
  cases d with
  | added name device =>
    obtain ⟨hmade, hns, hdesired⟩ := grows_make s device
    exact ⟨⟨hmade, hns, hdesired⟩, rfl, hinsert name device⟩
  | modified name device =>
    obtain ⟨hmade, hns, hdesired⟩ := grows_make s device
    have hcases : deliver s (.modified name device) =
          { s.make device with device := s.device.insert name s.made } ∨
        deliver s (.modified name device) =
          { s.make device with device := s.device.erase name } := by
      simp only [deliver]
      split
      · exact .inl rfl
      · split_ifs
        · exact .inl rfl
        · exact .inr rfl
    rcases hcases with hcase | hcase
    · rw [hcase]
      exact ⟨⟨hmade, hns, hdesired⟩, rfl, hinsert name device⟩
    · rw [hcase]
      exact ⟨⟨hmade, hns, hdesired⟩, rfl,
        fun hs id p hp => Nat.lt_succ_of_lt (GoMap.forall_erase hs name id p hp)⟩
  | deleted name =>
    exact ⟨⟨le_rfl, fun _ _ => rfl, fun _ _ => rfl⟩, rfl, fun hs => GoMap.forall_erase hs name⟩

theorem patch_keeps {ns id : GoString} {body : List StatusTwin}
    (h : current s (ns, id) body = true) :
    Grows s (patch s ns id body) ∧ (patch s ns id body).device = s.device ∧
      ∀ key, (patch s ns id body).desired key = s.desired key := by
  unfold patch
  cases hd : s.api.lookup (ns, id) with
  | none => exact ⟨grows_refl s, rfl, fun _ => rfl⟩
  | some d =>
    split_ifs with hbody
    · exact ⟨grows_refl s, rfl, fun _ => rfl⟩
    · refine ⟨⟨le_rfl, fun _ _ => rfl, fun _ _ => rfl⟩, rfl, ?_⟩
      intro key
      unfold Cluster.desired
      rw [GoMap.lookup_insert]
      split_ifs with hkey
      · subst hkey
        have hold : s.desired (ns, id) = some (desired d.twins) := by
          simp [Cluster.desired, hd]
        simp [hd, current_iff.mp h _ hold]
      · rfl

/-- What one operation of a worker does, if the list of a device that it loads is up to date. -/
structure Turn (s s' : Cluster) (ops : List Op) : Prop where
  grows : Grows s s'
  desired : ∀ key, s'.desired key = s.desired key
  device : (∀ id p, s.device.lookup id = some p → p < s.made) →
    ∀ id p, s'.device.lookup id = some p → p < s'.made
  ops : ∀ op ∈ ops, op.Sound s'

theorem exec_turn {n : ℕ} {w : Fin n} {ok : Bool} {s' : Cluster} {op : Op} {ops : List Op}
    {u v : Unit} (hop : op.Sound s) (hdevice : ∀ id p, s.device.lookup id = some p → p < s.made)
    (hload : ∀ id twin p, op = .load id twin → s.device.lookup id = some p →
      current s ((s.objects p).ns, id) (s.objects p).twins = true)
    (h : exec n w ok s u op = some (s', v, ops)) : Turn s s' ops := by
  cases op with
  | load id twin =>
    simp only [exec] at h
    cases hp : s.device.lookup id with
    | none =>
      rw [hp] at h
      cases h
      exact ⟨grows_refl s, fun _ => rfl, fun hs => hs, by simp⟩
    | some p =>
      rw [hp] at h
      cases h
      refine ⟨grows_refl s, fun _ => rfl, fun hs => hs, ?_⟩
      intro op hop
      simp only [List.mem_append, List.mem_map, List.mem_cons, List.not_mem_nil, or_false] at hop
      rcases hop with ⟨⟨name, reported⟩, -, rfl⟩ | rfl | rfl
      · exact hdevice id p hp
      · exact hdevice id p hp
      · exact ⟨hdevice id p hp, hload id twin p rfl hp⟩
  | set p name reported =>
    cases h
    refine ⟨⟨le_rfl, ?_, ?_⟩, fun _ => rfl, fun hs => hs, by simp⟩
    · intro q hq
      by_cases hpq : q = p
      · subst hpq
        simp
      · simp [hpq]
    · intro q hq
      by_cases hpq : q = p
      · subst hpq
        simp
      · simp [hpq]
  | store id p =>
    cases h
    exact ⟨⟨le_rfl, fun _ _ => rfl, fun _ _ => rfl⟩, fun _ => rfl,
      fun hs => GoMap.forall_insert hs hop, by simp⟩
  | marshal id p =>
    cases h
    refine ⟨grows_refl s, fun _ => rfl, fun hs => hs, ?_⟩
    intro op hmem
    cases List.mem_singleton.mp hmem
    exact hop.2
  | patch ns id body =>
    cases h
    obtain ⟨hgrows, hsame, hkeeps⟩ := patch_keeps hop
    split_ifs
    · refine ⟨hgrows, hkeeps, ?_, by simp⟩
      intro hs id' p' hp'
      rw [hsame] at hp'
      exact lt_of_lt_of_le (hs id' p' hp') hgrows.made
    · exact ⟨grows_refl s, fun _ => rfl, fun hs => hs, by simp⟩

section

variable {n : ℕ} {s s' : Process n}

theorem run_sound (h : Sound s) {w : Fin n} {ok : Bool} (hcalm : upToDate n s (.run w ok) = true)
    (hstep : step n s (.run w ok) = some s') :
    Sound s' ∧ ∀ key, s'.shared.desired key = s.shared.desired key := by
  have hnext : Threads.step (exec n) () s (.next w ok) = some s' := hstep
  obtain ⟨op, rest, shared, vars, ops, hthread, hexec, rfl⟩ := step_next hnext
  have hrest : (s.threads w).rest = op :: rest := by rw [hthread]
  have hload : ∀ id twin p, op = .load id twin → s.shared.device.lookup id = some p →
      current s.shared ((s.shared.objects p).ns, id) (s.shared.objects p).twins = true := by
    rintro id twin p rfl hp
    simpa [upToDate, hrest, hp] using hcalm
  have hturn := exec_turn (h.ops w op (by simp [hrest])) h.device hload hexec
  have hframe : ∀ op : Op, op.Sound s.shared → op.Sound shared := by
    intro op hop
    exact hop.frame hturn.grows fun key _ => .inr (hturn.desired key)
  refine ⟨⟨?_, hturn.device h.device⟩, hturn.desired⟩
  intro w' op' hop'
  by_cases heq : w' = w
  · subst heq
    simp only [Function.update_self, List.mem_append] at hop'
    rcases hop' with hop' | hop'
    · exact hturn.ops op' hop'
    · exact hframe op' (h.ops w' op' (by simp [hrest, hop']))
  · simp only [Function.update_of_ne heq] at hop'
    exact hframe op' (h.ops w' op' hop')

theorem step_sound (h : Sound s) {e : Event n} (hcalm : upToDate n s e = true)
    (hstep : step n s e = some s') : Sound s' := by
  cases e with
  | apply name device =>
    cases hstep
    refine ⟨?_, h.device⟩
    intro w op hop
    refine (h.ops w op hop).frame ⟨le_rfl, fun _ _ => rfl, fun _ _ => rfl⟩ ?_
    intro key hkey
    right
    unfold Cluster.desired
    rw [GoMap.lookup_insert]
    split_ifs with heq
    · subst heq
      simp only [upToDate, Bool.or_eq_true, Bool.and_eq_true, decide_eq_true_eq] at hcalm
      rcases hcalm with ⟨hmem, hcurrent⟩ | hnobody
      · obtain ⟨old, hold⟩ := GoMap.mem_iff_lookup.mp hmem
        have hsame := current_iff.mp hcurrent (desired old.twins) (by simp [Cluster.desired, hold])
        simp [hold, hsame]
      · exact absurd hkey (hnobody w op hop)
    · rfl
  | remove ns name =>
    cases hstep
    refine ⟨?_, h.device⟩
    intro w op hop
    refine (h.ops w op hop).frame ⟨le_rfl, fun _ _ => rfl, fun _ _ => rfl⟩ ?_
    intro key _
    unfold Cluster.desired
    rw [GoMap.lookup_erase]
    split_ifs
    · exact .inl rfl
    · exact .inr rfl
  | deliver =>
    simp only [step] at hstep
    split at hstep
    · cases hstep
    · rename_i d watch _
      cases hstep
      obtain ⟨hgrows, hapi, hdevice⟩ := deliver_sound { s.shared with watch := watch } d
      refine ⟨?_, hdevice h.device⟩
      intro w op hop
      refine (h.ops w op hop).frame ⟨hgrows.made, hgrows.ns, hgrows.desired⟩ ?_
      intro key _
      right
      unfold Cluster.desired
      rw [hapi]
  | receive w id twin =>
    have hcall : Threads.step (exec n) () s (.call w [.load id twin]) = some s' := hstep
    obtain ⟨-, rfl⟩ := step_call hcall
    refine ⟨?_, h.device⟩
    intro w' op hop
    by_cases heq : w' = w
    · subst heq
      simp only [Function.update_self, List.mem_singleton] at hop
      subst hop
      trivial
    · simp only [Function.update_of_ne heq] at hop
      exact h.ops w' op hop
  | run w ok => exact (run_sound h hcalm hstep).1

/-- In every interleaving of user updates, deliveries and reports in which a worker finds the
desired values of the API server in the map and no user changes them before its patch, no patch
changes a desired value or the set of twins. -/
theorem reports_keep_desired (n : ℕ) (s : Process n) (hidle : ∀ w, (s.threads w).rest = [])
    (hdevice : ∀ id p, s.shared.device.lookup id = some p → p < s.shared.made)
    (es : List (Event n)) (hcalm : Along (step n) (fun s e => upToDate n s e = true) s es) :
    Along (step n) (KeepsDesired n) s es := by
  have hstart : Sound s := by
    refine ⟨?_, hdevice⟩
    intro w op hop
    rw [hidle w] at hop
    cases hop
  refine along_of_along ?_ hstart hcalm
  intro s e s' h hcalm hstep
  refine ⟨step_sound h hcalm hstep, ?_⟩
  cases e with
  | run w ok =>
    intro s'' hs''
    rw [hstep] at hs''
    cases hs''
    exact (run_sound h hcalm hstep).2
  | _ => trivial

end

def thermometer (value : String) : Device where
  ns := str "default"
  twins := [{ propertyName := str "temperature", desired := { value := str value } }]

/-- The device is in the API server and in the map. -/
def oneDevice : Process 1 where
  shared :=
    { api := AList.insert (str "default", str "d") (thermometer "20") ∅
      objects := fun _ => thermometer "20"
      made := 1
      device := AList.insert (str "d") 0 ∅ }
  threads := fun _ => ⟨[], ()⟩

def temperatureReport : GoMap GoString MsgTwin :=
  AList.insert (str "temperature") { actual := ⟨some ⟨some (str "19")⟩, none⟩ } ∅

def onlyWorker : Fin 1 := 0

def reporting : List (Event 1) :=
  .receive 0 (str "d") temperatureReport :: List.replicate 4 (.run 0 true)

/-- Names, desired and reported values of the device in the API server. -/
def values (s : Process 1) : Option (List (GoString × GoString × GoString)) :=
  (s.shared.api.lookup (str "default", str "d")).map fun d =>
    d.twins.map fun t => (t.propertyName, t.desired.value, t.reported.value)

theorem reports_keep_desired_thermometer :
    (run (step 1) oneDevice (reporting ++ [.run 0 true, .deliver])).map values =
        some (some [(str "temperature", str "20", str "19")]) ∧
      Along (step 1) (KeepsDesired 1) oneDevice (reporting ++ [.run 0 true, .deliver]) := by
  refine ⟨by decide +kernel, reports_keep_desired 1 oneDevice (fun _ => rfl) ?_ _ ?_⟩
  · refine GoMap.forall_insert (m := ∅) ?_ Nat.zero_lt_one
    intro id p hp
    cases hp
  · apply along_of_check (p := upToDate 1) (by simp)
    decide +kernel

/-- The user asks for another value before the report comes, and the informer has not delivered
it: the patch takes it back. -/
theorem desired_value_reverted : ∃ s,
    run (step 1) oneDevice (.apply (str "d") (thermometer "25") :: reporting) = some s ∧
      values s = some [(str "temperature", str "25", [])] ∧ ¬ KeepsDesired 1 s (.run 0 true) := by
  have hrun : (run (step 1) oneDevice (.apply (str "d") (thermometer "25") :: reporting)).map
      values = some (some [(str "temperature", str "25", [])]) := by decide +kernel
  have hbefore : (run (step 1) oneDevice (.apply (str "d") (thermometer "25") :: reporting)).map
      (fun s => s.shared.desired (str "default", str "d")) =
        some (some [(str "temperature", str "25", none)]) := by decide +kernel
  have hafter : (run (step 1) oneDevice ((.apply (str "d") (thermometer "25") :: reporting) ++
      [.run 0 true])).map (fun s => s.shared.desired (str "default", str "d")) =
        some (some [(str "temperature", str "20", none)]) := by decide +kernel
  obtain ⟨s, hs, hvalues⟩ := Option.map_eq_some_iff.mp hrun
  rw [hs] at hbefore
  rw [run_append hs] at hafter
  obtain ⟨s', hs', hdesired⟩ := Option.map_eq_some_iff.mp hafter
  obtain ⟨s₁, hstep, hlast⟩ := Option.bind_eq_some_iff.mp hs'
  cases hlast
  refine ⟨s, hs, hvalues, ?_⟩
  intro hkeeps
  have hsame : s'.shared.desired (str "default", str "d") = _ := hkeeps s' hstep _
  rw [hdesired] at hsame
  cases hsame.trans (Option.some_inj.mp hbefore)

end KubeEdge.DeviceController
