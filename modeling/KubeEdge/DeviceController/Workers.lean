import KubeEdge.DeviceController.Upstream
import KubeEdge.DeviceTwin.Reporting

namespace KubeEdge.DeviceController.Reports
open Go Machine Threads DeviceTwin Cloud

def after (values : List (Option GoString)) (v : GoString) : GoString :=
  values.foldl (fun v value => value.getD v) v

@[simp] theorem after_nil (v : GoString) : after [] v = v := rfl

@[simp] theorem after_cons (value : Option GoString) (values : List (Option GoString))
    (v : GoString) : after (value :: values) v = after values (value.getD v) := rfl

@[simp] theorem after_append (values values' : List (Option GoString)) (v : GoString) :
    after (values ++ values') v = after values' (after values v) := List.foldl_append

theorem after_of_none {values : List (Option GoString)} (h : ∀ value ∈ values, value = none)
    (v : GoString) : after values v = v := by
  induction values with
  | nil => rfl
  | cons value values ih =>
    rw [after_cons, h value (.head _), Option.getD_none]
    exact ih fun value' h' => h value' (.tail _ h')

theorem after_const (values : List (Option GoString)) :
    (∀ value ∈ values, value = none) ∨ ∀ v v', after values v = after values v' := by
  induction values with
  | nil => exact .inl (by simp)
  | cons value values ih =>
    cases value with
    | some v => exact .inr fun _ _ => rfl
    | none =>
      rcases ih with hnone | hconst
      · exact .inl (by simpa using hnone)
      · exact .inr hconst

theorem after_repeated {values repeated : List (Option GoString)} {u v : GoString}
    (h : after values u = v) (hrepeated : ∀ value ∈ repeated, value = none ∨ value = some v) :
    after values (after repeated u) = v := by
  have hlast : after repeated u = u ∨ after repeated u = v := by
    clear h
    induction repeated generalizing u with
    | nil => exact .inl rfl
    | cons value repeated ih =>
      have hrest := fun value' h' => hrepeated value' (.tail _ h')
      rcases hrepeated value (.head _) with rfl | rfl
      · exact ih hrest
      · rcases ih hrest with hv | hv
        · exact .inr hv
        · exact .inr hv
  rcases hlast with hlast | hlast
  · rw [hlast, h]
  · rw [hlast]
    rcases after_const values with hnone | hconst
    · exact after_of_none hnone v
    · rw [hconst v u, h]

def reportedValue (twins : List StatusTwin) (k : GoString) : Option GoString :=
  (twins.find? fun t => t.propertyName = k).map fun t => t.reported.value

/-- The device that an operation of a worker is about; what is set is stored afterwards. -/
def Op.device : Op → Option GoString
  | .load id _ | .store id _ | .marshal id _ | .patch _ id _ => some id
  | .set _ _ _ => none

def Delivery.device : Delivery → GoString
  | .added id _ | .modified id _ | .deleted id => id

/-- No worker is busy with the device, and the informer has delivered what there was. -/
def free {n : ℕ} (s : Process n) (id : GoString) : Bool :=
  decide (∀ w, ∀ op ∈ (s.threads w).rest, Op.device op ≠ some id) &&
    decide (∀ d ∈ s.shared.watch, Delivery.device d ≠ id)

inductive Phase
  | idle
  | load (id : GoString) (twin : GoMap GoString MsgTwin)
  | setting (id : GoString) (p : ℕ) (values : List (GoString × TwinProperty))
  | marshal (id : GoString) (p : ℕ)
  | patch (id : GoString) (p : ℕ)

namespace Phase

def ops (s : Cluster) : Phase → List Op
  | idle => []
  | load id twin => [.load id twin]
  | setting id p values =>
    values.map (fun (name, reported) => .set p name reported) ++ [.store id p, .marshal id p]
  | marshal id p => [.marshal id p]
  | patch id p => [.patch (s.objects p).ns id (s.objects p).twins]

def device : Phase → Option GoString
  | idle => none
  | load id _ | setting id _ _ | marshal id _ | patch id _ => some id

def pointer : Phase → Option (GoString × ℕ)
  | idle | load _ _ => none
  | setting id p _ | marshal id p | patch id p => some (id, p)

/-- What the worker has not put into the object yet. -/
def values (k : GoString) : Phase → List (Option GoString)
  | load _ twin => [(twin.lookup k).bind MsgTwin.report]
  | setting _ _ values =>
    values.map fun (name, reported) => if name = k then some reported.value else none
  | idle | marshal _ _ | patch _ _ => []

theorem device_of_pointer {φ : Phase} {id : GoString} {p : ℕ} (h : φ.pointer = some (id, p)) :
    φ.device = some id := by
  cases φ <;> cases h <;> rfl

theorem ops_congr {s s' : Cluster} {φ : Phase}
    (h : ∀ id p, φ.pointer = some (id, p) → s'.objects p = s.objects p) : φ.ops s' = φ.ops s := by
  cases φ with
  | patch id p => simp [ops, h id p rfl]
  | _ => rfl

theorem device_of_free {n : ℕ} {s : Process n} {φ : Phase} {id : GoString} {w : Fin n}
    (h : free s id = true) (hops : (s.threads w).rest = φ.ops s.shared) : φ.device ≠ some id := by
  simp only [free, Bool.and_eq_true, decide_eq_true_eq] at h
  have hrest := h.1 w
  rw [hops] at hrest
  cases φ with
  | idle => exact fun h => by cases h
  | setting id' p values => exact hrest (.marshal id' p) (by simp [ops])
  | _ => exact hrest _ (by simp [ops]; rfl)

end Phase

/-- What the worker that is busy with a device has not put into the object yet. -/
def Now {n : ℕ} (φ : Fin n → Phase) (id k : GoString) (now : List (Option GoString)) : Prop :=
  (∃ w, (φ w).device = some id ∧ now = (φ w).values k) ∨
    ((∀ w, (φ w).device ≠ some id) ∧ now = [])

section

variable {n : ℕ} {φ : Fin n → Phase} {w : Fin n} {ψ : Phase} {id k : GoString}
  {now : List (Option GoString)}

theorem now_update_of_ne (hw : (φ w).device ≠ some id) (hψ : ψ.device ≠ some id)
    (h : Now (Function.update φ w ψ) id k now) : Now φ id k now := by
  rcases h with ⟨w', hdevice, rfl⟩ | ⟨hidle, rfl⟩
  · by_cases heq : w' = w
    · subst heq
      rw [Function.update_self] at hdevice
      exact absurd hdevice hψ
    · rw [Function.update_of_ne heq] at hdevice ⊢
      exact .inl ⟨w', hdevice, rfl⟩
  · refine .inr ⟨fun w' hdevice => hidle w' ?_, rfl⟩
    rwa [Function.update_of_ne]
    rintro rfl
    exact hw hdevice

theorem now_update (halone : ∀ w', (φ w').device = some id → w' = w)
    (hnext : ∀ id', ψ.device = some id' → id' = id)
    (h : Now (Function.update φ w ψ) id k now) : now = ψ.values k := by
  rcases h with ⟨w', hdevice, rfl⟩ | ⟨hidle, rfl⟩
  · by_cases heq : w' = w
    · rw [heq, Function.update_self]
    · rw [Function.update_of_ne heq] at hdevice
      exact absurd (halone w' hdevice) heq
  · have hψ := hidle w
    rw [Function.update_self] at hψ
    cases ψ with
    | idle => rfl
    | _ => exact absurd (congrArg some (hnext _ rfl)) hψ

end

/-- The objects of the map are those of the API server, up to the twins of a device that a worker
is busy with. -/
structure Tracked {n : ℕ} (φ : Fin n → Phase) (s : Process n) : Prop where
  ops : ∀ w, (s.threads w).rest = (φ w).ops s.shared
  pointer : ∀ w id p, (φ w).pointer = some (id, p) → s.shared.device.lookup id = some p
  alone : ∀ w w' id, (φ w).device = some id → (φ w').device = some id → w = w'
  made : ∀ id p, s.shared.device.lookup id = some p → p < s.shared.made
  inj : ∀ id id' p, s.shared.device.lookup id = some p → s.shared.device.lookup id' = some p →
    id = id'
  api : ∀ id p, s.shared.device.lookup id = some p → ∃ twins,
    s.shared.api.lookup ((s.shared.objects p).ns, id) =
        some { s.shared.objects p with twins := twins } ∧
      twins.length = (s.shared.objects p).twins.length ∧
      ((∀ w, (φ w).device ≠ some id) → twins = (s.shared.objects p).twins)
  watch : ∀ d ∈ s.shared.watch, ∃ id p, s.shared.device.lookup id = some p ∧
    d = .modified id (s.shared.objects p) ∧ ∀ w, (φ w).device ≠ some id

/-- What the workers have not put into the objects yet, together with the values there, stays. -/
def Moves {n : ℕ} (φ : Fin n → Phase) (s : Cluster) (φ' : Fin n → Phase) (s' : Cluster) : Prop :=
  ∀ id p', s'.device.lookup id = some p' → ∃ p, s.device.lookup id = some p ∧
    ∀ k v', reportedValue (s'.objects p').twins k = some v' →
      ∃ v, reportedValue (s.objects p).twins k = some v ∧
        ∀ now', Now φ' id k now' → ∃ now, Now φ id k now ∧ after now v = after now' v'

theorem reportedValue_setReported (name k : GoString) (reported : TwinProperty)
    (twins : List StatusTwin) : reportedValue (setReported name reported twins) k =
      if name = k then (reportedValue twins k).map fun _ => reported.value
      else reportedValue twins k := by
  induction twins with
  | nil => simp [setReported, reportedValue]
  | cons t twins ih =>
    unfold setReported
    by_cases hname : t.propertyName = name
    · rw [if_pos hname]
      by_cases hk : name = k
      · simp [reportedValue, hname, hk]
      · simp [reportedValue, hname, hk]
    · rw [if_neg hname]
      by_cases hk : t.propertyName = k
      · have hne : name ≠ k := fun h => hname (hk.trans h.symm)
        simp [reportedValue, hk, hne]
      · simpa [reportedValue, hk] using ih

theorem length_setReported (name : GoString) (reported : TwinProperty) (twins : List StatusTwin) :
    (setReported name reported twins).length = twins.length := by
  induction twins with
  | nil => rfl
  | cons t twins ih =>
    unfold setReported
    split_ifs
    · rfl
    · simp [ih]

theorem after_reportedValues (twin : GoMap GoString MsgTwin) (k v : GoString) :
    after ((reportedValues twin).map fun (name, reported) =>
        if name = k then some reported.value else none) v =
      ((twin.lookup k).bind MsgTwin.report).getD v := by
  obtain ⟨entries, hnodup⟩ := twin
  change _ = ((entries.dlookup k).bind MsgTwin.report).getD v
  unfold reportedValues
  induction entries generalizing v with
  | nil => rfl
  | cons e entries ih =>
    obtain ⟨name, m⟩ := e
    obtain ⟨hnot, hnodup'⟩ := List.nodupKeys_cons.mp hnodup
    have hvalue : m.actual.value.bind TwinValue.value = m.report := rfl
    simp only [List.filterMap_cons, hvalue]
    by_cases hk : name = k
    · subst hk
      have hrest : (entries.dlookup name).bind MsgTwin.report = none := by
        rw [List.dlookup_eq_none.mpr hnot]
        rfl
      rw [List.dlookup_cons_eq, Option.bind_some]
      rw [hrest] at ih
      cases m.report with
      | none => exact ih v hnodup'
      | some value => simpa using ih value hnodup'
    · rw [List.dlookup_cons_ne _ _ (Ne.symm hk)]
      cases m.report with
      | none => exact ih v hnodup'
      | some value => simpa [hk] using ih v hnodup'

section

variable {n : ℕ} {φ : Fin n → Phase} {s s' : Process n} {w : Fin n} {id : GoString} {ψ : Phase}
  {shared : Cluster} {u : Unit}

/-- A worker goes on to `ψ`, and nothing changes but for its device. -/
structure Advance (φ : Fin n → Phase) (s : Process n) (w : Fin n) (id : GoString) (ψ : Phase)
    (shared : Cluster) : Prop where
  mine : ∀ id', (φ w).device = some id' → id' = id
  alone : ∀ w', (φ w').device = some id → w' = w
  next : ∀ id', ψ.device = some id' → id' = id
  pointer : ∀ id' p, ψ.pointer = some (id', p) → s.shared.device.lookup id' = some p
  device : ∀ id', shared.device.lookup id' = s.shared.device.lookup id'
  made : shared.made = s.shared.made
  objects : ∀ id' p, s.shared.device.lookup id' = some p → id' ≠ id →
    shared.objects p = s.shared.objects p
  api : ∀ ns id', id' ≠ id → shared.api.lookup (ns, id') = s.shared.api.lookup (ns, id')
  own : ∀ p, s.shared.device.lookup id = some p → ∃ twins,
    shared.api.lookup ((shared.objects p).ns, id) = some { shared.objects p with twins := twins } ∧
      twins.length = (shared.objects p).twins.length ∧
      (ψ.device ≠ some id → twins = (shared.objects p).twins)
  watch : ∀ d ∈ shared.watch, (d ∈ s.shared.watch ∧ Delivery.device d ≠ id) ∨
    ∃ p, s.shared.device.lookup id = some p ∧ d = .modified id (shared.objects p) ∧
      ψ.device ≠ some id

theorem Tracked.watch_ne (h : Tracked φ s) (hdevice : (φ w).device = some id) {d : Delivery}
    (hd : d ∈ s.shared.watch) : Delivery.device d ≠ id := by
  obtain ⟨id', p, -, rfl, hnobody⟩ := h.watch d hd
  rintro rfl
  exact hnobody w hdevice

theorem Advance.tracked (h : Tracked φ s) (a : Advance φ s w id ψ shared) :
    Tracked (Function.update φ w ψ) ⟨shared, Function.update s.threads w ⟨ψ.ops shared, u⟩⟩ := by
  have hother : ∀ w' id', id' ≠ id →
      ((Function.update φ w ψ w').device = some id' ↔ (φ w').device = some id') := by
    intro w' id' hid
    rw [Function.update_apply]
    split_ifs with heq
    · subst heq
      exact iff_of_false (fun h => hid (a.next id' h)) fun h => hid (a.mine id' h)
    · rfl
  have hself : ∀ w', (Function.update φ w ψ w').device = some id → w' = w ∧ ψ.device = some id := by
    intro w' hw'
    rw [Function.update_apply] at hw'
    split_ifs at hw' with heq
    · exact ⟨heq, hw'⟩
    · exact absurd (a.alone w' hw') heq
  refine ⟨?_, ?_, ?_, ?_, ?_, ?_, ?_⟩
  · intro w'
    by_cases heq : w' = w
    · subst heq
      simp
    · simp only [Function.update_of_ne heq]
      rw [h.ops w']
      refine (Phase.ops_congr ?_).symm
      intro id' q hq
      refine a.objects id' q (h.pointer w' id' q hq) ?_
      rintro rfl
      exact heq (a.alone w' (Phase.device_of_pointer hq))
  · intro w' id' p hp
    rw [Function.update_apply] at hp
    rw [a.device]
    split_ifs at hp
    · exact a.pointer id' p hp
    · exact h.pointer w' id' p hp
  · intro w₁ w₂ id' h₁ h₂
    by_cases hid : id' = id
    · subst hid
      rw [(hself w₁ h₁).1, (hself w₂ h₂).1]
    · exact h.alone w₁ w₂ id' ((hother w₁ id' hid).mp h₁) ((hother w₂ id' hid).mp h₂)
  · simp only [a.device, a.made]
    exact h.made
  · simp only [a.device]
    exact h.inj
  · simp only [a.device]
    intro id' p hp
    by_cases hid : id' = id
    · subst hid
      obtain ⟨twins, hapi, hlength, hdone⟩ := a.own p hp
      refine ⟨twins, hapi, hlength, fun hnobody => hdone ?_⟩
      simpa using hnobody w
    · obtain ⟨twins, hapi, hlength, hidle⟩ := h.api id' p hp
      rw [a.objects id' p hp hid, a.api _ _ hid]
      exact ⟨twins, hapi, hlength,
        fun hnobody => hidle fun w' hw' => hnobody w' ((hother w' id' hid).mpr hw')⟩
  · simp only [a.device]
    intro d hd
    rcases a.watch d hd with ⟨hd, hne⟩ | ⟨p, hp, rfl, hdone⟩
    · obtain ⟨id', p, hp, rfl, hnobody⟩ := h.watch d hd
      refine ⟨id', p, hp, ?_, fun w' hw' => hnobody w' ((hother w' id' hne).mp hw')⟩
      rw [a.objects id' p hp hne]
    · exact ⟨id, p, hp, rfl, fun w' hw' => hdone (hself w' hw').2⟩

theorem Advance.moves (a : Advance φ s w id ψ shared) (hbusy : (φ w).device = some id)
    (hvalues : ∀ p, s.shared.device.lookup id = some p → ∀ k v',
      reportedValue (shared.objects p).twins k = some v' →
        ∃ v, reportedValue (s.shared.objects p).twins k = some v ∧
          after ((φ w).values k) v = after (ψ.values k) v') :
    Moves φ s.shared (Function.update φ w ψ) shared := by
  intro id' p hp
  rw [a.device] at hp
  refine ⟨p, hp, fun k v' hv' => ?_⟩
  by_cases hid : id' = id
  · subst hid
    obtain ⟨v, hv, hafter⟩ := hvalues p hp k v' hv'
    refine ⟨v, hv, fun now hnow => ⟨_, .inl ⟨w, hbusy, rfl⟩, ?_⟩⟩
    rw [now_update a.alone a.next hnow, hafter]
  · rw [a.objects id' p hp hid] at hv'
    refine ⟨v', hv', fun now hnow => ⟨now, now_update_of_ne ?_ ?_ hnow, rfl⟩⟩
    · exact fun h => hid (a.mine id' h)
    · exact fun h => hid (a.next id' h)

/-- A worker goes on with its device, or is done with one that is not there; it puts nothing into
an object. -/
theorem goOn_moves (h : Tracked φ s) {device : GoMap GoString ℕ} {rest : List Op}
    (hlookup : ∀ id, device.lookup id = s.shared.device.lookup id) (hbusy : (φ w).device = some id)
    (hψ : ψ.device = some id ∨ ψ.device = none ∧ s.shared.device.lookup id = none)
    (hpointer : ∀ id' p, ψ.pointer = some (id', p) → s.shared.device.lookup id' = some p)
    (hops : rest = ψ.ops s.shared)
    (hvalues : ∀ k v p, s.shared.device.lookup id = some p →
      after ((φ w).values k) v = after (ψ.values k) v) :
    ∃ φ', Tracked φ' ⟨{ s.shared with device := device }, Function.update s.threads w ⟨rest, u⟩⟩ ∧
      Moves φ s.shared φ' { s.shared with device := device } := by
  have a : Advance φ s w id ψ { s.shared with device := device } :=
    { mine := fun id' h => Option.some_inj.mp (h.symm.trans hbusy)
      alone := fun w' hw' => h.alone w' w id hw' hbusy
      next := by
        intro id' hid'
        rcases hψ with hψ | ⟨hψ, -⟩
        · exact Option.some_inj.mp (hid'.symm.trans hψ)
        · rw [hψ] at hid'
          cases hid'
      pointer := hpointer
      device := hlookup
      made := rfl
      objects := fun _ _ _ _ => rfl
      api := fun _ _ _ => rfl
      own := by
        intro p hp
        obtain ⟨twins, hapi, hlength, -⟩ := h.api id p hp
        refine ⟨twins, hapi, hlength, fun hne => ?_⟩
        rcases hψ with hψ | ⟨-, hnone⟩
        · exact absurd hψ hne
        · rw [hnone] at hp
          cases hp
      watch := fun d hd => .inl ⟨hd, h.watch_ne hbusy hd⟩ }
  have hframe : ψ.ops { s.shared with device := device } = ψ.ops s.shared :=
    Phase.ops_congr fun _ _ _ => rfl
  refine ⟨Function.update φ w ψ, ?_, a.moves hbusy fun p hp k v hv => ⟨v, hv, hvalues k v p hp⟩⟩
  rw [hops, ← hframe]
  exact a.tracked h

theorem set_moves (h : Tracked φ s) {p : ℕ} {name : GoString} {reported : TwinProperty}
    {values : List (GoString × TwinProperty)}
    (hφ : φ w = .setting id p ((name, reported) :: values)) :
    let object := { s.shared.objects p with
      twins := setReported name reported (s.shared.objects p).twins }
    let shared := { s.shared with objects := Function.update s.shared.objects p object }
    let ψ := Phase.setting id p values
    Tracked (Function.update φ w ψ) ⟨shared, Function.update s.threads w ⟨ψ.ops s.shared, u⟩⟩ ∧
      Moves φ s.shared (Function.update φ w ψ) shared := by
  intro object shared ψ
  have hp : s.shared.device.lookup id = some p := h.pointer w id p (by rw [hφ]; rfl)
  have hbusy : (φ w).device = some id := by rw [hφ]; rfl
  have hself : shared.objects p = object := Function.update_self _ _ _
  have a : Advance φ s w id ψ shared :=
    { mine := fun id' h => Option.some_inj.mp (h.symm.trans hbusy)
      alone := fun w' hw' => h.alone w' w id hw' hbusy
      next := fun id' hid' => (Option.some_inj.mp hid').symm
      pointer := by
        rintro id' q hq
        cases hq
        exact hp
      device := fun _ => rfl
      made := rfl
      objects := by
        -- the device of the object is the only one with this pointer
        intro id' q hq hid
        refine Function.update_of_ne ?_ _ _
        rintro rfl
        exact hid (h.inj id' id q hq hp)
      api := fun _ _ _ => rfl
      own := by
        intro q hq
        cases hp.symm.trans hq
        obtain ⟨twins, hapi, hlength, -⟩ := h.api id p hp
        rw [hself]
        exact ⟨twins, hapi, hlength.trans (length_setReported ..).symm, fun hne => absurd rfl hne⟩
      watch := fun d hd => .inl ⟨hd, h.watch_ne hbusy hd⟩ }
  refine ⟨a.tracked h, a.moves hbusy ?_⟩
  intro q hq k v' hv'
  cases hp.symm.trans hq
  rw [hself] at hv'
  rw [reportedValue_setReported] at hv'
  by_cases hk : name = k
  · rw [if_pos hk] at hv'
    obtain ⟨v, hv, rfl⟩ := Option.map_eq_some_iff.mp hv'
    refine ⟨v, hv, ?_⟩
    rw [hφ]
    simp [Phase.values, hk, ψ]
  · rw [if_neg hk] at hv'
    refine ⟨v', hv', ?_⟩
    rw [hφ]
    simp [Phase.values, hk, ψ]

/-- A patch with the twins of an object. -/
structure Patched (s s' : Cluster) (id : GoString) (object : Device) : Prop where
  objects : s'.objects = s.objects
  made : s'.made = s.made
  device : s'.device = s.device
  api : ∀ key, s'.api.lookup key = if key = (object.ns, id) then some object else s.api.lookup key
  watch : ∀ d ∈ s'.watch, d ∈ s.watch ∨ d = .modified id object

theorem patch_patched {s : Cluster} {id : GoString} {object : Device} {twins : List StatusTwin}
    (hapi : s.api.lookup (object.ns, id) = some { object with twins := twins })
    (hlength : twins.length = object.twins.length) :
    Patched s (patch s object.ns id object.twins) id object := by
  unfold patch
  rw [hapi]
  split_ifs with hbody
  · have htwins : twins = object.twins := by
      rw [hbody, List.length_nil, List.length_eq_zero_iff] at hlength
      rw [hlength, hbody]
    subst htwins
    refine ⟨rfl, rfl, rfl, ?_, fun d hd => .inl hd⟩
    intro key
    split_ifs with hkey
    · rw [hkey]
      exact hapi
    · rfl
  · refine ⟨rfl, rfl, rfl, fun key => GoMap.lookup_insert .., ?_⟩
    intro d hd
    rcases List.mem_append.mp hd with hd | hd
    · exact .inl hd
    · exact .inr (List.mem_singleton.mp hd)

section

variable (h : Tracked φ s)
include h

theorem patch_moves {p : ℕ} (hφ : φ w = .patch id p) :
    let shared := patch s.shared (s.shared.objects p).ns id (s.shared.objects p).twins
    Tracked (Function.update φ w .idle) ⟨shared, Function.update s.threads w ⟨[], u⟩⟩ ∧
      Moves φ s.shared (Function.update φ w .idle) shared := by
  intro shared
  have hp : s.shared.device.lookup id = some p := h.pointer w id p (by rw [hφ]; rfl)
  have hbusy : (φ w).device = some id := by rw [hφ]; rfl
  obtain ⟨twins, hapi, hlength, -⟩ := h.api id p hp
  have hpatched : Patched s.shared shared id (s.shared.objects p) := patch_patched hapi hlength
  have a : Advance φ s w id .idle shared :=
    { mine := fun id' h => Option.some_inj.mp (h.symm.trans hbusy)
      alone := fun w' hw' => h.alone w' w id hw' hbusy
      next := fun id' h => by cases h
      pointer := fun id' p h => by cases h
      device := fun id' => by rw [hpatched.device]
      made := hpatched.made
      objects := fun id' p _ _ => by rw [hpatched.objects]
      api := fun ns id' hid => by
        rw [hpatched.api, if_neg fun hkey => hid (congrArg Prod.snd hkey)]
      own := by
        intro q hq
        cases hp.symm.trans hq
        rw [hpatched.objects, hpatched.api, if_pos rfl]
        exact ⟨_, rfl, rfl, fun _ => rfl⟩
      watch := by
        intro d hd
        rcases hpatched.watch d hd with hd | rfl
        · exact .inl ⟨hd, h.watch_ne hbusy hd⟩
        · refine .inr ⟨p, hp, ?_, fun h => by cases h⟩
          rw [hpatched.objects] }
  refine ⟨a.tracked h, a.moves hbusy fun q hq k v hv => ⟨v, ?_, ?_⟩⟩
  · rwa [hpatched.objects] at hv
  · rw [hφ]
    rfl

theorem run_moves (hstep : DeviceController.step n s (.run w true) = some s') :
    ∃ φ', Tracked φ' s' ∧ Moves φ s.shared φ' s'.shared := by
  have hnext : Threads.step (exec n) () s (.next w true) = some s' := hstep
  obtain ⟨op, rest, shared, vars, ops, hthread, hexec, rfl⟩ := step_next hnext
  have hphase : op :: rest = (φ w).ops s.shared := by
    rw [← h.ops w, hthread]
  have hsame : ∀ id, s.shared.device.lookup id = s.shared.device.lookup id := fun _ => rfl
  have hpointer : ∀ id p, (φ w).pointer = some (id, p) → (φ w).device = some id ∧
      ∀ id' p', some (id, p) = some (id', p') → s.shared.device.lookup id' = some p' := by
    intro id p hp
    refine ⟨Phase.device_of_pointer hp, fun id' p' h' => ?_⟩
    cases h'
    exact h.pointer w id p hp
  cases hφ : φ w with
  | idle =>
    rw [hφ] at hphase
    cases hphase
  | load id twin =>
    rw [hφ] at hphase
    cases hphase
    have hbusy : (φ w).device = some id := by rw [hφ]; rfl
    simp only [exec] at hexec
    cases hp : s.shared.device.lookup id with
    | none =>
      rw [hp] at hexec
      cases hexec
      refine goOn_moves (ψ := .idle) h hsame hbusy (.inr ⟨rfl, hp⟩) ?_ rfl ?_
      · exact fun _ _ h => by cases h
      · intro k v p hp'
        rw [hp] at hp'
        cases hp'
    | some p =>
      rw [hp] at hexec
      cases hexec
      refine goOn_moves (ψ := .setting id p (reportedValues twin)) h hsame hbusy (.inl rfl) ?_ ?_ ?_
      · intro id' p' h'
        cases h'
        exact hp
      · simp [Phase.ops]
      · intro k v _ _
        rw [hφ]
        exact (after_reportedValues twin k v).symm
  | setting id p values =>
    rw [hφ] at hphase
    obtain ⟨hbusy, hp⟩ := hpointer id p (by rw [hφ]; rfl)
    cases values with
    | nil =>
      cases hphase
      cases hexec
      have hlookup : ∀ id', (s.shared.device.insert id p).lookup id' =
          s.shared.device.lookup id' := by
        intro id'
        rw [GoMap.lookup_insert]
        split_ifs with hid
        · rw [hid, hp id p rfl]
        · rfl
      refine goOn_moves (ψ := .marshal id p) h hlookup hbusy (.inl rfl) hp rfl fun k v _ _ => ?_
      rw [hφ]
      rfl
    | cons value values =>
      cases hphase
      cases hexec
      exact ⟨_, set_moves h hφ⟩
  | marshal id p =>
    rw [hφ] at hphase
    cases hphase
    cases hexec
    obtain ⟨hbusy, hp⟩ := hpointer id p (by rw [hφ]; rfl)
    refine goOn_moves (ψ := .patch id p) h hsame hbusy (.inl rfl) hp rfl fun k v _ _ => ?_
    rw [hφ]
    rfl
  | patch id p =>
    rw [hφ] at hphase
    cases hphase
    cases hexec
    exact ⟨_, patch_moves h hφ⟩

/-- The informer delivers what a patch has written, which is in the map already. -/
theorem deliver_moves (hstep : DeviceController.step n s .deliver = some s') :
    Tracked φ s' ∧ Moves φ s.shared φ s'.shared := by
  simp only [DeviceController.step] at hstep
  cases hwatch : s.shared.watch with
  | nil =>
    rw [hwatch] at hstep
    cases hstep
  | cons d watch =>
    rw [hwatch] at hstep
    cases hstep
    obtain ⟨id, p, hp, rfl, hnobody⟩ := h.watch d (by simp [hwatch])
    have hshared : deliver { s.shared with watch := watch } (.modified id (s.shared.objects p)) =
        { s.shared with
          watch := watch
          objects := Function.update s.shared.objects s.shared.made (s.shared.objects p)
          made := s.shared.made + 1
          device := s.shared.device.insert id s.shared.made } := by
      simp [deliver, hp, Cluster.make]
    have hold : ∀ q < s.shared.made, Function.update s.shared.objects s.shared.made
        (s.shared.objects p) q = s.shared.objects q :=
      fun q hq => Function.update_of_ne hq.ne _ _
    simp only [hshared]
    refine ⟨⟨?_, ?_, h.alone, ?_, ?_, ?_, ?_⟩, ?_⟩
    · intro w
      rw [h.ops w]
      refine (Phase.ops_congr ?_).symm
      intro id' q hq
      exact hold q (h.made id' q (h.pointer w id' q hq))
    · intro w id' q hq
      have hid : id' ≠ id := by
        rintro rfl
        exact hnobody w (Phase.device_of_pointer hq)
      simp only [GoMap.lookup_insert, if_neg hid]
      exact h.pointer w id' q hq
    · refine GoMap.forall_insert ?_ (Nat.lt_succ_self _)
      intro id' q hq
      exact Nat.lt_succ_of_lt (h.made id' q hq)
    · intro id₁ id₂ q h₁ h₂
      rw [GoMap.lookup_insert] at h₁ h₂
      split_ifs at h₁ h₂ with hid₁ hid₂ hid₂
      · rw [hid₁, hid₂]
      · cases h₁
        exact absurd (h.made id₂ _ h₂) (lt_irrefl _)
      · cases h₂
        exact absurd (h.made id₁ _ h₁) (lt_irrefl _)
      · exact h.inj id₁ id₂ q h₁ h₂
    · refine GoMap.forall_insert ?_ ?_
      · intro id' q hq
        dsimp only
        rw [hold q (h.made id' q hq)]
        exact h.api id' q hq
      · dsimp only
        rw [Function.update_self]
        exact h.api id p hp
    · intro d hd
      obtain ⟨id', q, hq, rfl, hnobody'⟩ := h.watch d (by simp [hwatch, hd])
      by_cases hid : id' = id
      · subst hid
        cases hp.symm.trans hq
        refine ⟨id', s.shared.made, ?_, ?_, hnobody'⟩
        · exact AList.lookup_insert _
        · simp [Function.update_self]
      · refine ⟨id', q, ?_, ?_, hnobody'⟩
        · simp only [GoMap.lookup_insert, if_neg hid]
          exact hq
        · simp [hold q (h.made id' q hq)]
    · refine GoMap.forall_insert ?_ ?_
      · intro id' q hq
        simp only [hold q (h.made id' q hq)]
        exact ⟨q, hq, fun k v hv => ⟨v, hv, fun now hnow => ⟨now, hnow, rfl⟩⟩⟩
      · simp only [Function.update_self]
        exact ⟨p, hp, fun k v hv => ⟨v, hv, fun now hnow => ⟨now, hnow, rfl⟩⟩⟩

theorem receive_tracked {twin : GoMap GoString MsgTwin} (hfree : free s id = true)
    (hstep : DeviceController.step n s (.receive w id twin) = some s') :
    s'.shared = s.shared ∧ (φ w).device = none ∧
      Tracked (Function.update φ w (.load id twin)) s' := by
  have hcall : Threads.step (exec n) () s (.call w [.load id twin]) = some s' := hstep
  obtain ⟨hrest, rfl⟩ := step_call hcall
  have hidle : (φ w).device = none := by
    have hops := h.ops w
    rw [hrest] at hops
    cases hφ : φ w with
    | idle => rfl
    | setting id p values =>
      rw [hφ] at hops
      simp [Phase.ops] at hops
    | _ =>
      rw [hφ] at hops
      cases hops
  have hnobody : ∀ w', (φ w').device ≠ some id := fun w' => Phase.device_of_free hfree (h.ops w')
  have a : Advance φ s w id (.load id twin) s.shared :=
    { mine := fun id' h => by rw [hidle] at h; cases h
      alone := fun w' hw' => absurd hw' (hnobody w')
      next := fun id' h => (Option.some_inj.mp h).symm
      pointer := fun id' p h => by cases h
      device := fun _ => rfl
      made := rfl
      objects := fun _ _ _ _ => rfl
      api := fun _ _ _ => rfl
      own := by
        intro p hp
        obtain ⟨twins, hapi, hlength, -⟩ := h.api id p hp
        exact ⟨twins, hapi, hlength, fun hne => absurd rfl hne⟩
      watch := by
        simp only [free, Bool.and_eq_true, decide_eq_true_eq] at hfree
        exact fun d hd => .inl ⟨hd, hfree.2 d hd⟩ }
  exact ⟨rfl, hidle, a.tracked h⟩

end

end

end KubeEdge.DeviceController.Reports
