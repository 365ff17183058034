import KubeEdge.DeviceTwin.Agreement
import KubeEdge.DeviceTwin.Versions

namespace KubeEdge.DeviceTwin.Cloud
open Go Machine Versions

variable {isFloat : GoString → Bool}

/-- `TwinProperty`; the metadata may be nil. -/
structure TwinProperty where
  value : GoString := []
  metadata : Option (GoMap GoString GoString) := none

/-- `v1alpha2.Twin`. -/
structure StatusTwin where
  propertyName : GoString
  desired : TwinProperty
  reported : TwinProperty := {}

/-- `reflect.DeepEqual` of values that may be nil: nil is not the same as empty. -/
def deepEqual {α : Type} (same : α → α → Bool) : Option α → Option α → Bool
  | none, none => true
  | some a, some b => same a b
  | _, _ => false

def TwinProperty.same (p q : TwinProperty) : Bool :=
  -- the order of a map does not count
  p.value = q.value &&
    deepEqual (fun m m' => decide (m.entries.Perm m'.entries)) p.metadata q.metadata

def StatusTwin.same (t t' : StatusTwin) : Bool :=
  t.propertyName = t'.propertyName && t.desired.same t'.desired && t.reported.same t'.reported

def isDeviceStatusUpdated (oldTwin newTwin : Option (List StatusTwin)) : Bool :=
  -- the twins of a status may be nil
  !deepEqual (fun l l' => l.isEqv l' StatusTwin.same) oldTwin newTwin

/-- A resource version that is not a number counts as zero. -/
def cloudVersion (version : GoString) : Int64 := Int64.ofInt ((parseInt version).getD 0)

def StatusTwin.type (twin : StatusTwin) : GoString :=
  (twin.desired.metadata.bind fun m => m.lookup (str "type")).getD (str "string")

/-- The entry for a twin, by its type and the resource version. -/
def StatusTwin.msgTwin (twin : StatusTwin) (type version : GoString) : MsgTwin where
  expected := ⟨some ⟨some twin.desired.value⟩, some ⟨cloudVersion version, 0⟩⟩
  optional := some false
  metadata := some type

def addUpdatedTwins (newTwin : List StatusTwin) (twin : Update) (version : GoString) : Update :=
  newTwin.foldl (fun twin dtwin =>
    twin.insert dtwin.propertyName (some (dtwin.msgTwin dtwin.type version))) twin

def ifTwinPresent (twin : StatusTwin) (newTwins : List StatusTwin) : Bool :=
  newTwins.any fun dtwin => twin.propertyName = dtwin.propertyName

def addDeletedTwins (oldTwin newTwin : List StatusTwin) (twin : Update) (version : GoString) :
    Update :=
  oldTwin.foldl (fun twin dtwin =>
    if ifTwinPresent dtwin newTwin then twin
    else twin.insert dtwin.propertyName (some (dtwin.msgTwin (str "deleted") version))) twin

/-- A message to the edge, by the statuses it was made from. -/
structure Sent where
  oldTwin : List StatusTwin
  newTwin : List StatusTwin
  version : GoString

def Sent.twin (m : Sent) : Update :=
  addDeletedTwins m.oldTwin m.newTwin (addUpdatedTwins m.newTwin ∅ m.version) m.version

/-- The versions that a message has. -/
def Sent.bound (m : Sent) : Version := ⟨cloudVersion m.version, 0⟩

variable {k version : GoString} {e : Option MsgTwin} {t : Option Twin} {o : Dealt} {d : DealType}
  {seen : Int64} {b : Version} {row : Option Row} {newTwin : List StatusTwin}
  {msgTwin : Option Update}

theorem lookup_addUpdatedTwins (h : (addUpdatedTwins newTwin ∅ version).lookup k = some e) :
    ∃ twin ∈ newTwin, twin.propertyName = k ∧ e = some (twin.msgTwin twin.type version) := by
  induction newTwin using List.reverseRecOn with
  | nil => cases h
  | append_singleton newTwin dtwin ih =>
    unfold addUpdatedTwins at h ih
    rw [List.foldl_concat, GoMap.lookup_insert] at h
    split_ifs at h with hk
    · cases h
      exact ⟨dtwin, by simp, hk.symm, rfl⟩
    · obtain ⟨twin, htwin, hname, he⟩ := ih h
      exact ⟨twin, by simp [htwin], hname, he⟩

theorem lookup_addDeletedTwins {oldTwin : List StatusTwin} {twin : Update}
    (h : (addDeletedTwins oldTwin newTwin twin version).lookup k = some e) :
    twin.lookup k = some e ∨ k ∉ newTwin.map StatusTwin.propertyName ∧
      ∃ twin : StatusTwin, e = some (twin.msgTwin (str "deleted") version) := by
  induction oldTwin using List.reverseRecOn with
  | nil => exact .inl h
  | append_singleton oldTwin dtwin ih =>
    unfold addDeletedTwins at h ih
    rw [List.foldl_concat] at h
    split_ifs at h with hpresent
    · exact ih h
    · rw [GoMap.lookup_insert] at h
      split_ifs at h with hk
      · cases h
        refine .inr ⟨?_, dtwin, rfl⟩
        intro hmem
        obtain ⟨twin', htwin', hname⟩ := List.mem_map.mp hmem
        exact hpresent (List.any_eq_true.mpr ⟨twin', htwin', by simp [hname, hk]⟩)
      · exact ih h

/-- An entry is that of a twin of the new status, or of one that is there no more. -/
theorem entry_cases {m : Sent} (h : m.twin.lookup k = some e) :
    (∃ twin ∈ m.newTwin, twin.propertyName = k ∧ e = some (twin.msgTwin twin.type m.version)) ∨
      k ∉ m.newTwin.map StatusTwin.propertyName ∧
        ∃ twin : StatusTwin, e = some (twin.msgTwin (str "deleted") m.version) :=
  (lookup_addDeletedTwins h).imp_left lookup_addUpdatedTwins

structure World where
  /-- The status that the cloud has cached. -/
  status : Option (List StatusTwin)
  /-- The last resource version. -/
  version : Int64
  /-- The messages that the edge has not taken yet. -/
  sent : List Sent := []
  edge : Device
  /-- The message that the last step has dealt with, if it was one. -/
  processed : Option Sent := none

inductive Event
  | deviceUpdated (twins : Option (List StatusTwin)) (resourceVersion : GoString)
  | dealTwinSync
  | dealTwinUpdate (msgTwin : Option Update)

/-- A message whose writes succeed.  One that is not accepted changes nothing, and after a panic
the edge starts again. -/
def call (isFloat : GoString → Bool) (s : Device) (msgTwin : Option Update) (d : DealType) :
    Device :=
  match unmarshalDeviceTwinUpdate msgTwin with
  | .error _ => s
  | .ok twin =>
    match dealDeviceTwin isFloat s (some twin) d .committed with
    | .ok (s', _) => s'
    | .error _ => { s with twins := deviceTwinToMsgTwin s.rows }

def step (isFloat : GoString → Bool) (s : World) : Event → Option World
  | .deviceUpdated twins resourceVersion =>
    -- resource versions go up
    if s.version < cloudVersion resourceVersion then
      some { s with
        status := twins
        version := cloudVersion resourceVersion
        sent := if isDeviceStatusUpdated s.status twins then
            s.sent ++ [⟨s.status.getD [], twins.getD [], resourceVersion⟩]
          else s.sent
        processed := none }
    else none
  | .dealTwinSync =>
    match s.sent with
    | [] => none
    | m :: sent => some { s with
        sent := sent
        edge := call isFloat s.edge (some m.twin) .sync
        processed := some m }
  | .dealTwinUpdate msgTwin =>
    some { s with edge := call isFloat s.edge msgTwin .rest, processed := none }

/-- The twin has the value that was sent, or is marked deleted if the cloud has removed it. -/
def Sent.Arrives (m : Sent) (k : GoString) (msg : MsgTwin) (t : Twin) : Prop :=
  if k ∈ m.newTwin.map StatusTwin.propertyName then
    text t.expected.value = text msg.expected.value
  else t.deleted = true

/-- What was dealt with last is at the edge. -/
def Reached (s : World) : Prop :=
  ∀ m, s.processed = some m → ∀ k e, m.twin.lookup k = some e →
    ∃ msg t, e = some msg ∧ s.edge.twins.lookup k = some t ∧ m.Arrives k msg t

/-- The entries from the edge that leave the expected version alone. -/
def leavesExpected : Option Twin → Option MsgTwin → Bool
  | _, some msg => msg.expected.value.isNone
  | t, none => t.all fun t => !t.optional || t.deleted || !t.hasVersion .expected

/-- The entries from the cloud that are valid for the twin: its type is that of the value, and
there is something to delete. -/
def fits (isFloat : GoString → Bool) : Option Twin → MsgTwin → Bool
  | none, msg => !badValue isFloat msg.type msg.expected
  | some t, msg =>
    if msg.deletes .sync then t.deleted || t.hasVersion .expected || t.hasVersion .actual
    else !t.rejects isFloat msg .expected

/-- The steps after which desired values reach the edge: what is declared is not of the type
`deleted`, a message has only keys and values that the edge accepts, and its entries fit. -/
def undisturbed (isFloat : GoString → Bool) (s : World) : Event → Bool
  | .deviceUpdated twins _ => (twins.getD []).all fun twin => twin.type ≠ str "deleted"
  | .dealTwinSync => s.sent.head?.all fun m => m.twin.entries.all fun e =>
      validateTwinKey e.1 && e.2.all fun msg =>
        acceptsValue msg.expected.value && fits isFloat (s.edge.twins.lookup e.1) msg
  | .dealTwinUpdate msgTwin => msgTwin.all fun content => content.entries.all fun e =>
      leavesExpected (s.edge.twins.lookup e.1) e.2

/-- The expected version in memory and in the row is at most the bound. -/
structure Within (bound : Version) (t : Option Twin) (row : Option Row) : Prop where
  memory : ∀ t', t = some t' → t'.expected.version ≤ some bound
  table : ∀ row', row = some row' → row'.expected.version ≤ some bound

def EdgeWithin (bound : Version) (s : Device) : Prop :=
  ∀ k, Within bound (s.twins.lookup k) (s.rows.lookup k)

theorem Within.mono {b' : Version} (hb : b ≤ b') (h : Within b t row) :
    Within b' t row where
  memory t' ht := option_le_trans (h.memory t' ht) (Option.some_le_some.mpr hb)
  table row' hrow := option_le_trans (h.table row' hrow) (Option.some_le_some.mpr hb)

theorem reloaded_within {s : Device} (h : EdgeWithin b s) :
    EdgeWithin b ⟨deviceTwinToMsgTwin s.rows, s.rows⟩ := by
  intro k
  refine ⟨?_, (h k).table⟩
  intro t ht
  rw [lookup_deviceTwinToMsgTwin] at ht
  obtain ⟨row, hrow, rfl⟩ := Option.map_eq_some_iff.mp ht
  exact (h k).table row hrow

theorem within_of_update {t' : Twin} (cols : Cols) (h : Within b t row) (htwin : o.twin = some t')
    (hversion : t'.expected.version ≤ some b)
    (hchange : o.change = some (.update cols) ∨ o.change = none)
    (hcols : ∀ x, cols.expected = some x → t'.expected.version = some x.2) :
    Within b (o.twin.or t) (o.row row) := by
  constructor
  · rintro t'' ht''
    rw [htwin] at ht''
    cases ht''
    exact hversion
  · intro row' hrow'
    unfold Dealt.row at hrow'
    rcases hchange with hchange | hchange
    · rw [hchange] at hrow'
      obtain ⟨row₀, hrow₀, rfl⟩ := Option.map_eq_some_iff.mp hrow'
      change (row₀.expected.update cols.expected).version ≤ _
      cases hx : cols.expected with
      | none => exact h.table row₀ hrow₀
      | some x =>
        rw [hcols x hx] at hversion
        exact hversion
    · rw [hchange] at hrow'
      exact h.table row' hrow'

theorem within_of_same {t : Twin} (h : Within b (some t) row) (htwin : o.twin = some t)
    (hchange : o.change = none) :
    Within b (o.twin.or (some t)) (o.row row) :=
  within_of_update {} h htwin (h.memory t rfl) (.inr hchange) (by simp)

theorem within_of_add {row' : Row} (hversion : row'.expected.version ≤ some b) :
    Within b ((addRow row' d).twin.or t) ((addRow row' d).row row) := by
  constructor
  · rintro t' ⟨⟩
    exact hversion
  · rintro row'' ⟨⟩
    exact hversion

theorem comparePart_none {msg : MsgTwin} {p : Part} (c : Comparing)
    (h : (msg.side p).value = none) :
    comparePart isFloat msg d p c = .ok (.ok c) := by
  simp [comparePart, compareSide, isTwinValueDiff, h]

theorem dealTwin_leaves (hb : {} ≤ b) {m : Option MsgTwin} (h : Within b t row)
    (hm : leavesExpected t m = true) (hdeal : dealTwin isFloat t m .rest = .ok o) :
    Within b (o.twin.or t) (o.row row) := by
  cases t with
  | none =>
    rcases dealTwinAdd_cases hdeal with ⟨-, rfl⟩ | ⟨msg, rfl, -, ⟨e, left, rfl, -⟩ |
      ⟨expected, actual, hexpected, -, rfl⟩⟩
    · exact h
    · exact h
    · have hnone : (msg.side .expected).value = none := Option.isNone_iff_eq_none.mp hm
      rcases addPart_cases hexpected with ⟨-, hcolumn⟩ | ⟨value, v, hvalue, -⟩ | ⟨-, -, e, he⟩ |
        ⟨-, -, -, e, he⟩
      · cases hcolumn
        exact within_of_add Option.none_le
      · rw [hnone] at hvalue
        cases hvalue
      · cases he
      · cases he
  | some t =>
    rcases dealTwin_cases hdeal with ⟨-, -, -, rfl⟩ | ⟨-, rfl, hoptional, rfl⟩ | ⟨hd, -⟩ |
      ⟨msg, rfl, -, hcompare⟩
    · exact within_of_same h rfl rfl
    · rcases deleteTwin_cases t {} .rest with ⟨-, htwin, hchange⟩ | ⟨hdeleted,
        ⟨e, -, htwin, hchange⟩ | ⟨expected, expectedCols, hexpected, hcases⟩⟩
      · exact within_of_same h htwin hchange
      · exact within_of_same h htwin hchange
      · -- a side without a version gets the first one, and nothing is written for it
        have hnone : t.hasVersion .expected = false := by
          simpa [leavesExpected, hoptional, hdeleted] using hm
        rcases deletePart_ok hexpected with ⟨v, w, hv, -⟩ | ⟨-, rfl, rfl⟩
        · simp [Twin.hasVersion, hv] at hnone
        · have hfirst : (some {}) ≤ some b := Option.some_le_some.mpr hb
          rcases hcases with ⟨e, -, htwin, hchange⟩ | ⟨actual, actualCols, -, htwin, hchange⟩
          · exact within_of_update {} h htwin hfirst (.inr hchange) (by simp)
          · let cols : Cols := { actual := actualCols, attrType := some (str "deleted") }
            refine within_of_update cols h htwin hfirst ?_ (by simp [cols])
            rw [hchange]
            exact ite_eq_or_eq ..
    · exact absurd rfl hd
    · have hnone : (msg.side .expected).value = none := Option.isNone_iff_eq_none.mp hm
      have hfirst :
          comparePart isFloat msg .rest .expected { twin := t } = .ok (.ok { twin := t }) :=
        comparePart_none _ hnone
      rcases dealTwinCompare_cases hcompare with ⟨-, c, p, e, hc, -, htwin, hchange, -, -⟩ |
        ⟨c₁, c₂, document, hc₁, hc₂, rfl⟩
      · have hsame : c.twin = t := by
          rcases hc with ⟨rfl, -⟩ | ⟨hc, -⟩
          · rfl
          · rw [hfirst] at hc
            cases hc
            rfl
        exact within_of_same h (hsame ▸ htwin) hchange
      · rw [hfirst] at hc₁
        cases hc₁
        have hside : (compareRest msg c₂).twin.side .expected = t.side .expected :=
          (compareRest_side msg c₂ .expected).1.trans
            ((comparePart_sameBut hc₂).side .expected (by decide))
        have hcols : (compareRest msg c₂).cols.side .expected = none :=
          (compareRest_side msg c₂ .expected).2.trans
            ((comparePart_sameBut hc₂).cols .expected (by decide))
        refine within_of_update (compareRest msg c₂).cols h (twin_compareResult ..) ?_ ?_ ?_
        · change ((compareRest msg c₂).twin.side .expected).version ≤ _
          rw [hside]
          exact h.memory t rfl
        · rw [change_compareResult]
          exact ite_eq_or_eq ..
        · intro x hx
          change (compareRest msg c₂).cols.side .expected = some x at hx
          rw [hcols] at hx
          cases hx

theorem dealVersion_newer {v : Version} (hd : d ≠ .rest) (h : v ≤ b) :
    dealVersion v (some b) d = .ok b := by
  simp [dealVersion, hd, Int64.not_lt.mpr h.1, Int64.not_lt.mpr h.2]

section

variable (hfirst : {} ≤ b) {side : Side} (hside : side.version ≤ some b)
include hfirst hside

theorem getD_le : side.version.getD {} ≤ b := by
  cases hversion : side.version with
  | none => exact hfirst
  | some v =>
    rw [hversion] at hside
    exact Option.some_le_some.mp hside

theorem accepts_newer {msg : Side} (hd : d ≠ .rest) (hmsg : msg.version = some b) :
    accepts side msg d = true := by
  simp only [accepts, requested, if_neg hd, hmsg]
  rw [dealVersion_newer hd (getD_le hfirst hside)]
  rfl

end

section

variable {twin : StatusTwin} {type : GoString} (hfirst : ({} : Version) ≤ ⟨cloudVersion version, 0⟩)
include hfirst

theorem comparePart_takes {t : Twin}
    (ht : t.expected.version ≤ some ⟨cloudVersion version, 0⟩)
    (hvalid : t.rejects isFloat (twin.msgTwin type version) .expected = false) :
    ∃ c, comparePart isFloat (twin.msgTwin type version) .sync .expected { twin := t } =
        .ok (.ok c) ∧
      c.twin.side .expected = (twin.msgTwin type version).expected ∧
      c.cols.side .expected = some (some twin.desired.value, ⟨cloudVersion version, 0⟩) := by
  have haccepts : accepts (t.side .expected) ((twin.msgTwin type version).side .expected) .sync =
      true := accepts_newer hfirst ht (by decide) rfl
  have hrefuses : t.refuses isFloat (twin.msgTwin type version) .sync .expected = false := by
    simp [Twin.refuses, haccepts]
  have htakes : t.takes isFloat (twin.msgTwin type version) .sync .expected = true := by
    simp only [Twin.takes, haccepts, Bool.and_true]
    unfold Twin.rejects badValue at hvalid
    unfold offers
    cases hvalue : (t.side .expected).value with
    | none => rfl
    | some old =>
      rw [hvalue] at hvalid
      simpa [StatusTwin.msgTwin, MsgTwin.side] using hvalid
  obtain ⟨c, hc⟩ : ∃ c, comparePart isFloat (twin.msgTwin type version) .sync .expected
      { twin := t } = .ok (.ok c) := by
    apply comparePart_returns
    · simp [StatusTwin.msgTwin, MsgTwin.side]
    · intro _ h
      rw [hrefuses] at h
      cases h
  refine ⟨c, hc, ?_⟩
  rcases comparePart_cases hc with ⟨-, hallow | ⟨hnot, -, -⟩⟩ | ⟨old, -, hnot, -⟩ |
    ⟨value, v, -, -, hvalue, hdeal, htwin, hcols, -, -⟩
  · cases hallow
  · rw [htakes] at hnot
    cases hnot
  · rw [hrefuses] at hnot
    cases hnot
  · cases hvalue
    rw [dealVersion_sync hdeal |> Option.some_inj.mp |>.symm] at htwin hcols
    rw [htwin, hcols]
    exact ⟨Twin.side_setSide .., Cols.side_setSide ..⟩

theorem dealTwin_updated {t : Twin} (h : Within ⟨cloudVersion version, 0⟩ (some t) row)
    (htype : type ≠ str "deleted")
    (hvalid : t.rejects isFloat (twin.msgTwin type version) .expected = false) :
    ∃ o t', dealTwin isFloat (some t) (some (twin.msgTwin type version)) .sync = .ok o ∧
      o.twin = some t' ∧ text t'.expected.value = twin.desired.value ∧
      Within ⟨cloudVersion version, 0⟩ (o.twin.or (some t)) (o.row row) := by
  obtain ⟨c₁, hc₁, hside₁, hcols₁⟩ := comparePart_takes hfirst (h.memory t rfl) hvalid
  have hc₂ : comparePart isFloat (twin.msgTwin type version) .sync .actual c₁ = .ok (.ok c₁) :=
    comparePart_none c₁ rfl
  obtain ⟨document, hcompare⟩ := dealTwinCompare_of_parts hc₁ hc₂
  obtain ⟨hside, hcols⟩ := compareRest_side (twin.msgTwin type version) c₁ .expected
  rw [hside₁] at hside
  rw [hcols₁] at hcols
  have hmeta : (twin.msgTwin type version).metadata ≠ some (str "deleted") := by
    simpa [StatusTwin.msgTwin] using htype
  refine ⟨_, _, (dealTwin_compare rfl hmeta).trans hcompare, twin_compareResult .., ?_, ?_⟩
  · exact congrArg (fun side : Side => text side.value) hside
  · refine within_of_update (compareRest (twin.msgTwin type version) c₁).cols h
      (twin_compareResult ..) ?_ ?_ ?_
    · exact (congrArg Side.version hside).symm ▸ option_le_refl _
    · rw [change_compareResult]
      exact ite_eq_or_eq ..
    · intro x hx
      cases hcols.symm.trans hx
      exact congrArg Side.version hside

variable (isFloat twin) in
theorem dealTwin_removed {t : Twin} (h : Within ⟨cloudVersion version, 0⟩ (some t) row)
    (hversion : (t.deleted || t.hasVersion .expected || t.hasVersion .actual) = true) :
    ∃ o t', dealTwin isFloat (some t) (some (twin.msgTwin (str "deleted") version)) .sync = .ok o ∧
      o.twin = some t' ∧ t'.deleted = true ∧
      Within ⟨cloudVersion version, 0⟩ (o.twin.or (some t)) (o.row row) := by
  refine ⟨deleteTwin t (twin.msgTwin (str "deleted") version) .sync, ?_⟩
  have hdelete :
      dealTwin isFloat (some t) (some (twin.msgTwin (str "deleted") version)) .sync = _ :=
    dealTwin_delete rfl
  rcases deleteTwin_cases t (twin.msgTwin (str "deleted") version) .sync with
    ⟨hdeleted, htwin, hchange⟩ | ⟨hdeleted, ⟨e, herror, -⟩ | ⟨expected, expectedCols, hexpected,
      ⟨e, herror, -⟩ | ⟨actual, actualCols, hactual, htwin, hchange⟩⟩⟩
  · exact ⟨t, hdelete, htwin, hdeleted, within_of_same h htwin hchange⟩
  · have haccepts : accepts (t.side .expected)
        ((twin.msgTwin (str "deleted") version).side .expected) (deleteType .sync) = true :=
      accepts_newer hfirst (h.memory t rfl) (by decide) rfl
    rw [(deletePart_error herror).2] at haccepts
    cases haccepts
  · have haccepts := (deletePart_error herror).2
    cases haccepts
  · have hcols := (deletePart_cols hexpected).1
    have hcols' := (deletePart_cols hactual).1
    refine ⟨_, hdelete, htwin, ?_, ?_⟩
    · rw [hdeleted, Bool.false_or] at hversion
      unfold Twin.deleted typeAfter
      rw [hcols, hcols']
      rcases Bool.or_eq_true_iff.mp hversion with hsome | hsome <;> simp [hsome]
    · let cols : Cols :=
        { expected := expectedCols, actual := actualCols, attrType := some (str "deleted") }
      have hside : expected.version ≤ some ⟨cloudVersion version, 0⟩ ∧
          ∀ x, expectedCols = some x → expected.version = some x.2 := by
        rcases deletePart_ok hexpected with ⟨v, w, hv, -, hdeal, rfl, rfl⟩ | ⟨-, rfl, rfl⟩
        · have hle := h.memory t rfl
          change (t.side .expected).version ≤ _ at hle
          rw [hv] at hle
          have hdeal' : Except.ok _ = Except.ok w :=
            (dealVersion_newer (by decide) (Option.some_le_some.mp hle)).symm.trans hdeal
          cases hdeal'
          exact ⟨option_le_refl _, by rintro x ⟨⟩; rfl⟩
        · exact ⟨Option.some_le_some.mpr hfirst, by simp⟩
      refine within_of_update cols h htwin hside.1 ?_ hside.2
      rw [hchange]
      exact ite_eq_or_eq ..

theorem dealTwin_added
    (hvalid : badValue isFloat type (twin.msgTwin type version).expected = false) :
    dealTwin isFloat none (some (twin.msgTwin type version)) .sync = .ok (addRow
      ⟨⟨twin.desired.value, some ⟨cloudVersion version, 0⟩⟩, ⟨[], none⟩, false, type⟩ .sync) := by
  have hok : ∃ u, validateValue isFloat type twin.desired.value = .ok u := by
    simp only [badValue, StatusTwin.msgTwin, Option.any_some] at hvalid
    cases hv : validateValue isFloat type twin.desired.value with
    | error e => simp [hv] at hvalid
    | ok u => exact ⟨u, rfl⟩
  obtain ⟨u, hu⟩ := hok
  have hdeal := dealVersion_newer (d := .sync) (by decide) hfirst
  simp only [dealTwin, dealTwinAdd, keepsVersions, addSide, StatusTwin.msgTwin, requested,
    reduceCtorEq, if_false, deref_some, ok_bind, Option.getD_some, hdeal, hu]
  split_ifs <;> rfl

end

theorem unmarshal_ok {content : Update} (h : unmarshalDeviceTwinUpdate msgTwin = .ok content) :
    msgTwin = some content := by
  unfold unmarshalDeviceTwinUpdate at h
  cases msgTwin with
  | none => cases h
  | some twin =>
    dsimp only at h
    split_ifs at h
    cases h
    rfl

theorem unmarshal_sent {m : Sent} (hkeys : ∀ e ∈ m.twin.entries, validateTwinKey e.1 = true)
    (hvalues : ∀ k msg, m.twin.lookup k = some (some msg) →
      acceptsValue msg.expected.value = true) :
    unmarshalDeviceTwinUpdate (some m.twin) = .ok m.twin := by
  have hall : m.twin.keys.all validateTwinKey = true := by
    simpa [AList.keys, List.keys, List.all_eq_true] using hkeys
  have haccepted : m.twin.entries.all (fun e => e.2.all fun msg =>
      acceptsValue msg.expected.value && acceptsValue msg.actual.value) = true := by
    rw [List.all_eq_true]
    rintro ⟨k, e⟩ he
    have hlook := AList.mem_lookup_iff.mpr he
    rcases entry_cases hlook with ⟨twin, -, -, rfl⟩ | ⟨-, twin, rfl⟩
    · simpa [StatusTwin.msgTwin, acceptsValue] using hvalues k _ hlook
    · simpa [StatusTwin.msgTwin, acceptsValue] using hvalues k _ hlook
  simp [unmarshalDeviceTwinUpdate, hall, haccepted]

theorem call_rest_within (hfirst : {} ≤ b) {s : Device} (hs : EdgeWithin b s)
    (hmsg : ∀ content, msgTwin = some content → ∀ k m, content.lookup k = some m →
      leavesExpected (s.twins.lookup k) m = true) :
    EdgeWithin b (call isFloat s msgTwin .rest) := by
  unfold call
  cases haccepted : unmarshalDeviceTwinUpdate msgTwin with
  | error e => exact hs
  | ok content =>
    dsimp only
    cases hdeal : dealDeviceTwin isFloat s (some content) .rest .committed with
    | error e => exact reloaded_within hs
    | ok r =>
      obtain ⟨s', reply⟩ := r
      obtain ⟨outs, houts, ⟨-, rfl⟩ | ⟨-, hfails, rfl⟩ | ⟨-, hfails, -⟩⟩ :=
        dealDeviceTwin_cases hdeal
      · exact reloaded_within (s := s) hs
      · have hnodup := outcomes_nodup content.nodupKeys houts
        intro k
        by_cases hk : k ∈ outs.map Prod.fst
        · obtain ⟨⟨k, o⟩, ho, rfl⟩ := List.mem_map.mp hk
          obtain ⟨m, hm, hdeal⟩ := exists_of_mem_outcomes houts ho
          have hleaves := hmsg content (unmarshal_ok haccepted) k m (AList.mem_lookup_iff.mpr hm)
          change Within b ((rememberAll s.twins outs).lookup k) _
          rw [lookup_rememberAll hnodup s.twins ho, lookup_written hnodup (.inl rfl) hfails ho]
          exact dealTwin_leaves hfirst (hs k) hleaves hdeal
        · change Within b ((rememberAll s.twins outs).lookup k)
            ((deviceTwinTrans .committed (recordAll {} outs) s.rows).lookup k)
          rw [lookup_rememberAll_of_notMem hnodup s.twins hk,
            lookup_deviceTwinTrans_of_notMem .committed hnodup s.rows hk]
          exact hs k
      · cases hfails.1

section

variable {s : Device} {m : Sent} (hfirst : ({} : Version) ≤ m.bound) (hs : EdgeWithin m.bound s)
  (htypes : ∀ twin ∈ m.newTwin, twin.type ≠ str "deleted")
  (hfits : ∀ k msg, m.twin.lookup k = some (some msg) →
    fits isFloat (s.twins.lookup k) msg = true)
include hfirst hs htypes hfits

theorem dealTwin_reaches (he : m.twin.lookup k = some e) :
    ∃ msg o t, e = some msg ∧ dealTwin isFloat (s.twins.lookup k) e .sync = .ok o ∧
      o.twin = some t ∧ m.Arrives k msg t ∧
      Within m.bound (o.twin.or (s.twins.lookup k)) (o.row (s.rows.lookup k)) := by
  have hwithin := hs k
  rcases entry_cases he with ⟨twin, htwin, rfl, rfl⟩ | ⟨hgone, twin, rfl⟩
  · have hfit := hfits _ _ he
    have hmem : twin.propertyName ∈ m.newTwin.map StatusTwin.propertyName :=
      List.mem_map.mpr ⟨twin, htwin, rfl⟩
    simp only [Sent.Arrives, if_pos hmem]
    cases ht : s.twins.lookup twin.propertyName with
    | none =>
      rw [ht] at hfit
      have hvalid :
          badValue isFloat twin.type (twin.msgTwin twin.type m.version).expected = false := by
        simpa [fits, MsgTwin.type, StatusTwin.msgTwin] using hfit
      refine ⟨_, _, _, rfl, dealTwin_added hfirst hvalid, rfl, ?_, within_of_add (option_le_refl _)⟩
      by_cases hempty : twin.desired.value = [] <;>
        simp [Row.toTwin, Column.toSide, hempty, StatusTwin.msgTwin, text]
    | some t =>
      rw [ht] at hfit hwithin
      have hnot : (twin.msgTwin twin.type m.version).deletes .sync = false := by
        simpa [MsgTwin.deletes, StatusTwin.msgTwin] using htypes twin htwin
      rw [fits, hnot] at hfit
      have hvalid : t.rejects isFloat (twin.msgTwin twin.type m.version) .expected = false := by
        simpa using hfit
      obtain ⟨o, t', hdeal, ho, htext, hafter⟩ :=
        dealTwin_updated hfirst hwithin (htypes twin htwin) hvalid
      exact ⟨_, o, t', rfl, hdeal, ho, htext, hafter⟩
  · have hfit := hfits _ _ he
    simp only [Sent.Arrives, if_neg hgone]
    cases ht : s.twins.lookup k with
    | none =>
      have hvalid : badValue isFloat (str "deleted")
          (twin.msgTwin (str "deleted") m.version).expected = false := by
        rw [ht] at hfit
        simpa [fits, MsgTwin.type, StatusTwin.msgTwin] using hfit
      refine ⟨_, _, _, rfl, dealTwin_added hfirst hvalid, rfl, ?_, within_of_add (option_le_refl _)⟩
      simp [Row.toTwin, Twin.deleted]
    | some t =>
      rw [ht] at hfit hwithin
      obtain ⟨o, t', hdeal, ho, hdeleted, hafter⟩ :=
        dealTwin_removed isFloat twin hfirst hwithin hfit
      exact ⟨_, o, t', rfl, hdeal, ho, hdeleted, hafter⟩

theorem call_sync_reaches (haccepted : unmarshalDeviceTwinUpdate (some m.twin) = .ok m.twin) :
    EdgeWithin m.bound (call isFloat s (some m.twin) .sync) ∧
      ∀ k e, m.twin.lookup k = some e → ∃ msg t, e = some msg ∧
        (call isFloat s (some m.twin) .sync).twins.lookup k = some t ∧ m.Arrives k msg t := by
  obtain ⟨outs, houts⟩ : ∃ outs, outcomes isFloat .sync s.twins m.twin.entries = .ok outs := by
    apply outcomes_returns
    rintro ⟨k, e⟩ he
    obtain ⟨-, o, -, -, hdeal, -⟩ := dealTwin_reaches hfirst hs htypes hfits
      (AList.mem_lookup_iff.mpr he)
    exact ⟨o, hdeal⟩
  obtain ⟨reply, hdeal⟩ := dealDeviceTwin_written .committed (by decide) rfl houts
  have hcall : call isFloat s (some m.twin) .sync = written .committed s outs := by
    simp only [call, haccepted, hdeal]
  have hleaves : Leaves isFloat s (written .committed s outs) m.twin := by
    apply written_leaves _ houts
    intro k e he
    obtain ⟨msg, -, -, rfl, -⟩ := dealTwin_reaches hfirst hs htypes hfits he
    rfl
  rw [hcall]
  constructor
  · intro k
    cases he : m.twin.lookup k with
    | none =>
      rw [(hleaves.unchanged k he).1, (hleaves.unchanged k he).2]
      exact hs k
    | some e =>
      obtain ⟨o, ho, htwin, hrow⟩ := hleaves.changed k e he
      obtain ⟨-, o', -, -, ho', -, -, hafter⟩ := dealTwin_reaches hfirst hs htypes hfits he
      cases ho.symm.trans ho'
      rw [htwin, hrow]
      exact hafter
  · intro k e he
    obtain ⟨o, ho, htwin, -⟩ := hleaves.changed k e he
    obtain ⟨msg, o', t, hmsg, ho', ht, hreached, -⟩ := dealTwin_reaches hfirst hs htypes hfits he
    cases ho.symm.trans ho'
    exact ⟨msg, t, hmsg, by rw [htwin, ht]; rfl, hreached⟩

end

/-- The versions of the messages on the way. -/
def World.versions (s : World) : List Int64 := s.sent.map fun m => cloudVersion m.version

/-- The edge has gone no further than the last version it has seen, and what is on the way is
newer. -/
structure Behind (seen : Int64) (s : World) : Prop where
  first : 0 ≤ seen
  edge : EdgeWithin ⟨seen, 0⟩ s.edge
  newer : (seen :: s.versions).Pairwise (· < ·)
  latest : ∀ v ∈ seen :: s.versions, v ≤ s.version
  types : ∀ m ∈ s.sent, ∀ twin ∈ m.newTwin, twin.type ≠ str "deleted"

theorem first_le {v : Int64} (h : 0 ≤ v) : ({} : Version) ≤ ⟨v, 0⟩ := ⟨h, Int64.le_refl _⟩

variable {s' s : World}

section

variable (hs : Behind seen s)
include hs

theorem deviceUpdated_behind {twins : Option (List StatusTwin)} {resourceVersion : GoString}
    (htypes : undisturbed isFloat s (.deviceUpdated twins resourceVersion) = true)
    (h : step isFloat s (.deviceUpdated twins resourceVersion) = some s') :
    Behind seen s' ∧ Reached s' := by
  simp only [step] at h
  have hnew : ∀ twin ∈ twins.getD [], twin.type ≠ str "deleted" := by
    simpa only [undisturbed, List.all_eq_true, decide_eq_true_eq] using htypes
  split_ifs at h with hversion hupdated
  all_goals
    cases h
    have hold : ∀ v ∈ seen :: s.versions, v ≤ cloudVersion resourceVersion :=
      fun v hv => Int64.le_trans (hs.latest v hv) (Int64.le_of_lt hversion)
  · refine ⟨⟨hs.first, hs.edge, ?_, ?_, ?_⟩, by rintro m ⟨⟩⟩
    · simp only [World.versions, List.map_append]
      rw [← List.cons_append, List.pairwise_append]
      refine ⟨hs.newer, List.pairwise_singleton .., ?_⟩
      intro v hv w hw
      rw [List.mem_singleton.mp hw]
      exact Int64.lt_of_le_of_lt (hs.latest v hv) hversion
    · simp only [World.versions, List.map_append, ← List.cons_append]
      exact forall_mem_snoc hold (Int64.le_refl _)
    · exact forall_mem_snoc hs.types hnew
  · exact ⟨⟨hs.first, hs.edge, hs.newer, hold, hs.types⟩, by rintro m ⟨⟩⟩

theorem dealTwinSync_behind (hfits : undisturbed isFloat s .dealTwinSync = true)
    (h : step isFloat s .dealTwinSync = some s') : (∃ seen', Behind seen' s') ∧ Reached s' := by
  simp only [step] at h
  cases hsent : s.sent with
  | nil =>
    rw [hsent] at h
    cases h
  | cons m sent =>
    rw [hsent] at h
    cases h
    have hnewer := hs.newer
    have hlatest := hs.latest
    simp only [World.versions, hsent, List.map_cons] at hnewer hlatest
    rw [List.pairwise_cons] at hnewer
    have hlt : seen < cloudVersion m.version := hnewer.1 _ (.head _)
    have hle : seen ≤ cloudVersion m.version := Int64.le_of_lt hlt
    have hfirst : 0 ≤ cloudVersion m.version := Int64.le_trans hs.first hle
    have hbound : (⟨seen, 0⟩) ≤ m.bound := ⟨hle, Int64.le_refl _⟩
    have hwithin : EdgeWithin m.bound s.edge := fun k => (hs.edge k).mono hbound
    simp only [undisturbed, hsent, List.head?_cons, Option.all_some, List.all_eq_true,
      Bool.and_eq_true] at hfits
    have hentry : ∀ k msg, m.twin.lookup k = some (some msg) →
        acceptsValue msg.expected.value = true ∧
          fits isFloat (s.edge.twins.lookup k) msg = true := by
      intro k msg hmsg
      simpa using (hfits ⟨k, some msg⟩ (AList.mem_lookup_iff.mp hmsg)).2
    have haccepted : unmarshalDeviceTwinUpdate (some m.twin) = .ok m.twin :=
      unmarshal_sent (fun e he => (hfits e he).1) fun k msg hmsg => (hentry k msg hmsg).1
    obtain ⟨hedge, hreached⟩ := call_sync_reaches (first_le hfirst) hwithin
      (hs.types m (by simp [hsent])) (fun k msg hmsg => (hentry k msg hmsg).2) haccepted
    refine ⟨⟨cloudVersion m.version, hfirst, hedge, hnewer.2, ?_, ?_⟩, ?_⟩
    · exact fun v hv => hlatest v (.tail _ hv)
    · exact fun m' hm' => hs.types m' (by simp [hsent, hm'])
    · rintro m' ⟨⟩
      exact hreached

theorem dealTwinUpdate_behind (hleaves : undisturbed isFloat s (.dealTwinUpdate msgTwin) = true)
    (h : step isFloat s (.dealTwinUpdate msgTwin) = some s') : Behind seen s' ∧ Reached s' := by
  cases h
  refine ⟨⟨hs.first, ?_, hs.newer, hs.latest, hs.types⟩, by rintro m ⟨⟩⟩
  apply call_rest_within (first_le hs.first) hs.edge
  rintro content rfl k m hm
  simp only [undisturbed, Option.all_some, List.all_eq_true] at hleaves
  exact hleaves ⟨k, m⟩ (AList.mem_lookup_iff.mp hm)

theorem step_behind {e : Event} (he : undisturbed isFloat s e = true)
    (h : step isFloat s e = some s') : (∃ seen', Behind seen' s') ∧ Reached s' := by
  cases e with
  | deviceUpdated twins resourceVersion =>
    obtain ⟨hbehind, hreached⟩ := deviceUpdated_behind hs he h
    exact ⟨⟨seen, hbehind⟩, hreached⟩
  | dealTwinSync => exact dealTwinSync_behind hs he h
  | dealTwinUpdate msgTwin =>
    obtain ⟨hbehind, hreached⟩ := dealTwinUpdate_behind hs he h
    exact ⟨⟨seen, hbehind⟩, hreached⟩

end

/-- The device as the cloud knows it and the edge has it, with nothing on the way. -/
def start (status : Option (List StatusTwin)) (version : Int64) (edge : Device) : World :=
  { status := status, version := version, edge := edge }

/-- Desired values reach the edge in every run in which the edge leaves the expected versions
alone, accepts the keys and values of the cloud, and the values are valid for the types they are
checked against. -/
theorem desired_values_reach {status : Option (List StatusTwin)} {version : Int64} {edge : Device}
    {events : List Event} (hversion : 0 ≤ version) (hedge : EdgeWithin ⟨version, 0⟩ edge)
    (hevents : Along (step isFloat) (fun s e => undisturbed isFloat s e = true)
      (start status version edge) events) :
    Always (step isFloat) Reached (start status version edge) events := by
  have hstart : (∃ seen, Behind seen (start status version edge)) ∧
      Reached (start status version edge) := by
    refine ⟨⟨version, hversion, hedge, List.pairwise_singleton .., ?_, by rintro m ⟨⟩⟩, ?_⟩
    · intro v hv
      rw [List.mem_singleton.mp hv]
      exact Int64.le_refl _
    · rintro m ⟨⟩
  refine (always_of_along (I := fun s => (∃ seen, Behind seen s) ∧ Reached s) ?_ hstart
    hevents).mono fun s hs => hs.2
  rintro s e s' ⟨⟨seen, hs⟩, -⟩ he h
  exact step_behind hs he h

namespace Sample

def twin (name value type : String) : StatusTwin :=
  ⟨str name, ⟨str value, some (AList.singleton (str "type") (str type))⟩, {}⟩

def wanted (value : String) : Option (List StatusTwin) := some [twin "temperature" value "int"]

def thermostat : World := start none 1 {}

/-- What an application or the device itself says about the temperature. -/
def temperature (msg : MsgTwin) : Event :=
  .dealTwinUpdate (some (AList.singleton (str "temperature") (some msg)))

def reporting : List Event :=
  [.deviceUpdated (wanted "20") (str "2"), .dealTwinSync,
    temperature { actual := ⟨some ⟨some (str "19")⟩, none⟩ },
    .deviceUpdated (wanted "21") (str "3"), .deviceUpdated none (str "4"), .dealTwinSync,
    .dealTwinSync]

def overridden : List Event :=
  [.deviceUpdated (wanted "20") (str "2"), .dealTwinSync,
    temperature { expected := ⟨some ⟨some (str "25")⟩, none⟩ },
    .deviceUpdated (wanted "21") (str "3"), .dealTwinSync]

/-- A mode with a blank is wanted beside a temperature. -/
def spaced : List Event :=
  [.deviceUpdated (some [twin "temperature" "20" "int", twin "mode" "eco mode" "string"]) (str "2"),
    .dealTwinSync]

end Sample

/-- Reports of the device do not keep desired values from the edge. -/
theorem reporting_reaches :
    (run (step fun _ => false) Sample.thermostat Sample.reporting).isSome = true ∧
      Always (step fun _ => false) Reached Sample.thermostat Sample.reporting := by
  refine ⟨by decide +kernel, desired_values_reach (by decide) ?_ ?_⟩
  · intro k
    exact ⟨by rintro t ⟨⟩, by rintro row ⟨⟩⟩
  · apply along_of_check (p := undisturbed fun _ => false) (by simp)
    decide +kernel

/-- The desired value of a twin that the message dealt with last has. -/
def World.desired (s : World) (k : GoString) : Option GoString :=
  s.processed.bind fun m =>
    if k ∈ m.newTwin.map StatusTwin.propertyName then
      (m.twin.lookup k).join.map fun msg => text msg.expected.value
    else none

def World.expected (s : World) (k : GoString) : Option GoString :=
  (s.edge.twins.lookup k).map fun t => text t.expected.value

theorem expected_of_reached {value : GoString} (h : Reached s)
    (hdesired : s.desired k = some value) :
    s.expected k = some value := by
  obtain ⟨m, hm, hdesired⟩ := Option.bind_eq_some_iff.mp hdesired
  split_ifs at hdesired with hk
  obtain ⟨msg, hmsg, rfl⟩ := Option.map_eq_some_iff.mp hdesired
  obtain ⟨msg', t, heq, ht, harrives⟩ := h m hm k _ (Option.join_eq_some_iff.mp hmsg)
  cases heq
  rw [Sent.Arrives, if_pos hk] at harrives
  rw [World.expected, ht, Option.map_some, harrives]

/-- An application at the edge sets the expected temperature.  From then on its edge version is
ahead of the zero that the cloud sends, and the next desired value is refused.  A value with a
blank is refused with the whole message. -/
theorem desired_value_refused :
    (∃ s, run (step fun _ => false) Sample.thermostat Sample.overridden = some s ∧
      s.desired (str "temperature") = some (str "21") ∧
      s.expected (str "temperature") = some (str "25") ∧ ¬ Reached s) ∧
    ∃ s, run (step fun _ => false) Sample.thermostat Sample.spaced = some s ∧
      s.desired (str "mode") = some (str "eco mode") ∧
      s.desired (str "temperature") = some (str "20") ∧
      s.expected (str "mode") = none ∧ s.expected (str "temperature") = none ∧ ¬ Reached s := by
  constructor
  · have hread : (run (step fun _ => false) Sample.thermostat Sample.overridden).map (fun s =>
        (s.desired (str "temperature"), s.expected (str "temperature"))) =
        some (some (str "21"), some (str "25")) := by
      decide +kernel
    obtain ⟨s, hs, hread⟩ := Option.map_eq_some_iff.mp hread
    simp only [Prod.mk.injEq] at hread
    obtain ⟨hdesired, hexpected⟩ := hread
    refine ⟨s, hs, hdesired, hexpected, fun hreached => ?_⟩
    rw [expected_of_reached hreached hdesired] at hexpected
    exact absurd hexpected (by decide)
  · have hread : (run (step fun _ => false) Sample.thermostat Sample.spaced).map (fun s =>
        (s.desired (str "mode"), s.desired (str "temperature"), s.expected (str "mode"),
          s.expected (str "temperature"))) =
        some (some (str "eco mode"), some (str "20"), none, none) := by
      decide +kernel
    obtain ⟨s, hs, hread⟩ := Option.map_eq_some_iff.mp hread
    simp only [Prod.mk.injEq] at hread
    obtain ⟨hmode, htemperature, hnoMode, hnoTemperature⟩ := hread
    refine ⟨s, hs, hmode, htemperature, hnoMode, hnoTemperature, fun hreached => ?_⟩
    rw [expected_of_reached hreached hmode] at hnoMode
    cases hnoMode

end KubeEdge.DeviceTwin.Cloud
