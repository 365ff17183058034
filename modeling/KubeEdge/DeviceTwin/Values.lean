import KubeEdge.DeviceTwin.Agreement

namespace KubeEdge.DeviceTwin.Values
open Go Machine

variable {isFloat : GoString → Bool} {d : DealType}

/-- The values that the twin has are of its type. -/
def TypedTwin (isFloat : GoString → Bool) (t : Twin) : Prop :=
  ∀ p value, (t.side p).value = some ⟨some value⟩ → validateValue isFloat t.type value = .ok ()

/-- So it is for every twin that is not marked deleted. -/
def Typed (isFloat : GoString → Bool) (s : Device) : Prop :=
  ∀ k t, s.twins.lookup k = some t → t.deleted = false → TypedTwin isFloat t

variable {side : Side} {t t' : Twin} {s : Device} {row : Row} {o : Dealt} {msg : MsgTwin} {p : Part}
  {cols : Option (Option GoString × Version)} {m : Option MsgTwin} {content : Update}
  {type : GoString} {c' c : Comparing} {db : Database}

theorem badValue_eq_false :
    badValue isFloat type side = false ↔
      ∀ value, side.value = some ⟨some value⟩ → validateValue isFloat type value = .ok () := by
  unfold badValue
  match side.value with
  | none => simp
  | some ⟨none⟩ => simp
  | some ⟨some value⟩ =>
    cases hvalid : validateValue isFloat type value with
    | error e | ok u => simp [hvalid]

theorem typedTwin_iff : TypedTwin isFloat t ↔ ∀ p, badValue isFloat t.type (t.side p) = false :=
  forall_congr' fun _ => badValue_eq_false.symm

theorem badValue_congr {side' : Side} (h : side.value = side'.value) :
    badValue isFloat type side = badValue isFloat type side' := by
  unfold badValue
  rw [h]

def column (r : Row) : Part → Column
  | .expected => r.expected
  | .actual => r.actual

/-- Type and values of memory are those of the row, and they fit.  The versions may differ. -/
structure Fits (isFloat : GoString → Bool) (t : Twin) (row : Row) : Prop where
  type : row.attrType = t.type
  values : ∀ p, (column row p).value = text (t.side p).value
  typed : t.deleted = false → TypedTwin isFloat t

def FitsAt (isFloat : GoString → Bool) : Option Twin → Option Row → Prop
  | none, none => True
  | some t, some row => Fits isFloat t row
  | _, _ => False

def AllFit (isFloat : GoString → Bool) (s : Device) : Prop :=
  ∀ k, FitsAt isFloat (s.twins.lookup k) (s.rows.lookup k)

theorem AllFit.typed (h : AllFit isFloat s) : Typed isFloat s := by
  intro k t ht
  have hk := h k
  rw [ht] at hk
  cases hrow : s.rows.lookup k with
  | none =>
    rw [hrow] at hk
    exact hk.elim
  | some row =>
    rw [hrow] at hk
    exact hk.typed

theorem column_update (row : Row) (cols : Cols) (p : Part) :
    column (row.update cols) p = (column row p).update (cols.side p) := by
  cases p <;> rfl

theorem side_toTwin (row : Row) (p : Part) : row.toTwin.side p = (column row p).toSide := by
  cases p <;> rfl

theorem Fits.reload (h : Fits isFloat t row) : Fits isFloat row.toTwin row := by
  refine ⟨rfl, ?_, ?_⟩
  · intro p
    rw [side_toTwin]
    exact (congrArg Column.value (Column.toColumn_toSide (column row p))).symm
  · intro hdeleted p value hvalue
    have hdeleted' : t.deleted = false := by
      rw [Twin.deleted, ← h.type]
      exact hdeleted
    rw [side_toTwin] at hvalue
    unfold Column.toSide at hvalue
    by_cases hempty : (column row p).value = []
    · simp [hempty] at hvalue
    · simp only [hempty, if_false, Option.some.injEq, TwinValue.mk.injEq] at hvalue
      have htext := h.values p
      rw [hvalue] at htext hempty
      have hside : (t.side p).value = some ⟨some value⟩ := by
        rcases hside : (t.side p).value with _ | ⟨_ | value'⟩
        · rw [hside] at htext
          exact absurd htext hempty
        · rw [hside] at htext
          exact absurd htext hempty
        · rw [hside] at htext
          rw [show value = value' from htext]
      rw [show row.toTwin.type = t.type from h.type]
      exact h.typed hdeleted' p value hside

theorem reload_fits (h : AllFit isFloat s) :
    AllFit isFloat ⟨deviceTwinToMsgTwin s.rows, s.rows⟩ := by
  intro k
  have hk := h k
  simp only [lookup_deviceTwinToMsgTwin]
  cases hrow : s.rows.lookup k with
  | none => trivial
  | some row =>
    rw [hrow] at hk
    cases ht : s.twins.lookup k with
    | none =>
      rw [ht] at hk
      exact hk.elim
    | some t =>
      rw [ht] at hk
      exact hk.reload

/-- A deletion that is accepted for the expected side and refused for the actual one. -/
def halfDone (t : Twin) (msg : MsgTwin) (d : DealType) : Bool :=
  !t.deleted && t.hasVersion .expected && t.yields msg d .expected &&
    t.hasVersion .actual && !t.yields msg d .actual

theorem Fits.congr (h : Fits isFloat t row) (htype : t'.type = t.type)
    (hvalues : ∀ p, (t'.side p).value = (t.side p).value) : Fits isFloat t' row := by
  refine ⟨h.type.trans htype.symm, ?_, ?_⟩
  · intro p
    rw [h.values p, hvalues p]
  · intro hdeleted p value hvalue
    rw [hvalues p] at hvalue
    rw [htype]
    refine h.typed ?_ p value hvalue
    rw [Twin.deleted, ← htype]
    exact hdeleted

theorem fitsAt_unwritten (htwin : o.twin = some t') (hchange : o.change = none)
    (h : Fits isFloat t' row) :
    FitsAt isFloat (o.twin.or (some t)) (o.row (some row)) := by
  rw [htwin, Dealt.row, hchange]
  exact h

theorem fitsAt_written {cols : Cols} (htwin : o.twin = some t')
    (hchange : o.change = some (.update cols)) (h : Fits isFloat t' (row.update cols)) :
    FitsAt isFloat (o.twin.or (some t)) (o.row (some row)) := by
  rw [htwin, Dealt.row, hchange]
  exact h

theorem deletePart_value (hvalue : (column row p).value = text (t.side p).value)
    (h : t.deletePart msg d p = .ok (side, cols)) :
    ((column row p).update cols).value = text side.value := by
  rcases deletePart_ok h with ⟨v, w, -, -, -, rfl, rfl⟩ | ⟨-, rfl, rfl⟩
  · rfl
  · exact hvalue

theorem deletePart_unchanged (h : t.deletePart msg d p = .ok (side, cols))
    (hversion : t.hasVersion p = false) :
    side.value = (t.side p).value ∧ cols = none := by
  rcases deletePart_ok h with ⟨v, w, hsome, -⟩ | ⟨-, rfl, rfl⟩
  · simp [Twin.hasVersion, hsome] at hversion
  · exact ⟨rfl, rfl⟩

theorem deleteTwin_fits (hfits : Fits isFloat t row) (hwhole : halfDone t msg d = false) :
    FitsAt isFloat ((deleteTwin t msg d).twin.or (some t))
      ((deleteTwin t msg d).row (some row)) := by
  rcases deleteTwin_cases t msg d with ⟨-, htwin, hchange⟩ | ⟨hdeleted,
    ⟨e, -, htwin, hchange⟩ | ⟨expected, expectedCols, hexpected, ⟨e, herror, htwin, hchange⟩ |
      ⟨actual, actualCols, hactual, htwin, hchange⟩⟩⟩
  · exact fitsAt_unwritten htwin hchange hfits
  · exact fitsAt_unwritten htwin hchange hfits
  · have hversion : t.hasVersion .expected = false := by
      have hyields := (deletePart_cols hexpected).2
      obtain ⟨hsome, hrefused⟩ := deletePart_error herror
      change t.hasVersion .actual = true at hsome
      change t.yields msg d .actual = false at hrefused
      by_contra htrue
      simp only [Bool.not_eq_false] at htrue
      simp [halfDone, hdeleted, htrue, hyields htrue, hsome, hrefused] at hwhole
    obtain ⟨hvalue, rfl⟩ := deletePart_unchanged hexpected hversion
    apply fitsAt_unwritten htwin hchange
    refine hfits.congr rfl ?_
    rw [Part.forall]
    exact ⟨hvalue, rfl⟩
  · obtain ⟨hcols, -⟩ := deletePart_cols hexpected
    obtain ⟨hcols', -⟩ := deletePart_cols hactual
    rw [hcols, hcols'] at hchange
    by_cases hany : t.hasVersion .expected = true ∨ t.hasVersion .actual = true
    · rw [if_pos hany] at hchange
      have htype : typeAfter (typeAfter t.type expectedCols) actualCols = str "deleted" := by
        unfold typeAfter
        rw [hcols, hcols']
        rcases hany with hsome | hsome <;> simp [hsome]
      apply fitsAt_written htwin hchange
      refine ⟨htype.symm, ?_, ?_⟩
      · intro p
        cases p with
        | expected => exact deletePart_value (hfits.values .expected) hexpected
        | actual => exact deletePart_value (hfits.values .actual) hactual
      · intro hnot
        simp [Twin.deleted, htype] at hnot
    · rw [if_neg hany] at hchange
      have hversion : t.hasVersion .expected = false := by simpa using fun h => hany (.inl h)
      have hversion' : t.hasVersion .actual = false := by simpa using fun h => hany (.inr h)
      obtain ⟨hvalue, rfl⟩ := deletePart_unchanged hexpected hversion
      obtain ⟨hvalue', rfl⟩ := deletePart_unchanged hactual hversion'
      apply fitsAt_unwritten htwin hchange
      refine hfits.congr rfl ?_
      rw [Part.forall]
      exact ⟨hvalue, hvalue'⟩

theorem addPart_fits {c : Column} (h : msg.addPart isFloat d p = .ok (.column c)) :
    badValue isFloat msg.type c.toSide = false := by
  rcases addPart_cases h with ⟨-, hadded⟩ | ⟨value, v, hmsg, -, -, hgood, hadded⟩ |
    ⟨-, -, _, hadded⟩ | ⟨-, -, -, _, hadded⟩
  · cases hadded
    rfl
  · cases hadded
    by_cases hempty : value = []
    · simp [badValue, Column.toSide, hempty]
    · rw [← hgood]
      apply badValue_congr
      simp [Column.toSide, hempty, hmsg]
  · cases hadded
  · cases hadded

theorem dealTwinAdd_fits (h : dealTwin isFloat none m d = .ok o) :
    FitsAt isFloat (o.twin.or none) (o.row none) := by
  rcases dealTwinAdd_cases h with ⟨-, rfl⟩ | ⟨msg, -, -, ⟨e, left, rfl, -⟩ |
    ⟨expected, actual, hexpected, hactual, rfl⟩⟩
  · trivial
  · trivial
  · refine ⟨rfl, ?_, fun _ => ?_⟩
    · intro p
      rw [side_toTwin]
      exact (congrArg Column.value (Column.toColumn_toSide _)).symm
    · rw [typedTwin_iff, Part.forall]
      exact ⟨addPart_fits hexpected, addPart_fits hactual⟩

/-- A value for a side that has none is of the type. -/
def bareFits (isFloat : GoString → Bool) (t : Twin) (msg : MsgTwin) (p : Part) : Bool :=
  (t.side p).value.isSome || !badValue isFloat (valueType t msg) (msg.side p)

/-- A value that a deleted twin has left, and keeps, is of the type it comes back with. -/
def leftFits (isFloat : GoString → Bool) (t : Twin) (msg : MsgTwin) (d : DealType)
    (p : Part) : Bool :=
  !t.deleted || t.takes isFloat msg d p || !badValue isFloat (valueType t msg) (t.side p)

theorem comparePart_value (hside : c.twin.side p = t.side p) (hcols : c.cols.side p = none)
    (hvalue : (column row p).value = text (t.side p).value)
    (h : comparePart isFloat msg d p c = .ok (.ok c')) :
    ((column row p).update (c'.cols.side p)).value = text (c'.twin.side p).value := by
  rcases comparePart_cases h with ⟨rfl, -⟩ | ⟨old, -, -, hold, htwin, hc, -, -⟩ |
    ⟨value, v, -, -, -, -, htwin, hc, -, -⟩
  · rw [hcols, hside]
    exact hvalue
  · rw [hc, hcols, htwin, Twin.side_setSide]
    rw [hside] at hold
    rw [hold] at hvalue
    exact hvalue
  · rw [hc, htwin, Twin.side_setSide, Cols.side_setSide]
    rfl

theorem comparePart_fits (htype : c.twin.type = t.type) (hside : c.twin.side p = t.side p)
    (hbare : bareFits isFloat t msg p = true) (hleft : leftFits isFloat t msg d p = true)
    (htyped : t.deleted = false → TypedTwin isFloat t)
    (hcomes : t.deleted = true → c'.isSyncAllow = true)
    (h : comparePart isFloat msg d p c = .ok (.ok c')) :
    badValue isFloat (valueType t msg) (c'.twin.side p) = false := by
  have hlive : t.deleted = false → badValue isFloat (valueType t msg) (t.side p) = false := by
    intro hdeleted
    rw [valueType, hdeleted]
    exact typedTwin_iff.mp (htyped hdeleted) p
  obtain ⟨htakes, -, -⟩ := takes_congr htype hside isFloat msg d
  rcases comparePart_cases h with ⟨rfl, hkept⟩ | ⟨old, -, -, hold, htwin, -, -, hnot⟩ |
    ⟨value, v, -, htaken, hmsg, -, htwin, -, -, -⟩
  · rw [hside]
    cases hdeleted : t.deleted with
    | false => exact hlive hdeleted
    | true =>
      rcases hkept with hnot | ⟨hnot, -, -⟩
      · rw [hcomes hdeleted] at hnot
        cases hnot
      · rw [htakes] at hnot
        simpa [leftFits, hdeleted, hnot] using hleft
  · have hdeleted : t.deleted = false := by
      by_contra htrue
      rw [hcomes (by simpa using htrue)] at hnot
      cases hnot
    rw [hside] at hold
    rw [htwin, Twin.side_setSide, ← hlive hdeleted]
    exact badValue_congr hold.symm
  · have hgood : badValue isFloat (valueType t msg) (msg.side p) = false := by
      rw [htakes, Twin.takes, Bool.and_eq_true] at htaken
      have hoffers := htaken.1
      unfold bareFits at hbare
      cases hold : (t.side p).value with
      | none => simpa [hold] using hbare
      | some old =>
        unfold offers at hoffers
        rw [hmsg, hold] at hoffers
        unfold badValue
        rw [hmsg]
        cases value with
        | none => rfl
        | some value => simpa using hoffers
    rw [htwin, Twin.side_setSide, ← hgood]
    exact badValue_congr hmsg.symm

theorem dealTwinCompare_fits (hfits : Fits isFloat t row)
    (hbare : ∀ p, bareFits isFloat t msg p = true) (hleft : ∀ p, leftFits isFloat t msg d p = true)
    (h : dealTwinCompare isFloat t msg d = .ok o) (herr : o.err = none) :
    FitsAt isFloat (o.twin.or (some t)) (o.row (some row)) := by
  obtain ⟨c₁, c₂, document, hc₁, hc₂, rfl⟩ := dealTwinCompare_parts h (.inl herr)
  have hsame₁ := comparePart_sameBut hc₁
  have hsame₂ := comparePart_sameBut hc₂
  have hside₁ : c₁.twin.side .actual = t.side .actual := hsame₁.side .actual (by decide)
  have htype₂ : c₂.twin.type = t.type := hsame₂.type.trans hsame₁.type
  rw [twin_compareResult, row_compareResult hc₁ hc₂]
  refine ⟨?_, ?_, ?_⟩
  · have htype := (compareRest_mirrors msg
      (by rw [hsame₂.optionalCol, hsame₁.optionalCol])
      (by rw [hsame₂.attrType, hsame₁.attrType])).2
    rw [htype₂, ← hfits.type] at htype
    exact htype
  · intro p
    rw [column_update, (compareRest_side msg c₂ p).1, (compareRest_side msg c₂ p).2]
    cases p with
    | expected =>
      rw [hsame₂.side .expected (by decide), hsame₂.cols .expected (by decide)]
      exact comparePart_value rfl rfl (hfits.values .expected) hc₁
    | actual =>
      exact comparePart_value hside₁ (hsame₁.cols .actual (by decide)) (hfits.values .actual) hc₂
  · intro hlive
    have hkept : c₂.isSyncAllow = false → (compareRest msg c₂).twin.type = t.type := by
      intro hallow
      simp [compareRest, hallow, htype₂]
    have hcomes : t.deleted = true → c₂.isSyncAllow = true := by
      intro hdeleted
      by_contra hallow
      rw [Twin.deleted, hkept (by simpa using hallow)] at hlive
      rw [Twin.deleted, hlive] at hdeleted
      cases hdeleted
    have htype : (compareRest msg c₂).twin.type = valueType t msg := by
      cases hallow : c₂.isSyncAllow with
      | true => rw [(compareRest_eq msg c₂ hallow).1, ← valueType_congr htype₂ msg]
      | false =>
        rw [hkept hallow]
        have hdeleted : t.deleted = false := by
          by_contra htrue
          rw [hcomes (by simpa using htrue)] at hallow
          cases hallow
        rw [valueType, hdeleted]
        rfl
    have hallow₁ : c₂.isSyncAllow = true → c₁.isSyncAllow = true := by
      rw [(comparePart_decides hsame₁.type hside₁ hc₂).1, Bool.and_eq_true]
      exact And.left
    rw [typedTwin_iff, htype]
    intro p
    rw [(compareRest_side msg c₂ p).1]
    cases p with
    | expected =>
      rw [hsame₂.side .expected (by decide)]
      exact comparePart_fits rfl rfl (hbare _) (hleft _) hfits.typed
        (fun hdeleted => hallow₁ (hcomes hdeleted)) hc₁
    | actual =>
      exact comparePart_fits hsame₁.type hside₁ (hbare _) (hleft _) hfits.typed hcomes hc₂

/-- The entries that keep values and types together. -/
def careful (isFloat : GoString → Bool) (d : DealType) : Option Twin → Option MsgTwin → Bool
  | none, _ => true
  | some _, none => true
  | some t, some msg =>
    if msg.deletes d then !halfDone t msg d
    else bareFits isFloat t msg .expected && bareFits isFloat t msg .actual &&
      leftFits isFloat t msg d .expected && leftFits isFloat t msg d .actual

theorem dealTwin_fits {t : Option Twin} {row : Option Row} (hfits : FitsAt isFloat t row)
    (hcareful : careful isFloat d t m = true) (h : dealTwin isFloat t m d = .ok o)
    (herr : o.err = none) :
    FitsAt isFloat (o.twin.or t) (o.row row) := by
  match t, row with
  | none, none => exact dealTwinAdd_fits h
  | some t, some row =>
    rcases dealTwin_cases h with ⟨-, rfl, -, rfl⟩ | ⟨rfl, rfl, -, rfl⟩ |
      ⟨hd, msg, rfl, hmeta, rfl⟩ | ⟨msg, rfl, hmeta, hcompare⟩
    · exact hfits
    · exact deleteTwin_fits hfits (by simp [halfDone, Twin.yields, deleteType, accepts_rest])
    · apply deleteTwin_fits hfits
      simpa [careful, MsgTwin.deletes, hd, hmeta] using hcareful
    · simp only [careful, deletes_eq_false hmeta, Bool.false_eq_true, if_false,
        Bool.and_eq_true] at hcareful
      obtain ⟨⟨⟨hbareE, hbareA⟩, hleftE⟩, hleftA⟩ := hcareful
      exact dealTwinCompare_fits hfits (Part.forall.mpr ⟨hbareE, hbareA⟩)
        (Part.forall.mpr ⟨hleftE, hleftA⟩) hcompare herr

theorem written_fits {outs : List (GoString × Dealt)} (hs : AllFit isFloat s)
    (hcareful : ∀ k m, content.lookup k = some m → careful isFloat d (s.twins.lookup k) m = true)
    (houts : outcomes isFloat d s.twins content.entries = .ok outs) (hup : ¬ GivenUp d outs)
    (hdb : db.executed = .all ∨ db.ok = false) (hfails : ¬ Fails db outs) :
    AllFit isFloat (written db s outs) := by
  have hnodup := outcomes_nodup content.nodupKeys houts
  intro k
  by_cases hk : k ∈ outs.map Prod.fst
  · obtain ⟨⟨k, o⟩, ho, rfl⟩ := List.mem_map.mp hk
    obtain ⟨m, hm, hdeal⟩ := exists_of_mem_outcomes houts ho
    rw [lookup_written hnodup hdb hfails ho, written, lookup_rememberAll hnodup s.twins ho]
    exact dealTwin_fits (hs k) (hcareful k m (AList.mem_lookup_iff.mpr hm)) hdeal
      (err_eq_none houts hup ho)
  · change FitsAt isFloat ((rememberAll s.twins outs).lookup k)
      ((deviceTwinTrans db (recordAll {} outs) s.rows).lookup k)
    rw [lookup_rememberAll_of_notMem hnodup s.twins hk,
      lookup_deviceTwinTrans_of_notMem db hnodup s.rows hk]
    exact hs k

theorem rolledBack_rows (s : Device) (outs : List (GoString × Dealt)) :
    (written .rolledBack s outs).rows = s.rows := by
  simp [written, deviceTwinTrans, Database.take, Database.rolledBack]

theorem dealDeviceTwin_fits {s' : Device} {reply : Reply} (hs : AllFit isFloat s)
    (hdb : db = .committed ∨ db = .rolledBack)
    (hcareful : ∀ k m, content.lookup k = some m → careful isFloat d (s.twins.lookup k) m = true)
    (h : dealDeviceTwin isFloat s (some content) d db = .ok (s', reply)) : AllFit isFloat s' := by
  obtain ⟨outs, houts, hcases⟩ := dealDeviceTwin_cases h
  have hreloads : db.reloads = true := by
    rcases hdb with rfl | rfl <;> rfl
  rcases hcases with ⟨-, rfl⟩ | ⟨hup, hfails, rfl⟩ | ⟨-, hfails, rfl⟩
  · rw [syncDeviceFromSqlite, if_pos hreloads]
    exact reload_fits (s := s) hs
  · apply written_fits hs hcareful houts hup _ hfails
    rcases hdb with rfl | rfl
    · exact .inl rfl
    · exact .inr rfl
  · rcases hdb with rfl | rfl
    · cases hfails.1
    · rw [syncDeviceFromSqlite, if_pos hreloads, rolledBack_rows]
      exact reload_fits hs

/-- A call with a message and what the database does. -/
structure Call where
  twin : Option Update
  d : DealType
  db : Database := .committed

/-- A message that is not accepted changes nothing; a panic ends the process, which starts again
from the database. -/
def step (isFloat : GoString → Bool) (s : Device) (c : Call) : Option Device :=
  match unmarshalDeviceTwinUpdate c.twin with
  | .error _ => some s
  | .ok twin =>
    match dealDeviceTwin isFloat s (some twin) c.d c.db with
    | .ok (s', _) => some s'
    | .error _ => some { s with twins := deviceTwinToMsgTwin s.rows }

/-- A call all of whose entries keep values and types together, with a transaction that is made
as a whole or not at all. -/
def carefulCall (isFloat : GoString → Bool) (s : Device) (c : Call) : Bool :=
  (c.db = .committed || c.db = .rolledBack) &&
    match unmarshalDeviceTwinUpdate c.twin with
    | .error _ => true
    | .ok twin => twin.entries.all fun e => careful isFloat c.d (s.twins.lookup e.1) e.2

theorem step_fits {s' : Device} {c : Call} (hs : AllFit isFloat s)
    (hcareful : carefulCall isFloat s c = true) (h : step isFloat s c = some s') :
    AllFit isFloat s' := by
  unfold step at h
  unfold carefulCall at hcareful
  cases htwin : unmarshalDeviceTwinUpdate c.twin with
  | error e =>
    rw [htwin] at h
    cases h
    exact hs
  | ok twin =>
    rw [htwin] at h hcareful
    simp only [Bool.and_eq_true, Bool.or_eq_true, decide_eq_true_eq, List.all_eq_true] at hcareful
    simp only at h
    cases hdeal : dealDeviceTwin isFloat s (some twin) c.d c.db with
    | error e =>
      rw [hdeal] at h
      cases h
      exact reload_fits hs
    | ok r =>
      rw [hdeal] at h
      cases h
      exact dealDeviceTwin_fits hs hcareful.1
        (fun k m hm => hcareful.2 ⟨k, m⟩ (AList.mem_lookup_iff.mp hm)) hdeal

/-- Along careful calls every value is of the type of its twin. -/
theorem values_typed {calls : List Call}
    (hcareful : Along (step isFloat) (fun s c => carefulCall isFloat s c = true) {} calls) :
    Always (step isFloat) (Typed isFloat) {} calls := by
  have hstart : AllFit isFloat {} := fun k => by
    trivial
  exact (always_of_along (fun s c s' hs hP h => step_fits hs hP h) hstart hcareful).mono
    fun s hs => hs.typed

namespace Sample

def about (type : String) (expected : Option String) (version : Option Version) : Option Update :=
  some (AList.singleton (str "temperature") (some
    { expected := ⟨expected.map fun value => ⟨some (str value)⟩, version⟩
      metadata := some (str type) }))

/-- A twin that is added, set by the cloud, deleted, and comes back. -/
def life : List Call :=
  [⟨about "int" (some "20") none, .rest, .committed⟩,
    ⟨about "int" (some "21") (some ⟨1, 1⟩), .sync, .committed⟩,
    ⟨some (AList.singleton (str "temperature") none), .rest, .committed⟩,
    ⟨about "boolean" (some "true") none, .rest, .committed⟩]

/-- A twin that is declared and then given its first value. -/
def firstValue : List Call :=
  [⟨about "int" none none, .rest, .committed⟩, ⟨about "int" (some "warm") none, .rest, .committed⟩]

end Sample

/-- The twin is typed all its life. -/
theorem life_typed : Always (step fun _ => false) (Typed fun _ => false) {} Sample.life := by
  apply values_typed
  apply along_of_check (fun _ _ h => h)
  decide +kernel

/-- The first value of a twin is taken without a look at its type. -/
theorem first_value_untyped :
    ¬ Always (step fun _ => false) (Typed fun _ => false) {} Sample.firstValue := by
  intro h
  have hread : (run (step fun _ => false) {} Sample.firstValue).map (fun s =>
      (s.twins.lookup (str "temperature")).map fun t =>
        (t.type, (t.side .expected).value)) =
      some (some (str "int", some ⟨some (str "warm")⟩)) := by
    decide +kernel
  obtain ⟨s, hs, hread⟩ := Option.map_eq_some_iff.mp hread
  obtain ⟨t, ht, hread⟩ := Option.map_eq_some_iff.mp hread
  rw [Prod.mk.injEq] at hread
  have hlive : t.deleted = false := by
    rw [Twin.deleted, hread.1]
    decide
  have hvalid := h.last hs _ t ht hlive .expected _ hread.2
  rw [hread.1] at hvalid
  exact absurd hvalid (by decide)

end KubeEdge.DeviceTwin.Values
