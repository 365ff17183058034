import KubeEdge.DeviceTwin.Agreement

namespace KubeEdge.DeviceTwin.Redelivery
open Go

variable {isFloat : GoString → Bool} {d : DealType}

/-- A message with metadata, and with a value in every part. -/
structure Complete (msg : MsgTwin) : Prop where
  metadata : msg.metadata.isSome = true
  values : ∀ p, (msg.side p).value ≠ some ⟨none⟩

/-- The message does nothing more to the side: it has been taken from it, it is passed over, or
it is refused and there is a version already. -/
def Settled (isFloat : GoString → Bool) (type : GoString) (side msg : Side) (column : Column) :
    Prop :=
  (side = msg ∧ side.version.isSome = true ∧ column = side.toColumn) ∨
    offers isFloat type side msg = false ∨
    offers isFloat type side msg = true ∧ accepts side msg .sync = false ∧
      side.value.isSome = true ∧ side.version.isSome = true

theorem dealVersion_self (v : Version) : dealVersion v (some v) .sync = .ok v := by
  simp [dealVersion, Int64.lt_irrefl]

variable {side : Side} {column : Column} {t t' : Twin} {P : Prop} {msg : MsgTwin} {row : Option Row}
  {p : Part} {c c' : Comparing} {type : GoString}

theorem accepts_self (hversion : side.version.isSome = true) : accepts side side .sync = true := by
  obtain ⟨v, hv⟩ := Option.isSome_iff_exists.mp hversion
  simp only [accepts, requested, hv, Option.getD_some, reduceCtorEq, if_false, dealVersion_self]
  rfl

theorem Settled.of_refused {msg : Side} (h : Settled isFloat type side msg column)
    (hoffers : offers isFloat type side msg = true) (haccepts : accepts side msg .sync = false) :
    side.value.isSome = true ∧ side.version.isSome = true := by
  rcases h with ⟨rfl, hversion, -⟩ | hnot | ⟨-, -, hvalue, hversion⟩
  · rw [accepts_self hversion] at haccepts
    cases haccepts
  · rw [hnot] at hoffers
    cases hoffers
  · exact ⟨hvalue, hversion⟩

theorem Settled.of_taken {msg : Side} (h : Settled isFloat type side msg column)
    (hoffers : offers isFloat type side msg = true) (haccepts : accepts side msg .sync = true) :
    side = msg ∧ side.version.isSome = true ∧ column = side.toColumn := by
  rcases h with hmsg | hnot | ⟨-, hrefused, -, -⟩
  · exact hmsg
  · rw [hnot] at hoffers
    cases hoffers
  · rw [hrefused] at haccepts
    cases haccepts

theorem comparePart_settled (hvalue : (msg.side p).value ≠ some ⟨none⟩) (hc : c.twin = t)
    (hsettled : c.isSyncAllow = true →
      Settled isFloat (valueType t msg) (t.side p) (msg.side p) column)
    (hcols : c.cols.side p = none) :
    ∃ c', comparePart isFloat msg .sync p c = .ok (.ok c') ∧ c'.twin = t ∧
      column.update (c'.cols.side p) = column := by
  subst hc
  have hreturns : ∃ c', comparePart isFloat msg .sync p c = .ok (.ok c') := by
    apply comparePart_returns hvalue
    intro hallow hrefuses
    simp only [Twin.refuses, Bool.and_eq_true, Bool.not_eq_true'] at hrefuses
    exact ((hsettled hallow).of_refused hrefuses.1 hrefuses.2).1
  obtain ⟨c', hc'⟩ := hreturns
  refine ⟨c', hc', ?_⟩
  rcases comparePart_cases hc' with ⟨rfl, -⟩ | ⟨old, hallow, hrefuses, hold, htwin, hc, -, -⟩ |
    ⟨value, v, hallow, htakes, hmsg, hdeal, htwin, hc, -, -⟩
  · rw [hcols]
    exact ⟨rfl, rfl⟩
  · simp only [Twin.refuses, Bool.and_eq_true, Bool.not_eq_true'] at hrefuses
    obtain ⟨-, hversion⟩ := (hsettled hallow).of_refused hrefuses.1 hrefuses.2
    obtain ⟨v, hv⟩ := Option.isSome_iff_exists.mp hversion
    have hside : (⟨some old, some ((c.twin.side p).version.getD {})⟩ : Side) = c.twin.side p := by
      rw [← hold, hv, Option.getD_some, ← hv]
    rw [htwin, hc, hcols, hside, Twin.setSide_side]
    exact ⟨rfl, rfl⟩
  · simp only [Twin.takes, Bool.and_eq_true] at htakes
    obtain ⟨hsame, hversion, hcolumn⟩ := (hsettled hallow).of_taken htakes.1 htakes.2
    obtain ⟨w, hw⟩ := Option.isSome_iff_exists.mp hversion
    rw [← hsame] at hmsg hdeal
    simp only [hw, requested, Option.getD_some, reduceCtorEq, if_false, dealVersion_self,
      Except.ok.injEq] at hdeal
    subst hdeal
    have hside : (⟨some ⟨value⟩, some w⟩ : Side) = c.twin.side p := by
      rw [← hmsg, ← hw]
    rw [htwin, hc, Cols.side_setSide, hside, Twin.setSide_side, hcolumn]
    refine ⟨rfl, ?_⟩
    rw [← hside]
    rfl

/-- A twin for which the message has nothing to do. -/
structure Done (isFloat : GoString → Bool) (t : Twin) (row : Row) (msg : MsgTwin) : Prop where
  expected : Settled isFloat (valueType t msg) (t.side .expected) (msg.side .expected) row.expected
  actual : t.refuses isFloat msg .sync .expected = false →
    Settled isFloat (valueType t msg) (t.side .actual) (msg.side .actual) row.actual
  type : t.refuses isFloat msg .sync .expected = false →
    t.refuses isFloat msg .sync .actual = false → t.deleted = false ∧ t.fixes msg = false

theorem dealTwinCompare_done {row : Row} (hmsg : Complete msg) (hdone : Done isFloat t row msg) :
    ∃ o, dealTwinCompare isFloat t msg .sync = .ok o ∧ o.twin = some t ∧
      o.row (some row) = some row := by
  obtain ⟨c₁, hc₁, htwin₁, hcolumn₁⟩ := comparePart_settled (c := { twin := t })
    (hmsg.values .expected) rfl (fun _ => hdone.expected) rfl
  obtain ⟨hallow₁, -⟩ := comparePart_decides rfl rfl hc₁
  have hsame₁ := comparePart_sameBut hc₁
  obtain ⟨c₂, hc₂, htwin₂, hcolumn₂⟩ := comparePart_settled (hmsg.values .actual) htwin₁
    (fun h => hdone.actual (by simpa [hallow₁] using h)) (hsame₁.cols .actual (by decide))
  obtain ⟨hallow₂, -⟩ := comparePart_decides (by rw [htwin₁]) (by rw [htwin₁]) hc₂
  have hsame₂ := comparePart_sameBut hc₂
  rw [← hsame₂.cols .expected (by decide)] at hcolumn₁
  have hrest : (compareRest msg c₂).twin = t ∧ (compareRest msg c₂).cols = c₂.cols := by
    cases hallow : c₂.isSyncAllow with
    | false => simp [compareRest, hallow, htwin₂]
    | true =>
      rw [hallow₂, hallow₁] at hallow
      simp only [Bool.true_and, Bool.and_eq_true, Bool.not_eq_true'] at hallow
      obtain ⟨hdeleted, hfixes⟩ := hdone.type hallow.1 hallow.2
      have hallow' : c₂.isSyncAllow = true := by simp [hallow₂, hallow₁, hallow]
      obtain ⟨htwin, hcols, -⟩ := compareRest_eq msg c₂ hallow'
      rw [htwin, hcols, htwin₂, hfixes, hdeleted]
      simp [valueType, hdeleted]
  have hrow : row.update c₂.cols = row := by
    have hoptional : c₂.cols.optional = none := by rw [hsame₂.optionalCol, hsame₁.optionalCol]
    have htype : c₂.cols.attrType = none := by rw [hsame₂.attrType, hsame₁.attrType]
    obtain ⟨expected, actual, optional, attrType⟩ := row
    simp only [Row.update, hoptional, htype, Option.getD_none, Row.mk.injEq, and_true]
    exact ⟨hcolumn₁, hcolumn₂⟩
  obtain ⟨document, hcompare⟩ := dealTwinCompare_of_parts hc₁ hc₂
  refine ⟨_, hcompare, ?_, ?_⟩
  · rw [twin_compareResult, hrest.1]
  · unfold Dealt.row
    rw [change_compareResult, hrest.2]
    cases (compareRest msg c₂).isChange with
    | false => rfl
    | true =>
      change (some row).map (·.update c₂.cols) = some row
      rw [Option.map_some, hrow]

theorem comparePart_settles (htype : c.twin.type = t.type) (hside : c.twin.side p = t.side p)
    (hcols : c.cols.side p = none) (hallow : c.isSyncAllow = true)
    (h : comparePart isFloat msg .sync p c = .ok (.ok c')) :
    Settled isFloat (valueType t msg) (c'.twin.side p) (msg.side p)
        ((t.side p).toColumn.update (c'.cols.side p)) ∧
      (t.refuses isFloat msg .sync p = true →
        (offers isFloat (valueType t msg) (c'.twin.side p) (msg.side p) &&
          !accepts (c'.twin.side p) (msg.side p) .sync) = true) := by
  rw [← valueType_congr htype msg, ← (takes_congr htype hside isFloat msg .sync).2.1]
  rcases comparePart_cases h with ⟨rfl, hnot | ⟨htakes, hrefuses, -⟩⟩ |
    ⟨old, -, hrefuses, hold, htwin, -, -, -⟩ | ⟨value, v, -, htakes, hmsg, hdeal, htwin, hc, -, -⟩
  · rw [hallow] at hnot
    cases hnot
  · refine ⟨.inr (.inl ?_), fun h => by rw [hrefuses] at h; cases h⟩
    unfold Twin.takes at htakes
    unfold Twin.refuses at hrefuses
    by_contra hoffers
    simp_all
  · rw [htwin, Twin.side_setSide]
    simp only [Twin.refuses, Bool.and_eq_true, Bool.not_eq_true'] at hrefuses ⊢
    have hoffers := hrefuses.1
    unfold offers at hoffers
    rw [hold] at hoffers
    exact ⟨.inr (.inr ⟨hoffers, hrefuses.2, rfl, rfl⟩), fun _ => ⟨hoffers, hrefuses.2⟩⟩
  · refine ⟨.inl ?_, fun h => ?_⟩
    swap
    · simp only [Twin.takes, Twin.refuses, Bool.and_eq_true, Bool.not_eq_true'] at htakes h
      rw [htakes.2] at h
      cases h.2
    have hversion : (msg.side p).version = some v := dealVersion_sync hdeal
    rw [htwin, hc, Twin.side_setSide, Cols.side_setSide]
    refine ⟨?_, rfl, rfl⟩
    rw [← hmsg, ← hversion]

theorem valueType_again (hmsg : msg.metadata ≠ some (str "deleted")) :
    valueType t msg ≠ str "deleted" := by
  unfold valueType
  cases hdeleted : t.deleted with
  | false => simpa [Twin.deleted] using hdeleted
  | true =>
    cases hmeta : msg.metadata with
    | none =>
      change str "string" ≠ str "deleted"
      decide
    | some type =>
      intro htype
      exact hmsg (by rw [hmeta]; exact congrArg some htype)

theorem dealTwinCompare_leaves_done {row : Row} {o : Dealt}
    (hmeta : msg.metadata ≠ some (str "deleted")) (h : dealTwinCompare isFloat t msg .sync = .ok o)
    (htwin : o.twin = some t') (hrow : o.row (some t.toRow) = some row) :
    Done isFloat t' row msg := by
  obtain ⟨c₁, c₂, document, hc₁, hc₂, rfl⟩ := dealTwinCompare_parts h (.inr rfl)
  have hsame₁ := comparePart_sameBut hc₁
  have hsame₂ := comparePart_sameBut hc₂
  rw [twin_compareResult] at htwin
  rw [row_compareResult hc₁ hc₂] at hrow
  cases htwin
  cases hrow
  have hsides := compareRest_side msg c₂
  have htype₂ : c₂.twin.type = t.type := hsame₂.type.trans hsame₁.type
  obtain ⟨hallow₁, -⟩ := comparePart_decides rfl rfl hc₁
  have hside₁ : c₁.twin.side .actual = t.side .actual := hsame₁.side .actual (by decide)
  obtain ⟨hallow₂, -⟩ := comparePart_decides hsame₁.type hside₁ hc₂
  -- the type that values are checked against stays
  have hvalueType : valueType (compareRest msg c₂).twin msg = valueType t msg := by
    cases hallow : c₂.isSyncAllow with
    | false =>
      apply valueType_congr
      simp [compareRest, hallow, htype₂]
    | true =>
      have hnew : (compareRest msg c₂).twin.type = valueType t msg := by
        rw [(compareRest_eq msg c₂ hallow).1, ← valueType_congr htype₂ msg]
      have hnot : (compareRest msg c₂).twin.deleted = false := by
        simp [Twin.deleted, hnew, valueType_again hmeta]
      rw [← hnew, valueType, hnot]
      rfl
  have hside : (compareRest msg c₂).twin.side .expected = c₁.twin.side .expected :=
    (hsides .expected).1.trans (hsame₂.side .expected (by decide))
  have hcols : (compareRest msg c₂).cols.side .expected = c₁.cols.side .expected :=
    (hsides .expected).2.trans (hsame₂.cols .expected (by decide))
  obtain ⟨hexpected, hagain⟩ := comparePart_settles rfl rfl rfl rfl hc₁
  rw [← hside, ← hcols, ← hvalueType] at hexpected
  rw [← hside, ← hvalueType] at hagain
  -- the second part is reached exactly as before
  have hreached : (compareRest msg c₂).twin.refuses isFloat msg .sync .expected = false →
      c₁.isSyncAllow = true := by
    intro hnot
    cases hrefuses : t.refuses isFloat msg .sync .expected with
    | false => simp [hallow₁, hrefuses]
    | true =>
      have hrefuses' := hagain hrefuses
      change (compareRest msg c₂).twin.refuses isFloat msg .sync .expected = true at hrefuses'
      rw [hnot] at hrefuses'
      cases hrefuses'
  have hactual : (compareRest msg c₂).twin.refuses isFloat msg .sync .expected = false → _ :=
    fun hnot => comparePart_settles hsame₁.type hside₁ (hsame₁.cols .actual (by decide))
      (hreached hnot) hc₂
  rw [← (hsides .actual).1, ← (hsides .actual).2, ← hvalueType] at hactual
  refine ⟨hexpected, fun hnot => (hactual hnot).1, ?_⟩
  intro hnot hnot'
  have hallow : c₂.isSyncAllow = true := by
    rw [hallow₂, hreached hnot, Bool.true_and, Bool.not_eq_true']
    cases hrefuses : t.refuses isFloat msg .sync .actual with
    | false => rfl
    | true =>
      have hrefuses' := (hactual hnot).2 hrefuses
      change (compareRest msg c₂).twin.refuses isFloat msg .sync .actual = true at hrefuses'
      rw [hnot'] at hrefuses'
      cases hrefuses'
  rw [(compareRest_eq msg c₂ hallow).1]
  constructor
  · simp [Twin.deleted, valueType_again hmeta]
  · unfold Twin.fixes
    cases c₂.twin.optional <;> cases msg.optional == some false <;> rfl

/-- A value that reads as absent once it is in a row. -/
def emptyValue (msg : Side) : Bool := msg.value == some ⟨some []⟩

/-- The entries that do nothing more the second time.  An added twin is compared then, and its
empty values come into memory; a deletion that has given the expected side its first version
may be accepted then. -/
def harmless (isFloat : GoString → Bool) : Option Twin → MsgTwin → Bool
  | none, msg =>
    !(msg.addable isFloat .sync .expected && msg.addable isFloat .sync .actual) ||
      msg.deletes .sync || !(emptyValue msg.expected || emptyValue msg.actual)
  | some t, msg =>
    !msg.deletes .sync || t.deleted || t.hasVersion .expected || !t.yields msg .sync .expected ||
      t.hasVersion .actual && t.yields msg .sync .actual

/-- A second time that returns, and what it leaves. -/
def Repeats (isFloat : GoString → Bool) (t : Option Twin) (row : Option Row) (msg : MsgTwin)
    (P : Prop) : Prop :=
  ∃ o, dealTwin isFloat t (some msg) .sync = .ok o ∧ ((o.twin.or t = t ∧ o.row row = row) ↔ P)

theorem repeats_of_deleted (hmeta : msg.metadata = some (str "deleted"))
    (hdeleted : t.deleted = true) (hP : P) :
    Repeats isFloat (some t) row msg P := by
  refine ⟨_, dealTwin_delete hmeta, iff_of_true ?_ hP⟩
  rcases deleteTwin_cases t msg .sync with ⟨-, htwin, hchange⟩ | ⟨hnot, -⟩
  · rw [htwin, Dealt.row, hchange]
    exact ⟨rfl, rfl⟩
  · rw [hdeleted] at hnot
    cases hnot

theorem repeats_of_done {row : Row} (hmsg : Complete msg)
    (hmeta : msg.metadata ≠ some (str "deleted")) (hdone : Done isFloat t row msg) (hP : P) :
    Repeats isFloat (some t) (some row) msg P := by
  obtain ⟨o, ho, htwin, hrow⟩ := dealTwinCompare_done hmsg hdone
  refine ⟨o, by rw [dealTwin_compare hmsg.metadata hmeta, ho], iff_of_true ⟨?_, hrow⟩ hP⟩
  rw [htwin]
  rfl

section

variable {row : Row} {c : Column} (hpart : msg.addPart isFloat .sync p = .ok (.column c))
include hpart

/-- A side that was added is the one of the message, unless its value is empty or absent. -/
theorem added_side : (msg.side p).value = none ∨
    (∃ v, emptyValue (msg.side p) = true ∧ c = ⟨[], some v⟩ ∧ (msg.side p).version = some v) ∨
    emptyValue (msg.side p) = false ∧ c.toSide = msg.side p ∧ c.version.isSome = true := by
  rcases addPart_cases hpart with ⟨hnone, -⟩ | ⟨value, v, hmsg, hdeal, -, -, hadded⟩ |
    ⟨-, -, _, hadded⟩ | ⟨-, -, -, _, hadded⟩
  · exact .inl hnone
  · cases hadded
    have hversion : (msg.side p).version = some v := dealVersion_sync hdeal
    by_cases hempty : value = []
    · subst hempty
      exact .inr (.inl ⟨v, by simp [emptyValue, hmsg], rfl, hversion⟩)
    · refine .inr (.inr ⟨by simp [emptyValue, hmsg, hempty], ?_, rfl⟩)
      rw [Column.toSide, if_neg hempty, ← hmsg, ← hversion]
  · cases hadded
  · cases hadded

theorem added_settled (hempty : emptyValue (msg.side p) = false) (type : GoString) :
    Settled isFloat type c.toSide (msg.side p) c := by
  rcases added_side hpart with hnone | ⟨v, htrue, -, -⟩ | ⟨-, hside, hversion⟩
  · exact .inr (.inl (by simp [offers, hnone]))
  · rw [hempty] at htrue
    cases htrue
  · exact .inl ⟨hside, hversion, (Column.toColumn_toSide c).symm⟩

theorem added_not_refused (type : GoString) : (offers isFloat type c.toSide (msg.side p) &&
    !accepts c.toSide (msg.side p) .sync) = false := by
  rcases added_side hpart with hnone | ⟨v, -, rfl, hversion⟩ | ⟨-, hside, hversion⟩
  · simp [offers, hnone]
  · have haccepts : accepts (Column.toSide ⟨[], some v⟩) (msg.side p) .sync = true := by
      simp only [accepts, requested, Column.toSide, hversion, Option.getD_some, reduceCtorEq,
        if_false, dealVersion_self]
      rfl
    simp [haccepts]
  · rw [← hside, accepts_self hversion]
    simp

theorem added_empty (hempty : emptyValue (msg.side p) = true) (type : GoString) :
    c.toSide.value = none ∧ offers isFloat type c.toSide (msg.side p) = true := by
  rcases added_side hpart with hnone | ⟨v, -, rfl, -⟩ | ⟨hfalse, -, -⟩
  · simp [emptyValue, hnone] at hempty
  · simp only [emptyValue, beq_iff_eq] at hempty
    simp [Column.toSide, offers, hempty]
  · rw [hempty] at hfalse
    cases hfalse

theorem added_takes (hside : t.side p = c.toSide) :
    t.refuses isFloat msg .sync p = false ∧ (emptyValue (msg.side p) = true →
      (t.side p).value = none ∧ t.takes isFloat msg .sync p = true) := by
  have hrefused := added_not_refused hpart (valueType t msg)
  unfold Twin.refuses Twin.takes
  rw [hside]
  refine ⟨hrefused, ?_⟩
  intro hempty
  obtain ⟨hnone, hoffers⟩ := added_empty hpart hempty (valueType t msg)
  rw [hoffers, Bool.true_and, Bool.not_eq_false'] at hrefused
  exact ⟨hnone, by rw [hoffers, hrefused]; rfl⟩

end

theorem comparePart_empty (htype : c.twin.type = t.type) (hside : c.twin.side p = t.side p)
    (hallow : c.isSyncAllow = true) (hnone : (t.side p).value = none)
    (htakes : t.takes isFloat msg .sync p = true)
    (h : comparePart isFloat msg .sync p c = .ok (.ok c')) : c'.twin.side p ≠ t.side p := by
  obtain ⟨htakes', hrefuses', -⟩ := takes_congr htype hside isFloat msg .sync
  rcases comparePart_cases h with ⟨rfl, hnot | ⟨hnot, -, -⟩⟩ | ⟨old, -, -, hold, -⟩ |
    ⟨value, v, -, -, -, -, htwin, -⟩
  · rw [hallow] at hnot
    cases hnot
  · rw [htakes', htakes] at hnot
    cases hnot
  · rw [hside, hnone] at hold
    cases hold
  · intro hsame
    rw [htwin, Twin.side_setSide] at hsame
    rw [← hsame] at hnone
    cases hnone

theorem repeats_of_empty (hmsg : Complete msg) (hmeta : msg.metadata ≠ some (str "deleted"))
    (hnot : ∀ p, t.refuses isFloat msg .sync p = false) (hnone : (t.side p).value = none)
    (htakes : t.takes isFloat msg .sync p = true) (hP : ¬ P) :
    Repeats isFloat (some t) row msg P := by
  obtain ⟨c₁, hc₁⟩ := comparePart_returns (c := { twin := t }) (hmsg.values .expected)
    fun _ h => by rw [hnot] at h; cases h
  have hsame₁ := comparePart_sameBut hc₁
  have hside₁ : c₁.twin.side .actual = t.side .actual := hsame₁.side .actual (by decide)
  obtain ⟨-, hrefuses₁, -⟩ := takes_congr hsame₁.type hside₁ isFloat msg .sync
  obtain ⟨c₂, hc₂⟩ := comparePart_returns (hmsg.values .actual)
    fun _ h => by rw [hrefuses₁, hnot] at h; cases h
  have hallow₁ : c₁.isSyncAllow = true := by
    rw [(comparePart_decides rfl rfl hc₁).1, hnot]
    rfl
  obtain ⟨document, hcompare⟩ := dealTwinCompare_of_parts hc₁ hc₂
  refine ⟨_, (dealTwin_compare hmsg.metadata hmeta).trans hcompare, iff_of_false ?_ hP⟩
  rintro ⟨htwin, -⟩
  rw [twin_compareResult] at htwin
  have hside : c₂.twin.side p = t.side p := by
    rw [← (compareRest_side msg c₂ p).1, Option.some_inj.mp htwin]
  cases p with
  | expected =>
    rw [(comparePart_sameBut hc₂).side .expected (by decide)] at hside
    exact comparePart_empty rfl rfl rfl hnone htakes hc₁ hside
  | actual => exact comparePart_empty hsame₁.type hside₁ hallow₁ hnone htakes hc₂ hside

theorem repeats_of_added (hmsg : Complete msg) {expected actual : Column}
    (hexpected : msg.addPart isFloat .sync .expected = .ok (.column expected))
    (hactual : msg.addPart isFloat .sync .actual = .ok (.column actual)) {row : Row}
    (hrow : row = ⟨expected, actual, msg.optional.getD true, msg.type⟩) :
    Repeats isFloat (some row.toTwin) (some row) msg (harmless isFloat none msg = true) := by
  have hharmless : harmless isFloat none msg =
      (msg.deletes .sync || !(emptyValue msg.expected || emptyValue msg.actual)) := by
    simp [harmless, (addPart_column hexpected).1, (addPart_column hactual).1]
  rw [hharmless]
  by_cases hmeta : msg.metadata = some (str "deleted")
  · apply repeats_of_deleted hmeta
    · simp [hrow, Row.toTwin, Twin.deleted, MsgTwin.type, hmeta]
    · simp [MsgTwin.deletes, hmeta]
  · have hnot : msg.deletes .sync = false := by simp [MsgTwin.deletes, hmeta]
    rw [hnot, Bool.false_or]
    have hsides : row.toTwin.side .expected = expected.toSide ∧
        row.toTwin.side .actual = actual.toSide := by
      rw [hrow]
      exact ⟨rfl, rfl⟩
    cases hempty : emptyValue msg.expected || emptyValue msg.actual with
    | false =>
      rw [Bool.or_eq_false_iff] at hempty
      apply repeats_of_done hmsg hmeta _ rfl
      refine ⟨?_, fun _ => ?_, fun _ _ => ⟨?_, ?_⟩⟩
      · rw [hsides.1, hrow]
        exact added_settled hexpected hempty.1 _
      · rw [hsides.2, hrow]
        exact added_settled hactual hempty.2 _
      · obtain ⟨type, htype⟩ := Option.isSome_iff_exists.mp hmsg.metadata
        simpa [hrow, Row.toTwin, Twin.deleted, MsgTwin.type, htype] using hmeta
      · rw [hrow]
        unfold Twin.fixes
        rcases msg.optional with _ | _ | _ <;> rfl
    | true =>
      have hnot : ∀ p, row.toTwin.refuses isFloat msg .sync p = false := by
        rw [Part.forall]
        exact ⟨(added_takes hexpected hsides.1).1, (added_takes hactual hsides.2).1⟩
      rcases Bool.or_eq_true_iff.mp hempty with hempty | hempty
      · obtain ⟨hnone, htakes⟩ := (added_takes hexpected hsides.1).2 hempty
        exact repeats_of_empty hmsg hmeta hnot hnone htakes (by simp)
      · obtain ⟨hnone, htakes⟩ := (added_takes hactual hsides.2).2 hempty
        exact repeats_of_empty hmsg hmeta hnot hnone htakes (by simp)

section

variable (hmeta : msg.metadata = some (str "deleted"))
include hmeta

theorem repeats_of_same (htwin : (deleteTwin t msg .sync).twin = some t)
    (hchange : (deleteTwin t msg .sync).change = none) (hP : P) :
    Repeats isFloat (some t) row msg P := by
  refine ⟨_, dealTwin_delete hmeta, iff_of_true ?_ hP⟩
  rw [htwin, Dealt.row, hchange]
  exact ⟨rfl, rfl⟩

theorem repeats_of_first (hdeleted : t.deleted = false) (hdeleted' : t'.deleted = false)
    (hversion : t.hasVersion .expected = false)
    (hside : t'.side .expected = ⟨(t.side .expected).value, some {}⟩)
    (hactual : (t.hasVersion .actual && t.yields msg .sync .actual) = false) :
    Repeats isFloat (some t') row msg (harmless isFloat (some t) msg = true) := by
  have hyields : t'.yields msg .sync .expected = t.yields msg .sync .expected := by
    unfold Twin.yields accepts
    rw [hside, Option.isSome_eq_false_iff.mp hversion |> Option.isNone_iff_eq_none.mp]
    rfl
  have hversion' : t'.hasVersion .expected = true := by
    unfold Twin.hasVersion
    rw [hside]
    rfl
  have hharmless : harmless isFloat (some t) msg = !t.yields msg .sync .expected := by
    simp only [harmless, MsgTwin.deletes, hmeta, hdeleted, hversion, hactual]
    simp
  -- once accepted, the twin is marked deleted
  have htype : ∀ t'' side cols, t'.deletePart msg .sync .expected = .ok (side, cols) →
      (deleteTwin t' msg .sync).twin = some t'' → t''.type = str "deleted" →
      Repeats isFloat (some t') row msg (harmless isFloat (some t) msg = true) := by
    intro t'' side cols hok htwin htype
    refine ⟨_, dealTwin_delete hmeta, iff_of_false ?_ ?_⟩
    · rintro ⟨hsame, -⟩
      rw [htwin] at hsame
      rw [Option.some_inj.mp hsame] at htype
      simp [Twin.deleted, htype] at hdeleted'
    · rw [hharmless, ← hyields, (deletePart_cols hok).2 hversion']
      simp
  rcases deleteTwin_cases t' msg .sync with ⟨htrue, -⟩ | ⟨-, ⟨e, herror, htwin, hchange⟩ |
    ⟨side, cols, hok, ⟨e, -, htwin, -⟩ | ⟨side', cols', -, htwin, -⟩⟩⟩
  · rw [hdeleted'] at htrue
    cases htrue
  · apply repeats_of_same hmeta htwin hchange
    rw [hharmless, ← hyields, show t'.yields msg .sync .expected = false from
      (deletePart_error herror).2]
    rfl
  · apply htype _ side cols hok htwin
    rw [typeAfter, (deletePart_cols hok).1, hversion']
    rfl
  · apply htype _ side cols hok htwin
    unfold typeAfter
    rw [(deletePart_cols hok).1, hversion']
    simp

theorem repeats_of_deletion (htwin : (deleteTwin t msg .sync).twin = some t') :
    Repeats isFloat (some t') row msg (harmless isFloat (some t) msg = true) := by
  rcases deleteTwin_cases t msg .sync with ⟨hdeleted, htwin', hchange⟩ | ⟨hdeleted,
    ⟨e, herror, htwin', hchange⟩ | ⟨expected, expectedCols, hexpected,
      ⟨e, herror, htwin', -⟩ | ⟨actual, actualCols, hactual, htwin', -⟩⟩⟩
  · rw [htwin] at htwin'
    cases htwin'
    exact repeats_of_same hmeta htwin hchange (by simp [harmless, hdeleted])
  · rw [htwin] at htwin'
    cases htwin'
    have hversion : t.hasVersion .expected = true := (deletePart_error herror).1
    exact repeats_of_same hmeta htwin hchange (by simp [harmless, hversion])
  · rw [htwin] at htwin'
    cases htwin'
    obtain ⟨hcols, -⟩ := deletePart_cols hexpected
    cases hversion : t.hasVersion .expected with
    | true =>
      rw [hversion] at hcols
      apply repeats_of_deleted hmeta
      · simp [Twin.deleted, typeAfter, hcols]
      · simp [harmless, hversion]
    | false =>
      have hrefused : t.yields msg .sync .actual = false := (deletePart_error herror).2
      rcases deletePart_ok hexpected with ⟨v, w, hsome, -⟩ | ⟨-, hside, hnone⟩
      · simp [Twin.hasVersion, hsome] at hversion
      · refine repeats_of_first hmeta hdeleted ?_ hversion hside (by simp [hrefused])
        rw [hnone]
        exact hdeleted
  · rw [htwin] at htwin'
    cases htwin'
    obtain ⟨hcols, -⟩ := deletePart_cols hexpected
    obtain ⟨hcols', hyields'⟩ := deletePart_cols hactual
    by_cases hany : t.hasVersion .expected = true ∨ t.hasVersion .actual = true
    · apply repeats_of_deleted hmeta
      · unfold Twin.deleted typeAfter
        rw [hcols, hcols']
        rcases hany with hsome | hsome <;> simp [hsome]
      · rcases hany with hsome | hsome
        · simp [harmless, hsome]
        · simp [harmless, hsome, hyields' hsome]
    · have hversion : t.hasVersion .expected = false := by simpa using fun h => hany (.inl h)
      have hversion' : t.hasVersion .actual = false := by simpa using fun h => hany (.inr h)
      rcases deletePart_ok hexpected with ⟨v, w, hsome, -⟩ | ⟨-, hside, hnone⟩
      · simp [Twin.hasVersion, hsome] at hversion
      · refine repeats_of_first hmeta hdeleted ?_ hversion hside (by simp [hversion'])
        rw [hversion'] at hcols'
        rw [hnone]
        simpa [typeAfter, hcols', Twin.deleted] using hdeleted

end

theorem dealTwin_repeats {t : Option Twin} {o : Dealt} (hmsg : Complete msg)
    (h : dealTwin isFloat t (some msg) .sync = .ok o) :
    Repeats isFloat (o.twin.or t) (o.row (t.map Twin.toRow)) msg
      (harmless isFloat t msg = true) := by
  cases t with
  | none =>
    rcases dealTwinAdd_cases h with ⟨hnone, -⟩ | ⟨msg', hmsg', -, hcases⟩
    · cases hnone
    · cases hmsg'
      rcases hcases with ⟨e, left, rfl, p, hfailed, -⟩ | ⟨expected, actual, hexpected, hactual, rfl⟩
      · refine ⟨_, h, iff_of_true ⟨rfl, rfl⟩ ?_⟩
        have hnot := (addPart_failed left hfailed).1
        cases p <;> simp [harmless, hnot]
      · exact repeats_of_added hmsg hexpected hactual rfl
  | some t =>
    rcases dealTwin_cases h with ⟨hd, -⟩ | ⟨hd, -⟩ | ⟨-, msg', hmsg', hmeta, rfl⟩ |
      ⟨msg', hmsg', hmeta, hcompare⟩
    · cases hd
    · cases hd
    · cases hmsg'
      obtain ⟨t', htwin⟩ : ∃ t', (deleteTwin t msg .sync).twin = some t' := by
        rcases deleteTwin_cases t msg .sync with ⟨-, htwin, -⟩ | ⟨-, ⟨e, -, htwin, -⟩ |
          ⟨_, _, -, ⟨e, -, htwin, -⟩ | ⟨_, _, -, htwin, -⟩⟩⟩ <;> exact ⟨_, htwin⟩
      rw [htwin]
      exact repeats_of_deletion hmeta htwin
    · cases hmsg'
      obtain ⟨type, htype, hne⟩ := hmeta (by decide)
      have hmeta : msg.metadata ≠ some (str "deleted") := by simp [htype, hne]
      obtain ⟨t', row, htwin, hrow⟩ : ∃ t' row, o.twin = some t' ∧
          o.row (some t.toRow) = some row := by
        obtain ⟨c₁, c₂, document, hc₁, hc₂, rfl⟩ := dealTwinCompare_parts hcompare (.inr rfl)
        exact ⟨_, _, twin_compareResult .., row_compareResult hc₁ hc₂ _⟩
      have hdone := dealTwinCompare_leaves_done hmeta hcompare htwin hrow
      rw [htwin, Option.map_some, hrow]
      exact repeats_of_done hmsg hmeta hdone (by simp [harmless, MsgTwin.deletes, hmeta])

/-- Every entry of the update is complete. -/
def AllComplete (content : Update) : Prop :=
  ∀ k m, content.lookup k = some m → ∃ msg, m = some msg ∧ Complete msg

theorem AllComplete.isSome {content : Update} (h : AllComplete content) (k : GoString)
    (m : Option MsgTwin) (hm : content.lookup k = some m) : m.isSome = true := by
  obtain ⟨msg, rfl, -⟩ := h k m hm
  rfl

/-- The second time returns too, and leaves everything as it is exactly if no entry does more
than the first time. -/
theorem redelivery_iff {s s₁ : Device} {content content' : Update} {reply₁ : Reply} (hs : Agree s)
    (hcontent : AllComplete content) (hsame : ∀ k, content'.lookup k = content.lookup k)
    (h₁ : dealDeviceTwin isFloat s (some content) .sync .committed = .ok (s₁, reply₁)) :
    ∃ s₂ reply₂, dealDeviceTwin isFloat s₁ (some content') .sync .committed = .ok (s₂, reply₂) ∧
      ((∀ k, s₂.twins.lookup k = s₁.twins.lookup k ∧ s₂.rows.lookup k = s₁.rows.lookup k) ↔
        ∀ k msg, content.lookup k = some (some msg) →
          harmless isFloat (s.twins.lookup k) msg = true) := by
  obtain ⟨outs₁, houts₁, hcases⟩ := dealDeviceTwin_cases h₁
  have hs₁ : s₁ = written .committed s outs₁ := by
    rcases hcases with ⟨hup, -⟩ | ⟨-, -, hs₁⟩ | ⟨-, hfails, -⟩
    · cases hup.1
    · exact hs₁
    · cases hfails.1
  have hleaves₁ := written_leaves hcontent.isSome houts₁
  rw [← hs₁] at hleaves₁
  rw [agree_iff_lookup] at hs
  have hrepeats : ∀ k msg, content.lookup k = some (some msg) →
      Repeats isFloat (s₁.twins.lookup k) (s₁.rows.lookup k) msg
        (harmless isFloat (s.twins.lookup k) msg = true) := by
    intro k msg hk
    obtain ⟨o, ho, htwin, hrow⟩ := hleaves₁.changed k _ hk
    obtain ⟨msg', hmsg', hcomplete⟩ := hcontent k _ hk
    cases hmsg'
    rw [htwin, hrow, hs k]
    exact dealTwin_repeats hcomplete ho
  have hcontent' : AllComplete content' := by
    intro k m hm
    rw [hsame k] at hm
    exact hcontent k m hm
  obtain ⟨outs₂, houts₂⟩ : ∃ outs₂,
      outcomes isFloat .sync s₁.twins content'.entries = .ok outs₂ := by
    apply outcomes_returns
    rintro ⟨k, m⟩ he
    have hm := AList.mem_lookup_iff.mpr he
    rw [hsame k] at hm
    obtain ⟨msg, rfl, -⟩ := hcontent k m hm
    obtain ⟨o, ho, -⟩ := hrepeats k msg hm
    exact ⟨o, ho⟩
  obtain ⟨reply₂, h₂⟩ := dealDeviceTwin_written .committed (by decide) rfl houts₂
  refine ⟨_, reply₂, h₂, ?_⟩
  have hleaves₂ := written_leaves hcontent'.isSome houts₂
  have hkey : ∀ k msg, content.lookup k = some (some msg) →
      (((written .committed s₁ outs₂).twins.lookup k = s₁.twins.lookup k ∧
        (written .committed s₁ outs₂).rows.lookup k = s₁.rows.lookup k) ↔
        harmless isFloat (s.twins.lookup k) msg = true) := by
    intro k msg hk
    obtain ⟨o, ho, hiff⟩ := hrepeats k msg hk
    obtain ⟨o', ho', htwin, hrow⟩ := hleaves₂.changed k _ ((hsame k).trans hk)
    rw [ho] at ho'
    cases ho'
    rw [htwin, hrow]
    exact hiff
  constructor
  · intro h k msg hk
    exact (hkey k msg hk).mp (h k)
  · intro h k
    cases hk : content.lookup k with
    | none => exact hleaves₂.unchanged k ((hsame k).trans hk)
    | some m =>
      obtain ⟨msg, rfl, -⟩ := hcontent k m hk
      exact (hkey k msg hk).mpr (h k msg hk)

namespace Sample

def declared : Device :=
  let rows : Table := AList.singleton (str "temperature") ⟨{}, {}, true, str "int"⟩
  ⟨deviceTwinToMsgTwin rows, rows⟩

def entry (type value : String) : MsgTwin :=
  { expected := ⟨some ⟨some (str value)⟩, some ⟨2, 0⟩⟩, metadata := some (str type) }

def setting : Update := AList.singleton (str "temperature") (some (entry "int" "22"))

def removal : Update := AList.singleton (str "temperature")
  (some { expected := ⟨none, some ⟨2, 0⟩⟩, metadata := some (str "deleted") })

end Sample

theorem lookup_singleton {k k' : GoString} {m m' : Option MsgTwin}
    (h : (AList.singleton k m : Update).lookup k' = some m') : k' = k ∧ m' = m := by
  have hmem : (⟨k', m'⟩ : Sigma fun _ : GoString => Option MsgTwin) ∈
      (AList.singleton k m : Update).entries := AList.mem_lookup_iff.mp h
  cases List.mem_singleton.mp hmem
  exact ⟨rfl, rfl⟩

theorem allComplete_singleton {k : GoString} {msg : MsgTwin} (h : Complete msg) :
    AllComplete (AList.singleton k (some msg)) := by
  intro k' m hm
  exact ⟨msg, (lookup_singleton hm).2, h⟩

/-- A value that is sent twice. -/
theorem setting_redelivered : ∃ s₁ reply₁ s₂ reply₂,
    dealDeviceTwin (fun _ => false) Sample.declared (some Sample.setting) .sync .committed =
      .ok (s₁, reply₁) ∧
    dealDeviceTwin (fun _ => false) s₁ (some Sample.setting) .sync .committed = .ok (s₂, reply₂) ∧
    ∀ k, s₂.twins.lookup k = s₁.twins.lookup k ∧ s₂.rows.lookup k = s₁.rows.lookup k := by
  have hread : (dealDeviceTwin (fun _ => false) Sample.declared (some Sample.setting)
      .sync .committed).toOption.isSome = true := by
    decide +kernel
  obtain ⟨⟨s₁, reply₁⟩, h₁⟩ := Option.isSome_iff_exists.mp hread
  rw [toOption_eq_some] at h₁
  have hcontent : AllComplete Sample.setting := by
    refine allComplete_singleton ⟨rfl, ?_⟩
    rw [Part.forall]
    exact ⟨by decide, by decide⟩
  obtain ⟨s₂, reply₂, h₂, hiff⟩ := redelivery_iff (reloaded_agree _) hcontent (fun _ => rfl) h₁
  refine ⟨s₁, reply₁, s₂, reply₂, h₁, h₂, hiff.mpr ?_⟩
  intro k msg hm
  obtain ⟨rfl, hmsg⟩ := lookup_singleton hm
  cases hmsg
  decide +kernel

/-- The deletion of a twin without versions is not done before it is sent again. -/
theorem removal_redelivered : Agree Sample.declared ∧ AllComplete Sample.removal ∧
    ∃ s₁ reply₁ s₂ reply₂,
    dealDeviceTwin (fun _ => false) Sample.declared (some Sample.removal) .sync .committed =
      .ok (s₁, reply₁) ∧
    dealDeviceTwin (fun _ => false) s₁ (some Sample.removal) .sync .committed = .ok (s₂, reply₂) ∧
    s₂.twins.lookup (str "temperature") ≠ s₁.twins.lookup (str "temperature") ∧
    s₂.rows.lookup (str "temperature") ≠ s₁.rows.lookup (str "temperature") := by
  have hread : ((dealDeviceTwin (fun _ => false) Sample.declared (some Sample.removal)
      .sync .committed).toOption.bind fun r₁ =>
        (dealDeviceTwin (fun _ => false) r₁.1 (some Sample.removal) .sync .committed).toOption.map
          fun r₂ => decide (r₂.1.twins.lookup (str "temperature") ≠
              r₁.1.twins.lookup (str "temperature")) &&
            decide (r₂.1.rows.lookup (str "temperature") ≠
              r₁.1.rows.lookup (str "temperature"))) = some true := by
    decide +kernel
  obtain ⟨⟨s₁, reply₁⟩, h₁, hread⟩ := Option.bind_eq_some_iff.mp hread
  obtain ⟨⟨s₂, reply₂⟩, h₂, hread⟩ := Option.map_eq_some_iff.mp hread
  simp only [Bool.and_eq_true, decide_eq_true_eq] at hread
  have hcontent : AllComplete Sample.removal := by
    refine allComplete_singleton ⟨rfl, ?_⟩
    rw [Part.forall]
    exact ⟨by decide, by decide⟩
  exact ⟨reloaded_agree _, hcontent, s₁, reply₁, s₂, reply₂, toOption_eq_some.mp h₁,
    toOption_eq_some.mp h₂, hread⟩

end KubeEdge.DeviceTwin.Redelivery
