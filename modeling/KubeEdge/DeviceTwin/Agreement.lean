import KubeEdge.DeviceTwin.Endings

namespace KubeEdge.DeviceTwin
open Go

variable {isFloat : GoString → Bool} {d : DealType}

/-- The text of a value; an absent value counts as an empty one. -/
def text (value : Option TwinValue) : GoString := (value.bind TwinValue.value).getD []

/-- Two twins with the same values, versions, flag and type. -/
structure Same (t t' : Twin) : Prop where
  values : ∀ p, text (t.side p).value = text (t'.side p).value
  versions : ∀ p, (t.side p).version = (t'.side p).version
  optional : t.optional = t'.optional
  type : t.type = t'.type

/-- Memory is what `DeviceTwinToMsgTwin` rebuilds from the rows. -/
structure Agree (s : Device) : Prop where
  keys : ∀ k, k ∈ s.twins ↔ k ∈ s.rows
  same : ∀ k t t', s.twins.lookup k = some t → (deviceTwinToMsgTwin s.rows).lookup k = some t' →
    Same t t'

def Side.toColumn (s : Side) : Column := ⟨text s.value, s.version⟩

def Twin.toRow (t : Twin) : Row := ⟨t.expected.toColumn, t.actual.toColumn, t.optional, t.type⟩

@[simp] theorem Column.toColumn_toSide (c : Column) : c.toSide.toColumn = c := by
  obtain ⟨value, version⟩ := c
  by_cases hvalue : value = [] <;> simp [Column.toSide, Side.toColumn, text, hvalue]

@[simp] theorem Row.toRow_toTwin (r : Row) : r.toTwin.toRow = r := by
  simp [Row.toTwin, Twin.toRow]

variable {t t' : Twin} {o : Dealt} {msg : MsgTwin} {p : Part} {c c' : Comparing}
  {cols : Option (Option GoString × Version)} {m : Option MsgTwin} {db : Database}

theorem same_iff_toRow : Same t t' ↔ t.toRow = t'.toRow := by
  constructor
  · intro h
    have hvalues := h.values
    have hversions := h.versions
    simp only [Twin.toRow, Side.toColumn, Row.mk.injEq, Column.mk.injEq]
    exact ⟨⟨hvalues .expected, hversions .expected⟩, ⟨hvalues .actual, hversions .actual⟩,
      h.optional, h.type⟩
  · intro h
    simp only [Twin.toRow, Side.toColumn, Row.mk.injEq, Column.mk.injEq] at h
    obtain ⟨⟨hev, heV⟩, ⟨hav, haV⟩, hoptional, htype⟩ := h
    refine ⟨?_, ?_, hoptional, htype⟩ <;> intro p <;> cases p <;> assumption

theorem agree_iff_lookup {s : Device} :
    Agree s ↔ ∀ k, s.rows.lookup k = (s.twins.lookup k).map Twin.toRow := by
  constructor
  · intro h k
    cases ht : s.twins.lookup k with
    | none =>
      have hk : k ∉ s.rows := by
        rw [← h.keys k]
        exact AList.lookup_eq_none.mp ht
      exact AList.lookup_eq_none.mpr hk
    | some t =>
      have hk : k ∈ s.rows := (h.keys k).mp (GoMap.mem_iff_lookup.mpr ⟨t, ht⟩)
      obtain ⟨row, hrow⟩ := GoMap.mem_iff_lookup.mp hk
      have hsame := h.same k t row.toTwin ht (by simp [hrow])
      rw [same_iff_toRow, Row.toRow_toTwin] at hsame
      rw [hrow, ← hsame]
      rfl
  · intro h
    constructor
    · intro k
      rw [GoMap.mem_iff_lookup, GoMap.mem_iff_lookup, h k]
      simp
    · intro k t t' ht ht'
      rw [lookup_deviceTwinToMsgTwin, h k, ht] at ht'
      cases ht'
      rw [same_iff_toRow, Row.toRow_toTwin]

theorem reloaded_agree (rows : Table) : Agree ⟨deviceTwinToMsgTwin rows, rows⟩ := by
  rw [agree_iff_lookup]
  intro k
  cases hrow : rows.lookup k <;> simp [hrow]

/-- Whether memory and row agree after the key was dealt with, if they did before. -/
def Dealt.Mirrors (o : Dealt) (t : Option Twin) : Prop :=
  o.row (t.map Twin.toRow) = (o.twin.or t).map Twin.toRow

theorem mirrors_of_update {cols : Cols} (htwin : o.twin = some t')
    (hchange : o.change = some (.update cols)) :
    o.Mirrors (some t) ↔ t.toRow.update cols = t'.toRow := by
  unfold Dealt.Mirrors Dealt.row
  rw [htwin, hchange]
  exact Option.some_inj

theorem mirrors_of_none (htwin : o.twin = some t') (hchange : o.change = none) :
    o.Mirrors (some t) ↔ t.toRow = t'.toRow := by
  unfold Dealt.Mirrors Dealt.row
  rw [htwin, hchange]
  exact Option.some_inj

theorem toRow_update_eq {cols : Cols} :
    t.toRow.update cols = t'.toRow ↔
      (∀ p, (t.side p).toColumn.update (cols.side p) = (t'.side p).toColumn) ∧
        cols.optional.getD t.optional = t'.optional ∧ cols.attrType.getD t.type = t'.type := by
  simp only [Twin.toRow, Row.update, Row.mk.injEq]
  constructor
  · rintro ⟨hexpected, hactual, hoptional, htype⟩
    refine ⟨?_, hoptional, htype⟩
    intro p
    cases p <;> assumption
  · rintro ⟨hsides, hoptional, htype⟩
    exact ⟨hsides .expected, hsides .actual, hoptional, htype⟩

/-- The deletion of a twin is mirrored if nothing is done to it, or both sides have a version and
are deleted. -/
def deleteMirrored (t : Twin) (msg : MsgTwin) (d : DealType) : Bool :=
  t.deleted || t.hasVersion .expected &&
    (!t.yields msg d .expected || t.hasVersion .actual && t.yields msg d .actual)

theorem deletePart_mirrors {side : Side} (h : t.deletePart msg d p = .ok (side, cols)) :
    (t.side p).toColumn.update cols = side.toColumn ↔ t.hasVersion p = true := by
  unfold Twin.hasVersion
  rcases deletePart_ok h with ⟨v, w, hversion, -, -, rfl, rfl⟩ | ⟨hversion, rfl, rfl⟩
  · simp [hversion, Column.update, Side.toColumn, text]
  · simp [hversion, Column.update, Side.toColumn]

theorem deletePart_ne {side : Side} (h : t.deletePart msg d p = .ok (side, cols))
    (hversion : t.hasVersion p = false) :
    side.toColumn ≠ (t.side p).toColumn := by
  intro hcolumn
  have hcols : cols = none := by
    have hsome := (deletePart_cols h).1
    rw [hversion] at hsome
    exact Option.isSome_eq_false_iff.mp hsome |> Option.isNone_iff_eq_none.mp
  have hmirrors := deletePart_mirrors h
  rw [hcols, hversion] at hmirrors
  exact absurd (hmirrors.mp hcolumn.symm) (by simp)

theorem deleteTwin_mirrors (t : Twin) (msg : MsgTwin) (d : DealType) :
    (deleteTwin t msg d).Mirrors (some t) ↔ deleteMirrored t msg d = true := by
  unfold deleteMirrored
  rcases deleteTwin_cases t msg d with ⟨hdeleted, htwin, hchange⟩ | ⟨hdeleted,
    ⟨e, herror, htwin, hchange⟩ | ⟨expected, expectedCols, hexpected, ⟨e, herror, htwin, hchange⟩ |
      ⟨actual, actualCols, hactual, htwin, hchange⟩⟩⟩
  · rw [mirrors_of_none htwin hchange]
    simp [hdeleted]
  · obtain ⟨hversion, haccepts⟩ := deletePart_error herror
    rw [mirrors_of_none htwin hchange]
    simp [Twin.hasVersion, Twin.yields, hversion, haccepts]
  · -- the expected side is deleted in memory only
    have hrefused : t.yields msg d .actual = false := (deletePart_error herror).2
    obtain ⟨hcols, hyields⟩ := deletePart_cols hexpected
    rw [mirrors_of_none htwin hchange]
    cases hversion : t.hasVersion .expected with
    | false =>
      refine iff_of_false ?_ (by simp [hdeleted])
      intro h
      exact deletePart_ne hexpected hversion (congrArg Row.expected h).symm
    | true =>
      refine iff_of_false ?_ (by simp [hdeleted, hrefused, hyields hversion])
      intro h
      rw [hversion] at hcols
      have htype : t.type = typeAfter t.type expectedCols := congrArg Row.attrType h
      rw [typeAfter, if_pos hcols] at htype
      simp [Twin.deleted, htype] at hdeleted
  · obtain ⟨hcols, hyields⟩ := deletePart_cols hexpected
    obtain ⟨hcols', hyields'⟩ := deletePart_cols hactual
    have hright : (t.deleted || t.hasVersion .expected &&
        (!t.yields msg d .expected || t.hasVersion .actual && t.yields msg d .actual)) = true ↔
        t.hasVersion .expected = true ∧ t.hasVersion .actual = true := by
      cases hversion : t.hasVersion .expected with
      | false => simp [hdeleted]
      | true =>
        cases hversion' : t.hasVersion .actual with
        | false => simp [hdeleted, hyields hversion]
        | true => simp [hyields' hversion']
    rw [hright]
    rw [hcols, hcols'] at hchange
    by_cases hany : t.hasVersion .expected = true ∨ t.hasVersion .actual = true
    · have htype : typeAfter (typeAfter t.type expectedCols) actualCols = str "deleted" := by
        unfold typeAfter
        rw [hcols, hcols']
        rcases hany with hsome | hsome
        · rw [hsome]
          simp
        · rw [hsome]
          rfl
      rw [if_pos hany] at hchange
      rw [mirrors_of_update htwin hchange, toRow_update_eq, htype]
      constructor
      · rintro ⟨hsides, -, -⟩
        exact ⟨(deletePart_mirrors hexpected).mp (hsides .expected),
          (deletePart_mirrors hactual).mp (hsides .actual)⟩
      · rintro ⟨hsome, hsome'⟩
        refine ⟨?_, rfl, rfl⟩
        intro p
        cases p with
        | expected => exact (deletePart_mirrors hexpected).mpr hsome
        | actual => exact (deletePart_mirrors hactual).mpr hsome'
    · rw [if_neg hany] at hchange
      rw [mirrors_of_none htwin hchange]
      refine iff_of_false ?_ (fun h => hany (.inl h.1))
      intro h
      have hversion : t.hasVersion .expected = false := by
        simpa using fun h => hany (.inl h)
      exact deletePart_ne hexpected hversion (congrArg Row.expected h).symm

/-- The comparison is mirrored unless the refusal gives the side a version. -/
def compareMirrored (isFloat : GoString → Bool) (t : Twin) (msg : MsgTwin) (d : DealType) : Bool :=
  if t.refuses isFloat msg d .expected then t.hasVersion .expected
  else !t.refuses isFloat msg d .actual || t.hasVersion .actual

theorem comparePart_mirrors (htype : c.twin.type = t.type) (hside : c.twin.side p = t.side p)
    (hcols : c.cols.side p = none) (h : comparePart isFloat msg d p c = .ok (.ok c')) :
    (t.side p).toColumn.update (c'.cols.side p) = (c'.twin.side p).toColumn ↔
      (c.isSyncAllow && t.refuses isFloat msg d p) = false ∨ t.hasVersion p = true := by
  obtain ⟨-, hrefuses, -⟩ := takes_congr htype hside isFloat msg d
  rcases comparePart_cases h with ⟨rfl, hkept⟩ | ⟨old, hallow, hrefused, hold, htwin, hc, -, -⟩ |
    ⟨value, v, -, htakes, -, -, htwin, hc, -, -⟩
  · refine iff_of_true ?_ (.inl ?_)
    · rw [hside, hcols]
      rfl
    · rcases hkept with hallow | ⟨-, hnot, -⟩
      · rw [hallow, Bool.false_and]
      · rw [← hrefuses, hnot, Bool.and_false]
  · rw [← hrefuses, hallow, hrefused, htwin, hc, hcols, Twin.side_setSide, hside]
    rw [hside] at hold
    unfold Twin.hasVersion
    cases hversion : (t.side p).version with
    | none => simp [Column.update, Side.toColumn, hversion]
    | some v => simp [Column.update, Side.toColumn, hversion, hold]
  · refine iff_of_true ?_ (.inl ?_)
    · rw [htwin, hc, Twin.side_setSide, Cols.side_setSide]
      rfl
    · rw [← hrefuses]
      unfold Twin.takes at htakes
      unfold Twin.refuses
      simp_all

theorem comparePart_unchanged (h : comparePart isFloat msg d p c = .ok (.ok c'))
    (hchange : c'.isChange = false) :
    c.isChange = false ∧ c'.cols = c.cols := by
  rcases comparePart_cases h with ⟨rfl, -⟩ | ⟨old, -, -, -, -, hcols, hsame, -⟩ |
    ⟨value, v, -, -, -, -, -, -, htrue, -⟩
  · exact ⟨hchange, rfl⟩
  · exact ⟨hsame ▸ hchange, hcols⟩
  · rw [htrue] at hchange
    cases hchange

theorem compareRest_mirrors (msg : MsgTwin) (hoptional : c.cols.optional = none)
    (htype : c.cols.attrType = none) :
    (compareRest msg c).cols.optional.getD c.twin.optional = (compareRest msg c).twin.optional ∧
      (compareRest msg c).cols.attrType.getD c.twin.type = (compareRest msg c).twin.type := by
  cases hallow : c.isSyncAllow with
  | false => simp [compareRest, hallow, hoptional, htype]
  | true =>
    obtain ⟨htwin, hcols, -⟩ := compareRest_eq msg c hallow
    rw [htwin, hcols, hoptional, htype]
    constructor
    · cases hfixes : c.twin.fixes msg <;> simp
    · cases hrevived : c.twin.deleted && c.twin.retypes msg with
      | false => simp [valueType_of_not_revived hrevived]
      | true => simp

theorem compareRest_unchanged (hchange : (compareRest msg c).isChange = false) :
    c.isChange = false ∧ (compareRest msg c).cols = c.cols := by
  cases hallow : c.isSyncAllow with
  | false =>
    have hsame : compareRest msg c = c := by simp [compareRest, hallow]
    rw [hsame] at hchange ⊢
    exact ⟨hchange, rfl⟩
  | true =>
    obtain ⟨-, hcols, hsame⟩ := compareRest_eq msg c hallow
    rw [hsame] at hchange
    simp only [Bool.or_eq_false_iff] at hchange
    rw [hcols, hchange.1.2, hchange.2]
    exact ⟨hchange.1.1, by simp⟩

theorem row_compareResult {c₁ c₂ : Comparing} {document : TwinDoc}
    (hc₁ : comparePart isFloat msg d .expected { twin := t } = .ok (.ok c₁))
    (hc₂ : comparePart isFloat msg d .actual c₁ = .ok (.ok c₂)) (row : Row) :
    (compareResult document d (compareRest msg c₂)).row (some row) =
      some (row.update (compareRest msg c₂).cols) := by
  unfold Dealt.row
  rw [change_compareResult]
  cases hchange : (compareRest msg c₂).isChange with
  | true => rfl
  | false =>
    obtain ⟨hchange₂, hcols⟩ := compareRest_unchanged hchange
    obtain ⟨hchange₁, hcols₂⟩ := comparePart_unchanged hc₂ hchange₂
    obtain ⟨-, hempty⟩ := comparePart_unchanged hc₁ hchange₁
    rw [hcols, hcols₂, hempty]
    rfl

theorem dealTwinCompare_mirrors (h : dealTwinCompare isFloat t msg d = .ok o)
    (herr : o.err = none) :
    o.Mirrors (some t) ↔ compareMirrored isFloat t msg d = true := by
  obtain ⟨c₁, c₂, document, hc₁, hc₂, rfl⟩ := dealTwinCompare_parts h (.inl herr)
  have hsame₁ := comparePart_sameBut hc₁
  have hsame₂ := comparePart_sameBut hc₂
  have hside₁ : c₁.twin.side .actual = t.side .actual := hsame₁.side .actual (by decide)
  have hcols₁ : c₁.cols.side .actual = none := hsame₁.cols .actual (by decide)
  have hmirrors : (compareResult document d (compareRest msg c₂)).Mirrors (some t) ↔
      t.toRow.update (compareRest msg c₂).cols = (compareRest msg c₂).twin.toRow := by
    unfold Dealt.Mirrors
    rw [Option.map_some, row_compareResult hc₁ hc₂, twin_compareResult]
    exact Option.some_inj
  have hrest := compareRest_mirrors msg
    (by rw [hsame₂.optionalCol, hsame₁.optionalCol]) (by rw [hsame₂.attrType, hsame₁.attrType])
  rw [hsame₂.optional, hsame₁.optional, hsame₂.type, hsame₁.type] at hrest
  have hexpected := comparePart_mirrors rfl rfl rfl hc₁
  have hactual := comparePart_mirrors hsame₁.type hside₁ hcols₁ hc₂
  rw [(comparePart_decides rfl rfl hc₁).1] at hactual
  rw [← hsame₂.side .expected (by decide), ← hsame₂.cols .expected (by decide)] at hexpected
  have hsides : (∀ p, (t.side p).toColumn.update ((compareRest msg c₂).cols.side p) =
      ((compareRest msg c₂).twin.side p).toColumn) ↔ compareMirrored isFloat t msg d = true := by
    simp only [compareRest_side]
    rw [Part.forall, hexpected, hactual, compareMirrored]
    cases t.refuses isFloat msg d .expected <;> cases t.refuses isFloat msg d .actual <;> simp
  rw [hmirrors, toRow_update_eq, hsides]
  exact ⟨fun h => h.1, fun h => ⟨h, hrest⟩⟩

theorem dealTwinAdd_mirrors (h : dealTwin isFloat none m d = .ok o) : o.Mirrors none := by
  rcases dealTwinAdd_cases h with ⟨-, rfl⟩ | ⟨msg, -, -, ⟨e, left, rfl, -⟩ |
    ⟨expected, actual, -, -, rfl⟩⟩
  · rfl
  · rfl
  · simp [Dealt.Mirrors, Dealt.row, addRow, Change.apply]

/-- The entries that leave memory and row in agreement. -/
def mirrored (isFloat : GoString → Bool) (d : DealType) : Option Twin → Option MsgTwin → Bool
  | none, _ => true
  | some t, none => !t.optional || deleteMirrored t {} d
  | some t, some msg =>
    if msg.deletes d then deleteMirrored t msg d else compareMirrored isFloat t msg d

theorem dealTwin_mirrors {t : Option Twin} (h : dealTwin isFloat t m d = .ok o)
    (herr : o.err = none) :
    o.Mirrors t ↔ mirrored isFloat d t m = true := by
  cases t with
  | none => exact iff_of_true (dealTwinAdd_mirrors h) rfl
  | some t =>
    rcases dealTwin_cases h with ⟨hd, rfl, hoptional, rfl⟩ | ⟨hd, rfl, hoptional, rfl⟩ |
      ⟨hd, msg, rfl, hmeta, rfl⟩ | ⟨msg, rfl, hmeta, hcompare⟩
    · simp [mirrored, hoptional, Dealt.Mirrors, Dealt.row]
    · simp [mirrored, hoptional, deleteTwin_mirrors]
    · simp [mirrored, MsgTwin.deletes, hd, hmeta, deleteTwin_mirrors]
    · rw [dealTwinCompare_mirrors hcompare herr, mirrored, deletes_eq_false hmeta]
      simp

theorem written_agree {s : Device} {outs : List (GoString × Dealt)} (hs : Agree s)
    (houts : (outs.map Prod.fst).Nodup) (hdb : db.executed = .all ∨ db.ok = false)
    (hfails : ¬ Fails db outs) :
    Agree (written db s outs) ↔ ∀ k o, (k, o) ∈ outs → o.Mirrors (s.twins.lookup k) := by
  rw [agree_iff_lookup] at hs ⊢
  have hkey : ∀ k o, (k, o) ∈ outs →
      ((written db s outs).rows.lookup k = ((written db s outs).twins.lookup k).map Twin.toRow ↔
        o.Mirrors (s.twins.lookup k)) := by
    intro k o ho
    rw [lookup_written houts hdb hfails ho, hs k, written, lookup_rememberAll houts s.twins ho]
    exact Iff.rfl
  constructor
  · intro h k o ho
    exact (hkey k o ho).mp (h k)
  · intro h k
    by_cases hk : k ∈ outs.map Prod.fst
    · obtain ⟨⟨k, o⟩, ho, rfl⟩ := List.mem_map.mp hk
      exact (hkey k o ho).mpr (h k o ho)
    · change (deviceTwinTrans db _ s.rows).lookup k = ((rememberAll s.twins outs).lookup k).map _
      rw [lookup_deviceTwinTrans_of_notMem db houts s.rows hk,
        lookup_rememberAll_of_notMem houts s.twins hk]
      exact hs k

theorem syncDeviceFromSqlite_agree (hdb : db.reloads = true) (s : Device) :
    Agree (syncDeviceFromSqlite db s) := by
  unfold syncDeviceFromSqlite
  rw [if_pos hdb]
  exact reloaded_agree s.rows

def entriesOf (msgTwin : Option Update) : List (Sigma fun _ : GoString => Option MsgTwin) :=
  (msgTwin.map AList.entries).getD []

/-- After a call, memory and table agree again exactly if the device was read again, because the
update was not valid or could not be written, or all entries up to the end of the loop are
mirrored. -/
theorem agree_again_iff {s s' : Device} {msgTwin : Option Update} {db : Database} {reply : Reply}
    (hs : Agree s) (hdb : db = .committed ∨ db = .rolledBack)
    (h : dealDeviceTwin isFloat s msgTwin d db = .ok (s', reply)) :
    Agree s' ↔
      (d = .rest ∧ ∃ e ∈ reached isFloat d s.twins (entriesOf msgTwin),
        invalid isFloat (s.twins.lookup e.1) e.2 = true) ∨
      (db = .rolledBack ∧ ∃ e ∈ reached isFloat d s.twins (entriesOf msgTwin),
        writes isFloat d (s.twins.lookup e.1) e.2 = true) ∨
      ∀ e ∈ reached isFloat d s.twins (entriesOf msgTwin),
        mirrored isFloat d (s.twins.lookup e.1) e.2 = true := by
  cases msgTwin with
  | none =>
    cases h
    exact iff_of_true hs (.inr (.inr (by simp [entriesOf, reached])))
  | some content =>
    obtain ⟨outs, houts, hcases⟩ := dealDeviceTwin_cases h
    have hnodup := outcomes_nodup content.nodupKeys houts
    have hreloads : db.reloads = true := by
      rcases hdb with rfl | rfl <;> rfl
    rw [show entriesOf (some content) = content.entries from rfl, ← givenUp_iff houts]
    rcases hcases with ⟨hup, rfl⟩ | ⟨hup, hfails, rfl⟩ | ⟨hup, hfails, rfl⟩
    · exact iff_of_true (syncDeviceFromSqlite_agree hreloads _) (.inl hup)
    · have hmirrored : (∀ e ∈ reached isFloat d s.twins content.entries,
          mirrored isFloat d (s.twins.lookup e.1) e.2 = true) ↔
          ∀ k o, (k, o) ∈ outs → o.Mirrors (s.twins.lookup k) := by
        apply forall_reached houts (P := fun t m => mirrored isFloat d t m = true)

        intro k m o ho hdeal
        exact (dealTwin_mirrors hdeal (err_eq_none houts hup ho)).symm
      have hnothing : ¬ (db = .rolledBack ∧ ∃ e ∈ reached isFloat d s.twins content.entries,
          writes isFloat d (s.twins.lookup e.1) e.2 = true) := by
        rintro ⟨rfl, hwrites⟩
        obtain ⟨k, o, ho, hsome⟩ := (changes_iff houts hup).mp hwrites
        obtain ⟨c, hc⟩ := Option.isSome_iff_exists.mp hsome
        exact hfails ⟨rfl, k, o, c, ho, hc⟩
      have hexec : db.executed = .all ∨ db.ok = false := by
        rcases hdb with rfl | rfl
        · exact .inl rfl
        · exact .inr rfl
      rw [hmirrored, written_agree hs hnodup hexec hfails, or_iff_right hup, or_iff_right hnothing]
    · refine iff_of_true (syncDeviceFromSqlite_agree hreloads _) (.inr (.inl ?_))
      obtain ⟨hok, k, o, c, ho, hc⟩ := hfails
      refine ⟨?_, (changes_iff houts hup).mpr ⟨k, o, ho, by rw [hc]; rfl⟩⟩
      rcases hdb with rfl | rfl
      · cases hok
      · rfl

namespace Sample

/-- A device with one twin that was set and has been reported. -/
def thermostat : Device :=
  let rows : Table := AList.singleton (str "temperature")
    ⟨⟨str "21", some ⟨1, 0⟩⟩, ⟨str "20", some ⟨1, 3⟩⟩, true, str "int"⟩
  ⟨deviceTwinToMsgTwin rows, rows⟩

def temperature (type : String) (expected actual : Side) : Option Update :=
  some (AList.singleton (str "temperature")
    (some { expected := expected, actual := actual, metadata := some (str type) }))

def warmer : Option Update := temperature "int" ⟨some ⟨some (str "22")⟩, some ⟨2, 0⟩⟩ {}

/-- A deletion that knows nothing of what was reported. -/
def removal : Option Update := temperature "deleted" ⟨none, some ⟨2, 0⟩⟩ ⟨none, some ⟨2, 0⟩⟩

end Sample

open Sample

/-- A new value that is accepted. -/
theorem warmer_agrees : ∃ s' reply, dealDeviceTwin (fun _ => false) thermostat warmer
    .sync .committed = .ok (s', reply) ∧ Agree s' := by
  have hread : (dealDeviceTwin (fun _ => false) thermostat warmer
      .sync .committed).toOption.isSome = true := by
    decide +kernel
  obtain ⟨⟨s', reply⟩, hcall⟩ := Option.isSome_iff_exists.mp hread
  rw [toOption_eq_some] at hcall
  refine ⟨s', reply, hcall, ?_⟩
  rw [agree_again_iff (reloaded_agree _) (.inl rfl) hcall]
  exact .inr (.inr (by decide +kernel))

/-- The deletion is refused because of the reported value, but memory has it half done. -/
theorem removal_half_done : Agree thermostat ∧
    ∃ s' reply, dealDeviceTwin (fun _ => false) thermostat removal
      .sync .committed = .ok (s', reply) ∧ ¬ Agree s' := by
  have hread : (dealDeviceTwin (fun _ => false) thermostat removal
      .sync .committed).toOption.map (fun r =>
        ((r.1.twins.lookup (str "temperature")).map Twin.type,
          (r.1.rows.lookup (str "temperature")).map Row.attrType)) =
      some (some (str "deleted"), some (str "int")) := by
    decide +kernel
  obtain ⟨⟨s', reply⟩, hcall, hread⟩ := Option.map_eq_some_iff.mp hread
  rw [Prod.mk.injEq, Option.map_eq_some_iff, Option.map_eq_some_iff] at hread
  obtain ⟨⟨t, ht, htype⟩, row, hrow, hattr⟩ := hread
  refine ⟨reloaded_agree _, s', reply, toOption_eq_some.mp hcall, ?_⟩
  intro hagree
  have hsame := (hagree.same _ t row.toTwin ht (by simp [hrow])).type
  change t.type = row.attrType at hsame
  rw [htype, hattr] at hsame
  exact absurd hsame (by decide)

end KubeEdge.DeviceTwin
