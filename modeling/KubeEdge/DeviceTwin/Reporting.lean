import KubeEdge.DeviceTwin.Agreement

namespace KubeEdge.DeviceTwin
open Go

variable {isFloat : GoString → Bool}

def MsgTwin.report (m : MsgTwin) : Option GoString := m.actual.value.bind TwinValue.value

/-- The actual value of a twin, empty where there is none. -/
def actualText (t : Option Twin) : GoString := (t.map fun t => text t.actual.value).getD []

/-- Memory and row have the same actual value. -/
def SameActual (t : Option Twin) (row : Option Row) : Prop :=
  row.map (fun row => row.actual.value) = t.map fun t => text t.actual.value

/-- The entries that do not take an actual value away. -/
def keepsActual : Option Twin → Option MsgTwin → Bool
  | some t, none => !t.optional || t.deleted || !t.hasVersion .actual
  | _, _ => true

/-- What becomes of an entry is reported. -/
structure Reports (t : Option Twin) (row : Option Row) (o : Dealt) : Prop where
  same : SameActual (o.twin.or t) (o.row row)
  value : actualText (o.twin.or t) = (o.syncResult.bind MsgTwin.report).getD (actualText t)

variable {t : Twin} {row : Option Row} {o : Dealt} {m : Option MsgTwin} {content : Update}
  {msg : MsgTwin} {db : Database} {reply : Reply}

theorem reports_of_kept (t' : Twin) (h : SameActual (some t) row) (htwin : o.twin = some t')
    (hvalue : t'.actual.value = t.actual.value)
    (hchange : o.change = none ∨ ∃ cols, o.change = some (.update cols) ∧ cols.actual = none)
    (hsync : o.syncResult.bind MsgTwin.report = none ∨
      o.syncResult.bind MsgTwin.report = t.actual.value.bind TwinValue.value) :
    Reports (some t) row o := by
  have hactual : actualText (o.twin.or (some t)) = actualText (some t) := by
    simp [actualText, htwin, hvalue]
  constructor
  · have hrow : (o.row row).map (fun row => row.actual.value) =
        row.map fun row => row.actual.value := by
      unfold Dealt.row
      rcases hchange with hchange | ⟨cols, hchange, hcols⟩
      · rw [hchange]
      · simp only [hchange, Change.apply, Option.map_map]
        congr 1
        funext row
        simp [Row.update, Column.update, hcols]
    unfold SameActual at h ⊢
    rw [hrow, h, htwin]
    simp [hvalue]
  · rw [hactual]
    rcases hsync with hsync | hsync
    · rw [hsync]
      rfl
    · rw [hsync]
      cases hvalue : t.actual.value.bind TwinValue.value <;> simp [actualText, text, hvalue]

theorem reports_of_set {t' : Twin} {value : Option GoString} {v : Version} (cols : Cols)
    (h : SameActual (some t) row) (htwin : o.twin = some t')
    (hvalue : t'.actual.value = some ⟨value⟩) (hnew : value = none → text t.actual.value = [])
    (hchange : o.change = some (.update cols)) (hcols : cols.actual = some (value, v))
    (hsync : o.syncResult.bind MsgTwin.report = value) : Reports (some t) row o := by
  constructor
  · unfold SameActual at h ⊢
    cases row with
    | none => cases h
    | some row =>
      simp [Dealt.row, hchange, Change.apply, Row.update, Column.update, hcols, htwin, hvalue, text]
  · rw [hsync]
    cases value with
    | none =>
      have hold := hnew rfl
      unfold text at hold
      simp [actualText, htwin, hvalue, text, hold]
    | some value => simp [actualText, htwin, hvalue, text]

theorem dealTwinAdd_reports (h : SameActual none row)
    (hdeal : dealTwin isFloat none m .rest = .ok o) (herr : o.err = none) : Reports none row o := by
  have hrow : row = none := by
    cases row with
    | none => rfl
    | some row => cases h
  subst hrow
  rcases dealTwinAdd_cases hdeal with ⟨-, rfl⟩ | ⟨msg, -, -, ⟨e, left, rfl, -⟩ |
    ⟨expected, actual, -, -, rfl⟩⟩
  · exact ⟨rfl, rfl⟩
  · cases herr
  · constructor
    · by_cases hempty : actual.value = [] <;>
        simp [SameActual, Dealt.row, addRow, Change.apply, Row.toTwin, Column.toSide, hempty, text]
    · by_cases hempty : actual.value = [] <;>
        simp [actualText, addRow, MsgTwin.report, Twin.toMsgTwin, Row.toTwin, Column.toSide, hempty,
          text]

theorem deleteTwin_reports (h : SameActual (some t) row)
    (hkeeps : (t.deleted || !t.hasVersion .actual) = true) :
    Reports (some t) row (deleteTwin t {} .rest) := by
  cases hdeleted : t.deleted with
  | true =>
    refine reports_of_kept t h ?_ rfl (.inl ?_) (.inl ?_)
    · simp [deleteTwin, hdeleted]
    · simp [deleteTwin, hdeleted]
    · simp [deleteTwin, hdeleted, MsgTwin.report]
  | false =>
    have hversion : t.actual.version = none := by
      simpa [hdeleted, Twin.hasVersion, Twin.side] using hkeeps
    cases hexpected : t.expected.version with
    | none =>
      let t' : Twin := ⟨⟨t.expected.value, some {}⟩, ⟨t.actual.value, some {}⟩, t.optional, t.type⟩
      have ho : deleteTwin t {} .rest = { twin := some t' } := by
        simp [deleteTwin, hdeleted, deleteSide, hexpected, hversion, typeAfter, t']
      rw [ho]
      exact reports_of_kept _ h rfl rfl (.inl rfl) (.inl rfl)
    | some v =>
      let t' : Twin := ⟨⟨some {}, some { v with edge := v.edge + 1 }⟩, ⟨t.actual.value, some {}⟩,
        t.optional, str "deleted"⟩
      let cols : Cols :=
        { expected := some (none, { v with edge := v.edge + 1 }), attrType := some (str "deleted") }
      refine reports_of_kept t' h ?_ rfl (.inr ⟨cols, ?_, rfl⟩) (.inr ?_)
      · simp [deleteTwin, hdeleted, deleteSide, dealVersion, hexpected, hversion, typeAfter, t']
      · simp [deleteTwin, hdeleted, deleteSide, dealVersion, hexpected, hversion, cols]
      · simp [deleteTwin, hdeleted, deleteSide, dealVersion, hexpected, hversion, MsgTwin.report,
          Twin.toMsgTwin]

theorem comparePart_rest {p : Part} {c c' : Comparing} (hallow : c.isSyncAllow = true)
    (h : comparePart isFloat msg .rest p c = .ok (.ok c')) :
    c' = c ∨ ∃ value v, ((c.twin.side p).value.isSome = true → value.isSome = true) ∧
      c'.twin = c.twin.setSide ⟨some ⟨value⟩, some v⟩ p ∧ c'.cols = c.cols.setSide (value, v) p ∧
      c'.sync.side p = ⟨some ⟨value⟩, some v⟩ ∧ (∀ q, q ≠ p → c'.sync.side q = c.sync.side q) ∧
      c'.isChange = true ∧ c'.isSyncAllow = true := by
  obtain ⟨compared, hcompared, h⟩ := ok_of_bind h
  cases compared with
  | unchanged =>
    cases h
    exact .inl rfl
  | invalid e => cases h
  | refused version e =>
    simp only [hallow, if_true] at h
    cases h
  | accepted value version =>
    simp only [hallow, if_true] at h
    cases h
    refine .inr ⟨value, version, ?_, rfl, rfl, ?_, ?_, rfl, rfl⟩
    · intro hsome
      -- a value that the twin has is only compared with a value
      obtain ⟨old, hold⟩ := Option.isSome_iff_exists.mp hsome
      obtain ⟨r, hr, hcompared⟩ := ok_of_bind hcompared
      rw [hold] at hr
      cases hmsg : (msg.side p).value with
      | none =>
        rw [hmsg] at hr
        cases hr
        cases hcompared
      | some twinValue =>
        rw [hmsg] at hr
        obtain ⟨text, htext, hr⟩ := ok_of_bind hr
        have hvalue := deref_eq_ok.mp htext
        cases r with
        | error e => cases hcompared
        | ok b =>
          cases b with
          | false => cases hcompared
          | true =>
            simp only at hcompared
            split at hcompared
            · cases hcompared
            · simp only [Except.ok.injEq, Compared.accepted.injEq] at hcompared
              rw [← hcompared.1, hmsg, Option.bind_some, hvalue]
              rfl
    · cases p <;> rfl
    · intro q hq
      cases p <;> cases q <;> first | rfl | exact absurd rfl hq

theorem compareRest_sync (msg : MsgTwin) (c : Comparing) (p : Part) :
    (compareRest msg c).sync.side p = c.sync.side p := by
  have hoptional : (compareOptional msg c).sync.side p = c.sync.side p := by
    unfold compareOptional
    cases msg.optional with
    | none => rfl
    | some optional =>
      dsimp only
      split_ifs
      · cases p <;> rfl
      · rfl
  have hmetadata : ∀ c : Comparing, (compareMetadata msg c).sync.side p = c.sync.side p := by
    intro c
    unfold compareMetadata
    cases msg.metadata with
    | none =>
      split_ifs
      · cases p <;> rfl
      · rfl
    | some type =>
      dsimp only
      split_ifs
      · rfl
      · cases p <;> rfl
      · rfl
  unfold compareRest
  split_ifs
  · rw [hmetadata, hoptional]
  · rfl

theorem dealTwinCompare_reports (h : SameActual (some t) row)
    (hdeal : dealTwinCompare isFloat t msg .rest = .ok o) (herr : o.err = none) :
    Reports (some t) row o := by
  obtain ⟨c₁, c₂, document, h₁, h₂, rfl⟩ := dealTwinCompare_parts hdeal (.inl herr)
  have hsync : (compareResult document .rest (compareRest msg c₂)).syncResult =
      if (compareRest msg c₂).isChange then some (compareRest msg c₂).sync else none := by
    unfold compareResult
    cases (compareRest msg c₂).isChange <;> rfl
  have hfirst : c₁.isSyncAllow = true ∧ c₁.sync.side .actual = {} := by
    rcases comparePart_rest rfl h₁ with rfl | ⟨_, _, -, -, -, -, hside, -, hallow⟩
    · exact ⟨rfl, rfl⟩
    · exact ⟨hallow, hside .actual (by decide)⟩
  have htwin₁ : c₁.twin.side .actual = t.side .actual :=
    (comparePart_sameBut h₁).side .actual (by decide)
  have hcols₁ : c₁.cols.side .actual = none := (comparePart_sameBut h₁).cols .actual (by decide)
  obtain ⟨htwin, hcols⟩ := compareRest_side msg c₂ .actual
  have hreport := compareRest_sync msg c₂ .actual
  rcases comparePart_rest hfirst.1 h₂ with rfl | ⟨value, v, hold, ht, hc, hs, -, hchange, -⟩
  · -- the actual side is not in the update
    have hactual : (compareRest msg c₂).twin.actual = t.actual := htwin.trans htwin₁
    have hnone : (compareRest msg c₂).cols.actual = none := hcols.trans hcols₁
    have hempty : (compareRest msg c₂).sync.actual = {} := hreport.trans hfirst.2
    refine reports_of_kept _ h (twin_compareResult ..) (by rw [hactual]) ?_ (.inl ?_)
    · rw [change_compareResult]
      split_ifs
      · exact .inr ⟨_, rfl, hnone⟩
      · exact .inl rfl
    · rw [hsync]
      split_ifs
      · simp [MsgTwin.report, hempty]
      · rfl
  · have hchanged : (compareRest msg c₂).isChange = true := by
      simp [isChange_compareRest, hchange]
    have hactual : (compareRest msg c₂).twin.actual = ⟨some ⟨value⟩, some v⟩ := by
      refine htwin.trans ?_
      rw [ht]
      rfl
    have hset : (compareRest msg c₂).cols.actual = some (value, v) := by
      refine hcols.trans ?_
      rw [hc]
      rfl
    have hsent : (compareRest msg c₂).sync.actual = ⟨some ⟨value⟩, some v⟩ := hreport.trans hs
    refine reports_of_set (compareRest msg c₂).cols h (twin_compareResult ..)
      (by rw [hactual]) ?_ ?_ hset ?_
    · rintro rfl
      have hnot : t.actual.value = none := by
        cases hvalue : t.actual.value with
        | none => rfl
        | some old =>
          have hside : (c₁.twin.side .actual).value = some old := by
            rw [htwin₁]
            exact hvalue
          have hbad := hold (by rw [hside]; rfl)
          cases hbad
      simp [text, hnot]
    · rw [change_compareResult, if_pos hchanged]
    · rw [hsync, if_pos hchanged]
      simp [MsgTwin.report, hsent]

theorem dealTwin_reports {t : Option Twin} (h : SameActual t row) (hkeeps : keepsActual t m = true)
    (hdeal : dealTwin isFloat t m .rest = .ok o) (herr : o.err = none) : Reports t row o := by
  cases t with
  | none => exact dealTwinAdd_reports h hdeal herr
  | some t =>
    rcases dealTwin_cases hdeal with ⟨-, rfl, hmandatory, rfl⟩ | ⟨-, rfl, hoptional, rfl⟩ |
      ⟨hd, -⟩ | ⟨msg, rfl, -, hcompare⟩
    · exact reports_of_kept _ h rfl rfl (.inl rfl) (.inl rfl)
    · apply deleteTwin_reports h
      simpa [keepsActual, hoptional] using hkeeps
    · exact absurd rfl hd
    · exact dealTwinCompare_reports h hcompare herr

/-- What goes to the cloud. -/
def Reply.syncResult : Reply → GoMap GoString MsgTwin
  | .rejected _ _ => ∅
  | .published _ _ _ syncResult => syncResult

theorem lookup_syncResult {outs : List (GoString × Dealt)} (houts : (outs.map Prod.fst).Nodup) :
    (∀ k o, (k, o) ∈ outs → (recordAll {} outs).syncResult.lookup k = o.syncResult) ∧
      ∀ k, k ∉ outs.map Prod.fst → (recordAll {} outs).syncResult.lookup k = none := by
  refine lookup_recordAll houts Dealt.syncResult DealTwinResult.syncResult rfl fun r key o k => ?_
  simp only [DealTwinResult.record]
  cases o.syncResult with
  | none => exact GoMap.lookup_erase ..
  | some sync => exact GoMap.lookup_insert ..

theorem dealDeviceTwin_rest {s s' : Device} (hdb : db = .committed ∨ db = .rolledBack)
    (h : dealDeviceTwin isFloat s (some content) .rest db = .ok (s', reply)) :
    ∃ outs, outcomes isFloat .rest s.twins content.entries = .ok outs ∧
      (s' = ⟨deviceTwinToMsgTwin s.rows, s.rows⟩ ∧ reply.syncResult = ∅ ∨
        (∀ k o, (k, o) ∈ outs → o.err = none) ∧ s' = written .committed s outs ∧
          reply.syncResult = (recordAll {} outs).syncResult) := by
  obtain ⟨outs, houts, hr⟩ := dealDeviceTwin_ok h
  refine ⟨outs, houts, ?_⟩
  rcases settled_cases .rest db s outs with ⟨-, hend⟩ | ⟨hup, hfails, hend⟩ | ⟨-, hfails, hend⟩ <;>
    cases hr.symm.trans hend
  · rcases hdb with rfl | rfl <;> exact .inl ⟨rfl, rfl⟩
  · refine .inr ⟨?_, ?_, rfl⟩
    · intro k o ho
      by_contra hsome
      exact hup ⟨rfl, k, o, ho, Option.isSome_iff_ne_none.mpr hsome⟩
    · rcases hdb with rfl | rfl
      · rfl
      · -- there was nothing to write
        have hnil : (recordAll {} outs).statements = [] :=
          statements_eq_nil.mpr fun k o c ho hchange => hfails ⟨rfl, k, o, c, ho, hchange⟩
        rw [written, written, deviceTwinTrans_nil _ s.rows hnil, deviceTwinTrans_nil _ s.rows hnil]
  · rcases hdb with rfl | rfl
    · exact absurd hfails.1 (by decide)
    · exact .inl ⟨rfl, rfl⟩

/-- The actual values after an update from the edge are those of its report, and otherwise as
they were. -/
theorem update_reported {s s' : Device} (hdb : db = .committed ∨ db = .rolledBack)
    (hs : ∀ k, SameActual (s.twins.lookup k) (s.rows.lookup k))
    (hkeeps : ∀ e ∈ content.entries, keepsActual (s.twins.lookup e.1) e.2 = true)
    (h : dealDeviceTwin isFloat s (some content) .rest db = .ok (s', reply)) :
    (∀ k, SameActual (s'.twins.lookup k) (s'.rows.lookup k)) ∧
      ∀ k, actualText (s'.twins.lookup k) =
        ((reply.syncResult.lookup k).bind MsgTwin.report).getD (actualText (s.twins.lookup k)) := by
  obtain ⟨outs, houts, ⟨rfl, hreply⟩ | ⟨herr, rfl, hreply⟩⟩ := dealDeviceTwin_rest hdb h
  · -- the twins are read from the database again
    have hreload : ∀ row : Row, text row.toTwin.actual.value = row.actual.value := by
      intro row
      by_cases hempty : row.actual.value = [] <;> simp [Row.toTwin, Column.toSide, hempty, text]
    rw [hreply]
    constructor
    · intro k
      simp only [SameActual, lookup_deviceTwinToMsgTwin, Option.map_map]
      congr 1
      funext row
      exact (hreload row).symm
    · intro k
      have hk := hs k
      simp only [actualText, lookup_deviceTwinToMsgTwin, Option.map_map]
      rw [← hk]
      cases s.rows.lookup k with
      | none => rfl
      | some row => simp [hreload]
  · have hnodup := outcomes_nodup content.nodupKeys houts
    have hentry : ∀ k o, (k, o) ∈ outs → Reports (s.twins.lookup k) (s.rows.lookup k) o := by
      intro k o ho
      obtain ⟨m, hm, hdeal⟩ := exists_of_mem_outcomes houts ho
      exact dealTwin_reports (hs k) (hkeeps ⟨k, m⟩ hm) hdeal (herr k o ho)
    obtain ⟨hin, hout⟩ := lookup_syncResult hnodup
    rw [hreply, ← forall_and]
    intro k
    by_cases hk : k ∈ outs.map Prod.fst
    · obtain ⟨⟨_, o⟩, ho, rfl⟩ := List.mem_map.mp hk
      simp only [written]
      rw [lookup_rememberAll hnodup s.twins ho, lookup_committed hnodup rfl s.rows ho,
        hin _ o ho]
      exact ⟨(hentry _ o ho).same, (hentry _ o ho).value⟩
    · simp only [written]
      rw [lookup_rememberAll_of_notMem hnodup s.twins hk,
        lookup_deviceTwinTrans_of_notMem _ hnodup s.rows hk, hout k hk]
      exact ⟨hs k, rfl⟩

end KubeEdge.DeviceTwin
