import KubeEdge.DeviceTwin.Entries
import KubeEdge.DeviceTwin.Outcomes

namespace KubeEdge.DeviceTwin.Versions
open Go Machine

variable {isFloat : GoString → Bool} {d : DealType}

theorem option_le_refl (v : Option Version) : v ≤ v := by
  cases v with
  | none => exact Option.none_le
  | some v => exact Option.some_le_some.mpr v.le_refl

theorem option_le_trans {u v w : Option Version} (huv : u ≤ v) (hvw : v ≤ w) : u ≤ w := by
  match u, v, w with
  | none, _, _ => exact Option.none_le
  | some u, none, _ => exact absurd huv (by simp)
  | some u, some v, none => exact absurd hvw (by simp)
  | some u, some v, some w =>
    exact Option.some_le_some.mpr
      (Version.le_trans (Option.some_le_some.mp huv) (Option.some_le_some.mp hvw))

/-- No version of the second twin is older. -/
def NotOlder (t t' : Twin) : Prop := ∀ p, (t.side p).version ≤ (t'.side p).version

theorem NotOlder.refl (t : Twin) : NotOlder t t := fun _ => option_le_refl _

variable {t : Twin} {msg : MsgTwin} {o : Dealt} {s : Device} {req : Option Version}
  {m : Option MsgTwin}

theorem NotOlder.trans {t' t'' : Twin} (h : NotOlder t t') (h' : NotOlder t' t'') :
    NotOlder t t'' :=
  fun p => option_le_trans (h p) (h' p)

/-- No edge version of the twin is the last one. -/
def BelowMax (t : Twin) : Prop := ∀ p v, (t.side p).version = some v → v.edge < Int64.maxValue

instance (t : Twin) : Decidable (BelowMax t) :=
  decidable_of_iff
    (t.expected.version.all (·.edge < Int64.maxValue) ∧
      t.actual.version.all (·.edge < Int64.maxValue)) (by
    simp only [Option.all_eq_true, decide_eq_true_eq]
    constructor
    · rintro ⟨hexpected, hactual⟩ p
      cases p with
      | expected => exact hexpected
      | actual => exact hactual
    · intro h
      exact ⟨h .expected, h .actual⟩)

theorem dealVersion_le {v w : Version} (hmax : v.edge < Int64.maxValue)
    (h : dealVersion v req d = .ok w) : v ≤ w := by
  unfold dealVersion at h
  by_cases hd : d = .rest
  · rw [if_pos hd] at h
    cases h
    exact ⟨Int64.le_refl _, Version.edge_le_succ hmax⟩
  · rw [if_neg hd] at h
    cases req with
    | none =>
      split_ifs at h
      cases h
      exact v.le_refl
    | some req =>
      simp only at h
      split_ifs at h with hcloud hedge
      cases h
      exact ⟨Int64.not_lt.mp hcloud, Int64.not_lt.mp hedge⟩

/-- The version of a side moves on, and what is written is the version it moves to. -/
structure Moves (side side' : Side) (cols : Option (Option GoString × Version)) : Prop where
  notOlder : side.version ≤ side'.version
  writes : ∀ x, cols = some x → side'.version = some x.2

theorem Moves.refl (side : Side) : Moves side side none := ⟨option_le_refl _, by simp⟩

theorem deletePart_moves (hmax : BelowMax t) {p : Part} {side : Side}
    {cols : Option (Option GoString × Version)} (h : t.deletePart msg d p = .ok (side, cols)) :
    Moves (t.side p) side cols := by
  rcases deletePart_ok h with ⟨v, w, hversion, -, hdeal, rfl, rfl⟩ | ⟨hversion, rfl, rfl⟩
  · constructor
    · rw [hversion]
      exact Option.some_le_some.mpr (dealVersion_le (hmax p v hversion) hdeal)
    · rintro x ⟨⟩
      rfl
  · exact ⟨by simp [hversion], by simp⟩

theorem version_le_getD (side : Side) : side.version ≤ some (side.version.getD {}) := by
  cases hversion : side.version with
  | none => exact Option.none_le
  | some v => exact option_le_refl _

/-- A value that is taken moves the version on, from the first one if there was none. -/
theorem version_le_dealVersion {side : Side} {v : Version}
    (hmax : ∀ v, side.version = some v → v.edge < Int64.maxValue)
    (h : dealVersion (side.version.getD {}) req d = .ok v) : side.version ≤ some v := by
  have hlast : (side.version.getD {}).edge < Int64.maxValue := by
    cases hversion : side.version with
    | none => decide
    | some v => exact hmax v hversion
  exact option_le_trans (version_le_getD side) (Option.some_le_some.mpr (dealVersion_le hlast h))

def Advances (t t' : Twin) (cols : Cols) : Prop :=
  ∀ p, Moves (t.side p) (t'.side p) (cols.side p)

theorem Advances.refl (t : Twin) : Advances t t {} := by
  intro p
  cases p <;> exact .refl _

section

variable (hmax : BelowMax t)
include hmax

theorem deleteTwin_advances (msg : MsgTwin) (d : DealType) :
    ∃ t' cols, (deleteTwin t msg d).twin = some t' ∧ Advances t t' cols ∧
      ((deleteTwin t msg d).change = none ∨ (deleteTwin t msg d).change = some (.update cols)) := by
  rcases deleteTwin_cases t msg d with ⟨-, htwin, hchange⟩ | ⟨-, ⟨e, -, htwin, hchange⟩ |
    ⟨expected, expectedCols, hexpected, ⟨e, -, htwin, hchange⟩ |
      ⟨actual, actualCols, hactual, htwin, hchange⟩⟩⟩
  · exact ⟨t, {}, htwin, .refl t, .inl hchange⟩
  · exact ⟨t, {}, htwin, .refl t, .inl hchange⟩
  · have hmoves := deletePart_moves hmax hexpected
    refine ⟨_, {}, htwin, ?_, .inl hchange⟩
    intro p
    cases p with
    | expected => exact ⟨hmoves.notOlder, by simp [Cols.side]⟩
    | actual => exact .refl _
  · refine ⟨_, { expected := expectedCols, actual := actualCols, attrType := some (str "deleted") },
      htwin, ?_, ?_⟩
    · intro p
      cases p with
      | expected => exact deletePart_moves hmax hexpected
      | actual => exact deletePart_moves hmax hactual
    · rw [hchange]
      split_ifs
      · exact .inr rfl
      · exact .inl rfl

theorem comparePart_advances {p : Part} {c c' : Comparing} (hside : c.twin.side p = t.side p)
    (hcols : c.cols.side p = none) (h : comparePart isFloat msg d p c = .ok (.ok c')) :
    Moves (t.side p) (c'.twin.side p) (c'.cols.side p) := by
  rcases comparePart_cases h with ⟨rfl, -⟩ | ⟨old, -, -, -, htwin, hc, -, -⟩ |
    ⟨value, v, -, -, -, hdeal, htwin, hc, -, -⟩
  · rw [hside, hcols]
    exact .refl _
  · rw [htwin, hc, Twin.side_setSide, hcols, hside]
    exact ⟨version_le_getD _, by simp⟩
  · rw [hside] at hdeal
    rw [htwin, hc, Twin.side_setSide, Cols.side_setSide]
    refine ⟨version_le_dealVersion (hmax p) hdeal, ?_⟩
    rintro x ⟨⟩
    rfl

theorem dealTwinCompare_advances (h : dealTwinCompare isFloat t msg d = .ok o) :
    ∃ t' cols, o.twin = some t' ∧ Advances t t' cols ∧
      (o.change = none ∨ o.change = some (.update cols)) := by
  -- after the first part, the other side is as it was
  have hfirst : ∀ c, comparePart isFloat msg d .expected { twin := t } = .ok (.ok c) →
      Advances t c.twin c.cols ∧ c.twin.side .actual = t.side .actual ∧
        c.cols.side .actual = none := by
    intro c hc
    have hmoves := comparePart_advances hmax rfl rfl hc
    have hside := (comparePart_sameBut hc).side .actual (by decide)
    have hcols := (comparePart_sameBut hc).cols .actual (by decide)
    refine ⟨?_, hside, hcols⟩
    intro p
    cases p with
    | expected => exact hmoves
    | actual =>
      rw [hside, hcols]
      exact .refl _
  rcases dealTwinCompare_cases h with
    ⟨-, c, p, e, hc, -, htwin, hchange, -, -⟩ | ⟨c₁, c₂, document, hc₁, hc₂, rfl⟩
  · refine ⟨c.twin, c.cols, htwin, ?_, .inl hchange⟩
    rcases hc with ⟨rfl, -⟩ | ⟨hc, -⟩
    · exact .refl t
    · exact (hfirst c hc).1
  · obtain ⟨hadv, hside, hcols⟩ := hfirst c₁ hc₁
    have hmoves := comparePart_advances hmax hside hcols hc₂
    have hside' := (comparePart_sameBut hc₂).side .expected (by decide)
    have hcols' := (comparePart_sameBut hc₂).cols .expected (by decide)
    refine ⟨(compareRest msg c₂).twin, (compareRest msg c₂).cols, twin_compareResult .., ?_, ?_⟩
    · intro p
      rw [(compareRest_side msg c₂ p).1, (compareRest_side msg c₂ p).2]
      cases p with
      | expected =>
        rw [hside', hcols']
        exact hadv .expected
      | actual => exact hmoves
    · rw [change_compareResult]
      split_ifs
      · exact .inr rfl
      · exact .inl rfl

theorem dealTwin_advances (h : dealTwin isFloat (some t) m d = .ok o) :
    ∃ t' cols, o.twin = some t' ∧ Advances t t' cols ∧
      (o.change = none ∨ o.change = some (.update cols)) := by
  rcases dealTwin_cases h with ⟨-, -, -, rfl⟩ | ⟨-, -, -, rfl⟩ | ⟨-, msg, -, -, rfl⟩ |
    ⟨msg, -, -, hcompare⟩
  · exact ⟨t, {}, rfl, .refl t, .inl rfl⟩
  · exact deleteTwin_advances hmax {} d
  · exact deleteTwin_advances hmax msg d
  · exact dealTwinCompare_advances hmax hcompare

end

theorem dealTwinAdd_change {c : Change} (h : dealTwin isFloat none m d = .ok o)
    (hc : o.change = some c) :
    ∃ row, c = .add row ∧ o.twin = some row.toTwin := by
  rcases dealTwinAdd_cases h with ⟨-, rfl⟩ | ⟨msg, -, -, ⟨e, left, rfl, -⟩ |
    ⟨expected, actual, -, -, rfl⟩⟩
  · cases hc
  · cases hc
  · cases hc
    exact ⟨_, rfl, rfl⟩

/-- What is in the table is in memory, and no older there. -/
def Ahead (s : Device) : Prop :=
  ∀ k row, s.rows.lookup k = some row → ∃ t, s.twins.lookup k = some t ∧ NotOlder row.toTwin t

/-- No row is lost, and no version in it goes back. -/
def Grows (rows rows' : Table) : Prop :=
  ∀ k row, rows.lookup k = some row →
    ∃ row', rows'.lookup k = some row' ∧ NotOlder row.toTwin row'.toTwin

theorem Grows.refl (rows : Table) : Grows rows rows :=
  fun _ row hrow => ⟨row, hrow, .refl _⟩

theorem Grows.trans {rows rows' rows'' : Table} (h : Grows rows rows') (h' : Grows rows' rows'') :
    Grows rows rows'' := by
  intro k row hrow
  obtain ⟨row', hrow', hle⟩ := h k row hrow
  obtain ⟨row'', hrow'', hle'⟩ := h' k row' hrow'
  exact ⟨row'', hrow'', hle.trans hle'⟩

theorem version_update (row : Row) (cols : Cols) (p : Part) :
    ((row.update cols).toTwin.side p).version =
      match cols.side p with
      | none => (row.toTwin.side p).version
      | some x => some x.2 := by
  cases p with
  | expected => cases h : cols.expected <;> simp [Row.update, Row.toTwin, Twin.side, Cols.side,
      Column.update, Column.toSide, h]
  | actual => cases h : cols.actual <;> simp [Row.update, Row.toTwin, Twin.side, Cols.side,
      Column.update, Column.toSide, h]

theorem update_between {row : Row} {t' : Twin} {cols : Cols} (hrow : NotOlder row.toTwin t)
    (hadv : Advances t t' cols) :
    NotOlder row.toTwin (row.update cols).toTwin ∧ NotOlder (row.update cols).toTwin t' := by
  have hle : NotOlder row.toTwin t' := fun p => option_le_trans (hrow p) (hadv p).notOlder
  refine ⟨?_, ?_⟩ <;> intro p <;> rw [version_update] <;> cases hcols : cols.side p with
  | none => first | exact option_le_refl _ | exact hle p
  | some x =>
    have hwrites := (hadv p).writes x hcols
    have hlast := hle p
    rw [hwrites] at hlast
    first | exact hlast | exact hwrites ▸ option_le_refl _

theorem reloaded_ahead (rows : Table) : Ahead ⟨deviceTwinToMsgTwin rows, rows⟩ := by
  intro k row hrow
  refine ⟨row.toTwin, ?_, .refl _⟩
  rw [lookup_deviceTwinToMsgTwin, hrow]
  rfl

theorem syncDeviceFromSqlite_ahead (db : Database) (hs : Ahead s) :
    Ahead (syncDeviceFromSqlite db s) := by
  unfold syncDeviceFromSqlite
  split_ifs
  · exact reloaded_ahead s.rows
  · exact hs

theorem syncDeviceFromSqlite_rows (db : Database) (s : Device) :
    (syncDeviceFromSqlite db s).rows = s.rows := by
  unfold syncDeviceFromSqlite
  split_ifs <;> rfl

section

variable {outs : List (GoString × Dealt)}
  {entries : List (Sigma fun _ : GoString => Option MsgTwin)}
  (hmax : ∀ k t, s.twins.lookup k = some t → BelowMax t)
  (houts : outcomes isFloat d s.twins entries = .ok outs) (hnodup : (outs.map Prod.fst).Nodup)
include hmax houts hnodup

theorem rememberAll_notOlder {k : GoString} (ht : s.twins.lookup k = some t) :
    ∃ t', (rememberAll s.twins outs).lookup k = some t' ∧ NotOlder t t' := by
  by_cases hk : k ∈ outs.map Prod.fst
  · obtain ⟨⟨k, o⟩, ho, rfl⟩ := List.mem_map.mp hk
    obtain ⟨m, -, hdeal⟩ := exists_of_mem_outcomes houts ho
    rw [ht] at hdeal
    obtain ⟨t', cols, htwin, hadv, -⟩ := dealTwin_advances (hmax k t ht) hdeal
    refine ⟨t', ?_, fun p => (hadv p).notOlder⟩
    rw [lookup_rememberAll hnodup s.twins ho, htwin]
    rfl
  · exact ⟨t, by rw [lookup_rememberAll_of_notMem hnodup s.twins hk, ht], .refl t⟩

omit hnodup in
theorem changed_row (hs : Ahead s) {k : GoString} {c : Change} (ho : (k, o) ∈ outs)
    (hc : o.change = some c) :
    (s.rows.lookup k = none ∧ ∃ row, c = .add row ∧ o.twin = some row.toTwin) ∨
      ∃ t t' cols, s.twins.lookup k = some t ∧ c = .update cols ∧ o.twin = some t' ∧
        Advances t t' cols := by
  obtain ⟨m, -, hdeal⟩ := exists_of_mem_outcomes houts ho
  cases ht : s.twins.lookup k with
  | none =>
    rw [ht] at hdeal
    refine .inl ⟨?_, dealTwinAdd_change hdeal hc⟩
    cases hrow : s.rows.lookup k with
    | none => rfl
    | some row =>
      obtain ⟨t, ht', -⟩ := hs k row hrow
      rw [ht] at ht'
      cases ht'
  | some t =>
    rw [ht] at hdeal
    obtain ⟨t', cols, htwin, hadv, hchange⟩ := dealTwin_advances (hmax k t ht) hdeal
    rcases hchange with hchange | hchange
    · rw [hchange] at hc
      cases hc
    · rw [hchange] at hc
      cases hc
      exact .inr ⟨t, t', cols, rfl, rfl, htwin, hadv⟩

theorem remembered_ahead (hs : Ahead s) : Ahead { s with twins := rememberAll s.twins outs } := by
  intro k row hrow
  obtain ⟨t, ht, hle⟩ := hs k row hrow
  obtain ⟨t', ht', hle'⟩ := rememberAll_notOlder hmax houts hnodup ht
  exact ⟨t', ht', hle.trans hle'⟩

theorem written_ahead (db : Database) (hs : Ahead s) :
    Ahead (written db s outs) ∧ Grows s.rows (written db s outs).rows := by
  constructor
  · intro k row' hrow'
    change (deviceTwinTrans db (recordAll {} outs) s.rows).lookup k = some row' at hrow'
    rcases lookup_deviceTwinTrans db hnodup s.rows k with hsame | ⟨o, c, ho, hc, happly⟩
    · rw [hsame] at hrow'
      exact remembered_ahead hmax houts hnodup hs k row' hrow'
    · rw [happly] at hrow'
      change ∃ t, (rememberAll s.twins outs).lookup k = some t ∧ _
      rw [lookup_rememberAll hnodup s.twins ho]
      rcases changed_row hmax houts hs ho hc with ⟨-, row, rfl, htwin⟩ |
        ⟨t, t', cols, ht, rfl, htwin, hadv⟩
      · cases hrow'
        exact ⟨_, by rw [htwin]; rfl, .refl _⟩
      · obtain ⟨row, hrow, rfl⟩ := Option.map_eq_some_iff.mp hrow'
        obtain ⟨t₀, ht₀, hle⟩ := hs k row hrow
        rw [ht] at ht₀
        cases ht₀
        exact ⟨t', by rw [htwin]; rfl, (update_between hle hadv).2⟩
  · intro k row hrow
    change ∃ row', (deviceTwinTrans db (recordAll {} outs) s.rows).lookup k = some row' ∧ _
    rcases lookup_deviceTwinTrans db hnodup s.rows k with hsame | ⟨o, c, ho, hc, happly⟩
    · exact ⟨row, by rw [hsame, hrow], .refl _⟩
    · rcases changed_row hmax houts hs ho hc with ⟨hnone, -⟩ |
        ⟨t, t', cols, ht, rfl, htwin, hadv⟩
      · rw [hrow] at hnone
        cases hnone
      · obtain ⟨t₀, ht₀, hle⟩ := hs k row hrow
        rw [ht] at ht₀
        cases ht₀
        exact ⟨row.update cols, by rw [happly, hrow]; rfl, (update_between hle hadv).1⟩

end

theorem dealDeviceTwin_ahead {s' : Device} {m : Option Update} {db : Database} {reply : Reply}
    (hs : Ahead s) (hmax : ∀ k t, s.twins.lookup k = some t → BelowMax t)
    (h : dealDeviceTwin isFloat s m d db = .ok (s', reply)) :
    Ahead s' ∧ Grows s.rows s'.rows := by
  cases m with
  | none =>
    cases h
    exact ⟨hs, .refl _⟩
  | some content =>
    obtain ⟨outs, houts, hcases⟩ := dealDeviceTwin_cases h
    have hnodup := outcomes_nodup content.nodupKeys houts
    obtain ⟨hahead, hgrows⟩ := written_ahead hmax houts hnodup db hs
    rcases hcases with ⟨-, rfl⟩ | ⟨-, -, rfl⟩ | ⟨-, -, rfl⟩
    · rw [syncDeviceFromSqlite_rows]
      exact ⟨syncDeviceFromSqlite_ahead db (remembered_ahead hmax houts hnodup hs), .refl _⟩
    · exact ⟨hahead, hgrows⟩
    · rw [syncDeviceFromSqlite_rows]
      exact ⟨syncDeviceFromSqlite_ahead db hahead, hgrows⟩

inductive Event
  | call (msgTwin : Option Update) (d : DealType) (db : Database)
  | reload (db : Database)

/-- A panic ends the process, which starts again from the database. -/
def step (isFloat : GoString → Bool) (s : Device) : Event → Option Device
  | .call msgTwin d db =>
    match dealDeviceTwin isFloat s msgTwin d db with
    | .ok (s', _) => some s'
    | .error _ => some { s with twins := deviceTwinToMsgTwin s.rows }
  | .reload db => some (syncDeviceFromSqlite db s)

/-- The device as it is read at the start. -/
def start (rows : Table) : Device := ⟨deviceTwinToMsgTwin rows, rows⟩

/-- No edge version in memory is the last one when an update comes. -/
def NoneAtMax (s : Device) : Event → Prop
  | .call .. => ∀ k t, s.twins.lookup k = some t → BelowMax t
  | .reload _ => True

instance (s : Device) (e : Event) : Decidable (NoneAtMax s e) :=
  match e with
  | .call .. => decidable_of_iff (∀ e ∈ s.twins.entries, BelowMax e.2) (by
      constructor
      · intro h k t ht
        exact h ⟨k, t⟩ (AList.mem_lookup_iff.mp ht)
      · rintro h ⟨k, t⟩ he
        exact h k t (AList.mem_lookup_iff.mpr he))
  | .reload _ => isTrue trivial

theorem step_ahead {s' : Device} {e : Event} (hs : Ahead s) (hmax : NoneAtMax s e)
    (h : step isFloat s e = some s') : Ahead s' ∧ Grows s.rows s'.rows := by
  cases e with
  | reload db =>
    cases h
    rw [syncDeviceFromSqlite_rows]
    exact ⟨syncDeviceFromSqlite_ahead db hs, .refl _⟩
  | call msgTwin d db =>
    simp only [step] at h
    cases hdeal : dealDeviceTwin isFloat s msgTwin d db with
    | error e =>
      rw [hdeal] at h
      cases h
      exact ⟨reloaded_ahead s.rows, .refl _⟩
    | ok r =>
      rw [hdeal] at h
      cases h
      exact dealDeviceTwin_ahead hs hmax hdeal

/-- From any point of a run on, every row stays and its versions never decrease. -/
theorem versions_never_decrease {rows : Table} {before after : List Event} {s₁ s₂ : Device}
    (hmax : Along (step isFloat) NoneAtMax (start rows) (before ++ after))
    (h₁ : run (step isFloat) (start rows) before = some s₁)
    (h₂ : run (step isFloat) s₁ after = some s₂) {k : GoString} {row : Row}
    (hrow : s₁.rows.lookup k = some row) :
    ∃ row', s₂.rows.lookup k = some row' ∧
      row.expected.version ≤ row'.expected.version ∧ row.actual.version ≤ row'.actual.version := by
  obtain ⟨hbefore, hafter⟩ := hmax.after h₁
  have hs₁ : Ahead s₁ :=
    (always_of_along (fun s e s' hs hP h => (step_ahead hs hP h).1) (reloaded_ahead rows)
      hbefore).last h₁
  have hs₂ : Ahead s₂ ∧ Grows s₁.rows s₂.rows := by
    refine (always_of_along (I := fun s => Ahead s ∧ Grows s₁.rows s.rows) ?_
      ⟨hs₁, .refl _⟩ hafter).last h₂
    rintro s e s' ⟨hs, hgrows⟩ hP h
    obtain ⟨hs', hgrows'⟩ := step_ahead hs hP h
    exact ⟨hs', hgrows.trans hgrows'⟩
  obtain ⟨row', hrow', hle⟩ := hs₂.2 k row hrow
  exact ⟨row', hrow', hle .expected, hle .actual⟩

namespace Sample

def expecting (value : String) (version : Option Version) : Update :=
  AList.singleton (str "temperature") (some
    { expected := ⟨some ⟨some (str value)⟩, version⟩, metadata := some (str "int") })

def deleting : Update := AList.singleton (str "temperature") none

def added : List Event := [.call (some (expecting "20" none)) .rest .committed]

/-- The cloud updates it, the edge deletes it, and a transaction is lost. -/
def changed : List Event :=
  [.call (some (expecting "21" (some ⟨7, 1⟩))) .sync .committed,
    .call (some deleting) .rest .rolledBack, .reload .committed,
    .call (some (expecting "22" (some ⟨8, 0⟩))) .sync ⟨.first 0, true, true⟩]

end Sample

open Versions.Sample

/-- The versions of a twin that is updated from both sides. -/
theorem temperature_versions :
    ∃ s₁ s₂ row row', run (step fun _ => false) (start ∅) added = some s₁ ∧
      run (step fun _ => false) s₁ changed = some s₂ ∧
      s₁.rows.lookup (str "temperature") = some row ∧ row.expected.version = some ⟨0, 1⟩ ∧
      s₂.rows.lookup (str "temperature") = some row' ∧
      row.expected.version ≤ row'.expected.version ∧
      row.actual.version ≤ row'.actual.version := by
  have hread : ((run (step fun _ => false) (start ∅) added).bind fun s₁ =>
      (run (step fun _ => false) s₁ changed).map fun _ =>
        (s₁.rows.lookup (str "temperature")).map fun row => row.expected.version) =
      some (some (some ⟨0, 1⟩)) := by
    decide +kernel
  obtain ⟨s₁, hs₁, hread⟩ := Option.bind_eq_some_iff.mp hread
  obtain ⟨s₂, hs₂, hread⟩ := Option.map_eq_some_iff.mp hread
  obtain ⟨row, hrow, hversion⟩ := Option.map_eq_some_iff.mp hread
  have hmax : Along (step fun _ => false) NoneAtMax (start ∅) (added ++ changed) := by
    apply along_of_check (p := fun s e => decide (NoneAtMax s e)) (by simp)
    decide +kernel
  obtain ⟨row', hrow', hle⟩ := versions_never_decrease hmax hs₁ hs₂ hrow
  exact ⟨s₁, s₂, row, row', hs₁, hs₂, hrow, hversion, hrow', hle⟩

end KubeEdge.DeviceTwin.Versions
