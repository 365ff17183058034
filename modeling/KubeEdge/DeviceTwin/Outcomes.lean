import KubeEdge.DeviceTwin.Deal
import KubeEdge.Go.Machine

namespace KubeEdge.DeviceTwin
open Go

variable {isFloat : GoString → Bool} {d : DealType}

/-- What becomes of the keys up to the first error, each seen alone. -/
def outcomes (isFloat : GoString → Bool) (d : DealType) (twins : Memory) :
    List (Sigma fun _ : GoString => Option MsgTwin) → M (List (GoString × Dealt))
  | [] => .ok []
  | ⟨key, msgTwin⟩ :: rest => do
    let o ← dealTwin isFloat (twins.lookup key) msgTwin d
    if o.stop then .ok [(key, o)] else do .ok ((key, o) :: (← outcomes isFloat d twins rest))

def rememberAll (twins : Memory) (outs : List (GoString × Dealt)) : Memory :=
  outs.foldl (fun twins (key, o) => remember twins key o) twins

def recordAll (r : DealTwinResult) (outs : List (GoString × Dealt)) : DealTwinResult :=
  outs.foldl (fun r (key, o) => r.record key o) r

theorem lookup_remember (twins : Memory) (key : GoString) (o : Dealt) (k : GoString) :
    (remember twins key o).lookup k =
      if k = key then o.twin.or (twins.lookup key) else twins.lookup k := by
  unfold remember
  cases o.twin with
  | none =>
    split_ifs with hk
    · rw [hk]
      rfl
    · rfl
  | some twin => exact GoMap.lookup_insert ..

variable {twins : Memory} {entries : List (Sigma fun _ : GoString => Option MsgTwin)} {k : GoString}
  {o : Dealt} {db : Database} {s : Device} {outs : List (GoString × Dealt)} {content : Update}

theorem outcomes_congr {twins' : Memory} (h : ∀ e ∈ entries, twins.lookup e.1 = twins'.lookup e.1) :
    outcomes isFloat d twins entries = outcomes isFloat d twins' entries := by
  induction entries with
  | nil => rfl
  | cons e entries ih =>
    simp only [outcomes]
    rw [h e (.head _), ih fun e he => h e (.tail _ he)]

theorem dealMsgTwin_eq (hentries : (entries.map Sigma.fst).Nodup) (twins : Memory)
    (r : DealTwinResult) :
    dealMsgTwin isFloat d entries twins r = (outcomes isFloat d twins entries >>= fun outs =>
      .ok (rememberAll twins outs, recordAll r outs)) := by
  induction entries generalizing twins r with
  | nil => rfl
  | cons e entries ih =>
    obtain ⟨key, msgTwin⟩ := e
    rw [List.map_cons, List.nodup_cons] at hentries
    simp only [dealMsgTwin, outcomes]
    cases ho : dealTwin isFloat (twins.lookup key) msgTwin d with
    | error e => rfl
    | ok o =>
      simp only [ok_bind]
      cases o.stop with
      | true => rfl
      | false =>
        have hcongr : outcomes isFloat d (remember twins key o) entries =
            outcomes isFloat d twins entries := by
          apply outcomes_congr
          intro e he
          rw [lookup_remember, if_neg]
          rintro rfl
          exact hentries.1 (List.mem_map.mpr ⟨e, he, rfl⟩)
        rw [ih hentries.2, hcongr]
        cases outcomes isFloat d twins entries with
        | error e | ok outs => rfl

theorem exists_of_mem_outcomes (h : outcomes isFloat d twins entries = .ok outs)
    (ho : (k, o) ∈ outs) :
    ∃ m, ⟨k, m⟩ ∈ entries ∧ dealTwin isFloat (twins.lookup k) m d = .ok o := by
  induction entries generalizing outs with
  | nil =>
    cases h
    cases ho
  | cons e entries ih =>
    obtain ⟨key, m⟩ := e
    obtain ⟨o₁, ho₁, h⟩ := ok_of_bind h
    split_ifs at h with hstop
    · cases h
      cases List.mem_singleton.mp ho
      exact ⟨m, .head _, ho₁⟩
    · obtain ⟨rest, hrest, h⟩ := ok_of_bind h
      cases h
      rcases List.mem_cons.mp ho with he | ho
      · cases he
        exact ⟨m, .head _, ho₁⟩
      · obtain ⟨m', hm', hdeal⟩ := ih hrest ho
        exact ⟨m', .tail _ hm', hdeal⟩

theorem outcomes_returns
    (h : ∀ e ∈ entries, ∃ o, dealTwin isFloat (twins.lookup e.1) e.2 d = .ok o) :
    ∃ outs, outcomes isFloat d twins entries = .ok outs := by
  induction entries with
  | nil => exact ⟨[], rfl⟩
  | cons e entries ih =>
    obtain ⟨key, m⟩ := e
    obtain ⟨o, ho⟩ := h ⟨key, m⟩ (.head _)
    obtain ⟨outs, houts⟩ := ih fun e he => h e (.tail _ he)
    simp only [outcomes]
    rw [ho, ok_bind, houts]
    cases o.stop with
    | true | false => exact ⟨_, rfl⟩

theorem outcomes_keys_le (h : outcomes isFloat d twins entries = .ok outs) :
    outs.map Prod.fst <+: entries.map Sigma.fst := by
  induction entries generalizing outs with
  | nil =>
    cases h
    exact List.nil_prefix
  | cons e entries ih =>
    obtain ⟨o₁, -, h⟩ := ok_of_bind h
    split_ifs at h with hstop
    · cases h
      exact ⟨entries.map Sigma.fst, rfl⟩
    · obtain ⟨rest, hrest, h⟩ := ok_of_bind h
      cases h
      obtain ⟨t, ht⟩ := ih hrest
      exact ⟨t, by simp [← ht]⟩

theorem outcomes_nodup (hentries : (entries.map Sigma.fst).Nodup)
    (h : outcomes isFloat d twins entries = .ok outs) :
    (outs.map Prod.fst).Nodup :=
  (outcomes_keys_le h).sublist.nodup hentries

section

variable (houts : (outs.map Prod.fst).Nodup)
include houts

theorem lookup_rememberAll (twins : Memory) (ho : (k, o) ∈ outs) :
    (rememberAll twins outs).lookup k = o.twin.or (twins.lookup k) :=
  (GoMap.lookup_foldl (f := fun twins e => remember twins e.1 e.2)
    (g := fun twin o => o.twin.or twin) lookup_remember houts twins).1 k o ho

theorem lookup_rememberAll_of_notMem (twins : Memory) (hk : k ∉ outs.map Prod.fst) :
    (rememberAll twins outs).lookup k = twins.lookup k :=
  (GoMap.lookup_foldl (f := fun twins e => remember twins e.1 e.2)
    (g := fun twin o => o.twin.or twin) lookup_remember houts twins).2 k hk

end

theorem lookup_recordAll (houts : (outs.map Prod.fst).Nodup) {V : Type} (f : Dealt → Option V)
    (g : DealTwinResult → GoMap GoString V) (hnew : g {} = ∅)
    (hg : ∀ r key o k, (g (r.record key o)).lookup k = if k = key then f o else (g r).lookup k) :
    (∀ k o, (k, o) ∈ outs → (g (recordAll {} outs)).lookup k = f o) ∧
      ∀ k, k ∉ outs.map Prod.fst → (g (recordAll {} outs)).lookup k = none := by
  have h := GoMap.view_foldl (fun r k => (g r).lookup k)
    (f := fun r (e : GoString × Dealt) => r.record e.1 e.2) (g := fun _ o => f o) hg houts {}
  rwa [hnew] at h

/-- What a statement makes of the row of its key. -/
def Change.apply (row : Option Row) : Change → Option Row
  | .add row => some row
  | .update cols => row.map (·.update cols)

theorem lookup_execute (rows : Table) (key : GoString) (c : Change) (k : GoString) :
    (execute rows key c).lookup k = if k = key then c.apply (rows.lookup key)
    else rows.lookup k := by
  cases c with
  | add row => exact GoMap.lookup_insert ..
  | update cols =>
    unfold execute Change.apply
    cases hrow : rows.lookup key with
    | none =>
      split_ifs with hk
      · rw [hk, hrow]
        rfl
      · rfl
    | some row => exact GoMap.lookup_insert ..

theorem statements_record (r : DealTwinResult) (key : GoString) (o : Dealt) :
    (r.record key o).statements.Perm
      (r.statements ++ (o.change.toList.map fun c => (key, c))) := by
  unfold DealTwinResult.statements DealTwinResult.record
  match o.change with
  | none => simp
  | some (.add row) =>
    simp only [List.map_append, List.map_cons, List.map_nil, Option.toList_some, List.append_assoc]
    exact (List.perm_append_comm).append_left _
  | some (.update cols) =>
    simp only [List.map_append, List.map_cons, List.map_nil, Option.toList_some, List.append_assoc]
    exact List.Perm.refl _

theorem statements_recordAll (r : DealTwinResult) (outs : List (GoString × Dealt)) :
    (recordAll r outs).statements.Perm
      (r.statements ++ outs.flatMap fun (key, o) => o.change.toList.map fun c => (key, c)) := by
  induction outs generalizing r with
  | nil => simp [recordAll]
  | cons e outs ih =>
    obtain ⟨key, o⟩ := e
    have h := ih (r.record key o)
    rw [List.flatMap_cons, ← List.append_assoc]
    exact h.trans ((statements_record r key o).append_right _)

theorem mem_statements {c : Change} :
    (k, c) ∈ (recordAll {} outs).statements ↔ ∃ o, (k, o) ∈ outs ∧ o.change = some c := by
  rw [(statements_recordAll {} outs).mem_iff]
  simp [DealTwinResult.statements]

theorem statements_nodup (houts : (outs.map Prod.fst).Nodup) :
    ((recordAll {} outs).statements.map Prod.fst).Nodup := by
  rw [((statements_recordAll {} outs).map Prod.fst).nodup_iff]
  have hkeys : ∀ l : List (GoString × Dealt),
      ((l.flatMap fun (key, o) => o.change.toList.map fun c => (key, c)).map Prod.fst).Sublist
        (l.map Prod.fst) := by
    intro l
    induction l with
    | nil => simp
    | cons e l ih =>
      obtain ⟨key, o⟩ := e
      cases hchange : o.change with
      | none => simpa [hchange] using ih.cons key
      | some c => simpa [hchange] using ih
  exact (hkeys outs).nodup houts

/-- Rows after the first statements of a transaction: what they are, and which are changed. -/
theorem lookup_deviceTwinTrans (db : Database) (houts : (outs.map Prod.fst).Nodup) (rows : Table)
    (k : GoString) :
    (deviceTwinTrans db (recordAll {} outs) rows).lookup k = rows.lookup k ∨
      ∃ o c, (k, o) ∈ outs ∧ o.change = some c ∧
        (deviceTwinTrans db (recordAll {} outs) rows).lookup k = c.apply (rows.lookup k) := by
  have htake : (db.take (recordAll {} outs).statements).Sublist (recordAll {} outs).statements := by
    unfold Database.take
    cases db.executed with
    | all => exact List.Sublist.refl _
    | first n => exact List.take_sublist ..
  have hnodup : ((db.take (recordAll {} outs).statements).map Prod.fst).Nodup :=
    (htake.map Prod.fst).nodup (statements_nodup houts)
  obtain ⟨hin, hout⟩ := GoMap.lookup_foldl (f := fun rows e => execute rows e.1 e.2)
    lookup_execute hnodup rows
  by_cases hk : k ∈ (db.take (recordAll {} outs).statements).map Prod.fst
  · obtain ⟨⟨k', c⟩, hmem, rfl⟩ := List.mem_map.mp hk
    obtain ⟨o, ho, hchange⟩ := mem_statements.mp (htake.subset hmem)
    exact .inr ⟨o, c, ho, hchange, hin _ c hmem⟩
  · exact .inl (hout k hk)

def Dealt.row (o : Dealt) (row : Option Row) : Option Row :=
  match o.change with
  | none => row
  | some c => c.apply row

theorem lookup_committed (houts : (outs.map Prod.fst).Nodup) (hdb : db.executed = .all)
    (rows : Table) (ho : (k, o) ∈ outs) :
    (deviceTwinTrans db (recordAll {} outs) rows).lookup k = o.row (rows.lookup k) := by
  obtain ⟨hin, hout⟩ := GoMap.lookup_foldl (f := fun rows e => execute rows e.1 e.2)
    lookup_execute (statements_nodup houts) rows
  have htrans : deviceTwinTrans db (recordAll {} outs) rows =
      (recordAll {} outs).statements.foldl (fun rows e => execute rows e.1 e.2) rows := by
    unfold deviceTwinTrans Database.take
    rw [hdb]
  rw [htrans]
  unfold Dealt.row
  cases hchange : o.change with
  | some c => exact hin k c (mem_statements.mpr ⟨o, ho, hchange⟩)
  | none =>
    apply hout
    intro hk
    obtain ⟨⟨k', c⟩, hmem, rfl⟩ := List.mem_map.mp hk
    obtain ⟨o', ho', hchange'⟩ := mem_statements.mp hmem
    have hsame : o' = o := congrArg Prod.snd (List.inj_on_of_nodup_map houts ho' ho rfl)
    rw [hsame, hchange] at hchange'
    cases hchange'

theorem lookup_deviceTwinTrans_of_notMem (db : Database) (houts : (outs.map Prod.fst).Nodup)
    (rows : Table) (hk : k ∉ outs.map Prod.fst) :
    (deviceTwinTrans db (recordAll {} outs) rows).lookup k = rows.lookup k := by
  rcases lookup_deviceTwinTrans db houts rows k with hsame | ⟨o, c, ho, -, -⟩
  · exact hsame
  · exact absurd (List.mem_map.mpr ⟨(k, o), ho, rfl⟩) hk

theorem err_recordAll (r : DealTwinResult) (outs : List (GoString × Dealt)) :
    (recordAll r outs).err.isSome ↔ r.err.isSome ∨ ∃ k o, (k, o) ∈ outs ∧ o.err.isSome := by
  induction outs generalizing r with
  | nil => simp [recordAll]
  | cons e outs ih =>
    obtain ⟨key, o⟩ := e
    have hrecord : (r.record key o).err = o.err.or r.err := rfl
    rw [recordAll, List.foldl_cons, ← recordAll, ih, hrecord]
    simp only [Option.isSome_or, Bool.or_eq_true, List.mem_cons, Prod.mk.injEq]
    constructor
    · rintro ((herr | hr) | ⟨k, o', ho', herr⟩)
      · exact .inr ⟨key, o, .inl ⟨rfl, rfl⟩, herr⟩
      · exact .inl hr
      · exact .inr ⟨k, o', .inr ho', herr⟩
    · rintro (hr | ⟨k, o', ⟨rfl, rfl⟩ | ho', herr⟩)
      · exact .inl (.inr hr)
      · exact .inl (.inl herr)
      · exact .inr ⟨k, o', ho', herr⟩

/-- Memory and table before anything is read again. -/
def written (db : Database) (s : Device) (outs : List (GoString × Dealt)) : Device :=
  ⟨rememberAll s.twins outs, deviceTwinTrans db (recordAll {} outs) s.rows⟩

/-- An update from the edge that is not valid is given up. -/
def GivenUp (d : DealType) (outs : List (GoString × Dealt)) : Prop :=
  d = .rest ∧ ∃ k o, (k, o) ∈ outs ∧ o.err.isSome

/-- The database fails, and there was something to write. -/
def Fails (db : Database) (outs : List (GoString × Dealt)) : Prop :=
  db.ok = false ∧ ∃ k o c, (k, o) ∈ outs ∧ o.change = some c

theorem statements_eq_nil :
    (recordAll {} outs).statements = [] ↔ ∀ k o c, (k, o) ∈ outs → o.change ≠ some c := by
  rw [List.eq_nil_iff_forall_not_mem]
  constructor
  · intro h k o c ho hchange
    exact h (k, c) (mem_statements.mpr ⟨o, ho, hchange⟩)
  · rintro h ⟨k, c⟩ hc
    obtain ⟨o, ho, hchange⟩ := mem_statements.mp hc
    exact h k o c ho hchange

theorem deviceTwinTrans_nil (db : Database) (rows : Table)
    (hnil : (recordAll {} outs).statements = []) :
    deviceTwinTrans db (recordAll {} outs) rows = rows := by
  have htake : db.take (recordAll {} outs).statements = [] := by
    rw [hnil]
    cases hexec : db.executed <;> simp [Database.take, hexec]
  simp [deviceTwinTrans, htake]

theorem lookup_written (houts : (outs.map Prod.fst).Nodup)
    (hdb : db.executed = .all ∨ db.ok = false) (hfails : ¬ Fails db outs) (ho : (k, o) ∈ outs) :
    (written db s outs).rows.lookup k = o.row (s.rows.lookup k) := by
  rcases hdb with hall | hok
  · exact lookup_committed houts hall s.rows ho
  · have hnone : ∀ k o c, (k, o) ∈ outs → o.change ≠ some c :=
      fun k o c ho hchange => hfails ⟨hok, k, o, c, ho, hchange⟩
    have hrows : (written db s outs).rows = s.rows :=
      deviceTwinTrans_nil db s.rows (statements_eq_nil.mpr hnone)
    have hchange : o.change = none := Option.eq_none_iff_forall_ne_some.mpr (hnone k o · ho)
    rw [hrows, Dealt.row, hchange]

def publication (d : DealType) (s : Device) (outs : List (GoString × Dealt)) : Reply :=
  .published (if d = .rest then some (recordAll {} outs).result else none)
    (recordAll {} outs).document (delta (rememberAll s.twins outs)) (recordAll {} outs).syncResult

def settled (d : DealType) (db : Database) (s : Device) (outs : List (GoString × Dealt)) :
    Device × Reply :=
  if d = .rest ∧ (recordAll {} outs).err.isSome then
    (syncDeviceFromSqlite db { s with twins := rememberAll s.twins outs },
      .rejected 400 (recordAll {} outs).err)
  else if (recordAll {} outs).statements = [] ∨ db.ok = true then
    (written db s outs, publication d s outs)
  else
    (syncDeviceFromSqlite db (written db s outs),
      if d = .rest then .rejected 500 none else publication d s outs)

theorem dealDeviceTwin_eq (s : Device) (content : Update) (d : DealType) (db : Database) :
    dealDeviceTwin isFloat s (some content) d db =
      (outcomes isFloat d s.twins content.entries).map (settled d db s) := by
  have hentries : (content.entries.map Sigma.fst).Nodup := content.nodupKeys
  simp only [dealDeviceTwin, dealMsgTwin_eq hentries]
  cases outcomes isFloat d s.twins content.entries with
  | error e => rfl
  | ok outs =>
    simp only [ok_bind, Except.map, settled, written, publication]
    by_cases hnil : (recordAll {} outs).statements = []
    · rw [deviceTwinTrans_nil db s.rows hnil]
      split_ifs <;> simp_all
    · split_ifs <;> simp_all

theorem settled_cases (d : DealType) (db : Database) (s : Device) (outs : List (GoString × Dealt)) :
    (GivenUp d outs ∧ settled d db s outs =
        (syncDeviceFromSqlite db { s with twins := rememberAll s.twins outs },
          .rejected 400 (recordAll {} outs).err)) ∨
      (¬ GivenUp d outs ∧ ¬ Fails db outs ∧
        settled d db s outs = (written db s outs, publication d s outs)) ∨
      ¬ GivenUp d outs ∧ Fails db outs ∧ settled d db s outs =
        (syncDeviceFromSqlite db (written db s outs),
          if d = .rest then .rejected 500 none else publication d s outs) := by
  have hgiven : (d = .rest ∧ (recordAll {} outs).err.isSome) ↔ GivenUp d outs := by
    rw [err_recordAll]
    simp [GivenUp]
  have hfails : ¬ ((recordAll {} outs).statements = [] ∨ db.ok = true) ↔ Fails db outs := by
    rw [not_or, statements_eq_nil, Bool.not_eq_true, and_comm]
    simp [Fails]
  rw [← hgiven, ← hfails]
  by_cases hup : d = .rest ∧ (recordAll {} outs).err.isSome
  · exact .inl ⟨hup, if_pos hup⟩
  · rw [settled, if_neg hup]
    by_cases hdone : (recordAll {} outs).statements = [] ∨ db.ok = true
    · exact .inr (.inl ⟨hup, not_not.mpr hdone, if_pos hdone⟩)
    · exact .inr (.inr ⟨hup, hdone, if_neg hdone⟩)

theorem dealDeviceTwin_written (db : Database) (hd : d ≠ .rest) (hdb : db.ok = true)
    (houts : outcomes isFloat d s.twins content.entries = .ok outs) :
    ∃ reply, dealDeviceTwin isFloat s (some content) d db = .ok (written db s outs, reply) := by
  rw [dealDeviceTwin_eq, houts]
  refine ⟨publication d s outs, ?_⟩
  simp [Except.map, settled, hd, hdb]

theorem dealDeviceTwin_ok {r : Device × Reply}
    (h : dealDeviceTwin isFloat s (some content) d db = .ok r) :
    ∃ outs, outcomes isFloat d s.twins content.entries = .ok outs ∧ settled d db s outs = r := by
  rw [dealDeviceTwin_eq] at h
  cases houts : outcomes isFloat d s.twins content.entries with
  | error e =>
    rw [houts] at h
    cases h
  | ok outs =>
    rw [houts] at h
    exact ⟨outs, rfl, Except.ok.inj h⟩

theorem dealDeviceTwin_cases {s' : Device} {reply : Reply}
    (h : dealDeviceTwin isFloat s (some content) d db = .ok (s', reply)) :
    ∃ outs, outcomes isFloat d s.twins content.entries = .ok outs ∧
      (GivenUp d outs ∧ s' = syncDeviceFromSqlite db { s with twins := rememberAll s.twins outs } ∨
        ¬ GivenUp d outs ∧ ¬ Fails db outs ∧ s' = written db s outs ∨
        ¬ GivenUp d outs ∧ Fails db outs ∧ s' = syncDeviceFromSqlite db (written db s outs)) := by
  obtain ⟨outs, houts, hr⟩ := dealDeviceTwin_ok h
  refine ⟨outs, houts, ?_⟩
  rcases settled_cases d db s outs with ⟨hup, hend⟩ | ⟨hup, hfails, hend⟩ | ⟨hup, hfails, hend⟩ <;>
    cases hr.symm.trans hend
  · exact .inl ⟨hup, rfl⟩
  · exact .inr (.inl ⟨hup, hfails, rfl⟩)
  · exact .inr (.inr ⟨hup, hfails, rfl⟩)

end KubeEdge.DeviceTwin
