import KubeEdge.DeviceTwin.Entries
import KubeEdge.DeviceTwin.Outcomes

namespace KubeEdge.DeviceTwin
open Go

variable {isFloat : GoString → Bool} {d : DealType}

/-- The entries with a value that is not valid; an update from the edge ends there. -/
def invalid (isFloat : GoString → Bool) : Option Twin → Option MsgTwin → Bool
  | _, none => false
  | none, some msg =>
    badValue isFloat msg.type msg.expected || badValue isFloat msg.type msg.actual
  | some t, some msg => t.rejects isFloat msg .expected || t.rejects isFloat msg .actual

def stops (isFloat : GoString → Bool) (d : DealType) (t : Option Twin) (m : Option MsgTwin) :
    Bool :=
  -- the entries that end the loop
  t.isNone && m.isNone || d = .rest && invalid isFloat t m

/-- A deletion is written if it is accepted at every side that has a version. -/
def deleteWrites (t : Twin) (msg : MsgTwin) (d : DealType) : Bool :=
  !t.deleted && (t.hasVersion .expected || t.hasVersion .actual) &&
    (!t.hasVersion .expected || t.yields msg d .expected) &&
    (!t.hasVersion .actual || t.yields msg d .actual)

/-- A comparison is written if a value is taken, or the flag or the type are changed. -/
def compareWrites (isFloat : GoString → Bool) (t : Twin) (msg : MsgTwin) (d : DealType) : Bool :=
  t.takes isFloat msg d .expected || !t.refuses isFloat msg d .expected &&
    (t.takes isFloat msg d .actual || !t.refuses isFloat msg d .actual &&
      (t.fixes msg || t.retypes msg))

/-- The entries that lead to a statement. -/
def writes (isFloat : GoString → Bool) (d : DealType) : Option Twin → Option MsgTwin → Bool
  | none, none => false
  | none, some msg => msg.addable isFloat d .expected && msg.addable isFloat d .actual
  | some t, none => t.optional && deleteWrites t {} d
  | some t, some msg =>
    if msg.deletes d then deleteWrites t msg d else compareWrites isFloat t msg d

/-- How an entry ends. -/
structure Ends (isFloat : GoString → Bool) (d : DealType) (t : Option Twin) (m : Option MsgTwin)
    (o : Dealt) : Prop where
  err : o.err.isSome = (d = .rest && invalid isFloat t m)
  stop : o.stop = stops isFloat d t m
  change : o.err = none → o.change.isSome = writes isFloat d t m

theorem deleteTwin_change (t : Twin) (msg : MsgTwin) (d : DealType) :
    (deleteTwin t msg d).change.isSome = deleteWrites t msg d := by
  unfold deleteWrites
  rcases deleteTwin_cases t msg d with ⟨hdeleted, -, hchange⟩ | ⟨hdeleted,
    ⟨e, herror, -, hchange⟩ | ⟨expected, expectedCols, hexpected, ⟨e, herror, -, hchange⟩ |
      ⟨actual, actualCols, hactual, -, hchange⟩⟩⟩
  · simp [hdeleted, hchange]
  · obtain ⟨hversion, haccepts⟩ := deletePart_error herror
    simp [hchange, Twin.hasVersion, Twin.yields, hversion, haccepts]
  · obtain ⟨hversion, haccepts⟩ := deletePart_error herror
    simp [hchange, Twin.hasVersion, Twin.yields, hversion, haccepts]
  · obtain ⟨hcols, hyields⟩ := deletePart_cols hexpected
    obtain ⟨hcols', hyields'⟩ := deletePart_cols hactual
    cases hversion : t.hasVersion .expected <;> cases hversion' : t.hasVersion .actual <;>
      simp_all

variable {msg : MsgTwin} {m : Option MsgTwin} {o : Dealt} {twins : Memory}
  {entries : List (Sigma fun _ : GoString => Option MsgTwin)} {outs : List (GoString × Dealt)}
  {P : Option Twin → Option MsgTwin → Prop} {Q : GoString → Dealt → Prop}

theorem addPart_failed {e : GoString} {p : Part} (left : Bool)
    (h : msg.addPart isFloat d p = .ok (if left then .refused e else .invalid e)) :
    msg.addable isFloat d p = false ∧
      (d = .rest → badValue isFloat msg.type (msg.side p) = true) := by
  rcases addPart_cases h with ⟨-, hadded⟩ | ⟨_, _, -, -, -, -, hadded⟩ | ⟨hnot, haccepts, -⟩ |
    ⟨hnot, -, hbad, -⟩
  · cases left <;> cases hadded
  · cases left <;> cases hadded
  · refine ⟨hnot, ?_⟩
    rintro rfl
    cases haccepts
  · exact ⟨hnot, fun _ => hbad⟩

theorem addPart_column {c : Column} {p : Part} (h : msg.addPart isFloat d p = .ok (.column c)) :
    msg.addable isFloat d p = true ∧ badValue isFloat msg.type (msg.side p) = false := by
  rcases addPart_cases h with ⟨hnone, -⟩ | ⟨_, _, -, -, haddable, hbad, -⟩ | ⟨-, -, _, hadded⟩ |
    ⟨-, -, -, _, hadded⟩
  · simp [MsgTwin.addable, badValue, hnone]
  · exact ⟨haddable, hbad⟩
  · cases hadded
  · cases hadded

theorem dealTwinAdd_ends (h : dealTwin isFloat none m d = .ok o) : Ends isFloat d none m o := by
  rcases dealTwinAdd_cases h with ⟨rfl, rfl⟩ | ⟨msg, rfl, -, ⟨e, left, rfl, p, hfailed, -⟩ |
    ⟨expected, actual, hexpected, hactual, rfl⟩⟩
  · exact ⟨by simp [invalid], rfl, fun _ => rfl⟩
  · obtain ⟨hnot, hbad⟩ := addPart_failed left hfailed
    have hinvalid : d = .rest → invalid isFloat none (some msg) = true := by
      intro hd
      have hbad := hbad hd
      cases p with
      | expected => simp [invalid, show badValue isFloat msg.type msg.expected = true from hbad]
      | actual => simp [invalid, show badValue isFloat msg.type msg.actual = true from hbad]
    refine ⟨?_, ?_, ?_⟩
    · by_cases hd : d = .rest <;> simp [addFailed, hd, hinvalid]
    · by_cases hd : d = .rest <;> simp [addFailed, stops, hd, hinvalid]
    · intro _
      cases p with
      | expected | actual => simp [addFailed, writes, hnot]
  · obtain ⟨haddable, hgood⟩ := addPart_column hexpected
    obtain ⟨haddable', hgood'⟩ := addPart_column hactual
    have hvalid : invalid isFloat none (some msg) = false := by
      simp only [invalid, Bool.or_eq_false_iff]
      exact ⟨hgood, hgood'⟩
    refine ⟨?_, ?_, ?_⟩
    · simp [addRow, hvalid]
    · simp [addRow, stops, hvalid]
    · simp [addRow, writes, haddable, haddable']

theorem dealTwinCompare_ends {t : Twin} (h : dealTwinCompare isFloat t msg d = .ok o) :
    o.err.isSome = (d = .rest && invalid isFloat (some t) (some msg)) ∧
      o.stop = (d = .rest && invalid isFloat (some t) (some msg)) ∧
      (o.err = none → o.change.isSome = compareWrites isFloat t msg d) := by
  rcases dealTwinCompare_cases h with ⟨rfl, c, p, e, hc, hrejects, -, -, herr, hstop⟩ |
    ⟨c₁, c₂, document, hc₁, hc₂, rfl⟩
  · have hinvalid : invalid isFloat (some t) (some msg) = true := by
      simp only [invalid, Bool.or_eq_true]
      rcases hc with ⟨rfl, rfl⟩ | ⟨hc, rfl⟩
      · exact .inl hrejects
      · have hsame := comparePart_sameBut hc
        rw [(takes_congr hsame.type (hsame.side .actual (by decide)) isFloat msg .rest).2.2]
          at hrejects
        exact .inr hrejects
    simp [herr, hstop, hinvalid]
  · have hsame := comparePart_sameBut hc₁
    have hside : c₁.twin.side .actual = t.side .actual := hsame.side .actual (by decide)
    obtain ⟨hallow₁, hchange₁⟩ := comparePart_decides rfl rfl hc₁
    obtain ⟨hallow₂, hchange₂⟩ := comparePart_decides hsame.type hside hc₂
    have hvalid : (decide (d = .rest) && invalid isFloat (some t) (some msg)) = false := by
      by_cases hd : d = .rest
      · subst hd
        rw [Twin.refuses_rest] at hallow₁
        simp [invalid, comparePart_valid rfl rfl rfl hc₁,
          comparePart_valid hsame.type hside hallow₁ hc₂, Bool.or_self, Bool.and_false]
      · simp [hd]
    obtain ⟨herr, hstop⟩ := compareResult_continues d (compareRest msg c₂) document
    refine ⟨by rw [herr, hvalid]; rfl, by rw [hstop, hvalid], fun _ => ?_⟩
    have hsome : (compareResult document d (compareRest msg c₂)).change.isSome =
        (compareRest msg c₂).isChange := by
      rw [change_compareResult]
      cases (compareRest msg c₂).isChange <;> rfl
    rw [hsome, isChange_compareRest, hallow₂, hchange₂, hallow₁, hchange₁,
      fixes_congr ((comparePart_sameBut hc₂).optional.trans hsame.optional),
      retypes_congr ((comparePart_sameBut hc₂).type.trans hsame.type), compareWrites]
    cases t.takes isFloat msg d .expected <;> cases t.refuses isFloat msg d .expected <;>
      cases t.takes isFloat msg d .actual <;> cases t.refuses isFloat msg d .actual <;> simp

theorem dealTwin_ends {t : Option Twin} (h : dealTwin isFloat t m d = .ok o) :
    Ends isFloat d t m o := by
  cases t with
  | none => exact dealTwinAdd_ends h
  | some t =>
    rcases dealTwin_cases h with ⟨hd, rfl, hoptional, rfl⟩ | ⟨hd, rfl, hoptional, rfl⟩ |
      ⟨hd, msg, rfl, hmeta, rfl⟩ | ⟨msg, rfl, hmeta, hcompare⟩
    · exact ⟨by simp [invalid], by simp [stops, invalid], by simp [writes, hoptional]⟩
    · obtain ⟨herr, hstop⟩ := deleteTwin_continues t {} d
      exact ⟨by simp [invalid, herr], by simp [stops, invalid, hstop],
        by simp [writes, hoptional, deleteTwin_change]⟩
    · obtain ⟨herr, hstop⟩ := deleteTwin_continues t msg d
      exact ⟨by simp [hd, herr], by simp [stops, hd, hstop],
        by simp [writes, MsgTwin.deletes, hd, hmeta, deleteTwin_change]⟩
    · obtain ⟨herr, hstop, hchange⟩ := dealTwinCompare_ends hcompare
      refine ⟨herr, by simp [stops, hstop], ?_⟩
      intro hnone
      rw [hchange hnone, writes, deletes_eq_false hmeta]
      simp

/-- The entries up to the first one that ends the loop. -/
def reached (isFloat : GoString → Bool) (d : DealType) (twins : Memory) :
    List (Sigma fun _ : GoString => Option MsgTwin) →
      List (Sigma fun _ : GoString => Option MsgTwin)
  | [] => []
  | e :: rest =>
    if stops isFloat d (twins.lookup e.1) e.2 then [e] else e :: reached isFloat d twins rest

section

variable (h : outcomes isFloat d twins entries = .ok outs)
include h

theorem outcomes_reached :
    List.Forall₂ (fun e out => e.1 = out.1 ∧ dealTwin isFloat (twins.lookup e.1) e.2 d = .ok out.2)
      (reached isFloat d twins entries) outs := by
  induction entries generalizing outs with
  | nil =>
    cases h
    exact List.Forall₂.nil
  | cons e entries ih =>
    obtain ⟨o, ho, h⟩ := ok_of_bind h
    unfold reached
    rw [← (dealTwin_ends ho).stop]
    cases hstop : o.stop with
    | true =>
      rw [hstop] at h
      cases h
      exact List.Forall₂.cons ⟨rfl, ho⟩ List.Forall₂.nil
    | false =>
      rw [hstop] at h
      obtain ⟨rest, hrest, h⟩ := ok_of_bind h
      cases h
      exact List.Forall₂.cons ⟨rfl, ho⟩ (ih hrest)

theorem exists_outcome (hstops : ∀ e ∈ entries, stops isFloat d (twins.lookup e.1) e.2 = false)
    {k : GoString} (hm : ⟨k, m⟩ ∈ entries) :
    ∃ o, (k, o) ∈ outs ∧ dealTwin isFloat (twins.lookup k) m d = .ok o := by
  have hall : reached isFloat d twins entries = entries := by
    clear h hm
    induction entries with
    | nil => rfl
    | cons e entries ih =>
      rw [reached, hstops e (.head _)]
      simp only [Bool.false_eq_true, if_false]
      rw [ih fun e he => hstops e (.tail _ he)]
  have hreached := outcomes_reached h
  rw [hall] at hreached
  obtain ⟨⟨k', o⟩, ho, rfl, hdeal⟩ := exists_of_forall₂ hreached hm
  exact ⟨o, ho, hdeal⟩

section

variable
  (hPQ : ∀ k m o, (k, o) ∈ outs → dealTwin isFloat (twins.lookup k) m d = .ok o →
    (P (twins.lookup k) m ↔ Q k o))
include hPQ

theorem forall_reached :
    (∀ e ∈ reached isFloat d twins entries, P (twins.lookup e.1) e.2) ↔
      ∀ k o, (k, o) ∈ outs → Q k o := by
  have hreached := outcomes_reached h
  constructor
  · intro hall k o ho
    obtain ⟨⟨k', m⟩, hm, rfl, hdeal⟩ := exists_of_forall₂ hreached.flip ho
    exact (hPQ _ m o ho hdeal).mp (hall _ hm)
  · rintro hall ⟨k, m⟩ hm
    obtain ⟨⟨k', o⟩, ho, rfl, hdeal⟩ := exists_of_forall₂ hreached hm
    exact (hPQ _ m o ho hdeal).mpr (hall _ o ho)

theorem exists_reached :
    (∃ e ∈ reached isFloat d twins entries, P (twins.lookup e.1) e.2) ↔
      ∃ k o, (k, o) ∈ outs ∧ Q k o := by
  have hnot := forall_reached h (P := fun t m => ¬ P t m)
    fun k m o ho hdeal => not_congr (hPQ k m o ho hdeal)
  have hboth := not_congr hnot
  push Not at hboth
  exact hboth

end

theorem givenUp_iff :
    GivenUp d outs ↔ d = .rest ∧ ∃ e ∈ reached isFloat d twins entries,
      invalid isFloat (twins.lookup e.1) e.2 = true := by
  refine and_congr_right fun hd => (exists_reached h
    (P := fun t m => invalid isFloat t m = true) ?_).symm
  intro k m o _ hdeal
  rw [(dealTwin_ends hdeal).err]
  simp [hd]

theorem err_eq_none (hup : ¬ GivenUp d outs) {k : GoString} (ho : (k, o) ∈ outs) :
    o.err = none := by
  by_contra herr
  have hsome : o.err.isSome = true := Option.isSome_iff_ne_none.mpr herr
  obtain ⟨m, -, hdeal⟩ := exists_of_mem_outcomes h ho
  have hd := (dealTwin_ends hdeal).err
  rw [hsome] at hd
  simp only [Bool.true_eq, Bool.and_eq_true, decide_eq_true_eq] at hd
  exact hup ⟨hd.1, k, o, ho, hsome⟩

theorem changes_iff (hup : ¬ GivenUp d outs) :
    (∃ e ∈ reached isFloat d twins entries, writes isFloat d (twins.lookup e.1) e.2 = true) ↔
      ∃ k o, (k, o) ∈ outs ∧ o.change.isSome = true := by
  apply exists_reached h (P := fun t m => writes isFloat d t m = true)

  intro k m o ho hdeal
  rw [(dealTwin_ends hdeal).change (err_eq_none h hup ho)]

end

/-- What a call leaves, key by key. -/
structure Leaves (isFloat : GoString → Bool) (s s' : Device) (content : Update) : Prop where
  changed : ∀ k m, content.lookup k = some m →
    ∃ o, dealTwin isFloat (s.twins.lookup k) m .sync = .ok o ∧
      s'.twins.lookup k = o.twin.or (s.twins.lookup k) ∧
      s'.rows.lookup k = o.row (s.rows.lookup k)
  unchanged : ∀ k, content.lookup k = none →
    s'.twins.lookup k = s.twins.lookup k ∧ s'.rows.lookup k = s.rows.lookup k

theorem written_leaves {s : Device} {content : Update}
    (hcontent : ∀ k m, content.lookup k = some m → m.isSome = true)
    (houts : outcomes isFloat .sync s.twins content.entries = .ok outs) :
    Leaves isFloat s (written .committed s outs) content := by
  have hnodup := outcomes_nodup content.nodupKeys houts
  have hfails : ¬ Fails .committed outs := fun h => Bool.noConfusion h.1
  constructor
  · intro k m hm
    obtain ⟨o, ho, hdeal⟩ := exists_outcome houts (by
      rintro ⟨k, m⟩ he
      have hsome := hcontent k m (AList.mem_lookup_iff.mpr he)
      obtain ⟨msg, rfl⟩ := Option.isSome_iff_exists.mp hsome
      simp [stops]) (AList.mem_lookup_iff.mp hm)
    exact ⟨o, hdeal, lookup_rememberAll hnodup s.twins ho,
      lookup_written hnodup (.inl rfl) hfails ho⟩
  · intro k hk
    have hnot : k ∉ outs.map Prod.fst := by
      intro hmem
      have hkey := (outcomes_keys_le houts).subset hmem
      exact AList.lookup_eq_none.mp hk hkey
    exact ⟨lookup_rememberAll_of_notMem hnodup s.twins hnot,
      lookup_deviceTwinTrans_of_notMem .committed hnodup s.rows hnot⟩

end KubeEdge.DeviceTwin
