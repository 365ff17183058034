import KubeEdge.DeviceTwin.Agreement
import KubeEdge.DeviceTwin.Versions

namespace KubeEdge.DeviceTwin.Crashes
open Go Machine Versions

variable {isFloat : GoString → Bool} {d : DealType} {msg : MsgTwin} {t : Twin} {p : Part}

/-- Adding a side follows the pointer to its value once the version is accepted. -/
def addFollows (msg : MsgTwin) (d : DealType) (p : Part) : Bool :=
  (msg.side p).value ≠ some ⟨none⟩ || !accepts {} (msg.side p) d

/-- Comparing a side follows the pointer to the value of the message where the twin has a value
too; the refusal of a value follows the pointer to that of the twin. -/
def compareFollows (isFloat : GoString → Bool) (t : Twin) (msg : MsgTwin) (d : DealType)
    (isSyncAllow : Bool) (p : Part) : Bool :=
  if (t.side p).value.isSome then (msg.side p).value ≠ some ⟨none⟩
  else !(isSyncAllow && t.refuses isFloat msg d p)

/-- Updates from the cloud have to say the type, and cannot be `null` for a twin that there is. -/
def follows (isFloat : GoString → Bool) (d : DealType) : Option Twin → Option MsgTwin → Bool
  | none, none => true
  | some _, none => d = .rest
  | none, some msg => (d = .rest || msg.metadata.isSome) && addFollows msg d .expected &&
    (!msg.addable isFloat d .expected || addFollows msg d .actual)
  | some t, some msg => (d = .rest || msg.metadata.isSome) && (msg.deletes d ||
    compareFollows isFloat t msg d true .expected &&
      (d = .rest && t.rejects isFloat msg .expected ||
        compareFollows isFloat t msg d (!t.refuses isFloat msg d .expected) .actual))

theorem addPart_isOk (isFloat : GoString → Bool) :
    (msg.addPart isFloat d p).isOk = addFollows msg d p := by
  unfold MsgTwin.addPart addSide addFollows accepts
  cases (msg.side p).value with
  | none => rfl
  | some v =>
    obtain ⟨_ | value⟩ := v
    · cases hdeal : dealVersion {} (requested (msg.side p) d) d <;>
        simp [hdeal]
    · cases dealVersion {} (requested (msg.side p) d) d with
      | error e => rfl
      | ok w => cases hvalid : validateValue isFloat msg.type value <;>
          simp [hvalid]

theorem comparePart_isOk (c : Comparing) : (comparePart isFloat msg d p c).isOk =
    compareFollows isFloat c.twin msg d c.isSyncAllow p := by
  unfold comparePart compareSide compareFollows Twin.refuses offers accepts
  cases hmsg : (msg.side p).value with
  | none => cases (c.twin.side p).value <;> simp [isTwinValueDiff]
  | some v =>
    cases hside : (c.twin.side p).value with
    | none =>
      -- the first value of a side is not checked, but it can be refused
      simp only [isTwinValueDiff, ok_bind]
      by_cases hd : d = .rest
      · cases c.isSyncAllow <;> simp [hd, dealVersion]
      · cases dealVersion ((c.twin.side p).version.getD {}) (requested (msg.side p) d) d <;>
          cases c.isSyncAllow <;> simp [hd]
    | some old =>
      obtain ⟨_ | value⟩ := v
      · simp [isTwinValueDiff]
      · simp only [isTwinValueDiff, deref_some, ok_bind]
        cases validateValue isFloat (valueType c.twin msg) value with
        | error e => simp
        | ok u =>
          cases dealVersion ((c.twin.side p).version.getD {}) (requested (msg.side p) d) d <;>
            cases c.isSyncAllow <;> simp
          split_ifs <;> rfl

theorem dealTwinCompare_isOk : (dealTwinCompare isFloat t msg d).isOk =
    (compareFollows isFloat t msg d true .expected &&
      (d = .rest && t.rejects isFloat msg .expected ||
        compareFollows isFloat t msg d (!t.refuses isFloat msg d .expected) .actual)) := by
  have hexpected : (comparePart isFloat msg d .expected { twin := t }).isOk =
      compareFollows isFloat t msg d true .expected := comparePart_isOk _
  unfold dealTwinCompare
  cases h₁ : comparePart isFloat msg d .expected { twin := t } with
  | error e =>
    rw [h₁] at hexpected
    rw [← hexpected]
    rfl
  | ok r₁ =>
    rw [h₁] at hexpected
    rw [← hexpected]
    cases r₁ with
    | error e =>
      obtain ⟨hd, hrejects⟩ := comparePart_error h₁
      simp [hd, show t.rejects isFloat msg .expected = true from hrejects]
    | ok c₁ =>
      have hvalid : (decide (d = .rest) && t.rejects isFloat msg .expected) = false := by
        by_cases hd : d = .rest
        · subst hd
          rw [comparePart_valid rfl rfl rfl h₁, Bool.and_false]
        · simp [hd]
      -- the other side is as it was
      have hsame := comparePart_sameBut h₁
      have hside : c₁.twin.side .actual = t.side .actual := hsame.side .actual (by decide)
      have hactual : (comparePart isFloat msg d .actual c₁).isOk =
          compareFollows isFloat t msg d (!t.refuses isFloat msg d .expected) .actual := by
        rw [comparePart_isOk, (comparePart_decides rfl rfl h₁).1, compareFollows,
          (takes_congr hsame.type hside isFloat msg d).2.1, hside]
        rfl
      rw [hvalid, ← hactual]
      cases h₂ : comparePart isFloat msg d .actual c₁ with
      | error e => simp only [ok_bind, h₂]; rfl
      | ok r₂ => cases r₂ <;> simp only [ok_bind, h₂] <;> rfl

theorem dealTwinAdd_isOk : (dealTwin isFloat none (some msg) d).isOk =
    ((d = .rest || msg.metadata.isSome) && addFollows msg d .expected &&
      (!msg.addable isFloat d .expected || addFollows msg d .actual)) := by
  rw [← addPart_isOk isFloat, ← addPart_isOk isFloat]
  simp only [dealTwin, dealTwinAdd]
  cases hkeeps : keepsVersions msg d with
  | error e =>
    unfold keepsVersions at hkeeps
    split_ifs at hkeeps with hd
    cases hmeta : msg.metadata with
    | none => simp [hd]
    | some type =>
      rw [hmeta] at hkeeps
      cases hkeeps
  | ok keeps =>
    have hmeta : (decide (d = .rest) || msg.metadata.isSome) = true := by
      simpa [or_iff_not_imp_left] using (keepsVersions_eq hkeeps).1
    have hexpected : addSide isFloat (msg.metadata.getD (str "string"))
        (if keeps = true then msg.expected.version else none) msg.expected d =
          msg.addPart isFloat d .expected := addSide_eq_addPart hkeeps .expected
    have hactual : addSide isFloat (msg.metadata.getD (str "string"))
        (if keeps = true then msg.actual.version else none) msg.actual d =
          msg.addPart isFloat d .actual := addSide_eq_addPart hkeeps .actual
    simp only [ok_bind, hexpected, hactual, hmeta, Bool.true_and]
    cases h₁ : msg.addPart isFloat d .expected with
    | error e => rfl
    | ok added =>
      cases added with
      | refused e => simp [(addPart_failed true h₁).1]
      | invalid e => simp [(addPart_failed false h₁).1]
      | column c =>
        rw [(addPart_column h₁).1]
        cases msg.addPart isFloat d .actual with
        | error e => rfl
        | ok added => cases added <;> rfl

theorem dealTwin_isOk (isFloat : GoString → Bool) (d : DealType) (t : Option Twin)
    (m : Option MsgTwin) :
    (dealTwin isFloat t m d).isOk = follows isFloat d t m := by
  cases t with
  | none =>
    cases m with
    | none => rfl
    | some msg => exact dealTwinAdd_isOk
  | some t =>
    by_cases hd : d = .rest
    · cases m with
      | none =>
        simp only [dealTwin, dealTwinDelete, follows, hd, if_true]
        split_ifs <;> rfl
      | some msg =>
        subst hd
        simp only [dealTwin, follows, if_true, MsgTwin.deletes, dealTwinCompare_isOk]
        rfl
    · simp only [dealTwin, if_neg hd]
      cases m with
      | none => simp [follows, hd]
      | some msg =>
        cases hmeta : msg.metadata with
        | none => simp [follows, hd, hmeta]
        | some type =>
          simp only [deref_some, ok_bind, hmeta, follows, MsgTwin.deletes, Option.some_inj]
          by_cases hdel : type = str "deleted"
          · simp [hdel, hd, dealTwinDelete, hmeta]
          · rw [if_neg hdel, dealTwinCompare_isOk]
            simp [hd, hdel]

theorem outcomes_isOk (twins : Memory) (entries : List (Sigma fun _ : GoString => Option MsgTwin)) :
    (outcomes isFloat d twins entries).isOk =
      (reached isFloat d twins entries).all fun e => follows isFloat d (twins.lookup e.1) e.2 := by
  induction entries with
  | nil => rfl
  | cons e entries ih =>
    obtain ⟨key, m⟩ := e
    have hentry := dealTwin_isOk isFloat d (twins.lookup key) m
    simp only [outcomes, reached]
    cases ho : dealTwin isFloat (twins.lookup key) m d with
    | error e =>
      rw [ho] at hentry
      split_ifs <;> simp [← hentry]
    | ok o =>
      rw [ho] at hentry
      rw [ok_bind, ← (dealTwin_ends ho).stop]
      split_ifs
      · simp [← hentry]
      · rw [List.all_cons, ← hentry, ← ih]
        cases outcomes isFloat d twins entries <;> rfl

/-- The entries of a call that are reached lead over no nil pointer. -/
def safe (isFloat : GoString → Bool) (s : Device) : Event → Bool
  | .call msgTwin d _ => (reached isFloat d s.twins (entriesOf msgTwin)).all fun e =>
      follows isFloat d (s.twins.lookup e.1) e.2
  | .reload _ => true

def Completes (isFloat : GoString → Bool) (s : Device) : Event → Prop
  | .call msgTwin d db => ∃ r, dealDeviceTwin isFloat s msgTwin d db = .ok r
  | .reload _ => True

theorem completes_iff_safe (s : Device) (e : Event) :
    Completes isFloat s e ↔ safe isFloat s e = true := by
  cases e with
  | reload db => simp [Completes, safe]
  | call msgTwin d db =>
    simp only [Completes, safe]
    cases msgTwin with
    | none => exact iff_of_true ⟨_, rfl⟩ rfl
    | some content =>
      change _ ↔ (reached isFloat d s.twins content.entries).all _ = true
      rw [← outcomes_isOk]
      simp only [dealDeviceTwin, dealMsgTwin_eq content.nodupKeys]
      cases outcomes isFloat d s.twins content.entries with
      | error e =>
        refine iff_of_false ?_ Bool.false_ne_true
        rintro ⟨_, h⟩
        cases h
      | ok outs =>
        refine iff_of_true ?_ rfl
        simp only [ok_bind]
        split_ifs <;> exact ⟨_, rfl⟩

/-- In every run of updates and reloads, all calls complete exactly if none of them reaches an
entry that leads over a nil pointer. -/
theorem no_crash_iff_safe (rows : Table) (es : List Event) :
    Along (step isFloat) (Completes isFloat) (start rows) es ↔
      Along (step isFloat) (fun s e => safe isFloat s e = true) (start rows) es :=
  along_congr (I := fun _ => True) (fun _ _ _ _ _ _ => trivial)
    (fun s e _ _ _ => completes_iff_safe s e) trivial

/-- A twin update from the cloud that does not say the type. -/
def untyped : Update :=
  AList.singleton (str "temperature") (some { expected := ⟨some ⟨some (str "20")⟩, some ⟨1, 0⟩⟩ })

/-- The update is accepted, and ends the process. -/
theorem untyped_crashes : unmarshalDeviceTwinUpdate (some untyped) = .ok untyped ∧
    ¬ Along (step fun _ => false) (Completes fun _ => false) (start ∅)
      [.call (some untyped) .sync .committed] := by
  refine ⟨rfl, ?_⟩
  intro h
  obtain ⟨r, hr⟩ := (h _ rfl).1
  cases hr

end KubeEdge.DeviceTwin.Crashes
