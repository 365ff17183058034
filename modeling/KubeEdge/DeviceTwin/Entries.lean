import KubeEdge.DeviceTwin.Deal

namespace KubeEdge.DeviceTwin
open Go

variable {isFloat : GoString → Bool} {d : DealType}

theorem Part.forall {P : Part → Prop} : (∀ p, P p) ↔ P .expected ∧ P .actual := by
  constructor
  · intro h
    exact ⟨h .expected, h .actual⟩
  · rintro ⟨hexpected, hactual⟩ p
    cases p <;> assumption

def Cols.side (c : Cols) : Part → Option (Option GoString × Version)
  | .expected => c.expected
  | .actual => c.actual

@[simp] theorem Twin.side_setSide (t : Twin) (s : Side) (p : Part) :
    (t.setSide s p).side p = s := by
  cases p <;> rfl

variable {p : Part} {side : Side} {t t' : Twin} {o : Dealt} {msg : MsgTwin} {c c' : Comparing}
  {cols : Option (Option GoString × Version)} {m : Option MsgTwin}

theorem Twin.side_setSide_of_ne (t : Twin) (s : Side) {q : Part} (h : q ≠ p) :
    (t.setSide s p).side q = t.side q := by
  cases p <;> cases q <;> first | rfl | exact absurd rfl h

@[simp] theorem Twin.optional_setSide (t : Twin) (s : Side) (p : Part) :
    (t.setSide s p).optional = t.optional := by
  cases p <;> rfl

@[simp] theorem Twin.type_setSide (t : Twin) (s : Side) (p : Part) :
    (t.setSide s p).type = t.type := by
  cases p <;> rfl

@[simp] theorem Twin.setSide_side (t : Twin) (p : Part) : t.setSide (t.side p) p = t := by
  cases p <;> rfl

@[simp] theorem Cols.side_setSide (c : Cols) (x : Option GoString × Version) (p : Part) :
    (c.setSide x p).side p = some x := by
  cases p <;> rfl

theorem Cols.side_setSide_of_ne (c : Cols) (x : Option GoString × Version) {q : Part} (h : q ≠ p) :
    (c.setSide x p).side q = c.side q := by
  cases p <;> cases q <;> first | rfl | exact absurd rfl h

/-- Whether `dealVersion` takes the version of the message; a side without a version counts as
the first one. -/
def accepts (side msg : Side) (d : DealType) : Bool :=
  (dealVersion (side.version.getD {}) (requested msg d) d).isOk

/-- Whether a message has a value for a side that passes the check, which is made only where
the side has a value already. -/
def offers (isFloat : GoString → Bool) (type : GoString) (side msg : Side) : Bool :=
  msg.value.any fun v =>
    side.value.isNone || v.value.any fun value => (validateValue isFloat type value).isOk

/-- Whether a message has a value that does not pass the check. -/
def badValue (isFloat : GoString → Bool) (type : GoString) (msg : Side) : Bool :=
  msg.value.any fun v => v.value.any fun value => !(validateValue isFloat type value).isOk

theorem accepts_rest (side msg : Side) : accepts side msg .rest = true := rfl

theorem dealVersion_sync {v w : Version} {req : Option Version}
    (h : dealVersion v req .sync = .ok w) : req = some w := by
  unfold dealVersion at h
  cases req with
  | none => cases h
  | some req =>
    simp only [reduceCtorEq, if_false] at h
    split_ifs at h
    cases h
    rfl

theorem isTwinValueDiff_cases {type : GoString} {msg : Side} {r : Result Bool}
    (h : isTwinValueDiff isFloat type side.value msg.value = .ok r) :
    (offers isFloat type side msg = true ∧ r = .ok true) ∨
      offers isFloat type side msg = false ∧
        (msg.value = none ∧ r = .ok false ∨
          side.value.isSome ∧ badValue isFloat type msg = true ∧ ∃ e, r = .error e) := by
  unfold offers badValue
  match hmsg : msg.value, hside : side.value with
  | none, _ =>
    rw [hmsg] at h
    cases h
    exact .inr ⟨rfl, .inl ⟨rfl, rfl⟩⟩
  | some v, none =>
    rw [hmsg, hside] at h
    cases h
    exact .inl ⟨rfl, rfl⟩
  | some ⟨none⟩, some old =>
    rw [hmsg, hside] at h
    cases h
  | some ⟨some value⟩, some old =>
    rw [hmsg, hside] at h
    simp only [isTwinValueDiff, deref_some, ok_bind] at h
    cases hvalid : validateValue isFloat type value with
    | error e =>
      rw [hvalid] at h
      cases h
      exact .inr ⟨by simp [hvalid],
        .inr ⟨rfl, by simp [hvalid], e, rfl⟩⟩
    | ok u =>
      rw [hvalid] at h
      cases h
      exact .inl ⟨by simp [hvalid], rfl⟩

theorem compareSide_cases {type : GoString} {msg : Side} {compared : Compared}
    (h : compareSide isFloat type side msg d = .ok compared) :
    (offers isFloat type side msg = false ∧
        (msg.value = none ∧ compared = .unchanged ∨
          side.value.isSome ∧ badValue isFloat type msg = true ∧ ∃ e, compared = .invalid e)) ∨
      offers isFloat type side msg = true ∧
        ((accepts side msg d = false ∧ ∃ e, compared = .refused (side.version.getD {}) e) ∨
          accepts side msg d = true ∧ ∃ v,
            dealVersion (side.version.getD {}) (requested msg d) d = .ok v ∧
            compared = .accepted (msg.value.bind TwinValue.value) v) := by
  obtain ⟨r, hr, h⟩ := ok_of_bind h
  rcases isTwinValueDiff_cases hr with ⟨hoffers, rfl⟩ | ⟨hoffers, ⟨hnone, rfl⟩ |
    ⟨hside, hbad, e, rfl⟩⟩
  · refine .inr ⟨hoffers, ?_⟩
    unfold accepts
    simp only at h
    cases hdeal : dealVersion (side.version.getD {}) (requested msg d) d with
    | error e =>
      rw [hdeal] at h
      cases h
      exact .inl ⟨rfl, e, rfl⟩
    | ok v =>
      rw [hdeal] at h
      cases h
      exact .inr ⟨rfl, v, rfl, rfl⟩
  · cases h
    exact .inl ⟨hoffers, .inl ⟨hnone, rfl⟩⟩
  · cases h
    exact .inl ⟨hoffers, .inr ⟨hside, hbad, e, rfl⟩⟩

theorem dealTwin_cases (h : dealTwin isFloat (some t) m d = .ok o) :
    (d = .rest ∧ m = none ∧ t.optional = false ∧ o = { twin := some t }) ∨
      (d = .rest ∧ m = none ∧ t.optional = true ∧ o = deleteTwin t {} d) ∨
      (d ≠ .rest ∧ ∃ msg, m = some msg ∧ msg.metadata = some (str "deleted") ∧
        o = deleteTwin t msg d) ∨
      ∃ msg, m = some msg ∧
        (d ≠ .rest → ∃ type, msg.metadata = some type ∧ type ≠ str "deleted") ∧
        dealTwinCompare isFloat t msg d = .ok o := by
  by_cases hd : d = .rest
  · subst hd
    cases m with
    | none =>
      simp only [dealTwin, dealTwinDelete, if_true, Option.isNone_none, true_and] at h
      cases hopt : t.optional with
      | false =>
        rw [hopt] at h
        cases h
        exact .inl ⟨rfl, rfl, rfl, rfl⟩
      | true =>
        rw [hopt] at h
        cases h
        exact .inr (.inl ⟨rfl, rfl, rfl, rfl⟩)
    | some msg =>
      exact .inr (.inr (.inr ⟨msg, rfl, fun hne => absurd rfl hne, h⟩))
  · simp only [dealTwin, if_neg hd] at h
    obtain ⟨msg, hm, h⟩ := ok_of_bind h
    obtain ⟨type, htype, h⟩ := ok_of_bind h
    cases m with
    | none => cases hm
    | some msg' =>
      cases hm
      cases hmeta : msg.metadata with
      | none =>
        rw [hmeta] at htype
        cases htype
      | some type' =>
        rw [hmeta] at htype
        cases htype
        by_cases hdel : type = str "deleted"
        · subst hdel
          simp only [if_true, dealTwinDelete, if_neg hd, deref, hmeta, ok_bind] at h
          cases h
          exact .inr (.inr (.inl ⟨hd, msg, rfl, hmeta, rfl⟩))
        · simp only [deref, hmeta, ok_bind, if_neg hdel] at h
          exact .inr (.inr (.inr ⟨msg, rfl, fun _ => ⟨type, hmeta, hdel⟩, h⟩))

theorem dealTwin_delete (h : msg.metadata = some (str "deleted")) :
    dealTwin isFloat (some t) (some msg) .sync = .ok (deleteTwin t msg .sync) := by
  simp [dealTwin, dealTwinDelete, h]

theorem dealTwin_compare (hmeta : msg.metadata.isSome = true)
    (h : msg.metadata ≠ some (str "deleted")) :
    dealTwin isFloat (some t) (some msg) .sync = dealTwinCompare isFloat t msg .sync := by
  obtain ⟨type, htype⟩ := Option.isSome_iff_exists.mp hmeta
  have hne : type ≠ str "deleted" := by
    rintro rfl
    exact h htype
  simp [dealTwin, htype, hne]

/-- Whether the message of an update from the cloud deletes the twin. -/
def MsgTwin.deletes (msg : MsgTwin) (d : DealType) : Bool :=
  d ≠ .rest && msg.metadata = some (str "deleted")

theorem deletes_eq_false (h : d ≠ .rest → ∃ type, msg.metadata = some type ∧ type ≠ str "deleted") :
    msg.deletes d = false := by
  unfold MsgTwin.deletes
  by_cases hd : d = .rest
  · simp [hd]
  · obtain ⟨type, htype, hne⟩ := h hd
    simp [htype, hne]

/-- The deal type under which `dealTwinDelete` compares versions. -/
def deleteType (d : DealType) : DealType := if d = .rest then d else .syncTwinDelete

def Twin.deletePart (t : Twin) (msg : MsgTwin) (d : DealType) (p : Part) :
    Result (Side × Option (Option GoString × Version)) :=
  deleteSide (t.side p) (msg.side p) (deleteType d)

theorem deletePart_error {e : GoString} (h : t.deletePart msg d p = .error e) :
    (t.side p).version.isSome = true ∧ accepts (t.side p) (msg.side p) (deleteType d) = false := by
  unfold Twin.deletePart deleteSide at h
  unfold accepts
  cases hversion : (t.side p).version with
  | none =>
    rw [hversion] at h
    cases h
  | some v =>
    rw [hversion] at h
    refine ⟨rfl, ?_⟩
    simp only at h
    rw [Option.getD_some]
    cases hdeal : dealVersion v (requested (msg.side p) (deleteType d)) (deleteType d) with
    | error e => rfl
    | ok w =>
      rw [hdeal] at h
      cases h

theorem deletePart_ok (h : t.deletePart msg d p = .ok (side, cols)) :
    (∃ v w, (t.side p).version = some v ∧
        accepts (t.side p) (msg.side p) (deleteType d) = true ∧
        dealVersion v (requested (msg.side p) (deleteType d)) (deleteType d) = .ok w ∧
        side = ⟨some {}, some w⟩ ∧ cols = some (none, w)) ∨
      (t.side p).version = none ∧ side = ⟨(t.side p).value, some {}⟩ ∧ cols = none := by
  unfold Twin.deletePart deleteSide at h
  unfold accepts
  cases hversion : (t.side p).version with
  | none =>
    rw [hversion] at h
    cases h
    exact .inr ⟨rfl, rfl, rfl⟩
  | some v =>
    rw [hversion] at h
    refine .inl ⟨v, ?_⟩
    simp only at h
    rw [Option.getD_some]
    cases hdeal : dealVersion v (requested (msg.side p) (deleteType d)) (deleteType d) with
    | error e =>
      rw [hdeal] at h
      cases h
    | ok w =>
      rw [hdeal] at h
      cases h
      exact ⟨w, rfl, rfl, rfl, rfl, rfl⟩

/-- Whether a deletion is accepted at a side. -/
def Twin.yields (t : Twin) (msg : MsgTwin) (d : DealType) (p : Part) : Bool :=
  accepts (t.side p) (msg.side p) (deleteType d)

def Twin.hasVersion (t : Twin) (p : Part) : Bool := (t.side p).version.isSome

theorem deletePart_cols (h : t.deletePart msg d p = .ok (side, cols)) :
    cols.isSome = t.hasVersion p ∧ (t.hasVersion p = true → t.yields msg d p = true) := by
  unfold Twin.hasVersion Twin.yields
  rcases deletePart_ok h with ⟨v, w, hversion, haccepts, -, -, rfl⟩ | ⟨hversion, -, rfl⟩
  · simp [hversion, haccepts]
  · simp [hversion]

/-- The twin is deleted already, it is refused at one of the sides, or both are gone through. -/
theorem deleteTwin_cases (t : Twin) (msg : MsgTwin) (d : DealType) :
    (t.deleted = true ∧ (deleteTwin t msg d).twin = some t ∧ (deleteTwin t msg d).change = none) ∨
    t.deleted = false ∧
    ((∃ e, t.deletePart msg d .expected = .error e ∧
        (deleteTwin t msg d).twin = some t ∧ (deleteTwin t msg d).change = none) ∨
      ∃ expected expectedCols, t.deletePart msg d .expected = .ok (expected, expectedCols) ∧
      ((∃ e, t.deletePart msg d .actual = .error e ∧
          (deleteTwin t msg d).twin = some { t with
            expected := expected, type := typeAfter t.type expectedCols } ∧
          (deleteTwin t msg d).change = none) ∨
        ∃ actual actualCols, t.deletePart msg d .actual = .ok (actual, actualCols) ∧
          (deleteTwin t msg d).twin = some { t with
            expected := expected, actual := actual,
            type := typeAfter (typeAfter t.type expectedCols) actualCols } ∧
          (deleteTwin t msg d).change = if expectedCols.isSome ∨ actualCols.isSome then
              some (.update { expected := expectedCols, actual := actualCols,
                              attrType := some (str "deleted") })
            else none)) := by
  unfold deleteTwin Twin.deletePart deleteType Twin.side MsgTwin.side
  cases hdeleted : t.deleted with
  | true => exact .inl ⟨rfl, rfl, rfl⟩
  | false =>
    refine .inr ⟨rfl, ?_⟩
    simp only [Bool.false_eq_true, if_false]
    cases deleteSide t.expected msg.expected (if d = .rest then d else .syncTwinDelete) with
    | error e => exact .inl ⟨e, rfl, rfl, rfl⟩
    | ok x =>
      obtain ⟨expected, expectedCols⟩ := x
      refine .inr ⟨expected, expectedCols, rfl, ?_⟩
      cases deleteSide t.actual msg.actual (if d = .rest then d else .syncTwinDelete) with
      | error e => exact .inl ⟨e, rfl, rfl, rfl⟩
      | ok x =>
        obtain ⟨actual, actualCols⟩ := x
        refine .inr ⟨actual, actualCols, rfl, ?_⟩
        simp only
        split_ifs <;> exact ⟨rfl, rfl⟩

theorem deleteTwin_continues (t : Twin) (msg : MsgTwin) (d : DealType) :
    (deleteTwin t msg d).err = none ∧ (deleteTwin t msg d).stop = false := by
  unfold deleteTwin
  dsimp only
  repeat' split
  all_goals exact ⟨rfl, rfl⟩

def Twin.takes (isFloat : GoString → Bool) (t : Twin) (msg : MsgTwin) (d : DealType)
    (p : Part) : Bool :=
  offers isFloat (valueType t msg) (t.side p) (msg.side p) && accepts (t.side p) (msg.side p) d

/-- A value for the side whose version is not accepted. -/
def Twin.refuses (isFloat : GoString → Bool) (t : Twin) (msg : MsgTwin) (d : DealType)
    (p : Part) : Bool :=
  offers isFloat (valueType t msg) (t.side p) (msg.side p) && !accepts (t.side p) (msg.side p) d

/-- A value for the side that is not valid. -/
def Twin.rejects (isFloat : GoString → Bool) (t : Twin) (msg : MsgTwin) (p : Part) : Bool :=
  (t.side p).value.isSome && badValue isFloat (valueType t msg) (msg.side p)

theorem Twin.refuses_rest (t : Twin) (msg : MsgTwin) (p : Part) :
    t.refuses isFloat msg .rest p = false := by
  simp [Twin.refuses, accepts_rest]

theorem comparePart_cases (h : comparePart isFloat msg d p c = .ok (.ok c')) :
    (c' = c ∧ (c.isSyncAllow = false ∨ c.twin.takes isFloat msg d p = false ∧
        c.twin.refuses isFloat msg d p = false ∧ (d = .rest → (msg.side p).value = none))) ∨
      (∃ old, c.isSyncAllow = true ∧ c.twin.refuses isFloat msg d p = true ∧
        (c.twin.side p).value = some old ∧
        c'.twin = c.twin.setSide ⟨some old, some ((c.twin.side p).version.getD {})⟩ p ∧
        c'.cols = c.cols ∧ c'.isChange = c.isChange ∧ c'.isSyncAllow = false) ∨
      ∃ value v, c.isSyncAllow = true ∧ c.twin.takes isFloat msg d p = true ∧
        (msg.side p).value = some ⟨value⟩ ∧
        dealVersion ((c.twin.side p).version.getD {}) (requested (msg.side p) d) d = .ok v ∧
        c'.twin = c.twin.setSide ⟨some ⟨value⟩, some v⟩ p ∧
        c'.cols = c.cols.setSide (value, v) p ∧ c'.isChange = true ∧ c'.isSyncAllow = true := by
  obtain ⟨compared, hcompared, h⟩ := ok_of_bind h
  rcases compareSide_cases hcompared with ⟨hoffers, ⟨hnone, rfl⟩ | ⟨-, -, e, rfl⟩⟩ |
    ⟨hoffers, ⟨haccepts, e, rfl⟩ | ⟨haccepts, v, hdeal, rfl⟩⟩
  · cases h
    exact .inl ⟨rfl, .inr ⟨by simp [Twin.takes, hoffers], by simp [Twin.refuses, hoffers],
      fun _ => hnone⟩⟩
  · simp only [Except.ok.injEq] at h
    split_ifs at h with hd
    cases h
    exact .inl ⟨rfl, .inr ⟨by simp [Twin.takes, hoffers], by simp [Twin.refuses, hoffers],
      fun hrest => absurd hrest hd⟩⟩
  · have hrefuses : c.twin.refuses isFloat msg d p = true := by
      simp [Twin.refuses, hoffers, haccepts]
    have hd : d ≠ .rest := by
      rintro rfl
      cases haccepts
    simp only [if_neg hd] at h
    split_ifs at h with hallow
    · obtain ⟨old, hold, h⟩ := ok_of_bind h
      cases h
      exact .inr (.inl ⟨old, hallow, hrefuses, deref_eq_ok.mp hold, rfl, rfl, rfl, rfl⟩)
    · cases h
      exact .inl ⟨rfl, .inl (Bool.not_eq_true _ ▸ hallow)⟩
  · have htakes : c.twin.takes isFloat msg d p = true := by
      simp [Twin.takes, hoffers, haccepts]
    obtain ⟨⟨value⟩, hvalue⟩ : ∃ v, (msg.side p).value = some v := by
      cases hmsg : (msg.side p).value with
      | none => simp [offers, hmsg] at hoffers
      | some v => exact ⟨v, rfl⟩
    rw [hvalue] at h
    simp only at h
    split_ifs at h with hallow
    · cases h
      exact .inr (.inr ⟨value, v, hallow, htakes, hvalue, hdeal, rfl, rfl, rfl, hallow⟩)
    · cases h
      exact .inr (.inr ⟨value, v, hallow, htakes, hvalue, hdeal, rfl, rfl, rfl, hallow⟩)
    · cases h
      exact .inl ⟨rfl, .inl (Bool.not_eq_true _ ▸ hallow)⟩

section

variable (c : Cols) (x : Option GoString × Version) (p : Part)

@[simp] theorem Cols.optional_setSide : (c.setSide x p).optional = c.optional := by
  cases p <;> rfl

@[simp] theorem Cols.attrType_setSide : (c.setSide x p).attrType = c.attrType := by
  cases p <;> rfl

end

/-- What comparing side `p` leaves alone. -/
structure Comparing.SameBut (c c' : Comparing) (p : Part) : Prop where
  type : c'.twin.type = c.twin.type
  optional : c'.twin.optional = c.twin.optional
  optionalCol : c'.cols.optional = c.cols.optional
  attrType : c'.cols.attrType = c.cols.attrType
  side : ∀ q, q ≠ p → c'.twin.side q = c.twin.side q
  cols : ∀ q, q ≠ p → c'.cols.side q = c.cols.side q

theorem comparePart_sameBut (h : comparePart isFloat msg d p c = .ok (.ok c')) :
    c.SameBut c' p := by
  rcases comparePart_cases h with ⟨rfl, -⟩ | ⟨old, -, -, -, htwin, hcols, -, -⟩ |
    ⟨value, v, -, -, -, -, htwin, hcols, -, -⟩
  · exact ⟨rfl, rfl, rfl, rfl, fun _ _ => rfl, fun _ _ => rfl⟩
  · refine ⟨?_, ?_, by rw [hcols], by rw [hcols], ?_, fun _ _ => by rw [hcols]⟩
    · rw [htwin, Twin.type_setSide]
    · rw [htwin, Twin.optional_setSide]
    · intro q hq
      rw [htwin, Twin.side_setSide_of_ne _ _ hq]
  · refine ⟨?_, ?_, ?_, ?_, ?_, ?_⟩
    · rw [htwin, Twin.type_setSide]
    · rw [htwin, Twin.optional_setSide]
    · rw [hcols, Cols.optional_setSide]
    · rw [hcols, Cols.attrType_setSide]
    · intro q hq
      rw [htwin, Twin.side_setSide_of_ne _ _ hq]
    · intro q hq
      rw [hcols, Cols.side_setSide_of_ne _ _ hq]

theorem valueType_congr (htype : t'.type = t.type) (msg : MsgTwin) :
    valueType t' msg = valueType t msg := by
  unfold valueType Twin.deleted
  rw [htype]

/-- Whether there is a refusal or a change is a matter of the side and the type. -/
theorem takes_congr (htype : t'.type = t.type) (hside : t'.side p = t.side p)
    (isFloat : GoString → Bool) (msg : MsgTwin) (d : DealType) :
    t'.takes isFloat msg d p = t.takes isFloat msg d p ∧
      t'.refuses isFloat msg d p = t.refuses isFloat msg d p ∧
      t'.rejects isFloat msg p = t.rejects isFloat msg p := by
  simp [Twin.takes, Twin.refuses, Twin.rejects, valueType_congr htype, hside, and_self]

section

variable (htype : c.twin.type = t.type) (hside : c.twin.side p = t.side p)
include htype hside

theorem comparePart_decides (h : comparePart isFloat msg d p c = .ok (.ok c')) :
    c'.isSyncAllow = (c.isSyncAllow && !t.refuses isFloat msg d p) ∧
      c'.isChange = (c.isChange || c.isSyncAllow && t.takes isFloat msg d p) := by
  obtain ⟨htakes, hrefuses, -⟩ := takes_congr htype hside isFloat msg d
  rw [← htakes, ← hrefuses]
  have hexcl : c.twin.takes isFloat msg d p = true → c.twin.refuses isFloat msg d p = false := by
    unfold Twin.takes Twin.refuses
    simp +contextual
  rcases comparePart_cases h with ⟨rfl, hallow | ⟨htakes, hrefuses, -⟩⟩ |
    ⟨old, hallow, hrefuses, -, -, -, hchange, hallow'⟩ |
    ⟨value, v, hallow, htakes, -, -, -, -, hchange, hallow'⟩
  · simp [hallow]
  · simp [htakes, hrefuses]
  · have htakes : c.twin.takes isFloat msg d p = false := by
      by_contra htakes
      rw [hexcl (by simpa using htakes)] at hrefuses
      cases hrefuses
    simp [hallow, hrefuses, htakes, hchange, hallow']
  · simp [hallow, hexcl htakes, htakes, hchange, hallow']

/-- A comparison that goes on has found no value from the edge that is not valid. -/
theorem comparePart_valid (hallow : c.isSyncAllow = true)
    (h : comparePart isFloat msg .rest p c = .ok (.ok c')) : t.rejects isFloat msg p = false := by
  rw [← (takes_congr htype hside isFloat msg .rest).2.2]
  rcases comparePart_cases h with ⟨rfl, hnot | ⟨-, -, hnone⟩⟩ | ⟨old, -, hrefuses, -⟩ |
    ⟨value, v, -, htakes, hvalue, -⟩
  · rw [hallow] at hnot
    cases hnot
  · simp [Twin.rejects, badValue, hnone rfl]
  · rw [Twin.refuses_rest] at hrefuses
    cases hrefuses
  · unfold Twin.takes offers at htakes
    unfold Twin.rejects badValue
    rw [hvalue] at htakes ⊢
    cases value with
    | none => simp
    | some value =>
      cases hold : (c.twin.side p).value with
      | none => simp
      | some old =>
        rw [hold] at htakes
        simp only [Option.any_some, Option.isNone_some, Bool.false_or, Bool.and_eq_true] at htakes
        simp [htakes.1]

end

theorem comparePart_error {e : GoString} (h : comparePart isFloat msg d p c = .ok (.error e)) :
    d = .rest ∧ c.twin.rejects isFloat msg p = true := by
  obtain ⟨compared, hcompared, h⟩ := ok_of_bind h
  rcases compareSide_cases hcompared with ⟨-, ⟨-, rfl⟩ | ⟨hside, hbad, e', rfl⟩⟩ |
    ⟨-, ⟨haccepts, e', rfl⟩ | ⟨-, v, -, rfl⟩⟩
  · cases h
  · simp only [Except.ok.injEq] at h
    split_ifs at h with hd
    exact ⟨hd, by simp [Twin.rejects, hside, hbad]⟩
  · have hd : d ≠ .rest := by
      rintro rfl
      cases haccepts
    simp only [if_neg hd] at h
    split_ifs at h
    · obtain ⟨old, -, h⟩ := ok_of_bind h
      cases h
    · cases h
  · simp only at h
    split_ifs at h <;> cases h

/-- The last part of the comparison, if it comes to it. -/
def compareRest (msg : MsgTwin) (c : Comparing) : Comparing :=
  if c.isSyncAllow then compareMetadata msg (compareOptional msg c) else c

/-- Either an update from the edge is not valid, or both parts are gone through. -/
theorem dealTwinCompare_cases (h : dealTwinCompare isFloat t msg d = .ok o) :
    (d = .rest ∧ ∃ c p e, (c = { twin := t } ∧ p = .expected ∨
        comparePart isFloat msg d .expected { twin := t } = .ok (.ok c) ∧ p = .actual) ∧
      c.twin.rejects isFloat msg p = true ∧
      o.twin = some c.twin ∧ o.change = none ∧ o.err = some e ∧ o.stop = true) ∨
    ∃ c₁ c₂ document, comparePart isFloat msg d .expected { twin := t } = .ok (.ok c₁) ∧
      comparePart isFloat msg d .actual c₁ = .ok (.ok c₂) ∧
      o = compareResult document d (compareRest msg c₂) := by
  obtain ⟨r₁, hr₁, h⟩ := ok_of_bind h
  cases r₁ with
  | error e =>
    cases h
    obtain ⟨hd, hrejects⟩ := comparePart_error hr₁
    exact .inl ⟨hd, _, _, e, .inl ⟨rfl, rfl⟩, hrejects, rfl, rfl, rfl, rfl⟩
  | ok c₁ =>
    obtain ⟨r₂, hr₂, h⟩ := ok_of_bind h
    cases r₂ with
    | error e =>
      cases h
      obtain ⟨hd, hrejects⟩ := comparePart_error hr₂
      exact .inl ⟨hd, c₁, _, e, .inr ⟨hr₁, rfl⟩, hrejects, rfl, rfl, rfl, rfl⟩
    | ok c₂ =>
      cases h
      exact .inr ⟨c₁, c₂, _, hr₁, hr₂, rfl⟩

theorem dealTwinCompare_parts (h : dealTwinCompare isFloat t msg d = .ok o)
    (herr : o.err = none ∨ d = .sync) :
    ∃ c₁ c₂ document, comparePart isFloat msg d .expected { twin := t } = .ok (.ok c₁) ∧
      comparePart isFloat msg d .actual c₁ = .ok (.ok c₂) ∧
      o = compareResult document d (compareRest msg c₂) := by
  rcases dealTwinCompare_cases h with ⟨rfl, c, p, e, -, -, -, -, hsome, -⟩ | hparts
  · simp [hsome] at herr
  · exact hparts

section

variable (document : TwinDoc) (d) (c)

@[simp] theorem twin_compareResult : (compareResult document d c).twin = some c.twin := by
  unfold compareResult
  cases c.isChange <;> rfl

@[simp] theorem change_compareResult :
    (compareResult document d c).change = if c.isChange then some (.update c.cols) else none := by
  unfold compareResult
  cases c.isChange <;> rfl

theorem compareResult_continues :
    (compareResult document d c).err = none ∧ (compareResult document d c).stop = false := by
  unfold compareResult
  cases c.isChange <;> exact ⟨rfl, rfl⟩

end

theorem compareSide_returns {type : GoString} {msg : Side} (hvalue : msg.value ≠ some ⟨none⟩) :
    ∃ compared, compareSide isFloat type side msg d = .ok compared := by
  have hdiff : ∃ r, isTwinValueDiff isFloat type side.value msg.value = .ok r := by
    unfold isTwinValueDiff
    match hmsg : msg.value, side.value with
    | none, _ => exact ⟨_, rfl⟩
    | some v, none => exact ⟨_, rfl⟩
    | some ⟨none⟩, some old => exact absurd hmsg hvalue
    | some ⟨some value⟩, some old =>
      simp only [deref_some, ok_bind]
      cases validateValue isFloat type value <;> exact ⟨_, rfl⟩
  obtain ⟨r, hr⟩ := hdiff
  unfold compareSide
  rw [hr]
  match r with
  | .error e => exact ⟨_, rfl⟩
  | .ok false => exact ⟨_, rfl⟩
  | .ok true =>
    simp only
    cases dealVersion (side.version.getD {}) (requested msg d) d <;> exact ⟨_, rfl⟩

theorem comparePart_returns (hvalue : (msg.side p).value ≠ some ⟨none⟩)
    (hold : c.isSyncAllow = true → c.twin.refuses isFloat msg .sync p = true →
      (c.twin.side p).value.isSome = true) :
    ∃ c', comparePart isFloat msg .sync p c = .ok (.ok c') := by
  obtain ⟨compared, hcompared⟩ : ∃ compared, compareSide isFloat (valueType c.twin msg)
      (c.twin.side p) (msg.side p) .sync = .ok compared := compareSide_returns hvalue
  unfold comparePart
  rw [hcompared]
  rcases compareSide_cases hcompared with ⟨-, ⟨-, rfl⟩ | ⟨-, -, e, rfl⟩⟩ |
    ⟨hoffers, ⟨haccepts, e, rfl⟩ | ⟨-, v, -, rfl⟩⟩
  · exact ⟨_, rfl⟩
  · exact ⟨_, rfl⟩
  · simp only [ok_bind, reduceCtorEq, if_false]
    split_ifs with hallow
    · have hsome := hold hallow (by simp [Twin.refuses, hoffers, haccepts])
      obtain ⟨old, hold⟩ := Option.isSome_iff_exists.mp hsome
      rw [hold]
      exact ⟨_, rfl⟩
    · exact ⟨_, rfl⟩
  · simp only [ok_bind]
    split_ifs <;> exact ⟨_, rfl⟩

theorem dealTwinCompare_of_parts {c₁ c₂ : Comparing}
    (h₁ : comparePart isFloat msg d .expected { twin := t } = .ok (.ok c₁))
    (h₂ : comparePart isFloat msg d .actual c₁ = .ok (.ok c₂)) :
    ∃ document, dealTwinCompare isFloat t msg d =
      .ok (compareResult document d (compareRest msg c₂)) := by
  unfold dealTwinCompare
  rw [h₁]
  simp only [ok_bind]
  rw [h₂]
  exact ⟨_, rfl⟩

/-- Whether the message makes the twin mandatory. -/
def Twin.fixes (t : Twin) (msg : MsgTwin) : Bool := t.optional && msg.optional == some false

/-- Whether the metadata of the message is other than that of the twin. -/
def Twin.retypes (t : Twin) (msg : MsgTwin) : Bool :=
  match msg.metadata with
  | some type => type ≠ t.type
  | none => t.deleted

theorem compareOptional_eq (msg : MsgTwin) (c : Comparing) :
    (compareOptional msg c).twin =
        { c.twin with optional := c.twin.optional && !c.twin.fixes msg } ∧
      (compareOptional msg c).cols = { c.cols with
        optional := if c.twin.fixes msg then some false else c.cols.optional } ∧
      (compareOptional msg c).isChange = (c.isChange || c.twin.fixes msg) ∧
      (compareOptional msg c).isSyncAllow = c.isSyncAllow := by
  obtain ⟨⟨expected, actual, optional, type⟩, cols, sync, isChange, isSyncAllow⟩ := c
  unfold compareOptional Twin.fixes
  match msg.optional with
  | none => simp
  | some true => cases optional <;> simp
  | some false => cases optional <;> simp

theorem compareMetadata_eq (msg : MsgTwin) (c : Comparing) :
    (compareMetadata msg c).twin = { c.twin with type := valueType c.twin msg } ∧
      (compareMetadata msg c).cols = { c.cols with
        attrType := if c.twin.deleted && c.twin.retypes msg then some (valueType c.twin msg)
          else c.cols.attrType } ∧
      (compareMetadata msg c).isChange = (c.isChange || c.twin.retypes msg) ∧
      (compareMetadata msg c).isSyncAllow = c.isSyncAllow := by
  unfold compareMetadata valueType Twin.retypes
  cases msg.metadata with
  | none => cases hdel : c.twin.deleted <;> simp
  | some type =>
    by_cases htype : type = c.twin.type
    · subst htype
      simp
    · cases hdel : c.twin.deleted <;> simp [htype]

theorem valueType_of_not_revived (h : (t.deleted && t.retypes msg) = false) :
    valueType t msg = t.type := by
  unfold valueType
  unfold Twin.retypes at h
  cases hdeleted : t.deleted with
  | false => rfl
  | true =>
    rw [hdeleted] at h
    cases hmeta : msg.metadata with
    | none => simp [hmeta] at h
    | some type =>
      rw [hmeta] at h
      simpa using h

theorem compareRest_eq (msg : MsgTwin) (c : Comparing) (hallow : c.isSyncAllow = true) :
    (compareRest msg c).twin = { c.twin with
        optional := c.twin.optional && !c.twin.fixes msg, type := valueType c.twin msg } ∧
      (compareRest msg c).cols = { c.cols with
        optional := if c.twin.fixes msg then some false else c.cols.optional
        attrType := if c.twin.deleted && c.twin.retypes msg then some (valueType c.twin msg)
          else c.cols.attrType } ∧
      (compareRest msg c).isChange = (c.isChange || c.twin.fixes msg || c.twin.retypes msg) := by
  obtain ⟨htwin, hcols, hchange, -⟩ := compareOptional_eq msg c
  obtain ⟨htwin', hcols', hchange', -⟩ := compareMetadata_eq msg (compareOptional msg c)
  unfold compareRest
  rw [if_pos hallow, htwin', hcols', hchange', htwin, hcols, hchange]
  exact ⟨rfl, rfl, rfl⟩

theorem isChange_compareRest (msg : MsgTwin) (c : Comparing) :
    (compareRest msg c).isChange =
      (c.isChange || c.isSyncAllow && (c.twin.fixes msg || c.twin.retypes msg)) := by
  cases hallow : c.isSyncAllow with
  | false => simp [compareRest, hallow]
  | true => rw [(compareRest_eq msg c hallow).2.2, Bool.true_and, Bool.or_assoc]

theorem fixes_congr (h : t'.optional = t.optional) : t'.fixes msg = t.fixes msg := by
  unfold Twin.fixes
  rw [h]

theorem retypes_congr (h : t'.type = t.type) : t'.retypes msg = t.retypes msg := by
  unfold Twin.retypes Twin.deleted
  rw [h]

theorem compareRest_side (msg : MsgTwin) (c : Comparing) (p : Part) :
    (compareRest msg c).twin.side p = c.twin.side p ∧
      (compareRest msg c).cols.side p = c.cols.side p := by
  cases hallow : c.isSyncAllow with
  | false => simp [compareRest, hallow]
  | true =>
    obtain ⟨htwin, hcols, -⟩ := compareRest_eq msg c hallow
    rw [htwin, hcols]
    cases p <;> exact ⟨rfl, rfl⟩

def MsgTwin.type (msg : MsgTwin) : GoString := msg.metadata.getD (str "string")

/-- The version that a side without a value gets. -/
def MsgTwin.keptVersion (msg : MsgTwin) (d : DealType) (p : Part) : Option Version :=
  if d ≠ .rest ∧ msg.metadata = some (str "deleted") then (msg.side p).version else none

/-- What adding one side of a message comes to. -/
def MsgTwin.addPart (isFloat : GoString → Bool) (msg : MsgTwin) (d : DealType) (p : Part) :
    M Added :=
  addSide isFloat msg.type (msg.keptVersion d p) (msg.side p) d

/-- A side that is added if the other one is: it has no value, or one that is accepted. -/
def MsgTwin.addable (isFloat : GoString → Bool) (msg : MsgTwin) (d : DealType) (p : Part) : Bool :=
  (msg.side p).value.isNone ||
    accepts {} (msg.side p) d && !badValue isFloat msg.type (msg.side p)

theorem addPart_cases {added : Added} (h : msg.addPart isFloat d p = .ok added) :
    ((msg.side p).value = none ∧ added = .column ⟨[], msg.keptVersion d p⟩) ∨
      (∃ value v, (msg.side p).value = some ⟨some value⟩ ∧
        dealVersion {} (requested (msg.side p) d) d = .ok v ∧
        msg.addable isFloat d p = true ∧ badValue isFloat msg.type (msg.side p) = false ∧
        added = .column ⟨value, some v⟩) ∨
      (msg.addable isFloat d p = false ∧ accepts {} (msg.side p) d = false ∧
        ∃ e, added = .refused e) ∨
      (msg.addable isFloat d p = false ∧ accepts {} (msg.side p) d = true ∧
        badValue isFloat msg.type (msg.side p) = true ∧ ∃ e, added = .invalid e) := by
  unfold MsgTwin.addPart addSide at h
  unfold MsgTwin.addable accepts badValue
  cases hmsg : (msg.side p).value with
  | none =>
    rw [hmsg] at h
    cases h
    exact .inl ⟨rfl, rfl⟩
  | some v =>
    refine .inr ?_
    rw [hmsg] at h
    simp only [Option.getD_none]
    cases hdeal : dealVersion {} (requested (msg.side p) d) d with
    | error e =>
      rw [hdeal] at h
      cases h
      exact .inr (.inl ⟨rfl, rfl, e, rfl⟩)
    | ok w =>
      rw [hdeal] at h
      obtain ⟨value, hvalue, hadded⟩ := ok_of_bind h
      obtain ⟨_ | value'⟩ := v
      · cases hvalue
      · cases hvalue
        cases hvalid : validateValue isFloat msg.type value with
        | error e =>
          rw [hvalid] at hadded
          cases hadded
          exact .inr (.inr ⟨by simp [hvalid], rfl,
            by simp [hvalid], e, rfl⟩)
        | ok u =>
          rw [hvalid] at hadded
          cases hadded
          exact .inl ⟨value, w, rfl, rfl, by simp [hvalid],
            by simp [hvalid], rfl⟩

theorem keepsVersions_eq {keeps : Bool} (h : keepsVersions msg d = .ok keeps) :
    (d ≠ .rest → msg.metadata.isSome) ∧
      keeps = decide (d ≠ .rest ∧ msg.metadata = some (str "deleted")) := by
  unfold keepsVersions at h
  by_cases hd : d = .rest
  · rw [if_pos hd] at h
    cases h
    simp [hd]
  · rw [if_neg hd] at h
    obtain ⟨type, htype, h⟩ := ok_of_bind h
    cases h
    cases hmeta : msg.metadata with
    | none =>
      rw [hmeta] at htype
      cases htype
    | some type' =>
      rw [hmeta] at htype
      cases htype
      simp [hd]

theorem addSide_eq_addPart {keeps : Bool} (h : keepsVersions msg d = .ok keeps) (p : Part) :
    addSide isFloat (msg.metadata.getD (str "string"))
      (if keeps = true then (msg.side p).version else none) (msg.side p) d =
        msg.addPart isFloat d p := by
  rw [(keepsVersions_eq h).2]
  simp only [decide_eq_true_eq]
  rfl

theorem dealTwinAdd_cases (h : dealTwin isFloat none m d = .ok o) :
    (m = none ∧ o = { twin := none, document := some {}, stop := true }) ∨
      ∃ msg, m = some msg ∧ (d ≠ .rest → msg.metadata.isSome) ∧
        ((∃ e left, o = addFailed d e left ∧
            ∃ p, msg.addPart isFloat d p = .ok (if left then .refused e else .invalid e) ∧
              (p = .actual → ∃ c, msg.addPart isFloat d .expected = .ok (.column c))) ∨
          ∃ expected actual, msg.addPart isFloat d .expected = .ok (.column expected) ∧
            msg.addPart isFloat d .actual = .ok (.column actual) ∧
            o = addRow ⟨expected, actual, msg.optional.getD true, msg.type⟩ d) := by
  cases m with
  | none =>
    cases h
    exact .inl ⟨rfl, rfl⟩
  | some msg =>
    refine .inr ⟨msg, rfl, ?_⟩
    obtain ⟨keeps, hkeeps, h⟩ := ok_of_bind h
    refine ⟨(keepsVersions_eq hkeeps).1, ?_⟩
    obtain ⟨expected, hexpected, h⟩ := ok_of_bind h
    replace hexpected := (addSide_eq_addPart hkeeps .expected).symm.trans hexpected
    cases expected with
    | refused e =>
      cases h
      exact .inl ⟨e, true, rfl, .expected, hexpected, by simp⟩
    | invalid e =>
      cases h
      exact .inl ⟨e, false, rfl, .expected, hexpected, by simp⟩
    | column expected =>
      obtain ⟨actual, hactual, h⟩ := ok_of_bind h
      replace hactual := (addSide_eq_addPart hkeeps .actual).symm.trans hactual
      cases actual with
      | refused e =>
        cases h
        exact .inl ⟨e, true, rfl, .actual, hactual, fun _ => ⟨_, hexpected⟩⟩
      | invalid e =>
        cases h
        exact .inl ⟨e, false, rfl, .actual, hactual, fun _ => ⟨_, hexpected⟩⟩
      | column actual =>
        cases h
        exact .inr ⟨expected, actual, hexpected, hactual, rfl⟩

end KubeEdge.DeviceTwin
