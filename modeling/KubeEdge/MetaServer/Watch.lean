import KubeEdge.MetaServer.Keys

namespace KubeEdge.MetaServer
open Go

variable {β : Type} {hasBeenAdded : Bool}

/-- An object; `resourceVersion` is the version as it is parsed. -/
structure Object (β : Type) where
  objectMeta : Meta
  resourceVersion : UInt64
  value : β
  deriving DecidableEq, Repr

def Object.key (o : Object β) : Result GoString := keyFuncObj o.objectMeta

inductive EventType
  | added
  | modified
  | deleted
  deriving DecidableEq, Repr

structure WatchEvent (β : Type) where
  type : EventType
  object : Object β
  deriving DecidableEq, Repr

/-- `storage.SelectionPredicate`. -/
structure Predicate (β : Type) where
  empty : Bool
  selects : Object β → Result Bool

def Predicate.filter (p : Predicate β) (o : Object β) : Bool :=
  if p.empty then true
  else
    match p.selects o with
    | .ok matched => matched
    | .error _ => false

/-- The predicate selects the object: it is empty, or it matches without an error. -/
def Predicate.Matches (p : Predicate β) (o : Object β) : Prop :=
  p.empty = true ∨ p.selects o = .ok true

instance (p : Predicate β) (o : Object β) : Decidable (p.Matches o) :=
  inferInstanceAs (Decidable (_ ∨ _))

theorem filter_iff (p : Predicate β) (o : Object β) : p.filter o = true ↔ p.Matches o := by
  unfold Predicate.filter Predicate.Matches
  cases p.empty with
  | true => simp
  | false => cases p.selects o <;> simp

/-- What `processEvent` keeps, and the events that it has sent. -/
structure Stream (β : Type) where
  added : GoMap GoString Bool := ∅
  results : List (WatchEvent β) := []

/-- The event that is sent for an incoming one. -/
def outgoing (hasBeenAdded matched : Bool) (e : WatchEvent β) : Option (WatchEvent β) :=
  match hasBeenAdded, matched with
  | true, false => some ⟨.deleted, e.object⟩
  | true, true => some e
  | false, false => none
  | false, true => if e.type = .modified then some ⟨.added, e.object⟩ else some e

/-- A round of `processEvent`. -/
def Stream.processEvent (p : Predicate β) (s : Stream β) (e : WatchEvent β) : Stream β :=
  match e.object.key with
  | .error _ => s
  | .ok key =>
    match outgoing ((s.added.lookup key).getD false) (p.filter e.object) e with
    | none => s
    | some res =>
      { results := s.results ++ [res]
        added := s.added.insert key (res.type ≠ .deleted) }

def Stream.process (p : Predicate β) (es : List (WatchEvent β)) : Stream β :=
  es.foldl (Stream.processEvent p) {}

/-- An event that the client gets: added and modified set, deleted removes. -/
def receive (view : GoMap GoString (Object β)) (e : WatchEvent β) : GoMap GoString (Object β) :=
  match e.object.key with
  | .error _ => view
  | .ok key => if e.type = .deleted then view.erase key else view.insert key e.object

def replay (es : List (WatchEvent β)) : GoMap GoString (Object β) := es.foldl receive ∅

/-- The object that an event leaves under its key, for a watch with this predicate. -/
def Predicate.selected (p : Predicate β) (e : WatchEvent β) : Option (Object β) :=
  if e.type ≠ .deleted ∧ p.Matches e.object then some e.object else none

def Predicate.lastSelected (p : Predicate β) (es : List (WatchEvent β)) (key : GoString) :
    Option (Object β) :=
  -- the last event of the key decides
  (es.reverse.find? fun e => e.object.key = .ok key).bind p.selected

/-- What an event does to what is selected under a key. -/
def Predicate.follow (p : Predicate β) (key : GoString) (view : Option (Object β))
    (e : WatchEvent β) : Option (Object β) :=
  if e.object.key = .ok key then p.selected e else view

theorem Predicate.lastSelected_eq (p : Predicate β) (es : List (WatchEvent β)) (key : GoString) :
    p.lastSelected es key = es.foldl (p.follow key) none := by
  induction es using List.reverseRecOn with
  | nil => rfl
  | append_singleton es e ih =>
    rw [List.foldl_concat, ← ih]
    unfold Predicate.lastSelected Predicate.follow
    by_cases hkey : e.object.key = .ok key
    · simp [hkey]
    · simp [hkey]

/-- A key is remembered as added when the client has it. -/
def Stream.Remembers (s : Stream β) : Prop :=
  ∀ key, (s.added.lookup key).getD false = ((replay s.results).lookup key).isSome

theorem replay_snoc (es : List (WatchEvent β)) (e : WatchEvent β) :
    replay (es ++ [e]) = receive (replay es) e := by
  simp [replay]

theorem lookup_receive {e : WatchEvent β} {key : GoString} (hkey : e.object.key = .ok key)
    (view : GoMap GoString (Object β)) (k : GoString) :
    (receive view e).lookup k =
      if k = key then (if e.type = .deleted then none else some e.object) else view.lookup k := by
  unfold receive
  rw [hkey]
  split_ifs with hdeleted hk hk
  · rw [GoMap.lookup_erase, if_pos hk]
  · rw [GoMap.lookup_erase, if_neg hk]
  · rw [GoMap.lookup_insert, if_pos hk]
  · rw [GoMap.lookup_insert, if_neg hk]

/-- An event that is sent carries the object of the incoming one, and sets it exactly where the
incoming event is selected. -/
theorem outgoing_spec {p : Predicate β} {e res : WatchEvent β}
    (h : outgoing hasBeenAdded (p.filter e.object) e = some res) :
    res.object = e.object ∧
      (if res.type = .deleted then none else some res.object) = p.selected e := by
  simp only [Predicate.selected, ← filter_iff]
  cases hadded : hasBeenAdded with
  | true =>
    cases hmatched : p.filter e.object with
    | true =>
      rw [hadded, hmatched] at h
      cases h
      refine ⟨rfl, ?_⟩
      by_cases hdeleted : e.type = .deleted
      · simp [hdeleted]
      · simp [hdeleted]
    | false =>
      rw [hadded, hmatched] at h
      cases h
      exact ⟨rfl, by simp⟩
  | false =>
    cases hmatched : p.filter e.object with
    | true =>
      rw [hadded, hmatched] at h
      simp only [outgoing] at h
      split_ifs at h with hmodified
      · cases h
        exact ⟨rfl, by simp [hmodified]⟩
      · cases h
        refine ⟨rfl, ?_⟩
        by_cases hdeleted : e.type = .deleted
        · simp [hdeleted]
        · simp [hdeleted]
    | false =>
      rw [hadded, hmatched] at h
      cases h

theorem outgoing_none {matched : Bool} {e : WatchEvent β}
    (h : outgoing hasBeenAdded matched e = none) : hasBeenAdded = false ∧ matched = false := by
  match hasBeenAdded, matched with
  | true, false => cases h
  | true, true => cases h
  | false, false => exact ⟨rfl, rfl⟩
  | false, true =>
    simp only [outgoing] at h
    split_ifs at h

theorem processEvent_view (p : Predicate β) {s : Stream β} (hs : s.Remembers) (e : WatchEvent β) :
    (s.processEvent p e).Remembers ∧ ∀ key, (replay (s.processEvent p e).results).lookup key =
      p.follow key ((replay s.results).lookup key) e := by
  unfold Stream.processEvent Predicate.follow
  cases hkey : e.object.key with
  | error msg => exact ⟨hs, fun key => by simp⟩
  | ok key =>
    dsimp only
    cases hout : outgoing ((s.added.lookup key).getD false) (p.filter e.object) e with
    | none =>
      obtain ⟨hadded, hmatched⟩ := outgoing_none hout
      rw [hs key, Option.isSome_eq_false_iff, Option.isNone_iff_eq_none] at hadded
      refine ⟨hs, ?_⟩
      intro k
      by_cases hk : key = k
      · subst hk
        have hselected : p.selected e = none := by simp [Predicate.selected, ← filter_iff, hmatched]
        rw [hadded, if_pos rfl, hselected]
      · rw [if_neg (fun h => hk (Except.ok.inj h))]
    | some res =>
      obtain ⟨hobject, hselected⟩ := outgoing_spec hout
      have hres : res.object.key = .ok key := by rw [hobject, hkey]
      constructor
      · intro k
        rw [GoMap.lookup_insert, replay_snoc, lookup_receive hres]
        split_ifs with hk hdeleted
        · simp [hdeleted]
        · simp [hdeleted]
        · exact hs k
      · intro k
        rw [replay_snoc, lookup_receive hres, hselected]
        by_cases hk : k = key
        · rw [if_pos hk, if_pos (by rw [hk])]
        · rw [if_neg hk, if_neg (fun h => hk (Except.ok.inj h).symm)]

theorem remembers_start : ({} : Stream β).Remembers := fun _ => rfl

/-- After any events, replaying what was sent gives the last object of each key whose last
event did not delete it and matches the predicate. -/
theorem stream_is_view (p : Predicate β) (es : List (WatchEvent β)) (key : GoString) :
    (replay (Stream.process p es).results).lookup key = p.lastSelected es key := by
  have hview : (Stream.process p es).Remembers ∧ ∀ key,
      (replay (Stream.process p es).results).lookup key = es.foldl (p.follow key) none := by
    unfold Stream.process
    induction es using List.reverseRecOn with
    | nil => exact ⟨remembers_start, fun _ => rfl⟩
    | append_singleton es e ih =>
      obtain ⟨hremembers, hlookup⟩ := ih
      obtain ⟨hremembers', hlookup'⟩ := processEvent_view p hremembers e
      rw [List.foldl_concat]
      refine ⟨hremembers', fun key => ?_⟩
      rw [hlookup' key, hlookup key, List.foldl_concat]
  rw [hview.2 key, p.lastSelected_eq]

end KubeEdge.MetaServer
