import KubeEdge.CloudHub.Queue
import KubeEdge.Envoy.Edge

namespace KubeEdge.CloudHub.ListLoop
open Go Machine Workqueue

/-- `IsNodeStopped`: the node itself was deleted. -/
def isNodeStopped (m : Message) : Bool :=
  m.getResourceType = str "node" && m.operation = str "delete"

/-- `trimMessage` works on the stored message. -/
def trimMessage (m : Message) : Message := { m with resource := Envoy.trimPath m.resource }

/-- What a write loop is doing with a key. -/
inductive Job
  /-- `Get` has returned. -/
  | got
  /-- The message was found and trimmed. -/
  | loaded (x : Stored)
  /-- The node has a connection. -/
  | connected (x : Stored)
  /-- `send` has returned, with an error or without. -/
  | sent (x : Stored)
  /-- Before `Forget` and `Done`. -/
  | finished
  /-- The loop went on, or returned, without `Done`. -/
  | abandoned
  deriving DecidableEq, Repr

structure ListQueue where
  nodeListStore : GoMap GoString Stored := ∅
  nodeListQueue : Workqueue GoString Job := {}
  shutDown : Bool := false
  /-- Whether `nodeConns` has a connection of the node. -/
  nodeConn : Bool := false
  /-- Whether `nodeLocks` has the lock of the node. -/
  nodeLock : Bool := false
  /-- The key that the dispatcher is about to add. -/
  adding : Option GoString := none
  /-- The next address. -/
  next : ℕ := 0
  /-- The messages that were put into the store, as they came. -/
  added : List Stored := []
  /-- The addresses of the messages that were written to a connection. -/
  written : List ℕ := []

namespace ListQueue

/-- `addListMessageToQueue` up to the store; the key of a message is its identifier. -/
def store (s : ListQueue) (m : Message) : ListQueue :=
  { s with
    nodeListStore := s.nodeListStore.insert m.id ⟨m.id, s.next, m⟩
    adding := some m.id
    next := s.next + 1
    added := ⟨m.id, s.next, m⟩ :: s.added }

/-- The rest of the call; a queue that was shut down takes no keys. -/
def enqueue (s : ListQueue) (key : GoString) : ListQueue :=
  { s with
    nodeListQueue := if s.shutDown then s.nodeListQueue else s.nodeListQueue.add key
    adding := none }

def setJob (s : ListQueue) (key : GoString) (j : Job) : ListQueue :=
  { s with nodeListQueue := s.nodeListQueue.setWorker key j }

/-- The loop trims the message in the store and goes on with it. -/
def trim (s : ListQueue) (key : GoString) (x : Stored) : ListQueue :=
  let x' := { x with msg := trimMessage x.msg }
  { s with nodeListStore := s.nodeListStore.insert key x' }.setJob key (.loaded x')

/-- `hubIoWrite` needs the lock of the node; `ok` is the outcome of `WriteData`. -/
def hubIoWrite (s : ListQueue) (ok : Bool) : Bool := s.nodeLock && ok

/-- An error of `send` is only logged. -/
def send (s : ListQueue) (key : GoString) (x : Stored) (ok : Bool) : ListQueue :=
  { s with
    written := if s.hubIoWrite ok then x.address :: s.written else s.written }.setJob key (.sent x)

def delete (s : ListQueue) (key : GoString) (x : Stored) : ListQueue :=
  { s with nodeListStore := s.nodeListStore.erase x.key }.setJob key .finished

end ListQueue

inductive Event
  | store (m : Message)
  | enqueue
  /-- The node's connection appears or disappears. -/
  | nodeConn (present : Bool)
  | nodeLock (present : Bool)
  | get
  | load (key : GoString)
  | connect (key : GoString)
  | send (key : GoString) (ok : Bool)
  | delete (key : GoString)
  | done (key : GoString)

/-- A turn, where it can be taken. -/
def step (s : ListQueue) : Event → Option ListQueue
  | .store m => if s.adding.isSome then none else some (s.store m)
  | .enqueue => s.adding.map s.enqueue
  | .nodeConn present => some { s with nodeConn := present }
  | .nodeLock present => some { s with nodeLock := present }
  | .get => (s.nodeListQueue.get Job.got).map fun (_, q) => { s with nodeListQueue := q }
  | .load key =>
    match s.nodeListQueue.worker key with
    | some .got =>
      match s.nodeListStore.lookup key with
      | none => some (s.setJob key .abandoned)
      | some x =>
        if isNodeStopped x.msg then some ({ s with shutDown := true }.setJob key .abandoned)
        else if x.msg.isToEdge then some (s.trim key x)
        else some (s.setJob key .abandoned)
    | _ => none
  | .connect key =>
    match s.nodeListQueue.worker key with
    | some (.loaded x) => some (s.setJob key (if s.nodeConn then .connected x else .abandoned))
    | _ => none
  | .send key ok =>
    match s.nodeListQueue.worker key with
    | some (.connected x) => some (s.send key x ok)
    | _ => none
  | .delete key =>
    match s.nodeListQueue.worker key with
    | some (.sent x) => some (s.delete key x)
    | _ => none
  | .done key =>
    match s.nodeListQueue.worker key with
    | some .finished => some { s with nodeListQueue := s.nodeListQueue.done key }
    | _ => none

/-- What the turns do, one case for each outcome. -/
inductive Turn (s : ListQueue) : Event → ListQueue → Prop
  | store {m : Message} (hidle : s.adding = none) : Turn s (.store m) (s.store m)
  | enqueue {key : GoString} (hadding : s.adding = some key) : Turn s .enqueue (s.enqueue key)
  | nodeConn {present : Bool} : Turn s (.nodeConn present) { s with nodeConn := present }
  | nodeLock {present : Bool} : Turn s (.nodeLock present) { s with nodeLock := present }
  | get {key : GoString} {q : Workqueue GoString Job}
      (hget : s.nodeListQueue.get Job.got = some (key, q)) :
      Turn s .get { s with nodeListQueue := q }
  | loadGone {key : GoString} (hjob : s.nodeListQueue.worker key = some .got)
      (hx : s.nodeListStore.lookup key = none) : Turn s (.load key) (s.setJob key .abandoned)
  | loadStop {key : GoString} {x : Stored} (hjob : s.nodeListQueue.worker key = some .got)
      (hx : s.nodeListStore.lookup key = some x) (hstop : isNodeStopped x.msg = true) :
      Turn s (.load key) ({ s with shutDown := true }.setJob key .abandoned)
  | loadSkip {key : GoString} {x : Stored} (hjob : s.nodeListQueue.worker key = some .got)
      (hx : s.nodeListStore.lookup key = some x) (hstop : isNodeStopped x.msg = false)
      (hedge : x.msg.isToEdge = false) : Turn s (.load key) (s.setJob key .abandoned)
  | load {key : GoString} {x : Stored} (hjob : s.nodeListQueue.worker key = some .got)
      (hx : s.nodeListStore.lookup key = some x) (hstop : isNodeStopped x.msg = false)
      (hedge : x.msg.isToEdge = true) : Turn s (.load key) (s.trim key x)
  | connect {key : GoString} {x : Stored} (hjob : s.nodeListQueue.worker key = some (.loaded x))
      (hconn : s.nodeConn = true) : Turn s (.connect key) (s.setJob key (.connected x))
  | connectFails {key : GoString} {x : Stored}
      (hjob : s.nodeListQueue.worker key = some (.loaded x)) (hconn : s.nodeConn = false) :
      Turn s (.connect key) (s.setJob key .abandoned)
  | send {key : GoString} {x : Stored} {ok : Bool}
      (hjob : s.nodeListQueue.worker key = some (.connected x)) :
      Turn s (.send key ok) (s.send key x ok)
  | delete {key : GoString} {x : Stored} (hjob : s.nodeListQueue.worker key = some (.sent x)) :
      Turn s (.delete key) (s.delete key x)
  | done {key : GoString} (hjob : s.nodeListQueue.worker key = some .finished) :
      Turn s (.done key) { s with nodeListQueue := s.nodeListQueue.done key }

theorem turn_of_step {s s' : ListQueue} {e : Event} (h : step s e = some s') : Turn s e s' := by
  cases e with
  | store m =>
    simp only [step] at h
    split at h
    · cases h
    · rename_i hidle
      cases h
      exact .store (Option.not_isSome_iff_eq_none.mp hidle)
  | enqueue =>
    obtain ⟨key, hadding, rfl⟩ := Option.map_eq_some_iff.mp h
    exact .enqueue hadding
  | nodeConn present =>
    cases h
    exact .nodeConn
  | nodeLock present =>
    cases h
    exact .nodeLock
  | get =>
    obtain ⟨⟨key, q⟩, hget, rfl⟩ := Option.map_eq_some_iff.mp h
    exact .get hget
  | load key =>
    simp only [step] at h
    split at h
    · rename_i hjob
      split at h
      · rename_i hx
        cases h
        exact .loadGone hjob hx
      · rename_i x hx
        cases hstop : isNodeStopped x.msg with
        | true =>
          rw [hstop, if_pos rfl] at h
          cases h
          exact .loadStop hjob hx hstop
        | false =>
          cases hedge : x.msg.isToEdge with
          | true =>
            simp only [hstop, hedge, if_true, Bool.false_eq_true, if_false] at h
            cases h
            exact .load hjob hx hstop hedge
          | false =>
            simp only [hstop, hedge, Bool.false_eq_true, if_false] at h
            cases h
            exact .loadSkip hjob hx hstop hedge
    · cases h
  | connect key =>
    simp only [step] at h
    split at h
    · rename_i x hjob
      cases h
      cases hconn : s.nodeConn with
      | true => exact .connect hjob hconn
      | false => exact .connectFails hjob hconn
    · cases h
  | send key ok =>
    simp only [step] at h
    split at h
    · rename_i x hjob
      cases h
      exact .send hjob
    · cases h
  | delete key =>
    simp only [step] at h
    split at h
    · rename_i x hjob
      cases h
      exact .delete hjob
    · cases h
  | done key =>
    simp only [step] at h
    split at h
    · rename_i hjob
      cases h
      exact .done hjob
    · cases h

/-- Before the attempt to write. -/
def Job.unsent : Job → Bool
  | .got | .loaded _ | .connected _ => true
  | _ => false

def Job.holds : Job → Option Stored
  | .loaded x | .connected x | .sent x => some x
  | _ => none

/-- The store still has the message, trimmed or not. -/
def InStore (s : ListQueue) (x : Stored) : Prop :=
  ∃ y, s.nodeListStore.lookup x.key = some y ∧ y.address = x.address

/-- The key is in the queue, or gets into it: the dispatcher is about to add it, a write loop
has it and has not tried to write yet, or it was added while a loop that calls `Done` has it. -/
def InQueue (s : ListQueue) (k : GoString) : Prop :=
  k ∈ s.nodeListQueue.queue ∨ s.adding = some k ∨
    ∃ j, s.nodeListQueue.worker k = some j ∧
      (j.unsent = true ∨ (k ∈ s.nodeListQueue.dirty ∧ j ≠ .abandoned))

structure DeliveredOrKept (s : ListQueue) : Prop where
  kept : ∀ x ∈ s.added, x.msg.isToEdge = true →
    x.address ∈ s.written ∨ (InStore s x ∧ InQueue s x.key)
  removed : ∀ x ∈ s.added, ¬ InStore s x → x.address ∈ s.written

/-- A message has a new identifier, it is not the one that stops the node, and when it is to
be sent, the node has a connection, its lock is there and the write succeeds. -/
def Undisturbed (s : ListQueue) : Event → Prop
  | .store m => s.nodeListStore.lookup m.id = none
  | .load key => ∀ x, s.nodeListStore.lookup key = some x → isNodeStopped x.msg = false
  | .connect _ => s.nodeConn = true
  | .send _ ok => s.nodeLock = true ∧ ok = true
  | _ => True

instance (s : ListQueue) (e : Event) : Decidable (Undisturbed s e) :=
  match e with
  | .store m => inferInstanceAs (Decidable (s.nodeListStore.lookup m.id = none))
  | .load key => decidable_of_iff
      ((s.nodeListStore.lookup key).all (fun x => isNodeStopped x.msg = false) = true)
      (by simp [Undisturbed, Option.all_eq_true])
  | .connect _ => inferInstanceAs (Decidable (s.nodeConn = true))
  | .send _ ok => inferInstanceAs (Decidable (s.nodeLock = true ∧ ok = true))
  | .enqueue | .nodeConn _ | .nodeLock _ | .get | .delete _ | .done _ => isTrue trivial

structure Tidy (s : ListQueue) : Prop where
  running : s.shutDown = false
  next_added : ∀ x ∈ s.added, x.address < s.next
  unique : ∀ x ∈ s.added, ∀ x' ∈ s.added, x.address = x'.address → x = x'
  keyed : ∀ k x, s.nodeListStore.lookup k = some x → x.key = k
  accounted : ∀ x ∈ s.added, x.address ∈ s.written ∨ InStore s x
  /-- What was not looked at yet is in the store as it came. -/
  waiting : ∀ k, k ∈ s.nodeListQueue.dirty ∨ s.adding = some k ∨
    s.nodeListQueue.worker k = some .got → ∃ x ∈ s.added, s.nodeListStore.lookup k = some x
  adding_once : ∀ k, s.adding = some k → k ∉ s.nodeListQueue.dirty
  /-- Nobody adds a key as long as its message is in the store. -/
  busy : ∀ k j, s.nodeListQueue.worker k = some j → j ≠ .finished →
    k ∉ s.nodeListQueue.dirty ∧ s.adding ≠ some k ∧ ∃ x, s.nodeListStore.lookup k = some x
  holds : ∀ k j x, s.nodeListQueue.worker k = some j → j.holds = some x →
    s.nodeListStore.lookup k = some x
  sent : ∀ k x, s.nodeListQueue.worker k = some (.sent x) → x.address ∈ s.written
  edge : ∀ x ∈ s.added, x.msg.isToEdge = true → x.address ∈ s.written ∨
    x.key ∈ s.nodeListQueue.dirty ∨ s.adding = some x.key ∨
    ∃ j, s.nodeListQueue.worker x.key = some j ∧ j.unsent = true

theorem tidy_start : Tidy {} where
  running := rfl
  next_added := by simp
  unique := by simp
  keyed := by simp
  accounted := by simp
  waiting := by rintro k (h | h | h) <;> cases h
  adding_once := by simp
  busy := by intro k j h; cases h
  holds := by intro k j x h; cases h
  sent := by intro k x h; cases h
  edge := by simp

/-- A dirty key waits in the queue, or a loop that has finished its message has it. -/
theorem Tidy.inQueue_of_dirty {s : ListQueue} (h : Tidy s) {k : GoString}
    (hk : k ∈ s.nodeListQueue.dirty) : InQueue s k := by
  rcases s.nodeListQueue.dirty_served k hk with hqueue | hworker
  · exact .inl hqueue
  · obtain ⟨j, hj⟩ := mem_processing.mp hworker
    right; right
    refine ⟨j, hj, .inr ⟨hk, ?_⟩⟩
    rintro rfl
    exact (h.busy k _ hj (by simp)).1 hk

theorem Tidy.deliveredOrKept {s : ListQueue} (h : Tidy s) : DeliveredOrKept s where
  kept x hx hedge := by
    rcases h.accounted x hx with hwritten | hstore
    · exact .inl hwritten
    · rcases h.edge x hx hedge with hwritten | hdirty | hadding | ⟨j, hj, hunsent⟩
      · exact .inl hwritten
      · exact .inr ⟨hstore, h.inQueue_of_dirty hdirty⟩
      · exact .inr ⟨hstore, .inr (.inl hadding)⟩
      · exact .inr ⟨hstore, .inr (.inr ⟨j, hj, .inl hunsent⟩)⟩
  removed x hx hgone := (h.accounted x hx).resolve_right hgone

variable {x : Stored}

/-- What the store has under the key of a message that is not written is that message. -/
theorem Tidy.written_of_lookup {s : ListQueue} (h : Tidy s) {y : Stored} (hx : x ∈ s.added)
    (hy : s.nodeListStore.lookup x.key = some y) (hwritten : x.address ∉ s.written) :
    y.address = x.address := by
  obtain ⟨z, hz, haddress⟩ := (h.accounted x hx).resolve_left hwritten
  rw [hy] at hz
  cases hz
  exact haddress

section

variable {s : ListQueue} {key : GoString}

theorem worker_setJob {j j₀ : Job} (hjob : s.nodeListQueue.worker key = some j₀) (k : GoString) :
    (s.setJob key j).nodeListQueue.worker k =
      if k = key then some j else s.nodeListQueue.worker k :=
  worker_setWorker k hjob

section

variable (h : Tidy s)
include h

/-- A loop goes on from the job `j₀` to the job `j`; the store changes at its key only, and
more messages may be written. -/
theorem Tidy.job (store : GoMap GoString Stored) (written : List ℕ) {j j₀ : Job}
    (hjob : s.nodeListQueue.worker key = some j₀) (hj₀ : j₀ ≠ .finished) (hj : j ≠ .got)
    (hother : ∀ k, k ≠ key → store.lookup k = s.nodeListStore.lookup k)
    (hkeyed : ∀ x, store.lookup key = some x → x.key = key) (hwritten : s.written ⊆ written)
    (haccounted : ∀ x ∈ s.added, x.key = key → x.address ∈ written ∨
      ∃ y, store.lookup key = some y ∧ y.address = x.address)
    (hstored : j ≠ .finished → ∃ x, store.lookup key = some x)
    (hholds : ∀ x, j.holds = some x → store.lookup key = some x)
    (hsent : ∀ x, j = .sent x → x.address ∈ written)
    (hedge : ∀ x ∈ s.added, x.key = key → x.msg.isToEdge = true → j.unsent = false →
      x.address ∈ written) :
    Tidy ({ s with nodeListStore := store, written := written }.setJob key j) := by
  set s₁ : ListQueue := { s with nodeListStore := store, written := written } with hs₁
  have hworker := worker_setJob (s := s₁) (j := j) hjob
  have hdirty : (s₁.setJob key j).nodeListQueue.dirty = s.nodeListQueue.dirty :=
    dirty_setWorker ..
  obtain ⟨hclean, hnotAdding, -⟩ := h.busy key j₀ hjob hj₀
  constructor
  · exact h.running
  · exact h.next_added
  · exact h.unique
  · intro k x hx
    by_cases hk : k = key
    · subst hk
      exact hkeyed x hx
    · exact h.keyed k x ((hother k hk).symm.trans hx)
  · intro x hx
    by_cases hk : x.key = key
    · rw [← hk] at haccounted
      exact haccounted x hx rfl
    · refine (h.accounted x hx).imp (fun hmem => hwritten hmem) ?_
      rintro ⟨y, hy, haddress⟩
      exact ⟨y, (hother x.key hk).trans hy, haddress⟩
  · intro k hk
    rw [hdirty, hworker] at hk
    have hne : k ≠ key := by
      rintro rfl
      rw [if_pos rfl] at hk
      rcases hk with hk | hk | hk
      · exact hclean hk
      · exact hnotAdding hk
      · exact hj (Option.some.inj hk)
    rw [if_neg hne] at hk
    obtain ⟨x, hx, hlookup⟩ := h.waiting k hk
    exact ⟨x, hx, (hother k hne).trans hlookup⟩
  · intro k hk
    rw [hdirty]
    exact h.adding_once k hk
  · intro k j' hj' hne
    rw [hworker] at hj'
    rw [hdirty]
    split_ifs at hj' with hk
    · subst hk
      cases hj'
      exact ⟨hclean, hnotAdding, hstored hne⟩
    · obtain ⟨hdirty', hadding, x, hx⟩ := h.busy k j' hj' hne
      exact ⟨hdirty', hadding, x, (hother k hk).trans hx⟩
  · intro k j' x hj' hx
    rw [hworker] at hj'
    split_ifs at hj' with hk
    · subst hk
      cases hj'
      exact hholds x hx
    · exact (hother k hk).trans (h.holds k j' x hj' hx)
  · intro k x hx
    rw [hworker] at hx
    split_ifs at hx with hk
    · exact hsent x (Option.some.inj hx)
    · exact hwritten (h.sent k x hx)
  · intro x hx hxedge
    rw [hdirty, hworker]
    by_cases hk : x.key = key
    · cases hunsent : j.unsent with
      | false => exact .inl (hedge x hx hk hxedge hunsent)
      | true => exact .inr (.inr (.inr ⟨j, if_pos hk, hunsent⟩))
    · rw [if_neg hk]
      exact (h.edge x hx hxedge).imp_left fun hmem => hwritten hmem

section

variable (hjob : s.nodeListQueue.worker key = some .got) (hx : s.nodeListStore.lookup key = some x)
include hjob hx

theorem Tidy.skip (hedge : x.msg.isToEdge = false) : Tidy (s.setJob key .abandoned) := by
  obtain ⟨x₀, hx₀, hlookup⟩ := h.waiting key (.inr (.inr hjob))
  rw [hx] at hlookup
  cases hlookup
  refine h.job s.nodeListStore s.written hjob (by simp) (by simp) (fun _ _ => rfl) (h.keyed key)
    (List.Subset.refl _) ?_ (fun _ => ⟨x, hx⟩) (by simp [Job.holds]) (by simp) ?_
  · rintro x' hx' rfl
    exact h.accounted x' hx'
  · rintro x' hx' rfl hedge' -
    by_contra hwritten
    have haddress := h.written_of_lookup hx' hx hwritten
    cases h.unique x hx₀ x' hx' haddress
    rw [hedge] at hedge'
    cases hedge'

theorem Tidy.trim : Tidy (s.trim key x) := by
  have hlookup : ∀ k, (s.nodeListStore.insert key { x with msg := trimMessage x.msg }).lookup k =
      if k = key then some { x with msg := trimMessage x.msg } else s.nodeListStore.lookup k :=
    fun k => GoMap.lookup_insert ..
  refine h.job _ s.written hjob (by simp) (by simp) ?_ ?_ (List.Subset.refl _) ?_ ?_ ?_
    (by simp) (by simp [Job.unsent])
  · intro k hk
    rw [hlookup, if_neg hk]
  · intro y hy
    rw [hlookup, if_pos rfl] at hy
    cases hy
    exact h.keyed key x hx
  · rintro x' hx' rfl
    by_cases hwritten : x'.address ∈ s.written
    · exact .inl hwritten
    · right
      have haddress := h.written_of_lookup hx' hx hwritten
      exact ⟨_, (hlookup _).trans (if_pos rfl), haddress⟩
  · exact fun _ => ⟨_, (hlookup key).trans (if_pos rfl)⟩
  · intro y hy
    cases hy
    exact (hlookup key).trans (if_pos rfl)

end

theorem Tidy.connect (hjob : s.nodeListQueue.worker key = some (.loaded x)) :
    Tidy (s.setJob key (.connected x)) := by
  have hx := h.holds key _ x hjob rfl
  refine h.job s.nodeListStore s.written hjob (by simp) (by simp) (fun _ _ => rfl) (h.keyed key)
    (List.Subset.refl _) ?_
    (fun _ => ⟨x, hx⟩) ?_ (by simp) (by simp [Job.unsent])
  · rintro x' hx' rfl
    exact h.accounted x' hx'
  · intro y hy
    cases hy
    exact hx

theorem Tidy.send {ok : Bool} (hjob : s.nodeListQueue.worker key = some (.connected x))
    (hok : s.hubIoWrite ok = true) : Tidy (s.send key x ok) := by
  have hx := h.holds key _ x hjob rfl
  unfold ListQueue.send
  rw [hok, if_pos rfl]
  refine h.job s.nodeListStore _ hjob (by simp) (by simp) (fun _ _ => rfl) (h.keyed key)
    (List.subset_cons_self ..) ?_ (fun _ => ⟨x, hx⟩) ?_ ?_ ?_
  · rintro x' hx' rfl
    exact (h.accounted x' hx').imp_left (List.mem_cons_of_mem _)
  · intro y hy
    cases hy
    exact hx
  · intro y hy
    cases hy
    exact .head _
  · rintro x' hx' rfl - -
    by_cases hwritten : x'.address ∈ s.written
    · exact .tail _ hwritten
    · rw [h.written_of_lookup hx' hx hwritten]
      exact .head _

theorem Tidy.delete (hjob : s.nodeListQueue.worker key = some (.sent x)) :
    Tidy (s.delete key x) := by
  have hx := h.holds key _ x hjob rfl
  have hkey : x.key = key := h.keyed key x hx
  have hlookup : ∀ k, (s.nodeListStore.erase x.key).lookup k =
      if k = key then none else s.nodeListStore.lookup k := by
    intro k
    rw [← hkey]
    exact GoMap.lookup_erase ..
  have hgone : ∀ x' ∈ s.added, x'.key = key → x'.address ∈ s.written := by
    rintro x' hx' rfl
    by_contra hwritten
    rw [← h.written_of_lookup hx' hx hwritten] at hwritten
    exact hwritten (h.sent _ x hjob)
  refine h.job _ s.written hjob (by simp) (by simp) ?_ ?_ (List.Subset.refl _) ?_
    (by simp) (by simp [Job.holds]) (by simp) ?_
  · intro k hk
    rw [hlookup, if_neg hk]
  · intro y hy
    rw [hlookup, if_pos rfl] at hy
    cases hy
  · exact fun x' hx' hk => .inl (hgone x' hx' hk)
  · exact fun x' hx' hk _ _ => hgone x' hx' hk

theorem Tidy.store {m : Message} (hidle : s.adding = none)
    (hnew : s.nodeListStore.lookup m.id = none) : Tidy (s.store m) := by
  have hlookup : ∀ k, (s.store m).nodeListStore.lookup k =
      if k = m.id then some ⟨m.id, s.next, m⟩ else s.nodeListStore.lookup k :=
    fun k => GoMap.lookup_insert ..
  have hkeep : ∀ k x, s.nodeListStore.lookup k = some x →
      (s.store m).nodeListStore.lookup k = some x := by
    intro k x hx
    rw [hlookup, if_neg]
    · exact hx
    · rintro rfl
      rw [hnew] at hx
      cases hx
  have hclean : m.id ∉ s.nodeListQueue.dirty := by
    intro hdirty
    obtain ⟨x, -, hx⟩ := h.waiting m.id (.inl hdirty)
    rw [hnew] at hx
    cases hx
  constructor
  · exact h.running
  · refine List.forall_mem_cons.mpr ⟨Nat.lt_succ_self _, ?_⟩
    exact fun x hx => Nat.lt_succ_of_lt (h.next_added x hx)
  · intro x hx x' hx' haddress
    rcases List.mem_cons.mp hx with rfl | hx
    · rcases List.mem_cons.mp hx' with rfl | hx'
      · rfl
      · exact absurd haddress (h.next_added x' hx').ne'
    · rcases List.mem_cons.mp hx' with rfl | hx'
      · exact absurd haddress (h.next_added x hx).ne
      · exact h.unique x hx x' hx' haddress
  · intro k x hx
    rw [hlookup] at hx
    split_ifs at hx with hk
    · cases hx
      exact hk.symm
    · exact h.keyed k x hx
  · intro x hx
    rcases List.mem_cons.mp hx with rfl | hx
    · exact .inr ⟨_, (hlookup _).trans (if_pos rfl), rfl⟩
    · refine (h.accounted x hx).imp_right ?_
      rintro ⟨y, hy, haddress⟩
      exact ⟨y, hkeep _ y hy, haddress⟩
  · rintro k (hdirty | hadding | hgot)
    · obtain ⟨x, hx, hstored⟩ := h.waiting k (.inl hdirty)
      exact ⟨x, .tail _ hx, hkeep k x hstored⟩
    · cases hadding
      exact ⟨_, .head _, (hlookup _).trans (if_pos rfl)⟩
    · obtain ⟨x, hx, hstored⟩ := h.waiting k (.inr (.inr hgot))
      exact ⟨x, .tail _ hx, hkeep k x hstored⟩
  · intro k hadding
    cases hadding
    exact hclean
  · intro k j hj hne
    obtain ⟨hdirty, -, x, hx⟩ := h.busy k j hj hne
    refine ⟨hdirty, ?_, x, hkeep k x hx⟩
    intro hadding
    cases hadding
    rw [hnew] at hx
    cases hx
  · intro k j x hj hx
    exact hkeep k x (h.holds k j x hj hx)
  · exact h.sent
  · intro x hx hedge
    rcases List.mem_cons.mp hx with rfl | hx
    · exact .inr (.inr (.inl rfl))
    · rcases h.edge x hx hedge with hwritten | hdirty | hadding | hworker
      · exact .inl hwritten
      · exact .inr (.inl hdirty)
      · rw [hidle] at hadding
        cases hadding
      · exact .inr (.inr (.inr hworker))

theorem Tidy.enqueue (hadding : s.adding = some key) : Tidy (s.enqueue key) := by
  have hqueue : (s.enqueue key).nodeListQueue = s.nodeListQueue.add key := by
    simp [ListQueue.enqueue, h.running]
  have hworker : ∀ k, (s.enqueue key).nodeListQueue.worker k = s.nodeListQueue.worker k := by
    intro k
    rw [hqueue, worker_add]
  have hdirty : ∀ k, k ∈ (s.enqueue key).nodeListQueue.dirty ↔
      k = key ∨ k ∈ s.nodeListQueue.dirty := by
    intro k
    rw [hqueue, mem_dirty_add]
  refine ⟨h.running, h.next_added, h.unique, h.keyed, h.accounted, ?_, ?_, ?_, ?_, ?_, ?_⟩
  · intro k hk
    rw [hdirty, hworker] at hk
    rcases hk with (rfl | hk) | hk | hk
    · exact h.waiting _ (.inr (.inl hadding))
    · exact h.waiting k (.inl hk)
    · cases hk
    · exact h.waiting k (.inr (.inr hk))
  · intro k hk
    cases hk
  · intro k j hj hne
    rw [hworker] at hj
    obtain ⟨hclean, hnotAdding, hx⟩ := h.busy k j hj hne
    refine ⟨?_, by simp [ListQueue.enqueue], hx⟩
    rw [hdirty]
    rintro (rfl | hk)
    · exact hnotAdding hadding
    · exact hclean hk
  · intro k j x hj hx
    rw [hworker] at hj
    exact h.holds k j x hj hx
  · intro k x hx
    rw [hworker] at hx
    exact h.sent k x hx
  · intro x hx hedge
    rw [hdirty, hworker]
    rcases h.edge x hx hedge with hwritten | hk | hk | hk
    · exact .inl hwritten
    · exact .inr (.inl (.inr hk))
    · rw [hadding] at hk
      cases hk
      exact .inr (.inl (.inl rfl))
    · exact .inr (.inr (.inr hk))

theorem Tidy.get {q : Workqueue GoString Job} (hget : s.nodeListQueue.get Job.got = some (key, q)) :
    Tidy { s with nodeListQueue := q } := by
  obtain ⟨hfree, hqueue, -, hworker, hdirty⟩ := get_eq_some hget
  have hkey : key ∈ s.nodeListQueue.dirty := by
    apply s.nodeListQueue.queue_dirty
    rw [hqueue]
    exact .head _
  obtain ⟨x₀, hx₀, hlookup⟩ := h.waiting key (.inl hkey)
  refine ⟨h.running, h.next_added, h.unique, h.keyed, h.accounted, ?_, ?_, ?_, ?_, ?_, ?_⟩
  · intro k hk
    rw [hdirty, hworker] at hk
    by_cases he : k = key
    · subst he
      exact ⟨x₀, hx₀, hlookup⟩
    · rw [if_neg he] at hk
      exact h.waiting k (hk.imp_left And.right)
  · intro k hk hmem
    exact h.adding_once k hk ((hdirty k).mp hmem).2
  · intro k j hj hne
    rw [hworker] at hj
    rw [hdirty]
    split_ifs at hj with he
    · subst he
      refine ⟨fun hk => hk.1 rfl, ?_, x₀, hlookup⟩
      exact fun hadding => h.adding_once _ hadding hkey
    · obtain ⟨hclean, hnotAdding, hx⟩ := h.busy k j hj hne
      exact ⟨fun hk => hclean hk.2, hnotAdding, hx⟩
  · intro k j x hj hx
    rw [hworker] at hj
    split_ifs at hj with he
    · cases hj
      cases hx
    · exact h.holds k j x hj hx
  · intro k x hj
    rw [hworker] at hj
    split_ifs at hj with he
    · cases hj
    · exact h.sent k x hj
  · intro x hx hedge
    rw [hdirty, hworker]
    by_cases he : x.key = key
    · exact .inr (.inr (.inr ⟨.got, if_pos he, rfl⟩))
    · rw [if_neg he]
      rcases h.edge x hx hedge with hwritten | hk | hk | hk
      · exact .inl hwritten
      · exact .inr (.inl ⟨he, hk⟩)
      · exact .inr (.inr (.inl hk))
      · exact .inr (.inr (.inr hk))

theorem Tidy.done (hjob : s.nodeListQueue.worker key = some .finished) :
    Tidy { s with nodeListQueue := s.nodeListQueue.done key } := by
  have hworker : ∀ k j, (s.nodeListQueue.done key).worker k = some j →
      s.nodeListQueue.worker k = some j := by
    intro k j hj
    rw [worker_done] at hj
    split_ifs at hj
    exact hj
  have hdirty := dirty_done s.nodeListQueue key
  refine ⟨h.running, h.next_added, h.unique, h.keyed, h.accounted, ?_, ?_, ?_, ?_, ?_, ?_⟩
  · intro k hk
    rw [hdirty] at hk
    exact h.waiting k (hk.imp_right (Or.imp_right (hworker k _)))
  · intro k hk
    rw [hdirty]
    exact h.adding_once k hk
  · intro k j hj hne
    rw [hdirty]
    exact h.busy k j (hworker k j hj) hne
  · exact fun k j x hj hx => h.holds k j x (hworker k j hj) hx
  · exact fun k x hx => h.sent k x (hworker k _ hx)
  · intro x hx hedge
    rw [hdirty, worker_done]
    refine (h.edge x hx hedge).imp_right (Or.imp_right (Or.imp_right ?_))
    rintro ⟨j, hj, hunsent⟩
    refine ⟨j, ?_, hunsent⟩
    rw [if_neg]
    · exact hj
    · intro he
      rw [he, hjob] at hj
      cases hj
      cases hunsent

theorem Tidy.frame (nodeConn nodeLock : Bool) :
    Tidy { s with nodeConn := nodeConn, nodeLock := nodeLock } :=
  { h with }

end

end

theorem tidy_step {s s' : ListQueue} {e : Event} (h : Tidy s) (hcond : Undisturbed s e)
    (hstep : step s e = some s') : Tidy s' := by
  cases turn_of_step hstep with
  | store hidle => exact h.store hidle hcond
  | enqueue hadding => exact h.enqueue hadding
  | nodeConn => exact h.frame _ s.nodeLock
  | nodeLock => exact h.frame s.nodeConn _
  | get hget => exact h.get hget
  | loadGone hjob hx =>
    obtain ⟨-, -, x, hx'⟩ := h.busy _ _ hjob (by simp)
    rw [hx] at hx'
    cases hx'
  | loadStop hjob hx hstop =>
    have hgo := hcond _ hx
    rw [hstop] at hgo
    cases hgo
  | loadSkip hjob hx hstop hedge => exact h.skip hjob hx hedge
  | load hjob hx hstop hedge => exact h.trim hjob hx
  | connect hjob hconn => exact h.connect hjob
  | connectFails hjob hconn =>
    rw [show s.nodeConn = true from hcond] at hconn
    cases hconn
  | send hjob => exact h.send hjob (by simp [ListQueue.hubIoWrite, hcond.1, hcond.2])
  | delete hjob => exact h.delete hjob
  | done hjob => exact h.done hjob

/-- In every run in which nothing disturbs the sending of a message, every message for the edge
is written or kept, and none is removed unwritten. -/
theorem delivered_or_kept {events : List Event} (hcond : Along step Undisturbed {} events) :
    Always step DeliveredOrKept {} events :=
  (always_of_along (fun _ _ _ h hP hstep => tidy_step h hP hstep) tidy_start hcond).mono
    fun _ h => h.deliveredOrKept

namespace Sample

/-- The Envoy cluster `web`. -/
def cluster : Message where
  id := str "id"
  source := str "envoycontroller"
  group := str "resource"
  resource := str "node/node/default/Cluster/envoyweb"
  operation := str "update"
  resourceVersion := []
  content := none

/-- The node is connected and the cluster is dispatched, taken and written; `ok` is the outcome
of the write. -/
def sending (ok : Bool) : List Event :=
  [.nodeConn true, .nodeLock true, .store cluster, .enqueue, .get, .load cluster.id,
    .connect cluster.id, .send cluster.id ok, .delete cluster.id, .done cluster.id]

end Sample

theorem cluster_delivered_or_kept : Always step DeliveredOrKept {} (Sample.sending true) := by
  apply delivered_or_kept
  apply along_of_check (p := fun s e => decide (Undisturbed s e)) (by simp)
  decide +kernel

/-- A write that fails: the cluster was not written and is in the store no more. -/
theorem cluster_lost : ¬ Always step DeliveredOrKept {} (Sample.sending false) := by
  intro h
  have hread : (run step {} (Sample.sending false)).map (fun s =>
      s.added.contains ⟨Sample.cluster.id, 0, Sample.cluster⟩ && s.written.isEmpty &&
        (s.nodeListStore.lookup Sample.cluster.id).isNone) = some true := by
    decide +kernel
  obtain ⟨s, hs, hread⟩ := Option.map_eq_some_iff.mp hread
  simp only [Bool.and_eq_true, List.contains_iff_mem, List.isEmpty_iff,
    Option.isNone_iff_eq_none] at hread
  obtain ⟨⟨hadded, hwritten⟩, hstore⟩ := hread
  have hgone : ¬ InStore s ⟨Sample.cluster.id, 0, Sample.cluster⟩ := by
    rintro ⟨y, hy, -⟩
    rw [hstore] at hy
    cases hy
  have hmem := (h.last hs).removed _ hadded hgone
  rw [hwritten] at hmem
  cases hmem

end KubeEdge.CloudHub.ListLoop
