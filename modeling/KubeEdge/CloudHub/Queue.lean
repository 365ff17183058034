import KubeEdge.Go.Machine
import KubeEdge.Go.Workqueue

namespace KubeEdge.CloudHub
open Go Machine Workqueue

/-- What `meta.Accessor` finds in a content. -/
structure Accessor where
  uid : GoString
  /-- Whether the deletion timestamp is set. -/
  deletionTimestamp : Bool
  deriving DecidableEq, Repr

structure Message where
  id : GoString
  source : GoString
  group : GoString
  resource : GoString
  operation : GoString
  resourceVersion : GoString
  /-- `none` where the content is no API object. -/
  content : Option Accessor
  deriving DecidableEq, Repr

namespace Message

/-- An element of the resource path; callers ignore the error and go on with the empty string. -/
def token (m : Message) (i : ℕ) : GoString := ((split 47 m.resource)[i]?).getD []

def getNamespace (m : Message) : GoString := m.token 2

def getResourceType (m : Message) : GoString := m.token 3

def getResourceName (m : Message) : GoString := m.token 4

def getMsgKey (m : Message) : Option GoString :=
  if m.group = str "resource" then
    some (join 47 [m.getResourceType, m.getNamespace, m.getResourceName])
  else none

/-- The version as a number; `none` where it is no numeral. -/
def version (m : Message) : Option ℕ := parseUint m.resourceVersion

/-- An object that is being deleted counts as deleted, whatever the operation. -/
def isDeleteMessage (m : Message) : Bool :=
  m.operation = str "delete" || m.content.any (·.deletionTimestamp)

/-- `IsToEdge`: some messages of the manager stay in the cloud. -/
def isToEdge (m : Message) : Bool :=
  if m.source ≠ str "edgemgr" then true
  else
    let tokens := split 47 m.resource
    let resource :=
      if (str "node").isPrefixOf m.resource ∧ 3 ≤ tokens.length then join 47 (tokens.drop 2)
      else m.resource
    let special := [(str "membership", str "get"), (str "twin", str "delta"),
      (str "twin", str "document"), (str "twin", str "get"), (str "auth_info", str "get"),
      (str "node", str "deleted")]
    !special.any fun (res, op) => m.operation = op && contains resource res

end Message

/-- `CompareResourceVersion` panics on a version that is not a number. -/
def compareResourceVersion (a b : GoString) : M Ordering :=
  match parseUint a, parseUint b with
  | some a, some b => .ok (compare a b)
  | _, _ => .error .panicked

/-- A message in the node's store.  The address tells apart messages that look the same. -/
structure Stored where
  key : GoString
  address : ℕ
  msg : Message
  deriving DecidableEq, Repr

/-- What a write loop is doing with a key. -/
inductive Job
  /-- `Get` has returned. -/
  | got
  /-- The message was read from the store and waits for a connection. -/
  | ready (x : Stored)
  /-- `sendMsg` waits for an answer, or for the timer; the answer closes the channel. -/
  | waiting (x : Stored) (retry : ℕ) (closed : Bool)
  /-- Before `Forget` and `Done`. -/
  | finished
  deriving DecidableEq, Repr

/-- What happened to the messages of a key. -/
inductive Entry
  | stored (x : Stored)
  /-- `sendMsg` was called. -/
  | passed (x : Stored)
  /-- An answered deletion has removed its key from the store. -/
  | removed (x : Stored)
  deriving DecidableEq, Repr

/-- The ObjectSyncs that the lister shows, by namespace and name, with the version in their
status. -/
abbrev ObjectSyncs := GoMap (GoString × GoString) GoString

structure NodeQueue where
  nodeStore : GoMap GoString Stored := ∅
  nodeQueue : Workqueue GoString Job := {}
  objectSyncs : ObjectSyncs := ∅
  /-- The message that the dispatcher is about to store. -/
  dispatching : Option (GoString × Message) := none
  /-- The next address. -/
  next : ℕ := 0
  /-- The history, for the properties of runs: the newest entry is the first. -/
  log : List Entry := []
  /-- The messages that the edge has answered, the newest answer first. -/
  acked : List Stored := []

def buildObjectSyncName (node uid : GoString) : GoString := node ++ 46 :: uid

/-- The checks of `addMessageToQueue`: the key of a message that is to be stored. -/
def accepts (node : GoString) (m : Message) (s : NodeQueue) : M (Option GoString) :=
  if m.resourceVersion = [] ∧ ¬ m.isDeleteMessage then .ok none
  else
    match m.getMsgKey with
    | none => .ok none
    | some key =>
      if m.isDeleteMessage then .ok (some key)
      else
        match s.nodeStore.lookup key with
        | none =>
          -- not in the store: compare with the version the edge has acknowledged
          match m.content with
          | none => .ok none
          | some accessor =>
            match s.objectSyncs.lookup (m.getNamespace, buildObjectSyncName node accessor.uid) with
            | none => .ok (some key)
            | some version =>
              if version = [] then .ok (some key)
              else do
                let c ← compareResourceVersion m.resourceVersion version
                .ok (if c = .gt then some key else none)
        | some x =>
          if x.msg.isDeleteMessage then .ok none
          else do
            let c ← compareResourceVersion m.resourceVersion x.msg.resourceVersion
            .ok (if c = .gt then some key else none)

namespace NodeQueue

/-- The end of `addMessageToQueue`: store the message and enqueue its key. -/
def put (s : NodeQueue) (key : GoString) (m : Message) : NodeQueue :=
  { s with
    nodeStore := s.nodeStore.insert key ⟨key, s.next, m⟩
    nodeQueue := s.nodeQueue.add key
    dispatching := none
    next := s.next + 1
    log := .stored ⟨key, s.next, m⟩ :: s.log }

def setJob (s : NodeQueue) (key : GoString) (j : Job) : NodeQueue :=
  { s with nodeQueue := s.nodeQueue.setWorker key j }

/-- An error of `sendMsg`: the key is added again after a while. -/
def retryLater (s : NodeQueue) (key : GoString) : NodeQueue :=
  { s with nodeQueue := (s.nodeQueue.addRateLimited key).setWorker key .finished }

/-- `saveSuccessPoint`, as far as the store is concerned: the ObjectSync that it writes comes
back with the informer.  Without a UID nothing is saved. -/
def saveSuccessPoint (s : NodeQueue) (x : Stored) : NodeQueue :=
  if x.msg.content.isSome ∧ x.msg.operation = str "delete" then
    { s with nodeStore := s.nodeStore.erase x.key, log := .removed x :: s.log }
  else s

end NodeQueue

def addMessageToQueue (node : GoString) (m : Message) (s : NodeQueue) : M NodeQueue := do
  match ← accepts node m s with
  | none => .ok s
  | some key => .ok (s.put key m)

inductive Event
  /-- `addMessageToQueue` up to the store. -/
  | check (m : Message)
  /-- The rest of the call. -/
  | commit
  | get
  | load (key : GoString)
  | send (key : GoString) (ok : Bool)
  /-- The answer of the edge arrives. -/
  | ack (key : GoString)
  /-- An answer arrives that nobody waits for. -/
  | lateAck (x : Stored)
  /-- `sendMsg` sees the closed channel. -/
  | success (key : GoString)
  /-- The timer of `sendMsg`; `ok` tells whether sending again works. -/
  | tick (key : GoString) (ok : Bool)
  | done (key : GoString)
  | release (key : GoString)
  | informer (objectSyncs : ObjectSyncs)

/-- A turn, where it can be taken.  A panic ends the process. -/
def step (node : GoString) (s : NodeQueue) : Event → Option NodeQueue
  | .check m =>
    match s.dispatching with
    | some _ => none
    | none =>
      match accepts node m s with
      | .error _ => none
      | .ok accepted => some { s with dispatching := accepted.map fun key => (key, m) }
  | .commit => s.dispatching.map fun (key, m) => s.put key m
  | .get => (s.nodeQueue.get Job.got).map fun (_, q) => { s with nodeQueue := q }
  | .load key =>
    match s.nodeQueue.worker key with
    | some .got =>
      match s.nodeStore.lookup key with
      | none => some (s.setJob key .finished)
      | some x => some (s.setJob key (if x.msg.isToEdge then .ready x else .finished))
    | _ => none
  | .send key ok =>
    match s.nodeQueue.worker key with
    | some (.ready x) =>
      let s' := { s with log := .passed x :: s.log }
      some (if ok then s'.setJob key (.waiting x 0 false) else s'.retryLater key)
    | _ => none
  | .ack key =>
    match s.nodeQueue.worker key with
    | some (.waiting x retry _) =>
      some ({ s with acked := x :: s.acked }.setJob key (.waiting x retry true))
    | _ => none
  | .lateAck x => if .passed x ∈ s.log then some { s with acked := x :: s.acked } else none
  | .success key =>
    match s.nodeQueue.worker key with
    | some (.waiting x _ true) => some ((s.saveSuccessPoint x).setJob key .finished)
    | _ => none
  | .tick key ok =>
    match s.nodeQueue.worker key with
    | some (.waiting x retry closed) =>
      some (if retry = 4 then s.setJob key .finished
        else if ok then s.setJob key (.waiting x (retry + 1) closed)
        else s.retryLater key)
    | _ => none
  | .done key =>
    match s.nodeQueue.worker key with
    | some .finished => some { s with nodeQueue := s.nodeQueue.done key }
    | _ => none
  | .release key =>
    if key ∈ s.nodeQueue.waiting then some { s with nodeQueue := s.nodeQueue.release key }
    else none
  | .informer objectSyncs => some { s with objectSyncs := objectSyncs }

/-- What the turns do, one case for each outcome. -/
inductive Turn (node : GoString) (s : NodeQueue) : Event → NodeQueue → Prop
  | check {m : Message} {accepted : Option GoString} (hidle : s.dispatching = none)
      (haccepts : accepts node m s = .ok accepted) :
      Turn node s (.check m) { s with dispatching := accepted.map fun key => (key, m) }
  | commit {key : GoString} {m : Message} (hm : s.dispatching = some (key, m)) :
      Turn node s .commit (s.put key m)
  | get {key : GoString} {q : Workqueue GoString Job}
      (hget : s.nodeQueue.get Job.got = some (key, q)) : Turn node s .get { s with nodeQueue := q }
  | loadGone {key : GoString} (hjob : s.nodeQueue.worker key = some .got)
      (hx : s.nodeStore.lookup key = none) : Turn node s (.load key) (s.setJob key .finished)
  | loadSkip {key : GoString} {x : Stored} (hjob : s.nodeQueue.worker key = some .got)
      (hx : s.nodeStore.lookup key = some x) (hedge : x.msg.isToEdge = false) :
      Turn node s (.load key) (s.setJob key .finished)
  | load {key : GoString} {x : Stored} (hjob : s.nodeQueue.worker key = some .got)
      (hx : s.nodeStore.lookup key = some x) (hedge : x.msg.isToEdge = true) :
      Turn node s (.load key) (s.setJob key (.ready x))
  | send {key : GoString} {x : Stored} (hjob : s.nodeQueue.worker key = some (.ready x)) :
      Turn node s (.send key true)
        ({ s with log := .passed x :: s.log }.setJob key (.waiting x 0 false))
  | sendFails {key : GoString} {x : Stored} (hjob : s.nodeQueue.worker key = some (.ready x)) :
      Turn node s (.send key false) ({ s with log := .passed x :: s.log }.retryLater key)
  | ack {key : GoString} {x : Stored} {retry : ℕ} {closed : Bool}
      (hjob : s.nodeQueue.worker key = some (.waiting x retry closed)) :
      Turn node s (.ack key)
        ({ s with acked := x :: s.acked }.setJob key (.waiting x retry true))
  | lateAck {x : Stored} (hpassed : .passed x ∈ s.log) :
      Turn node s (.lateAck x) { s with acked := x :: s.acked }
  | success {key : GoString} {x : Stored} {retry : ℕ}
      (hjob : s.nodeQueue.worker key = some (.waiting x retry true)) :
      Turn node s (.success key) ((s.saveSuccessPoint x).setJob key .finished)
  | giveUp {key : GoString} {x : Stored} {closed ok : Bool}
      (hjob : s.nodeQueue.worker key = some (.waiting x 4 closed)) :
      Turn node s (.tick key ok) (s.setJob key .finished)
  | resend {key : GoString} {x : Stored} {retry : ℕ} {closed : Bool}
      (hjob : s.nodeQueue.worker key = some (.waiting x retry closed)) :
      Turn node s (.tick key true) (s.setJob key (.waiting x (retry + 1) closed))
  | resendFails {key : GoString} {x : Stored} {retry : ℕ} {closed : Bool}
      (hjob : s.nodeQueue.worker key = some (.waiting x retry closed)) :
      Turn node s (.tick key false) (s.retryLater key)
  | done {key : GoString} (hjob : s.nodeQueue.worker key = some .finished) :
      Turn node s (.done key) { s with nodeQueue := s.nodeQueue.done key }
  | release {key : GoString} (hwaiting : key ∈ s.nodeQueue.waiting) :
      Turn node s (.release key) { s with nodeQueue := s.nodeQueue.release key }
  | informer {objectSyncs : ObjectSyncs} :
      Turn node s (.informer objectSyncs) { s with objectSyncs := objectSyncs }

variable {s : NodeQueue} {key k : GoString} {j j₀ : Job} {x : Stored}

theorem turn_of_step {node : GoString} {s' : NodeQueue} {e : Event} (h : step node s e = some s') :
    Turn node s e s' := by
  cases e with
  | check m =>
    simp only [step] at h
    split at h
    · cases h
    · rename_i hidle
      split at h
      · cases h
      · rename_i accepted haccepts
        cases h
        exact .check hidle haccepts
  | commit =>
    obtain ⟨⟨key, m⟩, hm, rfl⟩ := Option.map_eq_some_iff.mp h
    exact .commit hm
  | get =>
    obtain ⟨⟨key, q⟩, hget, rfl⟩ := Option.map_eq_some_iff.mp h
    exact .get hget
  | load key =>
    simp only [step] at h
    split at h
    · rename_i hjob
      split at h
      · rename_i hx
        cases h
        exact .loadGone hjob hx
      · rename_i x hx
        cases h
        cases hedge : x.msg.isToEdge with
        | true => exact .load hjob hx hedge
        | false => exact .loadSkip hjob hx hedge
    · cases h
  | send key ok =>
    simp only [step] at h
    split at h
    · rename_i x hjob
      cases h
      cases ok with
      | true => exact .send hjob
      | false => exact .sendFails hjob
    · cases h
  | ack key =>
    simp only [step] at h
    split at h
    · rename_i x retry closed hjob
      cases h
      exact .ack hjob
    · cases h
  | lateAck x =>
    simp only [step] at h
    split at h
    · rename_i hpassed
      cases h
      exact .lateAck hpassed
    · cases h
  | success key =>
    simp only [step] at h
    split at h
    · rename_i x retry hjob
      cases h
      exact .success hjob
    · cases h
  | tick key ok =>
    simp only [step] at h
    split at h
    · rename_i x retry closed hjob
      cases h
      by_cases hretry : retry = 4
      · rw [if_pos hretry]
        exact .giveUp (hretry ▸ hjob)
      · rw [if_neg hretry]
        cases ok with
        | true => exact .resend hjob
        | false => exact .resendFails hjob
    · cases h
  | done key =>
    simp only [step] at h
    split at h
    · rename_i hjob
      cases h
      exact .done hjob
    · cases h
  | release key =>
    simp only [step] at h
    split at h
    · rename_i hwaiting
      cases h
      exact .release hwaiting
    · cases h
  | informer objectSyncs =>
    cases h
    exact .informer

/-- The message a write loop holds. -/
def Job.holds : Job → Option Stored
  | .ready x => some x
  | .waiting x _ _ => some x
  | _ => none

section

variable (hjob : s.nodeQueue.worker key = some j₀) (k : GoString)
include hjob

theorem worker_setJob :
    (s.setJob key j).nodeQueue.worker k = if k = key then some j else s.nodeQueue.worker k :=
  worker_setWorker k hjob

theorem worker_retryLater :
    (s.retryLater key).nodeQueue.worker k =
      if k = key then some .finished else s.nodeQueue.worker k :=
  worker_setWorker (q := s.nodeQueue.addRateLimited key) k hjob

end

@[simp] theorem nodeQueue_saveSuccessPoint (s : NodeQueue) (x : Stored) :
    (s.saveSuccessPoint x).nodeQueue = s.nodeQueue := by
  unfold NodeQueue.saveSuccessPoint
  split_ifs <;> rfl

theorem worker_success (hjob : s.nodeQueue.worker key = some j₀) (k : GoString) :
    ((s.saveSuccessPoint x).setJob key j).nodeQueue.worker k =
      if k = key then some j else s.nodeQueue.worker k := by
  rw [worker_setJob (by simpa using hjob), nodeQueue_saveSuccessPoint]

section

variable (s) (x)

@[simp] theorem acked_saveSuccessPoint : (s.saveSuccessPoint x).acked = s.acked := by
  unfold NodeQueue.saveSuccessPoint
  split_ifs <;> rfl

@[simp] theorem next_saveSuccessPoint : (s.saveSuccessPoint x).next = s.next := by
  unfold NodeQueue.saveSuccessPoint
  split_ifs <;> rfl

@[simp] theorem dispatching_saveSuccessPoint :
    (s.saveSuccessPoint x).dispatching = s.dispatching := by
  unfold NodeQueue.saveSuccessPoint
  split_ifs <;> rfl

theorem log_saveSuccessPoint :
    ∃ new, (s.saveSuccessPoint x).log = new ++ s.log ∧ ∀ y, .passed y ∉ new := by
  unfold NodeQueue.saveSuccessPoint
  split_ifs
  · exact ⟨[.removed x], rfl, by simp⟩
  · exact ⟨[], rfl, by simp⟩

end

theorem lookup_of_saveSuccessPoint {y : Stored}
    (h : (s.saveSuccessPoint x).nodeStore.lookup k = some y) : s.nodeStore.lookup k = some y := by
  unfold NodeQueue.saveSuccessPoint at h
  split_ifs at h
  · rw [GoMap.lookup_erase] at h
    split_ifs at h
    exact h
  · exact h

/-- The key comes back: it was added while a write loop has it, or the rate limiter will add
it. -/
def ComesBack (s : NodeQueue) (k : GoString) : Prop :=
  k ∈ s.nodeQueue.dirty ∨ k ∈ s.nodeQueue.waiting

theorem comesBack_put {m : Message} : ComesBack (s.put key m) k ↔ k = key ∨ ComesBack s k := by
  simp [ComesBack, NodeQueue.put, mem_dirty_add, waiting_add, or_assoc]

theorem comesBack_setJob : ComesBack (s.setJob key j) k ↔ ComesBack s k := by
  simp [ComesBack, NodeQueue.setJob]

theorem comesBack_retryLater : ComesBack (s.retryLater key) k ↔ k = key ∨ ComesBack s k := by
  simp only [ComesBack, NodeQueue.retryLater, dirty_setWorker,
    dirty_addRateLimited, waiting_setWorker,
    mem_waiting_addRateLimited]
  tauto

theorem comesBack_success : ComesBack ((s.saveSuccessPoint x).setJob key j) k ↔ ComesBack s k := by
  rw [comesBack_setJob]
  simp [ComesBack]

theorem comesBack_done :
    ComesBack { s with nodeQueue := s.nodeQueue.done key } k ↔ ComesBack s k := by
  simp [ComesBack]

theorem comesBack_release :
    ComesBack { s with nodeQueue := s.nodeQueue.release key } k ↔ k = key ∨ ComesBack s k := by
  simp only [ComesBack, mem_dirty_release, mem_waiting_release]
  tauto

theorem not_scheduled (hfree : s.nodeQueue.worker k = none) (hback : ¬ ComesBack s k) :
    ¬ s.nodeQueue.Scheduled k := by
  rintro (hqueue | ⟨w, hw⟩ | hwaiting)
  · exact hback (.inl (s.nodeQueue.queue_dirty k hqueue))
  · rw [hfree] at hw
    cases hw
  · exact hback (.inr hwaiting)

/-- A queue that was just made; the ObjectSyncs are whatever earlier runs have left. -/
def start (objectSyncs : ObjectSyncs) : NodeQueue :=
  { objectSyncs := objectSyncs }

namespace Sample

/-- The pod `web` of the namespace `default`, for the node `node`. -/
def pod (operation version : GoString) : Message where
  id := str "id"
  source := str "edgecontroller"
  group := str "resource"
  resource := str "node/node/default/pod/web"
  operation := operation
  resourceVersion := version
  content := some ⟨str "uid", false⟩

def podKey : GoString := str "pod/default/web"

end Sample

end KubeEdge.CloudHub
