import KubeEdge.Go.Machine
import KubeEdge.MetaServer.Watch

namespace KubeEdge.MetaServer
open Go Machine

variable {β : Type}

def GVR.string (gvr : GVR) : GoString :=
  gvr.group ++ str "/" ++ gvr.version ++ str ", Resource=" ++ gvr.resource

/-- A row of `meta_v2` without its key; the value is the object. -/
structure Row (β : Type) where
  groupVersionResource : GoString
  ns : GoString
  name : GoString
  resourceVersion : UInt64
  value : Object β
  deriving DecidableEq, Repr

/-- The row that an object is stored as under its key. -/
def rowOf (key : GoString) (o : Object β) : Row β :=
  ⟨(parseKey key).1.string, (parseKey key).2.1, (parseKey key).2.2, o.resourceVersion, o⟩

def Row.Selected (gvr : GVR) (ns name : GoString) (row : Row β) : Prop :=
  gvr.Empty ∨ row.groupVersionResource = gvr.string ∧
    (ns = nullNamespace ∨ ns = [] ∨ row.ns = ns) ∧ (name = nullName ∨ name = [] ∨ row.name = name)

instance (gvr : GVR) (ns name : GoString) (row : Row β) : Decidable (row.Selected gvr ns name) :=
  inferInstanceAs (Decidable (_ ∨ _ ∧ _ ∧ _))

def rawMetaByGVRNN (rows : GoMap GoString (Row β)) (gvr : GVR) (ns name : GoString) :
    List (Row β) :=
  (rows.entries.map (·.2)).filter fun row => row.Selected gvr ns name

/-- What `List` finds for a key. -/
def listed (rows : GoMap GoString (Row β)) (key : GoString) : List (Row β) :=
  rawMetaByGVRNN rows (parseKey key).1 (parseKey key).2.1 (parseKey key).2.2

structure WatchHook where
  gvr : GVR
  ns : GoString
  name : GoString
  resourceVersion : UInt64
  deriving DecidableEq, Repr

def newWatchHook (key : GoString) (rev : UInt64) : WatchHook :=
  ⟨(parseKey key).1, (parseKey key).2.1, (parseKey key).2.2, rev⟩

/-- An object with this key is one of the hook's. -/
def WatchHook.Covers (hook : WatchHook) (key : GoString) : Prop :=
  (hook.gvr.Empty ∨ hook.gvr = (parseKey key).1) ∧ (hook.ns = [] ∨ hook.ns = (parseKey key).2.1) ∧
    (hook.name = [] ∨ hook.name = (parseKey key).2.2)

/-- The version of the event is after the hook's. -/
def WatchHook.Newer (hook : WatchHook) (rev : UInt64) : Prop :=
  hook.resourceVersion = 0 ∨ hook.resourceVersion < rev

instance (hook : WatchHook) (key : GoString) : Decidable (hook.Covers key) :=
  inferInstanceAs (Decidable (_ ∧ _ ∧ _))

instance (hook : WatchHook) (rev : UInt64) : Decidable (hook.Newer rev) :=
  inferInstanceAs (Decidable (_ ∨ _))

/-- The watch for the one key is about an object with the other. -/
def InScope (key objKey : GoString) : Prop := (newWatchHook key 0).Covers objKey

instance (key objKey : GoString) : Decidable (InScope key objKey) :=
  inferInstanceAs (Decidable (WatchHook.Covers _ _))

/-- The watch for the key is about the object of the event. -/
def WatchEvent.InScope (key : GoString) (e : WatchEvent β) : Prop :=
  match e.object.key with
  | .ok objKey => MetaServer.InScope key objKey
  | .error _ => False

instance (key : GoString) (e : WatchEvent β) : Decidable (e.InScope key) := by
  unfold WatchEvent.InScope
  split <;> infer_instance

inductive Operation
  | insert
  | update
  | delete
  deriving DecidableEq, Repr

/-- A message that is injected, with the objects that its content decodes to. -/
structure Message (β : Type) where
  resource : GoString
  operation : Operation
  objects : Option (List (Object β))

/-- The resource type of `parseResource`. -/
def resourceType (resource : GoString) : GoString :=
  match split 47 resource with
  | [_, resType] => resType
  | [_, resType, _] => resType
  | _ => []

def Operation.eventType : Operation → EventType
  | .insert => .added
  | .update => .modified
  | .delete => .deleted

/-- `Event`: status messages are skipped. -/
def Message.events (msg : Message β) : List (WatchEvent β) :=
  if contains (resourceType msg.resource) (str "status") then []
  else (msg.objects.getD []).map fun o => ⟨msg.operation.eventType, o⟩

/-- Where `Inject` stands. -/
inductive Injector (β : Type)
  /-- The next event is to be stored. -/
  | ready (todo : List (WatchEvent β))
  /-- The event is stored and to be handed on. -/
  | stored (e : WatchEvent β) (todo : List (WatchEvent β))

/-- Where `startWatching` stands; `rev` is the revision of the list. -/
inductive Watcher (β : Type)
  | start
  | syncing (kvs : List (Row β)) (rev : UInt64)
  | synced (rev : UInt64)
  | receiving (rev : UInt64)
  /-- An event is in the loop variable. -/
  | forwarding (rev : UInt64)
  | failed (err : GoString)

/-- The revision of the list, once it is made. -/
def Watcher.listRev : Watcher β → Option UInt64
  | .start | .failed _ => none
  | .syncing _ rev | .synced rev | .receiving rev | .forwarding rev => some rev

/-- The watch has listed and has no hook yet. -/
def Watcher.Unhooked : Watcher β → Prop
  | .syncing _ _ | .synced _ => True
  | _ => False

instance (w : Watcher β) : Decidable w.Unhooked := by
  cases w <;> unfold Watcher.Unhooked <;> infer_instance

/-- What the channel of incoming events carries: a pointer to an event of the list, or to the loop
variable of `startWatching`, which all events of the hook share. -/
inductive EventPtr (β : Type)
  | listed (e : WatchEvent β)
  | wres
  deriving DecidableEq

structure World (β : Type) where
  rows : GoMap GoString (Row β)
  revision : UInt64
  injector : Injector β := .ready []
  watcher : Watcher β := .start
  wres : Option (WatchEvent β) := none
  incoming : List (EventPtr β) := []
  /-- What `processEvent` has taken from the channel. -/
  processing : Option (EventPtr β) := none
  stream : Stream β := {}
  /-- How many results the client has taken from the channel. -/
  taken : ℕ := 0

def incomingBufSize : ℕ := 100
def outgoingBufSize : ℕ := 100

inductive Event (β : Type)
  | inject (msg : Message β)
  | store
  | trigger
  | list
  | send
  | register
  | forward
  | receive
  | process
  | take

namespace World

/-- `InsertOrUpdateObj` and `DeleteObj`. -/
def save (s : World β) (e : WatchEvent β) (key : GoString) : World β :=
  if e.type = .deleted then { s with rows := s.rows.erase key }
  else
    { s with
      rows := s.rows.insert key (rowOf key e.object)
      revision :=
        if s.revision < e.object.resourceVersion then e.object.resourceVersion else s.revision }

/-- The event behind a pointer. -/
def event (s : World β) : EventPtr β → Option (WatchEvent β)
  | .listed e => some e
  | .wres => s.wres

/-- The pointers that are not dealt with yet. -/
def pending (s : World β) : List (EventPtr β) := s.processing.toList ++ s.incoming

/-- `sendEvent`, where there is room. -/
def sendEvent (s : World β) (e : EventPtr β) (after : Watcher β) : Option (World β) :=
  if s.incoming.length < incomingBufSize then
    some { s with incoming := s.incoming ++ [e], watcher := after }
  else none

/-- `Trigger`: the event is handed on to the hook of the watch, which waits for it. -/
def trigger (s : World β) (key : GoString) (e : WatchEvent β) (objKey : GoString)
    (todo : List (WatchEvent β)) : Option (World β) :=
  let skip := { s with injector := .ready todo }
  match s.watcher with
  | .receiving rev =>
    let hook := newWatchHook key (rev + 1)
    if hook.Covers objKey ∧ hook.Newer e.object.resourceVersion then
      some { skip with watcher := .forwarding rev, wres := some e }
    else some skip
  | .forwarding rev =>
    let hook := newWatchHook key (rev + 1)
    if hook.Covers objKey ∧ hook.Newer e.object.resourceVersion then none else some skip
  | _ => some skip

end World

/-- A step of the system with a watch for this key and predicate.  The objects of messages have
valid names. -/
def step (key : GoString) (p : Predicate β) (s : World β) : Event β → Option (World β)
  | .inject msg =>
    match s.injector with
    | .ready [] =>
      if ∀ e ∈ msg.events, e.object.objectMeta.Valid then
        some { s with injector := .ready msg.events }
      else none
    | _ => none
  | .store =>
    match s.injector with
    | .ready (e :: todo) =>
      match e.object.key with
      | .ok objKey => some { s.save e objKey with injector := .stored e todo }
      | .error _ => none
    | _ => none
  | .trigger =>
    match s.injector with
    | .stored e todo =>
      match e.object.key with
      | .ok objKey => s.trigger key e objKey todo
      | .error _ => none
    | _ => none
  | .list =>
    match s.watcher with
    | .start =>
      let kvs := listed s.rows key
      if kvs = [] then
        some { s with
          watcher := .failed (str "the server could not find the requested resource") }
      else some { s with watcher := .syncing kvs s.revision }
    | _ => none
  | .send =>
    match s.watcher with
    | .syncing (kv :: kvs) rev => s.sendEvent (.listed ⟨.added, kv.value⟩) (.syncing kvs rev)
    | .syncing [] rev => some { s with watcher := .synced rev }
    | _ => none
  | .register =>
    match s.watcher with
    | .synced rev => some { s with watcher := .receiving rev }
    | _ => none
  | .forward =>
    match s.watcher with
    | .forwarding rev => s.sendEvent .wres (.receiving rev)
    | _ => none
  | .receive =>
    match s.processing, s.incoming with
    | none, e :: incoming => some { s with incoming, processing := some e }
    | _, _ => none
  | .process =>
    -- the source reads the event several times from here on, the model once
    match s.processing.bind s.event with
    | none => none
    | some e =>
      let stream := s.stream.processEvent p e
      if stream.results.length ≤ s.taken + outgoingBufSize then
        some { s with processing := none, stream }
      else none
  | .take => if s.taken < s.stream.results.length then some { s with taken := s.taken + 1 }
      else none

/-- The table before the first step: every row is the row of a valid object, under its key. -/
def Stored (rows : GoMap GoString (Row β)) : Prop :=
  ∀ key row, rows.lookup key = some row →
    row = rowOf key row.value ∧ row.value.key = .ok key ∧ row.value.objectMeta.Valid

def start (rows : GoMap GoString (Row β)) (revision : UInt64) : World β := { rows, revision }

/-- Every injected event has been handed on, and the watch waits for events or has ended. -/
def Idle (s : World β) : Prop :=
  match s.injector, s.watcher, s.pending with
  | .ready [], .receiving _, [] => True
  | .ready [], .failed _, [] => True
  | _, _, _ => False

/-- What the watch selects under a key of the table. -/
def target (key : GoString) (p : Predicate β) (s : World β) (k : GoString) : Option (Object β) :=
  if InScope key k then ((s.rows.lookup k).map Row.value).filter fun o => p.Matches o else none

/-- When nothing is under way, the client has what is stored and selected. -/
def Complete (key : GoString) (p : Predicate β) (s : World β) : Prop :=
  Idle s → ∀ k, (replay s.stream.results).lookup k = target key p s k

/-- What is stored after the list has a version that the hook takes. -/
def StoresNewer (key : GoString) (s : World β) : Prop :=
  match s.injector, s.watcher.listRev with
  | .ready (e :: _), some rev => e.InScope key → rev.toNat + 1 < e.object.resourceVersion.toNat
  | _, _ => True

/-- Between the list and the registration of the hook only events are handed on that are not
newer than the list. -/
def TriggersOlder (key : GoString) (s : World β) : Prop :=
  match s.injector, s.watcher.listRev with
  | .stored e _, some rev =>
    s.watcher.Unhooked → e.InScope key → e.object.resourceVersion.toNat ≤ rev.toNat
  | _, _ => True

/-- When the hook takes an event, the one before it has been processed: both are kept in one
variable. -/
def TriggersOneByOne (key : GoString) (s : World β) : Prop :=
  match s.injector, s.watcher with
  | .stored e _, .receiving _ => e.InScope key → .wres ∉ s.pending
  | _, _ => True

/-- The list finds something, and the other three hold. -/
def Timely (key : GoString) (s : World β) : Event β → Prop
  | .list => listed s.rows key ≠ []
  | .store => StoresNewer key s
  | .trigger => TriggersOlder key s ∧ TriggersOneByOne key s
  | _ => True

instance (s : World β) : Decidable (Idle s) := by
  unfold Idle
  split <;> infer_instance

instance (key : GoString) (s : World β) : Decidable (StoresNewer key s) := by
  unfold StoresNewer
  split <;> infer_instance

instance (key : GoString) (s : World β) : Decidable (TriggersOlder key s) := by
  unfold TriggersOlder
  split <;> infer_instance

instance [DecidableEq β] (key : GoString) (s : World β) : Decidable (TriggersOneByOne key s) := by
  unfold TriggersOneByOne
  split <;> infer_instance

instance [DecidableEq β] (key : GoString) (s : World β) (e : Event β) :
    Decidable (Timely key s e) := by
  cases e <;> unfold Timely <;> infer_instance

end KubeEdge.MetaServer
