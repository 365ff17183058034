import KubeEdge.CloudHub.Routing
import KubeEdge.CloudHub.List

namespace KubeEdge.CloudHub.Nodes
open Go Machine ListLoop

/-- `queuePool`, `storePool`, `listQueuePool` and `listStorePool`. -/
inductive Pool
  | queue
  | store
  | listQueue
  | listStore
  deriving DecidableEq, Repr

/-- A call of `GetNodeQueue`, `GetNodeStore`, `GetNodeListQueue` or `GetNodeListStore`, with
the local variables of its caller: `serve` is the number of the `ServeConn` that started the
loop. -/
inductive Caller
  | addListQueue (msg : ℕ)
  | addListStore (msg nodeListQueue : ℕ)
  | addQueue (msg : ℕ)
  | addStore (msg nodeQueue : ℕ)
  | listLoopQueue (serve : ℕ)
  | listLoopStore (serve nodeListQueue : ℕ)
  | listLoopNodeQueue (serve nodeListQueue nodeListStore : ℕ)
  | writeLoopQueue
  | writeLoopStore (nodeQueue : ℕ)

def Caller.pool : Caller → Pool
  | .addListQueue .. | .listLoopQueue .. => .listQueue
  | .addListStore .. | .listLoopStore .. => .listStore
  | .addQueue .. | .listLoopNodeQueue .. | .writeLoopQueue => .queue
  | .addStore .. | .writeLoopStore .. => .store

/-- The variables of `ListMessageWriteLoop` outside its loop. -/
structure ListVars where
  nodeID : GoString
  serve : ℕ
  nodeListQueue : ℕ
  nodeListStore : ℕ
  nodeQueue : ℕ

/-- The variables of `MessageWriteLoop` outside its loop. -/
structure WriteVars where
  nodeID : GoString
  nodeQueue : ℕ
  nodeStore : ℕ

/-- What a goroutine does next, with the local variables it still needs. -/
inductive Point
  | load (nodeID : GoString) (k : Caller)
  | create (nodeID : GoString) (k : Caller)
  -- addListMessageToQueue
  | listAdd (msg nodeListQueue nodeListStore : ℕ)
  | listEnqueue (key : GoString) (nodeListQueue : ℕ)
  -- addMessageToQueue
  | check (nodeID : GoString) (msg nodeQueue nodeStore : ℕ)
  | add (key : GoString) (msg nodeQueue nodeStore : ℕ)
  | enqueue (key : GoString) (nodeQueue : ℕ)
  -- ListMessageWriteLoop
  | listGet (v : ListVars)
  | listFind (v : ListVars) (key : GoString)
  | listTrim (v : ListVars) (key : GoString) (msg : ℕ)
  | listConn (v : ListVars) (key : GoString) (msg : ℕ)
  | listSend (v : ListVars) (key : GoString) (msg conn : ℕ)
  | listDelete (v : ListVars) (key : GoString) (msg : ℕ)
  | listDone (v : ListVars) (key : GoString)
  | shutDownQueue (v : ListVars)
  | shutDownList (v : ListVars)
  | stopServe (v : ListVars)
  -- MessageWriteLoop and sendMsg
  | get (v : WriteVars)
  | find (v : WriteVars) (key : GoString)
  | conn (v : WriteVars) (key : GoString) (msg : ℕ) (copyMsg : Message)
  | send (v : WriteVars) (key : GoString) (msg : ℕ) (copyMsg : Message) (hi retry : ℕ)
  | wait (v : WriteVars) (key : GoString) (msg : ℕ) (copyMsg : Message) (hi retry : ℕ)
  | saveSuccessPoint (v : WriteVars) (key : GoString) (msg : ℕ)
  | done (v : WriteVars) (key : GoString)
  /-- `KeepaliveCheckLoop` waits for the heart beat of the node. -/
  | keepalive (nodeID : GoString)
  -- OnRegister
  | onRegister (nodeID : GoString) (conn : ℕ)
  | storeConn (nodeID : GoString) (conn : ℕ) (registered : Bool)
  -- ServeConn: RegisterNode with Connect, the handlers, UnregisterNode with Close
  | serveConn (nodeID : GoString)
  | connectLoad (nodeID : GoString) (todo missing : List Pool)
  | connectStore (nodeID : GoString) (missing : List Pool)
  | storeLock (nodeID : GoString)
  | storeRegistered (nodeID : GoString)
  | exitServe (nodeID : GoString) (serve : ℕ)
  | deleteLock (nodeID : GoString)
  | deleteConn (nodeID : GoString)
  | deleteRegistered (nodeID : GoString)
  | closeLoad (nodeID : GoString) (todo found : List Pool)
  | closeDelete (nodeID : GoString) (found : List Pool)

/-- A message that a write loop has written to a connection. -/
structure Write where
  conn : ℕ
  msg : ℕ
  resource : GoString
  deriving DecidableEq, Repr

structure Hub where
  pools : Pool → GoMap GoString ℕ := fun _ => ∅
  /-- The pool and the node that each queue and each store was made for. -/
  made : List (Pool × GoString) := []
  queue : ℕ → Workqueue GoString Unit := fun _ => {}
  shutDown : ℕ → Bool := fun _ => false
  store : ℕ → GoMap GoString ℕ := fun _ => ∅
  /-- The messages that pointers point to. -/
  heap : List Message := []
  /-- The messages as the dispatcher received them, with what it found out about them. -/
  received : List (Message × Option (GoString × QueueKind)) := []
  nodeConns : GoMap GoString ℕ := ∅
  nodeLocks : GoSet GoString := ∅
  nodeRegistered : GoSet GoString := ∅
  /-- The node id that each connection registered with. -/
  connections : List GoString := []
  /-- The calls of `ServeConn` that have started their handlers, and those that were told to
  stop. -/
  serves : ℕ := 0
  exits : List ℕ := []
  /-- The goroutines that were started and have not run yet. -/
  spawned : List Point := []
  objectSyncs : ObjectSyncs := ∅
  written : List Write := []

/-- The caller goes on with the queue or store it got. -/
def Caller.next (nodeID : GoString) (o : ℕ) : Caller → Point
  | .addListQueue msg => .load nodeID (.addListStore msg o)
  | .addListStore msg q => .listAdd msg q o
  | .addQueue msg => .load nodeID (.addStore msg o)
  | .addStore msg q => .check nodeID msg q o
  | .listLoopQueue serve => .load nodeID (.listLoopStore serve o)
  | .listLoopStore serve q => .load nodeID (.listLoopNodeQueue serve q o)
  | .listLoopNodeQueue serve q st => .listGet ⟨nodeID, serve, q, st, o⟩
  | .writeLoopQueue => .load nodeID (.writeLoopStore o)
  | .writeLoopStore q => .get ⟨nodeID, q, o⟩

namespace Hub

/-- A new queue or store, which the pool has from now on. -/
def make (s : Hub) (pool : Pool) (nodeID : GoString) : Hub :=
  { s with
    pools := Function.update s.pools pool ((s.pools pool).insert nodeID s.made.length)
    made := s.made ++ [(pool, nodeID)]
    queue := Function.update s.queue s.made.length {}
    shutDown := Function.update s.shutDown s.made.length false
    store := Function.update s.store s.made.length ∅ }

def setQueue (s : Hub) (o : ℕ) (q : Workqueue GoString Unit) : Hub :=
  { s with queue := Function.update s.queue o q }

def setStore (s : Hub) (o : ℕ) (m : GoMap GoString ℕ) : Hub :=
  { s with store := Function.update s.store o m }

/-- A queue that was shut down takes no keys. -/
def addKey (s : Hub) (o : ℕ) (key : GoString) : Hub :=
  if s.shutDown o then s else s.setQueue o ((s.queue o).add key)

def release (s : Hub) (o : ℕ) (key : GoString) : Hub :=
  -- the delay of a key is over
  if s.shutDown o then s else s.setQueue o ((s.queue o).release key)

/-- The message of a store under the key of another one, as `addMessageToQueue` reads it. -/
def inStore (s : Hub) (o : ℕ) (m : Message) : NodeQueue :=
  let found : Option Stored := do
    let key ← m.getMsgKey
    let msg ← (s.store o).lookup key
    let stored ← s.heap[msg]?
    some ⟨key, msg, stored⟩
  { nodeStore := match found with
      | none => ∅
      | some x => AList.singleton x.key x
    objectSyncs := s.objectSyncs }

/-- A message comes into the memory of the cloud hub. -/
def receive (s : Hub) (m : Message) (text : Option GoString) : Hub :=
  { s with
    heap := s.heap ++ [m]
    received := s.received ++ [(m, dispatchMessage m text)] }

/-- `hubIoWrite` needs the lock of the node. -/
def hubIoWrite (s : Hub) (nodeID : GoString) (w : Write) : Option Hub :=
  if nodeID ∈ s.nodeLocks then some { s with written := w :: s.written } else none

end Hub

/-- What `DispatchMessage` does with a message before it looks anything up. -/
def dispatch (msg : ℕ) (m : Message) (text : Option GoString) : Option Point :=
  match dispatchMessage m text with
  | none => none
  | some (nodeID, .listQueue) => some (.load nodeID (.addListQueue msg))
  | some (nodeID, .nodeQueue) =>
    if m.resourceVersion = [] ∧ ¬ m.isDeleteMessage then none
    else some (.load nodeID (.addQueue msg))

def allPools : List Pool := [.queue, .store, .listQueue, .listStore]

/-- A step of a goroutine.  `ok` is what only the environment decides: whether `WriteData`
works, whether the answer of the edge comes before the timer, whether the heart beat of the
node fails to come.  There is no step where the goroutine blocks or the process panics. -/
def exec (s : Hub) (ok : Bool) : Point → Option (Hub × Option Point)
  | .load nodeID k =>
    match (s.pools k.pool).lookup nodeID with
    | some o => some (s, some (k.next nodeID o))
    | none => some (s, some (.create nodeID k))
  | .create nodeID k => some (s.make k.pool nodeID, some (k.next nodeID s.made.length))
  | .listAdd msg q st => do
    let m ← s.heap[msg]?
    some (s.setStore st ((s.store st).insert m.id msg), some (.listEnqueue m.id q))
  | .listEnqueue key q => some (s.addKey q key, none)
  | .check nodeID msg q st => do
    let m ← s.heap[msg]?
    let accepted ← (accepts nodeID m (s.inStore st m)).toOption
    some (s, accepted.map fun key => .add key msg q st)
  | .add key msg q st => some (s.setStore st ((s.store st).insert key msg), some (.enqueue key q))
  | .enqueue key q => some (s.addKey q key, none)
  | .listGet v =>
    match (s.queue v.nodeListQueue).get () with
    | some (key, q) => some (s.setQueue v.nodeListQueue q, some (.listFind v key))
    | none => if s.shutDown v.nodeListQueue then some (s, none) else none
  | .listFind v key =>
    match (s.store v.nodeListStore).lookup key with
    | none => some (s, some (.listGet v))
    | some msg => some (s, some (.listTrim v key msg))
  | .listTrim v key msg => do
    let m ← s.heap[msg]?
    if isNodeStopped m then some (s, some (.shutDownQueue v))
    else if ¬ m.isToEdge then some (s, some (.listGet v))
    else some ({ s with heap := s.heap.set msg (trimMessage m) }, some (.listConn v key msg))
  | .listConn v key msg =>
    match s.nodeConns.lookup v.nodeID with
    | none => some (s, some (.listGet v))
    | some conn => some (s, some (.listSend v key msg conn))
  | .listSend v key msg conn => do
    let m ← s.heap[msg]?
    let s := if ok then (s.hubIoWrite v.nodeID ⟨conn, msg, m.resource⟩).getD s else s
    some (s, some (.listDelete v key msg))
  | .listDelete v key msg => do
    let m ← s.heap[msg]?
    some (s.setStore v.nodeListStore ((s.store v.nodeListStore).erase m.id),
      some (.listDone v key))
  | .listDone v key =>
    some (s.setQueue v.nodeListQueue ((s.queue v.nodeListQueue).done key), some (.listGet v))
  | .shutDownQueue v =>
    some ({ s with shutDown := Function.update s.shutDown v.nodeQueue true },
      some (.shutDownList v))
  | .shutDownList v =>
    some ({ s with shutDown := Function.update s.shutDown v.nodeListQueue true },
      some (.stopServe v))
  | .stopServe v => some ({ s with exits := v.serve :: s.exits }, none)
  | .get v =>
    match (s.queue v.nodeQueue).get () with
    | some (key, q) => some (s.setQueue v.nodeQueue q, some (.find v key))
    | none => if s.shutDown v.nodeQueue then some (s, none) else none
  | .find v key =>
    match (s.store v.nodeStore).lookup key with
    | none => some (s, some (.done v key))
    | some msg => do
      let m ← s.heap[msg]?
      if ¬ m.isToEdge then some (s, some (.done v key))
      else some (s, some (.conn v key msg (trimMessage m)))
  | .conn v key msg copyMsg =>
    match s.nodeConns.lookup v.nodeID with
    | none => some (s, some (.conn v key msg copyMsg))
    | some hi => some (s, some (.send v key msg copyMsg hi 0))
  | .send v key msg copyMsg hi retry =>
    match if ok then s.hubIoWrite v.nodeID ⟨hi, msg, copyMsg.resource⟩ else none with
    | some s => some (s, some (.wait v key msg copyMsg hi retry))
    | none =>
      some (s.setQueue v.nodeQueue ((s.queue v.nodeQueue).addRateLimited key),
        some (.done v key))
  | .wait v key msg copyMsg hi retry =>
    if ok then some (s, some (.saveSuccessPoint v key msg))
    else if retry = 4 then some (s, some (.done v key))
    else some (s, some (.send v key msg copyMsg hi (retry + 1)))
  | .saveSuccessPoint v key msg => do
    let m ← s.heap[msg]?
    if m.group = str "resource" ∧ m.content.isSome ∧ m.operation = str "delete" then
      let stored := m.getMsgKey.getD []
      some (s.setStore v.nodeStore ((s.store v.nodeStore).erase stored), some (.done v key))
    else some (s, some (.done v key))
  | .done v key =>
    some (s.setQueue v.nodeQueue ((s.queue v.nodeQueue).done key), some (.get v))
  | .keepalive nodeID =>
    if ok then
      some ({ s with nodeConns := s.nodeConns.erase nodeID }, some (.keepalive nodeID))
    else some (s, none)
  | .onRegister nodeID conn =>
    some (s, some (.storeConn nodeID conn (decide (nodeID ∈ s.nodeRegistered))))
  | .storeConn nodeID conn registered =>
    let s := { s with nodeConns := s.nodeConns.insert nodeID conn }
    if registered then some (s, none)
    else some ({ s with spawned := s.spawned ++ [.serveConn nodeID] }, none)
  | .serveConn nodeID =>
    match s.nodeConns.lookup nodeID with
    | none => some (s, none)
    | some _ => some (s, some (.connectLoad nodeID allPools []))
  | .connectLoad nodeID [] missing => some (s, some (.connectStore nodeID missing))
  | .connectLoad nodeID (p :: todo) missing =>
    match (s.pools p).lookup nodeID with
    | some _ => some (s, some (.connectLoad nodeID todo missing))
    | none => some (s, some (.connectLoad nodeID todo (missing ++ [p])))
  | .connectStore nodeID [] => some (s, some (.storeLock nodeID))
  | .connectStore nodeID (p :: missing) =>
    some (s.make p nodeID, some (.connectStore nodeID missing))
  | .storeLock nodeID =>
    some ({ s with nodeLocks := GoSet.add nodeID s.nodeLocks }, some (.storeRegistered nodeID))
  | .storeRegistered nodeID =>
    some ({ s with
      nodeRegistered := GoSet.add nodeID s.nodeRegistered
      serves := s.serves + 1
      spawned := s.spawned ++ [.keepalive nodeID, .load nodeID .writeLoopQueue,
        .load nodeID (.listLoopQueue s.serves)] }, some (.exitServe nodeID s.serves))
  | .exitServe nodeID serve =>
    if serve ∈ s.exits then some (s, some (.deleteLock nodeID)) else none
  | .deleteLock nodeID =>
    some ({ s with nodeLocks := s.nodeLocks.erase nodeID }, some (.deleteConn nodeID))
  | .deleteConn nodeID =>
    some ({ s with nodeConns := s.nodeConns.erase nodeID }, some (.deleteRegistered nodeID))
  | .deleteRegistered nodeID =>
    some ({ s with nodeRegistered := s.nodeRegistered.erase nodeID },
      some (.closeLoad nodeID allPools []))
  | .closeLoad nodeID [] found => some (s, some (.closeDelete nodeID found))
  | .closeLoad nodeID (p :: todo) found =>
    match (s.pools p).lookup nodeID with
    | some _ => some (s, some (.closeLoad nodeID todo (found ++ [p])))
    | none => some (s, some (.closeLoad nodeID todo found))
  | .closeDelete _ [] => some (s, none)
  | .closeDelete nodeID (p :: found) =>
    some ({ s with pools := Function.update s.pools p ((s.pools p).erase nodeID) },
      some (.closeDelete nodeID found))

/-- Goroutine 0 is the dispatcher. -/
structure World where
  hub : Hub := {}
  goroutines : ℕ → Option Point := fun _ => none

inductive Event
  /-- The dispatcher receives a message; `text` is the content where it is a string. -/
  | receive (msg : Message) (text : Option GoString)
  /-- A connection with this node id is opened. -/
  | connect (nodeID : GoString)
  /-- A goroutine that was started gets its number. -/
  | start (g i : ℕ)
  | step (g : ℕ) (ok : Bool)
  /-- The delay of a key that a write loop has failed to send is over. -/
  | release (o : ℕ) (key : GoString)
  | informer (objectSyncs : ObjectSyncs)

/-- A step of the cloud hub, where it can be taken.  `NewMessage` gives every message an
identifier of its own. -/
def step (s : World) : Event → Option World
  | .receive m text =>
    if (s.goroutines 0).isNone ∧ ∀ x ∈ s.hub.received, x.1.id ≠ m.id then
      some
        { hub := s.hub.receive m text
          goroutines :=
            Function.update s.goroutines 0 (dispatch s.hub.received.length m text) }
    else none
  | .connect nodeID =>
    some { s with hub := { s.hub with
      connections := s.hub.connections ++ [nodeID]
      spawned := s.hub.spawned ++ [.onRegister nodeID s.hub.connections.length] } }
  | .start g i =>
    if g ≠ 0 ∧ (s.goroutines g).isNone then do
      let point ← s.hub.spawned[i]?
      some
        { hub := { s.hub with spawned := s.hub.spawned.eraseIdx i }
          goroutines := Function.update s.goroutines g (some point) }
    else none
  | .step g ok => do
    let point ← s.goroutines g
    let (hub, next) ← exec s.hub ok point
    some ⟨hub, Function.update s.goroutines g next⟩
  | .release o key =>
    if key ∈ (s.hub.queue o).waiting then
      some { s with hub := s.hub.release o key }
    else none
  | .informer objectSyncs => some { s with hub := { s.hub with objectSyncs } }

/-- What was written is a message that was received; if its resource path is one of the node
`m`, it went to a connection of `m`, under the rest of the path. -/
def Confined (s : World) : Prop :=
  ∀ w ∈ s.hub.written, ∃ msg found, s.hub.received[w.msg]? = some (msg, found) ∧
    ∀ m rest, m ≠ [] → 47 ∉ m → rest ≠ [] →
      msg.resource = str "node" ++ 47 :: (m ++ 47 :: rest) →
        s.hub.connections[w.conn]? = some m ∧ w.resource = rest

end KubeEdge.CloudHub.Nodes
