import KubeEdge.Envoy.Store
import KubeEdge.Go.Machine
import KubeEdge.Kube.Objects

namespace KubeEdge.EdgeController.PodStatus
open Go Machine

inductive ConditionType
  | ready
  | initialized
  | other (name : GoString)
  deriving DecidableEq, Repr

/-- Times are nanoseconds. -/
structure PodCondition where
  type : ConditionType
  status : ConditionStatus
  lastProbeTime : ℕ := 0
  lastTransitionTime : ℕ := 0
  deriving DecidableEq, Repr

inductive Phase
  | pending
  | running
  | succeeded
  | failed
  | unknown
  deriving DecidableEq, Repr

structure ContainerState where
  /-- The time when it was started. -/
  running : Option ℕ := none
  /-- The times when it was started and finished. -/
  terminated : Option (ℕ × ℕ) := none
  waiting : Bool := false
  deriving DecidableEq, Repr

structure ContainerStatus where
  name : GoString
  state : ContainerState
  lastTerminationState : ContainerState := {}
  deriving DecidableEq, Repr

/-- `startTime` is `none` also for the zero time. -/
structure Status where
  phase : Phase
  conditions : List PodCondition := []
  startTime : Option ℕ := none
  containerStatuses : List ContainerStatus := []
  initContainerStatuses : List ContainerStatus := []
  deriving DecidableEq, Repr

/-- `Rfc3339Copy`: whole seconds. -/
def rfc3339Copy (t : ℕ) : ℕ := t / 1000000000 * 1000000000

def normalizeContainerState (c : ContainerState) : ContainerState :=
  { c with
    running := c.running.map rfc3339Copy
    terminated := c.terminated.map fun (started, finished) =>
      (rfc3339Copy started, rfc3339Copy finished) }

def normalizeContainerStatus (c : ContainerStatus) : ContainerStatus :=
  { c with
    state := normalizeContainerState c.state
    lastTerminationState := normalizeContainerState c.lastTerminationState }

/-- The loop of `SortInitContainerStatuses`: the status of the next init container is swapped to
the place `current`. -/
def sortInitContainerStatuses : List GoString → ℕ → List ContainerStatus → List ContainerStatus
  | [], _, statuses => statuses
  | container :: containers, current, statuses =>
    match (statuses.drop current).findIdx? (·.name = container) with
    | none => sortInitContainerStatuses containers current statuses
    | some i =>
      match statuses[current]?, statuses[current + i]? with
      | some a, some b =>
        sortInitContainerStatuses containers (current + 1)
          ((statuses.set current b).set (current + i) a)
      | _, _ => statuses

def normalizePodStatus (initContainers : List GoString) (status : Status) : Status :=
  { status with
    startTime := status.startTime.map rfc3339Copy
    conditions := status.conditions.map fun c =>
      { c with
        lastProbeTime := rfc3339Copy c.lastProbeTime
        lastTransitionTime := rfc3339Copy c.lastTransitionTime }
    containerStatuses :=
      (status.containerStatuses.map normalizeContainerStatus).insertionSort
        fun a b => a.name ≤ b.name
    initContainerStatuses :=
      sortInitContainerStatuses initContainers 0
        (status.initContainerStatuses.map normalizeContainerStatus) }

/-- A condition whose status is the old one keeps its time; only the first condition of the type
is looked at. -/
def setTransitionTime (type : ConditionType) (now : ℕ) (old : List PodCondition) :
    List PodCondition → List PodCondition
  | [] => []
  | c :: cs =>
    if c.type = type then
      let time := match old.find? (·.type = type) with
        | some o => if c.status = o.status then o.lastTransitionTime else now
        | none => now
      { c with lastTransitionTime := time } :: cs
    else c :: setTransitionTime type now old cs

/-- A pod in the API server. -/
structure Pod where
  uid : GoString
  resourceVersion : ℕ
  deletionTimestamp : Option ℕ := none
  /-- The names of the init containers. -/
  initContainers : List GoString := []
  status : Status
  deriving DecidableEq, Repr

/-- The status that is written for a report: the start time does not change. -/
def newStatus (now : ℕ) (getPod : Pod) (status : Status) : Status :=
  let oldStatus := getPod.status
  let conditions := setTransitionTime .ready now oldStatus.conditions status.conditions
  let conditions := setTransitionTime .initialized now oldStatus.conditions conditions
  let startTime := match oldStatus.startTime with
    | some t => some t
    | none => some (status.startTime.getD now)
  normalizePodStatus getPod.initContainers { status with conditions, startTime }

def isPodNotRunning (statuses : List ContainerStatus) : Bool :=
  statuses.all fun c => c.state.terminated.isSome || c.state.waiting

structure PodStatusRequest where
  uid : GoString
  name : GoString
  status : Status
  deriving DecidableEq, Repr

/-- What the content of a message decodes to. -/
inductive Content
  | one (podStatus : PodStatusRequest)
  | many (podStatuses : List PodStatusRequest)
  | invalid
  deriving DecidableEq, Repr

structure Message where
  resource : GoString
  operation : GoString
  content : Content
  deriving DecidableEq, Repr

namespace Message

/-- An element of the resource path. -/
def token (m : Message) (i : ℕ) : Option GoString := (split 47 m.resource)[i]?

def getNodeID (m : Message) : Option GoString := m.token 1

def getNamespace (m : Message) : Option GoString := m.token 2

def getResourceName (m : Message) : GoString := (m.token 4).getD []

end Message

def unmarshalPodStatusMessage (m : Message) : GoString × List PodStatusRequest :=
  match m.getNamespace with
  | none => ([], [])
  | some ns =>
    if m.getResourceName = [] then
      match m.content with
      | .many podStatuses => (ns, podStatuses)
      | _ => (ns, [])
    else
      match m.content with
      | .one podStatus => (ns, [podStatus])
      | _ => (ns, [])

/-- A message on its way to a node. -/
inductive Down
  /-- A pod comes to the node, or a new version of it. -/
  | pod (node ns name uid : GoString)
  /-- The controller has not found the pod that `reported` was the UID of. -/
  | delete (node ns name reported : GoString)
  deriving DecidableEq, Repr

/-- What a goroutine of `updatePodStatus` does next; `rest` has the statuses of the message that
come after this one. -/
inductive Worker
  | idle
  | get (msg : Message) (ns : GoString) (podStatus : PodStatusRequest)
    (rest : List PodStatusRequest)
  | update (msg : Message) (ns : GoString) (podStatus : PodStatusRequest) (getPod : Pod)
    (rest : List PodStatusRequest)
  | delete (msg : Message) (ns : GoString) (podStatus : PodStatusRequest)
    (rest : List PodStatusRequest)
  deriving DecidableEq, Repr

/-- What becomes of a request to the API server; the answer to a request that was served can be
lost. -/
inductive Answer
  | ok
  | lost
  | failed
  deriving DecidableEq, Repr

inductive EffectKind
  | statusUpdated
  | podDeleted
  | removedAtEdge
  deriving DecidableEq, Repr

/-- What was done to the pod with this UID for a report about the pod `reported`. -/
structure Effect where
  kind : EffectKind
  uid : GoString
  reported : GoString
  deriving DecidableEq, Repr

structure World where
  /-- The pods in the API server, by namespace and name. -/
  pods : GoMap (GoString × GoString) Pod := ∅
  /-- The UIDs that the API server has given to pods. -/
  uids : List GoString := []
  resourceVersion : ℕ := 0
  /-- The UIDs of the pods at the edge, by node, namespace and name. -/
  edge : GoMap (GoString × GoString × GoString) GoString := ∅
  down : List Down := []
  podStatusChan : List Message := []
  workers : List Worker := []
  effects : List Effect := []

namespace World

def setWorker (s : World) (w : ℕ) (p : Worker) : World := { s with workers := s.workers.set w p }

/-- The loop over the statuses of a message. -/
def next (msg : Message) (ns : GoString) : List PodStatusRequest → Worker
  | [] => .idle
  | podStatus :: rest => .get msg ns podStatus rest

/-- The message that tells a node to delete a pod, where it can be addressed. -/
def deleteMessage (msg : Message) (ns : GoString) (podStatus : PodStatusRequest) : Option Down := do
  let node ← msg.getNodeID
  match Envoy.buildResource node ns (str "pod") podStatus.name with
  | .error _ => none
  | .ok _ => some (.delete node ns podStatus.name podStatus.uid)

/-- `UpdateStatus`: the API server takes it if the pod is the one that was read, unchanged. -/
def updateStatus (s : World) (ns : GoString) (podStatus : PodStatusRequest) (getPod : Pod)
    (status : Status) : Option (World × Pod) := do
  let pod ← s.pods.lookup (ns, podStatus.name)
  if pod.uid = getPod.uid ∧ pod.resourceVersion = getPod.resourceVersion then
    let pod := { pod with status, resourceVersion := s.resourceVersion + 1 }
    some ({ s with
      pods := s.pods.insert (ns, podStatus.name) pod
      resourceVersion := s.resourceVersion + 1
      effects := ⟨.statusUpdated, pod.uid, podStatus.uid⟩ :: s.effects }, pod)
  else none

/-- `Delete` without a grace period: whatever pod has the name. -/
def deletePod (s : World) (ns : GoString) (podStatus : PodStatusRequest) : World :=
  match s.pods.lookup (ns, podStatus.name) with
  | none => s
  | some pod =>
    { s with
      pods := s.pods.erase (ns, podStatus.name)
      effects := ⟨.podDeleted, pod.uid, podStatus.uid⟩ :: s.effects }

/-- A request of `updatePodStatus`, and what it does up to the next one. -/
def step (s : World) (w : ℕ) (answer : Answer) (now : ℕ) : Worker → Option World
  | .idle => none
  | .get msg ns podStatus rest =>
    if answer = .ok then
      match s.pods.lookup (ns, podStatus.name) with
      | some getPod => some (s.setWorker w (.update msg ns podStatus getPod rest))
      | none =>
        let s := { s with down := s.down ++ (deleteMessage msg ns podStatus).toList }
        some (s.setWorker w (next msg ns rest))
    else some (s.setWorker w (next msg ns rest))
  | .update msg ns podStatus getPod rest =>
    let status := newStatus now getPod podStatus.status
    match if answer = .failed then none else s.updateStatus ns podStatus getPod status with
    | none => some (s.setWorker w (next msg ns rest))
    | some (s, updatedPod) =>
      if answer = .ok ∧ updatedPod.deletionTimestamp.isSome ∧
          (status.phase = .succeeded ∨ status.phase = .failed) ∧
          isPodNotRunning status.containerStatuses then
        some (s.setWorker w (.delete msg ns podStatus rest))
      else some (s.setWorker w (next msg ns rest))
  | .delete msg ns podStatus rest =>
    if answer = .failed then some (s.setWorker w (next msg ns rest))
    else some ((s.deletePod ns podStatus).setWorker w (next msg ns rest))

def take (s : World) (w : ℕ) (msg : Message) : World :=
  let (ns, podStatuses) := unmarshalPodStatusMessage msg
  if msg.operation = str "update" then s.setWorker w (next msg ns podStatuses) else s

/-- `handlePod` at the edge: a pod is deleted by its name. -/
def receive (s : World) : Down → World
  | .pod node ns name uid => { s with edge := s.edge.insert (node, ns, name) uid }
  | .delete node ns name reported =>
    match s.edge.lookup (node, ns, name) with
    | none => s
    | some uid =>
      { s with
        edge := s.edge.erase (node, ns, name)
        effects := ⟨.removedAtEdge, uid, reported⟩ :: s.effects }

def reportMessage (node ns : GoString) (podStatuses : List PodStatusRequest) : Message :=
  match podStatuses with
  | [podStatus] =>
    { resource := join 47 [str "node", node, ns, str "podstatus", podStatus.name]
      operation := str "update", content := .one podStatus }
  | _ =>
    { resource := join 47 [str "node", node, ns, str "podstatus"]
      operation := str "update", content := .many podStatuses }

end World

inductive Event
  /-- The API server: a pod is made, a pod is to be deleted, a pod is written, a pod is gone. -/
  | create (ns name uid : GoString) (initContainers : List GoString) (status : Status)
  | terminate (ns name : GoString) (time : ℕ)
  | write (ns name : GoString) (status : Status)
  | remove (ns name : GoString)
  /-- The pod is sent to a node. -/
  | downstream (node ns name : GoString)
  | deliver (i : ℕ)
  | lose (i : ℕ)
  /-- The node drops a pod. -/
  | drop (node ns name : GoString)
  /-- The node reports on the pods that it has. -/
  | report (node ns : GoString) (podStatuses : List PodStatusRequest)
  | take (w i : ℕ)
  | step (w : ℕ) (answer : Answer) (now : ℕ)

/-- A step, where it can be taken.  Names are DNS names, and every pod gets a UID of its own. -/
def step (s : World) : Event → Option World
  | .create ns name uid initContainers status =>
    if s.pods.lookup (ns, name) = none ∧ uid ∉ s.uids then
      some { s with
        pods := s.pods.insert (ns, name)
          ⟨uid, s.resourceVersion + 1, none, initContainers, status⟩
        uids := uid :: s.uids
        resourceVersion := s.resourceVersion + 1 }
    else none
  | .terminate ns name time => do
    let pod ← s.pods.lookup (ns, name)
    some { s with
      pods := s.pods.insert (ns, name)
        { pod with deletionTimestamp := some time, resourceVersion := s.resourceVersion + 1 }
      resourceVersion := s.resourceVersion + 1 }
  | .write ns name status => do
    let pod ← s.pods.lookup (ns, name)
    some { s with
      pods := s.pods.insert (ns, name)
        { pod with status, resourceVersion := s.resourceVersion + 1 }
      resourceVersion := s.resourceVersion + 1 }
  | .remove ns name => some { s with pods := s.pods.erase (ns, name) }
  | .downstream node ns name => do
    let pod ← s.pods.lookup (ns, name)
    some { s with down := s.down ++ [.pod node ns name pod.uid] }
  | .deliver i => do
    let m ← s.down[i]?
    some (World.receive { s with down := s.down.eraseIdx i } m)
  | .lose i => some { s with down := s.down.eraseIdx i }
  | .drop node ns name => some { s with edge := s.edge.erase (node, ns, name) }
  | .report node ns podStatuses =>
    if IsDNSSubdomain node ∧ IsDNSLabel ns ∧ ∀ p ∈ podStatuses, IsDNSSubdomain p.name ∧
        s.edge.lookup (node, ns, p.name) = some p.uid then
      some { s with
        podStatusChan := s.podStatusChan ++ [World.reportMessage node ns podStatuses] }
    else none
  | .take w i =>
    match s.workers[w]? with
    | some .idle => do
      let msg ← s.podStatusChan[i]?
      some (World.take { s with podStatusChan := s.podStatusChan.eraseIdx i } w msg)
    | _ => none
  | .step w answer now => do
    let p ← s.workers[w]?
    s.step w answer now p

/-- The controller starts with this many goroutines. -/
def start (workers : ℕ) : World := { workers := List.replicate workers .idle }

/-- Whatever was done for a report was done to the pod that was reported on. -/
def Faithful (s : World) : Prop := ∀ e ∈ s.effects, e.uid = e.reported

def requestUIDs (name : GoString) (podStatuses : List PodStatusRequest) : List GoString :=
  podStatuses.filterMap fun p => if p.name = name then some p.uid else none

def Down.uid (ns name : GoString) : Down → Option GoString
  | .pod _ ns' name' uid => if ns' = ns ∧ name' = name then some uid else none
  | .delete _ ns' name' reported => if ns' = ns ∧ name' = name then some reported else none

def Message.uids (ns name : GoString) (m : Message) : List GoString :=
  if (unmarshalPodStatusMessage m).1 = ns then requestUIDs name (unmarshalPodStatusMessage m).2
  else []

def Worker.uids (ns name : GoString) : Worker → List GoString
  | .idle => []
  | .get _ ns' podStatus rest | .delete _ ns' podStatus rest =>
    if ns' = ns then requestUIDs name (podStatus :: rest) else []
  | .update _ ns' podStatus getPod rest =>
    if ns' = ns then
      (if podStatus.name = name then [getPod.uid] else []) ++ requestUIDs name (podStatus :: rest)
    else []

/-- The UIDs of the pods of this name that an edge node has, that a message is about or that a
goroutine works on. -/
def World.traces (s : World) (ns name : GoString) : List GoString :=
  (s.edge.entries.filterMap fun x => if x.1.2 = (ns, name) then some x.2 else none) ++
    s.down.filterMap (Down.uid ns name) ++
    s.podStatusChan.flatMap (Message.uids ns name) ++
    s.workers.flatMap (Worker.uids ns name)

/-- A pod is made under a name only when nothing of an earlier pod of the name is left. -/
def Quiet (s : World) : Event → Prop
  | .create ns name _ _ _ => s.traces ns name = []
  | _ => True

instance (s : World) (e : Event) : Decidable (Quiet s e) := by
  cases e <;> unfold Quiet <;> infer_instance

end KubeEdge.EdgeController.PodStatus
