import KubeEdge.Envoy.Store
import KubeEdge.Go.Machine
import KubeEdge.Kube.Objects

namespace KubeEdge.EdgeController
open Go Machine

/-- The objects that are sent where they are used. -/
inductive Kind
  | configMap
  | secret
  deriving DecidableEq, Repr

/-- A place in a pod's spec that can name a configmap and a secret. -/
structure Source where
  configMap : Option GoString := none
  secret : Option GoString := none
  deriving DecidableEq, Repr

def Source.ref : Kind → Source → Option GoString
  | .configMap, r => r.configMap
  | .secret, r => r.secret

structure Volume where
  source : Source := {}
  /-- The sources of a projected volume. -/
  projected : List Source := []
  deriving DecidableEq, Repr

structure Container where
  /-- Where the values of the variables come from. -/
  env : List Source := []
  envFrom : List Source := []
  deriving DecidableEq, Repr

structure Pod extends ObjectMeta where
  nodeName : GoString
  volumes : List Volume := []
  containers : List Container := []
  initContainers : List Container := []
  imagePullSecrets : List GoString := []

/-- One of the two lists of `PodConfigMapsAndSecrets`: volumes, then the environments of the
containers, then the secrets that images are pulled with. -/
def podConfigMapsAndSecrets (pod : Pod) (kind : Kind) : List GoString :=
  pod.volumes.filterMap (·.source.ref kind) ++
    (pod.containers.flatMap (·.envFrom)).filterMap (·.ref kind) ++
    match kind with
    | .configMap => []
    | .secret => pod.imagePullSecrets

/-- The pod names the object in a volume, through `envFrom` or as an image pull secret. -/
def Pod.References (pod : Pod) (kind : Kind) (name : GoString) : Prop :=
  (∃ v ∈ pod.volumes, v.source.ref kind = some name) ∨
    (∃ c ∈ pod.containers, ∃ e ∈ c.envFrom, e.ref kind = some name) ∨
    kind = .secret ∧ name ∈ pod.imagePullSecrets

/-- The spec of the pod uses the object, in whatever place a spec can. -/
def Pod.Uses (pod : Pod) (kind : Kind) (name : GoString) : Prop :=
  (∃ v ∈ pod.volumes, v.source.ref kind = some name ∨ ∃ p ∈ v.projected, p.ref kind = some name) ∨
    (∃ c ∈ pod.containers ++ pod.initContainers, ∃ e ∈ c.env ++ c.envFrom,
      e.ref kind = some name) ∨
    kind = .secret ∧ name ∈ pod.imagePullSecrets

structure LocationCache where
  edgeNodes : GoMap GoString (Option ConditionStatus) := ∅
  /-- `configMapNode` and `secretNode`. -/
  nodes : Kind → GoMap GoString (List GoString) := fun _ => ∅

namespace LocationCache

/-- The key of an object in its map. -/
def key (ns name : GoString) : GoString := ns ++ 47 :: name

def newNodes (oldNodes : List GoString) (node : GoString) : List GoString :=
  if node ∈ oldNodes then oldNodes else oldNodes ++ [node]

/-- `ConfigMapNodes` and `SecretNodes`. -/
def objectNodes (lc : LocationCache) (kind : Kind) (ns name : GoString) : List GoString :=
  ((lc.nodes kind).lookup (key ns name)).getD []

def isEdgeNode (lc : LocationCache) (nodeName : GoString) : Bool := decide (nodeName ∈ lc.edgeNodes)

def updateEdgeNode (lc : LocationCache) (nodeName : GoString) (status : Option ConditionStatus) :
    LocationCache :=
  { lc with edgeNodes := lc.edgeNodes.insert nodeName status }

def setNodes (lc : LocationCache) (kind : Kind) (m : GoMap GoString (List GoString)) :
    LocationCache :=
  { lc with nodes := Function.update lc.nodes kind m }

/-- The list that a round of `AddOrUpdatePod` stores; `loaded` is what the map had. -/
def updatedNodes (loaded : Option (List GoString)) (node : GoString) : List GoString :=
  match loaded with
  | some nodes => newNodes nodes node
  | none => [node]

def storeNodes (lc : LocationCache) (kind : Kind) (key node : GoString)
    (loaded : Option (List GoString)) : LocationCache :=
  lc.setNodes kind ((lc.nodes kind).insert key (updatedNodes loaded node))

/-- `DeleteConfigMap` and `DeleteSecret`. -/
def deleteObject (lc : LocationCache) (kind : Kind) (ns name : GoString) : LocationCache :=
  lc.setNodes kind ((lc.nodes kind).erase (key ns name))

end LocationCache

inductive EventType
  | added
  | modified
  | deleted
  deriving DecidableEq, Repr

/-- What `syncPod` is doing; `todo` has the objects of the pod that are still to be added. -/
inductive PodPoint
  | idle
  | load (pod : Pod) (type : EventType) (todo : List (Kind × GoString))
  | store (pod : Pod) (type : EventType) (kind : Kind) (name : GoString)
    (loaded : Option (List GoString)) (todo : List (Kind × GoString))

/-- What `syncConfigMap` or `syncSecret` is doing. -/
inductive ObjectPoint
  | idle
  /-- The list of a deleted object was read. -/
  | delete (obj : ObjectMeta) (nodes : List GoString)

/-- What a message carries. -/
inductive Body
  | pod
  | object (kind : Kind)
  deriving DecidableEq, Repr

def Body.resourceType : Body → GoString
  | .pod => str "pod"
  | .object .configMap => str "configmap"
  | .object .secret => str "secret"

structure Sent where
  node : GoString
  body : Body
  ns : GoString
  name : GoString
  resourceVersion : GoString
  resource : GoString
  operation : GoString
  deriving DecidableEq, Repr

/-- What has happened, for the properties of runs. -/
inductive Entry
  /-- A pod was listed at the start or came with an event; `edge` tells whether its node was
  recorded as an edge node. -/
  | delivered (pod : Pod) (edge : Bool)
  | sent (m : Sent)

structure Downstream where
  lc : LocationCache := {}
  syncPod : PodPoint := .idle
  syncObject : Kind → ObjectPoint := fun _ => .idle
  /-- The pods that were delivered and not deleted, by namespace and name. -/
  pods : GoMap (GoString × GoString) Pod := ∅
  /-- The newest entry is the first. -/
  log : List Entry := []

namespace Downstream

def setLc (s : Downstream) (lc : LocationCache) : Downstream := { s with lc }

/-- A message for a node, if its resource can be built. -/
def message (node operation : GoString) (body : Body) (obj : ObjectMeta) : Option Sent :=
  match Envoy.buildResource node obj.ns body.resourceType obj.name with
  | .error _ => none
  | .ok resource =>
    some ⟨node, body, obj.ns, obj.name, obj.resourceVersion, resource, operation⟩

def send (s : Downstream) (ms : List Sent) : Downstream :=
  { s with log := (ms.map .sent).reverse ++ s.log }

def podOperation : EventType → GoString
  | .added => str "insert"
  | .modified => str "update"
  | .deleted => str "delete"

/-- `syncSecret` announces a new secret as an update. -/
def objectOperation : Kind → EventType → GoString
  | .configMap, .added => str "insert"
  | .secret, .added => str "update"
  | _, .modified => str "update"
  | _, .deleted => str "delete"

/-- The loop over the nodes in `syncConfigMap` and `syncSecret`. -/
def sendObject (s : Downstream) (kind : Kind) (type : EventType) (obj : ObjectMeta)
    (nodes : List GoString) : Downstream :=
  s.send (nodes.filterMap fun n => message n (objectOperation kind type) (.object kind) obj)

/-- The objects that `AddOrUpdatePod` goes through, configmaps first. -/
def podTodo (pod : Pod) : List (Kind × GoString) :=
  (podConfigMapsAndSecrets pod .configMap).map (Kind.configMap, ·) ++
    (podConfigMapsAndSecrets pod .secret).map (Kind.secret, ·)

/-- `syncPod` up to `AddOrUpdatePod`. -/
def podEvent (s : Downstream) (type : EventType) (pod : Pod) : Downstream :=
  let edge := s.lc.isEdgeNode pod.nodeName
  let s := { s with log := .delivered pod edge :: s.log }
  let skipped := { s with
    pods := match type with
      | .deleted => s.pods.erase pod.key
      | _ => s.pods.insert pod.key pod }
  if edge = false then skipped
  else
    match message pod.nodeName (podOperation type) .pod pod.toObjectMeta with
    | none => skipped
    | some m =>
      match type with
      | .deleted => skipped.send [m]
      | _ => { s with syncPod := .load pod type (podTodo pod) }

/-- The rest of `syncPod`. -/
def podStep (s : Downstream) : Option Downstream :=
  match s.syncPod with
  | .idle => none
  | .load pod type [] =>
    let s := { s with syncPod := .idle, pods := s.pods.insert pod.key pod }
    some (s.send (message pod.nodeName (podOperation type) .pod pod.toObjectMeta).toList)
  | .load pod type ((kind, name) :: todo) =>
    let loaded := (s.lc.nodes kind).lookup (LocationCache.key pod.ns name)
    some { s with syncPod := .store pod type kind name loaded todo }
  | .store pod type kind name loaded todo =>
    some { s with
      lc := s.lc.storeNodes kind (LocationCache.key pod.ns name) pod.nodeName loaded
      syncPod := .load pod type todo }

/-- `syncConfigMap` and `syncSecret`, for a deleted object only up to the deletion of its list. -/
def objectEvent (s : Downstream) (kind : Kind) (type : EventType) (obj : ObjectMeta) :
    Option Downstream :=
  match s.syncObject kind with
  | .delete .. => none
  | .idle =>
    let nodes := s.lc.objectNodes kind obj.ns obj.name
    match type with
    | .deleted =>
      some { s with syncObject := Function.update s.syncObject kind (.delete obj nodes) }
    | _ => some (s.sendObject kind type obj nodes)

def objectStep (s : Downstream) (kind : Kind) : Option Downstream :=
  match s.syncObject kind with
  | .idle => none
  | .delete obj nodes =>
    let s := { s with
      lc := s.lc.deleteObject kind obj.ns obj.name
      syncObject := Function.update s.syncObject kind .idle }
    some (s.sendObject kind .deleted obj nodes)

/-- The loop over the conditions in `syncEdgeNodes`, which a node that has become ready ends.
What it then sends are services, endpoints and pods. -/
def updateNode (lc : LocationCache) (name : GoString) : List NodeCondition → LocationCache
  | [] => lc
  | c :: conditions =>
    if c.type ≠ .ready then updateNode lc name conditions
    else
      let status := (lc.edgeNodes.lookup name).getD none
      let lc := lc.updateEdgeNode name (some c.status)
      if c.status ≠ .true ∨ status = some c.status then updateNode lc name conditions else lc

/-- `syncEdgeNodes`. -/
def nodeEvent (s : Downstream) (type : EventType) (node : Node) : Downstream :=
  match type with
  | .deleted => s.setLc { s.lc with edgeNodes := s.lc.edgeNodes.erase node.name }
  | _ => s.setLc (updateNode s.lc node.name node.conditions)

end Downstream

inductive Event
  | pod (type : EventType) (pod : Pod)
  | podStep
  | object (kind : Kind) (type : EventType) (obj : ObjectMeta)
  | objectStep (kind : Kind)
  | node (type : EventType) (node : Node)

/-- A step of one of the loops, where it can be taken: a loop takes the next event when it is
through with the last one. -/
def step (s : Downstream) : Event → Option Downstream
  | .pod type pod =>
    match s.syncPod with
    | .idle => some (s.podEvent type pod)
    | _ => none
  | .podStep => s.podStep
  | .object kind type obj => s.objectEvent kind type obj
  | .objectStep kind => s.objectStep kind
  | .node type node => some (s.nodeEvent type node)

/-- The first loop of `initLocating`.  A node without a ready condition gets the status of the
node before it. -/
def locateNodes : List Node → Option ConditionStatus → LocationCache → LocationCache
  | [], _, lc => lc
  | node :: nodes, status, lc =>
    let status := match node.conditions.find? (·.type = .ready) with
      | some c => some c.status
      | none => status
    locateNodes nodes status (lc.updateEdgeNode node.name status)

def storePodNode (pod : Pod) (lc : LocationCache) (object : Kind × GoString) : LocationCache :=
  lc.storeNodes object.1 (LocationCache.key pod.ns object.2) pod.nodeName
    ((lc.nodes object.1).lookup (LocationCache.key pod.ns object.2))

def addOrUpdatePod (lc : LocationCache) (pod : Pod) : LocationCache :=
  (Downstream.podTodo pod).foldl (storePodNode pod) lc

def locatePod (s : Downstream) (pod : Pod) : Downstream :=
  -- a round of the second loop
  let edge := s.lc.isEdgeNode pod.nodeName
  { s with
    lc := if edge then addOrUpdatePod s.lc pod else s.lc
    pods := s.pods.insert pod.key pod
    log := .delivered pod edge :: s.log }

/-- The state after `initLocating` has listed these nodes and pods. -/
def initLocating (nodes : List Node) (pods : List Pod) : Downstream :=
  pods.foldl locatePod { lc := locateNodes nodes none {} }

/-- The pod was delivered while its node was recorded as an edge node, and references the object
of a message for that node. -/
def Justifies (older : List Entry) (kind : Kind) (m : Sent) (pod : Pod) : Prop :=
  .delivered pod true ∈ older ∧ pod.nodeName = m.node ∧ pod.ns = m.ns ∧ pod.References kind m.name

/-- Every configmap and every secret was sent to a node for an earlier pod. -/
def Confined (s : Downstream) : Prop :=
  ∀ m older, .sent m :: older <:+ s.log → ∀ kind, m.body = .object kind →
    ∃ pod, Justifies older kind m pod

end KubeEdge.EdgeController
