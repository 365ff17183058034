import KubeEdge.Envoy.Generated
import KubeEdge.Envoy.Location

namespace KubeEdge.Envoy
open Go

/-- `sync.RWMutex`: who holds it. -/
structure RWMutex where
  readers : ℕ := 0
  writer : Bool := false
  deriving DecidableEq

namespace RWMutex

def lock (m : RWMutex) : M RWMutex :=
  if m.readers = 0 ∧ m.writer = false then .ok { m with writer := true } else .error .deadlock

def rLock (m : RWMutex) : M RWMutex :=
  if m.writer = false then .ok { m with readers := m.readers + 1 } else .error .deadlock

end RWMutex

structure Controller where
  lc : LocationCache := {}
  resourceStore : Indexer Resource (·.key) := ∅
  resourceStoreLock : RWMutex := {}
  ingressToResourceNameStore : GoMap GoString (GoSet GoString) := ∅
  ingressNodeGroupStore : GoMap GoString (GoSet GoString) := ∅
  queue : GoSet GoString := ∅
  resourceQueue : GoSet GoString := ∅

namespace Controller

/-- `ingressToResourceNameStore[key]`. -/
def names (c : Controller) (key : GoString) : GoSet GoString :=
  (c.ingressToResourceNameStore.lookup key).getD ∅

/-- `resourceStore[r]`. -/
def entry (c : Controller) (r : GoString) : Option Resource := c.resourceStore.get r

def enqueueEnvoyResource (c : Controller) (resource : Resource) : Controller :=
  { c with resourceQueue := GoSet.add resource.key c.resourceQueue }

/-- Store a resource under its key, or write to the one stored there. -/
def setEntry (c : Controller) (resource : Resource) : Controller :=
  { c with resourceStore := c.resourceStore.put resource }

def setNames (c : Controller) (key : GoString) (names : GoSet GoString) : Controller :=
  { c with ingressToResourceNameStore := c.ingressToResourceNameStore.insert key names }

end Controller

/-- `delete(resource.IngressRef, key)`. -/
def Resource.release (key : GoString) (resource : Resource) : Resource :=
  { resource with ingressRef := resource.ingressRef.erase key }

/-- One turn of the loop over the resources of a deleted ingress.  A key that is not in
the store is skipped without releasing the lock. -/
def releaseTurn (key : GoString) (c : Controller) (r : GoString) : M Controller := do
  let lock ← c.resourceStoreLock.lock
  match c.entry r with
  | none => .ok { c with resourceStoreLock := lock }
  | some resource =>
    let resource := resource.release key
    let c := c.setEntry resource
    .ok (if GoSet.isEmpty resource.ingressRef then c.enqueueEnvoyResource resource else c)

/-- One turn of the loop over the recorded resources of an ingress: those that were not
generated again are released, and their name is forgotten if no other ingress refers to
them. -/
def staleTurn (key : GoString) (fresh : List GoString) (c : Controller) (r : GoString) :
    M Controller :=
  if r ∈ fresh then .ok c
  else do
    let _ ← c.resourceStoreLock.lock
    match c.entry r with
    | none => .ok c
    | some resource =>
      let resource := resource.release key
      let c := c.setEntry resource
      .ok (if GoSet.isEmpty resource.ingressRef then
        (c.setNames key ((c.names key).erase r)).enqueueEnvoyResource resource
      else c)

/-- Insertion of a new resource: the one branch that records its name. -/
def createResource (key : GoString) (c : Controller) (resource : Resource) : Controller :=
  let resource := { resource with ingressRef := GoSet.add key resource.ingressRef }
  ((c.setEntry resource).setNames key
    (GoSet.add resource.key (c.names key))).enqueueEnvoyResource resource

/-- One turn of the insertion loop of `syncEnvoyIngress`. -/
def insertResource (key : GoString) (c : Controller) (resource : Resource) : Controller :=
  match c.entry resource.key with
  | none => createResource key c resource
  | some res =>
    let res := { res with
      ingressRef := GoSet.add key res.ingressRef
      spec := resource.spec
      resourceVersion := resource.resourceVersion }
    (c.setEntry res).enqueueEnvoyResource res

/-- The groups recorded for an ingress: those that are the name of a Ready node. -/
def recordedGroups (lc : LocationCache) (ingress : Ingress) : GoSet GoString :=
  GoSet.ofList ((nodeGroupsOf ingress).filter fun g => lc.getNodeStatus g = some .true)

/-- `syncEnvoyIngress` once the ingress is found; `gen` are the calls that collect its
resources. -/
def syncFoundIngress (gen : Ingress → M (List Resource)) (key : GoString) (ingress : Ingress)
    (c : Controller) : M (Controller × Option GoString) :=
  if isEnvoyIngress ingress then do
    let envoyResources ← gen ingress
    let resourceKeys := (c.names key).keys
    let c := c.setNames key (c.names key)
    let c ← loopM (staleTurn key (envoyResources.map (·.key))) resourceKeys c
    let c := { c with
      ingressNodeGroupStore := c.ingressNodeGroupStore.insert key (recordedGroups c.lc ingress) }
    let _ ← c.resourceStoreLock.lock
    .ok (envoyResources.foldl (insertResource key) c, none)
  else
    .ok (c, some (str "ingress " ++ ingress.name ++ str " in namespace " ++ ingress.ns ++
      str " is not an envoy ingress"))

/-- `syncEnvoyIngress` when neither lister has the ingress. -/
def syncDeletedIngress (key : GoString) (c : Controller) : M (Controller × Option GoString) := do
  let envoyResources := c.names key
  let c ← loopM (releaseTurn key) envoyResources.keys
    { c with ingressToResourceNameStore := c.ingressToResourceNameStore.erase key }
  .ok ({ c with ingressToResourceNameStore := c.ingressToResourceNameStore.erase key }, none)

/-- The ingress of a key: a v1 one, else a converted v1beta1 one. -/
def findIngress (L : Listers) (k : GoString × GoString) : Option Ingress :=
  (L.ingresses.get k).or ((L.v1beta1Ingresses.get k).map toV1Ingress)

/-- `syncEnvoyIngress` with what is collected: the new state and the returned error. -/
def syncWith (gen : Ingress → M (List Resource)) (L : Listers) (key : GoString) (c : Controller) :
    M (Controller × Option GoString) :=
  match splitMetaNamespaceKey key with
  | none => .ok (c, some (str "unexpected key format: " ++ 34 :: key ++ [34]))
  | some k =>
    match findIngress L k with
    | none => syncDeletedIngress key c
    | some ingress => syncFoundIngress gen key ingress c

def syncEnvoyIngress (H : Digest) (L : Listers) (key : GoString) (c : Controller) :
    M (Controller × Option GoString) :=
  syncWith (envoyResourcesForIngress H L) L key c

/-- One turn of the loop of `initiateEnvoyResources`: an existing resource is enqueued
only when its message changes. -/
def initiateResource (key : GoString) (c : Controller) (resource : Resource) : Controller :=
  match c.entry resource.key with
  | none => createResource key c resource
  | some res =>
    if resource.spec = res.spec then
      c.setEntry { res with ingressRef := GoSet.add key res.ingressRef }
    else
      let res := { res with resourceVersion := resource.resourceVersion, spec := resource.spec }
      (c.enqueueEnvoyResource res).setEntry { res with ingressRef := GoSet.add key res.ingressRef }

/-- The groups `addIngress` and `initiateEnvoyResources` record. -/
def recordGroups (key : GoString) (groups : List GoString)
    (store : GoMap GoString (GoSet GoString)) : GoMap GoString (GoSet GoString) :=
  if groups = [] then store
  else store.insert key (groups.foldl (fun s g => GoSet.add g s) ((store.lookup key).getD ∅))

/-- The body of the loop of `initiateEnvoyResources`. -/
def initiateIngress (gen : Ingress → M (List Resource)) (c : Controller) (ingress : Ingress) :
    M Controller :=
  if isEnvoyIngress ingress then do
    let key := keyFunc ingress.toObjectMeta
    let c := { c with
      ingressNodeGroupStore := recordGroups key (nodeGroupsOf ingress) c.ingressNodeGroupStore }
    let envoyResource ← gen ingress
    .ok (envoyResource.foldl (initiateResource key) (c.setNames key ∅))
  else .ok c

/-- `initiateEnvoyResources` with what is collected. -/
def initiateWith (gen : Ingress → M (List Resource)) (L : Listers) (c : Controller) :
    M Controller :=
  loopM (initiateIngress gen) (mergeIngresses L.ingresses.objects L.v1beta1Ingresses.objects) c

def initiateEnvoyResources (H : Digest) (L : Listers) (c : Controller) : M Controller :=
  initiateWith (envoyResourcesForIngress H L) L c

inductive Operation
  | insert
  | delete
  deriving DecidableEq, Repr

/-- A call of `dispatchResource`. -/
structure Dispatch where
  resource : Resource
  opr : Operation
  node : GoString

def buildResource (nodeID ns resourceType resourceID : GoString) : Result GoString :=
  if ns = [] ∨ resourceType = [] ∨ nodeID = [] then
    .error (str "required parameter are not set (node id, namespace or resource type)")
  else
    let resource := join 47 [str "node", nodeID, ns, resourceType]
    .ok (if resourceID = [] then resource else resource ++ 47 :: resourceID)

def resourceType : Spec → GoString
  | .secret _ => str "Secret"
  | .endpoint _ => str "Endpoint"
  | .cluster _ => str "Cluster"
  | .route _ => str "Route"
  | .listener _ => str "Listener"

/-- The resource path `dispatchResource` addresses its message with. -/
def Dispatch.path (d : Dispatch) : Result GoString :=
  buildResource d.node d.resource.ns (resourceType d.resource.spec) (str "envoy" ++ d.resource.name)

/-- The error `dispatchResource` returns, if any; sending itself does not fail. -/
def Dispatch.error (d : Dispatch) : Option GoString :=
  match d.path with
  | .error e => some e
  | .ok _ => none

/-- The nodes a resource of these groups is sent to: members whose recorded status is True. -/
def nodesToSend (lc : LocationCache) (nodegroup : GoSet GoString) : GoSet GoString :=
  GoSet.ofList (nodegroup.keys.flatMap fun g =>
    (lc.members g).filter fun node => lc.getNodeStatus node = some .true)

/-- `syncEnvoyResource`: the new state, the dispatches and the returned error.  A
missing key returns with the read lock held. -/
def syncEnvoyResource (r : GoString) (c : Controller) :
    M (Controller × List Dispatch × Option GoString) := do
  let lock ← c.resourceStoreLock.rLock
  match c.entry r with
  | none =>
    .ok ({ c with resourceStoreLock := lock }, [],
      some (str "failed to get resource " ++ r ++ str " in resource store"))
  | some resource =>
    let opr := if GoSet.isEmpty resource.ingressRef then Operation.delete else .insert
    let c :=
      if GoSet.isEmpty resource.ingressRef then { c with resourceStore := c.resourceStore.remove r }
      else c
    let dispatches := (nodesToSend c.lc resource.nodeGroup).keys.map fun node =>
      Dispatch.mk resource opr node
    .ok (c, dispatches, (dispatches.filterMap Dispatch.error).getLast?)

namespace Controller

variable (c : Controller) (R : Resource) (k key r : GoString) (s : GoSet GoString)

@[simp] theorem entry_setEntry : (c.setEntry R).entry r = if r = R.key then some R else c.entry r :=
  Indexer.get_put _ _ _

@[simp] theorem entry_setNames : (c.setNames k s).entry r = c.entry r := rfl

@[simp] theorem entry_enqueue : (c.enqueueEnvoyResource R).entry r = c.entry r := rfl

@[simp] theorem names_setEntry : (c.setEntry R).names k = c.names k := rfl

@[simp] theorem names_setNames : (c.setNames key s).names k = if k = key then s else c.names k := by
  unfold names setNames
  rw [GoMap.lookup_insert]
  split_ifs <;> rfl

@[simp] theorem names_enqueue : (c.enqueueEnvoyResource R).names k = c.names k := rfl

@[simp] theorem resourceQueue_setEntry : (c.setEntry R).resourceQueue = c.resourceQueue := rfl

@[simp] theorem resourceQueue_setNames : (c.setNames k s).resourceQueue = c.resourceQueue := rfl

@[simp] theorem resourceQueue_enqueue :
    (c.enqueueEnvoyResource R).resourceQueue = GoSet.add R.key c.resourceQueue := rfl

end Controller

theorem Controller.key_of_entry {c : Controller} {r : GoString} {R : Resource}
    (h : c.entry r = some R) : R.key = r :=
  (Indexer.get_eq_some.mp h).2

@[simp] theorem Resource.release_key (key : GoString) (R : Resource) :
    (R.release key).key = R.key := rfl

end KubeEdge.Envoy
