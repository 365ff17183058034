import KubeEdge.Envoy.Xds

namespace KubeEdge.Envoy
open Go

def envoyIngressControllerName : GoString := str "envoyingress"

def ingressClassAnnotation : GoString := str "kubernetes.io/ingress.class"

def envoyIngressNodeGroupAnnotation : GoString := str "v1alpha1.kubeedge.io/nodegroup"

def serviceHTTPProtocolAnnotation : GoString := str "v1alpha1.kubeedge.io/httpprotocol"

def serviceHealthCheckPathAnnotation : GoString := str "v1alpha1.kubeedge.io/healthcheck"

/-- The class test every entry point makes. -/
def isEnvoyIngress (ingress : Ingress) : Bool :=
  index ingress.annotations ingressClassAnnotation = envoyIngressControllerName

def serviceBackendPort : IntOrString → ServiceBackendPort
  | .string v => { name := v }
  | .int v => { number := v }

def toV1Backend (b : V1beta1.IngressBackend) : IngressBackend :=
  ⟨some ⟨b.serviceName, serviceBackendPort b.servicePort⟩⟩

def toV1Path (p : V1beta1.HTTPIngressPath) : HTTPIngressPath where
  path := p.path
  pathType := some (p.pathType.getD .implementationSpecific)
  backend := toV1Backend p.backend

def toV1Ingress (obj : V1beta1.Ingress) : Ingress where
  toObjectMeta := obj.toObjectMeta
  defaultBackend := obj.backend.map toV1Backend
  tls := obj.tls
  rules := obj.rules.map fun r => { host := r.host, http := r.http.map (List.map toV1Path) }

/-- The v1 ingresses of a list and the converted v1beta1 ones behind them. -/
def mergeIngresses (v1 : List Ingress) (v1beta1 : List V1beta1.Ingress) : List Ingress :=
  v1 ++ v1beta1.map toV1Ingress

/-- The inner loop over the paths of a rule, left at the first hit. -/
def ruleNamesService (service : GoString) (rule : IngressRule) : M Bool := do
  let paths ← deref rule.http
  anyM (fun path => do
    let backend ← deref path.backend.service
    .ok (backend.name = service)) paths

def defaultBackendNames (ingress : Ingress) (service : GoString) : Bool :=
  match ingress.defaultBackend.bind (·.service) with
  | some backend => backend.name = service
  | none => false

/-- The test of `getServicesForIngress`. -/
def isServiceMatchIngress (ingress : Ingress) (service : Service) : M Bool :=
  if service.ns ≠ ingress.ns then .ok false
  else if defaultBackendNames ingress service.name then .ok true
  else anyM (ruleNamesService service.name) ingress.rules

/-- The test of `getIngressesForService`. -/
def isIngressMatchService (service : Service) (ingress : Ingress) : M Bool :=
  if ingress.ns ≠ service.ns then .ok false
  else if ingress.rules ≠ [] ∧ ¬ defaultBackendNames ingress service.name then
    anyM (ruleNamesService service.name) ingress.rules
  else .ok (defaultBackendNames ingress service.name)

theorem isIngressMatchService_eq (service : Service) (ingress : Ingress) :
    isIngressMatchService service ingress = isServiceMatchIngress ingress service := by
  unfold isIngressMatchService isServiceMatchIngress
  by_cases hns : service.ns = ingress.ns
  · cases hd : defaultBackendNames ingress service.name with
    | true => simp [hns]
    | false =>
      cases hrules : ingress.rules with
      | nil => simp [hns, anyM]
      | cons rule rules => simp [hns]
  · simp [hns, Ne.symm hns]

def getIngressesForService (L : Listers) (service : Service) : M (List Ingress) :=
  if (service.selector.map fun s => s.entries.length).getD 0 = 0 then .ok []
  else filterM
    (fun ingress =>
      if isEnvoyIngress ingress then isIngressMatchService service ingress else .ok false)
    (mergeIngresses (listByNamespace L.ingresses service.ns)
      (listByNamespace L.v1beta1Ingresses service.ns))

/-- `err` for an empty list, the list otherwise. -/
def nonEmptyOr {α : Type} (err : GoString) (l : List α) : Result (List α) :=
  if l.isEmpty then .error err else .ok l

def getServicesForIngress (L : Listers) (ingress : Ingress) : M (Result (List Service)) := do
  let services ← filterM (isServiceMatchIngress ingress) (listByNamespace L.services ingress.ns)
  .ok (nonEmptyOr (str "could not find services for ingress " ++ ingress.name ++
    str " in namespace " ++ ingress.ns) services)

def getIngressesForSecret (L : Listers) (secret : Secret) : List Ingress :=
  (mergeIngresses (listByNamespace L.ingresses secret.ns)
    (listByNamespace L.v1beta1Ingresses secret.ns)).filter fun ingress =>
      isEnvoyIngress ingress && ingress.tls.any fun tls => tls.secretName = secret.name

/-- The non-empty `;`-separated groups of the annotation. -/
def nodeGroupsOf (ingress : Ingress) : List GoString :=
  (split 59 (index ingress.annotations envoyIngressNodeGroupAnnotation)).filter (· ≠ [])

def getNodeGroupForIngress (ingress : Ingress) : Result (GoSet GoString) :=
  let nodegroup := GoSet.ofList (nodeGroupsOf ingress)
  if GoSet.isEmpty nodegroup then
    .error (str "ingress " ++ ingress.name ++ str " in namespace " ++ ingress.ns ++
      str " doesn't have nodegroup annotation")
  else .ok nodegroup

def secretResource (H : Digest) (ingress : Ingress) (nodegroup : GoSet GoString) (secret : Secret) :
    Resource where
  name := (tlsSecret H secret).name
  ns := ingress.ns
  resourceVersion := secret.resourceVersion
  nodeGroup := nodegroup
  ingressRef := GoSet.single (keyFunc ingress.toObjectMeta)
  spec := .secret (tlsSecret H secret)

def getSecretsForIngress (H : Digest) (L : Listers) (ingress : Ingress) :
    Result (List Resource) := do
  let nodegroup ← getNodeGroupForIngress ingress
  .ok (ingress.tls.filterMap fun tls =>
    (L.secrets.get (ingress.ns, tls.secretName)).map (secretResource H ingress nodegroup))

/-- The endpoints of one service port: those of every matching endpoint port. -/
def lbEndpointsFor (servicePort : ServicePort) (endpoints : Endpoints) : List LbEndpoint :=
  endpoints.subsets.flatMap fun s =>
    s.ports.flatMap fun p =>
      if servicePort.protocol ≠ p.protocol ∧ p.protocol ≠ .TCP then []
      else if servicePort.name ≠ [] ∧ servicePort.name ≠ p.name then []
      else (s.addresses.insertionSort fun a b => a.ip ≤ b.ip).map fun a =>
        ⟨socketAddress a.ip p.port⟩

def endpointResource (H : Digest) (ingress : Ingress) (nodegroup : GoSet GoString)
    (service : Service)
    (lbs : List LbEndpoint) : Resource where
  name := endpointName H service
  ns := service.ns
  resourceVersion := service.resourceVersion
  nodeGroup := nodegroup
  ingressRef := GoSet.single (keyFunc ingress.toObjectMeta)
  spec := .endpoint
    { clusterName := service.ns ++ 45 :: service.name
      endpoints := [{ lbEndpoints := lbs, loadBalancingWeight := some 1 }] }

/-- The loop over the ports of a service.  The variable is declared outside both
loops: it keeps its value when there is no port or no Endpoints object. -/
def clusterLoadAssignmentFor (H : Digest) (L : Listers) (ingress : Ingress)
    (nodegroup : GoSet GoString) (service : Service) (cla : Option Resource) : Option Resource :=
  service.ports.foldl (fun cla servicePort =>
    match L.endpoints.get (service.ns, service.name) with
    | none => cla
    | some endpoints =>
      some (endpointResource H ingress nodegroup service
        (lbEndpointsFor servicePort endpoints))) cla

/-- The loop over the services, appending whatever the variable holds. -/
def clusterLoadAssignments (H : Digest) (L : Listers) (ingress : Ingress)
    (nodegroup : GoSet GoString) : Option Resource → List Service → List Resource
  | _, [] => []
  | cla, service :: services =>
    let cla := clusterLoadAssignmentFor H L ingress nodegroup service cla
    cla.toList ++ clusterLoadAssignments H L ingress nodegroup cla services

def getEndpointsForIngress (H : Digest) (L : Listers) (ingress : Ingress) :
    M (Result (List Resource)) :=
  match getNodeGroupForIngress ingress with
  | .error e => .ok (.error e)
  | .ok nodegroup => do
    match ← getServicesForIngress L ingress with
    | .error e => .ok (.error e)
    | .ok services =>
      .ok (nonEmptyOr (str "cloudn't get clusterLoadAssignment for ingress " ++ ingress.name ++
        str " in namespace " ++ ingress.ns)
        (clusterLoadAssignments H L ingress nodegroup none services))

/-- A map that is filled and not read again; what matters is that filling it
follows `rule.HTTP`. -/
def host2ServiceName : List IngressRule → GoMap GoString (GoSet GoString) →
    M (GoMap GoString (GoSet GoString))
  | [], m => .ok m
  | rule :: rules, m =>
    if rule.host = [] then host2ServiceName rules m
    else do
      let paths ← deref rule.http
      let names := (paths.filterMap (·.backend.service)).filterMap fun b =>
        if b.name = [] then none else some b.name
      host2ServiceName rules
        (names.foldl (fun m n => m.insert rule.host (GoSet.add n ((m.lookup rule.host).getD ∅))) m)

def healthCheckPolicy (service : Service) : Option HTTPHealthCheckPolicy :=
  let path := index service.annotations serviceHealthCheckPathAnnotation
  if path = [] then none
  else some { path, interval := 5, timeout := 30, unhealthyThreshold := 3, healthyThreshold := 1 }

/-- The host of the last rule that has a path to the service. -/
def sniFor (service : GoString) : List IngressRule → GoString → M GoString
  | [], sni => .ok sni
  | rule :: rules, sni => do
    let hit ← ruleNamesService service rule
    sniFor service rules (if hit then rule.host else sni)

/-- The secret name of the last TLS entry with that host. -/
def secretNameFor (tls : List IngressTLS) (sni : GoString) : GoString :=
  if sni = [] then [] else tls.foldl (fun name t => if sni ∈ t.hosts then t.secretName else name) []

def clusterSecret (L : Listers) (ingress : Ingress) (sni : GoString) : Option Secret :=
  let secretName := secretNameFor ingress.tls sni
  if secretName = [] then none else L.secrets.get (ingress.ns, secretName)

def clusterValidation (protocol : GoString) (sec : Option Secret) (sni : GoString) :
    Option PeerValidationContext :=
  if protocol = str "tls" ∨ protocol = str "h2" then sec.map fun s => ⟨some s, sni⟩ else none

/-- The cluster of one service port, without its name. -/
def clusterOf (H : Digest) (service : Service) (servicePort : ServicePort) (sni : GoString)
    (sec : Option Secret) : Cluster :=
  let protocol := index service.annotations serviceHTTPProtocolAnnotation
  let uv := clusterValidation protocol sec sni
  let cluster := { clusterDefaults with altStatName := altStatName service servicePort }
  let cluster :=
    if service.externalName = [] then
      { cluster with
        clusterDiscoveryType := .eds
        edsClusterConfig := some (edsconfig controlPlaneCluster service servicePort) }
    else
      { cluster with
        clusterDiscoveryType := .strictDNS
        loadAssignment := some (staticClusterLoadAssignment service servicePort) }
  if protocol = str "tls" then
    { cluster with
      transportSocket :=
        some (tlsTransportSocket (.upstream (upstreamTLSContext H uv sni sec []))) }
  else if protocol = str "h2" then
    { cluster with
      typedExtensionProtocolOptions := http2ProtocolOptions
      transportSocket :=
        some (tlsTransportSocket (.upstream (upstreamTLSContext H uv sni sec [str "h2"]))) }
  else if protocol = str "h2c" then
    { cluster with typedExtensionProtocolOptions := http2ProtocolOptions }
  else cluster

def clusterResource (H : Digest) (L : Listers) (ingress : Ingress) (nodegroup : GoSet GoString)
    (service : Service) (servicePort : ServicePort) : M Resource := do
  let sni ← sniFor service.name ingress.rules []
  let sec := clusterSecret L ingress sni
  let uv := clusterValidation (index service.annotations serviceHTTPProtocolAnnotation) sec sni
  let name ← clustername H service servicePort [] (healthCheckPolicy service) uv
  .ok
    { name
      ns := ingress.ns
      resourceVersion := service.resourceVersion
      nodeGroup := nodegroup
      ingressRef := GoSet.single (keyFunc ingress.toObjectMeta)
      spec := .cluster { clusterOf H service servicePort sni sec with name } }

def getClustersForIngress (H : Digest) (L : Listers) (ingress : Ingress) :
    M (Result (List Resource)) :=
  match getNodeGroupForIngress ingress with
  | .error e => .ok (.error e)
  | .ok nodegroup => do
    match ← getServicesForIngress L ingress with
    | .error e => .ok (.error e)
    | .ok services =>
      let _ ← host2ServiceName ingress.rules ∅
      let clusters ← mapM (fun service =>
        mapM (clusterResource H L ingress nodegroup service) service.ports) services
      .ok (nonEmptyOr (str "cloudn't get clusters for ingress " ++ ingress.name ++
        str " in namespace " ++ ingress.ns) clusters.flatten)

def host2Secret (tls : List IngressTLS) : GoMap GoString GoString :=
  tls.foldl (fun m t => t.hosts.foldl (fun m host =>
    if host = [] then m else m.insert host t.secretName) m) ∅

def routeValidation (L : Listers) (ingress : Ingress) (host : GoString) :
    Option PeerValidationContext :=
  match (host2Secret ingress.tls).lookup host with
  | some secretName => (L.secrets.get (ingress.ns, secretName)).map fun s => ⟨some s, host⟩
  | none => none

def routeMatchOf (path : GoString) (clusterName : GoString) : PathType → RouteMatch
  | .exact => .path path
  | .implementationSpecific => .safeRegex clusterName
  | .prefix_ => .prefix_ path

/-- The loop over the ports of a service: it overwrites one route. -/
def portRoutes (H : Digest) (service : Service) (path : HTTPIngressPath)
    (uv : Option PeerValidationContext) : List ServicePort → Option Route → M (Option Route)
  | [], route => .ok route
  | servicePort :: ports, _ => do
    let clusterName ← clustername H service servicePort [] (healthCheckPolicy service) uv
    let pathType ← deref path.pathType
    portRoutes H service path uv ports
      (some ⟨routeMatchOf path.path clusterName pathType, clusterName⟩)

/-- The routes of a path: a pointer to the one route per port. -/
def pathRoutes (H : Digest) (L : Listers) (ingress : Ingress) (host : GoString)
    (path : HTTPIngressPath) : M (List Route) := do
  let backend ← deref path.backend.service
  match L.services.get (ingress.ns, backend.name) with
  | none => .ok []
  | some service =>
    let route ← portRoutes H service path (routeValidation L ingress host) service.ports none
    -- every element is the same pointer, so all show what the last port wrote
    .ok (service.ports.flatMap fun _ => route.toList)

def ruleVirtualHost (H : Digest) (L : Listers) (ingress : Ingress) (rule : IngressRule) :
    M (Option VirtualHost) := do
  let paths ← deref rule.http
  let routes ← mapM (pathRoutes H L ingress rule.host) paths
  .ok (if routes.flatten.isEmpty then none
    else some
      { name := hashname H 60 [rule.host], domains := [rule.host], routes := routes.flatten })

def routeResource (H : Digest) (ingress : Ingress) (nodegroup : GoSet GoString)
    (virtualHosts : List VirtualHost) : Resource where
  name := routeName H ingress
  ns := ingress.ns
  resourceVersion := ingress.resourceVersion
  nodeGroup := nodegroup
  ingressRef := GoSet.single (keyFunc ingress.toObjectMeta)
  spec := .route (routeConfiguration envoyHTTPListener virtualHosts)

def getRouteForIngress (H : Digest) (L : Listers) (ingress : Ingress) : M (Result Resource) :=
  match getNodeGroupForIngress ingress with
  | .error e => .ok (.error e)
  | .ok nodegroup => do
    let virtualHosts ← mapM (ruleVirtualHost H L ingress) ingress.rules
    .ok ((nonEmptyOr (str "fail to create routeconfiguration virtualhosts for ingress " ++
      ingress.name ++ str " in namespace " ++ ingress.ns) (virtualHosts.filterMap id)).map
        (routeResource H ingress nodegroup))

/-- The secret name of the first TLS entry with the host of the rule. -/
def listenerSecretName (tls : List IngressTLS) (host : GoString) : Option GoString :=
  (tls.find? fun t => host ∈ t.hosts).map (·.secretName)

def listenerResource (H : Digest) (ingress : Ingress) (nodegroup : GoSet GoString) (kind : GoString)
    (backend : IngressServiceBackend) (spec : Listener) : Resource where
  name := listenerName H kind backend.port.number
  ns := ingress.ns
  resourceVersion := ingress.resourceVersion
  nodeGroup := nodegroup
  ingressRef := GoSet.single (keyFunc ingress.toObjectMeta)
  spec := .listener spec

def httpListener (H : Digest) (backend : IngressServiceBackend) : Listener :=
  listener (listenerName H envoyHTTPListener backend.port.number) defaultHTTPListenerAddress
    backend.port.number [httpConnectionManagerFilter]

/-- The https listener is called `ingress_https` on every port. -/
def httpsListener (H : Digest) (host : GoString) (secret : Secret)
    (backend : IngressServiceBackend) :
    Listener :=
  let downstreamTLS :=
    downstreamTLSContext H secret .v1_0 (some {}) (protoNamesForVersions [.auto])
  let l := listener envoyHTTPSListener defaultHTTPListenerAddress backend.port.number []
  { l with filterChains := l.filterChains ++
      [filterChainTLS host (some downstreamTLS) [httpConnectionManagerFilter]] }

def ruleListeners (H : Digest) (L : Listers) (ingress : Ingress) (nodegroup : GoSet GoString)
    (rule : IngressRule) : M (List Resource) := do
  let paths ← deref rule.http
  let backends := paths.filterMap (·.backend.service)
  let http := backends.map fun b =>
    listenerResource H ingress nodegroup envoyHTTPListener b (httpListener H b)
  match listenerSecretName ingress.tls rule.host with
  | none => .ok http
  | some secretName =>
    match L.secrets.get (ingress.ns, secretName) with
    | none => .ok http
    | some secret =>
      .ok (http ++ backends.map fun b =>
        listenerResource H ingress nodegroup envoyHTTPSListener b
          (httpsListener H rule.host secret b))

def getListenersForIngress (H : Digest) (L : Listers) (ingress : Ingress) :
    M (Result (List Resource)) :=
  match getNodeGroupForIngress ingress with
  | .error e => .ok (.error e)
  | .ok nodegroup => do
    let listeners ← mapM (ruleListeners H L ingress nodegroup) ingress.rules
    .ok (nonEmptyOr (str "fail to create listeners for ingress " ++ ingress.name ++
      str " in namespace " ++ ingress.ns) listeners.flatten)

/-- The values of the calls that returned no error. -/
def valuesOf {α : Type} : Result (List α) → List α
  | .ok l => l
  | .error _ => []

/-- The resources `syncEnvoyIngress` and `initiateEnvoyResources` collect. -/
def envoyResourcesForIngress (H : Digest) (L : Listers) (ingress : Ingress) :
    M (List Resource) := do
  let secrets := getSecretsForIngress H L ingress
  let endpoints ← getEndpointsForIngress H L ingress
  let clusters ← getClustersForIngress H L ingress
  let route ← getRouteForIngress H L ingress
  let listeners ← getListenersForIngress H L ingress
  .ok (valuesOf secrets ++ valuesOf endpoints ++ valuesOf clusters ++
    valuesOf (route.map ([·])) ++ valuesOf listeners)

namespace Sample

/-- SHA-1 of the texts that occur; no name here is long enough to need SHA-256. -/
def digest : Digest where
  sha1 b :=
    if b = str "certa.example" then
      [40, 219, 188, 43, 172, 181, 185, 66, 1, 155, 137, 103, 8, 153, 22, 255, 161, 78, 196, 250]
    else [218, 57, 163, 238, 94, 107, 75, 13, 50, 85, 191, 239, 149, 96, 24, 144, 175, 216, 7, 9]
  sha256 _ := List.replicate 32 0
  sha1_length _ := by split_ifs <;> rfl
  sha256_length _ := by simp

/-- The metadata of an object of the namespace `default`. -/
def objectMeta (name : GoString) (h : IsDNSSubdomain name)
    (annotations : GoMap GoString GoString := ∅) : ObjectMeta where
  name := name
  ns := str "default"
  annotations := annotations
  name_valid := h
  ns_valid := by decide +kernel

def ingressAnnotations (groups : GoString) : GoMap GoString GoString :=
  AList.insert ingressClassAnnotation envoyIngressControllerName
    (AList.singleton envoyIngressNodeGroupAnnotation groups)

def ruleTo (host service : GoString) : IngressRule where
  host := host
  http := some [⟨str "/", some .prefix_, ⟨some ⟨service, { number := 80 }⟩⟩⟩]

/-- An ingress called `web` that sends the host `a.example` to the service `svc`. -/
def web (groups : GoString) (tls : List IngressTLS) : Ingress where
  toObjectMeta := objectMeta (str "web") (by decide +kernel) (ingressAnnotations groups)
  tls := tls
  rules := [ruleTo (str "a.example") (str "svc")]

/-- The service `svc`, selecting by a label, with port 80. -/
def svc (annotations : GoMap GoString GoString) : Service where
  toObjectMeta := objectMeta (str "svc") (by decide +kernel) annotations
  ports := [⟨[], .TCP, 80⟩]
  selector := some (AList.singleton (str "app") (str "svc"))
  name_label := (by decide +kernel : IsDNSLabel (str "svc"))

/-- The secret `cert`, without data. -/
def cert : Secret where
  toObjectMeta := objectMeta (str "cert") (by decide +kernel)
  data := none

def tlsCert : List IngressTLS := [⟨[str "a.example"], str "cert"⟩]

def withService (annotations : GoMap GoString GoString) : Listers where
  services := ⟨[svc annotations], by simp⟩
  secrets := ⟨[cert], by simp⟩

end Sample

end KubeEdge.Envoy
