import KubeEdge.Envoy.Naming

namespace KubeEdge.Envoy
open Go

structure SocketAddress where
  address : GoString
  ipv4Compat : Bool := false
  portValue : UInt32
  deriving DecidableEq

/-- `SocketAddress`: TCP, with IPv4 compatibility for `::`. -/
def socketAddress (address : GoString) (port : Int32) : SocketAddress :=
  if address = str "::" then { address, ipv4Compat := true, portValue := port.toUInt32 }
  else { address, portValue := port.toUInt32 }

structure LbEndpoint where
  endpoint : SocketAddress
  deriving DecidableEq

structure LocalityLbEndpoints where
  lbEndpoints : List LbEndpoint
  loadBalancingWeight : Option UInt32 := none
  deriving DecidableEq

structure ClusterLoadAssignment where
  clusterName : GoString
  endpoints : List LocalityLbEndpoints
  deriving DecidableEq

/-- `Endpoints`: one locality with an endpoint per address. -/
def endpoints (addrs : List SocketAddress) : List LocalityLbEndpoints :=
  [{ lbEndpoints := addrs.map fun a => ⟨a⟩ }]

def clusterLoadAssignmentName (ns name portName : GoString) : GoString :=
  if portName = [] then join 47 [ns, name] else join 47 [ns, name, portName]

inductive ApiVersion
  | auto
  | V2
  | V3
  deriving DecidableEq

inductive ApiType
  | rest
  | grpc
  deriving DecidableEq

structure ConfigSource where
  resourceApiVersion : ApiVersion
  apiType : ApiType
  transportApiVersion : ApiVersion
  grpcServices : List GoString
  deriving DecidableEq

def configSource (cluster : GoString) : ConfigSource where
  resourceApiVersion := .V3
  apiType := .grpc
  transportApiVersion := .V3
  grpcServices := [cluster]

def controlPlaneCluster : GoString := str "envoyingresscontroller"

/-- `envoy_tls_v3.Secret` with a TLS certificate; `none` is a nil slice. -/
structure TlsSecret where
  name : GoString
  privateKey : Option (List UInt8)
  certificateChain : Option (List UInt8)
  deriving DecidableEq

def tlsPrivateKeyKey : GoString := str "tls.key"

def caCertificateKey : GoString := str "ca.crt"

/-- `Secret`. -/
def tlsSecret (H : Digest) (s : Secret) : TlsSecret where
  name := secretname H s
  privateKey := s.index tlsPrivateKeyKey
  certificateChain := s.index tlsCertKey

structure SdsSecretConfig where
  name : GoString
  sdsConfig : ConfigSource
  deriving DecidableEq

inductive TlsProtocol
  | auto
  | v1_0
  | v1_1
  | v1_2
  | v1_3
  deriving DecidableEq

structure TlsParameters where
  minimum : TlsProtocol
  maximum : TlsProtocol
  deriving DecidableEq

structure CertificateValidationContext where
  trustedCa : List UInt8
  matchSubjectAltNames : List GoString
  deriving DecidableEq

structure CommonTlsContext where
  tlsParams : Option TlsParameters := none
  alpnProtocols : List GoString
  tlsCertificateSdsSecretConfigs : List SdsSecretConfig
  validationContext : Option CertificateValidationContext := none
  deriving DecidableEq

structure UpstreamTlsContext where
  commonTlsContext : CommonTlsContext
  sni : GoString
  deriving DecidableEq

structure DownstreamTlsContext where
  commonTlsContext : CommonTlsContext
  requireClientCertificate : Option Bool := none
  deriving DecidableEq

def getCACertificate : Option PeerValidationContext → Option (List UInt8)
  | none => none
  | some pvc => pvc.caCertificate.bind fun ca => ca.index caCertificateKey

def getSubjectName : Option PeerValidationContext → GoString
  | none => []
  | some pvc => pvc.subjectName

def validationContext (ca : List UInt8) (subjectName : GoString) :
    CertificateValidationContext where
  trustedCa := ca
  matchSubjectAltNames := if 0 < subjectName.length then [subjectName] else []

def upstreamTLSContext (H : Digest) (pvc : Option PeerValidationContext) (sni : GoString)
    (clientSecret : Option Secret) (alpnProtocols : List GoString) : UpstreamTlsContext where
  sni := sni
  commonTlsContext :=
    { alpnProtocols
      tlsCertificateSdsSecretConfigs := clientSecret.toList.map fun s =>
        { name := secretname H s, sdsConfig := configSource controlPlaneCluster }
      validationContext :=
        match getCACertificate pvc with
        | some ca =>
          if 0 < (getSubjectName pvc).length then some (validationContext ca (getSubjectName pvc))
          else none
        | none => none }

def downstreamTLSContext (H : Digest) (serverSecret : Secret) (tlsMinProtoVersion : TlsProtocol)
    (pvc : Option PeerValidationContext) (alpnProtos : List GoString) : DownstreamTlsContext where
  commonTlsContext :=
    { tlsParams := some ⟨tlsMinProtoVersion, .v1_3⟩
      tlsCertificateSdsSecretConfigs :=
        [{ name := secretname H serverSecret, sdsConfig := configSource controlPlaneCluster }]
      alpnProtocols := alpnProtos
      validationContext := (getCACertificate pvc).map fun ca => validationContext ca [] }
  requireClientCertificate := (getCACertificate pvc).map fun _ => true

inductive TlsContext
  | upstream (c : UpstreamTlsContext)
  | downstream (c : DownstreamTlsContext)
  deriving DecidableEq

structure TransportSocket where
  name : GoString
  typedConfig : TlsContext
  deriving DecidableEq

/-- `UpstreamTLSTransportSocket`, `DownstreamTLSTransportSocket`. -/
def tlsTransportSocket (tls : TlsContext) : TransportSocket :=
  ⟨str "envoy.transport_sockets.tls", tls⟩

inductive LbPolicy
  | roundRobin
  | leastRequest
  | random
  | ringHash
  deriving DecidableEq

def lbPolicy (strategy : GoString) : LbPolicy :=
  if strategy = str "WeightedLeastRequest" then .leastRequest
  else if strategy = str "Random" then .random
  else if strategy = str "Cookie" ∨ strategy = str "RequestHash" then .ringHash
  else .roundRobin

inductive DiscoveryType
  | static
  | strictDNS
  | eds
  deriving DecidableEq

structure EdsClusterConfig where
  edsConfig : ConfigSource
  serviceName : GoString
  deriving DecidableEq

inductive HttpProtocolOptions
  | explicitHttp2
  deriving DecidableEq

structure Cluster where
  name : GoString := []
  altStatName : GoString := []
  connectTimeoutNanos : Int32
  healthyPanicThreshold : ℕ
  lbPolicy : LbPolicy
  clusterDiscoveryType : DiscoveryType := .static
  edsClusterConfig : Option EdsClusterConfig := none
  loadAssignment : Option ClusterLoadAssignment := none
  transportSocket : Option TransportSocket := none
  typedExtensionProtocolOptions : List (GoString × HttpProtocolOptions) := []
  deriving DecidableEq

def clusterDefaults : Cluster where
  connectTimeoutNanos := 250000
  healthyPanicThreshold := 0
  lbPolicy := lbPolicy (str "RoundRobin")

def http2ProtocolOptions : List (GoString × HttpProtocolOptions) :=
  [(str "envoy.extensions.upstreams.http.v3.HttpProtocolOptions", .explicitHttp2)]

def altStatName (service : Service) (servicePort : ServicePort) : GoString :=
  join 95 [service.ns, service.name, itoa servicePort.port.toInt]

def edsconfig (cluster : GoString) (service : Service) (servicePort : ServicePort) :
    EdsClusterConfig where
  edsConfig := configSource cluster
  serviceName := clusterLoadAssignmentName service.ns service.name servicePort.name

def staticClusterLoadAssignment (service : Service) (servicePort : ServicePort) :
    ClusterLoadAssignment where
  endpoints := endpoints [socketAddress service.externalName servicePort.port]
  clusterName := clusterLoadAssignmentName service.ns service.name servicePort.name

inductive RouteMatch
  | path (p : GoString)
  | safeRegex (regex : GoString)
  | prefix_ (p : GoString)
  deriving DecidableEq

/-- A route and the cluster its action sends to. -/
structure Route where
  routeMatch : RouteMatch
  cluster : GoString
  deriving DecidableEq

structure VirtualHost where
  name : GoString
  domains : List GoString
  routes : List Route
  deriving DecidableEq

structure HeaderValueOption where
  key : GoString
  value : GoString
  append : Bool
  deriving DecidableEq

structure RouteConfiguration where
  name : GoString
  virtualHosts : List VirtualHost
  requestHeadersToAdd : List HeaderValueOption
  deriving DecidableEq

def routeConfiguration (name : GoString) (virtualHosts : List VirtualHost) :
    RouteConfiguration where
  name := name
  virtualHosts := virtualHosts
  requestHeadersToAdd := [⟨str "x-request-start", str "t=%START_TIME(%s.%3f)%", true⟩]

inductive HTTPVersionType
  | auto
  | http1
  | http2
  | http3
  deriving DecidableEq

/-- `ProtoNamesForVersions`; without arguments, or with `AUTO`, both protocols. -/
def protoNamesForVersions (versions : List HTTPVersionType) : List GoString :=
  if versions = [] ∨ .auto ∈ versions then [str "h2", str "http/1.1"]
  else (if .http2 ∈ versions then [str "h2"] else []) ++
    (if .http1 ∈ versions then [str "http/1.1"] else [])

structure HttpConnectionManager where
  statPrefix : GoString
  codecType : HTTPVersionType
  routeConfigName : GoString
  configSource : ConfigSource
  httpFilters : List (GoString × GoString)
  deriving DecidableEq

/-- The connection manager both listeners use: routes come from `ingress_http`. -/
def httpCm : HttpConnectionManager where
  statPrefix := controlPlaneCluster
  codecType := .auto
  routeConfigName := envoyHTTPListener
  configSource := configSource controlPlaneCluster
  httpFilters :=
    [(str "router", str "type.googleapis.com/envoy.extensions.filters.http.router.v3.Router")]

structure Filter where
  name : GoString
  typedConfig : HttpConnectionManager
  deriving DecidableEq

def httpConnectionManagerFilter : Filter :=
  ⟨str "envoy.filters.network.http_connection_manager", httpCm⟩

structure FilterChain where
  filters : List Filter
  serverNames : Option (List GoString) := none
  transportSocket : Option TransportSocket := none
  deriving DecidableEq

def filterChainTLS (domain : GoString) (downstream : Option DownstreamTlsContext)
    (filters : List Filter) : FilterChain where
  filters := filters
  serverNames := some [domain]
  transportSocket := downstream.map fun d => tlsTransportSocket (.downstream d)

structure SocketOption where
  description : GoString
  level : ℕ
  name : ℕ
  value : ℕ
  deriving DecidableEq

/-- `TCPKeepaliveSocketOptions`, all in the listening state. -/
def tcpKeepaliveSocketOptions : List SocketOption :=
  [⟨str "Enable TCP keep-alive", 0x1, 0x9, 1⟩,
    ⟨str "TCP keep-alive initial idle time", 6, 0x4, 45⟩,
    ⟨str "TCP keep-alive time between probes", 6, 0x5, 5⟩,
    ⟨str "TCP keep-alive probe count", 6, 0x6, 9⟩]

structure Listener where
  name : GoString
  address : SocketAddress
  socketOptions : List SocketOption
  filterChains : List FilterChain
  deriving DecidableEq

/-- `Listener`; the listener filters are nil at every call. -/
def listener (name address : GoString) (port : Int32) (filters : List Filter) : Listener where
  name := name
  address := socketAddress address port
  socketOptions := tcpKeepaliveSocketOptions
  filterChains := if 0 < filters.length then [{ filters }] else []

/-- `IsEnvoyResource`: the message a resource carries. -/
inductive Spec
  | secret (s : TlsSecret)
  | endpoint (c : ClusterLoadAssignment)
  | cluster (c : Cluster)
  | route (r : RouteConfiguration)
  | listener (l : Listener)
  deriving DecidableEq

/-- The name go-control-plane indexes the message by. -/
def Spec.xdsName : Spec → GoString
  | .secret s => s.name
  | .endpoint c => c.clusterName
  | .cluster c => c.name
  | .route r => r.name
  | .listener l => l.name

/-- The kind of a message; of the listeners only the https ones are called `ingress_https`. -/
def Spec.kind : Spec → Kind
  | .secret _ => .secret
  | .endpoint _ => .endpoint
  | .cluster _ => .cluster
  | .route _ => .route
  | .listener l => if l.name = envoyHTTPSListener then .httpsListener else .httpListener

structure Resource where
  name : GoString
  ns : GoString
  resourceVersion : GoString
  nodeGroup : GoSet GoString
  ingressRef : GoSet GoString
  spec : Spec

def Resource.key (r : Resource) : GoString := envoyResourceKeyFunc r.ns r.name

end KubeEdge.Envoy
