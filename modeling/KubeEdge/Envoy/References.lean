import KubeEdge.Envoy.Clusters

namespace KubeEdge.Envoy
open Go

variable {H : Digest} {L : Listers} {ingress : Ingress} {secret : Secret} {service : Service}
  {host : GoString}

/-- Every cluster a route sends to is one of the clusters of the same ingress. -/
def RoutesNameClusters (H : Digest) (L : Listers) (ingress : Ingress) : Prop :=
  ∀ r, getRouteForIngress H L ingress = .ok (.ok r) → ∀ c ∈ routeClusters r.spec,
    ∃ clusters, getClustersForIngress H L ingress = .ok (.ok clusters) ∧
      ∃ C ∈ clusters, C.spec.xdsName = c

/-- Wherever a route is computed, the host of the rule adds the same text to the
cluster name as the last host of the service does, and a service that does not
speak TLS to its backends is reached under hosts without a secret only. -/
def TextsAgree (L : Listers) (ingress : Ingress) : Prop :=
  nodeGroupsOf ingress ≠ [] → Followed ingress → PathTypesSet L ingress →
    ∀ rule ∈ ingress.rules, ∀ service, Leads L ingress rule service → service.ports ≠ [] →
      hostText L ingress rule.host =
        if usesTLS service then hostText L ingress (lastHost ingress service.name) else []

/-- No two of the cluster names at hand are equal by an accident of hashing or cutting. -/
def NamesSeparate (H : Digest) (L : Listers) (ingress : Ingress) : Prop :=
  ∀ rule ∈ ingress.rules, ∀ service ∈ L.services.objects, ∀ service' ∈ L.services.objects,
    ∀ port ∈ service.ports, ∀ port' ∈ service'.ports,
      clusternameOf H service port (routeText L ingress service rule.host) =
        clusternameOf H service' port'
          (clusterText L ingress service' (lastHost ingress service'.name)) →
      service = service' ∧ routeText L ingress service rule.host =
        clusterText L ingress service' (lastHost ingress service'.name)

theorem Leads.mem {rule : IngressRule} (h : Leads L ingress rule service) :
    service ∈ L.services.objects ∧ service.ns = ingress.ns ∧ ruleNames service.name rule := by
  obtain ⟨paths, hp, path, hpath, backend, hb, hs⟩ := h
  obtain ⟨ho, hk⟩ := Indexer.get_eq_some.mp hs
  have hname : service.name = backend.name := congrArg Prod.snd hk
  refine ⟨ho, congrArg Prod.fst hk, ?_⟩
  simp only [ruleNames, hp, Option.getD_some, List.any_eq_true]
  exact ⟨path, hpath, by simp [hb, hname]⟩

/-- Routes name existing clusters when the texts agree, and only then unless two
names collide. -/
theorem routesNameClusters_iff_textsAgree (H : Digest) (L : Listers) (ingress : Ingress) :
    (TextsAgree L ingress → RoutesNameClusters H L ingress) ∧
    (NamesSeparate H L ingress → RoutesNameClusters H L ingress → TextsAgree L ingress) := by
  constructor
  · intro hagree r hr c hc
    have hg := (getRouteForIngress_ok hr).1
    obtain ⟨hf, hset⟩ := followed_of_getRouteForIngress hg hr
    obtain ⟨rule, hrule, service, hl, port, hport, rfl⟩ := (mem_routeClusters hr).mp hc
    obtain ⟨ho, hns, hn⟩ := hl.mem
    have hmem := List.mem_of_getLast? hport
    have hne := List.ne_nil_of_mem hmem
    have hm := hf.matches_of_ruleNames hns hrule hn
    obtain ⟨services, hs, hsv⟩ := hf.getServicesForIngress_returns ho hns hm
    obtain ⟨clusters, hcl⟩ :=
      getClustersForIngress_returns hg hs (hf.clustersDefined services) hsv hne
    refine ⟨clusters, hcl, (hf.mem_clusters hcl).mpr ⟨service, ho, hns, hm, port, hmem, ?_⟩⟩
    rw [routeText, clusterText, hagree hg hf hset rule hrule service hl hne]
  · intro hsep hroutes hg hf hset rule hrule service hl hne
    obtain ⟨r, hr⟩ := getRouteForIngress_returns hg hf hset hrule hl hne
    obtain ⟨port, hport⟩ := Option.ne_none_iff_exists'.mp (mt List.getLast?_eq_none_iff.mp hne)
    have hc := (mem_routeClusters hr).mpr ⟨rule, hrule, service, hl, port, hport, rfl⟩
    obtain ⟨clusters, hcl, hC⟩ := hroutes r hr _ hc
    obtain ⟨service', ho', -, -, port', hport', heq⟩ := (hf.mem_clusters hcl).mp hC
    obtain ⟨rfl, htext⟩ :=
      hsep rule hrule service hl.mem.1 service' ho' port (List.mem_of_getLast? hport) port' hport'
        heq
    exact List.append_cancel_left htext

namespace Sample

/-- The annotations of a service that is reached over TLS. -/
def tlsAnnotations : GoMap GoString GoString :=
  AList.singleton serviceHTTPProtocolAnnotation (str "tls")

end Sample

open Sample

/-- A service reached over TLS: the two names agree, and no other reason could make them. -/
theorem routesNameClusters_tls_service :
    NamesSeparate digest (withService tlsAnnotations)
      (web (str "edge") tlsCert) ∧
    RoutesNameClusters digest (withService tlsAnnotations)
      (web (str "edge") tlsCert) := by
  have htext : hostText (withService tlsAnnotations)
      (web (str "edge") tlsCert) (str "a.example") =
      if usesTLS (svc tlsAnnotations) then
        hostText (withService tlsAnnotations)
          (web (str "edge") tlsCert)
          (lastHost (web (str "edge") tlsCert) (str "svc"))
      else [] := by decide +kernel
  refine ⟨?_, (routesNameClusters_iff_textsAgree _ _ _).1 ?_⟩
  · intro rule hrule service hs service' hs' port hp port' hp' _
    obtain rfl := List.mem_singleton.mp hrule
    obtain rfl := List.mem_singleton.mp hs
    obtain rfl := List.mem_singleton.mp hs'
    exact ⟨rfl, congrArg (healthCheckText (healthCheckPolicy _) ++ ·) htext⟩
  · intro _ _ _ rule hrule service hl _
    obtain rfl := List.mem_singleton.mp hrule
    obtain rfl := List.mem_singleton.mp hl.mem.1
    exact htext

/-- A service without a protocol annotation behind a TLS host: the route hashes the
secret into the cluster name, the cluster does not. -/
theorem route_names_missing_cluster :
    ¬ RoutesNameClusters digest (withService ∅)
      (web (str "edge") tlsCert) := by
  intro h
  have hroute : (returned (getRouteForIngress digest (withService ∅)
      (web (str "edge") tlsCert))).map (fun r => routeClusters r.spec) =
      some [str "default_svc_80_28dbbc2bac"] := by decide +kernel
  have hclusters : (returned (getClustersForIngress digest (withService ∅)
      (web (str "edge") tlsCert))).map (List.map fun r => r.spec.xdsName) =
      some [str "default_svc_80_da39a3ee5e"] := by decide +kernel
  obtain ⟨r, hr, hnames⟩ := Option.map_eq_some_iff.mp hroute
  obtain ⟨clusters, hc, hcnames⟩ := Option.map_eq_some_iff.mp hclusters
  rw [returned_eq_some] at hr hc
  obtain ⟨clusters', hc', C, hC, hname⟩ := h r hr (str "default_svc_80_28dbbc2bac")
    (by rw [hnames]; exact List.mem_singleton_self _)
  obtain rfl : clusters' = clusters := Except.ok.inj (Except.ok.inj (hc'.symm.trans hc))
  have hmem : C.spec.xdsName ∈ clusters'.map fun r => r.spec.xdsName := List.mem_map_of_mem hC
  rw [hcnames, hname] at hmem
  exact absurd hmem (by decide +kernel)

/-- `C` is the cluster produced for a port of the service. -/
def ClusterOfService (H : Digest) (L : Listers) (ingress : Ingress) (service : Service)
    (C : Resource) : Prop :=
  (∃ clusters, getClustersForIngress H L ingress = .ok (.ok clusters) ∧ C ∈ clusters) ∧
  (∃ services, getServicesForIngress L ingress = .ok (.ok services) ∧ service ∈ services) ∧
  ∃ port ∈ service.ports,
    clusterResource H L ingress (GoSet.ofList (nodeGroupsOf ingress)) service port = .ok C

/-- Every EDS cluster of a service with an Endpoints object finds a load assignment
of the same ingress under the name it asks for. -/
def EdsClustersResolve (H : Digest) (L : Listers) (ingress : Ingress) : Prop :=
  ∀ service C, ClusterOfService H L ingress service C → ∀ c eds, C.spec = .cluster c →
    c.clusterDiscoveryType = .eds → c.edsClusterConfig = some eds →
    (L.endpoints.get (service.ns, service.name)).isSome →
    ∃ rs, getEndpointsForIngress H L ingress = .ok (.ok rs) ∧
      ∃ r ∈ rs, ∃ a, r.spec = .endpoint a ∧ a.clusterName = eds.serviceName

/-- No service with a port, without an external name and with an Endpoints object
is matched where clusters are produced. -/
def NoEdsService (L : Listers) (ingress : Ingress) : Prop :=
  nodeGroupsOf ingress ≠ [] → ∀ services, getServicesForIngress L ingress = .ok (.ok services) →
    ClustersDefined ingress services → ∀ service ∈ services, service.ports ≠ [] →
      service.externalName = [] → L.endpoints.get (service.ns, service.name) = none

theorem endpoint_name_ne (service service' : Service) (portName : GoString) :
    service.ns ++ 45 :: service.name ≠
      clusterLoadAssignmentName service'.ns service'.name portName := by
  intro h
  have hslash : (47 : UInt8) ∈ clusterLoadAssignmentName service'.ns service'.name portName := by
    unfold clusterLoadAssignmentName
    split_ifs <;> simp
  rw [← h, List.mem_append, List.mem_cons] at hslash
  rcases hslash with hs | hs | hs
  · exact service.ns_valid.subdomain.slash hs
  · exact absurd hs (by decide)
  · exact service.name_valid.slash hs

theorem clusterOf_discovery (service : Service) (port : ServicePort) (sni : GoString)
    (sec : Option Secret) (name : GoString) :
    { clusterOf H service port sni sec with name }.clusterDiscoveryType =
        (if service.externalName = [] then .eds else .strictDNS) ∧
    { clusterOf H service port sni sec with name }.edsClusterConfig =
        if service.externalName = [] then some (edsconfig controlPlaneCluster service port)
        else none := by
  unfold clusterOf
  by_cases he : service.externalName = []
  · simp only [he, if_true]
    split_ifs <;> exact ⟨rfl, rfl⟩
  · simp only [he, if_false]
    split_ifs <;> exact ⟨rfl, rfl⟩

theorem clusterName_of_mem {rs : List Resource}
    (h : getEndpointsForIngress H L ingress = .ok (.ok rs)) {r : Resource} (hr : r ∈ rs)
    {a : ClusterLoadAssignment} (ha : r.spec = .endpoint a) :
    ∃ service : Service, a.clusterName = service.ns ++ 45 :: service.name := by
  obtain ⟨-, services, -, rfl, -⟩ := getEndpointsForIngress_ok h
  rcases mem_clusterLoadAssignments hr with hr | ⟨service, -, lbs, -, rfl⟩
  · cases hr
  · refine ⟨service, ?_⟩
    rw [← Spec.endpoint.inj ha]

theorem noEdsService_of_resolve (hres : EdsClustersResolve H L ingress) :
    NoEdsService L ingress := by
  intro hg services hs hd service hmem hne hext
  rw [Option.eq_none_iff_forall_ne_some]
  intro endpoints he
  obtain ⟨clusters, hc⟩ := getClustersForIngress_returns hg hs hd hmem hne
  obtain ⟨-, services', hs', -, hclusters⟩ := getClustersForIngress_ok hc
  obtain rfl : services' = services := Except.ok.inj (Except.ok.inj (hs'.symm.trans hs))
  obtain ⟨port, hport⟩ := List.exists_mem_of_ne_nil _ hne
  obtain ⟨C, hC⟩ := (clusterResource_returns port).mpr (hd.2 service hmem hne)
  have hCmem := (hclusters C).mpr ⟨service, hmem, port, hport, hC⟩
  obtain ⟨sni, name, -, -, hspec⟩ := clusterResource_ok hC
  obtain ⟨hdisc, heds⟩ := clusterOf_discovery service port sni
    (clusterSecret L ingress sni) name
  rw [if_pos hext] at hdisc heds
  obtain ⟨rs, hrs, r, hr, a, ha, hname⟩ := hres service C
    ⟨⟨clusters, hc, hCmem⟩, ⟨services', hs, hmem⟩, port, hport, hC⟩ _ _
    (congrArg Resource.spec hspec) hdisc heds (by simp [he])
  obtain ⟨service', hname'⟩ := clusterName_of_mem hrs hr ha
  exact endpoint_name_ne service' service port.name (hname'.symm.trans hname)

/-- EDS clusters are resolved only where there are none to resolve. -/
theorem edsClustersResolve_iff_noEdsService (H : Digest) (L : Listers) (ingress : Ingress) :
    EdsClustersResolve H L ingress ↔ NoEdsService L ingress := by
  refine ⟨noEdsService_of_resolve, ?_⟩
  rintro hno service C ⟨⟨clusters, hc, -⟩, ⟨services, hs, hmem⟩, port, hport, hC⟩ c eds hspec hdisc
    - hep
  have hg := (getClustersForIngress_ok hc).1
  have hext : service.externalName = [] := by
    obtain ⟨sni, name, -, -, hres⟩ := clusterResource_ok hC
    have hd := (clusterOf_discovery (H := H) service port sni (clusterSecret L ingress sni) name).1
    rw [← Spec.cluster.inj ((congrArg Resource.spec hres).symm.trans hspec)] at hdisc
    by_contra hne
    rw [if_neg hne, hdisc] at hd
    cases hd
  have hdef := clustersDefined_of_ok hg hc hs
  rw [hno hg services hs hdef service hmem (List.ne_nil_of_mem hport) hext] at hep
  cases hep

namespace Sample

theorem svc_valid : IsDNSSubdomain (str "svc") := by decide +kernel

def svcEndpoints (ip : GoString) : Endpoints where
  toObjectMeta := objectMeta (str "svc") svc_valid
  subsets := [{ addresses := [{ ip }], ports := [⟨[], 8080, .TCP⟩] }]

def withEndpoints : Listers where
  services := ⟨[svc ∅], by simp⟩
  endpoints := ⟨[svcEndpoints (str "10.0.0.1")], by simp⟩

end Sample

/-- One service with one address: its cluster asks for `default/svc`, the load
assignment is `default-svc`. -/
theorem eds_cluster_unresolved :
    ¬ EdsClustersResolve digest withEndpoints (web (str "edge") []) := by
  intro h
  have hs : getServicesForIngress withEndpoints (web (str "edge") []) =
      .ok (.ok [svc ∅]) := rfl
  have hd : ClustersDefined (web (str "edge") []) [svc ∅] := by
    refine ⟨by decide +kernel, ?_⟩
    intro service hmem _ rule hr
    obtain rfl := List.mem_singleton.mp hmem
    obtain rfl := List.mem_singleton.mp hr
    exact ⟨true, rfl⟩
  have hno := noEdsService_of_resolve h (by decide +kernel) _ hs hd (svc ∅)
    (List.mem_singleton_self _) (List.cons_ne_nil _ _) rfl
  cases hno

def contextSecrets : TlsContext → List SdsSecretConfig
  | .upstream c => c.commonTlsContext.tlsCertificateSdsSecretConfigs
  | .downstream c => c.commonTlsContext.tlsCertificateSdsSecretConfigs

def socketSecretNames (socket : Option TransportSocket) : List GoString :=
  socket.toList.flatMap fun s => (contextSecrets s.typedConfig).map (·.name)

/-- The SDS secret names a cluster or a listener refers to. -/
def sdsNames : Spec → List GoString
  | .cluster c => socketSecretNames c.transportSocket
  | .listener l => l.filterChains.flatMap fun f => socketSecretNames f.transportSocket
  | _ => []

/-- A resource called `n` carrying the secret `n` is among the secrets. -/
def SecretNamed (secrets : List Resource) (n : GoString) : Prop :=
  ∃ r ∈ secrets, r.name = n ∧ ∃ s, r.spec = .secret s ∧ s.name = n

theorem secretNamed_of_get {nodegroup : GoSet GoString} {t : IngressTLS} (ht : t ∈ ingress.tls)
    (hs : L.secrets.get (ingress.ns, t.secretName) = some secret) :
    SecretNamed (ingress.tls.filterMap fun tls =>
      (L.secrets.get (ingress.ns, tls.secretName)).map (secretResource H ingress nodegroup))
      (secretname H secret) := by
  refine ⟨secretResource H ingress nodegroup secret, ?_, rfl, tlsSecret H secret, rfl, rfl⟩
  exact List.mem_filterMap.mpr ⟨t, ht, by rw [hs]; rfl⟩

theorem hostSecret_eq_some (h : hostSecret L ingress host = some secret) :
    ∃ t ∈ ingress.tls, L.secrets.get (ingress.ns, t.secretName) = some secret := by
  unfold hostSecret tlsSecretName at h
  split_ifs at h
  obtain ⟨name, hn, hs⟩ := Option.bind_eq_some_iff.mp h
  obtain ⟨t, ht, rfl⟩ := Option.map_eq_some_iff.mp hn
  exact ⟨t, (List.mem_filter.mp (List.mem_of_getLast? ht)).1, hs⟩

theorem clusterOf_transportSocket (service : Service) (port : ServicePort) (sni : GoString)
    (sec : Option Secret) :
    let protocol := index service.annotations serviceHTTPProtocolAnnotation
    let uv := clusterValidation protocol sec sni
    (clusterOf H service port sni sec).transportSocket =
      if protocol = str "tls" then
        some (tlsTransportSocket (.upstream (upstreamTLSContext H uv sni sec [])))
      else if protocol = str "h2" then
        some (tlsTransportSocket (.upstream (upstreamTLSContext H uv sni sec [str "h2"])))
      else none := by
  unfold clusterOf
  by_cases he : service.externalName = []
  · simp only [he, if_true]
    split_ifs <;> rfl
  · simp only [he, if_false]
    split_ifs <;> rfl

theorem sdsNames_cluster {port : ServicePort} {sni : GoString} {sec : Option Secret}
    {name n : GoString}
    (h : n ∈ sdsNames (.cluster { clusterOf H service port sni sec with name })) :
    ∃ secret, sec = some secret ∧ n = secretname H secret := by
  have hsocket : ∀ uv alpn, n ∈ socketSecretNames
      (some (tlsTransportSocket (.upstream (upstreamTLSContext H uv sni sec alpn)))) →
      ∃ secret, sec = some secret ∧ n = secretname H secret := by
    intro uv alpn hn
    cases sec with
    | none => simp [socketSecretNames, contextSecrets, tlsTransportSocket, upstreamTLSContext] at hn
    | some secret =>
      exact ⟨secret, rfl, by
        simpa [socketSecretNames, contextSecrets, tlsTransportSocket, upstreamTLSContext] using hn⟩
  change n ∈ socketSecretNames (clusterOf H service port sni sec).transportSocket at h
  rw [clusterOf_transportSocket] at h
  split_ifs at h
  · exact hsocket _ _ h
  · exact hsocket _ _ h
  · cases h

theorem sdsNames_httpsListener {b : IngressServiceBackend} {n : GoString}
    (h : n ∈ sdsNames (.listener (httpsListener H host secret b))) :
    n = secretname H secret := by
  simpa [sdsNames, httpsListener, listener, filterChainTLS, socketSecretNames, contextSecrets,
    tlsTransportSocket, downstreamTLSContext] using h

theorem sdsNames_httpListener (b : IngressServiceBackend) :
    sdsNames (.listener (httpListener H b)) = [] := by
  simp [sdsNames, httpListener, listener, socketSecretNames]

/-- Every secret a listener or a cluster of an ingress refers to is among its secrets. -/
theorem sds_references_resolve (H : Digest) (L : Listers) (ingress : Ingress)
    (hg : nodeGroupsOf ingress ≠ []) :
    ∃ secrets, getSecretsForIngress H L ingress = .ok secrets ∧
      (∀ listeners, getListenersForIngress H L ingress = .ok (.ok listeners) →
        ∀ r ∈ listeners, ∀ n ∈ sdsNames r.spec, SecretNamed secrets n) ∧
      (∀ clusters, getClustersForIngress H L ingress = .ok (.ok clusters) →
        ∀ r ∈ clusters, ∀ n ∈ sdsNames r.spec, SecretNamed secrets n) := by
  refine ⟨_, by rw [getSecretsForIngress, getNodeGroupForIngress_eq hg]; rfl, ?_, ?_⟩
  · intro listeners hl r hr n hn
    obtain ⟨-, -, hmem⟩ := getListenersForIngress_ok hl
    obtain ⟨rule, -, l, hrule, hr⟩ := (hmem r).mp hr
    obtain ⟨-, -, -, -, b, -, rfl | ⟨secretName, secret, hname, hs, rfl⟩⟩ :=
      mem_ruleListeners hrule hr
    · rw [listenerResource, sdsNames_httpListener] at hn
      cases hn
    · obtain rfl := sdsNames_httpsListener hn
      obtain ⟨t, ht, rfl⟩ := Option.map_eq_some_iff.mp hname
      exact secretNamed_of_get (List.mem_of_find?_eq_some ht) hs
  · intro clusters hc r hr n hn
    obtain ⟨-, services, -, -, hmem⟩ := getClustersForIngress_ok hc
    obtain ⟨service, -, port, -, hr⟩ := (hmem r).mp hr
    obtain ⟨sni, name, -, -, rfl⟩ := clusterResource_ok hr
    obtain ⟨secret, hsec, rfl⟩ := sdsNames_cluster hn
    rw [clusterSecret_eq] at hsec
    obtain ⟨t, ht, hs⟩ := hostSecret_eq_some hsec
    exact secretNamed_of_get ht hs

/-- The ingress with a certificate: its https listener and its cluster both refer to
the one secret. -/
theorem sds_references_resolve_web :
    ∃ secrets, getSecretsForIngress digest (withService tlsAnnotations)
      (web (str "edge") tlsCert) = .ok secrets ∧
      (∃ listeners, getListenersForIngress digest (withService tlsAnnotations)
        (web (str "edge") tlsCert) = .ok (.ok listeners) ∧
        listeners.flatMap (fun r => sdsNames r.spec) = [str "default_cert_da39a3ee5e"]) ∧
      SecretNamed secrets (str "default_cert_da39a3ee5e") := by
  obtain ⟨secrets, hsecrets, hl, -⟩ := sds_references_resolve digest
    (withService tlsAnnotations) (web (str "edge") tlsCert)
    (by decide +kernel)
  have hlisteners : (returned (getListenersForIngress digest
      (withService tlsAnnotations) (web (str "edge") tlsCert))).map
      (List.flatMap fun r => sdsNames r.spec) = some [str "default_cert_da39a3ee5e"] := by
    decide +kernel
  obtain ⟨listeners, hls, hnames⟩ := Option.map_eq_some_iff.mp hlisteners
  rw [returned_eq_some] at hls
  refine ⟨secrets, hsecrets, ⟨listeners, hls, hnames⟩, ?_⟩
  have hmem : str "default_cert_da39a3ee5e" ∈ listeners.flatMap fun r => sdsNames r.spec := by
    rw [hnames]
    exact List.mem_singleton_self _
  obtain ⟨r, hr, hn⟩ := List.mem_flatMap.mp hmem
  exact hl listeners hls r hr _ hn

end KubeEdge.Envoy
