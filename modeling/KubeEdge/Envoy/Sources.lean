import KubeEdge.Envoy.Clusters
import KubeEdge.Envoy.Kinds

namespace KubeEdge.Envoy
open Go

variable {H : Digest} {L : Listers} {ingress : Ingress}

/-- What a resource is made from. -/
inductive Source
  | secret (s : Secret)
  | endpoint (s : Service)
  | cluster (s : Service) (name : GoString)
  | route (i : Ingress)
  | httpListener (ns : GoString) (port : Int32)
  | httpsListener (ns : GoString) (port : Int32)

namespace Source

def kind : Source → Kind
  | .secret _ => .secret
  | .endpoint _ => .endpoint
  | .cluster _ _ => .cluster
  | .route _ => .route
  | .httpListener _ _ => .httpListener
  | .httpsListener _ _ => .httpsListener

/-- The key of the resource in the store. -/
def key (H : Digest) : Source → GoString
  | .secret s => envoyResourceKeyFunc s.ns (secretname H s)
  | .endpoint s => envoyResourceKeyFunc s.ns (endpointName H s)
  | .cluster s name => envoyResourceKeyFunc s.ns name
  | .route i => envoyResourceKeyFunc i.ns (routeName H i)
  | .httpListener ns port => envoyResourceKeyFunc ns (listenerName H envoyHTTPListener port)
  | .httpsListener ns port => envoyResourceKeyFunc ns (listenerName H envoyHTTPSListener port)

def xdsName (H : Digest) : Source → GoString
  | .secret s => secretname H s
  | .endpoint s => s.ns ++ 45 :: s.name
  | .cluster _ name => name
  | .route _ => envoyHTTPListener
  | .httpListener _ port => listenerName H envoyHTTPListener port
  | .httpsListener _ _ => envoyHTTPSListener

/-- `x` is the resource made from the source. -/
structure Describes (H : Digest) (a : Source) (x : Resource) : Prop where
  key : x.key = a.key H
  kind : x.spec.kind = a.kind
  name : x.spec.xdsName = a.xdsName H

end Source

def servicesOf (L : Listers) (ingress : Ingress) : List Service :=
  match getServicesForIngress L ingress with
  | .ok services => valuesOf services
  | .error _ => []

/-- The services an ingress has load assignments for, in order: those with a port and an
Endpoints object. -/
def assignedServices (L : Listers) (ingress : Ingress) : List Service :=
  if nodeGroupsOf ingress = [] then []
  else (servicesOf L ingress).filter fun s => (assignment L s).isSome

/-- What an ingress asks for. -/
inductive Wants (H : Digest) (L : Listers) (ingress : Ingress) : Source → Prop
  | secret (tls : IngressTLS) (s : Secret) (htls : tls ∈ ingress.tls)
      (hs : L.secrets.get (ingress.ns, tls.secretName) = some s) : Wants H L ingress (.secret s)
  | endpoint (s : Service) (hs : s ∈ assignedServices L ingress) : Wants H L ingress (.endpoint s)
  | cluster (s : Service) (p : ServicePort) (hs : s ∈ servicesOf L ingress) (hp : p ∈ s.ports) :
      Wants H L ingress (.cluster s
        (clusternameOf H s p (clusterText L ingress s (lastHost ingress s.name))))
  | route (rule : IngressRule) (s : Service) (hr : rule ∈ ingress.rules)
      (hs : Leads L ingress rule s) (hp : s.ports ≠ []) : Wants H L ingress (.route ingress)
  | httpListener (rule : IngressRule) (b : IngressServiceBackend) (hr : rule ∈ ingress.rules)
      (hb : b ∈ (rule.http.getD []).filterMap (·.backend.service)) :
      Wants H L ingress (.httpListener ingress.ns b.port.number)
  | httpsListener (rule : IngressRule) (b : IngressServiceBackend) (secretName : GoString)
      (hr : rule ∈ ingress.rules) (hb : b ∈ (rule.http.getD []).filterMap (·.backend.service))
      (hn : listenerSecretName ingress.tls rule.host = some secretName)
      (hs : (L.secrets.get (ingress.ns, secretName)).isSome) :
      Wants H L ingress (.httpsListener ingress.ns b.port.number)

/-- What is made for an ingress: nothing without a node group. -/
def Makes (H : Digest) (L : Listers) (ingress : Ingress) (a : Source) : Prop :=
  nodeGroupsOf ingress ≠ [] ∧ Wants H L ingress a

theorem servicesOf_eq {services : List Service}
    (h : getServicesForIngress L ingress = .ok (.ok services)) :
    servicesOf L ingress = services := by
  unfold servicesOf
  rw [h]
  rfl

theorem mem_servicesOf {s : Service} (hs : s ∈ servicesOf L ingress) :
    s.ns = ingress.ns ∧ ∃ services, getServicesForIngress L ingress = .ok (.ok services) ∧
      servicesOf L ingress = services := by
  cases h : getServicesForIngress L ingress with
  | error e => simp [servicesOf, h] at hs
  | ok res =>
    cases res with
    | error e => simp [servicesOf, h, valuesOf] at hs
    | ok services =>
      rw [servicesOf_eq h] at hs
      exact ⟨service_ns_of_mem h hs, services, rfl, servicesOf_eq h⟩

/-- The last load assignment under a key is that of the last such service: a variable that
keeps its value only repeats what is there already. -/
theorem lastAt_clusterLoadAssignments (nodegroup : GoSet GoString) (cla : Option Resource)
    (services : List Service) (r : GoString) :
    (lastAt (cla.toList ++ clusterLoadAssignments H L ingress nodegroup cla services) r).map
      (·.spec.xdsName) =
    (((services.filter fun s => (assignment L s).isSome).reverse.find? fun s =>
      (Source.endpoint s).key H = r).map fun s => (Source.endpoint s).xdsName H).or
      ((lastAt cla.toList r).map (·.spec.xdsName)) := by
  induction services generalizing cla with
  | nil => simp [clusterLoadAssignments]
  | cons s services ih =>
    rw [clusterLoadAssignments, lastAt_append, Option.map_or, ih, clusterLoadAssignmentFor_eq]
    cases ha : assignment L s with
    | some lbs =>
      have hone : (lastAt [endpointResource H ingress nodegroup s lbs] r).map (·.spec.xdsName) =
          ([s].find? fun s => (Source.endpoint s).key H = r).map
            fun s => (Source.endpoint s).xdsName H := by
        have hkey :
            (endpointResource H ingress nodegroup s lbs).key = (Source.endpoint s).key H := rfl
        unfold lastAt
        rw [List.reverse_singleton, List.find?_singleton, List.find?_singleton, hkey]
        split_ifs <;> rfl
      rw [Option.map_some, Option.some_or, Option.toList_some, hone,
        List.filter_cons_of_pos (by simp [ha]), List.reverse_cons, List.find?_append, Option.map_or]
    | none =>
      rw [Option.map_none, Option.none_or, Option.or_assoc, Option.or_self,
        List.filter_cons_of_neg (by simp [ha])]

variable {gen : List Resource} {x : Resource} {res : Result (List Resource)}

theorem followed_of_generates (hg : nodeGroupsOf ingress ≠ [])
    (h : envoyResourcesForIngress H L ingress = .ok gen) :
    Followed ingress ∧ PathTypesSet L ingress := by
  obtain ⟨-, -, route, -, -, -, hroute, -⟩ := envoyResourcesForIngress_ok h
  exact followed_of_getRouteForIngress hg hroute

theorem describes_cluster {s : Service} {p : ServicePort} (hf : Followed ingress)
    (hns : s.ns = ingress.ns)
    (hx : clusterResource H L ingress (GoSet.ofList (nodeGroupsOf ingress)) s p = .ok x) :
    (Source.cluster s (clusternameOf H s p
      (clusterText L ingress s (lastHost ingress s.name)))).Describes H x := by
  obtain ⟨sni, name, hsni, hname, rfl⟩ := clusterResource_ok hx
  obtain rfl := Except.ok.inj ((hf.sniFor_eq s.name).symm.trans hsni)
  rw [clustername_cluster] at hname
  obtain rfl := Except.ok.inj hname
  exact ⟨congrArg (envoyResourceKeyFunc · _) hns.symm, rfl, rfl⟩

theorem describes_of_mem (h : envoyResourcesForIngress H L ingress = .ok gen) (hx : x ∈ gen) :
    ∃ a, Makes H L ingress a ∧ a.Describes H x := by
  rcases (mem_envoyResourcesForIngress h).mp hx with
    ⟨l, hl, hx⟩ | ⟨l, hl, hx⟩ | ⟨l, hl, hx⟩ | hx | ⟨l, hl, hx⟩
  · obtain ⟨hg, rfl⟩ := getSecretsForIngress_ok hl
    obtain ⟨tls, htls, hx⟩ := List.mem_filterMap.mp hx
    obtain ⟨s, hs, rfl⟩ := Option.map_eq_some_iff.mp hx
    have hns : s.ns = ingress.ns := congrArg Prod.fst (Indexer.get_eq_some.mp hs).2
    exact ⟨.secret s, ⟨hg, .secret tls s htls hs⟩, congrArg (envoyResourceKeyFunc · _) hns.symm,
      rfl, rfl⟩
  · obtain ⟨hg, services, hs, rfl, -⟩ := getEndpointsForIngress_ok hl
    rcases mem_clusterLoadAssignments hx with hx | ⟨s, hmem, lbs, ha, rfl⟩
    · cases hx
    · refine ⟨.endpoint s, ⟨hg, .endpoint s ?_⟩, rfl, rfl, rfl⟩
      rw [assignedServices, if_neg hg, servicesOf_eq hs]
      exact List.mem_filter.mpr ⟨hmem, by simp [ha]⟩
  · obtain ⟨hg, services, hs, -, hmem⟩ := getClustersForIngress_ok hl
    obtain ⟨s, hservice, port, hp, hx⟩ := (hmem x).mp hx
    exact ⟨_, ⟨hg, .cluster s port (servicesOf_eq hs ▸ hservice) hp⟩,
      describes_cluster (followed_of_generates hg h).1 (service_ns_of_mem hs hservice) hx⟩
  · obtain ⟨hg, vhosts, hv, hne, rfl⟩ := getRouteForIngress_ok hx
    obtain ⟨v, hmem⟩ := List.exists_mem_of_ne_nil _ hne
    obtain ⟨_, hmem, rfl⟩ := List.mem_filterMap.mp hmem
    obtain ⟨rule, hr, hrule⟩ := (mem_mapM hv).mp hmem
    obtain ⟨s, hs, hp⟩ := leads_of_virtualHost hrule
    exact ⟨.route ingress, ⟨hg, .route rule s hr hs hp⟩, rfl, rfl, rfl⟩
  · obtain ⟨hg, -, hmem⟩ := getListenersForIngress_ok hl
    obtain ⟨rule, hr, l', hl', hx⟩ := (hmem x).mp hx
    obtain ⟨paths, hp, path, hpath, b, hb, hx⟩ := mem_ruleListeners hl' hx
    have hback : b ∈ (rule.http.getD []).filterMap (·.backend.service) := by
      rw [hp]
      exact List.mem_filterMap.mpr ⟨path, hpath, hb⟩
    rcases hx with rfl | ⟨name, secret, hn, hs, rfl⟩
    · exact ⟨_, ⟨hg, .httpListener rule b hr hback⟩, rfl, httpListener_kind b, rfl⟩
    · exact ⟨_, ⟨hg, .httpsListener rule b name hr hback hn (by rw [hs]; rfl)⟩, rfl,
        httpsListener_kind _ secret b, rfl⟩

section

variable (hg : nodeGroupsOf ingress ≠ [])
include hg

theorem getSecretsForIngress_returns : ∃ l, getSecretsForIngress H L ingress = .ok l :=
  ⟨_, by rw [getSecretsForIngress, getNodeGroupForIngress_eq hg]; rfl⟩

theorem valuesOf_endpoints (h : getEndpointsForIngress H L ingress = .ok res) : valuesOf res =
      clusterLoadAssignments H L ingress (GoSet.ofList (nodeGroupsOf ingress)) none
        (servicesOf L ingress) := by
  unfold getEndpointsForIngress at h
  rw [getNodeGroupForIngress_eq hg] at h
  obtain ⟨services, hs, h⟩ := ok_of_bind h
  unfold servicesOf
  rw [hs]
  cases services with
  | error e =>
    cases h
    rfl
  | ok services =>
    cases h
    exact valuesOf_nonEmptyOr _ _

theorem mem_valuesOf_listeners (h : getListenersForIngress H L ingress = .ok res) :
    x ∈ valuesOf res ↔
      ∃ rule ∈ ingress.rules, ∃ l,
        ruleListeners H L ingress (GoSet.ofList (nodeGroupsOf ingress)) rule = .ok l ∧ x ∈ l := by
  unfold getListenersForIngress at h
  rw [getNodeGroupForIngress_eq hg] at h
  obtain ⟨ls, hls, h⟩ := ok_of_bind h
  cases h
  rw [valuesOf_nonEmptyOr]
  exact mem_flatten_mapM hls

end

/-- A rule whose pointers are set gets its http listeners and, with a secret, its https ones. -/
theorem ruleListeners_returns {rule : IngressRule} (hf : Followed ingress)
    (hr : rule ∈ ingress.rules) {b : IngressServiceBackend}
    (hb : b ∈ (rule.http.getD []).filterMap (·.backend.service)) (nodegroup : GoSet GoString) :
    ∃ l, ruleListeners H L ingress nodegroup rule = .ok l ∧
      listenerResource H ingress nodegroup envoyHTTPListener b (httpListener H b) ∈ l ∧
      ∀ name secret, listenerSecretName ingress.tls rule.host = some name →
        L.secrets.get (ingress.ns, name) = some secret →
        listenerResource H ingress nodegroup envoyHTTPSListener b
          (httpsListener H rule.host secret b) ∈ l := by
  obtain ⟨paths, hp, -⟩ := hf rule hr
  rw [hp, Option.getD_some] at hb
  have hhttp := List.mem_map_of_mem (f := fun b =>
    listenerResource H ingress nodegroup envoyHTTPListener b (httpListener H b)) hb
  unfold ruleListeners
  rw [hp, deref_some, ok_bind]
  cases hn : listenerSecretName ingress.tls rule.host with
  | none => exact ⟨_, rfl, hhttp, by simp⟩
  | some name =>
    cases hs : L.secrets.get (ingress.ns, name) with
    | none =>
      dsimp only
      rw [hs]
      refine ⟨_, rfl, hhttp, ?_⟩
      intro name' secret hname hsecret
      obtain rfl := Option.some.inj hname
      rw [hs] at hsecret
      cases hsecret
    | some secret =>
      dsimp only
      rw [hs]
      refine ⟨_, rfl, List.mem_append_left _ hhttp, ?_⟩
      intro name' secret' hname hsecret
      obtain rfl := Option.some.inj hname
      obtain rfl := Option.some.inj (hs.symm.trans hsecret)
      exact List.mem_append_right _ (List.mem_map_of_mem hb)

/-- The last load assignment of an ingress under a key is that of its last such service. -/
theorem lastAt_endpoints (hg : nodeGroupsOf ingress ≠ [])
    (h : getEndpointsForIngress H L ingress = .ok res) (r : GoString) :
    (lastAt (valuesOf res) r).map (·.spec.xdsName) =
      ((assignedServices L ingress).reverse.find? fun s => (Source.endpoint s).key H = r).map
        fun s => (Source.endpoint s).xdsName H := by
  rw [valuesOf_endpoints hg h, assignedServices, if_neg hg]
  have hlast := @lastAt_clusterLoadAssignments H L ingress
    (GoSet.ofList (nodeGroupsOf ingress)) none (servicesOf L ingress) r
  simpa [lastAt] using hlast

section

variable (h : envoyResourcesForIngress H L ingress = .ok gen)
include h

theorem exists_of_makes {a : Source} (ha : Makes H L ingress a) : ∃ x ∈ gen, x.key = a.key H := by
  obtain ⟨hg, ha⟩ := ha
  obtain ⟨hf, hset⟩ := followed_of_generates hg h
  have hgen {x : Resource} := mem_envoyResourcesForIngress h (r := x)
  obtain ⟨endpoints, clusters, route, listeners, he, hc, hr, hl, -⟩ := envoyResourcesForIngress_ok h
  cases ha with
  | secret tls s htls hs =>
    obtain ⟨l, hl⟩ := getSecretsForIngress_returns hg
    have hns : s.ns = ingress.ns := congrArg Prod.fst (Indexer.get_eq_some.mp hs).2
    refine ⟨secretResource H ingress (GoSet.ofList (nodeGroupsOf ingress)) s,
      hgen.mpr (.inl ⟨l, hl, ?_⟩), congrArg (envoyResourceKeyFunc · _) hns.symm⟩
    obtain ⟨-, rfl⟩ := getSecretsForIngress_ok hl
    exact List.mem_filterMap.mpr ⟨tls, htls, by rw [hs]; rfl⟩
  | endpoint s hs =>
    have hlast := lastAt_endpoints hg he ((Source.endpoint s).key H)
    cases hx : lastAt (valuesOf endpoints) ((Source.endpoint s).key H) with
    | none =>
      rw [hx, Option.map_none, eq_comm, Option.map_eq_none_iff, List.find?_eq_none] at hlast
      exact absurd (decide_eq_true rfl) (hlast s (List.mem_reverse.mpr hs))
    | some x =>
      obtain ⟨hmem, hkey⟩ := mem_of_lastAt hx
      obtain ⟨l, rfl, hxl⟩ := mem_valuesOf.mp hmem
      exact ⟨x, hgen.mpr (.inr (.inl ⟨l, he, hxl⟩)), hkey⟩
  | cluster s p hs hp =>
    obtain ⟨hns, services, hservices, heq⟩ := mem_servicesOf hs
    rw [heq] at hs
    obtain ⟨rs, hrs⟩ := getClustersForIngress_returns hg hservices
      (hf.clustersDefined services) hs (List.ne_nil_of_mem hp)
    obtain ⟨x, hx⟩ := (clusterResource_returns p).mpr
      fun rule hr => ⟨_, hf.ruleNamesService_eq s.name rule hr⟩
    obtain ⟨-, services', hservices', -, hmem⟩ := getClustersForIngress_ok hrs
    obtain rfl := Except.ok.inj (Except.ok.inj (hservices.symm.trans hservices'))
    exact ⟨x, hgen.mpr (.inr (.inr (.inl ⟨rs, hrs, (hmem x).mpr ⟨s, hs, p, hp, hx⟩⟩))),
      (describes_cluster hf hns hx).key⟩
  | route rule s hr hs hp =>
    obtain ⟨x, hx⟩ := getRouteForIngress_returns hg hf hset hr hs hp
    refine ⟨x, hgen.mpr (.inr (.inr (.inr (.inl hx)))), ?_⟩
    obtain ⟨-, vhosts, -, -, rfl⟩ := getRouteForIngress_ok hx
    rfl
  | httpListener rule b hr hb =>
    obtain ⟨l, hrule, hmem, -⟩ := ruleListeners_returns hf hr hb
      (GoSet.ofList (nodeGroupsOf ingress))
    have hx := (mem_valuesOf_listeners hg hl).mpr ⟨rule, hr, l, hrule, hmem⟩
    obtain ⟨ls, rfl, hx⟩ := mem_valuesOf.mp hx
    exact ⟨_, hgen.mpr (.inr (.inr (.inr (.inr ⟨ls, hl, hx⟩)))), rfl⟩
  | httpsListener rule b name hr hb hn hs =>
    obtain ⟨secret, hs⟩ := Option.isSome_iff_exists.mp hs
    obtain ⟨l, hrule, -, hmem⟩ := ruleListeners_returns hf hr hb
      (GoSet.ofList (nodeGroupsOf ingress))
    have hx := (mem_valuesOf_listeners hg hl).mpr ⟨rule, hr, l, hrule, hmem name secret hn hs⟩
    obtain ⟨ls, rfl, hx⟩ := mem_valuesOf.mp hx
    exact ⟨_, hgen.mpr (.inr (.inr (.inr (.inr ⟨ls, hl, hx⟩)))), rfl⟩

/-- Of all that is made for an ingress, only load assignments lie under their keys. -/
theorem lastAt_of_endpoint_key (s : Service) :
    (lastAt gen ((Source.endpoint s).key H)).map (·.spec.xdsName) =
      ((assignedServices L ingress).reverse.find? fun t =>
        (Source.endpoint t).key H = (Source.endpoint s).key H).map
        fun t => (Source.endpoint t).xdsName H := by
  by_cases hg : nodeGroupsOf ingress = []
  · rw [envoyResourcesForIngress_of_no_groups hg] at h
    cases h
    rw [assignedServices, if_pos hg]
    rfl
  have hother (l : List Resource) (hl : ∀ x ∈ l, x ∈ gen ∧ x.spec.kind ≠ .endpoint) :
      lastAt l ((Source.endpoint s).key H) = none := by
    refine lastAt_eq_none.mpr fun x hx hkey => ?_
    obtain ⟨hgen, hne⟩ := hl x hx
    have htyped := (generated_of_mem h hgen).typed
    obtain ⟨-, hname⟩ := envoyResourceKeyFunc_inj₂ htyped.1 s.ns_valid hkey
    rw [← htyped.2.kindOfName_eq, hname, kindOfName_endpointName] at hne
    exact hne rfl
  obtain ⟨endpoints, clusters, route, listeners, he, hc, hr, hl, hgen⟩ :=
    envoyResourcesForIngress_ok h
  have hsecrets := hother (valuesOf (getSecretsForIngress H L ingress)) (by
    intro x hx
    refine ⟨by simp [hgen, hx], ?_⟩
    obtain ⟨l, hl, hx⟩ := mem_valuesOf.mp hx
    obtain ⟨-, rfl⟩ := getSecretsForIngress_ok hl
    obtain ⟨tls, -, hx⟩ := List.mem_filterMap.mp hx
    obtain ⟨s, -, rfl⟩ := Option.map_eq_some_iff.mp hx
    exact nofun)
  have hclusters := hother (valuesOf clusters) (by
    intro x hx
    refine ⟨by simp [hgen, hx], ?_⟩
    obtain ⟨l, rfl, hx⟩ := mem_valuesOf.mp hx
    obtain ⟨-, services, -, -, hmem⟩ := getClustersForIngress_ok hc
    obtain ⟨s, -, p, -, hx⟩ := (hmem x).mp hx
    obtain ⟨sni, name, -, -, rfl⟩ := clusterResource_ok hx
    exact nofun)
  have hroute := hother (valuesOf (route.map ([·]))) (by
    intro x hx
    refine ⟨by simp [hgen, hx], ?_⟩
    cases route with
    | error e => cases hx
    | ok R =>
      obtain ⟨-, vhosts, -, -, rfl⟩ := getRouteForIngress_ok hr
      rw [List.mem_singleton.mp hx]
      exact nofun)
  have hlisteners := hother (valuesOf listeners) (by
    intro x hx
    refine ⟨by simp [hgen, hx], ?_⟩
    obtain ⟨rule, -, l, hl, hx⟩ := (mem_valuesOf_listeners hg hl).mp hx
    obtain ⟨-, -, -, -, b, -, rfl | ⟨-, secret, -, -, rfl⟩⟩ := mem_ruleListeners hl hx
    · exact fun hk => nomatch (httpListener_kind b).symm.trans hk
    · exact fun hk => nomatch (httpsListener_kind _ secret b).symm.trans hk)
  rw [hgen, lastAt_append, lastAt_append, lastAt_append, lastAt_append, hsecrets, hclusters, hroute,
    hlisteners, Option.none_or, Option.none_or, Option.none_or, Option.or_none,
    lastAt_endpoints hg he]

end

end KubeEdge.Envoy
