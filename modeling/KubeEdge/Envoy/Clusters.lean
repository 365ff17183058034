import KubeEdge.Envoy.Generated

namespace KubeEdge.Envoy
open Go

variable {H : Digest} {L : Listers} {ingress : Ingress}

def tlsSecretName (tls : List IngressTLS) (host : GoString) : Option GoString :=
  ((tls.filter fun t => host ∈ t.hosts).getLast?).map (·.secretName)

/-- The secret a host is served with: of the last TLS entry that lists it, if it exists. -/
def hostSecret (L : Listers) (ingress : Ingress) (host : GoString) : Option Secret :=
  if host = [] then none
  else (tlsSecretName ingress.tls host).bind fun name => L.secrets.get (ingress.ns, name)

theorem tlsSecretName_concat (tls : List IngressTLS) (t : IngressTLS) (host : GoString) :
    tlsSecretName (tls ++ [t]) host =
      if host ∈ t.hosts then some t.secretName else tlsSecretName tls host := by
  unfold tlsSecretName
  split_ifs with h <;> simp [h]

theorem secretNameFor_eq (tls : List IngressTLS) {sni : GoString} (hs : sni ≠ []) :
    secretNameFor tls sni = (tlsSecretName tls sni).getD [] := by
  rw [secretNameFor, if_neg hs]
  induction tls using List.reverseRecOn with
  | nil => rfl
  | append_singleton tls t ih =>
    rw [List.foldl_concat, ih, tlsSecretName_concat]
    split_ifs <;> rfl

theorem lookup_host2Secret_hosts (hosts : List GoString) (secretName : GoString)
    (m : GoMap GoString GoString) (host : GoString) :
    (hosts.foldl (fun m h => if h = [] then m else m.insert h secretName) m).lookup host =
      if host ≠ [] ∧ host ∈ hosts then some secretName else m.lookup host := by
  induction hosts generalizing m with
  | nil => simp
  | cons h hosts ih =>
    rw [List.foldl_cons, ih]
    by_cases hh : h = []
    · subst hh
      by_cases hhost : host = []
      · simp [hhost]
      · simp [hhost]
    · rw [if_neg hh, GoMap.lookup_insert]
      by_cases he : host = h
      · subst he
        simp [hh]
      · simp [he]

variable {host : GoString} {rule : IngressRule} {service : Service} {path : HTTPIngressPath}
  {backend : IngressServiceBackend} {services : List Service}

theorem lookup_host2Secret (tls : List IngressTLS) (hh : host ≠ []) :
    (host2Secret tls).lookup host = tlsSecretName tls host := by
  unfold host2Secret
  induction tls using List.reverseRecOn with
  | nil => rfl
  | append_singleton tls t ih =>
    rw [List.foldl_concat, lookup_host2Secret_hosts, ih, tlsSecretName_concat]
    simp [hh]

theorem lookup_host2Secret_nil (tls : List IngressTLS) : (host2Secret tls).lookup [] = none := by
  unfold host2Secret
  induction tls using List.reverseRecOn with
  | nil => rfl
  | append_singleton tls t ih =>
    rw [List.foldl_concat, lookup_host2Secret_hosts, ih]
    simp

theorem secrets_get_nil (L : Listers) (ns : GoString) : L.secrets.get (ns, []) = none := by
  rw [Indexer.get_eq_none]
  intro o _ hk
  exact o.name_valid.1 (congrArg Prod.snd hk)

theorem clusterSecret_eq (L : Listers) (ingress : Ingress) (sni : GoString) :
    clusterSecret L ingress sni = hostSecret L ingress sni := by
  unfold clusterSecret hostSecret
  by_cases hs : sni = []
  · simp [hs, secretNameFor]
  · rw [secretNameFor_eq _ hs, if_neg hs]
    cases tlsSecretName ingress.tls sni with
    | none => rfl
    | some name =>
      by_cases hn : name = []
      · simp [hn, secrets_get_nil]
      · simp [hn]

theorem routeValidation_eq (L : Listers) (ingress : Ingress) (host : GoString) :
    routeValidation L ingress host = (hostSecret L ingress host).map fun s => ⟨some s, host⟩ := by
  unfold routeValidation hostSecret
  by_cases hh : host = []
  · rw [hh, lookup_host2Secret_nil]
    rfl
  · rw [lookup_host2Secret _ hh, if_neg hh]
    cases tlsSecretName ingress.tls host <;> rfl

/-- What TLS on a host adds to the hashed text. -/
def hostText (L : Listers) (ingress : Ingress) (host : GoString) : GoString :=
  ((hostSecret L ingress host).map fun s => s.name ++ host).getD []

/-- Whether the cluster of the service validates its upstream. -/
def usesTLS (service : Service) : Prop :=
  index service.annotations serviceHTTPProtocolAnnotation = str "tls" ∨
    index service.annotations serviceHTTPProtocolAnnotation = str "h2"

instance (service : Service) : Decidable (usesTLS service) := inferInstanceAs (Decidable (_ ∨ _))

/-- The hashed text of the cluster of a service reached under the name `sni`. -/
def clusterText (L : Listers) (ingress : Ingress) (service : Service) (sni : GoString) : GoString :=
  healthCheckText (healthCheckPolicy service) ++
    if usesTLS service then hostText L ingress sni else []

/-- The text a route hashes for the same service. -/
def routeText (L : Listers) (ingress : Ingress) (service : Service) (host : GoString) : GoString :=
  healthCheckText (healthCheckPolicy service) ++ hostText L ingress host

theorem validationText_map (sec : Option Secret) (host : GoString) :
    validationText (sec.map fun s => ⟨some s, host⟩) =
      .ok ((sec.map fun s => s.name ++ host).getD []) := by
  cases sec <;> rfl

section

variable (H : Digest) (L : Listers) (ingress : Ingress) (service : Service)

theorem clustername_cluster (port : ServicePort) (sni : GoString) :
    clustername H service port [] (healthCheckPolicy service)
      (clusterValidation (index service.annotations serviceHTTPProtocolAnnotation)
        (clusterSecret L ingress sni) sni) =
      .ok (clusternameOf H service port (clusterText L ingress service sni)) := by
  have huv : validationText (clusterValidation
      (index service.annotations serviceHTTPProtocolAnnotation) (clusterSecret L ingress sni) sni) =
      .ok (if usesTLS service then hostText L ingress sni else []) := by
    rw [clusterSecret_eq]
    by_cases h : usesTLS service
    · have hv : clusterValidation (index service.annotations serviceHTTPProtocolAnnotation)
          (hostSecret L ingress sni) sni = (hostSecret L ingress sni).map fun s => ⟨some s, sni⟩ :=
        if_pos h
      rw [hv, if_pos h]
      exact validationText_map _ _
    · have hv : clusterValidation (index service.annotations serviceHTTPProtocolAnnotation)
          (hostSecret L ingress sni) sni = none := if_neg h
      rw [hv, if_neg h]
      rfl
  rw [clustername, huv, ok_bind]
  rfl

theorem clustername_route (port : ServicePort) (host : GoString) :
    clustername H service port [] (healthCheckPolicy service) (routeValidation L ingress host) =
      .ok (clusternameOf H service port (routeText L ingress service host)) := by
  rw [clustername, routeValidation_eq, validationText_map, ok_bind]
  rfl

end

/-- What a cluster is configured with: an empty path stands for no health check. -/
structure Config where
  path : GoString
  peer : Option (Secret × GoString)

namespace Config

def policy (g : Config) : Option HTTPHealthCheckPolicy :=
  if g.path = [] then none else some ⟨g.path, 5, 30, 3, 1⟩

def validation (g : Config) : Option PeerValidationContext := g.peer.map fun p => ⟨some p.1, p.2⟩

def key (g : Config) : GoString × Option (GoString × GoString) :=
  -- path, secret name and subject name
  (g.path, g.peer.map fun p => (p.1.name, p.2))

/-- The path behind the fixed timings. -/
def check (g : Config) : GoString := if g.path = [] then [] else str "30s5s31" ++ g.path

def name (g : Config) : GoString := (g.peer.map fun p => p.1.name).getD []

def subject (g : Config) : GoString := (g.peer.map fun p => p.2).getD []

def text (g : Config) : GoString := healthCheckText g.policy ++ (g.name ++ g.subject)

theorem text_eq (g : Config) : g.text = g.check ++ (g.name ++ g.subject) := by
  have ht : durationString 30 ++ durationString 5 ++ itoa 3 ++ itoa 1 = str "30s5s31" := by decide
  unfold text policy check
  split_ifs
  · rfl
  · rw [← ht]
    rfl

variable {g k : Config}

theorem path_eq_iff : g.path = k.path ↔ g.check = k.check := by
  unfold check
  rcases eq_or_ne g.path [] with h | h <;> rcases eq_or_ne k.path [] with h' | h'
  · simp [h, h']
  · simp [h, h', h'.symm]
  · simp [h, h']
  · simp [h, h']

theorem key_eq_iff : g.key = k.key ↔ g.path = k.path ∧ g.name = k.name ∧ g.subject = k.subject := by
  rw [key, key, Prod.mk.injEq, name, name, subject, subject]
  rcases g.peer with _ | p <;> rcases k.peer with _ | q
  · simp
  · simp [q.1.name_valid.1.symm]
  · simp [p.1.name_valid.1]
  · simp

end Config

theorem exists_config (L : Listers) (ingress : Ingress) (service : Service) (sni : GoString) :
    ∃ g : Config, healthCheckPolicy service = g.policy ∧
      clusterValidation (index service.annotations serviceHTTPProtocolAnnotation)
        (clusterSecret L ingress sni) sni = g.validation := by
  unfold clusterValidation
  split_ifs
  · refine ⟨⟨_, (clusterSecret L ingress sni).map (·, sni)⟩, rfl, ?_⟩
    cases clusterSecret L ingress sni <;> rfl
  · exact ⟨⟨_, none⟩, rfl, rfl⟩

/-- Different configurations are hashed as different texts unless a part of one is longer by
what the parts behind it in the other begin with. -/
theorem texts_differ_iff (H : Digest) (service : Service) (port : ServicePort) (g k : Config) :
    (∀ f : Config, clustername H service port [] f.policy f.validation =
      .ok (clusternameOf H service port f.text)) ∧
    ((g.key ≠ k.key → g.text ≠ k.text) ↔
      (¬ RunsOver g.check (g.name ++ g.subject) k.check (k.name ++ k.subject) ∧
        ¬ RunsOver k.check (k.name ++ k.subject) g.check (g.name ++ g.subject)) ∧
      (g.path = k.path → ¬ RunsOver g.name g.subject k.name k.subject ∧
        ¬ RunsOver k.name k.subject g.name g.subject)) := by
  constructor
  · rintro ⟨path, _ | p⟩ <;> rfl
  · rw [ne_eq, ne_eq, not_imp_not, Config.text_eq, Config.text_eq, append_eq_append_cut,
      append_eq_append_cut, Config.key_eq_iff, Config.path_eq_iff]
    constructor
    · intro h
      refine ⟨⟨?_, ?_⟩, ?_⟩
      · exact fun ho => ho.ne (h (.inr (.inl ho))).1
      · exact fun ho => ho.ne (h (.inr (.inr ho))).1.symm
      · exact fun hc => ⟨fun ho => ho.ne (h (.inl ⟨hc, .inr (.inl ho)⟩)).2.1,
          fun ho => ho.ne (h (.inl ⟨hc, .inr (.inr ho)⟩)).2.1.symm⟩
    · rintro ⟨⟨h₁, h₂⟩, h⟩ (⟨hc, he | ho | ho⟩ | ho | ho)
      · exact ⟨hc, he⟩
      · exact absurd ho (h hc).1
      · exact absurd ho (h hc).2
      · exact absurd ho h₁
      · exact absurd ho h₂

/-- The host of one begins with the secret, the path of the other ends with it. -/
theorem texts_coincide : let g : Config := ⟨str "/", some (Sample.cert, str "certa.example")⟩
    let k : Config := ⟨str "/cert", some (Sample.cert, str "a.example")⟩
    g.key ≠ k.key ∧ g.text = k.text := ⟨by decide, by decide⟩

/-- Every pointer the loops over rules and paths follow is set. -/
def Followed (ingress : Ingress) : Prop :=
  ∀ rule ∈ ingress.rules, ∃ paths, rule.http = some paths ∧
    ∀ path ∈ paths, ∃ backend, path.backend.service = some backend

/-- Whether a path of the rule leads to the service. -/
def ruleNames (service : GoString) (rule : IngressRule) : Bool :=
  (rule.http.getD []).any fun path => path.backend.service.any fun b => b.name = service

/-- The host of the last rule that leads to the service. -/
def lastHost (ingress : Ingress) (service : GoString) : GoString :=
  (((ingress.rules.filter (ruleNames service)).getLast?).map (·.host)).getD []

theorem ruleNamesService_eq
    (h : ∃ paths, rule.http = some paths ∧ ∀ path ∈ paths, ∃ b, path.backend.service = some b)
    (service : GoString) : ruleNamesService service rule = .ok (ruleNames service rule) := by
  obtain ⟨paths, hp, hb⟩ := h
  unfold ruleNamesService ruleNames
  rw [hp, deref_some, ok_bind]
  refine anyM_eq_any ?_
  intro path hpath
  obtain ⟨b, hb⟩ := hb path hpath
  simp [hb]

theorem sniFor_eq {service : GoString} {rules : List IngressRule}
    (h : ∀ rule ∈ rules, ruleNamesService service rule = .ok (ruleNames service rule))
    (sni : GoString) : sniFor service rules sni =
      .ok ((((rules.filter (ruleNames service)).getLast?).map (·.host)).getD sni) := by
  induction rules generalizing sni with
  | nil => rfl
  | cons rule rules ih =>
    rw [sniFor, h rule (by simp), ok_bind, ih fun r hr => h r (.tail _ hr)]
    cases hn : ruleNames service rule with
    | false => simp [hn]
    | true =>
      cases hl : (rules.filter (ruleNames service)).getLast? <;>
        simp [hn, List.getLast?_cons, hl]

theorem Followed.ruleNamesService_eq (hf : Followed ingress) (service : GoString) :
    ∀ rule ∈ ingress.rules, ruleNamesService service rule = .ok (ruleNames service rule) :=
  fun rule hr => Envoy.ruleNamesService_eq (hf rule hr) service

theorem Followed.sniFor_eq (hf : Followed ingress) (service : GoString) :
    sniFor service ingress.rules [] = .ok (lastHost ingress service) :=
  Envoy.sniFor_eq (hf.ruleNamesService_eq service) []

/-- Whether the ingress names the service: what the match decides when it returns. -/
def refersTo (ingress : Ingress) (service : Service) : Bool :=
  service.ns = ingress.ns &&
    (defaultBackendNames ingress service.name || ingress.rules.any (ruleNames service.name))

theorem Followed.isServiceMatchIngress_eq (hf : Followed ingress) (service : Service) :
    isServiceMatchIngress ingress service = .ok (refersTo ingress service) := by
  unfold isServiceMatchIngress refersTo
  split_ifs with hns hd
  · simp [hns]
  · simp [hd, not_not.mp hns]
  · rw [anyM_eq_any (hf.ruleNamesService_eq service.name)]
    simp [hd, not_not.mp hns]

theorem Followed.matches_of_ruleNames (hf : Followed ingress) (hns : service.ns = ingress.ns)
    (hr : rule ∈ ingress.rules) (hn : ruleNames service.name rule) :
    isServiceMatchIngress ingress service = .ok true := by
  have hany : ingress.rules.any (ruleNames service.name) := List.any_eq_true.mpr ⟨rule, hr, hn⟩
  rw [hf.isServiceMatchIngress_eq]
  simp [refersTo, hns, hany]

theorem host2ServiceName_returns (rules : List IngressRule) (m : GoMap GoString (GoSet GoString)) :
    (∃ m', host2ServiceName rules m = .ok m') ↔
      ∀ rule ∈ rules, rule.host ≠ [] → rule.http.isSome := by
  induction rules generalizing m with
  | nil => simp [host2ServiceName]
  | cons rule rules ih =>
    rw [host2ServiceName, List.forall_mem_cons]
    by_cases hh : rule.host = []
    · rw [if_pos hh, ih]
      simp [hh]
    · rw [if_neg hh]
      cases hp : rule.http with
      | none => simp [hh]
      | some paths => simp [hh, ih]

theorem sniFor_returns (service : GoString) (rules : List IngressRule) (sni : GoString) :
    (∃ sni', sniFor service rules sni = .ok sni') ↔
      ∀ rule ∈ rules, ∃ b, ruleNamesService service rule = .ok b := by
  induction rules generalizing sni with
  | nil => simp [sniFor]
  | cons rule rules ih =>
    rw [sniFor, List.forall_mem_cons]
    cases hr : ruleNamesService service rule with
    | error e => simp
    | ok b => simp [ih]

/-- The pointers `getClustersForIngress` follows once it has its services. -/
def ClustersDefined (ingress : Ingress) (services : List Service) : Prop :=
  (∀ rule ∈ ingress.rules, rule.host ≠ [] → rule.http.isSome) ∧
    ∀ service ∈ services, service.ports ≠ [] →
      ∀ rule ∈ ingress.rules, ∃ b, ruleNamesService service.name rule = .ok b

theorem clusterResource_returns {nodegroup : GoSet GoString} (port : ServicePort) :
    (∃ r, clusterResource H L ingress nodegroup service port = .ok r) ↔
      ∀ rule ∈ ingress.rules, ∃ b, ruleNamesService service.name rule = .ok b := by
  rw [← sniFor_returns service.name ingress.rules []]
  constructor
  · rintro ⟨r, hr⟩
    obtain ⟨sni, name, hsni, -⟩ := clusterResource_ok hr
    exact ⟨sni, hsni⟩
  · rintro ⟨sni, hsni⟩
    unfold clusterResource
    rw [hsni, ok_bind]
    simp only [clustername_cluster, ok_bind]
    exact ⟨_, rfl⟩

/-- Clusters are produced for every port of every matched service, or not at all. -/
theorem getClustersForIngress_returns (hg : nodeGroupsOf ingress ≠ [])
    (hs : getServicesForIngress L ingress = .ok (.ok services))
    (hd : ClustersDefined ingress services) (hmem : service ∈ services) (hp : service.ports ≠ []) :
    ∃ rs, getClustersForIngress H L ingress = .ok (.ok rs) := by
  obtain ⟨m, hm⟩ := (host2ServiceName_returns ingress.rules ∅).mpr hd.1
  have hports : ∀ s ∈ services, ∃ l, mapM
      (clusterResource H L ingress (GoSet.ofList (nodeGroupsOf ingress)) s) s.ports = .ok l := by
    intro s hs
    refine mapM_of_ok fun port hport => (clusterResource_returns port).mpr ?_
    exact hd.2 s hs (List.ne_nil_of_mem hport)
  obtain ⟨clusters, hc⟩ := mapM_of_ok hports
  refine ⟨clusters.flatten, ?_⟩
  rw [getClustersForIngress, getNodeGroupForIngress_eq hg]
  dsimp only
  rw [hs, ok_bind]
  dsimp only
  rw [hm, ok_bind, hc, ok_bind, nonEmptyOr, if_neg]
  obtain ⟨l, hl, hsl⟩ := exists_mem_mapM hc hmem
  obtain ⟨port, hport⟩ := List.exists_mem_of_ne_nil _ hp
  obtain ⟨r, hr, -⟩ := exists_mem_mapM hsl hport
  simpa using ⟨l, hl, List.ne_nil_of_mem hr⟩

theorem clustersDefined_of_ok {res : Result (List Resource)} (hg : nodeGroupsOf ingress ≠ [])
    (h : getClustersForIngress H L ingress = .ok res)
    (hs : getServicesForIngress L ingress = .ok (.ok services)) :
    ClustersDefined ingress services := by
  unfold getClustersForIngress at h
  rw [getNodeGroupForIngress_eq hg] at h
  dsimp only at h
  rw [hs, ok_bind] at h
  obtain ⟨m, hm, h⟩ := ok_of_bind h
  obtain ⟨cs, hcs, -⟩ := ok_of_bind h
  refine ⟨(host2ServiceName_returns _ _).mp ⟨m, hm⟩, ?_⟩
  intro service hmem hne
  obtain ⟨l, -, hl⟩ := exists_mem_mapM hcs hmem
  obtain ⟨port, hport⟩ := List.exists_mem_of_ne_nil _ hne
  obtain ⟨r, -, hr⟩ := exists_mem_mapM hl hport
  exact (clusterResource_returns port).mp ⟨r, hr⟩

theorem Followed.clustersDefined (hf : Followed ingress) (services : List Service) :
    ClustersDefined ingress services := by
  constructor
  · intro rule hr _
    obtain ⟨paths, hp, -⟩ := hf rule hr
    simp [hp]
  · intro service _ _ rule hr
    exact ⟨_, hf.ruleNamesService_eq service.name rule hr⟩

theorem Followed.getServicesForIngress_returns (hf : Followed ingress)
    (hs : service ∈ L.services.objects) (hns : service.ns = ingress.ns)
    (hm : isServiceMatchIngress ingress service = .ok true) :
    ∃ services, getServicesForIngress L ingress = .ok (.ok services) ∧ service ∈ services := by
  have hl : service ∈ listByNamespace L.services ingress.ns :=
    (mem_listByNamespace ingress.ns_valid.1).mpr ⟨hs, hns⟩
  obtain ⟨services, hfilter⟩ := filterM_of_ok
    fun s _ => ⟨_, hf.isServiceMatchIngress_eq s⟩
  have hmem : service ∈ services := (mem_filterM hfilter).mpr ⟨hl, hm⟩
  refine ⟨services, ?_, hmem⟩
  rw [getServicesForIngress, hfilter, ok_bind, nonEmptyOr, if_neg]
  simpa using List.ne_nil_of_mem hmem

/-- A path of the rule leads to the service, which exists. -/
def Leads (L : Listers) (ingress : Ingress) (rule : IngressRule) (service : Service) : Prop :=
  ∃ paths, rule.http = some paths ∧ ∃ path ∈ paths, ∃ backend, path.backend.service = some backend ∧
    L.services.get (ingress.ns, backend.name) = some service

def PathTypesSet (L : Listers) (ingress : Ingress) : Prop :=
  ∀ rule ∈ ingress.rules, ∀ paths, rule.http = some paths → ∀ path ∈ paths, ∀ backend,
    path.backend.service = some backend → ∀ service,
    L.services.get (ingress.ns, backend.name) = some service → service.ports ≠ [] →
    path.pathType.isSome

/-- The cluster names used as route actions. -/
def routeClusters : Spec → List GoString
  | .route r => r.virtualHosts.flatMap fun v => v.routes.map (·.cluster)
  | _ => []

theorem portRoutes_eq {pathType : PathType} (hpt : path.pathType = some pathType) (host : GoString)
    (ports : List ServicePort) (route : Option Route) :
    portRoutes H service path (routeValidation L ingress host) ports route =
      .ok (match ports.getLast? with
        | none => route
        | some port =>
          let name := clusternameOf H service port (routeText L ingress service host)
          some ⟨routeMatchOf path.path name pathType, name⟩) := by
  induction ports generalizing route with
  | nil => rfl
  | cons port ports ih =>
    rw [portRoutes, clustername_route, ok_bind, hpt, deref_some, ok_bind, ih, List.getLast?_cons]
    cases ports.getLast? <;> rfl

theorem portRoutes_of_no_type (hpt : path.pathType = none) (host : GoString)
    {ports : List ServicePort} (hp : ports ≠ []) (route : Option Route) :
    portRoutes H service path (routeValidation L ingress host) ports route =
      .error .nilDereference := by
  cases ports with
  | nil => exact absurd rfl hp
  | cons port ports =>
    rw [portRoutes, clustername_route, ok_bind, hpt]
    rfl

theorem pathRoutes_eq (host : GoString) (hb : path.backend.service = some backend)
    (hs : L.services.get (ingress.ns, backend.name) = some service)
    (hpt : service.ports ≠ [] → path.pathType.isSome) :
    ∃ routes, pathRoutes H L ingress host path = .ok routes ∧
      ∀ c, c ∈ routes.map (·.cluster) ↔ ∃ port, service.ports.getLast? = some port ∧
        c = clusternameOf H service port (routeText L ingress service host) := by
  unfold pathRoutes
  rw [hb, deref_some, ok_bind, hs]
  dsimp only
  cases hl : service.ports.getLast? with
  | none =>
    have hnil : service.ports = [] := List.getLast?_eq_none_iff.mp hl
    rw [hnil]
    exact ⟨[], rfl, by simp⟩
  | some port =>
    have hne : service.ports ≠ [] := List.ne_nil_of_mem (List.mem_of_getLast? hl)
    obtain ⟨pathType, hpt⟩ := Option.isSome_iff_exists.mp (hpt hne)
    rw [portRoutes_eq hpt, hl, ok_bind]
    refine ⟨_, rfl, ?_⟩
    intro c
    -- a copy per port, and there is a port
    obtain ⟨p₀, hp₀⟩ := List.exists_mem_of_ne_nil _ hne
    simp only [List.mem_map, List.mem_flatMap, Option.mem_toList, Option.some.injEq,
      exists_eq_left']
    constructor
    · rintro ⟨r, ⟨-, -, rfl⟩, rfl⟩
      rfl
    · rintro rfl
      exact ⟨_, ⟨p₀, hp₀, rfl⟩, rfl⟩

theorem pathRoutes_of_missing (hb : path.backend.service = some backend)
    (hs : L.services.get (ingress.ns, backend.name) = none) :
    pathRoutes H L ingress host path = .ok [] := by
  unfold pathRoutes
  rw [hb, deref_some, ok_bind, hs]

theorem pathRoutes_ok {routes : List Route} (h : pathRoutes H L ingress host path = .ok routes) :
    ∃ backend, path.backend.service = some backend ∧ ∀ service,
      L.services.get (ingress.ns, backend.name) = some service → service.ports ≠ [] →
      path.pathType.isSome := by
  obtain ⟨backend, hb, h⟩ := ok_of_bind h
  rw [deref_eq_ok] at hb
  refine ⟨backend, hb, ?_⟩
  intro service hs hne
  cases hpt : path.pathType with
  | some t => rfl
  | none =>
    rw [hs] at h
    dsimp only at h
    rw [portRoutes_of_no_type hpt host hne] at h
    cases h

theorem ruleVirtualHost_ok {v : Option VirtualHost} (h : ruleVirtualHost H L ingress rule = .ok v) :
    ∃ paths routes, rule.http = some paths ∧
      mapM (pathRoutes H L ingress rule.host) paths = .ok routes ∧
      ∀ c, (∃ v', v = some v' ∧ c ∈ v'.routes.map (·.cluster)) ↔
        c ∈ routes.flatten.map (·.cluster) := by
  obtain ⟨paths, hp, h⟩ := ok_of_bind h
  obtain ⟨routes, hr, h⟩ := ok_of_bind h
  rw [deref_eq_ok] at hp
  cases h
  refine ⟨paths, routes, hp, hr, ?_⟩
  intro c
  by_cases he : routes.flatten = []
  · simp [he]
  · rw [if_neg (by simpa using he)]
    simp only [Option.some.injEq, exists_eq_left']

theorem leads_of_virtualHost {v : VirtualHost}
    (h : ruleVirtualHost H L ingress rule = .ok (some v)) :
    ∃ service, Leads L ingress rule service ∧ service.ports ≠ [] := by
  obtain ⟨paths, hp, h⟩ := ok_of_bind h
  obtain ⟨routes, hm, h⟩ := ok_of_bind h
  rw [deref_eq_ok] at hp
  have hne : routes.flatten ≠ [] := by
    intro he
    simp [he] at h
  obtain ⟨route, hroute⟩ := List.exists_mem_of_ne_nil _ hne
  obtain ⟨l, hl, hroute⟩ := List.mem_flatten.mp hroute
  obtain ⟨path, hpath, hpr⟩ := (mem_mapM hm).mp hl
  obtain ⟨backend, hb, hpr⟩ := ok_of_bind hpr
  rw [deref_eq_ok] at hb
  cases hs : L.services.get (ingress.ns, backend.name) with
  | none =>
    rw [hs] at hpr
    cases hpr
    cases hroute
  | some service =>
    refine ⟨service, ⟨paths, hp, path, hpath, backend, hb, hs⟩, ?_⟩
    intro hn
    rw [hs] at hpr
    obtain ⟨r, -, hpr⟩ := ok_of_bind hpr
    rw [hn] at hpr
    cases hpr
    cases hroute

/-- A walk through the rules that returns shows that every pointer on its way was set. -/
theorem followed_of_virtualHosts {vhosts : List (Option VirtualHost)}
    (hv : mapM (ruleVirtualHost H L ingress) ingress.rules = .ok vhosts) :
    Followed ingress ∧ PathTypesSet L ingress := by
  have hrule : ∀ rule ∈ ingress.rules, ∃ paths routes, rule.http = some paths ∧
      mapM (pathRoutes H L ingress rule.host) paths = .ok routes := by
    intro rule hr
    obtain ⟨v, -, hv⟩ := exists_mem_mapM hv hr
    obtain ⟨paths, routes, hp, hm, -⟩ := ruleVirtualHost_ok hv
    exact ⟨paths, routes, hp, hm⟩
  constructor
  · intro rule hr
    obtain ⟨paths, routes, hp, hm⟩ := hrule rule hr
    refine ⟨paths, hp, ?_⟩
    intro path hpath
    obtain ⟨l, -, hl⟩ := exists_mem_mapM hm hpath
    obtain ⟨backend, hb, -⟩ := pathRoutes_ok hl
    exact ⟨backend, hb⟩
  · intro rule hr paths hp path hpath backend hb service hs hne
    obtain ⟨paths', routes, hp', hm⟩ := hrule rule hr
    obtain rfl := Option.some.inj (hp'.symm.trans hp)
    obtain ⟨l, -, hl⟩ := exists_mem_mapM hm hpath
    obtain ⟨backend', hb', hpt⟩ := pathRoutes_ok hl
    obtain rfl := Option.some.inj (hb'.symm.trans hb)
    exact hpt service hs hne

theorem followed_of_getRouteForIngress {res : Result Resource} (hg : nodeGroupsOf ingress ≠ [])
    (h : getRouteForIngress H L ingress = .ok res) : Followed ingress ∧ PathTypesSet L ingress := by
  unfold getRouteForIngress at h
  rw [getNodeGroupForIngress_eq hg] at h
  obtain ⟨vhosts, hv, -⟩ := ok_of_bind h
  exact followed_of_virtualHosts hv

theorem mem_routeClusters {r : Resource} (h : getRouteForIngress H L ingress = .ok (.ok r))
    {c : GoString} : c ∈ routeClusters r.spec ↔ ∃ rule ∈ ingress.rules, ∃ service,
      Leads L ingress rule service ∧ ∃ port, service.ports.getLast? = some port ∧
        c = clusternameOf H service port (routeText L ingress service rule.host) := by
  obtain ⟨-, vhosts, hv, -, rfl⟩ := getRouteForIngress_ok h
  have hset := (followed_of_virtualHosts hv).2
  have hclusters : c ∈ routeClusters (routeResource H ingress
      (GoSet.ofList (nodeGroupsOf ingress)) (vhosts.filterMap id)).spec ↔
      ∃ v, some v ∈ vhosts ∧ c ∈ v.routes.map (·.cluster) := by
    simp [routeClusters, routeResource, routeConfiguration]
  rw [hclusters]
  constructor
  · rintro ⟨v, hmem, hc⟩
    obtain ⟨rule, hr, hrule⟩ := (mem_mapM hv).mp hmem
    obtain ⟨paths, routes, hp, hm, hiff⟩ := ruleVirtualHost_ok hrule
    have hc := (hiff c).mp ⟨v, rfl, hc⟩
    obtain ⟨route, hroute, rfl⟩ := List.mem_map.mp hc
    obtain ⟨l, hl, hroute⟩ := List.mem_flatten.mp hroute
    obtain ⟨path, hpath, hpr⟩ := (mem_mapM hm).mp hl
    obtain ⟨backend, hb, hpt⟩ := pathRoutes_ok hpr
    cases hs : L.services.get (ingress.ns, backend.name) with
    | none =>
      rw [pathRoutes_of_missing hb hs] at hpr
      cases hpr
      cases hroute
    | some service =>
      obtain ⟨l', hl', hiff'⟩ := pathRoutes_eq rule.host hb hs (hpt service hs)
      obtain rfl := Except.ok.inj (hl'.symm.trans hpr)
      exact ⟨rule, hr, service, ⟨paths, hp, path, hpath, backend, hb, hs⟩,
        (hiff' _).mp (List.mem_map_of_mem hroute)⟩
  · rintro ⟨rule, hr, service, ⟨paths, hp, path, hpath, backend, hb, hs⟩, hc⟩
    obtain ⟨v, hmem, hrule⟩ := exists_mem_mapM hv hr
    obtain ⟨paths', routes, hp', hm, hiff⟩ := ruleVirtualHost_ok hrule
    obtain rfl := Option.some.inj (hp'.symm.trans hp)
    obtain ⟨l, hl, hpr⟩ := exists_mem_mapM hm hpath
    obtain ⟨l', hl', hiff'⟩ := pathRoutes_eq rule.host hb hs
      (hset rule hr paths' hp path hpath backend hb service hs)
    obtain rfl := Except.ok.inj (hl'.symm.trans hpr)
    have hc := (hiff' c).mpr hc
    obtain ⟨route, hroute, rfl⟩ := List.mem_map.mp hc
    obtain ⟨v', rfl, hv'⟩ :=
      (hiff _).mpr (List.mem_map_of_mem (List.mem_flatten.mpr ⟨l', hl, hroute⟩))
    exact ⟨v', hmem, hv'⟩

theorem virtualHosts_returns (hf : Followed ingress) (hset : PathTypesSet L ingress) :
    ∃ vhosts, mapM (ruleVirtualHost H L ingress) ingress.rules = .ok vhosts := by
  have hpath : ∀ rule ∈ ingress.rules, ∀ paths, rule.http = some paths → ∀ path ∈ paths,
      ∃ l, pathRoutes H L ingress rule.host path = .ok l := by
    intro rule hr paths hp path hpath
    obtain ⟨paths', hp', hback⟩ := hf rule hr
    obtain rfl := Option.some.inj (hp'.symm.trans hp)
    obtain ⟨backend, hb⟩ := hback path hpath
    cases hs : L.services.get (ingress.ns, backend.name) with
    | none => exact ⟨[], pathRoutes_of_missing hb hs⟩
    | some service =>
      obtain ⟨l, hl, -⟩ := pathRoutes_eq rule.host hb hs
        (hset rule hr paths' hp path hpath backend hb service hs)
      exact ⟨l, hl⟩
  refine mapM_of_ok ?_
  intro rule hr
  obtain ⟨paths, hp, -⟩ := hf rule hr
  obtain ⟨routes, hm⟩ := mapM_of_ok (hpath rule hr paths hp)
  unfold ruleVirtualHost
  rw [hp, deref_some, ok_bind, hm, ok_bind]
  exact ⟨_, rfl⟩

theorem getRouteForIngress_returns (hg : nodeGroupsOf ingress ≠ []) (hf : Followed ingress)
    (hset : PathTypesSet L ingress) (hr : rule ∈ ingress.rules) (hl : Leads L ingress rule service)
    (hne : service.ports ≠ []) :
    ∃ r, getRouteForIngress H L ingress = .ok (.ok r) := by
  obtain ⟨vhosts, hv⟩ := virtualHosts_returns hf hset
  have hne' : vhosts.filterMap id ≠ [] := by
    obtain ⟨v, hmem, hrule⟩ := exists_mem_mapM hv hr
    obtain ⟨paths, routes, hp, hm, hiff⟩ := ruleVirtualHost_ok hrule
    obtain ⟨paths', hp', path, hpath, backend, hb, hs⟩ := hl
    obtain rfl := Option.some.inj (hp'.symm.trans hp)
    obtain ⟨l, hl, hpr⟩ := exists_mem_mapM hm hpath
    obtain ⟨l', hl', hiff'⟩ := pathRoutes_eq rule.host hb hs
      (hset rule hr paths' hp path hpath backend hb service hs)
    obtain rfl := Except.ok.inj (hl'.symm.trans hpr)
    obtain ⟨port, hport⟩ := Option.ne_none_iff_exists'.mp (mt List.getLast?_eq_none_iff.mp hne)
    have hc := (hiff' _).mpr ⟨port, hport, rfl⟩
    obtain ⟨route, hroute, hc⟩ := List.mem_map.mp hc
    obtain ⟨v', rfl, -⟩ :=
      (hiff _).mpr (List.mem_map_of_mem (List.mem_flatten.mpr ⟨l', hl, hroute⟩))
    exact List.ne_nil_of_mem (List.mem_filterMap.mpr ⟨some v', hmem, rfl⟩)
  refine ⟨routeResource H ingress (GoSet.ofList (nodeGroupsOf ingress)) (vhosts.filterMap id), ?_⟩
  rw [getRouteForIngress, getNodeGroupForIngress_eq hg]
  dsimp only
  rw [hv, ok_bind, nonEmptyOr, if_neg (by simpa using hne')]
  rfl

/-- The names of the clusters produced for an ingress all of whose pointers are set. -/
theorem Followed.mem_clusters (hf : Followed ingress) {clusters : List Resource}
    (h : getClustersForIngress H L ingress = .ok (.ok clusters)) {c : GoString} :
    (∃ C ∈ clusters, C.spec.xdsName = c) ↔ ∃ service ∈ L.services.objects, service.ns = ingress.ns ∧
      isServiceMatchIngress ingress service = .ok true ∧ ∃ port ∈ service.ports,
        c = clusternameOf H service port
          (clusterText L ingress service (lastHost ingress service.name)) := by
  obtain ⟨-, services, hs, -, hmem⟩ := getClustersForIngress_ok h
  have hservice (s : Service) := (getServicesForIngress_ok hs).2 s
  simp only [mem_listByNamespace ingress.ns_valid.1] at hservice
  have hname {s : Service} {port : ServicePort} {C : Resource}
      (hC : clusterResource H L ingress (GoSet.ofList (nodeGroupsOf ingress)) s port = .ok C) :
      C.spec.xdsName =
        clusternameOf H s port (clusterText L ingress s (lastHost ingress s.name)) := by
    obtain ⟨sni, name, hsni, hname, rfl⟩ := clusterResource_ok hC
    obtain rfl : lastHost ingress s.name = sni :=
      Except.ok.inj ((hf.sniFor_eq s.name).symm.trans hsni)
    rw [clustername_cluster] at hname
    exact (Except.ok.inj hname).symm
  constructor
  · rintro ⟨C, hC, rfl⟩
    obtain ⟨service, hsv, port, hport, hC⟩ := (hmem C).mp hC
    obtain ⟨⟨ho, hns⟩, hm⟩ := (hservice service).mp hsv
    exact ⟨service, ho, hns, hm, port, hport, hname hC⟩
  · rintro ⟨service, ho, hns, hm, port, hport, rfl⟩
    have hsv := (hservice service).mpr ⟨⟨ho, hns⟩, hm⟩
    obtain ⟨C, hC⟩ := (clusterResource_returns port).mpr
      fun rule hr => ⟨_, hf.ruleNamesService_eq service.name rule hr⟩
    exact ⟨C, (hmem C).mpr ⟨service, hsv, port, hport, hC⟩, hname hC⟩

end KubeEdge.Envoy
