import KubeEdge.Envoy.Translate

namespace KubeEdge.Envoy
open Go

variable {H : Digest} {L : Listers} {ingress : Ingress}

variable {nodegroup : GoSet GoString} {α : Type} {services : List Service} {rs : List Resource}
  {r : Resource} {service : Service} {port : ServicePort} {ns : GoString}

theorem getNodeGroupForIngress_ok (h : getNodeGroupForIngress ingress = .ok nodegroup) :
    nodegroup = GoSet.ofList (nodeGroupsOf ingress) ∧ nodeGroupsOf ingress ≠ [] := by
  unfold getNodeGroupForIngress at h
  dsimp only at h
  split_ifs at h with he
  cases h
  refine ⟨rfl, ?_⟩
  intro hn
  rw [hn] at he
  exact he rfl

/-- An ingress without groups gets an error from every function, one with groups its set. -/
theorem getNodeGroupForIngress_cases (ingress : Ingress) :
    (nodeGroupsOf ingress = [] ∧ ∃ e, getNodeGroupForIngress ingress = .error e) ∨
    (nodeGroupsOf ingress ≠ [] ∧
      getNodeGroupForIngress ingress = .ok (GoSet.ofList (nodeGroupsOf ingress))) := by
  cases h : getNodeGroupForIngress ingress with
  | ok g =>
    obtain ⟨rfl, hne⟩ := getNodeGroupForIngress_ok h
    exact .inr ⟨hne, rfl⟩
  | error e =>
    refine .inl ⟨?_, e, rfl⟩
    unfold getNodeGroupForIngress at h
    dsimp only at h
    split_ifs at h with he
    rw [GoSet.isEmpty_iff] at he
    simpa [List.eq_nil_iff_forall_not_mem] using he

theorem getNodeGroupForIngress_eq (hg : nodeGroupsOf ingress ≠ []) :
    getNodeGroupForIngress ingress = .ok (GoSet.ofList (nodeGroupsOf ingress)) :=
  ((getNodeGroupForIngress_cases ingress).resolve_left fun h => hg h.1).2

theorem nonEmptyOr_ok {err : GoString} {l r : List α} (h : nonEmptyOr err l = .ok r) :
    r = l ∧ l ≠ [] := by
  unfold nonEmptyOr at h
  split_ifs at h with he
  cases h
  exact ⟨rfl, by simpa using he⟩

theorem getServicesForIngress_ok (h : getServicesForIngress L ingress = .ok (.ok services)) :
    services ≠ [] ∧ ∀ s, s ∈ services ↔
      s ∈ listByNamespace L.services ingress.ns ∧ isServiceMatchIngress ingress s = .ok true := by
  obtain ⟨l, hl, h⟩ := ok_of_bind h
  obtain ⟨rfl, hne⟩ := nonEmptyOr_ok (Except.ok.inj h)
  exact ⟨hne, fun s => mem_filterM hl⟩

theorem mem_listByNamespace {key : α → GoString × GoString} {s : Indexer α key} (hns : ns ≠ [])
    {o : α} :
    o ∈ listByNamespace s ns ↔ o ∈ s.objects ∧ (key o).1 = ns := by
  rw [listByNamespace, if_neg hns]
  simp

theorem getSecretsForIngress_ok (h : getSecretsForIngress H L ingress = .ok rs) :
    nodeGroupsOf ingress ≠ [] ∧ rs = ingress.tls.filterMap fun tls =>
      (L.secrets.get (ingress.ns, tls.secretName)).map
        (secretResource H ingress (GoSet.ofList (nodeGroupsOf ingress))) := by
  unfold getSecretsForIngress at h
  rcases getNodeGroupForIngress_cases ingress with ⟨-, e, he⟩ | ⟨hne, hg⟩
  · rw [he] at h
    cases h
  · rw [hg] at h
    cases h
    exact ⟨hne, rfl⟩

theorem getEndpointsForIngress_ok (h : getEndpointsForIngress H L ingress = .ok (.ok rs)) :
    nodeGroupsOf ingress ≠ [] ∧ ∃ services, getServicesForIngress L ingress = .ok (.ok services) ∧
      rs = clusterLoadAssignments H L ingress (GoSet.ofList (nodeGroupsOf ingress)) none services ∧
      rs ≠ [] := by
  unfold getEndpointsForIngress at h
  rcases getNodeGroupForIngress_cases ingress with ⟨-, e, he⟩ | ⟨hne, hg⟩
  · rw [he] at h
    cases h
  · rw [hg] at h
    obtain ⟨res, hres, h⟩ := ok_of_bind h
    cases res with
    | error e => cases h
    | ok services =>
      obtain ⟨rfl, hr⟩ := nonEmptyOr_ok (Except.ok.inj h)
      exact ⟨hne, services, hres, rfl, hr⟩

theorem getClustersForIngress_ok (h : getClustersForIngress H L ingress = .ok (.ok rs)) :
    nodeGroupsOf ingress ≠ [] ∧ ∃ services, getServicesForIngress L ingress = .ok (.ok services) ∧
      rs ≠ [] ∧ ∀ r, r ∈ rs ↔ ∃ service ∈ services, ∃ port ∈ service.ports,
        clusterResource H L ingress (GoSet.ofList (nodeGroupsOf ingress)) service port = .ok r := by
  unfold getClustersForIngress at h
  rcases getNodeGroupForIngress_cases ingress with ⟨-, e, he⟩ | ⟨hne, hg⟩
  · rw [he] at h
    cases h
  · rw [hg] at h
    obtain ⟨res, hres, h⟩ := ok_of_bind h
    cases res with
    | error e => cases h
    | ok services =>
      obtain ⟨-, -, h⟩ := ok_of_bind h
      obtain ⟨cs, hcs, h⟩ := ok_of_bind h
      obtain ⟨rfl, hr⟩ := nonEmptyOr_ok (Except.ok.inj h)
      refine ⟨hne, services, hres, hr, ?_⟩
      intro r
      rw [mem_flatten_mapM hcs]
      refine exists_congr fun service => and_congr_right fun hs => ?_
      obtain ⟨l, -, hl⟩ := exists_mem_mapM hcs hs
      simp [hl, mem_mapM hl]

theorem getRouteForIngress_ok (h : getRouteForIngress H L ingress = .ok (.ok r)) :
    nodeGroupsOf ingress ≠ [] ∧
      ∃ vhosts, mapM (ruleVirtualHost H L ingress) ingress.rules = .ok vhosts ∧
      vhosts.filterMap id ≠ [] ∧
      r = routeResource H ingress (GoSet.ofList (nodeGroupsOf ingress)) (vhosts.filterMap id) := by
  unfold getRouteForIngress at h
  rcases getNodeGroupForIngress_cases ingress with ⟨-, e, he⟩ | ⟨hne, hg⟩
  · rw [he] at h
    cases h
  · rw [hg] at h
    obtain ⟨vhosts, hv, h⟩ := ok_of_bind h
    refine ⟨hne, vhosts, hv, ?_⟩
    unfold nonEmptyOr at h
    split_ifs at h with hemp
    · cases h
    · cases h
      exact ⟨by simpa using hemp, rfl⟩

theorem getListenersForIngress_ok (h : getListenersForIngress H L ingress = .ok (.ok rs)) :
    nodeGroupsOf ingress ≠ [] ∧ rs ≠ [] ∧ ∀ r, r ∈ rs ↔ ∃ rule ∈ ingress.rules, ∃ l,
      ruleListeners H L ingress (GoSet.ofList (nodeGroupsOf ingress)) rule = .ok l ∧ r ∈ l := by
  unfold getListenersForIngress at h
  rcases getNodeGroupForIngress_cases ingress with ⟨-, e, he⟩ | ⟨hne, hg⟩
  · rw [he] at h
    cases h
  · rw [hg] at h
    obtain ⟨ls, hls, h⟩ := ok_of_bind h
    obtain ⟨rfl, hr⟩ := nonEmptyOr_ok (Except.ok.inj h)
    exact ⟨hne, hr, fun r => mem_flatten_mapM hls⟩

/-- The endpoints of a service's last port, if it has a port and an Endpoints object. -/
def assignment (L : Listers) (service : Service) : Option (List LbEndpoint) :=
  service.ports.getLast?.bind fun port =>
    (L.endpoints.get (service.ns, service.name)).map (lbEndpointsFor port)

/-- Only the last port counts; without an assignment the variable keeps its value. -/
theorem clusterLoadAssignmentFor_eq (nodegroup : GoSet GoString) (service : Service)
    (cla : Option Resource) : clusterLoadAssignmentFor H L ingress nodegroup service cla =
      ((assignment L service).map (endpointResource H ingress nodegroup service)).or cla := by
  unfold clusterLoadAssignmentFor assignment
  rcases List.eq_nil_or_concat service.ports with hp | ⟨ports, port, hp⟩
  · rw [hp]
    rfl
  · rw [hp, List.concat_eq_append, List.getLast?_concat, Option.bind_some]
    cases L.endpoints.get (service.ns, service.name) with
    | none => exact List.foldl_fixed _
    | some endpoints =>
      rw [List.foldl_concat]
      rfl

/-- A load assignment in the list was made for some service, or was in the variable to
begin with. -/
theorem mem_clusterLoadAssignments {cla : Option Resource}
    (h : r ∈ clusterLoadAssignments H L ingress nodegroup cla services) :
    r ∈ cla ∨ ∃ service ∈ services, ∃ lbs, assignment L service = some lbs ∧
      r = endpointResource H ingress nodegroup service lbs := by
  induction services generalizing cla with
  | nil => simp [clusterLoadAssignments] at h
  | cons service services ih =>
    rw [clusterLoadAssignments, List.mem_append, Option.mem_toList] at h
    -- either way the element is in the variable after this service, or comes later
    have hvar : r ∈ clusterLoadAssignmentFor H L ingress nodegroup service cla ∨ _ :=
      h.elim .inl ih
    rcases hvar with hvar | ⟨s, hs, hr⟩
    · rw [clusterLoadAssignmentFor_eq, Option.mem_def, Option.or_eq_some_iff] at hvar
      rcases hvar with hr | ⟨-, hr⟩
      · obtain ⟨lbs, ha, rfl⟩ := Option.map_eq_some_iff.mp hr
        exact .inr ⟨service, by simp, lbs, ha, rfl⟩
      · exact .inl hr
    · exact .inr ⟨s, .tail _ hs, hr⟩

theorem clusterResource_ok (h : clusterResource H L ingress nodegroup service port = .ok r) :
    ∃ sni name, sniFor service.name ingress.rules [] = .ok sni ∧
      clustername H service port [] (healthCheckPolicy service)
        (clusterValidation (index service.annotations serviceHTTPProtocolAnnotation)
          (clusterSecret L ingress sni) sni) = .ok name ∧
      r = { name
            ns := ingress.ns
            resourceVersion := service.resourceVersion
            nodeGroup := nodegroup
            ingressRef := GoSet.single (keyFunc ingress.toObjectMeta)
            spec := .cluster
              { clusterOf H service port sni (clusterSecret L ingress sni) with name } } := by
  obtain ⟨sni, hsni, h⟩ := ok_of_bind h
  obtain ⟨name, hname, h⟩ := ok_of_bind h
  cases h
  exact ⟨sni, name, hsni, hname, rfl⟩

theorem mem_ruleListeners {rule : IngressRule} {l : List Resource}
    (h : ruleListeners H L ingress nodegroup rule = .ok l) (hr : r ∈ l) :
    ∃ paths, rule.http = some paths ∧ ∃ path ∈ paths, ∃ b, path.backend.service = some b ∧
      (r = listenerResource H ingress nodegroup envoyHTTPListener b (httpListener H b) ∨
      ∃ secretName secret, listenerSecretName ingress.tls rule.host = some secretName ∧
        L.secrets.get (ingress.ns, secretName) = some secret ∧
        r = listenerResource H ingress nodegroup envoyHTTPSListener b
          (httpsListener H rule.host secret b)) := by
  obtain ⟨paths, hp, h⟩ := ok_of_bind h
  rw [deref_eq_ok] at hp
  refine ⟨paths, hp, ?_⟩
  have hhttp : r ∈ (paths.filterMap (·.backend.service)).map
        (fun b => listenerResource H ingress nodegroup envoyHTTPListener b (httpListener H b)) ∨
      ∃ secretName secret, listenerSecretName ingress.tls rule.host = some secretName ∧
        L.secrets.get (ingress.ns, secretName) = some secret ∧
        r ∈ (paths.filterMap (·.backend.service)).map (fun b =>
          listenerResource H ingress nodegroup envoyHTTPSListener b
            (httpsListener H rule.host secret b)) := by
    split at h
    · cases h
      exact .inl hr
    · rename_i secretName hn
      split at h
      · cases h
        exact .inl hr
      · rename_i secret hs
        cases h
        rcases List.mem_append.mp hr with hr | hr
        · exact .inl hr
        · exact .inr ⟨secretName, secret, hn, hs, hr⟩
  rcases hhttp with hr | ⟨secretName, secret, hn, hs, hr⟩
  · obtain ⟨b, hb, rfl⟩ := List.mem_map.mp hr
    obtain ⟨path, hpath, hb⟩ := List.mem_filterMap.mp hb
    exact ⟨path, hpath, b, hb, .inl rfl⟩
  · obtain ⟨b, hb, rfl⟩ := List.mem_map.mp hr
    obtain ⟨path, hpath, hb⟩ := List.mem_filterMap.mp hb
    exact ⟨path, hpath, b, hb, .inr ⟨secretName, secret, hn, hs, rfl⟩⟩

/-- A resource made for `ingress`: it lies in the namespace of the ingress, goes to
its groups, is referenced by it alone, and is named after its kind. -/
structure Generated (H : Digest) (ingress : Ingress) (r : Resource) : Prop where
  ns_eq : r.ns = ingress.ns
  nodeGroup_eq : r.nodeGroup = GoSet.ofList (nodeGroupsOf ingress)
  ingressRef_eq : r.ingressRef = GoSet.single (keyFunc ingress.toObjectMeta)
  named : Named H ingress.ns r.spec.kind r.name

theorem Named.of_ns {k : Kind} {name ns' : GoString} (h : ns = ns') (hn : Named H ns k name) :
    Named H ns' k name := h ▸ hn

theorem secretResource_generated {secret : Secret} (hns : secret.ns = ingress.ns) :
    Generated H ingress
      (secretResource H ingress (GoSet.ofList (nodeGroupsOf ingress)) secret) where
  ns_eq := rfl
  nodeGroup_eq := rfl
  ingressRef_eq := rfl
  named := (Named.secret secret).of_ns hns

theorem endpointResource_generated (hns : service.ns = ingress.ns) (lbs : List LbEndpoint) :
    Generated H ingress
      (endpointResource H ingress (GoSet.ofList (nodeGroupsOf ingress)) service lbs) where
  ns_eq := hns
  nodeGroup_eq := rfl
  ingressRef_eq := rfl
  named := (Named.endpoint service).of_ns hns

theorem routeResource_generated (vhosts : List VirtualHost) : Generated H ingress
    (routeResource H ingress (GoSet.ofList (nodeGroupsOf ingress)) vhosts) where
  ns_eq := rfl
  nodeGroup_eq := rfl
  ingressRef_eq := rfl
  named := Named.route ingress

/-- An http listener bears its own resource name, which is not that of the https listeners. -/
theorem httpListener_kind (b : IngressServiceBackend) :
    Spec.kind (.listener (httpListener H b)) = .httpListener :=
  if_neg (listenerName_ne_https H b.port.number)

theorem httpsListener_kind (host : GoString) (secret : Secret) (b : IngressServiceBackend) :
    Spec.kind (.listener (httpsListener H host secret b)) = .httpsListener := by
  have hname : (httpsListener H host secret b).name = envoyHTTPSListener := rfl
  simp [Spec.kind, hname]

theorem httpListener_generated (b : IngressServiceBackend) : Generated H ingress
    (listenerResource H ingress (GoSet.ofList (nodeGroupsOf ingress)) envoyHTTPListener b
      (httpListener H b)) where
  ns_eq := rfl
  nodeGroup_eq := rfl
  ingressRef_eq := rfl
  named := (httpListener_kind (H := H) b) ▸ Named.httpListener ingress.ns b.port.number

theorem httpsListener_generated (host : GoString) (secret : Secret) (b : IngressServiceBackend) :
    Generated H ingress
      (listenerResource H ingress (GoSet.ofList (nodeGroupsOf ingress)) envoyHTTPSListener b
        (httpsListener H host secret b)) where
  ns_eq := rfl
  nodeGroup_eq := rfl
  ingressRef_eq := rfl
  named :=
    (httpsListener_kind (H := H) host secret b) ▸ Named.httpsListener ingress.ns b.port.number

theorem service_ns_of_mem (h : getServicesForIngress L ingress = .ok (.ok services)) {s : Service}
    (hs : s ∈ services) :
    s.ns = ingress.ns :=
  ((mem_listByNamespace ingress.ns_valid.1).mp (((getServicesForIngress_ok h).2 s).mp hs).1).2

theorem clusterResource_generated (hns : service.ns = ingress.ns)
    (h : clusterResource H L ingress (GoSet.ofList (nodeGroupsOf ingress)) service port = .ok r) :
    Generated H ingress r := by
  obtain ⟨sni, name, -, hname, rfl⟩ := clusterResource_ok h
  exact ⟨rfl, rfl, rfl, (Named.cluster service port _ _ _ name hname).of_ns hns⟩

theorem mem_valuesOf {res : Result (List α)} {a : α} :
    a ∈ valuesOf res ↔ ∃ l, res = .ok l ∧ a ∈ l := by
  cases res <;> simp [valuesOf]

@[simp] theorem valuesOf_nonEmptyOr (err : GoString) (l : List α) :
    valuesOf (nonEmptyOr err l) = l := by
  unfold nonEmptyOr
  split_ifs with h
  · exact (List.isEmpty_iff.mp h).symm
  · rfl

section

variable (h : envoyResourcesForIngress H L ingress = .ok rs)
include h

theorem envoyResourcesForIngress_ok :
    ∃ endpoints clusters route listeners,
      getEndpointsForIngress H L ingress = .ok endpoints ∧
      getClustersForIngress H L ingress = .ok clusters ∧
      getRouteForIngress H L ingress = .ok route ∧
      getListenersForIngress H L ingress = .ok listeners ∧
      rs = valuesOf (getSecretsForIngress H L ingress) ++ valuesOf endpoints ++ valuesOf clusters ++
        valuesOf (route.map ([·])) ++ valuesOf listeners := by
  obtain ⟨endpoints, he, h⟩ := ok_of_bind h
  obtain ⟨clusters, hc, h⟩ := ok_of_bind h
  obtain ⟨route, hr, h⟩ := ok_of_bind h
  obtain ⟨listeners, hl, h⟩ := ok_of_bind h
  exact ⟨endpoints, clusters, route, listeners, he, hc, hr, hl, (Except.ok.inj h).symm⟩

theorem mem_envoyResourcesForIngress : r ∈ rs ↔
      (∃ l, getSecretsForIngress H L ingress = .ok l ∧ r ∈ l) ∨
      (∃ l, getEndpointsForIngress H L ingress = .ok (.ok l) ∧ r ∈ l) ∨
      (∃ l, getClustersForIngress H L ingress = .ok (.ok l) ∧ r ∈ l) ∨
      getRouteForIngress H L ingress = .ok (.ok r) ∨
      (∃ l, getListenersForIngress H L ingress = .ok (.ok l) ∧ r ∈ l) := by
  obtain ⟨endpoints, clusters, route, listeners, he, hc, hr, hl, rfl⟩ :=
    envoyResourcesForIngress_ok h
  have hroute : r ∈ valuesOf (route.map ([·])) ↔ route = .ok r := by
    cases route <;> simp [valuesOf, Except.map, eq_comm]
  simp [List.mem_append, mem_valuesOf, he, hc, hr, hl, Except.ok.injEq, hroute]

theorem generated_of_mem (hr : r ∈ rs) : Generated H ingress r := by
  rcases (mem_envoyResourcesForIngress h).mp hr with
    ⟨l, hl, hr⟩ | ⟨l, hl, hr⟩ | ⟨l, hl, hr⟩ | hr | ⟨l, hl, hr⟩
  · obtain ⟨-, rfl⟩ := getSecretsForIngress_ok hl
    obtain ⟨tls, -, hr⟩ := List.mem_filterMap.mp hr
    obtain ⟨secret, hs, rfl⟩ := Option.map_eq_some_iff.mp hr
    exact secretResource_generated (congrArg Prod.fst (Indexer.get_eq_some.mp hs).2)
  · obtain ⟨-, services, hs, rfl, -⟩ := getEndpointsForIngress_ok hl
    rcases mem_clusterLoadAssignments hr with hr | ⟨service, hmem, lbs, -, rfl⟩
    · cases hr
    · exact endpointResource_generated (service_ns_of_mem hs hmem) _
  · obtain ⟨-, services, hs, -, hmem⟩ := getClustersForIngress_ok hl
    obtain ⟨service, hservice, port, -, hr⟩ := (hmem r).mp hr
    exact clusterResource_generated (service_ns_of_mem hs hservice) hr
  · obtain ⟨-, vhosts, -, -, rfl⟩ := getRouteForIngress_ok hr
    exact routeResource_generated _
  · obtain ⟨-, -, hmem⟩ := getListenersForIngress_ok hl
    obtain ⟨rule, -, l', hl', hr⟩ := (hmem r).mp hr
    obtain ⟨paths, -, path, -, b, -, rfl | ⟨name, secret, -, -, rfl⟩⟩ := mem_ruleListeners hl' hr
    · exact httpListener_generated b
    · exact httpsListener_generated _ secret b

end

theorem envoyResourcesForIngress_of_no_groups (hn : nodeGroupsOf ingress = []) :
    envoyResourcesForIngress H L ingress = .ok [] := by
  rcases getNodeGroupForIngress_cases ingress with ⟨-, e, he⟩ | ⟨hne, -⟩
  · simp [envoyResourcesForIngress, getSecretsForIngress, getEndpointsForIngress,
      getClustersForIngress, getRouteForIngress, getListenersForIngress, he, valuesOf, Except.map]
    rfl
  · exact absurd hn hne

end KubeEdge.Envoy
