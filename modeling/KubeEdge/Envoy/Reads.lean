import KubeEdge.Envoy.Clusters

namespace KubeEdge.Envoy
open Go

variable {H : Digest} {L L' : Listers} {i : Ingress}

/-- The services an ingress refers to, in the order of the lister. -/
def matched (L : Listers) (i : Ingress) : List Service := L.services.objects.filter (refersTo i)

/-- Every match of the ingress with a service of its namespace returns. -/
def Finds (L : Listers) (i : Ingress) : Prop :=
  ∀ s ∈ L.services.objects, s.ns = i.ns → ∃ b, isServiceMatchIngress i s = .ok b

def noServices (i : Ingress) : GoString :=
  str "could not find services for ingress " ++ i.name ++ str " in namespace " ++ i.ns

def noAssignments (i : Ingress) : GoString :=
  str "cloudn't get clusterLoadAssignment for ingress " ++ i.name ++ str " in namespace " ++ i.ns

def noClusters (i : Ingress) : GoString :=
  str "cloudn't get clusters for ingress " ++ i.name ++ str " in namespace " ++ i.ns

/-- The result of a function that first looks for services. -/
def resultOf (i : Ingress) (err : GoString) (services : List Service) (rs : List Resource) :
    Result (List Resource) :=
  if services = [] then .error (noServices i) else nonEmptyOr err rs

variable {err : GoString} {services : List Service} {rs : List Resource} {s t : Service}
  {r : Result (List Resource)}

theorem mem_matched : s ∈ matched L i ↔ s ∈ L.services.objects ∧ refersTo i s := by
  unfold matched
  rw [List.mem_filter]

theorem ns_of_refersTo (h : refersTo i s) : s.ns = i.ns := by
  unfold refersTo at h
  simp only [Bool.and_eq_true, decide_eq_true_eq] at h
  exact h.1

theorem refersTo_congr (h : s.key = t.key) : refersTo i s = refersTo i t := by
  have hns : s.ns = t.ns := congrArg Prod.fst h
  have hname : s.name = t.name := congrArg Prod.snd h
  unfold refersTo
  rw [hns, hname]

theorem ruleNamesService_ok {service : GoString} {rule : IngressRule} {b : Bool}
    (h : ruleNamesService service rule = .ok b) : b = ruleNames service rule := by
  obtain ⟨paths, hp, h⟩ := ok_of_bind h
  rw [deref_eq_ok] at hp
  have hpath {path : HTTPIngressPath} {c : Bool} (h : (deref path.backend.service >>= fun backend =>
      (.ok (decide (backend.name = service)) : M Bool)) = .ok c) :
      c = path.backend.service.any fun b => b.name = service := by
    obtain ⟨backend, hb, h⟩ := ok_of_bind h
    rw [deref_eq_ok] at hb
    cases h
    simp [hb]
  have hany := anyM_ok h
  unfold ruleNames
  rw [hp, Option.getD_some]
  cases b with
  | true =>
    obtain ⟨path, hmem, hhit⟩ := hany
    exact (List.any_eq_true.mpr ⟨path, hmem, (hpath hhit).symm⟩).symm
  | false =>
    refine (List.any_eq_false.mpr fun path hmem => ?_).symm
    rw [← hpath (hany path hmem)]
    exact Bool.false_ne_true

theorem isServiceMatchIngress_ok {b : Bool} (h : isServiceMatchIngress i s = .ok b) :
    b = refersTo i s := by
  unfold isServiceMatchIngress at h
  unfold refersTo
  split_ifs at h with hns hd
  · cases h
    simp [hns]
  · cases h
    simp [hd, not_not.mp hns]
  · have hany := anyM_ok h
    rw [not_not.mp hns, eq_false_of_ne_true hd]
    simp only [decide_true, Bool.true_and, Bool.false_or]
    cases b with
    | true =>
      obtain ⟨rule, hmem, hhit⟩ := hany
      exact (List.any_eq_true.mpr ⟨rule, hmem, (ruleNamesService_ok hhit).symm⟩).symm
    | false =>
      refine (List.any_eq_false.mpr fun rule hmem => ?_).symm
      rw [← ruleNamesService_ok (hany rule hmem)]
      exact Bool.false_ne_true

theorem Followed.finds (hf : Followed i) : Finds L i :=
  fun s _ _ => ⟨_, hf.isServiceMatchIngress_eq s⟩

theorem getServicesForIngress_returns {r : Result (List Service)} :
    getServicesForIngress L i = .ok r ↔
      Finds L i ∧ r = if matched L i = [] then .error (noServices i) else .ok (matched L i) := by
  have hmem {s : Service} : s ∈ listByNamespace L.services i.ns ↔
      s ∈ L.services.objects ∧ s.ns = i.ns := mem_listByNamespace i.ns_valid.1
  have hfilter : (listByNamespace L.services i.ns).filter (refersTo i) = matched L i := by
    rw [listByNamespace, if_neg i.ns_valid.1, List.filter_filter]
    refine List.filter_congr fun s _ => ?_
    cases hr : refersTo i s with
    | false => simp
    | true =>
      have hns : s.key.1 = i.ns := ns_of_refersTo hr
      simp [hns]
  have hfound (hf : Finds L i) : getServicesForIngress L i =
      .ok (if matched L i = [] then .error (noServices i) else .ok (matched L i)) := by
    have hmatch : ∀ s ∈ listByNamespace L.services i.ns,
        isServiceMatchIngress i s = .ok (refersTo i s) := by
      intro s hs
      obtain ⟨b, hb⟩ := hf s (hmem.mp hs).1 (hmem.mp hs).2
      rw [hb, isServiceMatchIngress_ok hb]
    unfold getServicesForIngress
    rw [filterM_eq_filter hmatch, ok_bind, hfilter, nonEmptyOr]
    simp only [List.isEmpty_iff]
    rfl
  constructor
  · intro h
    obtain ⟨services, hs, -⟩ := ok_of_bind h
    have hf : Finds L i := fun s hs' hns => filterM_ok hs s (hmem.mpr ⟨hs', hns⟩)
    exact ⟨hf, (Except.ok.inj ((hfound hf).symm.trans h)).symm⟩
  · rintro ⟨hf, rfl⟩
    exact hfound hf

def assignments (H : Digest) (L : Listers) (i : Ingress) : List Resource :=
  clusterLoadAssignments H L i (GoSet.ofList (nodeGroupsOf i)) none (matched L i)

theorem getEndpointsForIngress_returns (hg : nodeGroupsOf i ≠ []) :
    getEndpointsForIngress H L i = .ok r ↔
      Finds L i ∧ r = resultOf i (noAssignments i) (matched L i) (assignments H L i) := by
  have hng := getNodeGroupForIngress_eq hg
  have hfound (hf : Finds L i) : getEndpointsForIngress H L i =
      .ok (resultOf i (noAssignments i) (matched L i) (assignments H L i)) := by
    unfold getEndpointsForIngress resultOf
    rw [hng, getServicesForIngress_returns.mpr ⟨hf, rfl⟩]
    split_ifs <;> rfl
  constructor
  · intro h
    have hf : Finds L i := by
      unfold getEndpointsForIngress at h
      rw [hng] at h
      obtain ⟨services, hs, -⟩ := ok_of_bind h
      exact (getServicesForIngress_returns.mp hs).1
    exact ⟨hf, (Except.ok.inj ((hfound hf).symm.trans h)).symm⟩
  · rintro ⟨hf, rfl⟩
    exact hfound hf

def clusterAt (H : Digest) (L : Listers) (i : Ingress) (s : Service) (p : ServicePort) : Resource :=
  let sni := lastHost i s.name
  let name := clusternameOf H s p (clusterText L i s sni)
  { name
    ns := i.ns
    resourceVersion := s.resourceVersion
    nodeGroup := GoSet.ofList (nodeGroupsOf i)
    ingressRef := GoSet.single (keyFunc i.toObjectMeta)
    spec := .cluster { clusterOf H s p sni (clusterSecret L i sni) with name } }

theorem clusterResource_eq (hs : ∀ rule ∈ i.rules, ∃ b, ruleNamesService s.name rule = .ok b)
    (p : ServicePort) :
    clusterResource H L i (GoSet.ofList (nodeGroupsOf i)) s p = .ok (clusterAt H L i s p) := by
  have hsni : sniFor s.name i.rules [] = .ok (lastHost i s.name) := by
    refine sniFor_eq (fun rule hr => ?_) []
    obtain ⟨b, hb⟩ := hs rule hr
    rw [hb, ruleNamesService_ok hb]
  unfold clusterResource
  rw [hsni, ok_bind]
  simp only [clustername_cluster, ok_bind]
  rfl

def clustersOf (H : Digest) (L : Listers) (i : Ingress) (services : List Service) : List Resource :=
  services.flatMap fun s => s.ports.map (clusterAt H L i s)

/-- The pointers `getClustersForIngress` follows are set. -/
def ClustersReturn (L : Listers) (i : Ingress) : Prop :=
  Finds L i ∧ (matched L i ≠ [] → ClustersDefined i (matched L i))

theorem Followed.clustersReturn (hf : Followed i) : ClustersReturn L i :=
  ⟨hf.finds, fun _ => hf.clustersDefined _⟩

theorem getClustersForIngress_eq (hg : nodeGroupsOf i ≠ []) (h : ClustersReturn L i) :
    getClustersForIngress H L i =
      .ok (resultOf i (noClusters i) (matched L i) (clustersOf H L i (matched L i))) := by
  unfold getClustersForIngress resultOf
  rw [getNodeGroupForIngress_eq hg, getServicesForIngress_returns.mpr ⟨h.1, rfl⟩]
  split_ifs with hn
  · rfl
  · obtain ⟨hhosts, hports⟩ := h.2 hn
    obtain ⟨m, hm⟩ := (host2ServiceName_returns i.rules ∅).mpr hhosts
    have hclusters : ∀ s ∈ matched L i,
        mapM (clusterResource H L i (GoSet.ofList (nodeGroupsOf i)) s) s.ports =
          .ok (s.ports.map (clusterAt H L i s)) := fun s hs =>
      mapM_eq_map fun p hp => clusterResource_eq (hports s hs (List.ne_nil_of_mem hp)) p
    simp only [ok_bind]
    rw [hm, ok_bind, mapM_eq_map hclusters, ok_bind, clustersOf, List.flatMap_def]
    rfl

theorem getClustersForIngress_ok_iff (hg : nodeGroupsOf i ≠ []) :
    getClustersForIngress H L i = .ok r ↔ ClustersReturn L i ∧
      r = resultOf i (noClusters i) (matched L i) (clustersOf H L i (matched L i)) := by
  constructor
  · intro h
    have hret : ClustersReturn L i := by
      have hret := h
      unfold getClustersForIngress at h
      rw [getNodeGroupForIngress_eq hg] at h
      obtain ⟨services, hs, -⟩ := ok_of_bind h
      obtain ⟨hf, rfl⟩ := getServicesForIngress_returns.mp hs
      refine ⟨hf, fun hne => ?_⟩
      rw [if_neg hne] at hs
      exact clustersDefined_of_ok hg hret hs
    exact ⟨hret, (Except.ok.inj ((getClustersForIngress_eq hg hret).symm.trans h)).symm⟩
  · rintro ⟨hret, rfl⟩
    exact getClustersForIngress_eq hg hret

section

variable {nodegroup : GoSet GoString} {cla : Option Resource} {lbs : List LbEndpoint}

def claAfter (H : Digest) (L : Listers) (i : Ingress) (nodegroup : GoSet GoString)
    (cla : Option Resource) (services : List Service) : Option Resource :=
  services.foldl (fun cla s => clusterLoadAssignmentFor H L i nodegroup s cla) cla

theorem clusterLoadAssignments_append (cla : Option Resource) (p q : List Service) :
    clusterLoadAssignments H L i nodegroup cla (p ++ q) =
      clusterLoadAssignments H L i nodegroup cla p ++
        clusterLoadAssignments H L i nodegroup (claAfter H L i nodegroup cla p) q := by
  induction p generalizing cla with
  | nil => rfl
  | cons s p ih =>
    rw [List.cons_append, clusterLoadAssignments, ih, clusterLoadAssignments, List.append_assoc]
    rfl

theorem clusterLoadAssignments_cons_of_none (hs : assignment L s = none) (cla : Option Resource)
    (services : List Service) :
    clusterLoadAssignments H L i nodegroup cla (s :: services) =
      cla.toList ++ clusterLoadAssignments H L i nodegroup cla services := by
  rw [clusterLoadAssignments, clusterLoadAssignmentFor_eq, hs, Option.map_none, Option.none_or]

theorem claAfter_eq_none :
    claAfter H L i nodegroup cla services = none ↔
      cla = none ∧ ∀ s ∈ services, assignment L s = none := by
  induction services generalizing cla with
  | nil => simp [claAfter]
  | cons s services ih =>
    have hcons : claAfter H L i nodegroup cla (s :: services) = claAfter H L i nodegroup
        (clusterLoadAssignmentFor H L i nodegroup s cla) services := rfl
    rw [hcons, ih, clusterLoadAssignmentFor_eq, Option.or_eq_none_iff, Option.map_eq_none_iff,
      List.forall_mem_cons]
    tauto

theorem mem_of_assignment (hs : s ∈ services) (h : assignment L s = some lbs) :
    endpointResource H i nodegroup s lbs ∈
      clusterLoadAssignments H L i nodegroup cla services := by
  obtain ⟨p, q, rfl⟩ := List.append_of_mem hs
  rw [clusterLoadAssignments_append, clusterLoadAssignments, clusterLoadAssignmentFor_eq, h]
  simp

theorem clusterLoadAssignments_congr (h : ∀ s ∈ services, assignment L s = assignment L' s)
    (cla : Option Resource) :
    clusterLoadAssignments H L i nodegroup cla services =
      clusterLoadAssignments H L' i nodegroup cla services := by
  induction services generalizing cla with
  | nil => rfl
  | cons s services ih =>
    rw [List.forall_mem_cons] at h
    rw [clusterLoadAssignments, clusterLoadAssignments, clusterLoadAssignmentFor_eq,
      clusterLoadAssignmentFor_eq, h.1, ih h.2]

theorem assignment_of_clusterLoadAssignments_eq (hns : ∀ s ∈ services, s.ns = i.ns)
    (hinj : ∀ s ∈ services, ∀ t ∈ services, s.name = t.name → s = t)
    (h : clusterLoadAssignments H L i nodegroup none services =
      clusterLoadAssignments H L' i nodegroup none services)
    (hs : s ∈ services) (ha : assignment L s = some lbs) :
    assignment L' s = some lbs := by
  have hmem := h ▸ mem_of_assignment hs ha
  rcases mem_clusterLoadAssignments hmem with hmem | ⟨t, ht, lbs', ha', heq⟩
  · cases hmem
  · have hspec := congrArg Resource.spec heq
    simp only [endpointResource, Spec.endpoint.injEq, ClusterLoadAssignment.mk.injEq, hns s hs,
      hns t ht, List.append_cancel_left_eq, List.cons.injEq, true_and,
      LocalityLbEndpoints.mk.injEq, and_true] at hspec
    obtain rfl := hinj s hs t ht hspec.1
    rw [ha', hspec.2]

end

theorem assignments_congr (hm : matched L i = matched L' i)
    (ha : ∀ s ∈ matched L i, assignment L s = assignment L' s) :
    assignments H L i = assignments H L' i := by
  unfold assignments
  rw [← hm]
  exact clusterLoadAssignments_congr ha none

theorem matched_inj (hs : s ∈ matched L i) (ht : t ∈ matched L i) (h : s.name = t.name) :
    s = t := by
  rw [mem_matched] at hs ht
  refine L.services.key_inj hs.1 ht.1 (Prod.ext ?_ h)
  exact (ns_of_refersTo hs.2).trans (ns_of_refersTo ht.2).symm

theorem assignments_eq_iff (hm : matched L i = matched L' i) :
    assignments H L i = assignments H L' i ↔
      ∀ s ∈ matched L i, assignment L s = assignment L' s := by
  refine ⟨fun h s hs => ?_, assignments_congr hm⟩
  unfold assignments at h
  rw [← hm] at h
  have hns : ∀ s ∈ matched L i, s.ns = i.ns := fun s hs => ns_of_refersTo (mem_matched.mp hs).2
  have hinj : ∀ s ∈ matched L i, ∀ t ∈ matched L i, s.name = t.name → s = t :=
    fun s hs t ht => matched_inj hs ht
  ext lbs
  exact ⟨assignment_of_clusterLoadAssignments_eq hns hinj h hs,
    assignment_of_clusterLoadAssignments_eq hns hinj h.symm hs⟩

theorem noServices_ne_noAssignments (i : Ingress) : noAssignments i ≠ noServices i := by
  intro h
  have htake := congrArg (List.take 2) h
  simp only [noServices, noAssignments, List.append_assoc] at htake
  rw [List.take_append_of_le_length (by decide), List.take_append_of_le_length (by decide)] at htake
  exact absurd htake (by decide)

theorem noServices_ne_noClusters (i : Ingress) : noClusters i ≠ noServices i := by
  intro h
  have htake := congrArg (List.take 2) h
  simp only [noServices, noClusters, List.append_assoc] at htake
  rw [List.take_append_of_le_length (by decide), List.take_append_of_le_length (by decide)] at htake
  exact absurd htake (by decide)

theorem nonEmptyOr_inj {α : Type} {l l' : List α} :
    nonEmptyOr err l = nonEmptyOr err l' ↔ l = l' := by
  refine ⟨fun h => ?_, fun h => h ▸ rfl⟩
  have hvalues := congrArg valuesOf h
  simpa using hvalues

theorem resultOf_inj (herr : err ≠ noServices i) {services' : List Service} {rs' : List Resource}
    (hrs : services = [] → rs = []) (hrs' : services' = [] → rs' = []) :
    resultOf i err services rs = resultOf i err services' rs' ↔
      (services = [] ↔ services' = []) ∧ rs = rs' := by
  have hne (l : List Resource) : nonEmptyOr err l ≠ .error (noServices i) := by
    unfold nonEmptyOr
    split_ifs
    · exact fun h => herr (Except.error.inj h)
    · exact nofun
  unfold resultOf
  split_ifs with h h'
  · simp [h, h', hrs h, hrs' h']
  · exact iff_of_false (hne rs').symm fun hiff => h' (hiff.1.mp h)
  · rename_i h'
    exact iff_of_false (hne rs) fun hiff => h (hiff.1.mpr h')
  · rename_i h'
    simp [nonEmptyOr_inj, h, h']

/-- The same secrets under the names in the TLS entries. -/
def SameSecrets (L L' : Listers) (i : Ingress) : Prop :=
  ∀ t ∈ i.tls, L.secrets.get (i.ns, t.secretName) = L'.secrets.get (i.ns, t.secretName)

namespace SameSecrets

variable (h : SameSecrets L L' i)
include h

theorem getSecretsForIngress_eq : getSecretsForIngress H L i = getSecretsForIngress H L' i := by
  unfold getSecretsForIngress
  cases getNodeGroupForIngress i with
  | error e => rfl
  | ok nodegroup =>
    refine congrArg Except.ok (List.filterMap_congr ?_)
    intro t ht
    rw [h t ht]

theorem hostSecret_eq (host : GoString) : hostSecret L i host = hostSecret L' i host := by
  unfold hostSecret tlsSecretName
  split_ifs
  · rfl
  · cases hl : (i.tls.filter fun t => host ∈ t.hosts).getLast? with
    | none => rfl
    | some t => exact h t (List.mem_filter.mp (List.mem_of_getLast? hl)).1

theorem clusterAt_eq (s : Service) (p : ServicePort) :
    clusterAt H L i s p = clusterAt H L' i s p := by
  unfold clusterAt clusterText hostText
  simp [clusterSecret_eq, h.hostSecret_eq]

theorem clustersOf_eq (services : List Service) :
    clustersOf H L i services = clustersOf H L' i services := by
  have hat : clusterAt H L i = clusterAt H L' i := by
    funext s p
    exact h.clusterAt_eq s p
  unfold clustersOf
  rw [hat]

theorem getListenersForIngress_eq :
    getListenersForIngress H L i = getListenersForIngress H L' i := by
  have hrule (nodegroup : GoSet GoString) :
      ruleListeners H L i nodegroup = ruleListeners H L' i nodegroup := by
    funext rule
    unfold ruleListeners listenerSecretName
    cases hf : i.tls.find? fun t => rule.host ∈ t.hosts with
    | none => rfl
    | some t =>
      simp only [Option.map_some]
      rw [h t (List.mem_of_find?_eq_some hf)]
  unfold getListenersForIngress
  simp [hrule]

end SameSecrets

/-- The service under a key, if it has a port. -/
def portful (L : Listers) (k : GoString × GoString) : Option Service :=
  (L.services.get k).filter fun s => s.ports ≠ []

theorem pathRoutes_eq_portful (host : GoString) (path : HTTPIngressPath) :
    pathRoutes H L i host path = deref path.backend.service >>= fun backend =>
      match portful L (i.ns, backend.name) with
      | none => .ok []
      | some service =>
        portRoutes H service path (routeValidation L i host) service.ports none >>= fun route =>
          .ok (service.ports.flatMap fun _ => route.toList) := by
  unfold pathRoutes portful
  cases path.backend.service with
  | none => rfl
  | some backend =>
    simp only [deref_some, ok_bind]
    cases L.services.get (i.ns, backend.name) with
    | none => rfl
    | some service =>
      by_cases hp : service.ports = []
      · rw [Option.filter_some, if_neg (by simpa using hp)]
        dsimp only
        rw [hp]
        rfl
      · rw [Option.filter_some, if_pos (by simpa using hp)]

theorem getRouteForIngress_congr (hsec : SameSecrets L L' i)
    (h : ∀ rule ∈ i.rules, ∀ paths, rule.http = some paths → ∀ path ∈ paths, ∀ b,
      path.backend.service = some b → portful L (i.ns, b.name) = portful L' (i.ns, b.name)) :
    getRouteForIngress H L i = getRouteForIngress H L' i := by
  have hpath : ∀ rule ∈ i.rules, ∀ paths, rule.http = some paths → ∀ path ∈ paths,
      pathRoutes H L i rule.host path = pathRoutes H L' i rule.host path := by
    intro rule hr paths hp path hpath
    rw [pathRoutes_eq_portful, pathRoutes_eq_portful]
    cases hb : path.backend.service with
    | none => rfl
    | some b =>
      simp only [deref_some, ok_bind]
      rw [h rule hr paths hp path hpath b hb, routeValidation_eq, routeValidation_eq,
        hsec.hostSecret_eq]
  have hrule : ∀ rule ∈ i.rules, ruleVirtualHost H L i rule = ruleVirtualHost H L' i rule := by
    intro rule hr
    unfold ruleVirtualHost
    cases hp : rule.http with
    | none => rfl
    | some paths =>
      simp only [deref_some, ok_bind]
      rw [mapM_congr (hpath rule hr paths hp)]
  unfold getRouteForIngress
  simp [mapM_congr hrule]

end KubeEdge.Envoy
