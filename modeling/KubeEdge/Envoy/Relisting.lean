import KubeEdge.Envoy.Loops
import KubeEdge.Envoy.Reads

namespace KubeEdge.Envoy
open Go

/-- The orders in which one sync gets the services: a lister has no order of its own, and the
services are listed once for the load assignments and once for the clusters. -/
structure Listing (L : Listers) where
  endpoints : ServiceLister
  clusters : ServiceLister
  endpoints_perm : endpoints.objects.Perm L.services.objects
  clusters_perm : clusters.objects.Perm L.services.objects

/-- Both times the order of the lister's objects. -/
def Listing.same (L : Listers) : Listing L := ⟨L.services, L.services, .refl _, .refl _⟩

/-- `envoyResourcesForIngress` by such orders. -/
def collect (H : Digest) (L : Listers) (o : Listing L) (ingress : Ingress) : M (List Resource) := do
  let secrets := getSecretsForIngress H L ingress
  let endpoints ← getEndpointsForIngress H { L with services := o.endpoints } ingress
  let clusters ← getClustersForIngress H { L with services := o.clusters } ingress
  let route ← getRouteForIngress H L ingress
  let listeners ← getListenersForIngress H L ingress
  .ok (valuesOf secrets ++ valuesOf endpoints ++ valuesOf clusters ++
    valuesOf (route.map ([·])) ++ valuesOf listeners)

theorem collect_same (H : Digest) (L : Listers) (ingress : Ingress) :
    collect H L (.same L) ingress = envoyResourcesForIngress H L ingress := rfl

def clusterName (H : Digest) (L : Listers) (i : Ingress) (s : Service) (p : ServicePort) :
    GoString :=
  clusternameOf H s p (clusterText L i s (lastHost i s.name))

/-- No two services of the ingress have load assignments or clusters of one name.  A name that is
cut ends in six digits of a hash only. -/
def ServicesApart (H : Digest) (L : Listers) (i : Ingress) : Prop :=
  ∀ s ∈ matched L i, ∀ t ∈ matched L i, s.name ≠ t.name →
    ((assignment L s).isSome → (assignment L t).isSome → endpointName H s ≠ endpointName H t) ∧
    ∀ p ∈ s.ports, ∀ q ∈ t.ports, clusterName H L i s p ≠ clusterName H L i t q

instance (H : Digest) (L : Listers) (i : Ingress) : Decidable (ServicesApart H L i) := by
  unfold ServicesApart
  infer_instance

variable {H : Digest} {L : Listers} {i : Ingress} {r : GoString} {x : Resource} {xs : List Resource}

/-- Where blocks with a key in common are one block, the last one under a key is that of its
block. -/
theorem lastAt_flatMap {α : Type} {f : α → List Resource} {l : List α}
    (hapart : ∀ a ∈ l, ∀ b ∈ l, ∀ x ∈ f a, ∀ y ∈ f b, x.key = y.key → a = b) :
    lastAt (l.flatMap f) r = some x ↔ ∃ a ∈ l, lastAt (f a) r = some x := by
  induction l generalizing x with
  | nil => simp [lastAt]
  | cons a l ih =>
    have hrest {x : Resource} := ih (x := x) fun a ha b hb => hapart a (.tail _ ha) b (.tail _ hb)
    rw [List.flatMap_cons, lastAt_append, Option.or_eq_some_iff, hrest, List.exists_mem_cons_iff]
    constructor
    · rintro (h | ⟨-, h⟩)
      · exact .inr h
      · exact .inl h
    · rintro (h | h)
      · cases hlast : lastAt (l.flatMap f) r with
        | none => exact .inr ⟨rfl, h⟩
        | some y =>
          obtain ⟨b, hb, hy⟩ := hrest.mp hlast
          obtain ⟨hxa, hx⟩ := mem_of_lastAt h
          obtain ⟨hyb, hykey⟩ := mem_of_lastAt hy
          obtain rfl := hapart a (.head _) b (.tail _ hb) x hxa y hyb (hx.trans hykey.symm)
          exact .inl ⟨a, hb, h⟩
      · exact .inl h

/-- Where what has one key is one resource, the last one does not depend on the order. -/
theorem lastAt_congr {ys : List Resource} (hmem : ∀ x, x ∈ xs ↔ x ∈ ys)
    (hone : ∀ x ∈ xs, ∀ y ∈ xs, x.key = y.key → x = y) : lastAt xs r = lastAt ys r := by
  cases hx : lastAt xs r with
  | none =>
    rw [lastAt_eq_none] at hx
    exact (lastAt_eq_none.mpr fun y hy => hx y ((hmem y).mpr hy)).symm
  | some x =>
    obtain ⟨hxs, hkey⟩ := mem_of_lastAt hx
    cases hy : lastAt ys r with
    | none => exact absurd hkey (lastAt_eq_none.mp hy x ((hmem x).mp hxs))
    | some y =>
      obtain ⟨hys, hkey'⟩ := mem_of_lastAt hy
      rw [hone x hxs y ((hmem y).mpr hys) (hkey.trans hkey'.symm)]

theorem exists_key_congr {ys : List Resource} (h : lastAt xs r = lastAt ys r) :
    (∃ x ∈ xs, x.key = r) ↔ ∃ y ∈ ys, y.key = r := by
  have hnone : lastAt xs r = none ↔ lastAt ys r = none := by rw [h]
  simp only [lastAt_eq_none] at hnone
  simpa using not_congr hnone

section

variable {S : ServiceLister} (hS : S.objects.Perm L.services.objects)
include hS

theorem matched_perm (i : Ingress) : (matched { L with services := S } i).Perm (matched L i) :=
  hS.filter _

theorem finds_relisted : Finds { L with services := S } i ↔ Finds L i := by
  unfold Finds
  simp only [hS.mem_iff]

theorem clustersReturn_relisted :
    ClustersReturn { L with services := S } i ↔ ClustersReturn L i := by
  have hperm := matched_perm hS i
  have hnil : matched { L with services := S } i = [] ↔ matched L i = [] := by
    rw [← List.length_eq_zero_iff, hperm.length_eq, List.length_eq_zero_iff]
  unfold ClustersReturn ClustersDefined
  simp only [finds_relisted hS, ne_eq, hnil, hperm.mem_iff]

end

/-- The services of an ingress as they are listed for the load assignments. -/
def Listing.forEndpoints (o : Listing L) (i : Ingress) : List Service :=
  matched { L with services := o.endpoints } i

/-- The services of an ingress as they are listed for the clusters. -/
def Listing.forClusters (o : Listing L) (i : Ingress) : List Service :=
  matched { L with services := o.clusters } i

theorem Listing.forEndpoints_perm (o : Listing L) (i : Ingress) :
    (o.forEndpoints i).Perm (matched L i) := matched_perm o.endpoints_perm i

theorem Listing.forClusters_perm (o : Listing L) (i : Ingress) :
    (o.forClusters i).Perm (matched L i) := matched_perm o.clusters_perm i

theorem valuesOf_resultOf {err : GoString} {services : List Service} {rs : List Resource}
    (hrs : services = [] → rs = []) : valuesOf (resultOf i err services rs) = rs := by
  unfold resultOf
  split_ifs with h
  · rw [hrs h]
    rfl
  · exact valuesOf_nonEmptyOr err rs

/-- The load assignments of some services of an ingress. -/
def assignmentsOf (H : Digest) (L : Listers) (i : Ingress) (services : List Service) :
    List Resource :=
  clusterLoadAssignments H L i (GoSet.ofList (nodeGroupsOf i)) none services

section

variable (hg : nodeGroupsOf i ≠ []) {o : Listing L} {res : Result (List Resource)}
include hg

theorem getEndpoints_relisted :
    getEndpointsForIngress H { L with services := o.endpoints } i = .ok res ↔
      Finds L i ∧ res = resultOf i (noAssignments i) (o.forEndpoints i)
        (assignmentsOf H L i (o.forEndpoints i)) := by
  have hassignments : assignments H { L with services := o.endpoints } i =
      assignmentsOf H L i (o.forEndpoints i) := by
    unfold assignments assignmentsOf
    apply clusterLoadAssignments_congr
    intro s _
    rfl
  rw [getEndpointsForIngress_returns hg, finds_relisted o.endpoints_perm, hassignments]
  rfl

theorem getClusters_relisted :
    getClustersForIngress H { L with services := o.clusters } i = .ok res ↔
      ClustersReturn L i ∧ res = resultOf i (noClusters i) (o.forClusters i)
        (clustersOf H L i (o.forClusters i)) := by
  have hclusters (services : List Service) :
      clustersOf H { L with services := o.clusters } i services = clustersOf H L i services :=
    SameSecrets.clustersOf_eq (fun _ _ => rfl) services
  rw [getClustersForIngress_ok_iff hg, clustersReturn_relisted o.clusters_perm, hclusters]
  rfl

theorem collect_eq_ok {gen : List Resource} :
    collect H L o i = .ok gen ↔ ClustersReturn L i ∧ ∃ route listeners,
      getRouteForIngress H L i = .ok route ∧ getListenersForIngress H L i = .ok listeners ∧
      gen = valuesOf (getSecretsForIngress H L i) ++ assignmentsOf H L i (o.forEndpoints i) ++
        clustersOf H L i (o.forClusters i) ++ valuesOf (route.map ([·])) ++ valuesOf listeners := by
  have hassignments : valuesOf (resultOf i (noAssignments i) (o.forEndpoints i)
      (assignmentsOf H L i (o.forEndpoints i))) = assignmentsOf H L i (o.forEndpoints i) :=
    valuesOf_resultOf fun h => by rw [h]; rfl
  have hclusters : valuesOf (resultOf i (noClusters i) (o.forClusters i)
      (clustersOf H L i (o.forClusters i))) = clustersOf H L i (o.forClusters i) :=
    valuesOf_resultOf fun h => by rw [h]; rfl
  unfold collect
  constructor
  · intro h
    obtain ⟨endpoints, he, h⟩ := ok_of_bind h
    obtain ⟨clusters, hc, h⟩ := ok_of_bind h
    obtain ⟨route, hr, h⟩ := ok_of_bind h
    obtain ⟨listeners, hl, h⟩ := ok_of_bind h
    obtain ⟨-, rfl⟩ := (getEndpoints_relisted hg).mp he
    obtain ⟨hreturn, rfl⟩ := (getClusters_relisted hg).mp hc
    cases h
    exact ⟨hreturn, route, listeners, hr, hl, by rw [hassignments, hclusters]⟩
  · rintro ⟨hreturn, route, listeners, hr, hl, rfl⟩
    rw [(getEndpoints_relisted hg).mpr ⟨hreturn.1, rfl⟩, ok_bind,
      (getClusters_relisted hg).mpr ⟨hreturn, rfl⟩, ok_bind, hr, ok_bind, hl, ok_bind, hassignments,
      hclusters]

end

theorem collect_of_no_groups (hn : nodeGroupsOf i = []) (o : Listing L) :
    collect H L o i = .ok [] := by
  rcases getNodeGroupForIngress_cases i with ⟨-, e, he⟩ | ⟨hne, -⟩
  · simp [collect, getSecretsForIngress, getEndpointsForIngress, getClustersForIngress,
      getRouteForIngress, getListenersForIngress, he, valuesOf, Except.map]
    rfl
  · exact absurd hn hne

theorem mem_assignmentsOf {services : List Service} : x ∈ assignmentsOf H L i services ↔
    ∃ s ∈ services, ∃ lbs, assignment L s = some lbs ∧
      x = endpointResource H i (GoSet.ofList (nodeGroupsOf i)) s lbs := by
  constructor
  · intro h
    rcases mem_clusterLoadAssignments h with h | h
    · cases h
    · exact h
  · rintro ⟨s, hs, lbs, ha, rfl⟩
    exact mem_of_assignment hs ha

section

variable (hapart : ServicesApart H L i)
include hapart

theorem lastAt_assignmentsOf {services : List Service} (hp : services.Perm (matched L i)) :
    lastAt (assignmentsOf H L i services) r = lastAt (assignmentsOf H L i (matched L i)) r := by
  refine lastAt_congr ?_ ?_
  · intro x
    simp only [mem_assignmentsOf, hp.mem_iff]
  · intro x hx y hy hkey
    obtain ⟨s, hs, lbs, ha, rfl⟩ := mem_assignmentsOf.mp hx
    obtain ⟨t, ht, lbs', ha', rfl⟩ := mem_assignmentsOf.mp hy
    rw [hp.mem_iff] at hs ht
    have hns : s.ns = t.ns :=
      (ns_of_refersTo (mem_matched.mp hs).2).trans (ns_of_refersTo (mem_matched.mp ht).2).symm
    have hname : endpointName H s = endpointName H t := by
      change envoyResourceKeyFunc s.ns (endpointName H s) =
        envoyResourceKeyFunc t.ns (endpointName H t) at hkey
      rw [hns] at hkey
      exact envoyResourceKeyFunc_inj hkey
    have hsame : s.name = t.name := by
      by_contra hne
      exact (hapart s hs t ht hne).1 (by simp [ha]) (by simp [ha']) hname
    obtain rfl := matched_inj hs ht hsame
    rw [ha] at ha'
    cases ha'
    rfl

theorem lastAt_clustersOf {services : List Service} (hp : services.Perm (matched L i)) :
    lastAt (clustersOf H L i services) r = lastAt (clustersOf H L i (matched L i)) r := by
  have hblocks : ∀ s ∈ matched L i, ∀ t ∈ matched L i, ∀ x ∈ s.ports.map (clusterAt H L i s),
      ∀ y ∈ t.ports.map (clusterAt H L i t), x.key = y.key → s = t := by
    intro s hs t ht x hx y hy hkey
    obtain ⟨p, hps, rfl⟩ := List.mem_map.mp hx
    obtain ⟨q, hqt, rfl⟩ := List.mem_map.mp hy
    refine matched_inj hs ht ?_
    by_contra hne
    exact (hapart s hs t ht hne).2 p hps q hqt (envoyResourceKeyFunc_inj hkey)
  ext x
  unfold clustersOf
  rw [lastAt_flatMap hblocks, lastAt_flatMap]
  · simp only [hp.mem_iff]
  · intro s hs t ht
    exact hblocks s (hp.mem_iff.mp hs) t (hp.mem_iff.mp ht)

end

/-- Another listing collects the same resources, and if the services are apart, the same last ones
under each key. -/
theorem collect_relisted {o : Listing L} {gen : List Resource} (h : collect H L o i = .ok gen)
    (o' : Listing L) : ∃ gen', collect H L o' i = .ok gen' ∧ (∀ x, x ∈ gen ↔ x ∈ gen') ∧
      (ServicesApart H L i → ∀ r, lastAt gen r = lastAt gen' r) := by
  by_cases hg : nodeGroupsOf i = []
  · rw [collect_of_no_groups hg] at h
    cases h
    exact ⟨[], collect_of_no_groups hg o', fun _ => Iff.rfl, fun _ _ => rfl⟩
  obtain ⟨hreturn, route, listeners, hr, hl, rfl⟩ := (collect_eq_ok hg).mp h
  refine ⟨_, (collect_eq_ok hg).mpr ⟨hreturn, route, listeners, hr, hl, rfl⟩, ?_, ?_⟩
  · intro x
    simp only [List.mem_append, mem_assignmentsOf, clustersOf, List.mem_flatMap,
      (o.forEndpoints_perm i).mem_iff, (o.forClusters_perm i).mem_iff,
      (o'.forEndpoints_perm i).mem_iff, (o'.forClusters_perm i).mem_iff]
  · intro hapart r
    simp only [lastAt_append, lastAt_assignmentsOf hapart (o.forEndpoints_perm i),
      lastAt_clustersOf hapart (o.forClusters_perm i),
      lastAt_assignmentsOf hapart (o'.forEndpoints_perm i),
      lastAt_clustersOf hapart (o'.forClusters_perm i)]

theorem generated_of_collect {o : Listing L} {gen : List Resource} (h : collect H L o i = .ok gen)
    (hx : x ∈ gen) : Generated H i x := by
  obtain ⟨gen', hgen', hmem, -⟩ := collect_relisted h (.same L)
  exact generated_of_mem ((collect_same H L i).symm.trans hgen') ((hmem x).mp hx)

theorem syncWith_found {gen : Ingress → M (List Resource)} {key : GoString}
    (hfind : ingressOf L key = some i) (c : Controller) :
    syncWith gen L key c = syncFoundIngress gen key i c := by
  obtain ⟨k, hk, hfind⟩ := Option.bind_eq_some_iff.mp hfind
  rw [syncWith, hk]
  dsimp only
  rw [hfind]

namespace Sample

/-- Services whose names differ in the digits of a region only. -/
def collector (region : String) : GoString :=
  str "telemetry-collector-of-the-warehouse-in-region-r" ++ str region

/-- SHA-1 of the empty text, and SHA-256 of the names of the load assignments and the clusters of
two collectors.  The first two digests begin with the same three bytes. -/
def collectorDigest : Digest where
  sha1 _ := [218, 57, 163, 238, 94, 107, 75, 13, 50, 85, 191, 239, 149, 96, 24, 144, 175, 216, 7, 9]
  sha256 b :=
    if b = collector "0350" ++ str "_default" then
      [100, 76, 232, 96, 33, 157, 174, 74, 220, 217, 251, 41, 69, 202, 234, 164, 88, 160, 24, 84,
        113, 231, 72, 88, 160, 28, 170, 14, 220, 199, 112, 220]
    else if b = collector "5771" ++ str "_default" then
      [100, 76, 232, 33, 109, 118, 93, 236, 157, 228, 252, 111, 248, 77, 32, 88, 181, 36, 11, 112,
        95, 236, 112, 78, 182, 126, 92, 42, 52, 106, 238, 214]
    else if b = str "default_" ++ collector "0350" ++ str "_80_da39a3ee5e" then
      [183, 149, 147, 201, 243, 57, 118, 34, 168, 128, 146, 211, 74, 181, 92, 106, 254, 126, 232,
        241, 215, 88, 102, 139, 214, 90, 213, 250, 118, 208, 28, 98]
    else
      [136, 66, 53, 113, 138, 146, 163, 85, 181, 161, 128, 130, 227, 229, 27, 217, 194, 1, 141, 112,
        112, 214, 255, 198, 19, 180, 79, 190, 173, 136, 218, 168]
  sha1_length _ := rfl
  sha256_length _ := by split_ifs <;> rfl

variable {name name' : GoString}

def serviceAt (version : String) (h : IsDNSLabel name) : Service where
  toObjectMeta := { objectMeta name h.subdomain with resourceVersion := str version }
  ports := [⟨[], .TCP, 80⟩]
  name_label := h

/-- The Endpoints object of a service, with one address. -/
def endpointsAt (ip : String) (h : IsDNSLabel name) : Endpoints where
  toObjectMeta := objectMeta name h.subdomain
  subsets := [{ addresses := [{ ip := str ip }], ports := [⟨[], 8080, .TCP⟩] }]

/-- An ingress that sends one host to each of two services. -/
def metrics (name name' : GoString) : Ingress where
  toObjectMeta := objectMeta (str "metrics") (by decide +kernel) (ingressAnnotations (str "edge"))
  rules := [ruleTo (str "a.example") name, ruleTo (str "b.example") name']

def alerts (name : GoString) : Ingress where
  toObjectMeta := objectMeta (str "alerts") (by decide +kernel) (ingressAnnotations (str "core"))
  rules := [ruleTo (str "c.example") name]

theorem alerts_ne_metrics : str "alerts" ≠ str "metrics" := by decide +kernel

section

variable (h : IsDNSLabel name) (h' : IsDNSLabel name') (hne : name ≠ name')

def withTwo : Listers where
  ingresses := ⟨[alerts name, metrics name name'],
    by simp [alerts, metrics, objectMeta, ObjectMeta.key, alerts_ne_metrics]⟩
  services := ⟨[serviceAt "1" h, serviceAt "2" h'],
    by simp [serviceAt, objectMeta, ObjectMeta.key, hne]⟩
  endpoints := ⟨[endpointsAt "10.0.0.1" h, endpointsAt "10.0.0.2" h'],
    by simp [endpointsAt, objectMeta, ObjectMeta.key, hne]⟩

def swapped : Listing (withTwo h h' hne) where
  endpoints := ⟨[serviceAt "2" h', serviceAt "1" h],
    by simp [serviceAt, objectMeta, ObjectMeta.key, hne.symm]⟩
  clusters := ⟨[serviceAt "2" h', serviceAt "1" h],
    by simp [serviceAt, objectMeta, ObjectMeta.key, hne.symm]⟩
  endpoints_perm := .swap ..
  clusters_perm := .swap ..

end

theorem cpu_label : IsDNSLabel (str "cpu") := by decide +kernel

theorem disk_label : IsDNSLabel (str "disk") := by decide +kernel

theorem cpu_ne_disk : str "cpu" ≠ str "disk" := by decide +kernel

theorem collector_label : IsDNSLabel (collector "0350") := by decide +kernel

theorem collector_label' : IsDNSLabel (collector "5771") := by decide +kernel

theorem collector_ne : collector "0350" ≠ collector "5771" := by
  rw [collector, collector, ne_eq, List.append_right_inj]
  decide

def cpuAndDisk : Listers := withTwo cpu_label disk_label cpu_ne_disk

/-- Two services whose load assignments have one name. -/
def collectors : Listers := withTwo collector_label collector_label' collector_ne

def sharedAssignment : GoString := str "default/telemetry-collector-of--644ce8_default"

end Sample

open Sample in
/-- The names of the two load assignments are cut to one. -/
example :
    ¬ ServicesApart collectorDigest collectors (metrics (collector "0350") (collector "5771")) := by
  decide +kernel

end KubeEdge.Envoy
