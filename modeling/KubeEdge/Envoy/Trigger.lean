import KubeEdge.Envoy.Reads
import KubeEdge.Envoy.World

namespace KubeEdge.Envoy
open Go

variable {H : Digest} {L L' : Listers} {i : Ingress} {s : Service} {c : Controller} {d : Delivery}
  {ch : Change Secret}

/-- A change of one object.  For a service it is also said which services the lister has
in front of it and behind it. -/
inductive Delivery
  | service (ch : Change Service) (front back : List Service)
  | endpoint (ch : Change Endpoints)
  | secret (ch : Change Secret)

def Delivery.event : Delivery → ObjectEvent
  | service (.add s) _ _ => .addService s
  | service (.update old cur) _ _ => .updateService old cur
  | service (.delete s) _ _ => .deleteService s
  | endpoint (.add e) => .addEndpoint e
  | endpoint (.update old cur) => .updateEndpoint old cur
  | endpoint (.delete e) => .deleteEndpoint e
  | secret (.add s) => .addSecret s
  | secret (.update old cur) => .updateSecret old cur
  | secret (.delete s) => .deleteSecret s

/-- The listers before and after a delivery.  The API server gives an object a new resource
version whenever it changes; a resync delivers an unchanged one again. -/
def Delivered (L L' : Listers) : Delivery → Prop
  | .service ch front back => ch.Versioned (·.resourceVersion) ∧
      ∃ services, L' = { L with services } ∧ L.services.Changes services ch front back
  | .endpoint ch =>
      ∃ endpoints front back, L' = { L with endpoints } ∧
        L.endpoints.Changes endpoints ch front back
  | .secret ch => ch.Versioned (·.resourceVersion) ∧
      ∃ secrets front back, L' = { L with secrets } ∧ L.secrets.Changes secrets ch front back

/-- Two calls return different values. -/
def Differ {α : Type} (x y : M α) : Prop := ∃ a b, x = .ok a ∧ y = .ok b ∧ a ≠ b

/-- One of the five functions returns something else. -/
def OutputDiffers (H : Digest) (L L' : Listers) (i : Ingress) : Prop :=
  getSecretsForIngress H L i ≠ getSecretsForIngress H L' i ∨
  Differ (getEndpointsForIngress H L i) (getEndpointsForIngress H L' i) ∨
  Differ (getClustersForIngress H L i) (getClustersForIngress H L' i) ∨
  Differ (getRouteForIngress H L i) (getRouteForIngress H L' i) ∨
  Differ (getListenersForIngress H L i) (getListenersForIngress H L' i)

def allIngresses (L : Listers) : List Ingress :=
  mergeIngresses L.ingresses.objects L.v1beta1Ingresses.objects

/-- The handler, which runs when the listers already hold the change, queues every envoy
ingress whose translation the change has altered. -/
def TriggerComplete (H : Digest) (L L' : Listers) (d : Delivery) (c : Controller) : Prop :=
  ∀ i ∈ allIngresses L, isEnvoyIngress i → OutputDiffers H L L' i →
    ∃ c', handle L' c d.event = .ok c' ∧ keyFunc i.toObjectMeta ∈ c'.queue

/-- The service has a port and an Endpoints object. -/
def Assigned (L : Listers) (s : Service) : Prop := (assignment L s).isSome

/-- A change of a service shows in the load assignments. -/
def AssignmentsChange (L : Listers) (i : Ingress) (front back : List Service) :
    Change Service → Prop
  | .update old cur => old ≠ cur ∧ (Assigned L old ∨ Assigned L cur)
  | .add s | .delete s => (∀ t ∈ front ++ back, ¬ refersTo i t) ∨
      ∃ t ∈ front ++ [s], refersTo i t ∧ Assigned L t

def ClustersChange (i : Ingress) (front back : List Service) : Change Service → Prop
  | .update old cur => old ≠ cur ∧ (old.ports ≠ [] ∨ cur.ports ≠ [])
  | .add s | .delete s => (∀ t ∈ front ++ back, ¬ refersTo i t) ∨ s.ports ≠ []

/-- A change alters what some function returns for the ingress. -/
def Affects (L L' : Listers) (i : Ingress) : Delivery → Prop
  | .service ch front back => refersTo i ch.object ∧
      ((Finds L i ∧ Finds L' i ∧ AssignmentsChange L i front back ch) ∨
        (ClustersReturn L i ∧ ClustersReturn L' i ∧ ClustersChange i front back ch))
  | .endpoint ch => Finds L i ∧ ∃ s port, L.services.get ch.object.key = some s ∧ refersTo i s ∧
      s.ports.getLast? = some port ∧
      ch.old.map (lbEndpointsFor port) ≠ ch.cur.map (lbEndpointsFor port)
  | .secret ch => i.ns = ch.object.ns ∧ (∃ t ∈ i.tls, t.secretName = ch.object.name) ∧
      ch.old ≠ ch.cur

/-- The services whose ingresses a handler looks up. -/
def asked (L : Listers) : Delivery → List Service
  | .service (.add s) _ _ | .service (.delete s) _ _ => [s]
  | .service (.update old cur) _ _ => if deepEqual cur.selector old.selector then [] else [old, cur]
  | .endpoint (.add e) | .endpoint (.delete e) => (L.services.get e.key).toList
  | .endpoint (.update old cur) => if cur.subsets = old.subsets then []
      else (L.services.get old.key).toList.flatMap fun s => [s, s]
  | .secret _ => []

/-- Without a selector the ingresses of a service are not looked up. -/
def HasSelector (s : Service) : Prop := (s.selector.map fun m => m.entries.length).getD 0 ≠ 0

/-- The handler follows no nil pointer in any ingress of the namespace. -/
def Returns (L : Listers) (d : Delivery) : Prop :=
  ∀ s ∈ asked L d, HasSelector s → ∀ j ∈ allIngresses L, isEnvoyIngress j →
    ∃ b, isServiceMatchIngress j s = .ok b

/-- The handler looks ingresses up. -/
def Fires (L : Listers) : Delivery → Prop
  | .secret (.update old cur) => old.type ≠ cur.type ∨ ¬ deepEqual old.data cur.data ∨
      ¬ deepEqual old.stringData cur.stringData
  | .secret _ => True
  | d => ∃ s ∈ asked L d, HasSelector s

/-- Whenever the change alters the translation of an ingress its key waits already, or the
handler looks ingresses up and returns. -/
def Triggered (L L' : Listers) (d : Delivery) (c : Controller) : Prop :=
  ∀ i ∈ allIngresses L, isEnvoyIngress i → nodeGroupsOf i ≠ [] → Affects L L' i d →
    Returns L' d ∧ (keyFunc i.toObjectMeta ∈ c.queue ∨ Fires L' d)

theorem not_differ_of_eq {α : Type} {x y : M α} (h : x = y) : ¬ Differ x y := by
  rintro ⟨a, b, ha, hb, hne⟩
  exact hne (Except.ok.inj (ha.symm.trans (h.trans hb)))

theorem differ_iff {α : Type} {x y : M α} {P Q : Prop} {a b : α} (hx : ∀ r, x = .ok r ↔ P ∧ r = a)
    (hy : ∀ r, y = .ok r ↔ Q ∧ r = b) : Differ x y ↔ P ∧ Q ∧ a ≠ b := by
  simp only [Differ, hx, hy]
  aesop

theorem groups_of_outputDiffers (h : OutputDiffers H L L' i) : nodeGroupsOf i ≠ [] := by
  rcases getNodeGroupForIngress_cases i with ⟨-, e, he⟩ | ⟨hne, -⟩
  · rcases h with h | h | h | h | h
    · exact absurd (by unfold getSecretsForIngress; rw [he]; rfl) h
    · exact absurd h (not_differ_of_eq (by unfold getEndpointsForIngress; rw [he]))
    · exact absurd h (not_differ_of_eq (by unfold getClustersForIngress; rw [he]))
    · exact absurd h (not_differ_of_eq (by unfold getRouteForIngress; rw [he]))
    · exact absurd h (not_differ_of_eq (by unfold getListenersForIngress; rw [he]))
  · exact hne

section

variable (hg : nodeGroupsOf i ≠ [])
include hg

theorem differ_endpoints :
    Differ (getEndpointsForIngress H L i) (getEndpointsForIngress H L' i) ↔
      Finds L i ∧ Finds L' i ∧ ¬ ((matched L i = [] ↔ matched L' i = []) ∧
        assignments H L i = assignments H L' i) := by
  have hnil (L : Listers) (hn : matched L i = []) : assignments H L i = [] := by
    rw [assignments, hn]
    rfl
  rw [← resultOf_inj (noServices_ne_noAssignments i) (hnil L) (hnil L')]
  exact differ_iff (fun _ => getEndpointsForIngress_returns hg) fun _ =>
    getEndpointsForIngress_returns hg

theorem differ_clusters :
    Differ (getClustersForIngress H L i) (getClustersForIngress H L' i) ↔
      ClustersReturn L i ∧ ClustersReturn L' i ∧ ¬ ((matched L i = [] ↔ matched L' i = []) ∧
        clustersOf H L i (matched L i) = clustersOf H L' i (matched L' i)) := by
  have hnil (L : Listers) (hn : matched L i = []) : clustersOf H L i (matched L i) = [] := by
    rw [hn]
    rfl
  rw [← resultOf_inj (noServices_ne_noClusters i) (hnil L) (hnil L')]
  exact differ_iff (fun _ => getClustersForIngress_ok_iff hg) fun _ =>
    getClustersForIngress_ok_iff hg

theorem getSecretsForIngress_eq : getSecretsForIngress H L i =
    .ok (i.tls.filterMap fun tls => (L.secrets.get (i.ns, tls.secretName)).map
      (secretResource H i (GoSet.ofList (nodeGroupsOf i)))) := by
  unfold getSecretsForIngress
  rw [getNodeGroupForIngress_eq hg]
  rfl

/-- The resources of the secrets tell which secrets there are and their versions. -/
theorem secrets_of_getSecretsForIngress_eq
    (hsome : ∀ t ∈ i.tls, (L.secrets.get (i.ns, t.secretName)).isSome →
      (L'.secrets.get (i.ns, t.secretName)).isSome)
    (h : getSecretsForIngress H L i = getSecretsForIngress H L' i) :
    ∀ t ∈ i.tls, (L.secrets.get (i.ns, t.secretName)).map (·.resourceVersion) =
      (L'.secrets.get (i.ns, t.secretName)).map (·.resourceVersion) := by
  rw [getSecretsForIngress_eq hg, getSecretsForIngress_eq hg, Except.ok.injEq] at h
  intro t ht
  have heq := filterMap_inj (fun t ht hs => by simpa using hsome t ht (by simpa using hs)) h t ht
  have hversion := congrArg (Option.map Resource.resourceVersion) heq
  rw [Option.map_map, Option.map_map] at hversion
  exact hversion

theorem outputDiffers_secret (hd : Delivered L L' (.secret ch)) :
    OutputDiffers H L L' i ↔ Affects L L' i (.secret ch) := by
  obtain ⟨hversion, secrets, front, back, rfl, hch⟩ := hd
  constructor
  · intro h
    by_contra hnot
    have hsame : SameSecrets L { L with secrets } i := by
      intro t ht
      by_cases hk : (i.ns, t.secretName) = ch.object.key
      · have heq : ch.old = ch.cur := by
          by_contra hne
          exact hnot ⟨congrArg Prod.fst hk, ⟨t, ht, congrArg Prod.snd hk⟩, hne⟩
        rw [hk]
        exact hch.get_old.trans (heq.trans hch.get_cur.symm)
      · exact (hch.get_other hk).symm
    rcases h with h | h | h | h | h
    · exact h hsame.getSecretsForIngress_eq
    · exact ((differ_endpoints hg).mp h).2.2
        ⟨Iff.rfl, assignments_congr rfl fun _ _ => rfl⟩
    · exact ((differ_clusters hg).mp h).2.2 ⟨Iff.rfl, hsame.clustersOf_eq _⟩
    · exact not_differ_of_eq (getRouteForIngress_congr hsame fun _ _ _ _ _ _ _ _ => rfl) h
    · exact not_differ_of_eq hsame.getListenersForIngress_eq h
  · rintro ⟨hns, ⟨t, ht, hname⟩, hne⟩
    refine .inl fun h => hne ?_
    have hkey : (i.ns, t.secretName) = ch.object.key := Prod.ext hns hname
    have hsome (k : GoString × GoString) (ho : ch.old.isSome → ch.cur.isSome)
        (hs : (L.secrets.get k).isSome) : (secrets.get k).isSome := by
      by_cases hk : k = ch.object.key
      · rw [hk, hch.get_old] at hs
        rw [hk, hch.get_cur]
        exact ho hs
      · rwa [hch.get_other hk]
    have hold : L.secrets.get (i.ns, t.secretName) = ch.old := hkey ▸ hch.get_old
    have hcur : secrets.get (i.ns, t.secretName) = ch.cur := hkey ▸ hch.get_cur
    cases ch with
    | add s =>
      have hv := secrets_of_getSecretsForIngress_eq hg (fun t _ => hsome _ nofun) h t ht
      rw [hold, hcur] at hv
      cases hv
    | update old cur =>
      have hv := secrets_of_getSecretsForIngress_eq hg (fun t _ => hsome _ fun _ => rfl) h t ht
      rw [hold, hcur] at hv
      exact congrArg some (hversion old cur rfl (Option.some.inj hv).symm).symm
    | delete s =>
      have hback (t : IngressTLS) (_ : t ∈ i.tls)
          (hs : (secrets.get (i.ns, t.secretName)).isSome) :
          (L.secrets.get (i.ns, t.secretName)).isSome := by
        by_cases hk : (i.ns, t.secretName) = s.key
        · exact absurd hs (by rw [hk]; exact hch.get_cur ▸ Bool.false_ne_true)
        · rwa [hch.get_other hk] at hs
      have hv := secrets_of_getSecretsForIngress_eq hg hback h.symm t ht
      rw [hold, hcur] at hv
      cases hv

theorem outputDiffers_endpoint {ch : Change Endpoints} (hd : Delivered L L' (.endpoint ch)) :
    OutputDiffers H L L' i ↔ Affects L L' i (.endpoint ch) := by
  obtain ⟨endpoints, front, back, rfl, hch⟩ := hd
  have hsame : SameSecrets L { L with endpoints } i := fun _ _ => rfl
  have honly : OutputDiffers H L { L with endpoints } i ↔
      Differ (getEndpointsForIngress H L i) (getEndpointsForIngress H { L with endpoints } i) := by
    constructor
    · rintro (h | h | h | h | h)
      · exact absurd hsame.getSecretsForIngress_eq h
      · exact h
      · exact absurd ⟨Iff.rfl, hsame.clustersOf_eq _⟩ ((differ_clusters hg).mp h).2.2
      · exact absurd h
          (not_differ_of_eq (getRouteForIngress_congr hsame fun _ _ _ _ _ _ _ _ => rfl))
      · exact absurd h (not_differ_of_eq hsame.getListenersForIngress_eq)
    · exact fun h => .inr (.inl h)
  have hother {s : Service} (hk : s.key ≠ ch.object.key) :
      assignment L s = assignment { L with endpoints } s := by
    have hget : endpoints.get (s.ns, s.name) = L.endpoints.get (s.ns, s.name) := hch.get_other hk
    unfold assignment
    rw [hget]
  have hthis {s : Service} (hk : s.key = ch.object.key) :
      assignment L s = (s.ports.getLast?.bind fun port => ch.old.map (lbEndpointsFor port)) ∧
      assignment { L with endpoints } s =
        s.ports.getLast?.bind fun port => ch.cur.map (lbEndpointsFor port) := by
    have hold : L.endpoints.get s.key = ch.old := hk ▸ hch.get_old
    have hcur : endpoints.get s.key = ch.cur := hk ▸ hch.get_cur
    unfold assignment
    rw [show (s.ns, s.name) = s.key from rfl, hold, hcur]
    exact ⟨rfl, rfl⟩
  have hmatched : matched L i = matched { L with endpoints } i := rfl
  rw [honly, differ_endpoints hg, assignments_eq_iff hmatched]
  constructor
  · rintro ⟨hf, -, hne⟩
    refine ⟨hf, ?_⟩
    have hex : ¬ ∀ s ∈ matched L i, assignment L s = assignment { L with endpoints } s :=
      fun h => hne ⟨Iff.rfl, h⟩
    push Not at hex
    obtain ⟨s, hs, hne⟩ := hex
    have hk : s.key = ch.object.key := by
      by_contra hk
      exact hne (hother hk)
    rw [(hthis hk).1, (hthis hk).2] at hne
    obtain ⟨hmem, href⟩ := mem_matched.mp hs
    cases hp : s.ports.getLast? with
    | none => simp [hp] at hne
    | some port =>
      rw [hp, Option.bind_some, Option.bind_some] at hne
      exact ⟨s, port, Indexer.get_eq_some.mpr ⟨hmem, hk⟩, href, hp, hne⟩
  · rintro ⟨hf, s, port, hs, href, hp, hne⟩
    obtain ⟨hmem, hk⟩ := Indexer.get_eq_some.mp hs
    refine ⟨hf, hf, fun h => hne ?_⟩
    have hthis := hthis hk
    rw [hp] at hthis
    exact hthis.1.symm.trans ((h.2 s (mem_matched.mpr ⟨hmem, href⟩)).trans hthis.2)

end

section

variable {F B : List Service} {old cur : Service} {g : GoSet GoString}

/-- The load assignment of a service is nowhere among those of services that differ from it in
name or version. -/
theorem clusterLoadAssignments_ne {l l' : List Service} (hs : s ∈ l) (ha : Assigned L s)
    (hns : ∀ t ∈ l', t.ns = s.ns)
    (hnot : ∀ t ∈ l', t.name = s.name → t.resourceVersion ≠ s.resourceVersion) :
    clusterLoadAssignments H L i g none l ≠ clusterLoadAssignments H L i g none l' := by
  obtain ⟨lbs, ha⟩ := Option.isSome_iff_exists.mp ha
  intro h
  have hmem := h ▸ mem_of_assignment hs ha
  rcases mem_clusterLoadAssignments hmem with hmem | ⟨t, ht, lbs', -, heq⟩
  · cases hmem
  · have hname : s.name = t.name := by
      have hspec := congrArg Resource.spec heq
      simp only [endpointResource, Spec.endpoint.injEq, ClusterLoadAssignment.mk.injEq, hns t ht,
        List.append_cancel_left_eq, List.cons.injEq, true_and] at hspec
      exact hspec.1
    exact hnot t ht hname.symm (congrArg Resource.resourceVersion heq).symm

theorem clusterLoadAssignments_replace
    (hothers : ∀ t ∈ F ++ B, t.ns = old.ns ∧ t.name ≠ old.name) (hkey : cur.key = old.key)
    (hversion : cur.resourceVersion = old.resourceVersion → cur = old) :
    clusterLoadAssignments H L i g none (F ++ [old] ++ B) =
        clusterLoadAssignments H L i g none (F ++ [cur] ++ B) ↔
      ¬ (old ≠ cur ∧ (Assigned L old ∨ Assigned L cur)) := by
  have hcurns : cur.ns = old.ns := congrArg Prod.fst hkey
  have hcurname : cur.name = old.name := congrArg Prod.snd hkey
  have hmem {t x : Service} (ht : t ∈ F ++ [x] ++ B) : t = x ∨ t ∈ F ++ B := by
    simp only [List.mem_append, List.mem_singleton] at ht ⊢
    tauto
  constructor
  · rintro h ⟨hne, ha | ha⟩
    · refine clusterLoadAssignments_ne (by simp) ha ?_ ?_ h
      · intro t ht
        rcases hmem ht with rfl | ht
        · exact hcurns
        · exact (hothers t ht).1
      · intro t ht hname hv
        rcases hmem ht with rfl | ht
        · exact hne (hversion hv).symm
        · exact (hothers t ht).2 hname
    · refine clusterLoadAssignments_ne (by simp) ha ?_ ?_ h.symm
      · intro t ht
        rcases hmem ht with rfl | ht
        · exact hcurns.symm
        · exact (hothers t ht).1.trans hcurns.symm
      · intro t ht hname hv
        rcases hmem ht with rfl | ht
        · exact hne (hversion hv.symm).symm
        · exact (hothers t ht).2 (hname.trans hcurname)
  · intro h
    by_cases heq : old = cur
    · rw [heq]
    · have hnone {x : Service} (hx : ¬ Assigned L x) : assignment L x = none :=
        Option.not_isSome_iff_eq_none.mp hx
      have hold := hnone fun ha => h ⟨heq, .inl ha⟩
      have hcur := hnone fun ha => h ⟨heq, .inr ha⟩
      rw [List.append_assoc, List.append_assoc, List.singleton_append, List.singleton_append,
        clusterLoadAssignments_append, clusterLoadAssignments_append,
        clusterLoadAssignments_cons_of_none hold, clusterLoadAssignments_cons_of_none hcur]

theorem clusterLoadAssignments_insert (hothers : ∀ t ∈ F ++ B, t.ns = s.ns ∧ t.name ≠ s.name) :
    clusterLoadAssignments H L i g none (F ++ [s] ++ B) =
        clusterLoadAssignments H L i g none (F ++ B) ↔ ∀ t ∈ F ++ [s], ¬ Assigned L t := by
  by_cases ha : Assigned L s
  · refine iff_of_false ?_ fun h => h s (by simp) ha
    exact clusterLoadAssignments_ne (by simp) ha (fun t ht => (hothers t ht).1)
      fun t ht hname => absurd hname (hothers t ht).2
  · have hs : assignment L s = none := Option.not_isSome_iff_eq_none.mp ha
    rw [List.append_assoc, List.singleton_append, clusterLoadAssignments_append,
      clusterLoadAssignments_append, clusterLoadAssignments_cons_of_none hs]
    have hsome : (∀ t ∈ F ++ [s], ¬ Assigned L t) ↔ claAfter H L i g none F = none := by
      rw [claAfter_eq_none]
      simp [or_imp, forall_and, Assigned, hs]
    rw [hsome]
    cases hc : claAfter H L i g none F with
    | none => simp
    | some r =>
      refine iff_of_false (fun h => ?_) (Option.some_ne_none r)
      have hlength := congrArg List.length h
      simp only [List.length_append, Option.toList_some, List.length_singleton] at hlength
      omega

theorem clustersOf_append (l l' : List Service) :
    clustersOf H L i (l ++ l') = clustersOf H L i l ++ clustersOf H L i l' := List.flatMap_append

theorem clustersOf_singleton (s : Service) :
    clustersOf H L i [s] = s.ports.map (clusterAt H L i s) := List.flatMap_singleton ..

theorem clustersOf_replace (hversion : cur.resourceVersion = old.resourceVersion → cur = old) :
    clustersOf H L i (F ++ [old] ++ B) = clustersOf H L i (F ++ [cur] ++ B) ↔
      ¬ (old ≠ cur ∧ (old.ports ≠ [] ∨ cur.ports ≠ [])) := by
  simp only [clustersOf_append, List.append_assoc, List.append_cancel_left_eq,
    List.append_cancel_right_eq, clustersOf_singleton]
  constructor
  · rintro h ⟨hne, hports⟩
    -- the first clusters carry the versions of the two services
    have hheads := congrArg (fun l => l.head?.map Resource.resourceVersion) h
    have hnil : old.ports = [] ↔ cur.ports = [] := by
      rw [← List.map_eq_nil_iff, h, List.map_eq_nil_iff]
    cases hold : old.ports with
    | nil => simp [hold, hnil.mp hold] at hports
    | cons p ps =>
      cases hcur : cur.ports with
      | nil => simp [hnil.mpr hcur] at hold
      | cons q qs =>
        rw [hold, hcur] at hheads
        exact hne (hversion (Option.some.inj hheads).symm).symm
  · intro h
    by_cases heq : old = cur
    · rw [heq]
    · obtain ⟨hold, hcur⟩ : old.ports = [] ∧ cur.ports = [] := by simpa [heq] using h
      rw [hold, hcur]
      rfl

theorem clustersOf_insert :
    clustersOf H L i (F ++ [s] ++ B) = clustersOf H L i (F ++ B) ↔ s.ports = [] := by
  simp only [clustersOf_append, List.append_assoc, List.append_cancel_left_eq,
    List.append_left_eq_self, clustersOf_singleton, List.map_eq_nil_iff]

end

section

variable {services : ServiceLister} {ch : Change Service} {front back : List Service}

theorem matched_of_changes (href : refersTo i ch.object)
    (hch : L.services.Changes services ch front back) :
    matched L i = front.filter (refersTo i) ++ ch.old.toList ++ back.filter (refersTo i) ∧
    matched { L with services } i =
      front.filter (refersTo i) ++ ch.cur.toList ++ back.filter (refersTo i) := by
  have hall {o : Option Service} (ho : ∀ s ∈ o, s.key = ch.object.key) :
      o.toList.filter (refersTo i) = o.toList := by
    refine List.filter_eq_self.mpr fun s hs => ?_
    rw [refersTo_congr (ho s (Option.mem_toList.mp hs)), href]
  simp only [matched, hch.before, hch.after, List.filter_append, hall Indexer.Changes.key_old,
    hall hch.key_cur, and_self]

theorem matched_of_not_refersTo (href : ¬ refersTo i ch.object)
    (hch : L.services.Changes services ch front back) :
    matched { L with services } i = matched L i := by
  have hnone {o : Option Service} (ho : ∀ s ∈ o, s.key = ch.object.key) :
      o.toList.filter (refersTo i) = [] := by
    refine List.filter_eq_nil_iff.mpr fun s hs => ?_
    rwa [refersTo_congr (ho s (Option.mem_toList.mp hs))]
  simp only [matched, hch.before, hch.after, List.filter_append, hnone Indexer.Changes.key_old,
    hnone hch.key_cur]

/-- The other services the ingress refers to share its namespace and have other names. -/
theorem others_of_changes (href : refersTo i ch.object)
    (hch : L.services.Changes services ch front back) :
    ∀ t ∈ front.filter (refersTo i) ++ back.filter (refersTo i),
      t.ns = ch.object.ns ∧ t.name ≠ ch.object.name := by
  intro t ht
  rw [← List.filter_append, List.mem_filter] at ht
  have hns : t.ns = ch.object.ns := (ns_of_refersTo ht.2).trans (ns_of_refersTo href).symm
  exact ⟨hns, fun hname => hch.others_ne ht.1 (Prod.ext hns hname)⟩

theorem filter_refersTo_eq_nil :
    front.filter (refersTo i) ++ back.filter (refersTo i) = [] ↔
      ∀ t ∈ front ++ back, ¬ refersTo i t := by
  rw [← List.filter_append, List.filter_eq_nil_iff]

theorem assignedBefore_iff (hs : refersTo i s) :
    (∀ t ∈ front.filter (refersTo i) ++ [s], ¬ Assigned L t) ↔
      ¬ ∃ t ∈ front ++ [s], refersTo i t ∧ Assigned L t := by
  have hfilter : front.filter (refersTo i) ++ [s] = (front ++ [s]).filter (refersTo i) := by
    simp [hs]
  rw [hfilter]
  simp only [List.mem_filter, not_exists, not_and, and_imp]

theorem insert_nil {F B : List Service} : (F ++ B = [] ↔ F ++ [s] ++ B = []) ↔ F ++ B ≠ [] := by
  simp

section

variable (hv : ch.Versioned (·.resourceVersion)) (href : refersTo i ch.object)
  (hch : L.services.Changes services ch front back)
include hv href hch

theorem assignments_of_changes :
    ((matched L i = [] ↔ matched { L with services } i = []) ∧
      assignments H L i = assignments H { L with services } i) ↔
      ¬ AssignmentsChange L i front back ch := by
  obtain ⟨hbefore, hafter⟩ := matched_of_changes href hch
  have hothers := others_of_changes href hch
  have hsame : ∀ s ∈ matched { L with services } i,
      assignment { L with services } s = assignment L s := fun _ _ => rfl
  rw [assignments, assignments, clusterLoadAssignments_congr hsame, hafter, hbefore]
  cases ch with
  | update old cur =>
    refine (and_iff_right ?_).trans
      (clusterLoadAssignments_replace hothers (hch.key_eq old cur rfl) (hv old cur rfl))
    simp [Change.old, Change.cur]
  | add s =>
    simp only [Change.old, Change.cur, Option.toList_none, Option.toList_some, List.append_nil]
    rw [insert_nil, ne_eq, filter_refersTo_eq_nil, eq_comm,
      clusterLoadAssignments_insert (s := s) hothers, assignedBefore_iff (s := s) href,
      AssignmentsChange, not_or]
  | delete s =>
    simp only [Change.old, Change.cur, Option.toList_none, Option.toList_some, List.append_nil]
    rw [iff_comm (a := _ = []), insert_nil, ne_eq, filter_refersTo_eq_nil,
      clusterLoadAssignments_insert (s := s) hothers, assignedBefore_iff (s := s) href,
      AssignmentsChange, not_or]

theorem clusters_of_changes :
    ((matched L i = [] ↔ matched { L with services } i = []) ∧
      clustersOf H L i (matched L i) =
        clustersOf H { L with services } i (matched { L with services } i)) ↔
      ¬ ClustersChange i front back ch := by
  obtain ⟨hbefore, hafter⟩ := matched_of_changes href hch
  have hsame : SameSecrets { L with services } L i := fun _ _ => rfl
  rw [hsame.clustersOf_eq, hafter, hbefore]
  cases ch with
  | update old cur =>
    refine (and_iff_right ?_).trans (clustersOf_replace (hv old cur rfl))
    simp [Change.old, Change.cur]
  | add s =>
    simp only [Change.old, Change.cur, Option.toList_none, Option.toList_some, List.append_nil]
    rw [insert_nil, ne_eq, filter_refersTo_eq_nil, eq_comm, clustersOf_insert, ClustersChange,
      not_or, not_not]
  | delete s =>
    simp only [Change.old, Change.cur, Option.toList_none, Option.toList_some, List.append_nil]
    rw [iff_comm (a := _ = []), insert_nil, ne_eq, filter_refersTo_eq_nil, clustersOf_insert,
      ClustersChange, not_or, not_not]

end

/-- A route reads only services the ingress refers to, and only those with a port. -/
theorem route_of_changes
    (hnot : ¬ (refersTo i ch.object ∧ ClustersChange i front back ch))
    (hch : L.services.Changes services ch front back) :
    getRouteForIngress H L i = getRouteForIngress H { L with services } i := by
  have hsame : SameSecrets L { L with services } i := fun _ _ => rfl
  refine getRouteForIngress_congr hsame fun rule hr paths hp path hpath b hb => ?_
  unfold portful
  by_cases hk : (i.ns, b.name) = ch.object.key
  · have href : refersTo i ch.object := by
      have hns : ch.object.ns = i.ns := (congrArg Prod.fst hk).symm
      have hname : b.name = ch.object.name := congrArg Prod.snd hk
      have hrule : i.rules.any (ruleNames ch.object.name) :=
        List.any_eq_true.mpr ⟨rule, hr, by
          unfold ruleNames
          rw [hp, Option.getD_some]
          exact List.any_eq_true.mpr ⟨path, hpath, by simp [hb, hname]⟩⟩
      simp [refersTo, hns, hrule]
    have hno : ¬ ClustersChange i front back ch := fun h => hnot ⟨href, h⟩
    rw [hk, hch.get_old, hch.get_cur]
    cases ch with
    | update old cur =>
      by_cases heq : old = cur
      · rw [heq]
        rfl
      · obtain ⟨hold, hcur⟩ : old.ports = [] ∧ cur.ports = [] := by
          simpa [ClustersChange, heq] using hno
        simp [Change.old, Change.cur, Option.filter_some, hold, hcur]
    | add s | delete s =>
      have hs : s.ports = [] := by
        by_contra hp
        exact hno (.inr hp)
      simp [Change.old, Change.cur, Option.filter_some, hs]
  · rw [hch.get_other hk]

theorem outputDiffers_service (hg : nodeGroupsOf i ≠ [])
    (hd : Delivered L L' (.service ch front back)) :
    OutputDiffers H L L' i ↔ Affects L L' i (.service ch front back) := by
  obtain ⟨hv, services, rfl, hch⟩ := hd
  have hsame : SameSecrets L { L with services } i := fun _ _ => rfl
  by_cases href : refersTo i ch.object
  · have hendpoints : Differ (getEndpointsForIngress H L i)
        (getEndpointsForIngress H { L with services } i) ↔
        Finds L i ∧ Finds { L with services } i ∧ AssignmentsChange L i front back ch := by
      rw [differ_endpoints hg, assignments_of_changes hv href hch, not_not]
    have hclusters : Differ (getClustersForIngress H L i)
        (getClustersForIngress H { L with services } i) ↔
        ClustersReturn L i ∧ ClustersReturn { L with services } i ∧
          ClustersChange i front back ch := by
      rw [differ_clusters hg, clusters_of_changes hv href hch, not_not]
    constructor
    · rintro (h | h | h | h | h)
      · exact absurd hsame.getSecretsForIngress_eq h
      · exact ⟨href, .inl (hendpoints.mp h)⟩
      · exact ⟨href, .inr (hclusters.mp h)⟩
      · obtain ⟨a, b, ha, -⟩ := id h
        have hf := (followed_of_getRouteForIngress hg ha).1
        have hchange : ClustersChange i front back ch := by
          by_contra hno
          exact not_differ_of_eq (route_of_changes (fun h => hno h.2) hch) h
        exact ⟨href, .inr ⟨hf.clustersReturn, hf.clustersReturn, hchange⟩⟩
      · exact absurd h (not_differ_of_eq hsame.getListenersForIngress_eq)
    · rintro ⟨-, h | h⟩
      · exact .inr (.inl (hendpoints.mpr h))
      · exact .inr (.inr (.inl (hclusters.mpr h)))
  · refine iff_of_false ?_ fun h => href h.1
    have hm := matched_of_not_refersTo href hch
    rintro (h | h | h | h | h)
    · exact h hsame.getSecretsForIngress_eq
    · exact ((differ_endpoints hg).mp h).2.2
        ⟨by rw [hm], assignments_congr hm.symm fun _ _ => rfl⟩
    · exact ((differ_clusters hg).mp h).2.2 ⟨by rw [hm], by rw [hm]; exact hsame.clustersOf_eq _⟩
    · exact not_differ_of_eq (route_of_changes (fun h => href h.1) hch) h
    · exact not_differ_of_eq hsame.getListenersForIngress_eq h

end

theorem outputDiffers_iff (hg : nodeGroupsOf i ≠ []) (hd : Delivered L L' d) :
    OutputDiffers H L L' i ↔ Affects L L' i d := by
  cases d with
  | service ch front back => exact outputDiffers_service hg hd
  | endpoint ch => exact outputDiffers_endpoint hg hd
  | secret ch => exact outputDiffers_secret hg hd

theorem mem_allIngresses_of_ns {ns : GoString} (hns : ns ≠ []) :
    i ∈ mergeIngresses (listByNamespace L.ingresses ns) (listByNamespace L.v1beta1Ingresses ns) ↔
      i ∈ allIngresses L ∧ i.ns = ns := by
  simp only [allIngresses, mergeIngresses, List.mem_append, List.mem_map, mem_listByNamespace hns]
  constructor
  · rintro (⟨hi, h⟩ | ⟨j, ⟨hj, h⟩, rfl⟩)
    · exact ⟨.inl hi, h⟩
    · exact ⟨.inr ⟨j, hj, rfl⟩, h⟩
  · rintro ⟨hi | ⟨j, hj, rfl⟩, h⟩
    · exact .inl ⟨hi, h⟩
    · exact .inr ⟨j, ⟨hj, h⟩, rfl⟩

theorem handle_service (hd : ∀ ch, d ≠ .secret ch) (c : Controller) :
    handle L c d.event = loopM (fun c s => addService L s c) (asked L d) c := by
  have hone (s : Service) :
      addService L s c = loopM (fun c s => addService L s c) [s] c := by
    simp only [loopM]
    cases addService L s c <;> rfl
  have htwo (s t : Service) : (addService L s c >>= fun c => addService L t c) =
      loopM (fun c s => addService L s c) [s, t] c := by
    simp only [loopM]
    refine bind_congr fun c' => ?_
    cases addService L t c' <;> rfl
  cases d with
  | secret ch => exact absurd rfl (hd ch)
  | service ch front back =>
    cases ch with
    | add s | delete s => exact hone s
    | update old cur =>
      change updateService L old cur c = _
      unfold updateService
      dsimp [asked]
      split_ifs
      · rfl
      · exact htwo old cur
  | endpoint ch =>
    cases ch with
    | add e | delete e =>
      simp only [Delivery.event, handle, addEndpoint, deleteEndpoint, asked]
      cases L.services.get e.key with
      | none => rfl
      | some s => exact hone s
    | update old cur =>
      change updateEndpoint L old cur c = _
      unfold updateEndpoint
      dsimp [asked]
      split_ifs
      · rfl
      · cases L.services.get old.key with
        | none => rfl
        | some s => exact htwo s s

theorem getIngressesForService_returns :
    (∃ is, getIngressesForService L s = .ok is) ↔
      (HasSelector s → ∀ j ∈ allIngresses L, isEnvoyIngress j →
        ∃ b, isServiceMatchIngress j s = .ok b) := by
  have hns := s.ns_valid.1
  unfold getIngressesForService HasSelector
  simp only [isIngressMatchService_eq]
  split_ifs with hsel
  · exact iff_of_true ⟨_, rfl⟩ fun h => absurd hsel h
  · constructor
    · rintro ⟨is, his⟩ - j hj henvoy
      by_cases hjns : j.ns = s.ns
      · have hb := filterM_ok his j ((mem_allIngresses_of_ns hns).mpr ⟨hj, hjns⟩)
        rwa [if_pos henvoy] at hb
      · exact ⟨false, if_pos fun h => hjns h.symm⟩
    · intro h
      refine filterM_of_ok fun j hj => ?_
      split_ifs with henvoy
      · exact h hsel j ((mem_allIngresses_of_ns hns).mp hj).1 henvoy
      · exact ⟨false, rfl⟩

theorem mem_getIngressesForService {is : List Ingress} (h : getIngressesForService L s = .ok is) :
    i ∈ is ↔ HasSelector s ∧ i ∈ allIngresses L ∧
      isEnvoyIngress i ∧ isServiceMatchIngress i s = .ok true := by
  have hns := s.ns_valid.1
  unfold getIngressesForService at h
  simp only [isIngressMatchService_eq] at h
  split_ifs at h with hsel
  · cases h
    simp [HasSelector, hsel]
  · rw [mem_filterM h, mem_allIngresses_of_ns hns]
    constructor
    · rintro ⟨⟨hi, -⟩, hmatch⟩
      split_ifs at hmatch with henvoy
      · exact ⟨hsel, hi, henvoy, hmatch⟩
      · cases hmatch
    · rintro ⟨-, hi, henvoy, hmatch⟩
      rw [if_pos henvoy]
      exact ⟨⟨hi, (ns_of_refersTo (isServiceMatchIngress_ok hmatch).symm).symm⟩, hmatch⟩

/-- Where no ingress leads over a nil pointer, an ingress is found for
a service with a selector exactly if the service is found for the ingress. -/
theorem matching_symmetric {s : Service} (hf : ∀ j ∈ allIngresses L, Followed j)
    (hi : i ∈ allIngresses L) (henvoy : isEnvoyIngress i) (hs : s ∈ L.services.objects)
    (hsel : HasSelector s) :
    (∃ is, getIngressesForService L s = .ok is ∧ i ∈ is) ↔
      ∃ ss, getServicesForIngress L i = .ok (.ok ss) ∧ s ∈ ss := by
  have hmatch := (hf i hi).isServiceMatchIngress_eq s
  have hfound : (∃ is, getIngressesForService L s = .ok is ∧ i ∈ is) ↔ refersTo i s := by
    obtain ⟨is, his⟩ := getIngressesForService_returns.mpr fun (_ : HasSelector s) j hj _ =>
      ⟨_, (hf j hj).isServiceMatchIngress_eq s⟩
    simp [his, mem_getIngressesForService his, hsel, hi, henvoy, hmatch]
  have hserved : (∃ ss, getServicesForIngress L i = .ok (.ok ss) ∧ s ∈ ss) ↔ s ∈ matched L i := by
    simp only [getServicesForIngress_returns, (hf i hi).finds, true_and]
    split_ifs with hnone <;> simp [hnone]
  rw [hfound, hserved, mem_matched, and_iff_right hs]

theorem addService_returns :
    (∃ c', addService L s c = .ok c') ↔
      (HasSelector s → ∀ j ∈ allIngresses L, isEnvoyIngress j →
        ∃ b, isServiceMatchIngress j s = .ok b) := by
  rw [← getIngressesForService_returns]
  constructor
  · rintro ⟨c', h⟩
    obtain ⟨is, his, -⟩ := ok_of_bind h
    exact ⟨is, his⟩
  · rintro ⟨is, his⟩
    rw [addService, his]
    exact ⟨_, rfl⟩

theorem mem_queue_addService {c' : Controller} (h : addService L s c = .ok c') {k : GoString} :
    k ∈ c'.queue ↔ k ∈ c.queue ∨ (HasSelector s ∧ ∃ j ∈ allIngresses L,
      isEnvoyIngress j ∧ isServiceMatchIngress j s = .ok true ∧ keyFunc j.toObjectMeta = k) := by
  obtain ⟨is, his, h⟩ := ok_of_bind h
  cases h
  rw [mem_queue_foldl_enqueue]
  refine or_congr_right ?_
  constructor
  · rintro ⟨j, hj, -, hk⟩
    obtain ⟨hsel, hj, henvoy, hmatch⟩ := (mem_getIngressesForService his).mp hj
    exact ⟨hsel, j, hj, henvoy, hmatch, hk⟩
  · rintro ⟨hsel, j, hj, henvoy, hmatch, hk⟩
    exact ⟨j, (mem_getIngressesForService his).mpr ⟨hsel, hj, henvoy, hmatch⟩, henvoy, hk⟩

theorem mem_queue_loop {services : List Service} {k : GoString} :
    (∃ c', loopM (fun c s => addService L s c) services c = .ok c' ∧ k ∈ c'.queue) ↔
      (∀ s ∈ services, HasSelector s → ∀ j ∈ allIngresses L, isEnvoyIngress j →
        ∃ b, isServiceMatchIngress j s = .ok b) ∧
      (k ∈ c.queue ∨ ∃ s ∈ services, HasSelector s ∧ ∃ j ∈ allIngresses L, isEnvoyIngress j ∧
        isServiceMatchIngress j s = .ok true ∧ keyFunc j.toObjectMeta = k) := by
  induction services generalizing c with
  | nil => simp [loopM]
  | cons s services ih =>
    rw [List.forall_mem_cons, ← addService_returns, List.exists_mem_cons_iff]
    constructor
    · rintro ⟨c', h, hk⟩
      obtain ⟨c₁, h₁, h⟩ := ok_of_bind h
      obtain ⟨hrest, hq⟩ := ih.mp ⟨c', h, hk⟩
      rw [mem_queue_addService h₁, or_assoc] at hq
      exact ⟨⟨⟨c₁, h₁⟩, hrest⟩, hq⟩
    · rintro ⟨⟨⟨c₁, h₁⟩, hrest⟩, hq⟩
      rw [← or_assoc, ← mem_queue_addService h₁] at hq
      obtain ⟨c', h, hk⟩ := ih.mpr ⟨hrest, hq⟩
      refine ⟨c', ?_, hk⟩
      rw [loopM, h₁, ok_bind]
      exact h

theorem refersTo_asked (hd : Delivered L L' d) (ha : Affects L L' i d) :
    ∀ s ∈ asked L' d, refersTo i s := by
  intro s hs
  cases d with
  | secret ch => cases hs
  | service ch front back =>
    obtain ⟨-, services, rfl, hch⟩ := hd
    have hkey : s.key = ch.object.key := by
      cases ch with
      | add t | delete t => rw [List.mem_singleton.mp hs]; rfl
      | update old cur =>
        dsimp only [asked] at hs
        split_ifs at hs
        · cases hs
        · rcases List.mem_pair.mp hs with rfl | rfl
          · rfl
          · exact hch.key_eq old s rfl
    rw [refersTo_congr hkey]
    exact ha.1
  | endpoint ch =>
    obtain ⟨endpoints, front, back, rfl, hch⟩ := hd
    obtain ⟨-, t, port, ht, href, -⟩ := ha
    have hget : L.services.get ch.object.key = some s := by
      cases ch with
      | add e | delete e => exact Option.mem_toList.mp hs
      | update old cur =>
        dsimp only [asked] at hs
        split_ifs at hs
        · cases hs
        · obtain ⟨u, hu, hs⟩ := List.mem_flatMap.mp hs
          obtain rfl : s = u := by simpa using hs
          exact Option.mem_toList.mp hu
    rw [Option.some.inj (hget.symm.trans ht)]
    exact href

theorem mem_queue_of_secret (hi : i ∈ allIngresses L) (henvoy : isEnvoyIngress i)
    (hkey : ∀ s ∈ ch.cur, s.key = ch.object.key) (hns : i.ns = ch.object.ns)
    (htls : ∃ t ∈ i.tls, t.secretName = ch.object.name) :
    (∃ c', handle L c (Delivery.secret ch).event = .ok c' ∧ keyFunc i.toObjectMeta ∈ c'.queue) ↔
      keyFunc i.toObjectMeta ∈ c.queue ∨ Fires L (.secret ch) := by
  have hmem {s : Secret} (hs : s.key = ch.object.key) : i ∈ getIngressesForSecret L s := by
    have hsns : s.ns = ch.object.ns := congrArg Prod.fst hs
    have hname : s.name = ch.object.name := congrArg Prod.snd hs
    obtain ⟨t, ht, htname⟩ := htls
    unfold getIngressesForSecret
    rw [List.mem_filter, mem_allIngresses_of_ns s.ns_valid.1]
    refine ⟨⟨hi, hns.trans hsns.symm⟩, ?_⟩
    rw [Bool.and_eq_true, List.any_eq_true]
    exact ⟨henvoy, t, ht, by simp [htname, hname]⟩
  have hqueued {s : Secret} hs c :
      keyFunc i.toObjectMeta ∈ (addSecret L s c).queue :=
    mem_queue_foldl_enqueue.mpr (.inr ⟨i, hmem hs, henvoy, rfl⟩)
  cases ch with
  | add s | delete s => exact iff_of_true ⟨_, rfl, hqueued rfl c⟩ (.inr trivial)
  | update old cur =>
    have hevent : (∃ c', handle L c (Delivery.secret (.update old cur)).event = .ok c' ∧
        keyFunc i.toObjectMeta ∈ c'.queue) ↔
        keyFunc i.toObjectMeta ∈ (updateSecret L old cur c).queue :=
      ⟨fun ⟨c', h, hk⟩ => Except.ok.inj h ▸ hk, fun hk => ⟨_, rfl, hk⟩⟩
    rw [hevent]
    unfold updateSecret Fires
    split_ifs with hfire
    · exact iff_of_true (hqueued (hkey cur rfl) _) (.inr hfire)
    · exact ⟨.inl, fun h => h.resolve_right hfire⟩

/-- A delivery queues every ingress whose translation it alters
exactly if, for each such ingress, the handler returns and looks ingresses up: the service
asked for has a selector, and in an update the selector, the subsets or the data differ. -/
theorem trigger_complete_iff {d : Delivery} (hd : Delivered L L' d) (c : Controller) :
    TriggerComplete H L L' d c ↔ Triggered L L' d c := by
  have hsame : allIngresses L' = allIngresses L := by
    cases d with
    | service ch front back => obtain ⟨-, services, rfl, -⟩ := hd; rfl
    | endpoint ch => obtain ⟨endpoints, front, back, rfl, -⟩ := hd; rfl
    | secret ch => obtain ⟨-, secrets, front, back, rfl, -⟩ := hd; rfl
  have hone (i : Ingress) (hi : i ∈ allIngresses L) (henvoy : isEnvoyIngress i)
      (ha : Affects L L' i d) :
      (∃ c', handle L' c d.event = .ok c' ∧ keyFunc i.toObjectMeta ∈ c'.queue) ↔
        Returns L' d ∧ (keyFunc i.toObjectMeta ∈ c.queue ∨ Fires L' d) := by
    by_cases hsecret : ∃ ch, d = .secret ch
    · obtain ⟨ch, rfl⟩ := hsecret
      obtain ⟨-, secrets, front, back, -, hch⟩ := hd
      rw [mem_queue_of_secret (hsame ▸ hi) henvoy hch.key_cur ha.1 ha.2.1]
      exact ⟨fun h => ⟨fun s hs => absurd hs List.not_mem_nil, h⟩, And.right⟩
    · have hd' : ∀ ch, d ≠ .secret ch := fun ch h => hsecret ⟨ch, h⟩
      have hfires : Fires L' d ↔ ∃ s ∈ asked L' d, HasSelector s := by
        cases d with
        | secret ch => exact absurd rfl (hd' ch)
        | service ch front back | endpoint ch => rfl
      rw [handle_service hd', mem_queue_loop, hfires]
      refine and_congr_right fun hreturns => or_congr_right ?_
      constructor
      · rintro ⟨s, hs, hsel, -⟩
        exact ⟨s, hs, hsel⟩
      · rintro ⟨s, hs, hsel⟩
        obtain ⟨b, hb⟩ := hreturns s hs hsel i (hsame ▸ hi) henvoy
        rw [isServiceMatchIngress_ok hb, refersTo_asked hd ha s hs] at hb
        exact ⟨s, hs, hsel, i, hsame ▸ hi, henvoy, hb, rfl⟩
  constructor
  · intro h i hi henvoy hg ha
    exact (hone i hi henvoy ha).mp (h i hi henvoy ((outputDiffers_iff hg hd).mpr ha))
  · intro h i hi henvoy hdiff
    have hg := groups_of_outputDiffers hdiff
    have ha := (outputDiffers_iff hg hd).mp hdiff
    exact (hone i hi henvoy ha).mpr (h i hi henvoy hg ha)

namespace Sample

/-- The service `svc` with another port. -/
def svcMoved : Service :=
  { svc ∅ with ports := [⟨[], .TCP, 81⟩], resourceVersion := str "2" }

/-- The listers with the ingress `web` of the group `edge` and at most one service. -/
def webOver (service : Option Service) : Listers where
  ingresses := ⟨[web (str "edge") []], by simp⟩
  services := ⟨service.toList, by cases service <;> simp⟩

theorem web_followed (groups : GoString) (tls : List IngressTLS) : Followed (web groups tls) := by
  intro rule hr
  obtain rfl := List.mem_singleton.mp hr
  refine ⟨_, rfl, fun path hp => ?_⟩
  obtain rfl := List.mem_singleton.mp hp
  exact ⟨_, rfl⟩

theorem mem_webOver {service : Option Service} {i : Ingress} :
    i ∈ allIngresses (webOver service) ↔ i = web (str "edge") [] := by
  simp [allIngresses, mergeIngresses, webOver]

end Sample

open Sample

/-- The ingress `web` and the service `svc` find each other. -/
theorem matching_symmetric_web :
    HasSelector (svc ∅) ∧ ∃ is, getIngressesForService (webOver (some (svc ∅))) (svc ∅) = .ok is ∧
      web (str "edge") [] ∈ is := by
  have hsel : HasSelector (svc ∅) := by
    unfold HasSelector
    decide
  refine ⟨hsel, (matching_symmetric ?_ (mem_webOver.mpr rfl) (by decide +kernel)
    (List.mem_singleton_self _) hsel).mpr ⟨_, rfl, List.mem_singleton_self _⟩⟩
  intro j hj
  rw [mem_webOver.mp hj]
  exact web_followed _ _

/-- A service that appears, with a selector, queues the ingress that refers to it. -/
theorem trigger_complete_add : TriggerComplete digest (webOver none)
    (webOver (some (svc ∅))) (.service (.add (svc ∅)) [] []) {} := by
  have hd : Delivered (webOver none) (webOver (some (svc ∅)))
      (.service (.add (svc ∅)) [] []) := ⟨nofun, _, rfl, rfl, rfl, nofun⟩
  refine (trigger_complete_iff hd {}).mpr ?_
  intro i hi henvoy hg ha
  refine ⟨?_, .inr ⟨svc ∅, List.mem_singleton_self _, by unfold HasSelector; decide⟩⟩
  intro s hs hsel j hj _
  rw [mem_webOver.mp hj]
  exact ⟨_, (web_followed _ _).isServiceMatchIngress_eq s⟩

/-- The port of a service changes and its selector does not: the clusters of the ingress change
and nothing is queued. -/
theorem port_change_not_queued :
    Delivered (webOver (some (svc ∅))) (webOver (some svcMoved))
      (.service (.update (svc ∅) svcMoved) [] []) ∧
    ¬ TriggerComplete digest (webOver (some (svc ∅)))
      (webOver (some svcMoved))
      (.service (.update (svc ∅) svcMoved) [] []) {} := by
  have hversion : svcMoved.resourceVersion ≠ (svc ∅).resourceVersion := by decide
  have hd : Delivered (webOver (some (svc ∅))) (webOver (some svcMoved))
      (.service (.update (svc ∅) svcMoved) [] []) := by
    refine ⟨?_, _, rfl, rfl, rfl, ?_⟩
    · rintro old cur h hv
      cases h
      exact absurd hv hversion
    · rintro old cur h
      cases h
      rfl
  have hf := web_followed (str "edge") []
  have hdiff := (outputDiffers_iff (H := digest)
    (by decide +kernel) hd).mpr
    ⟨by decide +kernel, .inr ⟨hf.clustersReturn, hf.clustersReturn,
      fun heq => hversion (congrArg (·.resourceVersion) heq.symm), .inl (by decide)⟩⟩
  refine ⟨hd, fun h => ?_⟩
  obtain ⟨c', hc', hk⟩ := h _ (mem_webOver.mpr rfl) (by decide +kernel) hdiff
  change updateService _ _ _ _ = .ok c' at hc'
  unfold updateService at hc'
  cases hc'
  exact absurd hk (by decide +kernel)

end KubeEdge.Envoy
