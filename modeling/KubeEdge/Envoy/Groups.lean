import KubeEdge.Go.Machine
import KubeEdge.Envoy.Agreement

namespace KubeEdge.Envoy
open Go Go.Machine

variable {H : Digest} {L : Listers} {c c' c₁ : Controller} {last : GoString → List GoString}
  {gen : List Resource} {ingress : Ingress} {key : GoString}

/-- The controller, and the groups in the annotation each key had when it was last
synced, which the controller does not keep. -/
structure Tracked where
  c : Controller
  last : GoString → List GoString

/-- What a sync of `key` adds to the record. -/
def noteSync (L : Listers) (key : GoString) (last : GoString → List GoString) :
    GoString → List GoString :=
  match ingressOf L key with
  | some ingress =>
    if isEnvoyIngress ingress then Function.update last key (nodeGroupsOf ingress) else last
  | none => last

def note (last : GoString → List GoString) : Call → GoString → List GoString
  | .syncEnvoyIngress L key => noteSync L key last
  | _ => last

def trackedStep (H : Digest) (t : Tracked) (call : Call) : Option Tracked :=
  (step H t.c call).map fun c => ⟨c, note t.last call⟩

/-- If a resource is in use, its groups are those of the ingresses that use it. -/
def Resource.GroupsMatch (R : Resource) (last : GoString → List GoString) : Prop :=
  ¬ GoSet.isEmpty R.ingressRef → ∀ g, g ∈ R.nodeGroup ↔ ∃ k ∈ R.ingressRef, g ∈ last k

def GroupsAgree (t : Tracked) : Prop := ∀ r R, t.c.entry r = some R → R.GroupsMatch t.last

/-- The groups of `R` are `groups` and those of the ingresses other than `key`. -/
def Covers (last : GoString → List GoString) (key : GoString) (R : Resource)
    (groups : List GoString) : Prop :=
  ∀ g, g ∈ R.nodeGroup ↔ g ∈ groups ∨ ∃ k ∈ R.ingressRef, k ≠ key ∧ g ∈ last k

/-- What a sync has to find: a stored resource that its ingress uses has the groups of the
annotation and of its other users, and one that it gives up has those of the others. -/
def GroupsKept (H : Digest) (t : Tracked) : Call → Prop
  | .syncEnvoyIngress L key =>
    (Gone L key → ∀ r ∈ t.c.names key, ∀ R, t.c.entry r = some R →
      (∃ k ∈ R.ingressRef, k ≠ key) → Covers t.last key R []) ∧
    ∀ ingress gen, Syncs H L key ingress gen → ∀ r R, t.c.entry r = some R →
      ((∃ x ∈ gen, x.key = r) ∨ (r ∉ t.c.names key ∧ key ∈ R.ingressRef) →
        Covers t.last key R (nodeGroupsOf ingress)) ∧
      ((∀ x ∈ gen, x.key ≠ r) → r ∈ t.c.names key → (∃ k ∈ R.ingressRef, k ≠ key) →
        Covers t.last key R [])
  | _ => True

theorem noteSync_of_syncs (h : Syncs H L key ingress gen) (last : GoString → List GoString) :
    noteSync L key last = Function.update last key (nodeGroupsOf ingress) := by
  unfold noteSync
  rw [h.find]
  exact if_pos h.envoy

theorem noteSync_of_not_envoy
    (h : ∀ ingress, ingressOf L key = some ingress → ¬ isEnvoyIngress ingress)
    (last : GoString → List GoString) : noteSync L key last = last := by
  unfold noteSync
  cases hof : ingressOf L key with
  | none => rfl
  | some ingress => exact if_neg (h ingress hof)

section

variable {groups : List GoString} {R R' : Resource}

theorem groupsMatch_release : (R.release key).GroupsMatch last ↔
    ((∃ k ∈ R.ingressRef, k ≠ key) → Covers last key R []) := by
  unfold Resource.GroupsMatch Covers Resource.release
  simp only [GoSet.not_isEmpty_iff, GoSet.mem_erase, List.not_mem_nil, false_or]
  refine imp_congr (exists_congr fun k => and_comm) ?_
  refine forall_congr' fun g => iff_congr Iff.rfl ?_
  exact exists_congr fun k => by tauto

theorem groupsMatch_update (hgroup : R'.nodeGroup = R.nodeGroup)
    (href : ∀ k, k ∈ R'.ingressRef ↔ k = key ∨ k ∈ R.ingressRef) :
    R'.GroupsMatch (Function.update last key groups) ↔ Covers last key R groups := by
  have hne : ¬ GoSet.isEmpty R'.ingressRef :=
    GoSet.not_isEmpty_iff.mpr ⟨key, (href key).mpr (.inl rfl)⟩
  unfold Resource.GroupsMatch Covers
  rw [hgroup, forall_prop_of_true hne]
  refine forall_congr' fun g => iff_congr Iff.rfl ?_
  constructor
  · rintro ⟨k, hk, hg⟩
    by_cases hkey : k = key
    · subst hkey
      exact .inl (by simpa using hg)
    · exact .inr ⟨k, ((href k).mp hk).resolve_left hkey, hkey, by simpa [hkey] using hg⟩
  · rintro (hg | ⟨k, hk, hkey, hg⟩)
    · exact ⟨key, (href key).mpr (.inl rfl), by simpa using hg⟩
    · exact ⟨k, (href k).mpr (.inr hk), by simpa [hkey] using hg⟩

theorem groupsMatch_congr (h : key ∉ R.ingressRef) :
    R.GroupsMatch (Function.update last key groups) ↔ R.GroupsMatch last := by
  refine imp_congr Iff.rfl (forall_congr' fun g => iff_congr Iff.rfl ?_)
  refine exists_congr fun k => and_congr_right fun hk => ?_
  have hkey : k ≠ key := fun he => h (he ▸ hk)
  simp [hkey]

end

section

variable (hc : GroupsAgree ⟨c, last⟩)
include hc

theorem groupsAgree_found
    (hdrop : Dropped (keyFunc ingress.toObjectMeta) (gen.map (·.key))
      (c.names (keyFunc ingress.toObjectMeta)).keys c c₁)
    (hup : Upserted ingress gen c₁ c') :
    GroupsAgree ⟨c', Function.update last (keyFunc ingress.toObjectMeta) (nodeGroupsOf ingress)⟩ ↔
      ∀ r R, c.entry r = some R →
        ((∃ x ∈ gen, x.key = r) ∨ (r ∉ c.names (keyFunc ingress.toObjectMeta) ∧
          keyFunc ingress.toObjectMeta ∈ R.ingressRef) →
          Covers last (keyFunc ingress.toObjectMeta) R (nodeGroupsOf ingress)) ∧
        ((∀ x ∈ gen, x.key ≠ r) → r ∈ c.names (keyFunc ingress.toObjectMeta) →
          (∃ k ∈ R.ingressRef, k ≠ keyFunc ingress.toObjectMeta) →
          Covers last (keyFunc ingress.toObjectMeta) R []) := by
  set key := keyFunc ingress.toObjectMeta with hkey
  refine forall_congr' fun r => ?_
  have hdropped := hdrop.entry_gen r
  by_cases hr : ∃ x ∈ gen, x.key = r
  · have hnot : ¬ ∀ x ∈ gen, x.key ≠ r := by simpa using hr
    obtain ⟨x, hx, rfl⟩ := hr
    rw [if_neg (fun hm => hm.2 ⟨x, hx, rfl⟩)] at hdropped
    obtain ⟨R', hR', -, -, -, hgroup, href⟩ := hup.entry x hx
    rw [hdropped] at hgroup
    simp only [hR', Option.some.injEq, forall_eq', hnot, false_imp_iff, and_true,
      show (∃ y ∈ gen, y.key = x.key) from ⟨x, hx, rfl⟩, true_or, true_imp_iff]
    cases hentry : c.entry x.key with
    | none =>
      rw [hentry] at hgroup hdropped
      simp only [reduceCtorEq, false_imp_iff, implies_true, iff_true]
      intro _ g
      rw [hgroup]
      simp [href, ← hkey, Controller.Refers, hdropped]
    | some R =>
      rw [hentry] at hgroup hdropped
      simp only [Option.some.injEq, forall_eq']
      refine groupsMatch_update hgroup fun k => ?_
      rw [href, ← hkey]
      simp [Controller.Refers, hdropped]
  · have hnot : ∀ x ∈ gen, x.key ≠ r := fun x hx he => hr ⟨x, hx, he⟩
    rw [hup.other r hnot]
    cases hentry : c.entry r with
    | none =>
      rw [hentry, Option.map_none, ite_self] at hdropped
      simp [hdropped]
    | some R =>
      by_cases hn : r ∈ c.names key
      · rw [if_pos ⟨hn, hr⟩, hentry] at hdropped
        have hgone : key ∉ (R.release key).ingressRef := fun hm => (GoSet.mem_erase.mp hm).1 rfl
        simp only [hdropped, Option.map_some, Option.some.injEq, forall_eq', hr, hn, not_true,
          false_and, or_self, false_imp_iff, true_and, true_imp_iff]
        rw [groupsMatch_congr hgone, groupsMatch_release]
        exact (imp_iff_right hnot).symm
      · rw [if_neg (fun hm => hn hm.1), hentry] at hdropped
        simp only [hdropped, Option.some.injEq, forall_eq', hr, hn, not_false_iff, true_and,
          false_or, false_imp_iff, implies_true, and_true]
        by_cases href : key ∈ R.ingressRef
        · rw [imp_iff_right href]
          refine groupsMatch_update rfl fun k => ?_
          exact (or_iff_right_of_imp fun he => he ▸ href).symm
        · rw [groupsMatch_congr href]
          exact iff_of_true (hc r R hentry) fun hm => absurd hm href

theorem groupsAgree_deleted (h : Deleted key c c') :
    GroupsAgree ⟨c', last⟩ ↔ ∀ r ∈ c.names key, ∀ R, c.entry r = some R →
      (∃ k ∈ R.ingressRef, k ≠ key) → Covers last key R [] := by
  refine forall_congr' fun r => ?_
  have hentry := h.entry r
  by_cases hn : r ∈ c.names key
  · rw [if_pos hn] at hentry
    rw [imp_iff_right hn, hentry]
    cases c.entry r with
    | none => simp
    | some R =>
      simp only [Option.map_some, Option.some.injEq, forall_eq']
      exact groupsMatch_release
  · rw [if_neg hn] at hentry
    rw [hentry]
    exact iff_of_true (hc r) fun hm => absurd hm hn

theorem groupsAgree_resource {r : GoString} {ds : List Dispatch} (h : ResourceSynced r c c' ds) :
    GroupsAgree ⟨c', last⟩ :=
  fun r' R' hR' => hc r' R' (h.entry hR')

end

theorem groupsAgree_step {t t' : Tracked} (call : Call) (ht : GroupsAgree t)
    (h : trackedStep H t call = some t') : GroupsAgree t' ↔ GroupsKept H t call := by
  obtain ⟨c', hcall, rfl⟩ := Option.map_eq_some_iff.mp h
  obtain ⟨c, last⟩ := t
  cases call with
  | syncEnvoyIngress L key =>
    change GroupsAgree ⟨c', noteSync L key last⟩ ↔ _
    cases step_syncEnvoyIngress hcall with
    | skipped hother hthere h =>
      rw [h, noteSync_of_not_envoy hother]
      refine iff_of_true ht ⟨fun hgone => absurd hgone hthere, ?_⟩
      exact fun ingress gen hsync => absurd hsync.envoy (hother ingress hsync.find)
    | deleted hgone h =>
      rw [noteSync_of_not_envoy fun ingress hof => by simp [hgone.2] at hof,
        groupsAgree_deleted ht h]
      constructor
      · exact fun hkept => ⟨fun _ => hkept, fun ingress gen hsync =>
          absurd hsync (hgone.not_syncs ingress gen)⟩
      · exact fun hkept => hkept.1 hgone
    | found ingress gen c₁ hsync hdrop hup hqueued =>
      obtain rfl := hsync.key_eq
      rw [noteSync_of_syncs hsync, groupsAgree_found ht hdrop hup]
      constructor
      · intro hkept
        refine ⟨fun hgone => absurd hsync (hgone.not_syncs ingress gen), ?_⟩
        intro ingress' gen' hsync'
        obtain ⟨rfl, rfl⟩ := hsync.unique hsync'
        exact hkept
      · exact fun hkept => hkept.2 ingress gen hsync
  | syncEnvoyResource r =>
    obtain ⟨ds, h⟩ := step_syncEnvoyResource hcall
    exact iff_of_true (groupsAgree_resource ht h) trivial
  | nodesChange lc =>
    cases hcall
    exact iff_of_true ht trivial

/-- The groups each key had when the startup came to it last. -/
def startupLast (ingresses : List Ingress) : GoString → List GoString :=
  ingresses.foldl
    (fun last i => Function.update last (keyFunc i.toObjectMeta) (nodeGroupsOf i)) fun _ => []

/-- The ingresses a resource is generated for, in the order of the startup. -/
def users (H : Digest) (L : Listers) (ingresses : List Ingress) (r : GoString) : List Ingress :=
  ingresses.filter fun i => r ∈ generatedKeys H L i

/-- The first ingress that generates a resource has the groups of all of them. -/
def StartupGroups (H : Digest) (L : Listers) : Prop :=
  ∀ r i, (users H L (startupIngresses L) r).head? = some i → ∀ g,
    g ∈ nodeGroupsOf i ↔ ∃ j ∈ users H L (startupIngresses L) r,
      g ∈ startupLast (startupIngresses L) (keyFunc j.toObjectMeta)

/-- The groups in the store after the startup has gone through the ingresses `done`. -/
def Grouped (H : Digest) (L : Listers) (done : List Ingress) (c : Controller) : Prop :=
  ∀ r R, c.entry r = some R → ∃ i, (users H L done r).head? = some i ∧
    R.nodeGroup = GoSet.ofList (nodeGroupsOf i)

theorem Grouped.concat {done : List Ingress}
    (hstored : ∀ r, c.entry r = none ↔ ∀ i ∈ done, r ∉ generatedKeys H L i)
    (hg : Grouped H L done c) (hgen : envoyResourcesForIngress H L ingress = .ok gen)
    (hentry : ∀ r, c₁.entry r = c.entry r) (hup : Upserted ingress gen c₁ c') :
    Grouped H L (done ++ [ingress]) c' := by
  have hold (r : GoString) (i : Ingress) (h : (users H L done r).head? = some i) :
      (users H L (done ++ [ingress]) r).head? = some i := by
    unfold users at h ⊢
    rw [List.filter_append, List.head?_append, h, Option.some_or]
  intro r R' hR'
  by_cases hr : ∃ x ∈ gen, x.key = r
  · obtain ⟨x, hx, rfl⟩ := hr
    obtain ⟨R₁, hR₁, -, -, -, hgroup, -⟩ := hup.entry x hx
    obtain rfl := Option.some.inj (hR'.symm.trans hR₁)
    rw [hentry] at hgroup
    cases hold' : c.entry x.key with
    | none =>
      have hnone : users H L done x.key = [] := by
        unfold users
        rw [List.filter_eq_nil_iff]
        intro i hi
        simpa using (hstored x.key).mp hold' i hi
      refine ⟨ingress, ?_, by simpa [hold'] using hgroup⟩
      unfold users at hnone ⊢
      rw [List.filter_append, hnone]
      simp [(mem_generatedKeys hgen).mpr ⟨x, hx, rfl⟩]
    | some R =>
      obtain ⟨i, hi, hRi⟩ := hg x.key R hold'
      exact ⟨i, hold _ i hi, by rw [hgroup, hold']; exact hRi⟩
  · rw [hup.other r fun x hx he => hr ⟨x, hx, he⟩, hentry] at hR'
    obtain ⟨i, hi, hRi⟩ := hg r R' hR'
    exact ⟨i, hold r i hi, hRi⟩

theorem initiateEnvoyResources_grouped {c₀ : Controller} (hfresh : c₀.Fresh)
    (h : initiateEnvoyResources H L c₀ = .ok c) :
    Started H L (startupIngresses L) c ∧ Grouped H L (startupIngresses L) c := by
  have hfirst : Grouped H L [] c₀ := by
    intro r R hR
    rw [hfresh.entry r] at hR
    cases hR
  refine loopM_invariant (I := fun done c => Started H L (done.filter isEnvoyIngress) c ∧
    Grouped H L (done.filter isEnvoyIngress) c) ?_ ⟨hfresh.started, hfirst⟩ h
  rintro done ingress s s' ⟨hs, hg⟩ h
  rcases initiateIngress_ok h with ⟨hno, rfl⟩ | ⟨henvoy, gen, c₁, hgen, hentry, hnames, -, -, hup⟩
  · simpa [hno] using ⟨hs, hg⟩
  · simpa [henvoy] using ⟨hs.concat hgen hentry hnames hup, hg.concat hs.stored hgen hentry hup⟩

theorem groupsAgree_started (hs : Started H L (startupIngresses L) c)
    (hg : Grouped H L (startupIngresses L) c) :
    GroupsAgree ⟨c, startupLast (startupIngresses L)⟩ ↔ StartupGroups H L := by
  have hmem (r : GoString) (i : Ingress) : i ∈ users H L (startupIngresses L) r ↔
      i ∈ startupIngresses L ∧ r ∈ generatedKeys H L i := by simp [users]
  have hunion {r : GoString} {R : Resource} (hR : c.entry r = some R) (g : GoString) :
      (∃ k ∈ R.ingressRef, g ∈ startupLast (startupIngresses L) k) ↔
      ∃ j ∈ users H L (startupIngresses L) r,
        g ∈ startupLast (startupIngresses L) (keyFunc j.toObjectMeta) := by
    have href (k : GoString) : k ∈ R.ingressRef ↔ c.Refers k r := by simp [Controller.Refers, hR]
    simp only [href, hs.refers, hmem]
    constructor
    · rintro ⟨_, ⟨j, hj, rfl, hr⟩, hg⟩
      exact ⟨j, ⟨hj, hr⟩, hg⟩
    · rintro ⟨j, ⟨hj, hr⟩, hg⟩
      exact ⟨_, ⟨j, hj, rfl, hr⟩, hg⟩
  constructor
  · intro h r i hi g
    have hiu := List.mem_of_mem_head? hi
    obtain ⟨hi', hr⟩ := (hmem r i).mp hiu
    obtain ⟨R, hR, href⟩ := (hs.refers _ r).mpr ⟨i, hi', rfl, hr⟩
    obtain ⟨i', hi'', hgroup⟩ := hg r R hR
    obtain rfl := Option.some.inj (hi.symm.trans hi'')
    rw [← hunion hR, ← h r R hR (GoSet.not_isEmpty_iff.mpr ⟨_, href⟩), hgroup, GoSet.mem_ofList]
  · intro h r R hR _ g
    obtain ⟨i, hi, hgroup⟩ := hg r R hR
    rw [hgroup, GoSet.mem_ofList, h r i hi, hunion hR]

/-- The groups of the resources in use are right in every state of a run exactly when
they are so after the startup and every sync finds the groups it wants. -/
theorem node_groups_agree_iff (H : Digest) {L : Listers} {c₀ c₁ : Controller}
    (hfresh : c₀.Fresh) (hinit : initiateEnvoyResources H L c₀ = .ok c₁) (calls : List Call) :
    Always (trackedStep H) GroupsAgree ⟨c₁, startupLast (startupIngresses L)⟩ calls ↔
      StartupGroups H L ∧
        Along (trackedStep H) (GroupsKept H) ⟨c₁, startupLast (startupIngresses L)⟩ calls := by
  obtain ⟨hs, hg⟩ := initiateEnvoyResources_grouped hfresh hinit
  have hstart := groupsAgree_started hs hg
  constructor
  · intro h
    exact ⟨hstart.mp h.head, (always_iff_along (fun s a s' => groupsAgree_step a) h.head).mp h⟩
  · rintro ⟨hgroups, halong⟩
    exact (always_iff_along (fun s a s' => groupsAgree_step a) (hstart.mpr hgroups)).mpr halong

open Sample

theorem node_groups_agree_shared :
    initiateEnvoyResources digest {} {} = .ok {} ∧
    (run (trackedStep digest) ⟨{}, startupLast (startupIngresses {})⟩
      [.syncEnvoyIngress (webAndShop (str "edge") (str "edge")) (str "default/web"),
       .syncEnvoyIngress (webAndShop (str "edge") (str "edge")) (str "default/shop")]).map
      (fun t => (t.c.entry (str "default/default_svc_80_da39a3ee5e")).map (·.ingressRef.keys)) =
        some (some [str "default/shop", str "default/web"]) ∧
    Always (trackedStep digest) GroupsAgree ⟨{}, startupLast (startupIngresses {})⟩
      [.syncEnvoyIngress (webAndShop (str "edge") (str "edge")) (str "default/web"),
       .syncEnvoyIngress (webAndShop (str "edge") (str "edge")) (str "default/shop")] := by
  have hfresh : Controller.Fresh {} := Controller.fresh_empty {}
  have hinit : initiateEnvoyResources digest {} {} = .ok {} := rfl
  refine ⟨hinit, by decide +kernel, (node_groups_agree_iff _ hfresh hinit _).mpr ⟨?_, ?_⟩⟩
  · intro r i hi
    cases hi
  · intro t ht
    refine ⟨⟨?_, ?_⟩, fun t' _ => ⟨⟨?_, ?_⟩, trivial⟩⟩
    · intro _ r _ R hR
      cases hR
    · intro ingress gen _ r R hR
      cases hR
    · intro hgone
      cases hgone.2
    -- what `web` has left has its group, and nothing is recorded for `shop`
    · have hread : (trackedStep digest ⟨{}, startupLast (startupIngresses {})⟩
          (.syncEnvoyIngress (webAndShop (str "edge") (str "edge")) (str "default/web"))).map
          (fun t => t.c.resourceStore.objects.all (fun R =>
              decide (R.nodeGroup.keys = [str "edge"] ∧ R.ingressRef.keys = [str "default/web"])) &&
            decide (t.last (str "default/web") = [str "edge"]) &&
            GoSet.isEmpty (t.c.names (str "default/shop"))) = some true := by
        decide +kernel
      rw [ht, Option.map_some, Option.some.injEq] at hread
      simp only [Bool.and_eq_true, List.all_eq_true, decide_eq_true_eq, GoSet.isEmpty_iff] at hread
      obtain ⟨⟨hstored, hlast⟩, hnames⟩ := hread
      intro ingress gen hsync r R hR
      cases hsync.find
      obtain ⟨hgroup, href⟩ := hstored R (Indexer.get_eq_some.mp hR).1
      refine ⟨fun _ g => ?_, fun _ hr => absurd hr (hnames r)⟩
      have hshop : nodeGroupsOf (shop (str "edge")) = [str "edge"] := by decide +kernel
      rw [AList.mem_keys, hgroup, hshop, or_iff_left_of_imp]
      rintro ⟨k, hk, -, hg⟩
      rw [AList.mem_keys, href, List.mem_singleton] at hk
      rwa [hk, hlast] at hg

/-- Two ingresses for different groups over one service: the cluster stays with the
groups of the first. -/
theorem shared_cluster_keeps_first_groups :
    initiateEnvoyResources digest {} {} = .ok {} ∧
    ¬ Always (trackedStep digest) GroupsAgree ⟨{}, startupLast (startupIngresses {})⟩
      [.syncEnvoyIngress (webAndShop (str "edge") (str "core")) (str "default/web"),
       .syncEnvoyIngress (webAndShop (str "edge") (str "core")) (str "default/shop")] := by
  have hrun : (run (trackedStep digest) ⟨{}, startupLast (startupIngresses {})⟩
      [.syncEnvoyIngress (webAndShop (str "edge") (str "core")) (str "default/web"),
       .syncEnvoyIngress (webAndShop (str "edge") (str "core")) (str "default/shop")]).map
      (fun t => (decide (str "core" ∈ t.last (str "default/shop")),
        (t.c.entry (str "default/default_svc_80_da39a3ee5e")).map fun R =>
          (decide (str "default/shop" ∈ R.ingressRef), decide (str "core" ∈ R.nodeGroup)))) =
      some (true, some (true, false)) := by
    decide +kernel
  obtain ⟨t, ht, hread⟩ := Option.map_eq_some_iff.mp hrun
  refine ⟨rfl, ?_⟩
  intro h
  obtain ⟨hlast, hentry⟩ := Prod.mk.inj hread
  obtain ⟨R, hR, hread⟩ := Option.map_eq_some_iff.mp hentry
  obtain ⟨href, hgroup⟩ := Prod.mk.inj hread
  have hshop := of_decide_eq_true href
  have hagree := h.last ht _ R hR (GoSet.not_isEmpty_iff.mpr ⟨_, hshop⟩) (str "core")
  exact absurd (hagree.mpr ⟨_, hshop, of_decide_eq_true hlast⟩) (of_decide_eq_false hgroup)

end KubeEdge.Envoy
