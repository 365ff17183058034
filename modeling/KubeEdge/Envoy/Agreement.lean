import KubeEdge.Go.Machine
import KubeEdge.Envoy.Loops

namespace KubeEdge.Envoy
open Go Go.Machine

variable {H : Digest} {L : Listers} {c c' c₁ : Controller} {ingress : Ingress} {gen : List Resource}
  {k r key : GoString} {done : List Ingress}

/-- A name is recorded for an ingress exactly when the stored resource refers to it. -/
def Agreement (c : Controller) : Prop := ∀ k r, r ∈ c.names k ↔ c.Refers k r

/-- What a sync has to find: its ingress already refers to those of the generated
resources that are stored, and nothing else refers to those that it gives up. -/
def ReferencesKept (H : Digest) (c : Controller) : Call → Prop
  | .syncEnvoyIngress L key =>
    ∀ ingress gen, Syncs H L key ingress gen →
      (∀ x ∈ gen, ∀ R, c.entry x.key = some R → key ∈ R.ingressRef) ∧
      ∀ r ∈ c.names key, (∀ x ∈ gen, x.key ≠ r) → Orphaned key c r
  | _ => True

theorem Controller.Refers.congr (h : c'.entry r = c.entry r) : c'.Refers k r ↔ c.Refers k r := by
  unfold Controller.Refers
  rw [h]

theorem refers_released (h : c'.entry r = (c.entry r).map (·.release key)) :
    c'.Refers k r ↔ k ≠ key ∧ c.Refers k r := by
  unfold Controller.Refers
  rw [h]
  cases c.entry r <;> simp [Resource.release]

/-- An insertion loop makes its ingress refer to what it inserts and changes no other
reference. -/
theorem Upserted.refers {xs : List Resource} (h : Upserted ingress xs c c') (k r : GoString) :
    c'.Refers k r ↔
      c.Refers k r ∨ (k = keyFunc ingress.toObjectMeta ∧ ∃ x ∈ xs, x.key = r) := by
  by_cases hr : ∃ x ∈ xs, x.key = r
  · obtain ⟨x, hx, rfl⟩ := hr
    obtain ⟨R, hR, -, -, -, -, href⟩ := h.entry x hx
    have hrefers : c'.Refers k x.key ↔ k ∈ R.ingressRef := by simp [Controller.Refers, hR]
    rw [hrefers, href, or_comm, and_iff_left ⟨x, hx, rfl⟩]
  · rw [Controller.Refers.congr (h.other r fun x hx he => hr ⟨x, hx, he⟩)]
    simp [hr]

theorem Deleted.agreement (hc : Agreement c) (h : Deleted key c c') : Agreement c' := by
  intro k r
  have hentry := h.entry r
  by_cases hr : r ∈ c.names key
  · rw [if_pos hr] at hentry
    rw [refers_released hentry]
    by_cases hk : k = key
    · subst hk
      simp [h.names_key r]
    · rw [h.names k hk, hc k r]
      simp [hk]
  · rw [if_neg hr] at hentry
    rw [Controller.Refers.congr hentry]
    by_cases hk : k = key
    · subst hk
      exact iff_of_false (h.names_key r) (fun href => hr ((hc k r).mpr href))
    · rw [h.names k hk, hc k r]

section

variable
  (hdrop : Dropped (keyFunc ingress.toObjectMeta) (gen.map (·.key))
    (c.names (keyFunc ingress.toObjectMeta)).keys c c₁)
  (hup : Upserted ingress gen c₁ c')
include hdrop hup

/-- The names of the ingress: generated ones that are new or were there, and stale ones that
another ingress keeps. -/
theorem mem_names_found (r : GoString) :
    r ∈ c'.names (keyFunc ingress.toObjectMeta) ↔
      (r ∈ c.names (keyFunc ingress.toObjectMeta) ∧
        ((∃ x ∈ gen, x.key = r) ∨ ¬ Orphaned (keyFunc ingress.toObjectMeta) c r)) ∨
      ((∃ x ∈ gen, x.key = r) ∧ c.entry r = none) := by
  rw [hup.mem_names, hdrop.mem_names]
  simp only [← AList.mem_keys, List.mem_map]
  by_cases hr : ∃ x ∈ gen, x.key = r
  · rw [hdrop.entry_gen r, if_neg (fun hm => hm.2 hr)]
    simp [hr, false_and, and_false, true_or]
  · simp only [hr, not_false_iff, true_and, false_and, false_or, or_false]
    tauto

variable (hc : Agreement c)
include hc

theorem refers_self_found (r : GoString) :
    c'.Refers (keyFunc ingress.toObjectMeta) r ↔ ∃ x ∈ gen, x.key = r := by
  rw [hup.refers]
  simp only [true_and]
  refine or_iff_right_of_imp ?_
  intro href
  by_contra hr
  have hentry := hdrop.entry_gen r
  by_cases hn : r ∈ c.names (keyFunc ingress.toObjectMeta)
  · rw [if_pos ⟨hn, hr⟩] at hentry
    exact ((refers_released hentry).mp href).1 rfl
  · rw [if_neg (fun hm => hn hm.1)] at hentry
    exact hn ((hc _ r).mpr ((Controller.Refers.congr hentry).mp href))

theorem refers_other_found (hk : k ≠ keyFunc ingress.toObjectMeta) (r : GoString) :
    r ∈ c'.names k ↔ c'.Refers k r := by
  rw [hup.names k hk, hdrop.names k hk, hc k r, hup.refers]
  simp only [hk, false_and, or_false]
  have hentry := hdrop.entry_gen r
  split_ifs at hentry
  · rw [refers_released hentry, and_iff_right hk]
  · rw [Controller.Refers.congr hentry]

theorem agreement_found : Agreement c' ↔
      (∀ x ∈ gen, ∀ R, c.entry x.key = some R → keyFunc ingress.toObjectMeta ∈ R.ingressRef) ∧
      ∀ r ∈ c.names (keyFunc ingress.toObjectMeta), (∀ x ∈ gen, x.key ≠ r) →
        Orphaned (keyFunc ingress.toObjectMeta) c r := by
  have hself := refers_self_found hdrop hup hc
  have hnames := mem_names_found hdrop hup
  set key := keyFunc ingress.toObjectMeta with hkey
  constructor
  · intro h
    constructor
    · intro x hx R hR
      have hmem := (h key x.key).mpr ((hself x.key).mpr ⟨x, hx, rfl⟩)
      rcases (hnames x.key).mp hmem with ⟨hn, -⟩ | ⟨-, hnone⟩
      · obtain ⟨R', hR', href⟩ := (hc key x.key).mp hn
        rw [hR] at hR'
        cases hR'
        exact href
      · rw [hR] at hnone
        cases hnone
    · intro r hn hr
      by_contra horphan
      have hmem := (hnames r).mpr (.inl ⟨hn, .inr horphan⟩)
      obtain ⟨x, hx, he⟩ := (hself r).mp ((h key r).mp hmem)
      exact hr x hx he
  · rintro ⟨hgen, hstale⟩ k r
    by_cases hk : k = key
    · subst hk
      rw [hself, hnames]
      constructor
      · rintro (⟨hn, hr | hnot⟩ | ⟨hr, -⟩)
        · exact hr
        · by_contra hr
          exact hnot (hstale r hn fun x hx he => hr ⟨x, hx, he⟩)
        · exact hr
      · rintro ⟨x, hx, rfl⟩
        cases hentry : c.entry x.key with
        | none => exact .inr ⟨⟨x, hx, rfl⟩, rfl⟩
        | some R =>
          have hn := (hc key x.key).mpr ⟨R, hentry, hgen x hx R hentry⟩
          exact .inl ⟨hn, .inl ⟨x, hx, rfl⟩⟩
    · exact refers_other_found hdrop hup hc hk r

end

theorem agreement_step (call : Call) (hc : Agreement c) (h : step H c call = some c') :
    Agreement c' ↔ ReferencesKept H c call := by
  cases call with
  | syncEnvoyIngress L key =>
    cases step_syncEnvoyIngress h with
    | skipped hother hthere h =>
      rw [h]
      exact iff_of_true hc fun ingress gen hsync => absurd hsync.envoy (hother ingress hsync.find)
    | deleted hgone h =>
      exact iff_of_true (h.agreement hc) fun ingress gen hsync =>
        absurd hsync (hgone.not_syncs ingress gen)
    | found ingress gen c₁ hsync hdrop hup hqueued =>
      obtain rfl := hsync.key_eq
      rw [agreement_found hdrop hup hc]
      constructor
      · intro hkept ingress' gen' hsync'
        obtain ⟨rfl, rfl⟩ := hsync.unique hsync'
        exact hkept
      · exact fun hkept => hkept ingress gen hsync
  | syncEnvoyResource r =>
    refine iff_of_true ?_ trivial
    obtain ⟨ds, h⟩ := step_syncEnvoyResource h
    cases h with
    | missing lock hentry h hds | inserted R hentry href h hds =>
      rw [h]
      exact hc
    | deleted R hentry href h hds =>
      subst h
      intro k r'
      have hgone : ¬ c.Refers k r := by
        rintro ⟨R', hR', hk⟩
        rw [hentry] at hR'
        cases hR'
        exact GoSet.isEmpty_iff.mp href k hk
      by_cases hr : r' = r
      · subst hr
        refine iff_of_false (fun hn => hgone ((hc k r').mp hn)) ?_
        rintro ⟨R', hR', -⟩
        rw [entry_remove, if_pos rfl] at hR'
        cases hR'
      · refine (hc k r').trans (Controller.Refers.congr ?_).symm
        rw [entry_remove, if_neg hr]
  | nodesChange lc =>
    cases h
    exact iff_of_true hc trivial

def generatedKeys (H : Digest) (L : Listers) (ingress : Ingress) : List GoString :=
  match envoyResourcesForIngress H L ingress with
  | .ok gen => gen.map (·.key)
  | .error _ => []

theorem mem_generatedKeys (h : envoyResourcesForIngress H L ingress = .ok gen) :
    r ∈ generatedKeys H L ingress ↔ ∃ x ∈ gen, x.key = r := by
  simp [generatedKeys, h]

/-- The envoy ingresses the startup goes through, in its order. -/
def startupIngresses (L : Listers) : List Ingress :=
  (mergeIngresses L.ingresses.objects L.v1beta1Ingresses.objects).filter isEnvoyIngress

/-- No two ingresses generate one resource, and one that is listed again, in the other
version, had generated nothing. -/
def StartupSeparate (H : Digest) (L : Listers) : Prop :=
  (startupIngresses L).Pairwise fun i j =>
    (∀ r ∈ generatedKeys H L i, r ∉ generatedKeys H L j) ∧
    (keyFunc i.toObjectMeta = keyFunc j.toObjectMeta → generatedKeys H L i = [])

/-- The stores after the startup has gone through the ingresses `done`.  A name without
its reference does not occur, so a lost name is never made good. -/
structure Started (H : Digest) (L : Listers) (done : List Ingress) (c : Controller) : Prop where
  stored : ∀ r, c.entry r = none ↔ ∀ i ∈ done, r ∉ generatedKeys H L i
  refers : ∀ k r, c.Refers k r ↔ ∃ i ∈ done, keyFunc i.toObjectMeta = k ∧ r ∈ generatedKeys H L i
  refers_of_mem : ∀ k r, r ∈ c.names k → c.Refers k r
  agrees : Agreement c ↔ done.Pairwise fun i j =>
    (∀ r ∈ generatedKeys H L i, r ∉ generatedKeys H L j) ∧
    (keyFunc i.toObjectMeta = keyFunc j.toObjectMeta → generatedKeys H L i = [])

theorem Controller.Fresh.started (h : c.Fresh) : Started H L [] c where
  stored r := by simp [h.entry r]
  refers k r := by simp [Controller.Refers, h.entry r]
  refers_of_mem k r hr := absurd hr (h.names k r)
  agrees := by
    refine iff_of_true ?_ List.Pairwise.nil
    intro k r
    exact iff_of_false (h.names k r) (by simp [Controller.Refers, h.entry r])

/-- The names of an ingress agree with its references after its turn exactly when nothing
of it was stored before. -/
theorem agreement_initiated (hsub : ∀ k r, r ∈ c.names k → c.Refers k r)
    (hentry : ∀ r, c₁.entry r = c.entry r)
    (hnames : ∀ k, c₁.names k = if k = keyFunc ingress.toObjectMeta then ∅ else c.names k)
    (hup : Upserted ingress gen c₁ c') :
    Agreement c' ↔ Agreement c ∧ (∀ x ∈ gen, c.entry x.key = none) ∧
      ∀ r, ¬ c.Refers (keyFunc ingress.toObjectMeta) r := by
  set key := keyFunc ingress.toObjectMeta with hkey
  have hrefers (k r : GoString) : c'.Refers k r ↔
      c.Refers k r ∨ (k = key ∧ ∃ x ∈ gen, x.key = r) := by
    rw [hup.refers, Controller.Refers.congr (hentry r)]
  have hself (r : GoString) : r ∈ c'.names key ↔ (∃ x ∈ gen, x.key = r) ∧ c.entry r = none := by
    rw [hup.mem_names, ← hkey, hnames, if_pos rfl, hentry]
    exact or_iff_right (AList.notMem_empty r)
  have hother (k r : GoString) (hk : k ≠ key) :
      (r ∈ c'.names k ↔ c'.Refers k r) ↔ (r ∈ c.names k ↔ c.Refers k r) := by
    rw [hup.names k hk, hnames, if_neg hk, hrefers]
    simp [hk]
  constructor
  · intro h
    have hnone : ∀ r, c'.Refers key r → c.entry r = none := fun r hr =>
      ((hself r).mp ((h key r).mpr hr)).2
    have hno (r : GoString) : ¬ c.Refers key r := by
      intro hr
      have hn := hnone r ((hrefers key r).mpr (.inl hr))
      obtain ⟨R, hR, -⟩ := hr
      rw [hn] at hR
      cases hR
    refine ⟨?_, ?_, hno⟩
    · intro k r
      by_cases hk : k = key
      · subst hk
        exact iff_of_false (fun hr => hno r (hsub key r hr)) (hno r)
      · exact (hother k r hk).mp (h k r)
    · exact fun x hx => hnone x.key ((hrefers key x.key).mpr (.inr ⟨rfl, x, hx, rfl⟩))
  · rintro ⟨hc, hnone, hno⟩ k r
    by_cases hk : k = key
    · subst hk
      rw [hself, hrefers]
      simp only [hno r, true_and, false_or]
      refine and_iff_left_of_imp ?_
      rintro ⟨x, hx, rfl⟩
      exact hnone x hx
    · exact (hother k r hk).mpr (hc k r)

theorem stored_concat (hstored : ∀ r, c.entry r = none ↔ ∀ i ∈ done, r ∉ generatedKeys H L i)
    (hgen : envoyResourcesForIngress H L ingress = .ok gen) (hentry : ∀ r, c₁.entry r = c.entry r)
    (hup : Upserted ingress gen c₁ c') (r : GoString) :
    c'.entry r = none ↔ ∀ i ∈ done ++ [ingress], r ∉ generatedKeys H L i := by
  simp only [List.forall_mem_append, List.forall_mem_singleton, ← hstored, mem_generatedKeys hgen]
  by_cases hr : ∃ x ∈ gen, x.key = r
  · obtain ⟨x, hx, rfl⟩ := hr
    obtain ⟨R, hR, -⟩ := hup.entry x hx
    refine iff_of_false (by simp [hR]) ?_
    exact fun hn => hn.2 ⟨x, hx, rfl⟩
  · rw [hup.other r fun x hx he => hr ⟨x, hx, he⟩, hentry, and_iff_left hr]

theorem Started.concat (hs : Started H L done c)
    (hgen : envoyResourcesForIngress H L ingress = .ok gen) (hentry : ∀ r, c₁.entry r = c.entry r)
    (hnames : ∀ k, c₁.names k = if k = keyFunc ingress.toObjectMeta then ∅ else c.names k)
    (hup : Upserted ingress gen c₁ c') : Started H L (done ++ [ingress]) c' := by
  have hkeys (r : GoString) := mem_generatedKeys hgen (r := r)
  have hrefers (k r : GoString) : c'.Refers k r ↔
      c.Refers k r ∨ (k = keyFunc ingress.toObjectMeta ∧ ∃ x ∈ gen, x.key = r) := by
    rw [hup.refers, Controller.Refers.congr (hentry r)]
  refine ⟨stored_concat hs.stored hgen hentry hup, ?_, ?_, ?_⟩
  · intro k r
    rw [hrefers, hs.refers, ← hkeys]
    simp [List.mem_append, or_and_right, exists_or, eq_comm (a := k)]
  · intro k r hr
    rw [hrefers]
    by_cases hk : k = keyFunc ingress.toObjectMeta
    · subst hk
      rw [hup.mem_names, hnames, if_pos rfl] at hr
      rcases hr with hr | ⟨hx, -⟩
      · exact absurd hr (AList.notMem_empty r)
      · exact .inr ⟨rfl, hx⟩
    · rw [hup.names k hk, hnames, if_neg hk] at hr
      exact .inl (hs.refers_of_mem k r hr)
  · rw [agreement_initiated hs.refers_of_mem hentry hnames hup, hs.agrees, List.pairwise_append]
    simp only [List.pairwise_singleton, List.mem_singleton, forall_eq, true_and]
    refine and_congr Iff.rfl ?_
    constructor
    · rintro ⟨hnone, hno⟩ i hi
      constructor
      · intro r hr hr'
        obtain ⟨x, hx, rfl⟩ := (hkeys r).mp hr'
        exact (hs.stored x.key).mp (hnone x hx) i hi hr
      · intro hk
        rw [List.eq_nil_iff_forall_not_mem]
        intro r hr
        exact hno r ((hs.refers _ r).mpr ⟨i, hi, hk, hr⟩)
    · intro h
      constructor
      · intro x hx
        rw [hs.stored]
        exact fun i hi hr => (h i hi).1 x.key hr ((hkeys x.key).mpr ⟨x, hx, rfl⟩)
      · intro r hr
        obtain ⟨i, hi, hk, hr⟩ := (hs.refers _ r).mp hr
        rw [(h i hi).2 hk] at hr
        cases hr

theorem initiateEnvoyResources_started {c₀ : Controller} (hfresh : c₀.Fresh)
    (h : initiateEnvoyResources H L c₀ = .ok c) : Started H L (startupIngresses L) c := by
  refine loopM_invariant (I := fun done c => Started H L (done.filter isEnvoyIngress) c)
    ?_ hfresh.started h
  intro done ingress s s' hs h
  rcases initiateIngress_ok h with ⟨hno, rfl⟩ | ⟨henvoy, gen, c₁, hgen, hentry, hnames, -, -, hup⟩
  · simpa [hno] using hs
  · simpa [henvoy] using hs.concat hgen hentry hnames hup

/-- The stores agree in every state of a run exactly when the startup met no shared
resource and every sync found its own. -/
theorem reference_agreement_iff (H : Digest) {L : Listers} {c₀ c₁ : Controller}
    (hfresh : c₀.Fresh) (hinit : initiateEnvoyResources H L c₀ = .ok c₁) (calls : List Call) :
    Always (step H) Agreement c₁ calls ↔
      StartupSeparate H L ∧ Along (step H) (ReferencesKept H) c₁ calls := by
  have hstart := (initiateEnvoyResources_started hfresh hinit).agrees
  constructor
  · intro h
    exact ⟨hstart.mp h.head,
      (always_iff_along (fun s a s' => agreement_step a) h.head).mp h⟩
  · rintro ⟨hsep, halong⟩
    exact (always_iff_along (fun s a s' => agreement_step a) (hstart.mpr hsep)).mpr halong

theorem Synced.references (h : Synced H L key c c') (hsync : Syncs H L key ingress gen) :
    ∀ x ∈ gen, ∀ R, c'.entry x.key = some R → key ∈ R.ingressRef := by
  intro x hx R hR
  cases h with
  | skipped hother _ _ => exact absurd hsync.envoy (hother ingress hsync.find)
  | deleted hgone _ => exact absurd hsync (hgone.not_syncs ingress gen)
  | found i gen' c₁ hsync' _ hup _ =>
    obtain ⟨rfl, rfl⟩ := hsync.unique hsync'
    obtain ⟨R', hR', -, -, -, -, href⟩ := hup.entry x hx
    rw [hR] at hR'
    cases hR'
    exact (href key).mpr (.inl hsync.key_eq)

namespace Sample

/-- An ingress called `shop` with the rule of `web`. -/
def shop (groups : GoString) : Ingress :=
  { web groups [] with
    toObjectMeta := objectMeta (str "shop") (by decide +kernel) (ingressAnnotations groups) }

/-- The listers with `web`, `shop` and the service both use. -/
def webAndShop (groups groups' : GoString) : Listers :=
  { withService ∅ with
    ingresses := ⟨[web groups [], shop groups'], by
      simp only [List.map_cons, List.map_nil, web, shop, objectMeta, ObjectMeta.key]
      decide +kernel⟩ }

end Sample

open Sample

/-- Of two ingresses over one service only `web` is synced, twice: the second sync finds what the
first one has stored. -/
theorem reference_agreement_resynced :
    initiateEnvoyResources digest {} {} = .ok {} ∧
    (run (step digest) {}
      [.syncEnvoyIngress (webAndShop (str "edge") (str "edge")) (str "default/web"),
       .syncEnvoyIngress (webAndShop (str "edge") (str "edge")) (str "default/web")]).map
      (·.resourceStore.objects.length) = some 3 ∧
    Always (step digest) Agreement {}
      [.syncEnvoyIngress (webAndShop (str "edge") (str "edge")) (str "default/web"),
       .syncEnvoyIngress (webAndShop (str "edge") (str "edge")) (str "default/web")] := by
  have hfresh : Controller.Fresh {} := Controller.fresh_empty {}
  have hinit : initiateEnvoyResources digest {} {} = .ok {} := rfl
  refine ⟨hinit, by decide +kernel, ?_⟩
  refine (reference_agreement_iff digest hfresh hinit _).mpr ⟨List.Pairwise.nil, ?_⟩
  intro c hc
  refine ⟨?_, fun c' hc' => ⟨?_, trivial⟩⟩
  · intro ingress gen hsync
    constructor
    · intro x hx R hR
      cases hR
    · exact fun r hr => absurd hr (AList.notMem_empty r)
  · have hread : (step digest {} (.syncEnvoyIngress (webAndShop (str "edge") (str "edge"))
        (str "default/web"))).map (fun c => (c.names (str "default/web")).keys.all
          (· ∈ generatedKeys digest (webAndShop (str "edge") (str "edge"))
            (web (str "edge") []))) = some true := by
      decide +kernel
    rw [hc, Option.map_some, Option.some.injEq, List.all_eq_true] at hread
    intro ingress gen hsync
    refine ⟨(step_syncEnvoyIngress hc).references hsync, ?_⟩
    intro r hr hother
    have hgen := of_decide_eq_true (hread r (AList.mem_keys.mp hr))
    cases hsync.find
    obtain ⟨x, hx, he⟩ := (mem_generatedKeys hsync.generates).mp hgen
    exact absurd he (hother x hx)

/-- Two ingresses over one service: the second one is added to the references of the
cluster, but the cluster is not recorded for it. -/
theorem shared_cluster_breaks_agreement :
    initiateEnvoyResources digest {} {} = .ok {} ∧
    ¬ Always (step digest) Agreement {}
      [.syncEnvoyIngress (webAndShop (str "edge") (str "edge")) (str "default/web"),
       .syncEnvoyIngress (webAndShop (str "edge") (str "edge")) (str "default/shop")] := by
  have hrun : (run (step digest) {}
      [.syncEnvoyIngress (webAndShop (str "edge") (str "edge")) (str "default/web"),
       .syncEnvoyIngress (webAndShop (str "edge") (str "edge")) (str "default/shop")]).map
      (fun c => (decide (str "default/default_svc_80_da39a3ee5e" ∈ c.names (str "default/shop")),
        (c.entry (str "default/default_svc_80_da39a3ee5e")).map
          fun R => decide (str "default/shop" ∈ R.ingressRef))) = some (false, some true) := by
    decide +kernel
  obtain ⟨c, hc, hread⟩ := Option.map_eq_some_iff.mp hrun
  refine ⟨rfl, ?_⟩
  intro h
  have hagree := h.last hc (str "default/shop") (str "default/default_svc_80_da39a3ee5e")
  obtain ⟨hnot, href⟩ := Prod.mk.inj hread
  obtain ⟨R, hR, hmem⟩ := Option.map_eq_some_iff.mp href
  exact absurd (hagree.mpr ⟨R, hR, of_decide_eq_true hmem⟩) (of_decide_eq_false hnot)

end KubeEdge.Envoy
