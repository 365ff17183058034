import KubeEdge.Envoy.Edge
import KubeEdge.Envoy.Isolation
import KubeEdge.Envoy.References
import KubeEdge.Envoy.Sources

namespace KubeEdge.Envoy
open Go Go.Machine

variable {H : Digest} {L : Listers} {c c' : Controller} {i : Ingress} {a : Source}

def indexResourcesByName (specs : List Spec) : GoMap GoString Spec :=
  specs.foldl (fun m s => m.insert s.xdsName s) ∅

/-- `FlushXDSCache`: the part of the snapshot for a kind. -/
def ControlPlane.flushXDSCache (e : ControlPlane) (kind : ResourceKind) : GoMap GoString Spec :=
  indexResourcesByName ((e.resources kind).entries.map fun p => p.2.spec)

/-- The snapshot has as many resources as are stored. -/
def ControlPlane.DropsNone (e : ControlPlane) : Prop :=
  ∀ kind, (e.flushXDSCache kind).entries.length = (e.resources kind).entries.length

/-- The node of a group holds entries of the store that are for the group. -/
def HoldsGroup (c : Controller) (g : GoString) (e : ControlPlane) : Prop :=
  ∀ slot spec, e.lookup slot = some spec → ∃ r R, c.entry r = some R ∧ g ∈ R.nodeGroup ∧
    R.slot = slot ∧ R.spec = spec

/-- Entries of one kind for one group have different names. -/
def NamesUnique (c : Controller) : Prop :=
  ∀ r₁ R₁ r₂ R₂, c.entry r₁ = some R₁ → c.entry r₂ = some R₂ → r₁ ≠ r₂ →
    R₁.spec.resourceKind = R₂.spec.resourceKind → (∃ g, g ∈ R₁.nodeGroup ∧ g ∈ R₂.nodeGroup) →
    R₁.spec.xdsName ≠ R₂.spec.xdsName

theorem NamesUnique.dropsNone (h : NamesUnique c) {g : GoString} {e : ControlPlane}
    (he : HoldsGroup c g e) : e.DropsNone := by
  intro kind
  have hlookup {p : Sigma fun _ : GoString => EdgeResource} (hp : p ∈ (e.resources kind).entries) :
      e.lookup (kind, p.1) = some p.2.spec := by
    unfold ControlPlane.lookup
    rw [AList.mem_lookup_iff.mpr hp]
    rfl
  have hnames : (((e.resources kind).entries.map fun p => p.2.spec).map (·.xdsName)).Nodup := by
    rw [List.map_map]
    refine List.pairwise_map.mpr ?_
    refine (List.nodupKeys_iff_pairwise.mp (e.resources kind).nodupKeys).imp_of_mem ?_
    intro p q hp hq hne
    obtain ⟨r₁, R₁, hR₁, hg₁, hslot₁, hspec₁⟩ := he _ _ (hlookup hp)
    obtain ⟨r₂, R₂, hR₂, hg₂, hslot₂, hspec₂⟩ := he _ _ (hlookup hq)
    have hr : r₁ ≠ r₂ := by
      rintro rfl
      obtain rfl := Option.some.inj (hR₁.symm.trans hR₂)
      exact hne (congrArg Prod.snd (hslot₁.symm.trans hslot₂))
    have hkind : R₁.spec.resourceKind = R₂.spec.resourceKind :=
      (congrArg Prod.fst hslot₁).trans (congrArg Prod.fst hslot₂).symm
    have hname := h r₁ R₁ r₂ R₂ hR₁ hR₂ hr hkind ⟨g, hg₁, hg₂⟩
    rw [hspec₁, hspec₂] at hname
    exact hname
  refine (GoMap.length_foldl_insert Spec.xdsName id hnames fun _ _ => AList.notMem_empty _).trans ?_
  simp

/-- The envoy ingresses that the syncs of `keys` work on, in order. -/
def syncedIngresses (L : Listers) (keys : List GoString) : List Ingress :=
  keys.filterMap fun key => (ingressOf L key).filter isEnvoyIngress

def resourcesOf (H : Digest) (L : Listers) (ingress : Ingress) : List Resource :=
  match envoyResourcesForIngress H L ingress with
  | .ok gen => gen
  | .error _ => []

/-- The store after the ingresses `done` have been synced with the same listers: nothing
is ever given up, so every resource has the groups of its first ingress and the message of
its last. -/
structure Filled (H : Digest) (L : Listers) (done : List Ingress) (c : Controller) : Prop where
  returned : ∀ i ∈ done, ∃ gen, envoyResourcesForIngress H L i = .ok gen
  found : ∀ i ∈ done, ingressOf L (keyFunc i.toObjectMeta) = some i
  names : ∀ k r, r ∈ c.names k → ∃ i ∈ done, keyFunc i.toObjectMeta = k ∧ r ∈ generatedKeys H L i
  stored : ∀ r, c.entry r = none ↔ ∀ i ∈ done, r ∉ generatedKeys H L i
  grouped : Grouped H L done c
  last : ∀ r R, c.entry r = some R →
    (lastAt (done.flatMap (resourcesOf H L)) r).map (·.spec) = some R.spec

theorem Controller.Fresh.filled (h : c.Fresh) : Filled H L [] c where
  returned := nofun
  found := nofun
  names k r hr := absurd hr (h.names k r)
  stored r := iff_of_true (h.entry r) nofun
  grouped r R hR := by
    rw [h.entry r] at hR
    cases hR
  last r R hR := by
    rw [h.entry r] at hR
    cases hR

theorem Filled.synced {ingress : Ingress} {gen : List Resource} {done : List Ingress}
    {c₁ : Controller} (hc : Filled H L done c)
    (hsync : Syncs H L (keyFunc ingress.toObjectMeta) ingress gen)
    (hdrop : Dropped (keyFunc ingress.toObjectMeta) (gen.map (·.key))
      (c.names (keyFunc ingress.toObjectMeta)).keys c c₁)
    (hup : Upserted ingress gen c₁ c') : Filled H L (done ++ [ingress]) c' := by
  have hgen := hsync.generates
  -- what was recorded for the ingress is generated again
  have hentry (r : GoString) : c₁.entry r = c.entry r := by
    refine (hdrop.entry r).trans (if_neg ?_)
    rintro ⟨hr, hstale⟩
    obtain ⟨i, hi, hk, hr⟩ := hc.names _ r (AList.mem_keys.mpr hr)
    have hi' := hc.found i hi
    rw [hk, hsync.find] at hi'
    obtain rfl := Option.some.inj hi'
    obtain ⟨x, hx, rfl⟩ := (mem_generatedKeys hgen).mp hr
    exact hstale (List.mem_map_of_mem hx)
  refine ⟨?_, ?_, ?_, stored_concat hc.stored hgen hentry hup,
    hc.grouped.concat hc.stored hgen hentry hup, ?_⟩
  · exact List.forall_mem_append.mpr ⟨hc.returned, by simpa using ⟨gen, hgen⟩⟩
  · exact List.forall_mem_append.mpr ⟨hc.found, by simpa using hsync.find⟩
  · intro k r hr
    have hold : r ∈ c.names k ∨ (k = keyFunc ingress.toObjectMeta ∧ ∃ x ∈ gen, x.key = r) := by
      by_cases hk : k = keyFunc ingress.toObjectMeta
      · subst hk
        rcases (hup.mem_names r).mp hr with hr | ⟨hx, -⟩
        · exact .inl ((hdrop.mem_names r).mp hr).1
        · exact .inr ⟨rfl, hx⟩
      · rw [hup.names k hk, hdrop.names k hk] at hr
        exact .inl hr
    rcases hold with hr | ⟨rfl, hx⟩
    · obtain ⟨i, hi, hri⟩ := hc.names k r hr
      exact ⟨i, List.mem_append_left _ hi, hri⟩
    · exact ⟨ingress, by simp, rfl, (mem_generatedKeys hgen).mpr hx⟩
  · intro r R hR
    have hmade : (done ++ [ingress]).flatMap (resourcesOf H L) =
        done.flatMap (resourcesOf H L) ++ gen := by
      simp [resourcesOf, hgen]
    rw [hmade, lastAt_append]
    by_cases hr : ∃ x ∈ gen, x.key = r
    · obtain ⟨x, hx, rfl⟩ := hr
      obtain ⟨R', hR', hlast, -⟩ := hup.entry x hx
      obtain rfl := Option.some.inj (hR'.symm.trans hR)
      obtain ⟨y, hy, -⟩ := Option.map_eq_some_iff.mp hlast
      rw [← hlast, hy, Option.some_or]
    · have hno : ∀ x ∈ gen, x.key ≠ r := fun x hx he => hr ⟨x, hx, he⟩
      rw [hup.other r hno, hentry] at hR
      rw [lastAt_eq_none.mpr hno, Option.none_or, hc.last r R hR]

theorem syncs_filled {c₀ : Controller} (hfresh : c₀.Fresh) {keys : List GoString}
    (hrun : run (fun c key => step H c (.syncEnvoyIngress L key)) c₀ keys = some c) :
    Filled H L (syncedIngresses L keys) c := by
  refine run_invariant (I := fun keys c => Filled H L (syncedIngresses L keys) c) ?_ hfresh.filled
    hrun
  intro keys key c c' hc h
  have hconcat : syncedIngresses L (keys ++ [key]) =
      syncedIngresses L keys ++ ((ingressOf L key).filter isEnvoyIngress).toList := by
    unfold syncedIngresses
    cases hi : (ingressOf L key).filter isEnvoyIngress <;> simp [hi]
  rw [hconcat]
  cases step_syncEnvoyIngress h with
  | skipped hother hthere h =>
    have hnone : (ingressOf L key).filter isEnvoyIngress = none := by
      simpa [Option.filter_eq_none_iff] using hother
    rw [hnone, h]
    simpa using hc
  | deleted hgone h =>
    have hnames (r : GoString) : r ∉ c.names key := by
      intro hr
      obtain ⟨i, hi, hk, -⟩ := hc.names key r hr
      have hfound := hc.found i hi
      rw [hk, hgone.2] at hfound
      cases hfound
    have hentry (r : GoString) : c'.entry r = c.entry r := (h.entry r).trans (if_neg (hnames r))
    rw [hgone.2]
    simp only [Option.filter_none, Option.toList_none, List.append_nil]
    refine ⟨hc.returned, hc.found, ?_, fun r => by rw [hentry]; exact hc.stored r,
      fun r R hR => hc.grouped r R (hentry r ▸ hR), fun r R hR => hc.last r R (hentry r ▸ hR)⟩
    intro k r hr
    by_cases hk : k = key
    · subst hk
      exact absurd hr (h.names_key r)
    · rw [h.names k hk] at hr
      exact hc.names k r hr
  | found ingress gen c₁ hsync hdrop hup hqueued =>
    obtain rfl := hsync.key_eq
    rw [hsync.find, Option.filter_some, if_pos hsync.envoy]
    exact hc.synced hsync hdrop hup

/-- `i` is the first of the ingresses for which something is made under the key `r`. -/
def Creates (H : Digest) (L : Listers) (order : List Ingress) (i : Ingress) (r : GoString) : Prop :=
  ∃ before after, order = before ++ i :: after ∧ (∃ a, Makes H L i a ∧ a.key H = r) ∧
    ∀ j ∈ before, ∀ a, Makes H L j a → a.key H ≠ r

/-- `a` is what the store keeps under its key.  Load assignments of services whose names
are cut to the same text overwrite one another. -/
def Remains (H : Digest) (L : Listers) (order : List Ingress) (a : Source) : Prop :=
  (∃ i ∈ order, Makes H L i a) ∧ ∀ s, a = .endpoint s →
    ((order.flatMap (assignedServices L)).reverse.find? fun t =>
      (Source.endpoint t).key H = a.key H) = some s

/-- Two sources whose messages have one name. -/
def Clash (H : Digest) : Source → Source → Prop
  | .secret s, .secret t => secretname H s = secretname H t
  | .endpoint s, .endpoint t => s.ns ++ 45 :: s.name = t.ns ++ 45 :: t.name
  | .cluster _ name, .cluster _ name' => name = name'
  | .route _, .route _ => True
  | .httpListener _ port, .httpListener _ port' => port = port'
  | .httpsListener _ _, .httpsListener _ _ => True
  | _, _ => False

/-- No two sources under different keys clash if the ingresses that created them share a
group: one route and one https listener for a group, one http listener for each port. -/
def Apart (H : Digest) (L : Listers) (order : List Ingress) : Prop :=
  ∀ i j a b, Creates H L order i (a.key H) → Creates H L order j (b.key H) →
    Remains H L order a → Remains H L order b → a.key H ≠ b.key H →
    (∃ g ∈ nodeGroupsOf i, g ∈ nodeGroupsOf j) → ¬ Clash H a b

theorem clash_iff (a b : Source) : Clash H a b ↔
    a.kind.resourceKind = b.kind.resourceKind ∧ a.xdsName H = b.xdsName H := by
  cases a <;> cases b <;> simp [Clash, Source.kind, Kind.resourceKind, Source.xdsName]
  case httpListener.httpListener ns port ns' port' =>
    exact ⟨fun h => h ▸ rfl, listenerName_inj⟩
  case httpListener.httpsListener ns port ns' port' => exact listenerName_ne_https H port
  case httpsListener.httpListener ns port ns' port' => exact (listenerName_ne_https H port').symm

/-- The name of the message of a resource called `name`, load assignments apart. -/
def messageName : Kind → GoString → GoString
  | .route, _ => envoyHTTPListener
  | .httpsListener, _ => envoyHTTPSListener
  | _, name => name

/-- A key gives the kind of its source and, load assignments apart, the name in the message. -/
theorem Makes.named (h : Makes H L i a) :
    ∃ ns name, IsDNSLabel ns ∧ a.key H = envoyResourceKeyFunc ns name ∧ Named H ns a.kind name ∧
      (a.kind ≠ .endpoint → a.xdsName H = messageName a.kind name) := by
  cases h.2 with
  | secret tls s htls hs => exact ⟨_, _, s.ns_valid, rfl, .secret s, fun _ => rfl⟩
  | endpoint s hs => exact ⟨_, _, s.ns_valid, rfl, .endpoint s, fun hne => absurd rfl hne⟩
  | cluster s p hs hp =>
    exact ⟨_, _, s.ns_valid, rfl, .cluster s p _ _ _ _ (clustername_cluster H L i s p _),
      fun _ => rfl⟩
  | route rule s hr hs hp => exact ⟨_, _, i.ns_valid, rfl, .route i, fun _ => rfl⟩
  | httpListener rule b hr hb =>
    exact ⟨_, _, i.ns_valid, rfl, .httpListener i.ns b.port.number, fun _ => rfl⟩
  | httpsListener rule b name hr hb hn hs =>
    exact ⟨_, _, i.ns_valid, rfl, .httpsListener i.ns b.port.number, fun _ => rfl⟩

section

variable {order : List Ingress}

theorem Remains.unique {b : Source} (ha : Remains H L order a) (hb : Remains H L order b)
    (hkey : a.key H = b.key H) : a.kind = b.kind ∧ a.xdsName H = b.xdsName H := by
  obtain ⟨⟨i, -, hi⟩, hlast⟩ := ha
  obtain ⟨⟨j, -, hj⟩, hlast'⟩ := hb
  obtain ⟨ns, name, hns, hk, hnamed, hname⟩ := hi.named
  obtain ⟨ns', name', hns', hk', hnamed', hname'⟩ := hj.named
  obtain ⟨rfl, rfl⟩ := envoyResourceKeyFunc_inj₂ hns hns' (hk.symm.trans (hkey.trans hk'))
  have hkind : a.kind = b.kind := hnamed.kindOfName_eq.symm.trans hnamed'.kindOfName_eq
  refine ⟨hkind, ?_⟩
  by_cases he : a.kind = .endpoint
  · cases a <;> cases he
    cases b <;> cases hkind
    rename_i s t
    have hs := hlast s rfl
    rw [hkey, hlast' t rfl] at hs
    rw [Option.some.inj hs]
  · rw [hname he, hname' (hkind ▸ he), hkind]

theorem lastAt_flatMap_endpoint
    (hret : ∀ i ∈ order, ∃ gen, envoyResourcesForIngress H L i = .ok gen)
    (s : Service) :
    (lastAt (order.flatMap (resourcesOf H L)) ((Source.endpoint s).key H)).map (·.spec.xdsName) =
      ((order.flatMap (assignedServices L)).reverse.find? fun t =>
        (Source.endpoint t).key H = (Source.endpoint s).key H).map
        fun t => (Source.endpoint t).xdsName H := by
  induction order with
  | nil => rfl
  | cons i order ih =>
    rw [List.forall_mem_cons] at hret
    obtain ⟨⟨gen, hgen⟩, hret⟩ := hret
    have hi : resourcesOf H L i = gen := by simp [resourcesOf, hgen]
    rw [List.flatMap_cons, lastAt_append, Option.map_or, ih hret, hi, lastAt_of_endpoint_key hgen,
      List.flatMap_cons, List.reverse_append, List.find?_append, Option.map_or]

section

variable (hc : Filled H L order c)
include hc

theorem Filled.mem_generatedKeys_iff (hi : i ∈ order) (r : GoString) :
    r ∈ generatedKeys H L i ↔ ∃ a, Makes H L i a ∧ a.key H = r := by
  obtain ⟨gen, hgen⟩ := hc.returned i hi
  rw [mem_generatedKeys hgen]
  constructor
  · rintro ⟨x, hx, rfl⟩
    obtain ⟨a, ha, hd⟩ := describes_of_mem hgen hx
    exact ⟨a, ha, hd.key.symm⟩
  · rintro ⟨a, ha, rfl⟩
    exact exists_of_makes hgen ha

theorem Filled.creates_iff (i : Ingress) (r : GoString) :
    (users H L order r).head? = some i ↔ Creates H L order i r := by
  unfold users
  rw [List.head?_filter, List.find?_eq_some_iff_append]
  constructor
  · rintro ⟨hi, before, after, rfl, hbefore⟩
    refine ⟨before, after, rfl, (hc.mem_generatedKeys_iff (by simp) r).mp (by simpa using hi), ?_⟩
    intro j hj a ha hk
    have hnot := hbefore j hj
    rw [decide_eq_true ((hc.mem_generatedKeys_iff (by simp [hj]) r).mpr ⟨a, ha, hk⟩)] at hnot
    cases hnot
  · rintro ⟨before, after, rfl, hi, hbefore⟩
    refine ⟨by simpa using (hc.mem_generatedKeys_iff (by simp) r).mpr hi, before, after, rfl, ?_⟩
    intro j hj
    simp only [Bool.not_eq_true', decide_eq_false_iff_not]
    intro hr
    obtain ⟨a, ha, hk⟩ := (hc.mem_generatedKeys_iff (by simp [hj]) r).mp hr
    exact hbefore j hj a ha hk

theorem Filled.source {r : GoString} {R : Resource} (hR : c.entry r = some R) :
    ∃ i a, Creates H L order i r ∧ Remains H L order a ∧ a.key H = r ∧
      R.nodeGroup = GoSet.ofList (nodeGroupsOf i) ∧ R.spec.kind = a.kind ∧
      R.spec.xdsName = a.xdsName H := by
  obtain ⟨i, hi, hgroup⟩ := hc.grouped r R hR
  obtain ⟨y, hy, hspec⟩ := Option.map_eq_some_iff.mp (hc.last r R hR)
  obtain ⟨hmem, hkey⟩ := mem_of_lastAt hy
  obtain ⟨j, hj, hyj⟩ := List.mem_flatMap.mp hmem
  obtain ⟨gen, hgen⟩ := hc.returned j hj
  rw [show resourcesOf H L j = gen by simp [resourcesOf, hgen]] at hyj
  obtain ⟨a, ha, hd⟩ := describes_of_mem hgen hyj
  have hr : a.key H = r := hd.key.symm.trans hkey
  refine ⟨i, ?_⟩
  simp only [← hspec, hgroup, (hc.creates_iff i r).mp hi, true_and]
  by_cases he : a.kind = .endpoint
  · -- the message is that of the last service under the key
    cases a <;> cases he
    rename_i s
    have hlast := lastAt_flatMap_endpoint hc.returned s
    rw [hr, hy, Option.map_some, eq_comm] at hlast
    obtain ⟨t, ht, hname⟩ := Option.map_eq_some_iff.mp hlast
    have htr : (Source.endpoint t).key H = r := by simpa using List.find?_some ht
    obtain ⟨k, hk, htk⟩ := List.mem_flatMap.mp (List.mem_reverse.mp (List.mem_of_find?_eq_some ht))
    have hg : nodeGroupsOf k ≠ [] := by
      intro hn
      rw [assignedServices, if_pos hn] at htk
      cases htk
    refine ⟨.endpoint t, ⟨⟨k, hk, hg, .endpoint t htk⟩, ?_⟩, htr, hd.kind, hname.symm⟩
    rintro _ ⟨⟩
    rw [htr]
    exact ht
  · exact ⟨a, ⟨⟨j, hj, ha⟩, fun s hs => absurd (hs ▸ rfl) he⟩, hr, hd.kind, hd.name⟩

/-- Every source that remains has its entry, with the groups of the ingress that created it. -/
theorem Filled.entry_of_source (hi : Creates H L order i (a.key H)) (ha : Remains H L order a) :
    ∃ R, c.entry (a.key H) = some R ∧ R.nodeGroup = GoSet.ofList (nodeGroupsOf i) ∧
      R.spec.kind = a.kind ∧ R.spec.xdsName = a.xdsName H := by
  cases hR : c.entry (a.key H) with
  | none =>
    obtain ⟨⟨j, hj, hmakes⟩, -⟩ := ha
    exact absurd ((hc.mem_generatedKeys_iff hj _).mpr ⟨a, hmakes, rfl⟩) ((hc.stored _).mp hR j hj)
  | some R =>
    obtain ⟨i', a', hi', ha', hkey, hgroup, hkind, hname⟩ := hc.source hR
    rw [← hc.creates_iff] at hi hi'
    obtain rfl := Option.some.inj (hi.symm.trans hi')
    obtain ⟨hk, hn⟩ := ha.unique ha' hkey.symm
    exact ⟨R, rfl, hgroup, hkind.trans hk.symm, hname.trans hn.symm⟩

theorem Filled.namesUnique_iff : NamesUnique c ↔ Apart H L order := by
  constructor
  · rintro h i j a b hi hj ha hb hne ⟨g, hgi, hgj⟩ hclash
    obtain ⟨R₁, hR₁, hg₁, hk₁, hn₁⟩ := hc.entry_of_source hi ha
    obtain ⟨R₂, hR₂, hg₂, hk₂, hn₂⟩ := hc.entry_of_source hj hb
    obtain ⟨hkind, hname⟩ := (clash_iff a b).mp hclash
    refine h _ R₁ _ R₂ hR₁ hR₂ hne ?_ ⟨g, ?_, ?_⟩ ?_
    · rw [resourceKind_eq, resourceKind_eq, hk₁, hk₂, hkind]
    · rw [hg₁, GoSet.mem_ofList]
      exact hgi
    · rw [hg₂, GoSet.mem_ofList]
      exact hgj
    · rw [hn₁, hn₂, hname]
  · rintro h r₁ R₁ r₂ R₂ hR₁ hR₂ hne hkind ⟨g, hgi, hgj⟩ hname
    obtain ⟨i, a, hi, ha, rfl, hg₁, hk₁, hn₁⟩ := hc.source hR₁
    obtain ⟨j, b, hj, hb, rfl, hg₂, hk₂, hn₂⟩ := hc.source hR₂
    rw [hg₁, GoSet.mem_ofList] at hgi
    rw [hg₂, GoSet.mem_ofList] at hgj
    rw [resourceKind_eq, resourceKind_eq, hk₁, hk₂] at hkind
    rw [hn₁, hn₂] at hname
    exact h i j a b hi hj ha hb hne ⟨g, hgi, hgj⟩ ((clash_iff a b).mpr ⟨hkind, hname⟩)

end

end

/-- After syncs from empty stores the names are unique exactly when no two sources clash,
and then no snapshot drops a resource. -/
theorem xds_names_unique_iff (H : Digest) {L : Listers} {c₀ c : Controller} (hfresh : c₀.Fresh)
    (keys : List GoString)
    (hrun : run (fun c key => step H c (.syncEnvoyIngress L key)) c₀ keys = some c) :
    (NamesUnique c ↔ Apart H L (syncedIngresses L keys)) ∧
      (NamesUnique c → ∀ g e, HoldsGroup c g e → e.DropsNone) :=
  ⟨(syncs_filled hfresh hrun).namesUnique_iff, fun h _ _ => h.dropsNone⟩

theorem namesUnique_of_nodup
    (h : (c.resourceStore.objects.map fun R => (R.spec.resourceKind, R.spec.xdsName)).Nodup) :
    NamesUnique c := by
  intro r₁ R₁ r₂ R₂ hR₁ hR₂ hne hkind _ hname
  obtain ⟨h₁, hk₁⟩ := Indexer.get_eq_some.mp hR₁
  obtain ⟨h₂, hk₂⟩ := Indexer.get_eq_some.mp hR₂
  have heq : R₁ = R₂ := List.inj_on_of_nodup_map h h₁ h₂ (Prod.ext hkind hname)
  exact hne (by rw [← hk₁, ← hk₂, heq])

open Sample

/-- The listers with `web`, its service, its secret and the endpoints of the service. -/
def withAll : Listers := { withWeb with endpoints := withEndpoints.endpoints }

/-- One ingress with TLS: the names of its resources, one or two of each kind, are unique. -/
theorem xds_names_unique_web :
    ∃ c, run (fun c key => step digest c (.syncEnvoyIngress withAll key)) {}
        [str "default/web"] = some c ∧
      NamesUnique c ∧
      Apart digest withAll (syncedIngresses withAll [str "default/web"]) := by
  have hrun : (run (fun c key => step digest c (.syncEnvoyIngress withAll key)) {}
      [str "default/web"]).map (fun c => (c.resourceStore.objects.length, decide
        (c.resourceStore.objects.map fun R => (R.spec.resourceKind, R.spec.xdsName)).Nodup)) =
      some (6, true) := by
    decide +kernel
  obtain ⟨c, hc, hread⟩ := Option.map_eq_some_iff.mp hrun
  have hunique := namesUnique_of_nodup (of_decide_eq_true (Prod.mk.inj hread).2)
  have hfresh : Controller.Fresh {} := Controller.fresh_empty {}
  exact ⟨c, hc, hunique, (xds_names_unique_iff digest hfresh _ hc).1.mp hunique⟩

/-- Two ingresses for one group: both route configurations are called `ingress_http`. -/
theorem routes_share_their_name :
    ∃ c, run (fun c key => step digest c
        (.syncEnvoyIngress (webAndShop (str "edge") (str "edge")) key)) {}
        [str "default/web", str "default/shop"] = some c ∧ ¬ NamesUnique c := by
  have hrun : (run (fun c key => step digest c
      (.syncEnvoyIngress (webAndShop (str "edge") (str "edge")) key)) {}
      [str "default/web", str "default/shop"]).map (fun c =>
        [c.entry (str "default/web_default_envoyroute"),
         c.entry (str "default/shop_default_envoyroute")].map fun e => e.map fun R =>
          (R.spec.resourceKind, R.spec.xdsName, decide (str "edge" ∈ R.nodeGroup))) =
      some [some (.route, str "ingress_http", true), some (.route, str "ingress_http", true)] := by
    decide +kernel
  obtain ⟨c, hc, hread⟩ := Option.map_eq_some_iff.mp hrun
  refine ⟨c, hc, fun h => ?_⟩
  simp only [List.map_cons, List.map_nil, List.cons.injEq, and_true] at hread
  obtain ⟨hweb, hshop⟩ := hread
  obtain ⟨R₁, hR₁, h₁⟩ := Option.map_eq_some_iff.mp hweb
  obtain ⟨R₂, hR₂, h₂⟩ := Option.map_eq_some_iff.mp hshop
  simp only [Prod.mk.injEq] at h₁ h₂
  refine h _ R₁ _ R₂ hR₁ hR₂ (by decide +kernel) (h₁.1.trans h₂.1.symm) ⟨str "edge", ?_, ?_⟩
    (h₁.2.1.trans h₂.2.1.symm)
  · exact of_decide_eq_true h₁.2.2
  · exact of_decide_eq_true h₂.2.2

end KubeEdge.Envoy
