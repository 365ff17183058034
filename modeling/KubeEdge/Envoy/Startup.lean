import KubeEdge.Envoy.Agreement
import KubeEdge.Envoy.Resync

namespace KubeEdge.Envoy
open Go

structure SameUpToVersion (R S : Resource) : Prop where
  name : R.name = S.name
  ns : R.ns = S.ns
  nodeGroup : R.nodeGroup = S.nodeGroup
  spec : R.spec = S.spec
  ingressRef : ∀ k, k ∈ R.ingressRef ↔ k ∈ S.ingressRef

/-- The same names and, up to versions, the same resources. -/
structure SameStores (c d : Controller) : Prop where
  recorded : ∀ k, k ∈ c.ingressToResourceNameStore ↔ k ∈ d.ingressToResourceNameStore
  names : ∀ k r, r ∈ c.names k ↔ r ∈ d.names k
  entry : ∀ r, Option.Rel SameUpToVersion (c.entry r) (d.entry r)

def Controller.stores (c : Controller) :
    GoMap GoString (GoSet GoString) × Indexer Resource (·.key) :=
  (c.ingressToResourceNameStore, c.resourceStore)

/-- Calls of `syncEnvoyIngress`, one after the other. -/
def syncEnvoyIngresses (gen : Ingress → M (List Resource)) (L : Listers) (keys : List GoString)
    (c : Controller) : M Controller :=
  loopM (fun c key => do
    let (c, _) ← syncWith gen L key c
    .ok c) keys c

variable {H : Digest} {L : Listers} {c c' d d' : Controller} {key k r : GoString} {i : Ingress}
  {x : Resource} {xs ys : List Resource} {gen : Ingress → M (List Resource)}

theorem SameStores.refl (c : Controller) : SameStores c c := by
  refine ⟨fun _ => Iff.rfl, fun _ _ => Iff.rfl, fun r => ?_⟩
  cases c.entry r with
  | none => exact .none
  | some R => exact .some ⟨rfl, rfl, rfl, rfl, fun _ => Iff.rfl⟩

theorem SameStores.congr (h : SameStores c d) (hc : c'.stores = c.stores)
    (hd : d'.stores = d.stores) : SameStores c' d' := by
  obtain ⟨hnames, hstore⟩ := Prod.mk.inj hc
  obtain ⟨hnames', hstore'⟩ := Prod.mk.inj hd
  refine ⟨?_, ?_, ?_⟩
  · rw [hnames, hnames']
    exact h.recorded
  · unfold Controller.names
    rw [hnames, hnames']
    exact h.names
  · unfold Controller.entry
    rw [hstore, hstore']
    exact h.entry

section

variable (h : SameStores c d)
include h

theorem SameStores.map_eq {β : Type} {f : Resource → β}
    (hf : ∀ R S, SameUpToVersion R S → f R = f S) (r : GoString) :
    (c.entry r).map f = (d.entry r).map f := by
  have hr := h.entry r
  revert hr
  generalize c.entry r = a
  generalize d.entry r = b
  rintro (hRS | _)
  · exact congrArg some (hf _ _ hRS)
  · rfl

theorem SameStores.entry_eq_none : c.entry r = none ↔ d.entry r = none := by
  have hunit := h.map_eq (f := fun _ => ()) (fun _ _ _ => rfl) r
  rw [← Option.map_eq_none_iff (f := fun _ => ()), hunit, Option.map_eq_none_iff]

theorem SameStores.refers : c.Refers k r ↔ d.Refers k r := by
  have hmem := h.map_eq (f := fun R => k ∈ R.ingressRef)
    (fun _ _ hRS => propext (hRS.ingressRef k)) r
  have hread (c : Controller) :
      c.Refers k r ↔ (c.entry r).map (fun R => k ∈ R.ingressRef) = some True := by
    simp [Controller.Refers]
  rw [hread, hread, hmem]

theorem SameStores.setNames (key : GoString) (s : GoSet GoString) :
    SameStores (c.setNames key s) (d.setNames key s) where
  recorded k := by
    unfold Controller.setNames
    simp only [AList.mem_insert, h.recorded]
  names k r := by
    simp only [Controller.names_setNames]
    split_ifs
    · exact Iff.rfl
    · exact h.names k r
  entry := h.entry

theorem SameStores.upserted (hx : Upserted i xs c c') (hy : Upserted i ys d d')
    (hlast : ∀ r, lastAt xs r = lastAt ys r)
    (hrecorded : ∀ k, k ∈ c'.ingressToResourceNameStore ↔ k ∈ d'.ingressToResourceNameStore) :
    SameStores c' d' := by
  refine ⟨hrecorded, ?_, ?_⟩
  · intro k r
    by_cases hk : k = keyFunc i.toObjectMeta
    · rw [hk, hx.mem_names, hy.mem_names, h.names, exists_key_congr (hlast r), h.entry_eq_none]
    · rw [hx.names k hk, hy.names k hk, h.names]
  · intro r
    cases hr : lastAt xs r with
    | none =>
      rw [hx.other r (lastAt_eq_none.mp hr),
        hy.other r (lastAt_eq_none.mp ((hlast r).symm.trans hr))]
      exact h.entry r
    | some x =>
      have hr' := (hlast r).symm.trans hr
      obtain ⟨hxs, rfl⟩ := mem_of_lastAt hr
      obtain ⟨R, hR, hspec, hns, hname, hgroup, href⟩ := hx.entry x hxs
      obtain ⟨S, hS, hspec', hns', hname', hgroup', href'⟩ := hy.entry x (mem_of_lastAt hr').1
      rw [hr] at hspec
      rw [hr'] at hspec'
      rw [hR, hS]
      refine .some ⟨?_, ?_, ?_, ?_, ?_⟩
      · rw [hname, hname', h.map_eq fun _ _ hRS => hRS.name]
      · rw [hns, hns', h.map_eq fun _ _ hRS => hRS.ns]
      · rw [hgroup, hgroup', h.map_eq fun _ _ hRS => hRS.nodeGroup]
      · exact Option.some.inj (hspec.symm.trans hspec')
      · intro k
        rw [href, href', h.refers]

end

theorem recorded_createResource (hkey : key ∈ c.ingressToResourceNameStore) :
    k ∈ (createResource key c x).ingressToResourceNameStore ↔
      k ∈ c.ingressToResourceNameStore := by
  change k ∈ c.ingressToResourceNameStore.insert key _ ↔ _
  rw [AList.mem_insert, or_iff_right_of_imp]
  rintro rfl
  exact hkey

theorem recorded_insertResource (hkey : key ∈ c.ingressToResourceNameStore) :
    k ∈ (insertResource key c x).ingressToResourceNameStore ↔
      k ∈ c.ingressToResourceNameStore := by
  unfold insertResource
  cases c.entry x.key with
  | none => exact recorded_createResource hkey
  | some R => exact Iff.rfl

theorem recorded_initiateResource (hkey : key ∈ c.ingressToResourceNameStore) :
    k ∈ (initiateResource key c x).ingressToResourceNameStore ↔
      k ∈ c.ingressToResourceNameStore := by
  unfold initiateResource
  cases c.entry x.key with
  | none => exact recorded_createResource hkey
  | some R =>
    dsimp only
    split_ifs <;> exact Iff.rfl

/-- The ingresses with recorded names after a loop whose turns leave them alone. -/
theorem recorded_foldl {turn : Controller → Resource → Controller}
    (hturn : ∀ {c k x}, key ∈ c.ingressToResourceNameStore →
      (k ∈ (turn c x).ingressToResourceNameStore ↔ k ∈ c.ingressToResourceNameStore))
    (hkey : key ∈ c.ingressToResourceNameStore) :
    k ∈ (xs.foldl turn c).ingressToResourceNameStore ↔ k ∈ c.ingressToResourceNameStore := by
  induction xs generalizing c with
  | nil => exact Iff.rfl
  | cons x xs ih => exact (ih ((hturn hkey).mpr hkey)).trans (hturn hkey)

theorem SameStores.foldl (h : SameStores c d) (hxs : ∀ x ∈ xs, Generated H i x)
    (hys : ∀ y ∈ ys, Generated H i y) (hlast : ∀ r, lastAt xs r = lastAt ys r)
    (hkey : keyFunc i.toObjectMeta ∈ c.ingressToResourceNameStore) :
    SameStores (xs.foldl (initiateResource (keyFunc i.toObjectMeta)) c)
      (ys.foldl (insertResource (keyFunc i.toObjectMeta)) d) := by
  refine h.upserted (foldl_upserted _ (initiateResource_turned _) hxs c)
    (foldl_upserted _ (insertResource_turned _) hys d) hlast fun k => ?_
  rw [recorded_foldl recorded_initiateResource hkey,
    recorded_foldl recorded_insertResource ((h.recorded _).mp hkey), h.recorded]

/-- A turn of the startup beside the first sync of the same ingress, which deletes nothing. -/
theorem SameStores.turn {gen' : Ingress → M (List Resource)} (h : SameStores c d)
    (henvoy : isEnvoyIngress i) (hxs : gen i = .ok xs) (hys : gen' i = .ok ys)
    (hgen : ∀ x ∈ xs, Generated H i x) (hgen' : ∀ y ∈ ys, Generated H i y)
    (hlast : ∀ r, lastAt xs r = lastAt ys r) (hlock : d.resourceStoreLock = {})
    (hnames : d.names (keyFunc i.toObjectMeta) = ∅) :
    ∃ c' d', initiateIngress gen c i = .ok c' ∧
      syncFoundIngress gen' (keyFunc i.toObjectMeta) i d = .ok (d', none) ∧
      SameStores c' d' ∧ d'.resourceStoreLock = {} ∧
      ∀ k, k ≠ keyFunc i.toObjectMeta → d'.names k = d.names k := by
  set key := keyFunc i.toObjectMeta
  set d₁ : Controller := { (d.setNames key ∅) with
    ingressNodeGroupStore := d.ingressNodeGroupStore.insert key (recordedGroups d.lc i) }
  set c₁ : Controller := { c with
    ingressNodeGroupStore := recordGroups key (nodeGroupsOf i) c.ingressNodeGroupStore }.setNames
      key ∅
  have h₁ : SameStores c₁ d₁ := (h.setNames key ∅).congr rfl rfl
  refine ⟨xs.foldl (initiateResource key) c₁, ys.foldl (insertResource key) d₁, ?_, ?_, ?_, ?_, ?_⟩
  · rw [initiateIngress, if_pos henvoy, hxs]
    rfl
  · have hfree : RWMutex.lock {} = .ok { writer := true } := rfl
    rw [syncFoundIngress, if_pos henvoy, hys, ok_bind, hnames]
    change (d.resourceStoreLock.lock >>= _) = _
    rw [hlock, hfree]
    rfl
  · exact h₁.foldl hgen hgen' hlast ((AList.mem_insert _).mpr (.inl rfl))
  · rw [(insertLoop_framed key d₁ ys).lock]
    exact hlock
  · intro k hk
    rw [(foldl_upserted _ (insertResource_turned _) hgen' d₁).names k hk]
    exact (Controller.names_setNames ..).trans (if_neg hk)

/-- Both calls fail, or both return with the same stores. -/
def Agree : M Controller → M Controller → Prop
  | .ok c, .ok d => SameStores c d
  | .error _, .error _ => True
  | _, _ => False

theorem Agree.of_ok {b : M Controller} (h : Agree (.ok c) b) : ∃ d, b = .ok d ∧ SameStores c d := by
  cases b with
  | error e => exact h.elim
  | ok d => exact ⟨d, rfl, h⟩

theorem Agree.spec_eq {a b : M Controller} (h : Agree a b) (r : GoString) :
    a.toOption.map (fun c => (c.entry r).map (·.spec)) =
      b.toOption.map (fun d => (d.entry r).map (·.spec)) := by
  cases a with
  | error e =>
    cases b with
    | error e' => rfl
    | ok d => exact h.elim
  | ok c =>
    obtain ⟨d, rfl, hsame⟩ := h.of_ok
    exact congrArg some (hsame.map_eq (fun _ _ hRS => hRS.spec) r)

/-- The ingress of a key is the one in the list: no other one of this controller has the key, and
a v1 ingress that would be found before a v1beta1 one is of this controller. -/
theorem findIngress_of_startup (hkeys : ((startupIngresses L).map (·.key)).Nodup)
    (hclass : ∀ j ∈ L.ingresses.objects, ∀ i ∈ startupIngresses L, j.key = i.key →
      isEnvoyIngress j)
    (hi : i ∈ startupIngresses L) : findIngress L i.key = some i := by
  obtain ⟨hmem, henvoy⟩ := List.mem_filter.mp hi
  unfold findIngress
  rcases List.mem_append.mp hmem with hv1 | hbeta
  · have hget : L.ingresses.get i.key = some i := Indexer.get_eq_some.mpr ⟨hv1, rfl⟩
    rw [hget, Option.some_or]
  · have hnone : L.ingresses.get i.key = none := by
      rw [Indexer.get_eq_none]
      intro j hj hkey
      have hj' : j ∈ L.ingresses.objects.filter isEnvoyIngress :=
        List.mem_filter.mpr ⟨hj, hclass j hj i hi hkey⟩
      rw [startupIngresses, mergeIngresses, List.filter_append, List.map_append,
        List.nodup_append] at hkeys
      exact hkeys.2.2 _ (List.mem_map_of_mem hj') _
        (List.mem_map_of_mem (List.mem_filter.mpr ⟨hbeta, henvoy⟩)) hkey
    obtain ⟨j, hj, rfl⟩ := List.mem_map.mp hbeta
    have hget : L.v1beta1Ingresses.get (toV1Ingress j).key = some j :=
      Indexer.get_eq_some.mpr ⟨hj, rfl⟩
    rw [hnone, hget]
    rfl

theorem initiate_filter (l : List Ingress) (c : Controller) :
    loopM (initiateIngress gen) l c = loopM (initiateIngress gen) (l.filter isEnvoyIngress) c := by
  induction l generalizing c with
  | nil => rfl
  | cons i l ih =>
    by_cases henvoy : isEnvoyIngress i
    · rw [List.filter_cons_of_pos henvoy, loopM, loopM]
      simp only [ih]
    · rw [List.filter_cons_of_neg henvoy, loopM, initiateIngress, if_neg henvoy, ok_bind, ih]

/-- What two listings collect for an ingress: both fail, or they return resources of which the last
ones under each key agree. -/
def SameLast (H : Digest) (i : Ingress) : M (List Resource) → M (List Resource) → Prop
  | .ok xs, .ok ys =>
    (∀ x ∈ xs, Generated H i x) ∧ (∀ y ∈ ys, Generated H i y) ∧ ∀ r, lastAt xs r = lastAt ys r
  | .error _, .error _ => True
  | _, _ => False

theorem collect_sameLast (hapart : ServicesApart H L i) (o o' : Listing L) :
    SameLast H i (collect H L o i) (collect H L o' i) := by
  cases h : collect H L o i with
  | ok xs =>
    obtain ⟨ys, h', -, hlast⟩ := collect_relisted h o'
    rw [h']
    exact ⟨fun x => generated_of_collect h, fun y => generated_of_collect h', hlast hapart⟩
  | error e =>
    cases h' : collect H L o' i with
    | error e' => trivial
    | ok ys =>
      obtain ⟨xs, hxs, -⟩ := collect_relisted h' o
      rw [h] at hxs
      cases hxs

/-- The two loops side by side.  What carries the induction: the keys to come have no names
yet, and the lock of the resource store is free. -/
theorem agree_loop {gen' : Ingress → M (List Resource)} {l : List Ingress}
    (hkeys : (l.map fun i => keyFunc i.toObjectMeta).Nodup)
    (hfind : ∀ i ∈ l, findIngress L i.key = some i) (henvoy : ∀ i ∈ l, isEnvoyIngress i)
    (hsame : ∀ i ∈ l, SameLast H i (gen i) (gen' i)) (h : SameStores c d)
    (hlock : d.resourceStoreLock = {})
    (hnames : ∀ i ∈ l, d.names (keyFunc i.toObjectMeta) = ∅) :
    Agree (loopM (initiateIngress gen) l c)
      (syncEnvoyIngresses gen' L (l.map fun i => keyFunc i.toObjectMeta) d) := by
  induction l generalizing c d with
  | nil => exact h
  | cons i l ih =>
    rw [List.map_cons, List.nodup_cons] at hkeys
    rw [List.forall_mem_cons] at hfind henvoy hsame hnames
    have hkey : ingressOf L (keyFunc i.toObjectMeta) = some i := by
      rw [ingressOf, split_keyFunc]
      exact hfind.1
    have hgen := hsame.1
    rw [loopM, List.map_cons, syncEnvoyIngresses, loopM, syncWith_found hkey]
    cases hxs : gen i with
    | error e =>
      cases hys : gen' i with
      | error e' =>
        rw [initiateIngress, syncFoundIngress, if_pos henvoy.1, if_pos henvoy.1, hxs, hys]
        trivial
      | ok ys =>
        rw [hxs, hys] at hgen
        exact hgen.elim
    | ok xs =>
      cases hys : gen' i with
      | error e' =>
        rw [hxs, hys] at hgen
        exact hgen.elim
      | ok ys =>
        rw [hxs, hys] at hgen
        obtain ⟨hgenerated, hgenerated', hlast⟩ := hgen
        obtain ⟨c', d', hc', hd', h', hlock', hothers⟩ :=
          h.turn henvoy.1 hxs hys hgenerated hgenerated' hlast hlock hnames.1
        rw [hc', hd', ok_bind, ok_bind, ok_bind]
        refine ih hkeys.2 hfind.2 henvoy.2 hsame.2 h' hlock' fun j hj => ?_
        rw [hothers _ fun he => hkeys.1 (List.mem_map.mpr ⟨j, hj, he⟩)]
        exact hnames.2 j hj

def Controller.emptied (c : Controller) : Controller :=
  { c with resourceStore := ∅, ingressToResourceNameStore := ∅, resourceStoreLock := {} }

/-- From empty stores `initiateEnvoyResources` and one `syncEnvoyIngress` per ingress of this
controller, in the same order, both fail or end with the same names and, versions apart, the same
resources, whatever orders the services are listed in.  Beside different keys this takes services
that are apart, and no v1 ingress of another class that hides a v1beta1 one. -/
theorem startup_agrees_with_sync (H : Digest) (o o' : Ingress → Listing L)
    (hkeys : ((startupIngresses L).map (·.key)).Nodup)
    (hclass : ∀ j ∈ L.ingresses.objects, ∀ i ∈ startupIngresses L, j.key = i.key →
      isEnvoyIngress j)
    (hapart : ∀ i ∈ startupIngresses L, ServicesApart H L i) (c : Controller) :
    Agree (initiateWith (fun i => collect H L (o i) i) L c.emptied)
      (syncEnvoyIngresses (fun i => collect H L (o' i) i) L
        ((startupIngresses L).map fun i => keyFunc i.toObjectMeta) c.emptied) := by
  have hkeyFuncs : ((startupIngresses L).map fun i => keyFunc i.toObjectMeta).Nodup := by
    rw [List.nodup_map_iff_inj_on hkeys.of_map]
    intro i hi j hj hkey
    exact List.inj_on_of_nodup_map hkeys hi hj (keyFunc_inj hkey)
  rw [initiateWith, initiate_filter]
  refine agree_loop hkeyFuncs (fun i hi => findIngress_of_startup hkeys hclass hi)
    (fun i hi => (List.mem_filter.mp hi).2)
    (fun i hi => collect_sameLast (hapart i hi) (o i) (o' i)) (.refl _) rfl ?_
  intro i _
  rfl

namespace Sample

/-- A v1 ingress `web` of another class. -/
def otherWeb : Ingress where
  toObjectMeta := objectMeta (str "web") (web [] []).name_valid
    (AList.singleton ingressClassAnnotation (str "nginx"))

/-- A v1beta1 ingress `web` of this controller. -/
def olderWeb : V1beta1.Ingress where
  toObjectMeta := objectMeta (str "web") (web [] []).name_valid (ingressAnnotations (str "edge"))
  rules := [⟨str "a.example", some [⟨str "/", none, ⟨str "svc", .int 80⟩⟩]⟩]

def withHidden : Listers :=
  { withService ∅ with
    ingresses := ⟨[otherWeb], by simp⟩
    v1beta1Ingresses := ⟨[olderWeb], by simp⟩ }

end Sample

open Sample

/-- Two ingresses that share a service, and the services in either order: both ways end, and the
stores they leave agree. -/
theorem startup_agrees_with_sync_swapped :
    ∃ c d, initiateWith (fun i => collect digest cpuAndDisk (.same _) i) cpuAndDisk
        (Controller.emptied {}) = .ok c ∧
      syncEnvoyIngresses (fun i => collect digest cpuAndDisk (swapped ..) i) cpuAndDisk
        ((startupIngresses cpuAndDisk).map fun i => keyFunc i.toObjectMeta)
        (Controller.emptied {}) = .ok d ∧
      SameStores c d ∧ c.resourceStore.objects.length = 7 := by
  have hrun : (initiateWith (fun i => collect digest cpuAndDisk (.same _) i) cpuAndDisk
      (Controller.emptied {})).toOption.map (fun c => c.resourceStore.objects.length) = some 7 := by
    decide +kernel
  obtain ⟨c, hc, hlength⟩ := Option.map_eq_some_iff.mp hrun
  rw [toOption_eq_some] at hc
  have hagree := startup_agrees_with_sync digest (fun _ => .same cpuAndDisk)
    (fun _ => swapped cpu_label disk_label cpu_ne_disk) (by decide +kernel) (by decide +kernel)
    (by decide +kernel) {}
  rw [hc] at hagree
  obtain ⟨d, hd, hsame⟩ := hagree.of_ok
  exact ⟨c, d, hc, hd, hsame, hlength⟩

/-- A v1 ingress of another class hides the v1beta1 one from the sync, which returns an error.
With two services of one load assignment name, each order leaves another one. -/
theorem startup_differs_from_sync :
    (((startupIngresses withHidden).map (·.key)).Nodup ∧
      ¬ Agree (initiateEnvoyResources digest withHidden (Controller.emptied {}))
        (syncEnvoyIngresses (envoyResourcesForIngress digest withHidden) withHidden
          ((startupIngresses withHidden).map fun i => keyFunc i.toObjectMeta)
          (Controller.emptied {}))) ∧
    ((startupIngresses collectors).map (·.key)).Nodup ∧
      ¬ Agree (initiateWith (collect collectorDigest collectors (.same _)) collectors
          (Controller.emptied {}))
        (syncEnvoyIngresses (collect collectorDigest collectors (swapped ..)) collectors
          ((startupIngresses collectors).map fun i => keyFunc i.toObjectMeta)
          (Controller.emptied {})) := by
  refine ⟨⟨by decide +kernel, fun h => ?_⟩, by decide +kernel, fun h => ?_⟩
  · exact absurd (h.spec_eq (str "default/web_default_envoyroute")) (by decide +kernel)
  · exact absurd (h.spec_eq sharedAssignment) (by decide +kernel)

end KubeEdge.Envoy
