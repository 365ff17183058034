import KubeEdge.Envoy.Relisting
import KubeEdge.Envoy.Snapshot

namespace KubeEdge.Envoy
open Go Controller

structure SameResource (R R' : Resource) : Prop where
  name : R'.name = R.name
  ns : R'.ns = R.ns
  spec : R'.spec = R.spec
  resourceVersion : R'.resourceVersion = R.resourceVersion
  nodeGroup : R'.nodeGroup = R.nodeGroup
  ingressRef : ∀ k, k ∈ R'.ingressRef ↔ k ∈ R.ingressRef

structure Undisturbed (c c' : Controller) : Prop where
  entry : ∀ r, Option.Rel SameResource (c.entry r) (c'.entry r)
  names : ∀ k, c'.ingressToResourceNameStore.lookup k = c.ingressToResourceNameStore.lookup k
  groups : ∀ k, c'.ingressNodeGroupStore.lookup k = c.ingressNodeGroupStore.lookup k

/-- The nodes, the groups and the lock stay, and a recorded ingress stays recorded. -/
structure Framed (key : GoString) (c c' : Controller) : Prop where
  lc : c'.lc = c.lc
  groups : c'.ingressNodeGroupStore = c.ingressNodeGroupStore
  lock : c'.resourceStoreLock = c.resourceStoreLock
  recorded : key ∈ c.ingressToResourceNameStore → key ∈ c'.ingressToResourceNameStore

variable {key r : GoString} {fresh rs : List GoString} {c c₁ c' : Controller} {x : Resource}
  {xs : List Resource} {lock : RWMutex}

theorem Framed.refl (key : GoString) (c : Controller) : Framed key c c := ⟨rfl, rfl, rfl, id⟩

theorem Framed.trans (h : Framed key c c₁) (h' : Framed key c₁ c') : Framed key c c' :=
  ⟨h'.lc.trans h.lc, h'.groups.trans h.groups, h'.lock.trans h.lock, h'.recorded ∘ h.recorded⟩

theorem framed_setNames (key : GoString) (c : Controller) (s : GoSet GoString) :
    Framed key c (c.setNames key s) :=
  ⟨rfl, rfl, rfl, fun _ => (AList.mem_insert _).mpr (.inl rfl)⟩

theorem staleTurn_framed (h : staleTurn key fresh c r = .ok c') : Framed key c c' := by
  unfold staleTurn at h
  split_ifs at h
  · cases h
    exact Framed.refl key c
  obtain ⟨-, -, h⟩ := ok_of_bind h
  split at h
  · cases h
    exact Framed.refl key c
  · cases h
    split_ifs
    · exact ⟨rfl, rfl, rfl, (framed_setNames key _ _).recorded⟩
    · exact ⟨rfl, rfl, rfl, id⟩

theorem staleLoop_framed (h : loopM (staleTurn key fresh) rs c = .ok c') : Framed key c c' := by
  refine loopM_invariant (I := fun _ s => Framed key c s) ?_ (Framed.refl key c) h
  exact fun _ _ _ _ hI hturn => hI.trans (staleTurn_framed hturn)

theorem insertResource_framed (key : GoString) (c : Controller) (x : Resource) :
    Framed key c (insertResource key c x) := by
  unfold insertResource
  split
  · exact ⟨rfl, rfl, rfl, (framed_setNames key c _).recorded⟩
  · exact ⟨rfl, rfl, rfl, id⟩

theorem insertLoop_framed (key : GoString) (c : Controller) (xs : List Resource) :
    Framed key c (xs.foldl (insertResource key) c) := by
  induction xs generalizing c with
  | nil => exact Framed.refl key c
  | cons x xs ih => exact (insertResource_framed key c x).trans (ih _)

/-- A recorded resource that is not generated, if it is stored, belongs to others. -/
def Shared (key : GoString) (fresh : List GoString) (c : Controller) (r : GoString) : Prop :=
  r ∉ fresh → ∀ R, c.entry r = some R → key ∉ R.ingressRef ∧ ¬ GoSet.isEmpty R.ingressRef

/-- Every generated resource is stored with its last message and refers to the ingress. -/
def Stored (key : GoString) (xs : List Resource) (c : Controller) : Prop :=
  ∀ r x, lastAt xs r = some x → ∃ R, c.entry r = some R ∧ R.spec = x.spec ∧
    R.resourceVersion = x.resourceVersion ∧ key ∈ R.ingressRef

section

variable (key) (c)

theorem insertResource_stored (x : Resource) :
    ∃ R, (insertResource key c x).entry x.key = some R ∧ R.spec = x.spec ∧
      R.resourceVersion = x.resourceVersion ∧ key ∈ R.ingressRef := by
  unfold insertResource
  cases h : c.entry x.key with
  | none =>
    refine ⟨{ x with ingressRef := GoSet.add key x.ingressRef }, ?_, rfl, rfl, by simp⟩
    unfold createResource
    rw [entry_enqueue, entry_setNames, entry_setEntry]
    exact if_pos rfl
  | some res =>
    refine ⟨{ res with
      ingressRef := GoSet.add key res.ingressRef
      spec := x.spec
      resourceVersion := x.resourceVersion }, ?_, rfl, rfl, by simp⟩
    rw [entry_enqueue, entry_setEntry]
    exact if_pos (key_of_entry h).symm

theorem insertLoop_stored (xs : List Resource) :
    Stored key xs (xs.foldl (insertResource key) c) := by
  induction xs using List.reverseRecOn with
  | nil =>
    intro r x h
    cases h
  | append_singleton xs x ih =>
    intro r y h
    rw [lastAt_append] at h
    rw [List.foldl_concat]
    by_cases hr : x.key = r
    · subst hr
      have hlast : lastAt [x] x.key = some x := by simp [lastAt]
      rw [hlast, Option.some_or, Option.some.injEq] at h
      exact h ▸ insertResource_stored key _ x
    · have hlast : lastAt [x] r = none := by simp [lastAt, hr]
      rw [hlast, Option.none_or] at h
      rw [(insertResource_turned key _ x).other r (Ne.symm hr)]
      exact ih r y h

theorem insertLoop_names (xs : List Resource)
    (h : r ∈ (xs.foldl (insertResource key) c).names key) :
    r ∈ c.names key ∨ ∃ x ∈ xs, x.key = r := by
  induction xs generalizing c with
  | nil => exact .inl h
  | cons x xs ih =>
    rcases ih (insertResource key c x) h with hr | ⟨y, hy, he⟩
    · rcases ((insertResource_turned key c x).mem_names r).mp hr with hr | ⟨rfl, -⟩
      · exact .inl hr
      · exact .inr ⟨x, (.head _), rfl⟩
    · exact .inr ⟨y, .tail _ hy, he⟩

theorem insertLoop_other (xs : List Resource) (hr : ∀ x ∈ xs, x.key ≠ r) :
    (xs.foldl (insertResource key) c).entry r = c.entry r := by
  induction xs generalizing c with
  | nil => rfl
  | cons x xs ih =>
    rw [List.forall_mem_cons] at hr
    rw [List.foldl_cons, ih _ hr.2]
    exact (insertResource_turned key c x).other r (Ne.symm hr.1)

end

theorem Dropped.shared (h : Dropped key fresh (c.names key).keys c c') (hr : r ∈ c'.names key) :
    Shared key fresh c' r := by
  intro hfresh R hR
  obtain ⟨hmem, hkept⟩ := (h.mem_names r).mp hr
  have hnotorphan : ¬ Orphaned key c r :=
    fun ho => hkept ⟨AList.mem_keys.mp hmem, hfresh, ho⟩
  rw [h.entry, if_pos ⟨AList.mem_keys.mp hmem, hfresh⟩] at hR
  obtain ⟨R₀, hR₀, rfl⟩ := Option.map_eq_some_iff.mp hR
  refine ⟨?_, fun hempty => hnotorphan ⟨R₀, hR₀, hempty⟩⟩
  intro hk
  exact ((GoSet.mem_erase).mp hk).1 rfl

/-- Nothing but the queue and the order of the store is changed. -/
structure Unmoved (c c' : Controller) : Prop where
  entry : ∀ r, c'.entry r = c.entry r
  names : c'.ingressToResourceNameStore = c.ingressToResourceNameStore
  groups : c'.ingressNodeGroupStore = c.ingressNodeGroupStore
  lc : c'.lc = c.lc
  lock : c'.resourceStoreLock = c.resourceStoreLock

theorem release_of_notMem {R : Resource} (h : key ∉ R.ingressRef) : R.release key = R := by
  have herase : R.ingressRef.erase key = R.ingressRef := by
    apply AList.ext
    exact List.kerase_of_notMem_keys h
  rw [Resource.release, herase]

theorem staleTurn_shared (hlock : c.resourceStoreLock.lock = .ok lock) (h : Shared key fresh c r) :
    ∃ c', staleTurn key fresh c r = .ok c' ∧ Unmoved c c' := by
  unfold staleTurn
  split_ifs with hfresh
  · exact ⟨c, rfl, fun _ => rfl, rfl, rfl, rfl, rfl⟩
  rw [hlock, ok_bind]
  cases hentry : c.entry r with
  | none => exact ⟨c, rfl, fun _ => rfl, rfl, rfl, rfl, rfl⟩
  | some R =>
    obtain ⟨hkey, hothers⟩ := h hfresh R hentry
    simp only [release_of_notMem hkey, if_neg hothers]
    refine ⟨c.setEntry R, rfl, ?_, rfl, rfl, rfl, rfl⟩
    intro r'
    rw [entry_setEntry, key_of_entry hentry]
    split_ifs with hr
    · rw [hr, hentry]
    · rfl

theorem staleLoop_shared (hlock : c.resourceStoreLock.lock = .ok lock)
    (h : ∀ r ∈ rs, Shared key fresh c r) :
    ∃ c', loopM (staleTurn key fresh) rs c = .ok c' ∧ Unmoved c c' := by
  induction rs generalizing c with
  | nil => exact ⟨c, rfl, fun _ => rfl, rfl, rfl, rfl, rfl⟩
  | cons r rs ih =>
    rw [List.forall_mem_cons] at h
    obtain ⟨c₁, hc₁, h₁⟩ := staleTurn_shared hlock h.1
    have hrest : ∀ r ∈ rs, Shared key fresh c₁ r := by
      intro r' hr' hfresh R hR
      exact h.2 r' hr' hfresh R (by rwa [h₁.entry] at hR)
    obtain ⟨c', hc', h'⟩ := ih (h₁.lock ▸ hlock) hrest
    refine ⟨c', by rw [loopM, hc₁, ok_bind, hc'], ?_⟩
    exact ⟨fun r => (h'.entry r).trans (h₁.entry r), h'.names.trans h₁.names,
      h'.groups.trans h₁.groups, h'.lc.trans h₁.lc, h'.lock.trans h₁.lock⟩

/-- An insertion loop over resources that are stored and refer to the ingress already. -/
structure Refreshed (xs : List Resource) (c c' : Controller) : Prop where
  names : c'.ingressToResourceNameStore = c.ingressToResourceNameStore
  groups : c'.ingressNodeGroupStore = c.ingressNodeGroupStore
  missing : ∀ r, c.entry r = none → c'.entry r = none
  entry : ∀ r R, c.entry r = some R → ∃ R', c'.entry r = some R' ∧ R'.name = R.name ∧
    R'.ns = R.ns ∧ R'.nodeGroup = R.nodeGroup ∧
    R'.spec = ((lastAt xs r).map (·.spec)).getD R.spec ∧
    R'.resourceVersion = ((lastAt xs r).map (·.resourceVersion)).getD R.resourceVersion ∧
    ∀ k, k ∈ R'.ingressRef ↔ k ∈ R.ingressRef

theorem insertResource_refreshed (h : ∃ R, c.entry x.key = some R ∧ key ∈ R.ingressRef) :
    Refreshed [x] c (insertResource key c x) := by
  obtain ⟨res, hres, hkey⟩ := h
  have hk := key_of_entry hres
  set res' : Resource := { res with
    ingressRef := GoSet.add key res.ingressRef
    spec := x.spec
    resourceVersion := x.resourceVersion } with hres'
  have hinsert : insertResource key c x = (c.setEntry res').enqueueEnvoyResource res' := by
    rw [insertResource, hres]
  have hentry : ∀ r, (insertResource key c x).entry r =
      if r = x.key then some res' else c.entry r := by
    intro r
    rw [hinsert, entry_enqueue, entry_setEntry, ← hk]
    rfl
  refine ⟨by rw [hinsert]; rfl, by rw [hinsert]; rfl, ?_, ?_⟩
  · intro r hr
    rw [hentry, if_neg, hr]
    rintro rfl
    rw [hres] at hr
    cases hr
  · intro r R hR
    rw [hentry]
    by_cases hr : r = x.key
    · subst hr
      rw [hres] at hR
      cases hR
      refine ⟨res', if_pos rfl, rfl, rfl, rfl, by simp [lastAt, hres'], by simp [lastAt, hres'], ?_⟩
      intro k
      simp only [hres', GoSet.mem_add, or_iff_right_iff_imp]
      rintro rfl
      exact hkey
    · have hlast : lastAt [x] r = none := by simp [lastAt, Ne.symm hr]
      refine ⟨R, by rw [if_neg hr, hR], rfl, rfl, rfl, ?_, ?_, fun _ => Iff.rfl⟩
      · rw [hlast]
        rfl
      · rw [hlast]
        rfl

theorem Refreshed.cons (h : Refreshed [x] c c₁) (h' : Refreshed xs c₁ c') :
    Refreshed (x :: xs) c c' := by
  refine ⟨h'.names.trans h.names, h'.groups.trans h.groups, ?_, ?_⟩
  · exact fun r hr => h'.missing r (h.missing r hr)
  · intro r R hR
    obtain ⟨R₁, hR₁, hname₁, hns₁, hgroup₁, hspec₁, hversion₁, href₁⟩ := h.entry r R hR
    obtain ⟨R', hR', hname, hns, hgroup, hspec, hversion, href⟩ := h'.entry r R₁ hR₁
    have hlast : lastAt (x :: xs) r = (lastAt xs r).or (lastAt [x] r) := lastAt_append [x] xs r
    refine ⟨R', hR', hname.trans hname₁, hns.trans hns₁, hgroup.trans hgroup₁, ?_, ?_,
      fun k => (href k).trans (href₁ k)⟩
    · rw [hspec, hspec₁, hlast]
      cases lastAt xs r <;> rfl
    · rw [hversion, hversion₁, hlast]
      cases lastAt xs r <;> rfl

theorem insertLoop_refreshed (h : ∀ x ∈ xs, ∃ R, c.entry x.key = some R ∧ key ∈ R.ingressRef) :
    Refreshed xs c (xs.foldl (insertResource key) c) := by
  induction xs generalizing c with
  | nil =>
    refine ⟨rfl, rfl, fun _ => id, ?_⟩
    exact fun r R hR => ⟨R, hR, rfl, rfl, rfl, rfl, rfl, fun _ => Iff.rfl⟩
  | cons x xs ih =>
    rw [List.forall_mem_cons] at h
    have hfirst := insertResource_refreshed h.1
    refine hfirst.cons (ih ?_)
    intro y hy
    obtain ⟨R, hR, hk⟩ := h.2 y hy
    obtain ⟨R', hR', -, -, -, -, -, href⟩ := hfirst.entry y.key R hR
    exact ⟨R', hR', (href key).mpr hk⟩

variable {H : Digest} {L : Listers} {ingress : Ingress} {gen : Ingress → M (List Resource)}

/-- What is stored with its last message is refreshed to what it was. -/
theorem Refreshed.sameResource (h : Refreshed xs c c') (hstored : Stored key xs c) (r : GoString) :
    Option.Rel SameResource (c.entry r) (c'.entry r) := by
  cases hr : c.entry r with
  | none =>
    rw [h.missing r hr]
    exact .none
  | some R =>
    obtain ⟨R', hR', hname, hns, hgroup, hspec, hversion, href⟩ := h.entry r R hr
    rw [hR']
    cases hl : lastAt xs r with
    | none =>
      rw [hl] at hspec hversion
      exact .some ⟨hname, hns, hspec, hversion, hgroup, href⟩
    | some y =>
      obtain ⟨R₀, hR₀, hspec₀, hversion₀, -⟩ := hstored r y hl
      rw [hr] at hR₀
      cases hR₀
      rw [hl] at hspec hversion
      exact .some ⟨hname, hns, hspec.trans hspec₀.symm, hversion.trans hversion₀.symm, hgroup, href⟩

/-- What the stores are like once an ingress is synced. -/
structure Settled (ingress : Ingress) (xs : List Resource) (c : Controller) : Prop where
  stored : Stored (keyFunc ingress.toObjectMeta) xs c
  shared : ∀ r ∈ c.names (keyFunc ingress.toObjectMeta),
    Shared (keyFunc ingress.toObjectMeta) (xs.map (·.key)) c r
  recorded : keyFunc ingress.toObjectMeta ∈ c.ingressToResourceNameStore
  groups : c.ingressNodeGroupStore.lookup (keyFunc ingress.toObjectMeta) =
    some (recordedGroups c.lc ingress)
  lock : ∃ lock, c.resourceStoreLock.lock = .ok lock

theorem syncFoundIngress_settles {err : Option GoString} (henvoy : isEnvoyIngress ingress)
    (h : syncFoundIngress gen (keyFunc ingress.toObjectMeta) ingress c = .ok (c', err)) :
    err = none ∧ ∃ xs, gen ingress = .ok xs ∧ Settled ingress xs c' := by
  rw [syncFoundIngress, if_pos henvoy] at h
  obtain ⟨xs, hgen, h⟩ := ok_of_bind h
  obtain ⟨c₁, h₁, h⟩ := ok_of_bind h
  obtain ⟨lock, hlock, h⟩ := ok_of_bind h
  cases h
  refine ⟨rfl, xs, hgen, ?_⟩
  set key := keyFunc ingress.toObjectMeta
  set c₂ : Controller := { c₁ with
    ingressNodeGroupStore := c₁.ingressNodeGroupStore.insert key (recordedGroups c₁.lc ingress) }
  have hframe := insertLoop_framed key c₂ xs
  have hdrop : Dropped key (xs.map (·.key)) ((c.setNames key (c.names key)).names key).keys
      (c.setNames key (c.names key)) c₁ := by
    rw [names_setNames, if_pos rfl]
    exact staleLoop_ok (AList.keys_nodup _) h₁
  refine ⟨insertLoop_stored key c₂ xs, ?_, ?_, ?_, ?_⟩
  · intro r hr hfresh R hR
    have hother : ∀ x ∈ xs, x.key ≠ r :=
      fun x hx he => hfresh (List.mem_map.mpr ⟨x, hx, he⟩)
    rw [insertLoop_other key c₂ xs hother] at hR
    rcases insertLoop_names key c₂ xs hr with hr | ⟨x, hx, he⟩
    · exact hdrop.shared hr hfresh R hR
    · exact absurd he (hother x hx)
  · exact hframe.recorded ((staleLoop_framed h₁).recorded
      ((AList.mem_insert _).mpr (.inl rfl)))
  · rw [hframe.groups, hframe.lc]
    exact AList.lookup_insert _
  · exact ⟨lock, by rw [hframe.lock]; exact hlock⟩

theorem syncFoundIngress_again (henvoy : isEnvoyIngress ingress) (hgen : gen ingress = .ok xs)
    (hc : Settled ingress xs c) :
    ∃ c', syncFoundIngress gen (keyFunc ingress.toObjectMeta) ingress c = .ok (c', none) ∧
      Undisturbed c c' := by
  set key := keyFunc ingress.toObjectMeta with hkey
  obtain ⟨lock, hlock⟩ := hc.lock
  obtain ⟨s, hs⟩ := GoMap.mem_iff_lookup.mp hc.recorded
  rw [← hkey] at hs
  have hnames : c.names key = s := by simp [names, hs]
  -- the names are written back as they are
  set c₀ := c.setNames key (c.names key) with hc₀
  have hshared : ∀ r ∈ (c.names key).keys, Shared key (xs.map (·.key)) c₀ r :=
    fun r hr => hc.shared r (AList.mem_keys.mpr hr)
  obtain ⟨c₁, hc₁, h₁⟩ := staleLoop_shared (c := c₀) hlock hshared
  have hentry : ∀ r, c₁.entry r = c.entry r := h₁.entry
  set c₂ : Controller := { c₁ with
    ingressNodeGroupStore := c₁.ingressNodeGroupStore.insert key (recordedGroups c₁.lc ingress) }
    with hc₂
  have hstored : Stored key xs c₂ := by
    intro r x hx
    obtain ⟨R, hR, h⟩ := hc.stored r x hx
    exact ⟨R, (hentry r).trans hR, h⟩
  have hrefresh : Refreshed xs c₂ (xs.foldl (insertResource key) c₂) := by
    apply insertLoop_refreshed
    intro x hx
    obtain ⟨y, hy⟩ : ∃ y, lastAt xs x.key = some y :=
      Option.ne_none_iff_exists'.mp fun hnone => lastAt_eq_none.mp hnone x hx rfl
    obtain ⟨R, hR, -, -, href⟩ := hstored x.key y hy
    exact ⟨R, hR, href⟩
  refine ⟨xs.foldl (insertResource key) c₂, ?_, ?_, ?_, ?_⟩
  · rw [syncFoundIngress, if_pos henvoy, hgen, ok_bind]
    simp only [← hc₀, hc₁, ok_bind]
    have hlock₁ : c₁.resourceStoreLock.lock = .ok lock := by
      rw [h₁.lock]
      exact hlock
    rw [hlock₁, ok_bind]
  · intro r
    rw [← hentry r]
    exact hrefresh.sameResource hstored r
  · intro k
    rw [hrefresh.names]
    rw [h₁.names]
    change (c.ingressToResourceNameStore.insert key (c.names key)).lookup k = _
    rw [GoMap.lookup_insert]
    split_ifs with hk
    · rw [hk, hnames, hs]
    · rfl
  · intro k
    rw [hrefresh.groups]
    rw [GoMap.lookup_insert, h₁.groups, h₁.lc]
    split_ifs with hk
    · rw [hk, hc.groups]
      rfl
    · rfl

theorem Settled.congr {ys : List Resource} (h : Settled ingress xs c)
    (hlast : ∀ r, lastAt xs r = lastAt ys r) : Settled ingress ys c := by
  refine ⟨?_, ?_, h.recorded, h.groups, h.lock⟩
  · intro r x hx
    exact h.stored r x ((hlast r).trans hx)
  · intro r hr hfresh
    refine h.shared r hr fun hmem => hfresh ?_
    exact List.mem_map.mpr ((exists_key_congr (hlast r)).mp (List.mem_map.mp hmem))

/-- A second sync of an existing ingress of this controller changes none of the stores, whatever
the orders in which the two list the services, if these are apart. -/
theorem syncEnvoyIngress_idempotent (H : Digest) (L : Listers) (o o' : Listing L) (key : GoString)
    (ingress : Ingress) (c c₁ : Controller) (err : Option GoString)
    (hfind : ingressOf L key = some ingress) (henvoy : isEnvoyIngress ingress)
    (hapart : ServicesApart H L ingress) (h : syncWith (collect H L o) L key c = .ok (c₁, err)) :
    ∃ c₂, syncWith (collect H L o') L key c₁ = .ok (c₂, none) ∧ Undisturbed c₁ c₂ := by
  obtain rfl := keyFunc_of_ingressOf hfind
  rw [syncWith_found hfind] at h ⊢
  obtain ⟨-, xs, hxs, hsettled⟩ := syncFoundIngress_settles henvoy h
  obtain ⟨ys, hys, -, hlast⟩ := collect_relisted hxs o'
  exact syncFoundIngress_again henvoy hys (hsettled.congr (hlast hapart))

open Sample

/-- The ingress `metrics`, synced twice from empty stores with its services in either order. -/
theorem syncEnvoyIngress_idempotent_swapped :
    ∃ c₁ c₂, syncWith (collect digest cpuAndDisk (.same _)) cpuAndDisk (str "default/metrics") {} =
        .ok (c₁, none) ∧
      c₁.resourceStore.objects.length = 6 ∧
      syncWith (collect digest cpuAndDisk (swapped ..)) cpuAndDisk (str "default/metrics") c₁ =
        .ok (c₂, none) ∧
      Undisturbed c₁ c₂ := by
  have hcheck : (syncWith (collect digest cpuAndDisk (.same _)) cpuAndDisk (str "default/metrics")
      {}).toOption.map (fun r => (r.1.resourceStore.objects.length, r.2)) = some (6, none) := by
    decide +kernel
  obtain ⟨⟨c₁, err⟩, hsync, hread⟩ := Option.map_eq_some_iff.mp hcheck
  obtain ⟨hlength, rfl⟩ := Prod.mk.inj hread
  have hsync := toOption_eq_some.mp hsync
  have hfind : ingressOf cpuAndDisk (str "default/metrics") =
      some (metrics (str "cpu") (str "disk")) := rfl
  obtain ⟨c₂, hc₂, hsame⟩ := syncEnvoyIngress_idempotent digest cpuAndDisk (.same _) (swapped ..)
    (str "default/metrics") (metrics (str "cpu") (str "disk")) {} c₁ none hfind
    (by decide +kernel) (by decide +kernel) hsync
  exact ⟨c₁, c₂, hsync, hlength, hc₂, hsame⟩

/-- Two services with one load assignment name: the second sync writes the other one. -/
theorem collectors_disturbed :
    ∃ c₁ c₂, syncWith (collect collectorDigest collectors (.same _)) collectors
        (str "default/metrics") {} = .ok (c₁, none) ∧
      syncWith (collect collectorDigest collectors (swapped ..)) collectors
        (str "default/metrics") c₁ = .ok (c₂, none) ∧
      ¬ Undisturbed c₁ c₂ := by
  have hcheck : (do
      let r ← syncWith (collect collectorDigest collectors (.same _)) collectors
        (str "default/metrics") {}
      let r' ← syncWith (collect collectorDigest collectors (swapped ..)) collectors
        (str "default/metrics") r.1
      .ok (r.2, r'.2, (r.1.entry sharedAssignment).map (·.resourceVersion),
        (r'.1.entry sharedAssignment).map (·.resourceVersion))) =
      (.ok (none, none, some (str "2"), some (str "1")) : M _) := by
    decide +kernel
  obtain ⟨⟨c₁, err⟩, h₁, hcheck⟩ := ok_of_bind hcheck
  obtain ⟨⟨c₂, err'⟩, h₂, hcheck⟩ := ok_of_bind hcheck
  simp only [Except.ok.injEq, Prod.mk.injEq] at hcheck
  obtain ⟨rfl, rfl, hversion, hversion'⟩ := hcheck
  refine ⟨c₁, c₂, h₁, h₂, fun h => ?_⟩
  obtain ⟨R, hR, hold⟩ := Option.map_eq_some_iff.mp hversion
  obtain ⟨R', hR', hnew⟩ := Option.map_eq_some_iff.mp hversion'
  have hsame := h.entry sharedAssignment
  rw [hR, hR'] at hsame
  cases hsame with
  | some hsame =>
    have heq : str "1" = str "2" := by rw [← hold, ← hnew, hsame.resourceVersion]
    exact absurd heq (by decide +kernel)

end KubeEdge.Envoy
