import KubeEdge.Envoy.Store

namespace KubeEdge.Envoy
open Go Controller

/-- Nothing but `key` refers to the resource stored under `r`. -/
def Orphaned (key : GoString) (c : Controller) (r : GoString) : Prop :=
  ∃ R, c.entry r = some R ∧ GoSet.isEmpty (R.release key).ingressRef

/-- What releasing the keys `rs` of a deleted ingress does. -/
structure Released (key : GoString) (rs : List GoString) (c c' : Controller) : Prop where
  entry : ∀ r, c'.entry r = if r ∈ rs then (c.entry r).map (·.release key) else c.entry r
  names : ∀ k, c'.names k = c.names k
  lc : c'.lc = c.lc
  enqueued : ∀ q, q ∈ c'.resourceQueue ↔ q ∈ c.resourceQueue ∨ (q ∈ rs ∧ Orphaned key c q)

variable {key r : GoString} {rs fresh : List GoString} {gen xs : List Resource}
  {err : Option GoString} {c c' c₁ : Controller} {ingress : Ingress} {x : Resource}

theorem releaseTurn_ok (h : releaseTurn key c r = .ok c') : Released key [r] c c' := by
  obtain ⟨lock, -, h⟩ := ok_of_bind h
  cases hentry : c.entry r with
  | none =>
    rw [hentry] at h
    cases h
    refine ⟨?_, fun _ => rfl, rfl, ?_⟩
    · intro r'
      change c.entry r' = _
      by_cases hr : r' = r
      · subst hr
        simp [hentry]
      · simp [hr]
    · intro q
      refine (or_iff_left ?_).symm
      rintro ⟨hq, R, hR, -⟩
      rw [List.mem_singleton.mp hq, hentry] at hR
      cases hR
  | some R =>
    rw [hentry] at h
    have hkey := key_of_entry hentry
    have horphan : Orphaned key c r ↔ GoSet.isEmpty (R.release key).ingressRef := by
      simp [Orphaned, hentry]
    cases h
    refine ⟨?_, ?_, ?_, ?_⟩
    · intro r'
      by_cases hr : r' = r
      · subst hr
        split_ifs <;> simp_all
      · split_ifs <;> simp_all
    · intro k
      split_ifs <;> rfl
    · split_ifs <;> rfl
    · intro q
      by_cases hq : q = r
      · subst hq
        split_ifs with he <;> simp_all
      · split_ifs with he <;> simp_all

theorem Released.cons (hr : r ∉ rs) (h₁ : Released key [r] c c₁) (h : Released key rs c₁ c') :
    Released key (r :: rs) c c' := by
  have hother {r' : GoString} (hr' : r' ∈ rs) : c₁.entry r' = c.entry r' := by
    rw [h₁.entry, if_neg]
    rintro hm
    exact hr (List.mem_singleton.mp hm ▸ hr')
  refine ⟨?_, fun k => (h.names k).trans (h₁.names k), h.lc.trans h₁.lc, ?_⟩
  · intro r'
    rw [h.entry]
    by_cases hr' : r' ∈ rs
    · simp [hr', hother hr']
    · rw [if_neg hr', h₁.entry]
      simp [hr']
  · intro q
    rw [h.enqueued, h₁.enqueued, or_assoc]
    refine or_congr Iff.rfl ?_
    have horphan : q ∈ rs → (Orphaned key c₁ q ↔ Orphaned key c q) := by
      intro hq
      rw [Orphaned, Orphaned, hother hq]
    rw [List.mem_singleton, List.mem_cons, or_and_right]
    exact or_congr Iff.rfl (and_congr_right horphan)

theorem releaseLoop_ok (hrs : rs.Nodup) (h : loopM (releaseTurn key) rs c = .ok c') :
    Released key rs c c' := by
  induction rs generalizing c with
  | nil =>
    cases h
    exact ⟨by simp, fun _ => rfl, rfl, by simp⟩
  | cons r rs ih =>
    obtain ⟨hr, hrs⟩ := List.nodup_cons.mp hrs
    obtain ⟨c₁, h₁, h⟩ := ok_of_bind h
    exact (releaseTurn_ok h₁).cons hr (ih hrs h)

/-- What releasing those of the keys `rs` that are not fresh does. -/
structure Dropped (key : GoString) (fresh rs : List GoString) (c c' : Controller) : Prop where
  entry : ∀ r, c'.entry r =
    if r ∈ rs ∧ r ∉ fresh then (c.entry r).map (·.release key) else c.entry r
  names : ∀ k, k ≠ key → c'.names k = c.names k
  mem_names : ∀ r, r ∈ c'.names key ↔
    r ∈ c.names key ∧ ¬ (r ∈ rs ∧ r ∉ fresh ∧ Orphaned key c r)
  lc : c'.lc = c.lc
  enqueued : ∀ q, q ∈ c'.resourceQueue ↔
    q ∈ c.resourceQueue ∨ (q ∈ rs ∧ q ∉ fresh ∧ Orphaned key c q)

/-- The loop over all names of an ingress releases those that are generated no more. -/
theorem Dropped.entry_gen (h : Dropped key (gen.map (·.key)) (c.names key).keys c c')
    (r : GoString) :
    c'.entry r = if r ∈ c.names key ∧ ¬ ∃ x ∈ gen, x.key = r then
      (c.entry r).map (·.release key) else c.entry r := by
  have hentry := h.entry r
  simpa [← AList.mem_keys, List.mem_map] using hentry

theorem staleTurn_ok (h : staleTurn key fresh c r = .ok c') : Dropped key fresh [r] c c' := by
  unfold staleTurn at h
  split_ifs at h with hf
  · cases h
    exact ⟨by simp_all, fun _ _ => rfl, by simp_all, rfl, by simp_all⟩
  obtain ⟨-, -, h⟩ := ok_of_bind h
  cases hentry : c.entry r with
  | none =>
    rw [hentry] at h
    cases h
    have hnot : ¬ Orphaned key c r := by simp [Orphaned, hentry]
    exact ⟨by simp_all, fun _ _ => rfl, by simp_all, rfl, by simp_all⟩
  | some R =>
    rw [hentry] at h
    have hkey := key_of_entry hentry
    have horphan : Orphaned key c r ↔ GoSet.isEmpty (R.release key).ingressRef := by
      simp [Orphaned, hentry]
    cases h
    refine ⟨?_, ?_, ?_, ?_, ?_⟩
    · intro r'
      by_cases hr : r' = r
      · subst hr
        split_ifs <;> simp_all
      · split_ifs <;> simp_all
    · intro k hk
      split_ifs <;> simp [hk]
    · intro r'
      by_cases hr : r' = r
      · subst hr
        split_ifs <;> simp_all
      · split_ifs <;> simp_all
    · split_ifs <;> rfl
    · intro q
      by_cases hq : q = r
      · subst hq
        split_ifs with he <;> simp_all
      · split_ifs with he <;> simp_all

theorem Dropped.cons (hr : r ∉ rs) (h₁ : Dropped key fresh [r] c c₁)
    (h : Dropped key fresh rs c₁ c') :
    Dropped key fresh (r :: rs) c c' := by
  have hother {r' : GoString} (hr' : r' ∈ rs) : c₁.entry r' = c.entry r' := by
    rw [h₁.entry, if_neg]
    rintro ⟨hm, -⟩
    exact hr (List.mem_singleton.mp hm ▸ hr')
  have horphan {q : GoString} (hq : q ∈ rs) : Orphaned key c₁ q ↔ Orphaned key c q := by
    rw [Orphaned, Orphaned, hother hq]
  refine ⟨?_, fun k hk => (h.names k hk).trans (h₁.names k hk), ?_, h.lc.trans h₁.lc, ?_⟩
  · intro r'
    rw [h.entry]
    by_cases hr' : r' ∈ rs
    · simp [hr', hother hr']
    · rw [if_neg (fun hm => hr' hm.1), h₁.entry]
      simp [hr']
  · intro r'
    rw [h.mem_names, h₁.mem_names, List.mem_singleton, List.mem_cons]
    by_cases hr' : r' ∈ rs
    · rw [horphan hr']
      tauto
    · tauto
  · intro q
    rw [h.enqueued, h₁.enqueued, List.mem_singleton, List.mem_cons]
    by_cases hq : q ∈ rs
    · rw [horphan hq]
      tauto
    · tauto

theorem staleLoop_ok (hrs : rs.Nodup) (h : loopM (staleTurn key fresh) rs c = .ok c') :
    Dropped key fresh rs c c' := by
  induction rs generalizing c with
  | nil =>
    cases h
    exact ⟨by simp, fun _ _ => rfl, by simp, rfl, by simp⟩
  | cons r rs ih =>
    obtain ⟨hr, hrs⟩ := List.nodup_cons.mp hrs
    obtain ⟨c₁, h₁, h⟩ := ok_of_bind h
    exact (staleTurn_ok h₁).cons hr (ih hrs h)

/-- The resource stored under `r` refers to the ingress `k`. -/
def Controller.Refers (c : Controller) (k r : GoString) : Prop :=
  ∃ R, c.entry r = some R ∧ k ∈ R.ingressRef

/-- What one turn of either insertion loop does with the generated resource `x`.  The
groups of a resource that exists are left alone, and so are the names of `key`. -/
structure Turned (key : GoString) (x : Resource) (c c' : Controller) : Prop where
  other : ∀ r, r ≠ x.key → c'.entry r = c.entry r
  entry : ∃ R', c'.entry x.key = some R' ∧ R'.spec = x.spec ∧
    R'.ns = ((c.entry x.key).map (·.ns)).getD x.ns ∧
    R'.name = ((c.entry x.key).map (·.name)).getD x.name ∧
    R'.nodeGroup = ((c.entry x.key).map (·.nodeGroup)).getD x.nodeGroup ∧
    ∀ k, k ∈ R'.ingressRef ↔
      k = key ∨ k ∈ ((c.entry x.key).map (·.ingressRef)).getD x.ingressRef
  names : ∀ k, k ≠ key → c'.names k = c.names k
  mem_names : ∀ r, r ∈ c'.names key ↔ r ∈ c.names key ∨ (r = x.key ∧ c.entry r = none)
  lc : c'.lc = c.lc
  enqueued : ∀ q, q ∈ c'.resourceQueue → q ∈ c.resourceQueue ∨ q = x.key
  keeps : ∀ q, q ∈ c.resourceQueue → q ∈ c'.resourceQueue
  enqueues : c.entry x.key = none → x.key ∈ c'.resourceQueue

theorem createResource_turned (h : c.entry x.key = none) :
    Turned key x c (createResource key c x) where
  other r hr := by
    unfold createResource
    rw [entry_enqueue, entry_setNames, entry_setEntry]
    exact if_neg hr
  entry := by
    refine ⟨{ x with ingressRef := GoSet.add key x.ingressRef }, ?_, ?_⟩
    · unfold createResource
      rw [entry_enqueue, entry_setNames, entry_setEntry]
      exact if_pos rfl
    · simp [h]
  names k hk := by
    unfold createResource
    simp [hk]
  mem_names r := by
    unfold createResource
    simp only [names_enqueue, names_setNames, if_true, GoSet.mem_add]
    constructor
    · rintro (rfl | hr)
      · exact .inr ⟨rfl, h⟩
      · exact .inl hr
    · rintro (hr | ⟨rfl, -⟩)
      · exact .inr hr
      · exact .inl rfl
  lc := rfl
  enqueued q hq := by
    change q ∈ GoSet.add x.key c.resourceQueue at hq
    rw [GoSet.mem_add] at hq
    exact hq.symm
  keeps q hq := GoSet.mem_add.mpr (.inr hq)
  enqueues _ := GoSet.mem_add.mpr (.inl rfl)

theorem turned_of_entry {res : Resource} {v : GoString} (h : c.entry x.key = some res)
    (hentry : ∀ r, c'.entry r = if r = res.key then some { res with
      ingressRef := GoSet.add key res.ingressRef, spec := x.spec, resourceVersion := v }
      else c.entry r)
    (hnames : ∀ k, c'.names k = c.names k) (hlc : c'.lc = c.lc)
    (hqueue : c'.resourceQueue = c.resourceQueue ∨
      c'.resourceQueue = GoSet.add res.key c.resourceQueue) : Turned key x c c' := by
  rw [key_of_entry h] at hentry hqueue
  have hnone (r : GoString) : ¬ (r = x.key ∧ c.entry r = none) := by
    rintro ⟨rfl, hn⟩
    rw [h] at hn
    cases hn
  refine ⟨?_, ⟨_, (hentry _).trans (if_pos rfl), by simp [h]⟩, fun k _ => hnames k, ?_, hlc, ?_, ?_,
    fun hn => absurd ⟨rfl, hn⟩ (hnone _)⟩
  · intro r hr
    rw [hentry, if_neg hr]
  · intro r
    rw [hnames, or_iff_left (hnone r)]
  · rcases hqueue with hqueue | hqueue <;> simp +contextual [hqueue, or_comm]
  · rcases hqueue with hqueue | hqueue <;> simp +contextual [hqueue]

section

variable (key) (c) (x)

theorem insertResource_turned : Turned key x c (insertResource key c x) := by
  unfold insertResource
  cases h : c.entry x.key with
  | none => exact createResource_turned h
  | some res =>
    exact turned_of_entry h (fun r => entry_setEntry ..) (fun _ => rfl) rfl (.inr rfl)

theorem mem_resourceQueue_insertResource : x.key ∈ (insertResource key c x).resourceQueue := by
  unfold insertResource
  cases h : c.entry x.key with
  | none => exact (createResource_turned h).enqueues h
  | some res => exact GoSet.mem_add.mpr (.inl (key_of_entry h).symm)

theorem initiateResource_turned : Turned key x c (initiateResource key c x) := by
  unfold initiateResource
  cases h : c.entry x.key with
  | none => exact createResource_turned h
  | some res =>
    dsimp only
    split_ifs with hspec
    · rw [← hspec]
      exact turned_of_entry h (fun r => entry_setEntry ..) (fun _ => rfl) rfl (.inl rfl)
    · exact turned_of_entry h (fun r => entry_setEntry ..) (fun _ => rfl) rfl (.inr rfl)

end

/-- The last of `xs` under the key `r`. -/
def lastAt (xs : List Resource) (r : GoString) : Option Resource :=
  xs.reverse.find? fun x => x.key = r

theorem lastAt_append (xs ys : List Resource) (r : GoString) :
    lastAt (xs ++ ys) r = (lastAt ys r).or (lastAt xs r) := by
  unfold lastAt
  rw [List.reverse_append, List.find?_append]

theorem lastAt_eq_none : lastAt xs r = none ↔ ∀ x ∈ xs, x.key ≠ r := by simp [lastAt]

theorem mem_of_lastAt (h : lastAt xs r = some x) : x ∈ xs ∧ x.key = r :=
  ⟨List.mem_reverse.mp (List.mem_of_find?_eq_some h), by simpa using List.find?_some h⟩

/-- What a whole insertion loop over resources generated for one ingress does. -/
structure Upserted (ingress : Ingress) (xs : List Resource) (c c' : Controller) : Prop where
  other : ∀ r, (∀ x ∈ xs, x.key ≠ r) → c'.entry r = c.entry r
  entry : ∀ x ∈ xs, ∃ R', c'.entry x.key = some R' ∧ (lastAt xs x.key).map (·.spec) = some R'.spec ∧
    R'.ns = ((c.entry x.key).map (·.ns)).getD x.ns ∧
    R'.name = ((c.entry x.key).map (·.name)).getD x.name ∧
    R'.nodeGroup = ((c.entry x.key).map (·.nodeGroup)).getD (GoSet.ofList (nodeGroupsOf ingress)) ∧
    ∀ k, k ∈ R'.ingressRef ↔ k = keyFunc ingress.toObjectMeta ∨ c.Refers k x.key
  names : ∀ k, k ≠ keyFunc ingress.toObjectMeta → c'.names k = c.names k
  mem_names : ∀ r, r ∈ c'.names (keyFunc ingress.toObjectMeta) ↔
    r ∈ c.names (keyFunc ingress.toObjectMeta) ∨ ((∃ x ∈ xs, x.key = r) ∧ c.entry r = none)
  lc : c'.lc = c.lc
  enqueued : ∀ q, q ∈ c'.resourceQueue → q ∈ c.resourceQueue ∨ ∃ x ∈ xs, x.key = q
  keeps : ∀ q, q ∈ c.resourceQueue → q ∈ c'.resourceQueue
  enqueues : ∀ x ∈ xs, c.entry x.key = none → x.key ∈ c'.resourceQueue

theorem Generated.name_eq {H : Digest} {y : Resource} (hx : Generated H ingress x)
    (hy : Generated H ingress y) (h : x.key = y.key) : x.name = y.name := by
  unfold Resource.key at h
  rw [hx.ns_eq, hy.ns_eq] at h
  exact envoyResourceKeyFunc_inj h

theorem Upserted.nil (ingress : Ingress) (c : Controller) : Upserted ingress [] c c :=
  ⟨fun _ _ => rfl, by simp, fun _ _ => rfl, by simp, rfl, fun _ => .inl, fun _ => id, by simp⟩

section

variable {H : Digest}

theorem exists_mem_concat {p : Resource → Prop} :
    (∃ y ∈ xs ++ [x], p y) ↔ (∃ y ∈ xs, p y) ∨ p x := by
  simp [or_and_right, exists_or]

/-- The entry that the last turn of a loop has written; an earlier turn may have written it, too. -/
theorem Upserted.entry_last (hxs : ∀ y ∈ xs, Generated H ingress y) (hx : Generated H ingress x)
    (h : Upserted ingress xs c c₁) (ht : Turned (keyFunc ingress.toObjectMeta) x c₁ c') :
    ∃ R', c'.entry x.key = some R' ∧ R'.spec = x.spec ∧
      R'.ns = ((c.entry x.key).map (·.ns)).getD x.ns ∧
      R'.name = ((c.entry x.key).map (·.name)).getD x.name ∧
      R'.nodeGroup =
        ((c.entry x.key).map (·.nodeGroup)).getD (GoSet.ofList (nodeGroupsOf ingress)) ∧
      ∀ k, k ∈ R'.ingressRef ↔ k = keyFunc ingress.toObjectMeta ∨ c.Refers k x.key := by
  obtain ⟨R, hR, hspec, hns, hname, hgroup, href⟩ := ht.entry
  refine ⟨R, hR, hspec, ?_⟩
  by_cases hbefore : ∃ z ∈ xs, z.key = x.key
  · obtain ⟨z, hz, hzx⟩ := hbefore
    have hzg := hxs z hz
    obtain ⟨R₁, hR₁, -, hns₁, hname₁, hgroup₁, href₁⟩ := h.entry z hz
    rw [hzx] at hR₁ hns₁ hname₁ hgroup₁ href₁
    rw [hR₁] at hns hname hgroup href
    refine ⟨?_, ?_, ?_, ?_⟩
    · rw [hns]
      simpa [hzg.ns_eq, hx.ns_eq] using hns₁
    · rw [hname]
      simpa [hzg.name_eq hx hzx] using hname₁
    · rw [hgroup]
      exact hgroup₁
    · intro k
      rw [href]
      simp only [Option.map_some, Option.getD_some, href₁]
      tauto
  · have hold : c₁.entry x.key = c.entry x.key :=
      h.other _ fun z hz he => hbefore ⟨z, hz, he⟩
    rw [hold] at hns hname hgroup href
    refine ⟨hns, hname, by rw [hgroup, hx.nodeGroup_eq], ?_⟩
    intro k
    rw [href, hx.ingressRef_eq]
    unfold Controller.Refers
    cases c.entry x.key <;> simp

theorem Upserted.mem_names_concat (h : Upserted ingress xs c c₁)
    (ht : Turned (keyFunc ingress.toObjectMeta) x c₁ c') (r : GoString) :
    r ∈ c'.names (keyFunc ingress.toObjectMeta) ↔ r ∈ c.names (keyFunc ingress.toObjectMeta) ∨
      ((∃ y ∈ xs ++ [x], y.key = r) ∧ c.entry r = none) := by
  rw [ht.mem_names, h.mem_names, exists_mem_concat, or_assoc]
  refine or_congr Iff.rfl ?_
  by_cases hr : ∃ y ∈ xs, y.key = r
  · obtain ⟨y, hy, rfl⟩ := hr
    obtain ⟨R₁, hR₁, -⟩ := h.entry y hy
    simp only [hR₁, reduceCtorEq, and_false, or_false]
    constructor
    · rintro ⟨-, hn⟩
      exact ⟨.inl ⟨y, hy, rfl⟩, hn⟩
    · rintro ⟨-, hn⟩
      exact ⟨⟨y, hy, rfl⟩, hn⟩
  · rw [h.other r fun y hy he => hr ⟨y, hy, he⟩]
    rw [or_and_right, eq_comm (a := r)]

theorem Upserted.concat (hxs : ∀ y ∈ xs, Generated H ingress y) (hx : Generated H ingress x)
    (h : Upserted ingress xs c c₁) (ht : Turned (keyFunc ingress.toObjectMeta) x c₁ c') :
    Upserted ingress (xs ++ [x]) c c' := by
  constructor
  case other =>
    intro r hr
    rw [List.forall_mem_append] at hr
    rw [ht.other r (hr.2 x (by simp)).symm, h.other r hr.1]
  case entry =>
    intro y hy
    by_cases hyx : y.key = x.key
    · obtain ⟨R, hR, hspec, hns, hname, hrest⟩ := h.entry_last hxs hx ht
      have hyg : Generated H ingress y := by
        rcases List.mem_append.mp hy with hy | hy
        · exact hxs y hy
        · rw [List.mem_singleton.mp hy]
          exact hx
      have hyns : y.ns = x.ns := hyg.ns_eq.trans hx.ns_eq.symm
      have hyname : y.name = x.name := hyg.name_eq hx hyx
      rw [hyx, hyns, hyname]
      exact ⟨R, hR, by simp [lastAt, hspec], hns, hname, hrest⟩
    · have hy' : y ∈ xs := by
        rcases List.mem_append.mp hy with hy | hy
        · exact hy
        · exact absurd (congrArg Resource.key (List.mem_singleton.mp hy)) hyx
      obtain ⟨R₁, hR₁, hlast, hrest⟩ := h.entry y hy'
      have hx' : lastAt [x] y.key = none := lastAt_eq_none.mpr (by simpa using Ne.symm hyx)
      refine ⟨R₁, (ht.other _ hyx).trans hR₁, ?_, hrest⟩
      rw [lastAt_append, hx', Option.none_or, hlast]
  case names =>
    intro k hk
    rw [ht.names k hk, h.names k hk]
  case mem_names => exact h.mem_names_concat ht
  case lc => exact ht.lc.trans h.lc
  case enqueued =>
    intro q hq
    rw [exists_mem_concat]
    rcases ht.enqueued q hq with hq | rfl
    · exact (h.enqueued q hq).imp_right .inl
    · exact .inr (.inr rfl)
  case keeps => exact fun q hq => ht.keeps q (h.keeps q hq)
  case enqueues =>
    intro y hy hn
    by_cases hbefore : ∃ z ∈ xs, z.key = y.key
    · obtain ⟨z, hz, hzy⟩ := hbefore
      rw [← hzy] at hn ⊢
      exact ht.keeps _ (h.enqueues z hz hn)
    · have hy : y = x := by
        rcases List.mem_append.mp hy with hy | hy
        · exact absurd ⟨y, hy, rfl⟩ hbefore
        · exact List.mem_singleton.mp hy
      subst hy
      refine ht.enqueues ?_
      rw [h.other _ fun z hz he => hbefore ⟨z, hz, he⟩]
      exact hn

end

theorem foldl_upserted {H : Digest} (turn : Controller → Resource → Controller)
    (hturn : ∀ c x, Turned (keyFunc ingress.toObjectMeta) x c (turn c x))
    (hxs : ∀ x ∈ xs, Generated H ingress x) (c : Controller) :
    Upserted ingress xs c (xs.foldl turn c) := by
  induction xs using List.reverseRecOn with
  | nil => exact Upserted.nil ingress c
  | append_singleton xs x ih =>
    rw [List.forall_mem_append] at hxs
    rw [List.foldl_concat]
    exact (ih hxs.1).concat hxs.1 (hxs.2 x (by simp)) (hturn _ x)

theorem mem_resourceQueue_foldl_insert (key : GoString) (c : Controller) (hx : x ∈ xs) :
    x.key ∈ (xs.foldl (insertResource key) c).resourceQueue := by
  induction xs using List.reverseRecOn with
  | nil => cases hx
  | append_singleton xs y ih =>
    rw [List.foldl_concat]
    rcases List.mem_append.mp hx with hx | hx
    · exact (insertResource_turned _ _ y).keeps _ (ih hx)
    · rw [List.mem_singleton.mp hx]
      exact mem_resourceQueue_insertResource _ _ y

variable {H : Digest} {L : Listers}

/-- What syncing a deleted ingress does. -/
structure Deleted (key : GoString) (c c' : Controller) : Prop where
  entry : ∀ r, c'.entry r =
    if r ∈ c.names key then (c.entry r).map (·.release key) else c.entry r
  names : ∀ k, k ≠ key → c'.names k = c.names k
  names_key : ∀ r, r ∉ c'.names key
  lc : c'.lc = c.lc
  enqueued : ∀ q, q ∈ c'.resourceQueue ↔
    q ∈ c.resourceQueue ∨ (q ∈ c.names key ∧ Orphaned key c q)

theorem syncDeletedIngress_ok (h : syncDeletedIngress key c = .ok (c', err)) :
    Deleted key c c' := by
  obtain ⟨c₁, h₁, h⟩ := ok_of_bind h
  cases h
  have hrel := releaseLoop_ok (AList.keys_nodup _) h₁
  have herase (s : GoMap GoString (GoSet GoString)) (k : GoString) :
      ((s.erase key).lookup k).getD ∅ = if k = key then ∅ else (s.lookup k).getD ∅ := by
    rw [GoMap.lookup_erase]
    split_ifs <;> rfl
  refine ⟨?_, ?_, ?_, hrel.lc, hrel.enqueued⟩
  · intro r
    refine (hrel.entry r).trans ?_
    simp only [AList.mem_keys]
    rfl
  · intro k hk
    refine (herase _ k).trans ?_
    rw [if_neg hk]
    refine (hrel.names k).trans ((herase _ k).trans ?_)
    rw [if_neg hk]
    rfl
  · intro r hr
    have hnames : names { c₁ with
        ingressToResourceNameStore := c₁.ingressToResourceNameStore.erase key } key = ∅ :=
      (herase _ key).trans (if_pos rfl)
    rw [hnames] at hr
    exact AList.notMem_empty r hr

theorem findIngress_key {k : GoString × GoString} (h : findIngress L k = some ingress) :
    ingress.key = k := by
  rcases Option.or_eq_some_iff.mp h with h | ⟨-, h⟩
  · exact (Indexer.get_eq_some.mp h).2
  · obtain ⟨i, hi, rfl⟩ := Option.map_eq_some_iff.mp h
    exact (Indexer.get_eq_some.mp hi).2

/-- The ingress a sync of `key` works on. -/
def ingressOf (L : Listers) (key : GoString) : Option Ingress :=
  (splitMetaNamespaceKey key).bind (findIngress L)

theorem keyFunc_of_ingressOf (h : ingressOf L key = some ingress) :
    key = keyFunc ingress.toObjectMeta := by
  obtain ⟨k, hk, hfind⟩ := Option.bind_eq_some_iff.mp h
  exact keyFunc_of_split (findIngress_key hfind ▸ hk)

/-- Syncing `key` finds an ingress of this controller and generates `gen` for it. -/
structure Syncs (H : Digest) (L : Listers) (key : GoString) (ingress : Ingress)
    (gen : List Resource) : Prop where
  find : ingressOf L key = some ingress
  envoy : isEnvoyIngress ingress
  generates : envoyResourcesForIngress H L ingress = .ok gen

theorem Syncs.key_eq (h : Syncs H L key ingress gen) : key = keyFunc ingress.toObjectMeta :=
  keyFunc_of_ingressOf h.find

theorem Syncs.unique {ingress' : Ingress} {gen' : List Resource} (h : Syncs H L key ingress gen)
    (h' : Syncs H L key ingress' gen') :
    ingress' = ingress ∧ gen' = gen := by
  obtain rfl := Option.some.inj (h'.find.symm.trans h.find)
  exact ⟨rfl, Except.ok.inj (h'.generates.symm.trans h.generates)⟩

/-- Syncing `key` finds no ingress. -/
def Gone (L : Listers) (key : GoString) : Prop :=
  (splitMetaNamespaceKey key).isSome ∧ ingressOf L key = none

theorem Gone.not_syncs (h : Gone L key) (ingress : Ingress) (gen : List Resource) :
    ¬ Syncs H L key ingress gen := by
  intro hsync
  have hnone := h.2
  rw [hsync.find] at hnone
  cases hnone

/-- The outcomes of `syncEnvoyIngress`. -/
inductive Synced (H : Digest) (L : Listers) (key : GoString) (c c' : Controller) : Prop
  /-- The key is no key, or its ingress is of another class. -/
  | skipped (hother : ∀ ingress, ingressOf L key = some ingress → ¬ isEnvoyIngress ingress)
      (hthere : ¬ Gone L key) (h : c' = c)
  | deleted (hgone : Gone L key) (h : Deleted key c c')
  | found (ingress : Ingress) (gen : List Resource) (c₁ : Controller)
      (hsync : Syncs H L key ingress gen)
      (hdrop : Dropped key (gen.map (·.key)) (c.names key).keys c c₁)
      (hup : Upserted ingress gen c₁ c')
      (hqueued : ∀ x ∈ gen, x.key ∈ c'.resourceQueue)

theorem syncFoundIngress_ok (hfind : ingressOf L (keyFunc ingress.toObjectMeta) = some ingress)
    (h : syncFoundIngress (envoyResourcesForIngress H L) (keyFunc ingress.toObjectMeta) ingress c =
      .ok (c', err)) :
    Synced H L (keyFunc ingress.toObjectMeta) c c' := by
  unfold syncFoundIngress at h
  split_ifs at h with henvoy
  · obtain ⟨gen, hgen, h⟩ := ok_of_bind h
    obtain ⟨c₁, h₁, h⟩ := ok_of_bind h
    obtain ⟨-, -, h⟩ := ok_of_bind h
    cases h
    have hdrop := staleLoop_ok (AList.keys_nodup _) h₁
    have hup := foldl_upserted (insertResource (keyFunc ingress.toObjectMeta))
      (insertResource_turned _) (fun x hx => generated_of_mem hgen hx)
      { c₁ with ingressNodeGroupStore :=
          (c₁.ingressNodeGroupStore.insert (keyFunc ingress.toObjectMeta)
            (recordedGroups c₁.lc ingress)) }
    refine Synced.found ingress gen c₁ ⟨hfind, henvoy, hgen⟩ ?_ ?_ ?_
    · refine ⟨hdrop.entry, ?_, ?_, hdrop.lc, hdrop.enqueued⟩
      · intro k hk
        rw [hdrop.names k hk, names_setNames, if_neg hk]
      · intro r
        rw [hdrop.mem_names, names_setNames, if_pos rfl]
        rfl
    · exact ⟨hup.other, hup.entry, hup.names, hup.mem_names, hup.lc, hup.enqueued, hup.keeps,
        hup.enqueues⟩
    · exact fun x hx => mem_resourceQueue_foldl_insert _ _ hx
  · cases h
    refine Synced.skipped ?_ ?_ rfl
    · intro ingress' hfind'
      obtain rfl := Option.some.inj (hfind.symm.trans hfind')
      exact henvoy
    · rintro ⟨-, hnone⟩
      rw [hfind] at hnone
      cases hnone

theorem syncEnvoyIngress_ok (h : syncEnvoyIngress H L key c = .ok (c', err)) :
    Synced H L key c c' := by
  unfold syncEnvoyIngress syncWith at h
  cases hsplit : splitMetaNamespaceKey key with
  | none =>
    rw [hsplit] at h
    cases h
    refine Synced.skipped ?_ ?_ rfl
    · intro ingress hfind
      simp [ingressOf, hsplit] at hfind
    · rintro ⟨hsome, -⟩
      simp [hsplit] at hsome
  | some k =>
    rw [hsplit] at h
    dsimp only at h
    have hof : ingressOf L key = findIngress L k := by simp [ingressOf, hsplit]
    cases hfind : findIngress L k with
    | none =>
      rw [hfind] at h
      exact Synced.deleted ⟨by simp [hsplit], hof.trans hfind⟩ (syncDeletedIngress_ok h)
    | some ingress =>
      rw [hfind] at h hof
      obtain rfl := keyFunc_of_ingressOf hof
      exact syncFoundIngress_ok hof h

/-- The outcomes of `syncEnvoyResource`. -/
inductive ResourceSynced (r : GoString) (c c' : Controller) (ds : List Dispatch) : Prop
  /-- The read lock stays held. -/
  | missing (lock : RWMutex) (hentry : c.entry r = none)
      (h : c' = { c with resourceStoreLock := lock }) (hds : ds = [])
  | inserted (R : Resource) (hentry : c.entry r = some R) (href : ¬ GoSet.isEmpty R.ingressRef)
      (h : c' = c)
      (hds : ds = (nodesToSend c.lc R.nodeGroup).keys.map fun node => ⟨R, .insert, node⟩)
  | deleted (R : Resource) (hentry : c.entry r = some R) (href : GoSet.isEmpty R.ingressRef)
      (h : c' = { c with resourceStore := c.resourceStore.remove r })
      (hds : ds = (nodesToSend c.lc R.nodeGroup).keys.map fun node => ⟨R, .delete, node⟩)

theorem syncEnvoyResource_ok {ds : List Dispatch} (h : syncEnvoyResource r c = .ok (c', ds, err)) :
    ResourceSynced r c c' ds := by
  obtain ⟨lock, -, h⟩ := ok_of_bind h
  cases hentry : c.entry r with
  | none =>
    rw [hentry] at h
    cases h
    exact .missing lock hentry rfl rfl
  | some R =>
    rw [hentry] at h
    by_cases href : GoSet.isEmpty R.ingressRef
    · simp only [href, if_true] at h
      cases h
      exact .deleted R hentry href rfl rfl
    · simp only [href, Bool.false_eq_true, if_false] at h
      cases h
      exact .inserted R hentry href rfl rfl

theorem entry_remove (c : Controller) (r r' : GoString) :
    entry { c with resourceStore := c.resourceStore.remove r } r' =
      if r' = r then none else c.entry r' :=
  Indexer.get_remove _ _ _

theorem ResourceSynced.entry {r' : GoString} {R' : Resource} {ds : List Dispatch}
    (h : ResourceSynced r c c' ds) (hR' : c'.entry r' = some R') : c.entry r' = some R' := by
  cases h with
  | missing lock hentry h hds | inserted R hentry href h hds =>
    subst h
    exact hR'
  | deleted R hentry href h hds =>
    subst h
    rw [entry_remove] at hR'
    split_ifs at hR'
    exact hR'

/-- What `initiateEnvoyResources` does with one ingress: nothing, or it forgets the
recorded names and inserts. -/
theorem initiateIngress_ok (h : initiateIngress (envoyResourcesForIngress H L) c ingress = .ok c') :
    (¬ isEnvoyIngress ingress ∧ c' = c) ∨
    (isEnvoyIngress ingress ∧ ∃ gen c₁, envoyResourcesForIngress H L ingress = .ok gen ∧
      (∀ r, c₁.entry r = c.entry r) ∧
      (∀ k, c₁.names k = if k = keyFunc ingress.toObjectMeta then ∅ else c.names k) ∧
      c₁.lc = c.lc ∧ c₁.resourceQueue = c.resourceQueue ∧ Upserted ingress gen c₁ c') := by
  unfold initiateIngress at h
  split_ifs at h with henvoy
  · obtain ⟨gen, hgen, h⟩ := ok_of_bind h
    cases h
    refine .inr ⟨henvoy, gen, _, hgen, ?_, ?_, ?_, ?_,
      foldl_upserted (initiateResource (keyFunc ingress.toObjectMeta)) (initiateResource_turned _)
        (fun x hx => generated_of_mem hgen hx) _⟩
    · exact fun _ => rfl
    · intro k
      rw [names_setNames]
      rfl
    · rfl
    · rfl
  · cases h
    exact .inl ⟨henvoy, rfl⟩

/-- What happens between two states: a call, with the objects the listers then hold, or
a change of the recorded nodes. -/
inductive Call
  | syncEnvoyIngress (L : Listers) (key : GoString)
  | syncEnvoyResource (r : GoString)
  | nodesChange (lc : LocationCache)

def step (H : Digest) (c : Controller) : Call → Option Controller
  | .syncEnvoyIngress L key => (syncEnvoyIngress H L key c).toOption.map (·.1)
  | .syncEnvoyResource r => (syncEnvoyResource r c).toOption.map (·.1)
  | .nodesChange lc => some { c with lc := lc }

theorem step_of_syncEnvoyIngress (h : syncEnvoyIngress H L key c = .ok (c', err)) :
    step H c (.syncEnvoyIngress L key) = some c' := by
  change (syncEnvoyIngress H L key c).toOption.map (·.1) = some c'
  rw [h]
  rfl

theorem step_syncEnvoyIngress (h : step H c (.syncEnvoyIngress L key) = some c') :
    Synced H L key c c' := by
  obtain ⟨⟨_, err⟩, hcall, rfl⟩ := Option.map_eq_some_iff.mp h
  exact syncEnvoyIngress_ok (toOption_eq_some.mp hcall)

theorem step_syncEnvoyResource (h : step H c (.syncEnvoyResource r) = some c') :
    ∃ ds, ResourceSynced r c c' ds := by
  obtain ⟨⟨_, ds, err⟩, hcall, rfl⟩ := Option.map_eq_some_iff.mp h
  exact ⟨ds, syncEnvoyResource_ok (toOption_eq_some.mp hcall)⟩

/-- Before `initiateEnvoyResources` nothing is stored. -/
structure Controller.Fresh (c : Controller) : Prop where
  entry : ∀ r, c.entry r = none
  names : ∀ k r, r ∉ c.names k

theorem Controller.fresh_empty (lc : LocationCache) : Controller.Fresh { lc := lc } :=
  ⟨fun _ => rfl, fun _ _ => AList.notMem_empty _⟩

end KubeEdge.Envoy
