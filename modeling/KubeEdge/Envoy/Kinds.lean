import KubeEdge.Go.Machine
import KubeEdge.Envoy.Agreement

namespace KubeEdge.Envoy
open Go Go.Machine

variable {H : Digest} {L : Listers} {c c' : Controller} {ingress : Ingress}

theorem envoyResourceKeyFunc_inj₂ {ns ns' name name' : GoString} (h : IsDNSLabel ns)
    (h' : IsDNSLabel ns') (heq : envoyResourceKeyFunc ns name = envoyResourceKeyFunc ns' name') :
    ns = ns' ∧ name = name' := by
  unfold envoyResourceKeyFunc at heq
  rw [if_neg h.1, if_neg h'.1] at heq
  exact append_sep_inj h.subdomain.slash h'.subdomain.slash heq

def Resource.Typed (H : Digest) (R : Resource) : Prop :=
  IsDNSLabel R.ns ∧ Named H R.ns R.spec.kind R.name

theorem Resource.Typed.kind_eq {R R' : Resource} (h : R.Typed H) (h' : R'.Typed H)
    (hkey : R.key = R'.key) : R.spec.kind = R'.spec.kind := by
  obtain ⟨-, hname⟩ := envoyResourceKeyFunc_inj₂ h.1 h'.1 hkey
  rw [← h.2.kindOfName_eq, ← h'.2.kindOfName_eq, hname]

theorem Generated.typed {x : Resource} (h : Generated H ingress x) : x.Typed H := by
  unfold Resource.Typed
  rw [h.ns_eq]
  exact ⟨ingress.ns_valid, h.named⟩

/-- Every stored resource has a name of its kind. -/
def Typed (H : Digest) (c : Controller) : Prop := ∀ r R, c.entry r = some R → R.Typed H

theorem Typed.of_released (key : GoString) (hc : Typed H c)
    (h : ∀ r, c'.entry r = c.entry r ∨ c'.entry r = (c.entry r).map (·.release key)) :
    Typed H c' := by
  intro r R' hR'
  rcases h r with he | he
  · exact hc r R' (he ▸ hR')
  · obtain ⟨R, hR, rfl⟩ := Option.map_eq_some_iff.mp (he ▸ hR')
    exact hc r R hR

theorem Typed.upserted {xs : List Resource} (hc : Typed H c) (hxs : ∀ x ∈ xs, Generated H ingress x)
    (h : Upserted ingress xs c c') : Typed H c' := by
  intro r R' hR'
  by_cases hr : ∃ x ∈ xs, x.key = r
  · obtain ⟨x, hx, rfl⟩ := hr
    obtain ⟨R₁, hR₁, hlast, hns, hname, -, -⟩ := h.entry x hx
    obtain rfl := Option.some.inj (hR'.symm.trans hR₁)
    obtain ⟨y, hy, hspec⟩ := Option.map_eq_some_iff.mp hlast
    obtain ⟨hy, hyx⟩ := mem_of_lastAt hy
    have hx' := (hxs x hx).typed
    have hy' := (hxs y hy).typed
    have hsame : R'.ns = y.ns ∧ R'.name = y.name := by
      cases hentry : c.entry x.key with
      | none =>
        obtain ⟨h₁, h₂⟩ := envoyResourceKeyFunc_inj₂ hx'.1 hy'.1 hyx.symm
        simp_all
      | some R =>
        have hkey : R.key = y.key := (Controller.key_of_entry hentry).trans hyx.symm
        obtain ⟨h₁, h₂⟩ := envoyResourceKeyFunc_inj₂ (hc _ R hentry).1 hy'.1 hkey
        simp_all
    unfold Resource.Typed
    rw [hsame.1, hsame.2, ← hspec]
    exact hy'
  · exact hc r R' (h.other r (fun x hx he => hr ⟨x, hx, he⟩) ▸ hR')

theorem typed_step (s : Controller) (call : Call) (s' : Controller) (hs : Typed H s)
    (h : step H s call = some s') : Typed H s' := by
  cases call with
  | syncEnvoyIngress L key =>
    cases step_syncEnvoyIngress h with
    | skipped hother hthere h => exact h ▸ hs
    | deleted hgone h =>
      refine hs.of_released key fun r => ?_
      rw [h.entry]
      split_ifs <;> simp
    | found ingress gen c₁ hsync hdrop hup hqueued =>
      have h₁ : Typed H c₁ := by
        refine hs.of_released key fun r => ?_
        rw [hdrop.entry]
        split_ifs <;> simp
      exact h₁.upserted (fun x hx => generated_of_mem hsync.generates hx) hup
  | syncEnvoyResource r =>
    obtain ⟨ds, h⟩ := step_syncEnvoyResource h
    exact fun r' R' hR' => hs r' R' (h.entry hR')
  | nodesChange lc =>
    cases h
    exact hs

theorem initiateEnvoyResources_typed {c₀ : Controller} (hfresh : c₀.Fresh)
    (h : initiateEnvoyResources H L c₀ = .ok c) : Typed H c := by
  have hfirst : Typed H c₀ := by
    intro r R hR
    rw [hfresh.entry r] at hR
    cases hR
  refine loopM_invariant (I := fun _ c => Typed H c) ?_ hfirst h
  intro done ingress s s' hs h
  rcases initiateIngress_ok h with ⟨-, rfl⟩ | ⟨-, gen, c₁, hgen, hentry, -, -, -, hup⟩
  · exact hs
  · have h₁ : Typed H c₁ := fun r R hR => hs r R (hentry r ▸ hR)
    exact h₁.upserted (fun x hx => generated_of_mem hgen hx) hup

/-- The call leaves every stored resource of the kind it was. -/
def KindsKept (H : Digest) (c : Controller) (call : Call) : Prop :=
  ∀ c', step H c call = some c' → ∀ r R R', c.entry r = some R → c'.entry r = some R' →
    R'.spec.kind = R.spec.kind

theorem kindsKept_step (s : Controller) (call : Call) (s' : Controller) (hs : Typed H s)
    (h : step H s call = some s') : Typed H s' ∧ KindsKept H s call := by
  have hs' := typed_step s call s' hs h
  refine ⟨hs', ?_⟩
  intro c' hc' r R R' hR hR'
  obtain rfl := Option.some.inj (h.symm.trans hc')
  refine (hs' r R' hR').kind_eq (hs r R hR) ?_
  rw [Controller.key_of_entry hR', Controller.key_of_entry hR]

/-- Keys of different kinds differ: as names are made, for whatever ingresses generate,
and along every run of the stores. -/
theorem resource_kinds_never_collide (H : Digest) :
    (∀ ns k₁ k₂ n₁ n₂, Named H ns k₁ n₁ → Named H ns k₂ n₂ → k₁ ≠ k₂ →
      envoyResourceKeyFunc ns n₁ ≠ envoyResourceKeyFunc ns n₂) ∧
    (∀ L₁ L₂ i₁ i₂ gen₁ gen₂, envoyResourcesForIngress H L₁ i₁ = .ok gen₁ →
      envoyResourcesForIngress H L₂ i₂ = .ok gen₂ → ∀ x ∈ gen₁, ∀ y ∈ gen₂,
        x.key = y.key → x.spec.kind = y.spec.kind) ∧
    ∀ L c₀ c₁ calls, c₀.Fresh → initiateEnvoyResources H L c₀ = .ok c₁ →
      Along (step H) (KindsKept H) c₁ calls := by
  refine ⟨?_, ?_, ?_⟩
  · intro ns k₁ k₂ n₁ n₂ h₁ h₂ hne heq
    apply hne
    rw [← h₁.kindOfName_eq, ← h₂.kindOfName_eq, envoyResourceKeyFunc_inj heq]
  · intro L₁ L₂ i₁ i₂ gen₁ gen₂ h₁ h₂ x hx y hy hkey
    exact (generated_of_mem h₁ hx).typed.kind_eq (generated_of_mem h₂ hy).typed hkey
  · intro L c₀ c₁ calls hfresh hinit
    exact along_of_step kindsKept_step calls (initiateEnvoyResources_typed hfresh hinit)

open Sample

/-- A secret and a route of one namespace, and the run that stores two ingresses. -/
theorem cert_and_web_never_collide :
    envoyResourceKeyFunc (str "default") (secretname digest cert) ≠
      envoyResourceKeyFunc (str "default") (routeName digest (web (str "edge") [])) ∧
    initiateEnvoyResources digest {} {} = .ok {} ∧
    Along (step digest) (KindsKept digest) {}
      [.syncEnvoyIngress (webAndShop (str "edge") (str "edge")) (str "default/web"),
       .syncEnvoyIngress (webAndShop (str "edge") (str "edge")) (str "default/shop")] := by
  obtain ⟨hnames, -, hruns⟩ := resource_kinds_never_collide digest
  have hfresh : Controller.Fresh {} := Controller.fresh_empty {}
  have hinit : initiateEnvoyResources digest {} {} = .ok {} := rfl
  exact ⟨hnames _ _ _ _ _ (.secret cert) (.route (web (str "edge") [])) (by decide),
    hinit, hruns {} {} {} _ hfresh hinit⟩

end KubeEdge.Envoy
