import KubeEdge.Envoy.Handlers

namespace KubeEdge.Envoy
open Go

/-- What an informer hands to a delete handler: the object, or a
`cache.DeletedFinalStateUnknown` when the deletion itself was missed. -/
inductive DeletedObject (α : Type)
  | object (obj : α)
  | finalStateUnknown (key : GoString) (obj : Option α)

inductive IngressEvent (α : Type)
  | add (obj : α)
  | update (old cur : α)
  | delete (obj : DeletedObject α)

def IngressEvent.map {α β : Type} (f : α → β) : IngressEvent α → IngressEvent β
  | .add obj => .add (f obj)
  | .update old cur => .update (f old) (f cur)
  | .delete (.object obj) => .delete (.object (f obj))
  | .delete (.finalStateUnknown key obj) => .delete (.finalStateUnknown key (obj.map f))

def handleIngress (c : Controller) : IngressEvent Ingress → M Controller
  | .add ingress => .ok (addIngress ingress c)
  | .update old cur => .ok (updateIngress old cur c)
  | .delete (.object ingress) => .ok (deleteIngress ingress c)
  | .delete (.finalStateUnknown _ (some ingress)) => .ok (deleteIngress ingress c)
  -- a tombstone without an ingress is only reported
  | .delete (.finalStateUnknown _ none) => .ok c

def handleV1beta1Ingress (c : Controller) : IngressEvent V1beta1.Ingress → M Controller
  | .add ingress => .ok (addV1beta1Ingress ingress c)
  | .update old cur => .ok (updateV1beta1Ingress old cur c)
  | .delete (.object ingress) => .ok (deleteV1beta1Ingress ingress c)
  -- the unchecked assertion `obj.(*v1beta1.Ingress)`
  | .delete (.finalStateUnknown _ _) => .error .typeAssertion

/-- The handlers of v1beta1 ingresses leave the keys in the queue that those of v1 ingresses
leave there when they get the converted objects. -/
def QueueRefines (c : Controller) (events : List (IngressEvent V1beta1.Ingress)) : Prop :=
  ∃ a b, loopM handleV1beta1Ingress events c = .ok a ∧
    loopM handleIngress (events.map (IngressEvent.map toV1Ingress)) c = .ok b ∧
    ∀ k, k ∈ a.queue ↔ k ∈ b.queue

/-- An ingress of this controller with that key. -/
def IsEnvoyAt (k : GoString) (ingress : Ingress) : Prop :=
  isEnvoyIngress ingress ∧ keyFunc ingress.toObjectMeta = k

variable {c c' : Controller} {ingress : Ingress} {k : GoString} {e : IngressEvent V1beta1.Ingress}

theorem mem_queue_enqueue : k ∈ (enqueue c ingress).queue ↔ k ∈ c.queue ∨ IsEnvoyAt k ingress := by
  have h : k ∈ ([ingress].foldl enqueue c).queue ↔ _ := mem_queue_foldl_enqueue
  simpa [IsEnvoyAt] using h

theorem mem_queue_addIngress :
    k ∈ (addIngress ingress c).queue ↔ k ∈ c.queue ∨ IsEnvoyAt k ingress := by
  unfold addIngress
  split_ifs with h
  · rw [mem_queue_enqueue]
  · simp [IsEnvoyAt, h]

theorem mem_queue_deleteIngress :
    k ∈ (deleteIngress ingress c).queue ↔ k ∈ c.queue ∨ keyFunc ingress.toObjectMeta = k := by
  unfold deleteIngress
  rw [GoSet.mem_add, eq_comm, or_comm]

theorem mem_queue_updateIngress {old cur : Ingress} :
    k ∈ (updateIngress old cur c).queue ↔
      k ∈ c.queue ∨ (cur.uid ≠ old.uid ∧ IsEnvoyAt k old) ∨ IsEnvoyAt k cur := by
  have hold :
      k ∈ (if cur.uid ≠ old.uid ∧ isEnvoyIngress old then deleteIngress old c else c).queue ↔
      k ∈ c.queue ∨ (cur.uid ≠ old.uid ∧ IsEnvoyAt k old) := by
    unfold IsEnvoyAt
    split_ifs with h
    · rw [mem_queue_deleteIngress]
      simp [h.1, h.2]
    · refine (or_iff_left ?_).symm
      exact fun hk => h ⟨hk.1, hk.2.1⟩
  unfold updateIngress
  rw [← or_assoc, ← hold]
  by_cases h : isEnvoyIngress cur
  · rw [if_pos h]
    exact mem_queue_enqueue
  · rw [if_neg h]
    exact (or_iff_left fun hk => h hk.1).symm

theorem mem_queue_loopM {α : Type} {body : Controller → α → M Controller}
    {queues : α → GoString → Prop}
    (hbody : ∀ c e c', body c e = .ok c' → ∀ k, k ∈ c'.queue ↔ k ∈ c.queue ∨ queues e k)
    {events : List α} (h : loopM body events c = .ok c') (k : GoString) :
    k ∈ c'.queue ↔ k ∈ c.queue ∨ ∃ e ∈ events, queues e k := by
  have hinv := loopM_invariant
    (I := fun done s => ∀ k, k ∈ s.queue ↔ k ∈ c.queue ∨ ∃ e ∈ done, queues e k)
    (fun done e s s' hs he k => ?_) (by simp) h
  · exact hinv k
  · rw [hbody s e s' he, hs]
    simp only [List.mem_append, List.mem_singleton]
    constructor
    · rintro ((hk | ⟨e', he', hk⟩) | hk)
      · exact .inl hk
      · exact .inr ⟨e', .inl he', hk⟩
      · exact .inr ⟨e, .inr rfl, hk⟩
    · rintro (hk | ⟨e', he' | rfl, hk⟩)
      · exact .inl (.inl hk)
      · exact .inl (.inr ⟨e', he', hk⟩)
      · exact .inr hk

namespace IngressEvent

/-- Both versions queue the key: the object is added or deleted, or in an update both objects
belong to this controller, or one does and the UIDs differ. -/
def Steady (k : GoString) : IngressEvent V1beta1.Ingress → Prop
  | .add obj => IsEnvoyAt k (toV1Ingress obj)
  | .update old cur =>
    if old.uid = cur.uid then IsEnvoyAt k (toV1Ingress old) ∧ IsEnvoyAt k (toV1Ingress cur)
    else IsEnvoyAt k (toV1Ingress old) ∨ IsEnvoyAt k (toV1Ingress cur)
  | .delete (.object obj) => keyFunc obj.toObjectMeta = k
  | .delete (.finalStateUnknown _ _) => False

/-- An ingress becomes one of this controller. -/
def Enters (k : GoString) : IngressEvent V1beta1.Ingress → Prop
  | .update old cur => old.uid = cur.uid ∧ ¬ IsEnvoyAt k (toV1Ingress old) ∧
      IsEnvoyAt k (toV1Ingress cur)
  | _ => False

/-- An ingress stops being one of this controller. -/
def Leaves (k : GoString) : IngressEvent V1beta1.Ingress → Prop
  | .update old cur => old.uid = cur.uid ∧ IsEnvoyAt k (toV1Ingress old) ∧
      ¬ IsEnvoyAt k (toV1Ingress cur)
  | _ => False

/-- The event carries an ingress where the handler expects one. -/
def HasObject : IngressEvent V1beta1.Ingress → Prop
  | .delete (.finalStateUnknown _ _) => False
  | _ => True

end IngressEvent

open IngressEvent

theorem mem_queue_handleV1beta1 (h : handleV1beta1Ingress c e = .ok c') (k : GoString) :
    k ∈ c'.queue ↔ k ∈ c.queue ∨ (e.Steady k ∨ e.Leaves k) := by
  match e with
  | .add obj =>
    cases h
    simp only [Steady, Leaves, or_false]
    exact mem_queue_addIngress
  | .delete (.object obj) =>
    cases h
    simp only [Steady, Leaves, or_false]
    exact mem_queue_deleteIngress
  | .delete (.finalStateUnknown key obj) => cases h
  | .update old cur =>
    cases h
    rw [updateV1beta1Ingress, mem_queue_updateIngress]
    refine or_congr_right ?_
    dsimp [Steady, Leaves]
    -- the objects have changed places, so the UIDs guard the current one
    split_ifs with huid
    · simp only [huid]
      tauto
    · tauto

/-- What the handlers of v1 ingresses queue. -/
def Queues (k : GoString) : IngressEvent Ingress → Prop
  | .add ingress => IsEnvoyAt k ingress
  | .update old cur => (cur.uid ≠ old.uid ∧ IsEnvoyAt k old) ∨ IsEnvoyAt k cur
  | .delete (.object ingress) => keyFunc ingress.toObjectMeta = k
  | .delete (.finalStateUnknown _ obj) => ∃ ingress ∈ obj, keyFunc ingress.toObjectMeta = k

theorem mem_queue_handleIngress {e : IngressEvent Ingress} (h : handleIngress c e = .ok c')
    (k : GoString) : k ∈ c'.queue ↔ k ∈ c.queue ∨ Queues k e := by
  match e with
  | .add ingress =>
    cases h
    exact mem_queue_addIngress
  | .update old cur =>
    cases h
    exact mem_queue_updateIngress
  | .delete (.object ingress) =>
    cases h
    exact mem_queue_deleteIngress
  | .delete (.finalStateUnknown key (some ingress)) =>
    cases h
    simpa [Queues] using mem_queue_deleteIngress
  | .delete (.finalStateUnknown key none) =>
    cases h
    simp [Queues]

theorem queues_map_iff (he : e.HasObject) (k : GoString) :
    Queues k (e.map toV1Ingress) ↔ e.Steady k ∨ e.Enters k := by
  match e with
  | .add obj | .delete (.object obj) =>
    simp only [Steady, Enters, or_false]
    rfl
  | .update old cur =>
    dsimp [IngressEvent.map, Queues, Steady, Enters]
    split_ifs with huid
    · simp only [huid]
      tauto
    · have hne : cur.uid ≠ old.uid := fun h => huid h.symm
      tauto

theorem handleV1beta1_returns {events : List (IngressEvent V1beta1.Ingress)} :
    (∃ a, loopM handleV1beta1Ingress events c = .ok a) ↔ ∀ e ∈ events, e.HasObject := by
  constructor
  · rintro ⟨a, h⟩
    refine loopM_invariant (I := fun done _ => ∀ e ∈ done, e.HasObject) ?_ (by simp) h
    intro done e s s' hdone he
    rw [List.forall_mem_append]
    refine ⟨hdone, fun e' he' => ?_⟩
    rw [List.mem_singleton.mp he']
    match e with
    | .add obj | .update old cur | .delete (.object obj) => trivial
    | .delete (.finalStateUnknown key obj) => cases he
  · intro h
    apply loopM_returns
    intro e he s
    have hobj := h e he
    match e with
    | .add obj | .update old cur | .delete (.object obj) => exact ⟨_, rfl⟩
    | .delete (.finalStateUnknown key obj) => exact hobj.elim

theorem handle_returns (events : List (IngressEvent Ingress)) (c : Controller) :
    ∃ b, loopM handleIngress events c = .ok b := by
  apply loopM_returns
  intro e _ s
  match e with
  | .add obj | .update old cur | .delete (.object obj) => exact ⟨_, rfl⟩
  | .delete (.finalStateUnknown key none) => exact ⟨_, rfl⟩
  | .delete (.finalStateUnknown key (some obj)) => exact ⟨_, rfl⟩

/-- The v1beta1 handlers refine the v1 handlers on a sequence of events exactly if no
deletion comes as a tombstone and every key waits already, or is queued by an event on which
the versions agree, or enters this controller in some update of the sequence if and only if it
leaves it in one. -/
theorem v1beta1_refines_v1_iff (c : Controller) (events : List (IngressEvent V1beta1.Ingress)) :
    QueueRefines c events ↔ (∀ e ∈ events, e.HasObject) ∧
      ∀ k, k ∈ c.queue ∨ (∃ e ∈ events, e.Steady k) ∨
        ((∃ e ∈ events, e.Enters k) ↔ ∃ e ∈ events, e.Leaves k) := by
  have hsplit {P Q : IngressEvent V1beta1.Ingress → Prop} :
      (∃ e ∈ events, P e ∨ Q e) ↔ (∃ e ∈ events, P e) ∨ ∃ e ∈ events, Q e := by
    simp [and_or_left, exists_or]
  -- both queues, once the handlers have returned
  have hqueues {a b : Controller} (hobj : ∀ e ∈ events, e.HasObject)
      (ha : loopM handleV1beta1Ingress events c = .ok a)
      (hb : loopM handleIngress (events.map (IngressEvent.map toV1Ingress)) c = .ok b)
      (k : GoString) : (k ∈ a.queue ↔ k ∈ b.queue) ↔ (k ∈ c.queue ∨ (∃ e ∈ events, e.Steady k) ∨
        ((∃ e ∈ events, e.Enters k) ↔ ∃ e ∈ events, e.Leaves k)) := by
    have hka := mem_queue_loopM (fun c e c' h => mem_queue_handleV1beta1 h) ha k
    have hkb := mem_queue_loopM (fun c e c' h => mem_queue_handleIngress h) hb k
    have hmap : (∃ e ∈ events.map (IngressEvent.map toV1Ingress), Queues k e) ↔
        ∃ e ∈ events, e.Steady k ∨ e.Enters k := by
      simp only [List.mem_map, exists_exists_and_eq_and]
      exact exists_congr fun e => and_congr_right fun he => queues_map_iff (hobj e he) k
    rw [hka, hkb, hmap, hsplit, hsplit]
    by_cases hc : k ∈ c.queue
    · simp [hc, true_or]
    · by_cases hs : ∃ e ∈ events, e.Steady k
      · simp [hs, true_or, or_true]
      · simp only [hc, hs, false_or]
        exact iff_comm
  constructor
  · rintro ⟨a, b, ha, hb, hk⟩
    have hobj := handleV1beta1_returns.mp ⟨a, ha⟩
    exact ⟨hobj, fun k => (hqueues hobj ha hb k).mp (hk k)⟩
  · rintro ⟨hobj, hk⟩
    obtain ⟨a, ha⟩ := (handleV1beta1_returns).mpr hobj
    obtain ⟨b, hb⟩ := handle_returns (events.map (IngressEvent.map toV1Ingress)) c
    exact ⟨a, b, ha, hb, fun k => (hqueues hobj ha hb k).mpr (hk k)⟩

namespace Sample

theorem web_valid : IsDNSSubdomain (str "web") := by decide +kernel

/-- A v1beta1 ingress called `web` with some annotations and no rules. -/
def webBeta (annotations : GoMap GoString GoString) : V1beta1.Ingress where
  toObjectMeta := objectMeta (str "web") web_valid annotations

end Sample

open Sample

/-- An update that gives an ingress the class of this controller: `updateIngress` queues it,
`updateV1beta1Ingress` does not. -/
theorem class_change_not_queued : ¬ QueueRefines {}
    [.update (webBeta ∅) (webBeta (ingressAnnotations (str "edge")))] := by
  rintro ⟨a, b, ha, hb, hk⟩
  have hbeta : (loopM handleV1beta1Ingress [.update (webBeta ∅)
      (webBeta (ingressAnnotations (str "edge")))] {}).toOption.map
      (fun c => decide (str "default/web" ∈ c.queue)) = some false := by
    decide +kernel
  have hv1 : (loopM handleIngress ([.update (webBeta ∅)
      (webBeta (ingressAnnotations (str "edge")))].map
      (IngressEvent.map toV1Ingress)) {}).toOption.map
      (fun c => decide (str "default/web" ∈ c.queue)) = some true := by
    decide +kernel
  rw [ha] at hbeta
  rw [hb] at hv1
  have hnot : str "default/web" ∉ a.queue := of_decide_eq_false (Option.some.inj hbeta)
  have hmem : str "default/web" ∈ b.queue := of_decide_eq_true (Option.some.inj hv1)
  exact hnot ((hk _).mpr hmem)

end KubeEdge.Envoy
