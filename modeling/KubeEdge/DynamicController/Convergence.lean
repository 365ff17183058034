import KubeEdge.DynamicController.Listener

namespace KubeEdge.DynamicController
open Go Machine SelectorListener
open MetaServer (EventType GVR)

variable {β : Type}

/-- Insert and update set the object, delete removes it. -/
def apply (node : GoMap (GoString × GoString) (Obj β)) (m : Message β) :
    GoMap (GoString × GoString) (Obj β) :=
  match m.operation with
  | .insert | .update => node.insert m.content.key m.content
  | .delete => node.erase m.content.key

def replay (sent : List (Message β)) : GoMap (GoString × GoString) (Obj β) := sent.foldl apply ∅

namespace SelectorListener

/-- The object of the cache, if the listener takes it. -/
def target (l : SelectorListener) (s : World β) (k : GoString × GoString) : Option (Obj β) :=
  (s.cache.lookup k).filter fun o => l.Takes o

/-- What an event makes of the object with a key, once it is sent. -/
def follow (l : SelectorListener) (k : GoString × GoString) (copy : Option (Obj β))
    (e : WatchEvent β) : Option (Obj β) :=
  if l.Takes e.object ∧ e.object.key = k then
    if e.type = .deleted then none else some e.object
  else copy

end SelectorListener

def World.pending (s : World β) : List (WatchEvent β) :=
  s.events ++ s.notifications.filterMap Change.event

/-- The snapshot that `AddListener` still has to send. -/
def Adding.unsent : Adding β → List (WatchEvent β)
  | .sending rets => rets.map fun ret => ⟨.added, ret⟩
  | _ => []

/-- The listener is registered and nothing is pending. -/
def World.Idle (s : World β) : Prop :=
  s.adding = .registered ∧ s.notifications = [] ∧ s.events = []

/-- In an idle state the node has the objects of the cache that the listener takes. -/
def Converged (l : SelectorListener) (s : World β) : Prop :=
  s.Idle → ∀ k, (replay s.sent).lookup k = l.target s k

/-- The node comes to have this once the snapshot is sent. -/
def SelectorListener.listed (l : SelectorListener) (s : World β) (k : GoString × GoString) :
    Option (Obj β) :=
  s.adding.unsent.foldl (l.follow k) ((replay s.sent).lookup k)

/-- The change does not take an object out of the selection, other than by a delete that is
notified with a state that is taken. -/
def SelectorListener.Keeps (l : SelectorListener) (s : World β) : Change β → Prop
  | .add _ => True
  | .update o => (l.target s o.key).isSome → l.Takes o
  | .delete o tombstone => (l.target s o.key).isSome → l.Takes o ∧ tombstone = false

/-- A condition on a step, in the state before it.  What is pending when the cache is listed ends
in what the cache has; from then on no object leaves the selection unnoticed; and an event that
is dispatched before the registration is about an object that the list has brought. -/
def Steady (l : SelectorListener) (s : World β) : Event β → Prop
  | .list => ∀ e ∈ s.pending,
    s.pending.foldl (l.follow e.object.key) (l.target s e.object.key) = l.target s e.object.key
  | .change c =>
    match s.adding with
    | .start => True
    | .sending _ | .registered => l.Keeps s c
  | .dispatch =>
    match s.adding with
    | .sending _ => ∀ e ∈ s.events.head?, l.Takes e.object →
      l.listed s e.object.key = l.target s e.object.key
    | .start | .registered => True
  | .notify | .send | .register => True

instance (l : SelectorListener) (s : World β) (c : Change β) : Decidable (l.Keeps s c) :=
  match c with
  | .add _ => .isTrue trivial
  | .update _ => inferInstanceAs (Decidable (_ → _))
  | .delete _ _ => inferInstanceAs (Decidable (_ → _))

instance [DecidableEq β] (l : SelectorListener) (s : World β) (ev : Event β) :
    Decidable (Steady l s ev) := by
  unfold Steady
  cases ev <;> dsimp only
  case list => infer_instance
  case change => split <;> infer_instance
  case dispatch => split <;> infer_instance
  all_goals exact .isTrue trivial

variable {k : GoString × GoString} {e : WatchEvent β} {c : Change β}

section Follow
variable {l : SelectorListener} {es : List (WatchEvent β)}

theorem lookup_apply (node : GoMap (GoString × GoString) (Obj β)) (m : Message β)
    (k : GoString × GoString) : (apply node m).lookup k =
      if m.content.key = k then if m.operation = .delete then none else some m.content
      else node.lookup k := by
  unfold apply
  cases hop : m.operation with
  | insert | update => simp [GoMap.lookup_insert, eq_comm]
  | delete => simp [GoMap.lookup_erase, eq_comm]

theorem follow_of_ne (hk : e.object.key ≠ k) (copy : Option (Obj β)) : l.follow k copy e = copy :=
  if_neg fun h => hk h.2

theorem follow_of_not_takes (he : ¬ l.Takes e.object) (k : GoString × GoString)
    (copy : Option (Obj β)) : l.follow k copy e = copy :=
  if_neg fun h => he h.1

theorem foldl_follow_of_ne (hes : ∀ e ∈ es, e.object.key ≠ k) (copy : Option (Obj β)) :
    es.foldl (l.follow k) copy = copy := by
  induction es with
  | nil => rfl
  | cons e es ih =>
    rw [List.foldl_cons, follow_of_ne (hes e (.head _))]
    exact ih fun e he => hes e (.tail _ he)

theorem foldl_follow_cases (l : SelectorListener) (k : GoString × GoString)
    (es : List (WatchEvent β)) :
    (∀ copy, es.foldl (l.follow k) copy = copy) ∨
      ∃ last, ∀ copy, es.foldl (l.follow k) copy = last := by
  induction es with
  | nil => exact .inl fun _ => rfl
  | cons e es ih =>
    obtain hid | ⟨last, hlast⟩ := ih
    · by_cases he : l.Takes e.object ∧ e.object.key = k
      · right
        refine ⟨if e.type = .deleted then none else some e.object, fun copy => ?_⟩
        rw [List.foldl_cons, hid, follow, if_pos he]
      · left
        intro copy
        rw [List.foldl_cons, hid, follow, if_neg he]
    · exact .inr ⟨last, fun copy => hlast _⟩

theorem foldl_follow_tail {copy : Option (Obj β)} (h : (e :: es).foldl (l.follow k) copy = copy) :
    es.foldl (l.follow k) copy = copy := by
  obtain hid | ⟨last, hlast⟩ := foldl_follow_cases l k es
  · exact hid copy
  · rw [List.foldl_cons, hlast] at h
    rw [hlast, h]

end Follow

structure Inv (l : SelectorListener) (s : World β) : Prop where
  keyed : ∀ k o, s.cache.lookup k = some o → o.key = k
  fresh : s.adding = .start → s.sent = []
  /-- What the list brings and what is pending end in what the cache has. -/
  arrives : s.adding ≠ .start → ∀ k, s.pending.foldl (l.follow k) (l.listed s k) = l.target s k

section Steps
variable {l : SelectorListener} {s s' : World β}

theorem send_eq (hnode : l.nodeName ≠ []) (hresource : l.gvr.resource ≠ [])
    (h : s.send l e = some s') :
    ∃ sent, s' = { s with sent } ∧
      ∀ k, (replay sent).lookup k = l.follow k ((replay s.sent).lookup k) e := by
  unfold World.send at h
  cases hlabel : l.selector.label with
  | none =>
    -- a nil selector panics
    have hpanic : l.sendObj e = .error .nilDereference := by
      unfold sendObj LabelFieldSelector.matchObj LabelFieldSelector.matches
      rw [hlabel]
      rfl
    rw [hpanic] at h
    cases h
  | some label =>
    obtain ⟨resource, hsend⟩ := sendObj_eq hlabel hnode hresource e
    rw [hsend] at h
    cases h
    refine ⟨_, rfl, fun k => ?_⟩
    unfold follow
    by_cases htakes : l.Takes e.object
    · rw [if_pos htakes, Option.toList_some, replay, List.foldl_concat, lookup_apply]
      have hop : operationOf e.type = .delete ↔ e.type = .deleted := by
        cases e.type <;> simp [operationOf]
      simp [htakes, hop, replay]
    · simp [htakes]

/-- What a change leaves in the cache. -/
def Change.after : Change β → Option (Obj β)
  | .add o | .update o => some o
  | .delete _ _ => none

theorem change_eq (h : s.change c = some s') :
    ∃ cache, s' = { s with cache, notifications := s.notifications ++ [c] } ∧
      ∀ k, cache.lookup k = if k = c.object.key then c.after else s.cache.lookup k := by
  cases c with
  | add o | update o =>
    simp only [World.change] at h
    split_ifs at h
    cases h
    exact ⟨_, rfl, fun k => GoMap.lookup_insert _ _ _ _⟩
  | delete o tombstone =>
    simp only [World.change] at h
    split_ifs at h
    cases h
    exact ⟨_, rfl, fun k => GoMap.lookup_erase _ _ _⟩

theorem follow_event (hadd : ∀ o, c = .add o → s.cache.lookup o.key = none) (hkeeps : l.Keeps s c) :
    c.event.toList.foldl (l.follow c.object.key) (l.target s c.object.key) =
      c.after.filter fun o => l.Takes o := by
  unfold follow
  cases c with
  | add o =>
    have hnone : l.target s o.key = none := by
      rw [target, hadd o rfl, Option.filter_none]
    by_cases htakes : l.Takes o <;>
      simp [Change.event, Change.after, Change.object, htakes, hnone, Option.filter]
  | update o =>
    by_cases htakes : l.Takes o
    · simp [Change.event, Change.after, Change.object, htakes, Option.filter]
    · have hnone : l.target s o.key = none := by
        rw [← Option.not_isSome_iff_eq_none]
        exact mt hkeeps htakes
      simp [Change.event, Change.after, Change.object, htakes, hnone, Option.filter]
  | delete o tombstone =>
    by_cases hsome : (l.target s o.key).isSome
    · obtain ⟨htakes, rfl⟩ := hkeeps hsome
      simp [Change.event, Change.after, Change.object, htakes]
    · have hnone : l.target s o.key = none := Option.not_isSome_iff_eq_none.mp hsome
      cases tombstone <;> simp [Change.event, Change.after, Change.object, hnone]

theorem change_target (hkeeps : l.Keeps s c) (h : s.change c = some s') (k : GoString × GoString) :
    c.event.toList.foldl (l.follow k) (l.target s k) = l.target s' k := by
  have hadd : ∀ o, c = .add o → s.cache.lookup o.key = none := by
    rintro o rfl
    simp only [World.change] at h
    split_ifs at h with hnew
    exact hnew
  obtain ⟨cache, rfl, hcache⟩ := change_eq h
  have htarget : l.target { s with cache, notifications := s.notifications ++ [c] } k =
      (if k = c.object.key then c.after else s.cache.lookup k).filter fun o => l.Takes o := by
    rw [target, ← hcache]
  rw [htarget]
  by_cases hk : k = c.object.key
  · rw [if_pos hk, hk]
    exact follow_event hadd hkeeps
  · rw [if_neg hk]
    apply foldl_follow_of_ne
    intro e he hkey
    have hobject : e.object = c.object := by
      cases c with
      | add o | update o =>
        rw [Change.event, Option.toList_some, List.mem_singleton] at he
        rw [he]
        rfl
      | delete o tombstone =>
        cases tombstone with
        | true => simp [Change.event] at he
        | false =>
          simp only [Change.event, Bool.false_eq_true, if_false, Option.toList_some,
            List.mem_singleton] at he
          rw [he]
          rfl
    exact hk (hkey.symm.trans (by rw [hobject]))

theorem change_inv (h : Inv l s) (hsteady : Steady l s (.change c)) (hs : s.change c = some s') :
    Inv l s' := by
  have htarget := fun hkeeps => change_target (l := l) hkeeps hs
  obtain ⟨cache, rfl, hcache⟩ := change_eq hs
  refine { keyed := ?_, fresh := h.fresh, arrives := ?_ }
  · intro k o hlook
    rw [hcache] at hlook
    split_ifs at hlook with hk
    · cases c with
      | add o' | update o' =>
        cases hlook
        exact hk.symm
      | delete o' tombstone => cases hlook
    · exact h.keyed k o hlook
  · intro hstart k
    have hkeeps : l.Keeps s c := by
      cases hadding : s.adding with
      | start => exact absurd hadding hstart
      | sending rets | registered =>
        rw [Steady, hadding] at hsteady
        exact hsteady
    have hpending : World.pending { s with cache, notifications := s.notifications ++ [c] } =
        s.pending ++ c.event.toList := by
      unfold World.pending
      cases hevent : c.event <;> simp [hevent]
    rw [hpending, List.foldl_append, ← htarget hkeeps k, ← h.arrives hstart k]
    rfl

/-- Sending the list to a node that has nothing gives it what the listener takes. -/
theorem foldl_listed {label : LabelSelector} (hlabel : l.selector.label = some label)
    (hkeyed : ∀ k o, s.cache.lookup k = some o → o.key = k) (k : GoString × GoString) :
    (((s.cache.entries.map (·.2)).filter fun o => label.matches o.labels).map
      fun ret => WatchEvent.mk .added ret).foldl (l.follow k) none = l.target s k := by
  rw [List.foldl_map, List.foldl_filter, GoMap.foldl_values]
  · unfold target
    cases hlook : s.cache.lookup k with
    | none => rfl
    | some o =>
      have hkey := hkeyed k o hlook
      by_cases htakes : l.Takes o
      · obtain ⟨label', hlabel', hlabels, -⟩ := takes_iff.mp htakes
        rw [hlabel] at hlabel'
        cases hlabel'
        simp [follow, htakes, hlabels, hkey, Option.filter]
      · simp [follow, htakes, Option.filter]
  · intro a o hlook ha copy
    have hkey : o.key ≠ k := hkeyed a o hlook ▸ ha
    simp [follow_of_ne (e := ⟨.added, o⟩) hkey]

theorem list_inv (h : Inv l s) (hsteady : Steady l s .list) (hs : step l s .list = some s') :
    Inv l s' := by
  simp only [step] at hs
  split at hs
  case h_2 => cases hs
  case h_1 label hstart hlabel =>
    cases hs
    refine { h with fresh := by simp, arrives := fun _ k => ?_ }
    have hlisted := foldl_listed hlabel h.keyed k
    have hkept : s.pending.foldl (l.follow k) (l.target s k) = l.target s k := by
      by_cases hk : ∃ e ∈ s.pending, e.object.key = k
      · obtain ⟨e, he, rfl⟩ := hk
        exact hsteady e he
      · exact foldl_follow_of_ne (fun e he hkey => hk ⟨e, he, hkey⟩) _
    rw [h.fresh hstart]
    exact (congrArg (s.pending.foldl (l.follow k)) hlisted).trans hkept

theorem notify_inv (h : Inv l s) (hs : step l s .notify = some s') : Inv l s' := by
  simp only [step] at hs
  split at hs
  case h_1 => cases hs
  case h_2 c notifications hnotifications =>
    split_ifs at hs
    cases hs
    have hpending : World.pending
        { s with notifications, events := s.events ++ c.event.toList } = s.pending := by
      unfold World.pending
      rw [hnotifications]
      cases hevent : c.event <;> simp [hevent]
    refine { h with arrives := fun hstart k => ?_ }
    rw [hpending]
    exact h.arrives hstart k

theorem send_inv (hnode : l.nodeName ≠ []) (hresource : l.gvr.resource ≠ []) (h : Inv l s)
    (hs : step l s .send = some s') : Inv l s' := by
  simp only [step] at hs
  split at hs
  case h_2 => cases hs
  case h_1 ret rets hadding =>
    obtain ⟨sent, rfl, hsent⟩ := send_eq hnode hresource hs
    refine { h with fresh := by simp, arrives := fun _ k => ?_ }
    have harrives := h.arrives (by rw [hadding]; simp) k
    unfold listed at harrives ⊢
    rw [hadding] at harrives
    rw [hsent]
    exact harrives

theorem register_inv (h : Inv l s) (hs : step l s .register = some s') : Inv l s' := by
  simp only [step] at hs
  split at hs
  case h_2 => cases hs
  case h_1 hadding =>
    cases hs
    refine { h with fresh := by simp, arrives := fun _ k => ?_ }
    have harrives := h.arrives (by rw [hadding]; simp) k
    unfold listed at harrives ⊢
    rw [hadding] at harrives
    exact harrives

section

variable (hnode : l.nodeName ≠ []) (hresource : l.gvr.resource ≠ []) (h : Inv l s)
include hnode hresource h

theorem dispatch_inv (hsteady : Steady l s .dispatch) (hs : step l s .dispatch = some s') :
    Inv l s' := by
  simp only [step] at hs
  split at hs
  case h_1 => cases hs
  case h_2 e events hevents =>
    have hpending : s.pending = e :: World.pending { s with events } := by
      unfold World.pending
      rw [hevents]
      rfl
    split at hs
    case h_1 hadding =>
      obtain ⟨sent, rfl, hsent⟩ := send_eq hnode hresource hs
      refine { keyed := h.keyed, fresh := by simp [hadding], arrives := fun hstart k => ?_ }
      have harrives := h.arrives hstart k
      unfold listed at harrives ⊢
      rw [hpending, hadding] at harrives
      rw [hsent, hadding]
      exact harrives
    case h_2 hadding =>
      cases hs
      refine { h with arrives := fun hstart k => ?_ }
      have harrives := h.arrives hstart k
      rw [hpending] at harrives
      by_cases htakes : l.Takes e.object
      · by_cases hk : e.object.key = k
        · -- the list has brought what the event was about
          have hlisted : l.listed s k = l.target s k := by
            cases hsending : s.adding with
            | start => exact absurd hsending hstart
            | registered => exact absurd hsending hadding
            | sending rets =>
              rw [Steady, hsending, hevents] at hsteady
              exact hk ▸ hsteady e rfl htakes
          rw [hlisted] at harrives
          have htail := foldl_follow_tail harrives
          rw [← hlisted] at htail
          exact htail.trans hlisted
        · rw [List.foldl_cons, follow_of_ne hk] at harrives
          exact harrives
      · rw [List.foldl_cons, follow_of_not_takes htakes] at harrives
        exact harrives

theorem step_inv {ev : Event β} (hsteady : Steady l s ev) (hs : step l s ev = some s') :
    Inv l s' := by
  cases ev with
  | change c => exact change_inv h hsteady hs
  | notify => exact notify_inv h hs
  | list => exact list_inv h hsteady hs
  | send => exact send_inv hnode hresource h hs
  | register => exact register_inv h hs
  | dispatch => exact dispatch_inv hnode hresource h hsteady hs

end

theorem Inv.converged (h : Inv l s) : Converged l s := by
  rintro ⟨hadding, hnotifications, hevents⟩ k
  have harrives := h.arrives (by rw [hadding]; simp) k
  unfold listed World.pending at harrives
  rw [hadding, hnotifications, hevents] at harrives
  exact harrives

end Steps

/-- The node of a listener comes to have exactly the objects of the cache that the listener
takes, in their current version, on every run in which what the list and the events miss is not
selected. -/
theorem node_converges {l : SelectorListener} (hnode : l.nodeName ≠ [])
    (hresource : l.gvr.resource ≠ []) {es : List (Event β)}
    (h : Along (step l) (Steady l) {} es) : Always (step l) (Converged l) {} es := by
  have hstart : Inv l ({} : World β) :=
    { keyed := by
        intro k o hlook
        cases hlook
      fresh := fun _ => rfl
      arrives := fun hstart => absurd rfl hstart }
  have hinv : Always (step l) (Inv l) {} es := by
    apply always_of_along ?_ hstart h
    intro s ev s' hs hsteady hstep
    exact step_inv hnode hresource hs hsteady hstep
  exact hinv.mono fun s hs => hs.converged

namespace Sample

def current : SelectorListener :=
  ⟨str "n1", pods, ⟨some [⟨str "app", .notEquals, [str "old"]⟩], []⟩⟩

def oldPod : Obj Unit := { pod with labels := AList.insert (str "app") (str "old") ∅ }

/-- The pod is added, and the listener is added once the event has been dispatched. -/
def added : List (Event Unit) :=
  [.change (.add pod), .notify, .dispatch, .list, .send, .register]

/-- A pod comes while the listener is added and is dispatched after it; it is updated and
deleted. -/
def followed : List (Event Unit) :=
  [.list, .change (.add pod), .notify, .register, .dispatch, .change (.update pod), .notify,
    .dispatch, .change (.delete pod false), .notify, .dispatch]

end Sample

open Sample

theorem node_converges_followed :
    (run (step current) {} followed).isSome ∧
      Always (step current) (Converged current) {} followed := by
  refine ⟨by decide +kernel, ?_⟩
  apply node_converges (by decide) (by decide)
  apply along_of_check
  · intro s ev h
    exact of_decide_eq_true h
  · decide +kernel

theorem not_always_converged {l : SelectorListener} {es : List (Event Unit)}
    {a b : Option (Obj Unit)}
    (hidle : (run (step l) {} es).map (fun s => (s.adding, s.notifications, s.events)) =
      some (.registered, [], []))
    (hcopy : (run (step l) {} es).map (fun s => (replay s.sent).lookup k) = some a)
    (hobject : (run (step l) {} es).map (fun s => l.target s k) = some b) (hne : a ≠ b) :
    ¬ Always (step l) (Converged l) {} es := by
  intro halways
  obtain ⟨s, hs, hstate⟩ := Option.map_eq_some_iff.mp hidle
  rw [hs, Option.map_some, Option.some.injEq] at hcopy hobject
  simp only [Prod.mk.injEq] at hstate
  apply hne
  rw [← hcopy, ← hobject]
  exact halways.last hs hstate k

/-- The node keeps a pod whose labels have changed, a pod whose delete was only inferred, and
misses a pod whose event was dispatched between the list and the registration. -/
theorem node_diverges :
    ¬ Always (step current) (Converged current) {}
        (added ++ [.change (.update oldPod), .notify, .dispatch]) ∧
      ¬ Always (step current) (Converged current) {}
        (added ++ [.change (.delete pod true), .notify]) ∧
      ¬ Always (step current) (Converged current) {}
        [.list, .change (.add pod), .notify, .dispatch, .register] := by
  refine ⟨?_, ?_, ?_⟩
  · exact not_always_converged (k := pod.key) (a := some pod) (b := none)
      rfl rfl rfl (by simp)
  · exact not_always_converged (k := pod.key) (a := some pod) (b := none)
      rfl rfl rfl (by simp)
  · exact not_always_converged (k := pod.key) (a := none) (b := some pod)
      rfl rfl rfl (by simp)

end KubeEdge.DynamicController
