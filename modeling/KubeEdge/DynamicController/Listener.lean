import KubeEdge.DynamicController.Selector
import KubeEdge.Go.Machine
import KubeEdge.MetaServer.Watch

namespace KubeEdge.DynamicController
open Go Machine
open MetaServer (EventType GVR nullNamespace parseKey)

variable {β : Type} {l : SelectorListener} {label : LabelSelector}

inductive Operation
  | insert
  | update
  | delete
  deriving DecidableEq, Repr

structure Message (β : Type) where
  resource : GoString
  operation : Operation
  content : Obj β
  deriving DecidableEq

structure WatchEvent (β : Type) where
  type : EventType
  object : Obj β
  deriving DecidableEq

def operationOf : EventType → Operation
  | .added => .insert
  | .modified => .update
  | .deleted => .delete

/-- `sendObj`: the message that is sent, if one is. -/
def SelectorListener.sendObj (l : SelectorListener) (e : WatchEvent β) :
    M (Option (Message β)) := do
  let matched ← l.selector.matchObj e.object
  if ¬ matched then .ok none
  else
    let ns := if e.object.ns = [] then nullNamespace else e.object.ns
    match Envoy.buildResource l.nodeName ns l.gvr.resource e.object.name with
    | .error _ => .ok none
    | .ok resource => .ok (some ⟨resource, operationOf e.type, e.object⟩)

/-- A change of the informer's cache.  A deletion that the informer only infers from a list is
notified as a tombstone, which is not an object. -/
inductive Change (β : Type)
  | add (o : Obj β)
  | update (o : Obj β)
  | delete (last : Obj β) (tombstone : Bool)

def Change.object : Change β → Obj β
  | .add o | .update o | .delete o _ => o

/-- What `objToEvent` makes of a notification. -/
def Change.event : Change β → Option (WatchEvent β)
  | .add o => some ⟨.added, o⟩
  | .update o => some ⟨.modified, o⟩
  | .delete o tombstone => if tombstone then none else some ⟨.deleted, o⟩

/-- Where `AddListener` stands. -/
inductive Adding (β : Type)
  | start
  | sending (rets : List (Obj β))
  | registered

structure World (β : Type) where
  cache : GoMap (GoString × GoString) (Obj β) := ∅
  notifications : List (Change β) := []
  events : List (WatchEvent β) := []
  adding : Adding β := .start
  /-- The messages for the listener's node. -/
  sent : List (Message β) := []

inductive Event (β : Type)
  | change (c : Change β)
  | notify
  | list
  | send
  | register
  | dispatch

namespace World

/-- A change is made where it can be: an object that is added is new, the others are there. -/
def change (s : World β) : Change β → Option (World β)
  | .add o =>
    if s.cache.lookup o.key = none then
      some { s with
        cache := s.cache.insert o.key o
        notifications := s.notifications ++ [.add o] }
    else none
  | .update o =>
    if (s.cache.lookup o.key).isSome then
      some { s with
        cache := s.cache.insert o.key o
        notifications := s.notifications ++ [.update o] }
    else none
  | .delete o tombstone =>
    if (s.cache.lookup o.key).isSome then
      some { s with
        cache := s.cache.erase o.key
        notifications := s.notifications ++ [.delete o tombstone] }
    else none

/-- `sendObj` for the listener; a panic ends the controller. -/
def send (s : World β) (l : SelectorListener) (e : WatchEvent β) : Option (World β) :=
  match l.sendObj e with
  | .ok m => some { s with sent := s.sent ++ m.toList }
  | .error _ => none

end World

/-- A step of the handler with this listener. -/
def step (l : SelectorListener) (s : World β) : Event β → Option (World β)
  | .change c => s.change c
  | .notify =>
    match s.notifications with
    | [] => none
    | c :: notifications =>
      if s.events.length < 100 then
        some { s with notifications, events := s.events ++ c.event.toList }
      else none
  | .list =>
    match s.adding, l.selector.label with
    | .start, some label =>
      let rets := (s.cache.entries.map (·.2)).filter fun o => label.matches o.labels
      some { s with adding := .sending rets }
    | _, _ => none
  | .send =>
    match s.adding with
    | .sending (ret :: rets) => World.send { s with adding := .sending rets } l ⟨.added, ret⟩
    | _ => none
  | .register =>
    match s.adding with
    | .sending [] => some { s with adding := .registered }
    | _ => none
  | .dispatch =>
    match s.events with
    | [] => none
    | e :: events =>
      match s.adding with
      | .registered => World.send { s with events } l e
      | _ => some { s with events }

/-- The object is selected for the listener by its labels and by its fields. -/
def SelectorListener.Takes (l : SelectorListener) (o : Obj β) : Prop :=
  l.selector.matchObj o = .ok true

instance (l : SelectorListener) (o : Obj β) : Decidable (l.Takes o) :=
  inferInstanceAs (Decidable (_ = _))

theorem matchObj_eq (hlabel : l.selector.label = some label) (o : Obj β) :
    l.selector.matchObj o = .ok (label.matches o.labels && label.matches (attrFields o)) := by
  unfold LabelFieldSelector.matchObj LabelFieldSelector.matches
  rw [hlabel]
  rfl

theorem takes_iff {o : Obj β} : l.Takes o ↔ ∃ label,
    l.selector.label = some label ∧ label.matches o.labels ∧ label.matches (attrFields o) := by
  constructor
  · intro h
    cases hlabel : l.selector.label with
    | none =>
      unfold SelectorListener.Takes LabelFieldSelector.matchObj LabelFieldSelector.matches at h
      rw [hlabel] at h
      cases h
    | some label =>
      rw [SelectorListener.Takes, matchObj_eq hlabel] at h
      have hmatch := Except.ok.inj h
      rw [Bool.and_eq_true] at hmatch
      exact ⟨label, rfl, hmatch⟩
  · rintro ⟨label, hlabel, hlabels, hfields⟩
    rw [SelectorListener.Takes, matchObj_eq hlabel, hlabels, hfields]
    rfl

/-- A message that is sent is about the object of the event, which is selected, and has an
address. -/
theorem sendObj_some {e : WatchEvent β} {m : Message β} (h : l.sendObj e = .ok (some m)) :
    m.content = e.object ∧ l.Takes e.object ∧ l.nodeName ≠ [] ∧ l.gvr.resource ≠ [] := by
  unfold SelectorListener.sendObj at h
  cases hmatch : l.selector.matchObj e.object with
  | error f =>
    rw [hmatch] at h
    cases h
  | ok matched =>
    rw [hmatch] at h
    cases matched with
    | false => cases h
    | true =>
      change (match Envoy.buildResource _ _ _ _ with | .error _ => _ | .ok _ => _) = _ at h
      split at h
      · cases h
      case h_2 resource hbuild =>
        cases h
        refine ⟨rfl, hmatch, ?_, ?_⟩
        all_goals
          intro hempty
          rw [hempty] at hbuild
          simp [Envoy.buildResource] at hbuild

/-- Where the message can be addressed, one is sent exactly for an object that is selected. -/
theorem sendObj_eq (hlabel : l.selector.label = some label) (hnode : l.nodeName ≠ [])
    (hresource : l.gvr.resource ≠ []) (e : WatchEvent β) :
    ∃ resource, l.sendObj e = .ok
      (if l.Takes e.object then some ⟨resource, operationOf e.type, e.object⟩ else none) := by
  have hns : (if e.object.ns = [] then nullNamespace else e.object.ns) ≠ [] := by
    split_ifs with hempty
    · decide
    · exact hempty
  have hbuild : ∃ resource, Envoy.buildResource l.nodeName
      (if e.object.ns = [] then nullNamespace else e.object.ns) l.gvr.resource e.object.name =
      .ok resource := by
    unfold Envoy.buildResource
    rw [if_neg (by simp [hns, hnode, hresource])]
    exact ⟨_, rfl⟩
  obtain ⟨resource, hbuild⟩ := hbuild
  refine ⟨resource, ?_⟩
  have hok := matchObj_eq hlabel e.object
  by_cases htakes : l.Takes e.object
  · rw [if_pos htakes]
    unfold SelectorListener.sendObj
    rw [show l.selector.matchObj e.object = .ok true from htakes]
    change (match Envoy.buildResource _ _ _ _ with | .error _ => _ | .ok _ => _) = _
    rw [hbuild]
  · rw [if_neg htakes]
    have hfalse : l.selector.matchObj e.object = .ok false := by
      cases hmatch : label.matches e.object.labels && label.matches (attrFields e.object) with
      | false => rw [hok, hmatch]
      | true => exact absurd (hok.trans (by rw [hmatch])) htakes
    unfold SelectorListener.sendObj
    rw [hfalse]
    rfl

theorem sent_of_step {s s' : World β} {ev : Event β} (h : step l s ev = some s') :
    ∀ m ∈ s'.sent, m ∈ s.sent ∨ ∃ e, l.sendObj e = .ok (some m) := by
  have hsend : ∀ {t t' : World β} {e : WatchEvent β}, t.send l e = some t' →
      ∀ m ∈ t'.sent, m ∈ t.sent ∨ ∃ e, l.sendObj e = .ok (some m) := by
    intro t t' e ht m hm
    unfold World.send at ht
    split at ht
    case h_2 => cases ht
    case h_1 sent hsent =>
      cases ht
      obtain hm | hm := List.mem_append.mp hm
      · exact .inl hm
      · rw [Option.mem_toList] at hm
        cases hm
        exact .inr ⟨e, hsent⟩
  intro m hm
  cases ev with
  | change c =>
    left
    cases c with
    | add o | update o | delete o tombstone =>
      simp only [step, World.change] at h
      split_ifs at h
      cases h
      exact hm
  | notify =>
    simp only [step] at h
    split at h
    · cases h
    · split_ifs at h
      cases h
      exact .inl hm
  | list | register =>
    simp only [step] at h
    split at h
    · cases h
      exact .inl hm
    · cases h
  | send =>
    simp only [step] at h
    split at h
    · exact hsend h m hm
    · cases h
  | dispatch =>
    simp only [step] at h
    split at h
    · cases h
    · split at h
      · exact hsend h m hm
      · cases h
        exact .inl hm

section Confined
variable (parseLabels : GoString → Option LabelSelector)
variable (parseFields : GoString → Option FieldSelector)

/-- The node is sent only objects that it asked for. -/
def Confined (a : Application) (s : World β) : Prop :=
  ∀ m ∈ s.sent, a.AsksFor parseLabels parseFields m.content

/-- The labels that are asked for, tested on the fields of an object, imply the rest of what is
asked for: the field selector and the namespace. -/
def Application.LabelsImply (β : Type) (a : Application) : Prop :=
  ∀ o : Obj β, (parseLabels a.labelSelector).map (·.matches (attrFields o)) = some true →
    (parseFields a.fieldSelector).map (·.matches o.fields) = some true ∧
      ((parseKey a.key).2.1 = [] ∨ o.ns = (parseKey a.key).2.1)

variable {parseLabels parseFields} {a : Application}

theorem toListener_eq (hl : a.toListener parseLabels parseFields = .ok l) :
    l.nodeName = a.nodename ∧ l.gvr = (parseKey a.key).1 ∧
      l.selector.label = parseLabels a.labelSelector := by
  unfold Application.toListener newSelector at hl
  cases hfields : parseFields a.fieldSelector with
  | none =>
    rw [hfields] at hl
    cases hl
  | some field =>
    rw [hfields] at hl
    cases hl
    split_ifs <;> exact ⟨rfl, rfl, rfl⟩

/-- The node of a listener is sent only what it asked for, on every run, exactly where nothing
can be addressed to it or the labels asked for, tested on the fields, imply the rest. -/
theorem listener_confined (hl : a.toListener parseLabels parseFields = .ok l) :
    (∀ es, Always (step l) (Confined (β := β) parseLabels parseFields a) {} es) ↔
      (a.nodename ≠ [] → (parseKey a.key).1.resource ≠ [] →
        a.LabelsImply parseLabels parseFields β) := by
  obtain ⟨hnodeName, hgvr, hlabel⟩ := toListener_eq hl
  constructor
  · intro h hnode hresource o ho
    obtain ⟨label, hparse, hmatches⟩ := Option.map_eq_some_iff.mp ho
    rw [hparse] at hlabel
    -- an object with the same fields whose labels are its fields
    let o' : Obj β := { o with labels := attrFields o }
    have htakes : l.Takes o' := takes_iff.mpr ⟨label, hlabel, hmatches, hmatches⟩
    obtain ⟨resource, hsend⟩ := sendObj_eq hlabel (hnodeName ▸ hnode) (hgvr ▸ hresource)
      (⟨.added, o'⟩)
    rw [if_pos htakes] at hsend
    have hrun : run (step l) {} [.change (.add o'), .list, .send] = some
        { cache := (∅ : GoMap (GoString × GoString) (Obj β)).insert o'.key o'
          notifications := [.add o']
          adding := .sending []
          sent := [⟨resource, .insert, o'⟩] } := by
      have hadd : step l ({} : World β) (.change (.add o')) = some
          { cache := (∅ : GoMap (GoString × GoString) (Obj β)).insert o'.key o'
            notifications := [.add o'] } := rfl
      have hlist : step l
          { cache := (∅ : GoMap (GoString × GoString) (Obj β)).insert o'.key o'
            notifications := [.add o'] } .list = some
          { cache := (∅ : GoMap (GoString × GoString) (Obj β)).insert o'.key o'
            notifications := [.add o']
            adding := .sending [o'] } := by
        simp only [step, hlabel]
        have hentries : ((∅ : GoMap (GoString × GoString) (Obj β)).insert o'.key o').entries.map
            (·.2) = [o'] := rfl
        rw [hentries, List.filter_cons_of_pos (by exact hmatches), List.filter_nil]
      rw [run, hadd, Option.bind_some, run, hlist, Option.bind_some, run]
      simp only [step, World.send]
      rw [hsend]
      rfl
    have hasks := (h _).last hrun _ (.head _)
    exact ⟨hasks.1.2, hasks.2⟩
  · intro himply es
    apply always_of_step ?_ es
    · intro m hm
      cases hm
    · intro s ev s' hs hstep m hm
      obtain hm | ⟨e, he⟩ := sent_of_step hstep m hm
      · exact hs m hm
      · obtain ⟨hcontent, htakes, hnode, hresource⟩ := sendObj_some he
        obtain ⟨label, hlabel', hlabels, hfields⟩ := takes_iff.mp htakes
        rw [hlabel] at hlabel'
        obtain ⟨hfield, hns⟩ := himply (hnodeName ▸ hnode) (hgvr ▸ hresource) e.object
          (by rw [hlabel', Option.map_some, hfields])
        rw [hcontent]
        exact ⟨⟨by rw [hlabel', Option.map_some, hlabels], hfield⟩, hns⟩

end Confined

namespace Sample

def notOld : LabelSelector := [⟨str "app", .notEquals, [str "old"]⟩]

def labels (s : GoString) : Option LabelSelector :=
  if s = [] then some []
  else if s = str "app!=old" then some notOld
  else none

def fields (s : GoString) : Option FieldSelector :=
  if s = [] then some []
  else if s = str "spec.nodeName=n1" then some [⟨str "spec.nodeName", str "n1", false⟩]
  else none

def all : Application := ⟨str "/core/v1/pods/null/null", str "n1", [], []⟩

def labelled : Application := { all with labelSelector := str "app!=old" }

def one : Application := { all with key := str "/core/v1/pods/ns/null" }

def own : Application := { all with fieldSelector := str "spec.nodeName=n1" }

def pods : GVR := ⟨[], str "v1", str "pods"⟩

def listener (field : FieldSelector) : SelectorListener := ⟨str "n1", pods, ⟨some [], field⟩⟩

def pod : Obj Unit := ⟨str "Pod", str "other", str "web", ∅, some (str "n2"), ()⟩

def listed : List (Event Unit) := [.change (.add pod), .list, .send]

end Sample

open Sample

theorem listener_confined_labelled :
    let l : SelectorListener := ⟨str "n1", pods, ⟨some notOld, []⟩⟩
    labelled.toListener labels fields = .ok l ∧
      (run (step l) {} listed).map (·.sent.length) = some 1 ∧
      ∀ es, Always (step l) (Confined (β := Unit) labels fields labelled) {} es := by
  intro l
  have hl : labelled.toListener labels fields = .ok l := by
    decide +kernel
  refine ⟨hl, rfl, (listener_confined hl).mpr ?_⟩
  intro _ _ o _
  exact ⟨rfl, .inl (by decide +kernel)⟩

theorem not_always_confined {parseLabels : GoString → Option LabelSelector}
    {parseFields : GoString → Option FieldSelector} {a : Application} {es : List (Event Unit)}
    {m : Message Unit} (hrun : (run (step l) {} es).map (·.sent) = some [m])
    (hm : ¬ a.AsksFor parseLabels parseFields m.content) :
    ¬ Always (step l) (Confined parseLabels parseFields a) {} es := by
  intro halways
  obtain ⟨s, hs, hsent⟩ := Option.map_eq_some_iff.mp hrun
  exact hm (halways.last hs m (by simp [hsent]))

/-- A node that asks for the pods of one namespace, or for its own pods, is sent a pod of another
namespace and another node. -/
theorem listener_not_confined :
    (one.toListener labels fields =
        .ok (listener [⟨str "metadata.namespace", str "ns", false⟩]) ∧
      ¬ Always (step (listener [⟨str "metadata.namespace", str "ns", false⟩]))
        (Confined labels fields one) {} listed) ∧
    (own.toListener labels fields =
        .ok (listener [⟨str "spec.nodeName", str "n1", false⟩]) ∧
      ¬ Always (step (listener [⟨str "spec.nodeName", str "n1", false⟩]))
        (Confined labels fields own) {} listed) := by
  refine ⟨⟨by decide +kernel, ?_⟩, by decide +kernel, ?_⟩
  · apply not_always_confined
    · rfl
    · rintro ⟨-, h⟩
      revert h
      decide +kernel
  · apply not_always_confined
    · rfl
    · rintro ⟨⟨-, h⟩, -⟩
      revert h
      decide +kernel

end KubeEdge.DynamicController
