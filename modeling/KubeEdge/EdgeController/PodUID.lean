import KubeEdge.EdgeController.PodStatus

namespace KubeEdge.EdgeController.PodStatus
open Go Machine

/-- A pod of this name and UID is in the API server or has left a trace. -/
inductive Known (s : World) (ns name : GoString) : GoString → Prop
  | pod {pod : Pod} (h : s.pods.lookup (ns, name) = some pod) : Known s ns name pod.uid
  | edge {node uid : GoString} (h : s.edge.lookup (node, ns, name) = some uid) : Known s ns name uid
  | down {m : Down} {uid : GoString} (hm : m ∈ s.down) (h : m.uid ns name = some uid) :
      Known s ns name uid
  | report {m : Message} {uid : GoString} (hm : m ∈ s.podStatusChan) (h : uid ∈ m.uids ns name) :
      Known s ns name uid
  | worker {p : Worker} {uid : GoString} (hp : p ∈ s.workers) (h : uid ∈ p.uids ns name) :
      Known s ns name uid

variable {podStatuses : List PodStatusRequest} {p : Worker} {ns' uid : GoString} {status : Status}
  {s s' : World} {ics : List GoString}

theorem mem_requestUIDs {name : GoString} :
    uid ∈ requestUIDs name podStatuses ↔ ∃ p ∈ podStatuses, p.name = name ∧ p.uid = uid := by
  simp [requestUIDs]

theorem Known.pod_of_traces {ns name : GoString} (h : Known s ns name uid)
    (htraces : s.traces ns name = []) : ∃ pod, s.pods.lookup (ns, name) = some pod := by
  simp only [World.traces, List.append_eq_nil_iff, List.filterMap_eq_nil_iff,
    List.flatMap_eq_nil_iff] at htraces
  obtain ⟨⟨⟨hedge, hdown⟩, hreport⟩, hworker⟩ := htraces
  cases h with
  | pod h => exact ⟨_, h⟩
  | edge h =>
    have := hedge _ (AList.mem_lookup_iff.mp h)
    simp at this
  | down hm h => simp [hdown _ hm] at h
  | report hm h => simp [hreport _ hm] at h
  | worker hp h => simp [hworker _ hp] at h

/-- What is in the places of one state is known in another. -/
structure Places (s s' : World) : Prop where
  pod : ∀ k (pod : Pod), s'.pods.lookup k = some pod → Known s k.1 k.2 pod.uid
  edge : ∀ k uid, s'.edge.lookup k = some uid → Known s k.2.1 k.2.2 uid
  down : ∀ m ∈ s'.down, ∀ ns name uid, m.uid ns name = some uid → Known s ns name uid
  report : ∀ m ∈ s'.podStatusChan, ∀ ns name, ∀ uid ∈ m.uids ns name, Known s ns name uid
  worker : ∀ p ∈ s'.workers, ∀ ns name, ∀ uid ∈ p.uids ns name, Known s ns name uid

theorem Places.refl (s : World) : Places s s where
  pod _ _ := .pod
  edge _ _ := .edge
  down _ hm _ _ _ := .down hm
  report _ hm _ _ _ := .report hm
  worker _ hp _ _ _ := .worker hp

theorem Places.known {ns name : GoString} (h : Places s s') (hk : Known s' ns name uid) :
    Known s ns name uid := by
  cases hk with
  | pod hpod => exact h.pod _ _ hpod
  | edge hedge => exact h.edge _ _ hedge
  | down hm hu => exact h.down _ hm _ _ _ hu
  | report hm hu => exact h.report _ hm _ _ _ hu
  | worker hp hu => exact h.worker _ hp _ _ _ hu

/-- What steps other than the making of a pod do: no UID becomes known under a name, and
what is done for a report is done to a pod that was known under the same name. -/
structure Moves (s s' : World) : Prop where
  known : ∀ {ns name uid : GoString}, Known s' ns name uid → Known s ns name uid
  effects : ∀ e ∈ s'.effects, e ∈ s.effects ∨
    ∃ ns name, Known s ns name e.uid ∧ Known s ns name e.reported

namespace Moves
variable {s'' : World} {ns name reported : GoString}

theorem refl (s : World) : Moves s s := ⟨id, fun _ => .inl⟩

theorem trans (h : Moves s s') (h' : Moves s' s'') : Moves s s'' := by
  refine ⟨fun hk => h.known (h'.known hk), ?_⟩
  intro e he
  obtain he | ⟨ns, name, hu, hr⟩ := h'.effects e he
  · exact h.effects e he
  · exact .inr ⟨ns, name, h.known hu, h.known hr⟩

theorem of_places (h : Places s s') (he : s'.effects = s.effects) : Moves s s' :=
  ⟨h.known, fun _ hm => .inl (he ▸ hm)⟩

theorem setPod {pod pod' : Pod} (h : s.pods.lookup (ns, name) = some pod)
    (huid : pod'.uid = pod.uid) (v : ℕ) :
    Moves s { s with pods := s.pods.insert (ns, name) pod', resourceVersion := v } := by
  have hpod : Known s ns name pod'.uid := huid ▸ .pod h
  exact of_places { Places.refl s with pod := GoMap.forall_insert (Places.refl s).pod hpod } rfl

theorem erasePod (s : World) (ns name : GoString) :
    Moves s { s with pods := s.pods.erase (ns, name) } :=
  of_places { Places.refl s with pod := GoMap.forall_erase (Places.refl s).pod _ } rfl

theorem effect (kind : EffectKind) (hu : Known s ns name uid) (hr : Known s ns name reported) :
    Moves s { s with effects := ⟨kind, uid, reported⟩ :: s.effects } := by
  refine ⟨Places.known { Places.refl s with }, ?_⟩
  exact List.forall_mem_cons.mpr ⟨.inr ⟨ns, name, hu, hr⟩, fun _ => .inl⟩

theorem setEdge (node : GoString) (hu : Known s ns name uid) :
    Moves s { s with edge := s.edge.insert (node, ns, name) uid } :=
  of_places { Places.refl s with edge := GoMap.forall_insert (Places.refl s).edge hu } rfl

theorem eraseEdge (s : World) (node ns name : GoString) :
    Moves s { s with edge := s.edge.erase (node, ns, name) } :=
  of_places { Places.refl s with edge := GoMap.forall_erase (Places.refl s).edge _ } rfl

theorem setDown {ms : List Down}
    (h : ∀ m ∈ ms, m ∈ s.down ∨ ∀ ns name uid, m.uid ns name = some uid → Known s ns name uid) :
    Moves s { s with down := ms } :=
  of_places { Places.refl s with down := fun m hm => (h m hm).elim ((Places.refl s).down m) id } rfl

theorem setReports {ms : List Message}
    (h : ∀ m ∈ ms, m ∈ s.podStatusChan ∨
      ∀ ns name, ∀ uid ∈ m.uids ns name, Known s ns name uid) :
    Moves s { s with podStatusChan := ms } :=
  of_places { Places.refl s with
    report := fun m hm => (h m hm).elim ((Places.refl s).report m) id } rfl

theorem setWorker (w : ℕ) (h : ∀ ns name, ∀ uid ∈ p.uids ns name, Known s ns name uid) :
    Moves s (s.setWorker w p) := by
  refine of_places { Places.refl s with worker := fun q hq => ?_ } rfl
  obtain hs | rfl := List.mem_or_eq_of_mem_set hq
  · exact (Places.refl s).worker q hs
  · exact h

end Moves

section Requests
variable {msg : Message} {ns : GoString} {podStatus : PodStatusRequest}
  {rest : List PodStatusRequest}

/-- The goroutine works on these statuses of one message. -/
def Worker.WorksOn (ns : GoString) (podStatuses : List PodStatusRequest) : Worker → Prop
  | .idle => False
  | .get _ ns' podStatus rest | .update _ ns' podStatus _ rest | .delete _ ns' podStatus rest =>
    ns' = ns ∧ podStatuses = podStatus :: rest

theorem Known.of_worksOn (hp : p ∈ s.workers) (h : p.WorksOn ns podStatuses) :
    ∀ q ∈ podStatuses, Known s ns q.name q.uid := by
  intro q hq
  apply Known.worker hp
  cases p with
  | idle => cases h
  | get | delete =>
    obtain ⟨rfl, rfl⟩ := h
    simp only [Worker.uids, if_pos]
    exact mem_requestUIDs.mpr ⟨q, hq, rfl, rfl⟩
  | update =>
    obtain ⟨rfl, rfl⟩ := h
    simp only [Worker.uids, if_pos]
    exact List.mem_append_right _ (mem_requestUIDs.mpr ⟨q, hq, rfl, rfl⟩)

theorem known_of_requestUIDs {name : GoString} (h : ∀ p ∈ podStatuses, Known s ns p.name p.uid)
    (hu : uid ∈ if ns = ns' then requestUIDs name podStatuses else []) : Known s ns' name uid := by
  split_ifs at hu with hns
  · obtain ⟨p, hp, rfl, rfl⟩ := mem_requestUIDs.mp hu
    rw [← hns]
    exact h p hp
  · cases hu

theorem moves_next (w : ℕ) (h : ∀ p ∈ podStatuses, Known s ns p.name p.uid) :
    Moves s (s.setWorker w (World.next msg ns podStatuses)) := by
  apply Moves.setWorker
  intro ns' name uid hu
  cases podStatuses with
  | nil => cases hu
  | cons podStatus rest => exact known_of_requestUIDs h hu

theorem deleteMessage_uid {m : Down} (h : World.deleteMessage msg ns podStatus = some m)
    {name : GoString} (hu : m.uid ns' name = some uid) :
    ns = ns' ∧ podStatus.name = name ∧ podStatus.uid = uid := by
  obtain ⟨node, -, h⟩ := Option.bind_eq_some_iff.mp h
  split at h
  · cases h
  · cases h
    simp only [Down.uid] at hu
    split_ifs at hu with hname
    exact ⟨hname.1, hname.2, Option.some.inj hu⟩

section

variable (hk : Known s ns podStatus.name podStatus.uid)
include hk

theorem updateStatus_moves {getPod updatedPod : Pod}
    (h : s.updateStatus ns podStatus getPod status = some (s', updatedPod)) :
    Moves s s' ∧ s'.workers = s.workers := by
  obtain ⟨pod, hpod, h⟩ := Option.bind_eq_some_iff.mp h
  split_ifs at h
  cases h
  refine ⟨?_, rfl⟩
  apply (Moves.effect .statusUpdated (.pod hpod) hk).trans
  refine Moves.setPod
    (s := { s with effects := ⟨.statusUpdated, pod.uid, podStatus.uid⟩ :: s.effects }) hpod ?_ _
  rfl

theorem deletePod_moves :
    Moves s (s.deletePod ns podStatus) ∧ (s.deletePod ns podStatus).workers = s.workers := by
  unfold World.deletePod
  split
  case h_1 => exact ⟨.refl s, rfl⟩
  case h_2 pod hpod =>
    refine ⟨?_, rfl⟩
    apply (Moves.effect .podDeleted (.pod hpod) hk).trans
    exact Moves.erasePod _ _ _

end

theorem Moves.next_of_worker (h : Moves s s') (hw : s'.workers = s.workers) (hp : p ∈ s.workers)
    (hworks : p.WorksOn ns (podStatus :: rest)) (w : ℕ) :
    Moves s (s'.setWorker w (World.next msg ns rest)) := by
  apply h.trans
  apply moves_next
  intro q hq
  rw [← hw] at hp
  exact .of_worksOn hp hworks q (.tail _ hq)

end Requests

theorem step_moves {w now : ℕ} {answer : Answer} (hp : p ∈ s.workers)
    (h : s.step w answer now p = some s') : Moves s s' := by
  cases p with
  | idle => cases h
  | get msg ns podStatus rest =>
    have hworks : (Worker.get msg ns podStatus rest).WorksOn ns (podStatus :: rest) := ⟨rfl, rfl⟩
    have hknown := Known.of_worksOn hp hworks
    simp only [World.step] at h
    split_ifs at h
    · split at h
      case h_1 getPod hpod =>
        cases h
        apply Moves.setWorker
        intro ns' name uid hu
        simp only [Worker.uids] at hu
        split_ifs at hu with hns hname
        · obtain hu | hu := List.mem_append.mp hu
          · rw [List.mem_singleton.mp hu, ← hns, ← hname]
            exact .pod hpod
          · exact known_of_requestUIDs hknown (by rwa [if_pos hns])
        · exact known_of_requestUIDs hknown (by rwa [if_pos hns])
        · cases hu
      case h_2 =>
        cases h
        have hsend : Moves s
            { s with down := s.down ++ (World.deleteMessage msg ns podStatus).toList } := by
          apply Moves.setDown
          intro m hm
          obtain hm | hm := List.mem_append.mp hm
          · exact .inl hm
          · right
            intro ns' name uid hu
            obtain ⟨rfl, rfl, rfl⟩ := deleteMessage_uid (Option.mem_toList.mp hm) hu
            exact hknown podStatus (.head _)
        exact hsend.next_of_worker rfl hp hworks w
    · cases h
      exact (Moves.refl s).next_of_worker rfl hp hworks w
  | update msg ns podStatus getPod rest =>
    have hworks : (Worker.update msg ns podStatus getPod rest).WorksOn ns (podStatus :: rest) :=
      ⟨rfl, rfl⟩
    have hknown := Known.of_worksOn hp hworks
    simp only [World.step] at h
    split at h
    case h_1 =>
      cases h
      exact (Moves.refl s).next_of_worker rfl hp hworks w
    case h_2 s₁ updatedPod hupdate =>
      split_ifs at hupdate
      obtain ⟨hmoves, hworkers⟩ := updateStatus_moves (hknown _ (.head _)) hupdate
      split_ifs at h
      · cases h
        apply hmoves.trans
        apply Moves.setWorker
        intro ns' name uid hu
        exact known_of_requestUIDs (Known.of_worksOn (hworkers ▸ hp) hworks) hu
      · cases h
        exact hmoves.next_of_worker hworkers hp hworks w
  | delete msg ns podStatus rest =>
    have hworks : (Worker.delete msg ns podStatus rest).WorksOn ns (podStatus :: rest) := ⟨rfl, rfl⟩
    have hknown := Known.of_worksOn hp hworks
    simp only [World.step] at h
    split_ifs at h
    · cases h
      exact (Moves.refl s).next_of_worker rfl hp hworks w
    · cases h
      obtain ⟨hmoves, hworkers⟩ := deletePod_moves (hknown _ (.head _))
      exact hmoves.next_of_worker hworkers hp hworks w

theorem receive_moves {m : Down} (hm : m ∈ s.down) : Moves s (s.receive m) := by
  cases m with
  | pod node ns name uid => exact .setEdge node (.down hm (by simp [Down.uid]))
  | delete node ns name reported =>
    simp only [World.receive]
    split
    case h_1 => exact .refl s
    case h_2 uid hedge =>
      have hk : Known s ns name reported := .down hm (by simp [Down.uid])
      exact (Moves.effect .removedAtEdge (.edge hedge) hk).trans (Moves.eraseEdge _ node ns name)

theorem take_moves (w : ℕ) {msg : Message} (hmsg : msg ∈ s.podStatusChan) :
    Moves s (s.take w msg) := by
  simp only [World.take]
  split_ifs
  · apply moves_next
    intro q hq
    apply Known.report hmsg
    rw [Message.uids, if_pos rfl]
    exact mem_requestUIDs.mpr ⟨q, hq, rfl, rfl⟩
  · exact Moves.refl s

theorem unmarshal_reportMessage {node ns : GoString} (hnode : IsDNSSubdomain node)
    (hns : IsDNSLabel ns) (hnames : ∀ p ∈ podStatuses, IsDNSSubdomain p.name) :
    unmarshalPodStatusMessage (World.reportMessage node ns podStatuses) = (ns, podStatuses) := by
  have hslash : ∀ x ∈ [str "node", node, ns, str "podstatus"], 47 ∉ x := by
    intro x hx
    simp only [List.mem_cons, List.not_mem_nil, or_false] at hx
    obtain rfl | rfl | rfl | rfl := hx
    · decide
    · exact hnode.slash
    · exact hns.subdomain.slash
    · decide
  have hmany : ∀ ps : List PodStatusRequest, unmarshalPodStatusMessage
      { resource := join 47 [str "node", node, ns, str "podstatus"]
        operation := str "update", content := .many ps } = (ns, ps) := by
    intro ps
    simp only [unmarshalPodStatusMessage, Message.getNamespace, Message.getResourceName,
      Message.token, split_join 47 (List.cons_ne_nil _ _) hslash]
    rfl
  rcases podStatuses with _ | ⟨p, _ | ⟨q, ps⟩⟩
  · exact hmany []
  · have hname := hnames p (.head _)
    have hslash : ∀ x ∈ [str "node", node, ns, str "podstatus", p.name], 47 ∉ x := by
      intro x hx
      rw [show [str "node", node, ns, str "podstatus", p.name] =
        [str "node", node, ns, str "podstatus"] ++ [p.name] from rfl, List.mem_append] at hx
      obtain hx | hx := hx
      · exact hslash x hx
      · rw [List.mem_singleton.mp hx]
        exact hname.slash
    simp only [unmarshalPodStatusMessage, World.reportMessage, Message.getNamespace,
      Message.getResourceName, Message.token, split_join 47 (List.cons_ne_nil _ _) hslash]
    exact if_neg hname.1
  · exact hmany (p :: q :: ps)

theorem report_moves {node ns : GoString} (hnode : IsDNSSubdomain node) (hns : IsDNSLabel ns)
    (h : ∀ p ∈ podStatuses, IsDNSSubdomain p.name ∧ s.edge.lookup (node, ns, p.name) = some p.uid) :
    Moves s { s with
      podStatusChan := s.podStatusChan ++ [World.reportMessage node ns podStatuses] } := by
  apply Moves.setReports
  refine forall_mem_snoc (fun _ => .inl) (.inr fun ns' name uid hu => ?_)
  rw [Message.uids, unmarshal_reportMessage hnode hns fun p hp => (h p hp).1] at hu
  exact known_of_requestUIDs (fun p hp => .edge (h p hp).2) hu

theorem moves_of_step {e : Event} (h : step s e = some s')
    (he : ∀ ns name uid ics status, e ≠ .create ns name uid ics status) : Moves s s' := by
  cases e with
  | create ns name uid ics status => exact absurd rfl (he ns name uid ics status)
  | terminate ns name time | write ns name status =>
    obtain ⟨pod, hpod, h⟩ := Option.bind_eq_some_iff.mp h
    cases h
    refine .setPod hpod ?_ _
    rfl
  | remove ns name =>
    cases h
    exact .erasePod s ns name
  | downstream node ns name =>
    obtain ⟨pod, hpod, h⟩ := Option.bind_eq_some_iff.mp h
    cases h
    apply Moves.setDown
    refine forall_mem_snoc (fun _ => .inl) (.inr fun ns' name' uid hu => ?_)
    rw [Down.uid] at hu
    split_ifs at hu with hname
    rw [← Option.some.inj hu, ← hname.1, ← hname.2]
    exact .pod hpod
  | deliver i =>
    obtain ⟨m, hm, h⟩ := Option.bind_eq_some_iff.mp h
    cases h
    have hreceive := receive_moves (List.mem_of_getElem? hm)
    have hcomm : World.receive { s with down := s.down.eraseIdx i } m =
        { s.receive m with down := (s.receive m).down.eraseIdx i } := by
      cases m with
      | pod => rfl
      | delete node ns name reported =>
        simp only [World.receive]
        split <;> rfl
    rw [hcomm]
    exact hreceive.trans (.setDown fun m hm => .inl (List.mem_of_mem_eraseIdx hm))
  | lose i =>
    cases h
    exact .setDown fun m hm => .inl (List.mem_of_mem_eraseIdx hm)
  | drop node ns name =>
    cases h
    exact .eraseEdge s node ns name
  | report node ns podStatuses =>
    simp only [step] at h
    split_ifs at h with hreport
    cases h
    exact report_moves hreport.1 hreport.2.1 hreport.2.2
  | take w i =>
    simp only [step] at h
    split at h
    case h_2 => cases h
    obtain ⟨msg, hmsg, h⟩ := Option.bind_eq_some_iff.mp h
    cases h
    have htake := take_moves w (List.mem_of_getElem? hmsg)
    have hcomm : World.take { s with podStatusChan := s.podStatusChan.eraseIdx i } w msg =
        { s.take w msg with podStatusChan := (s.take w msg).podStatusChan.eraseIdx i } := by
      simp only [World.take]
      split_ifs <;> rfl
    rw [hcomm]
    exact htake.trans (.setReports fun m hm => .inl (List.mem_of_mem_eraseIdx hm))
  | step w answer now =>
    obtain ⟨p, hp, h⟩ := Option.bind_eq_some_iff.mp h
    exact step_moves (List.mem_of_getElem? hp) h

/-- At most one UID is known under each name, and what was done was done to the right pods. -/
structure Inv (s : World) : Prop where
  unique : ∀ {ns name uid uid' : GoString}, Known s ns name uid → Known s ns name uid' → uid = uid'
  faithful : Faithful s

theorem Inv.of_moves (hs : Inv s) (h : Moves s s') : Inv s' := by
  refine ⟨fun hu hu' => hs.unique (h.known hu) (h.known hu'), ?_⟩
  intro e he
  obtain he | ⟨ns, name, hu, hr⟩ := h.effects e he
  · exact hs.faithful e he
  · exact hs.unique hu hr

theorem create_known {ns name : GoString} (h : step s (.create ns name uid ics status) = some s')
    {name' uid' : GoString} (hk : Known s' ns' name' uid') :
    Known s ns' name' uid' ∨ (ns', name') = (ns, name) ∧ uid' = uid := by
  simp only [step] at h
  split_ifs at h
  cases h
  cases hk with
  | pod h =>
    rw [GoMap.lookup_insert] at h
    split_ifs at h with hkey
    · cases h
      exact .inr ⟨hkey, rfl⟩
    · exact .inl (.pod h)
  | edge h => exact .inl (.edge h)
  | down hm h => exact .inl (.down hm h)
  | report hm h => exact .inl (.report hm h)
  | worker hp h => exact .inl (.worker hp h)

/-- A pod made under a name without traces is the only one that is known under it. -/
theorem create_inv {ns name : GoString} (hs : Inv s) (hquiet : s.traces ns name = [])
    (h : step s (.create ns name uid ics status) = some s') :
    Inv s' := by
  have hnone : ∀ uid', ¬ Known s ns name uid' := by
    intro uid' hk
    obtain ⟨pod, hpod⟩ := hk.pod_of_traces hquiet
    simp only [step] at h
    split_ifs at h with hfree
    simp [hpod] at hfree
  constructor
  · intro ns' name' uid₁ uid₂ h₁ h₂
    obtain h₁ | ⟨hkey₁, h₁⟩ := create_known h h₁
    · obtain h₂ | ⟨hkey₂, h₂⟩ := create_known h h₂
      · exact hs.unique h₁ h₂
      · cases hkey₂
        exact absurd h₁ (hnone uid₁)
    · obtain h₂ | ⟨hkey₂, h₂⟩ := create_known h h₂
      · cases hkey₁
        exact absurd h₂ (hnone uid₂)
      · rw [h₁, h₂]
  · simp only [step] at h
    split_ifs at h
    cases h
    exact hs.faithful

theorem start_inv (workers : ℕ) : Inv (start workers) := by
  have hnone : ∀ ns name uid, ¬ Known (start workers) ns name uid := by
    intro ns name uid hk
    cases hk with
    | pod h | edge h => cases h
    | down hm h | report hm h => cases hm
    | worker hp h =>
      rw [List.eq_of_mem_replicate hp] at h
      cases h
  refine ⟨fun hk => absurd hk (hnone _ _ _), ?_⟩
  intro e he
  cases he

/-- While pods are made only under names that nothing is left of, a status changes and
deletes only the pod that it belongs to, in the API server and at the edge. -/
theorem status_reaches_own_pod (workers : ℕ) (es : List Event)
    (h : Along step Quiet (start workers) es) : Always step Faithful (start workers) es := by
  apply Always.mono (fun _ => Inv.faithful)
  apply always_of_along ?_ (start_inv workers) h
  intro s e s' hs hquiet hstep
  by_cases he : ∃ ns name uid ics status, e = .create ns name uid ics status
  · obtain ⟨ns, name, uid, ics, status, rfl⟩ := he
    exact create_inv hs hquiet hstep
  · apply hs.of_moves (moves_of_step hstep ?_)
    intro ns name uid ics status heq
    exact he ⟨ns, name, uid, ics, status, heq⟩

namespace Sample

def node : GoString := str "n1"
def ns : GoString := str "ns"
def name : GoString := str "web"

/-- The first pod of the name is made, comes to the node and is reported on. -/
def reported (phase : Phase) : List Event :=
  [.create ns name (str "u1") [] ⟨.pending, [], none, [], []⟩, .downstream node ns name, .deliver 0,
    .report node ns [⟨str "u1", name, ⟨phase, [], none, [], []⟩⟩]]

def again : List Event :=
  [.remove ns name, .create ns name (str "u2") [] ⟨.pending, [], none, [], []⟩]

def changed : List Event :=
  reported .running ++ again ++ ([.take 0 0, .step 0 .ok 7, .step 0 .ok 7] : List Event)

/-- The pod is made again between the status and the delete. -/
def deleted : List Event :=
  reported .failed ++
    ([.terminate ns name 3, .take 0 0, .step 0 .ok 7, .step 0 .ok 7] : List Event) ++ again ++
    ([.step 0 .ok 7] : List Event)

/-- The pod is gone when the status comes, and made again before the node is told. -/
def removed : List Event :=
  reported .running ++ ([.take 0 0, .remove ns name, .step 0 .ok 7] : List Event) ++
    ([.create ns name (str "u2") [] ⟨.pending, [], none, [], []⟩, .downstream node ns name,
      .deliver 1, .deliver 0] : List Event)

/-- The node drops the pod before it is made again, comes to the node and is reported on. -/
def settled : List Event :=
  reported .running ++
    ([.take 0 0, .step 0 .ok 7, .step 0 .ok 7, .drop node ns name] : List Event) ++ again ++
    ([.downstream node ns name, .deliver 0,
      .report node ns [⟨str "u2", name, ⟨.running, [], none, [], []⟩⟩],
      .take 0 0, .step 0 .ok 7, .step 0 .ok 7] : List Event)

end Sample

open Sample

theorem status_reaches_own_pod_settled :
    (run step (start 1) settled).isSome ∧ Along step Quiet (start 1) settled ∧
      Always step Faithful (start 1) settled := by
  have hquiet : Along step Quiet (start 1) settled := by
    apply along_of_check (fun s e h => of_decide_eq_true h)
    decide +kernel
  exact ⟨by decide +kernel, hquiet, status_reaches_own_pod 1 _ hquiet⟩

theorem not_always_faithful {workers : ℕ} {es : List Event} (effects : List Effect)
    (hrun : (run step (start workers) es).map (·.effects) = some effects)
    (h : ∃ e ∈ effects, e.uid ≠ e.reported) : ¬ Always step Faithful (start workers) es := by
  intro halways
  obtain ⟨s, hs, rfl⟩ := Option.map_eq_some_iff.mp hrun
  obtain ⟨e, he, hne⟩ := h
  exact hne (halways.last hs e he)

/-- A status of the first pod changes the second, the delete that follows a status of the
first pod deletes the second, and the node removes the second for a status of the first. -/
theorem status_reaches_other_pod :
    ¬ Always step Faithful (start 1) changed ∧
    ¬ Always step Faithful (start 1) deleted ∧
    ¬ Always step Faithful (start 1) removed := by
  refine ⟨?_, ?_, ?_⟩
  · apply not_always_faithful [⟨.statusUpdated, str "u2", str "u1"⟩]
    · decide +kernel
    · exact ⟨_, (.head _), by decide +kernel⟩
  · apply not_always_faithful
      [⟨.podDeleted, str "u2", str "u1"⟩, ⟨.statusUpdated, str "u1", str "u1"⟩]
    · decide +kernel
    · exact ⟨_, (.head _), by decide +kernel⟩
  · apply not_always_faithful [⟨.removedAtEdge, str "u2", str "u1"⟩]
    · decide +kernel
    · exact ⟨_, (.head _), by decide +kernel⟩

end KubeEdge.EdgeController.PodStatus
