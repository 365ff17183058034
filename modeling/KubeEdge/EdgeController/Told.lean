import KubeEdge.EdgeController.Locating

namespace KubeEdge.EdgeController
open Go Machine Downstream LocationCache

variable {s s' : Downstream}

/-- At an event of an object every edge node with a delivered, undeleted pod that uses the object
is sent the object. -/
def Tells (s : Downstream) : Event → Prop
  | .object kind type obj =>
    type ≠ .deleted → ∀ k pod, s.pods.lookup k = some pod → pod.ns = obj.ns →
      pod.Uses kind obj.name → s.lc.isEdgeNode pod.nodeName = true →
        ∀ s', step s (.object kind type obj) = some s' →
          ∃ sent, s'.log = sent ++ s.log ∧ ∃ m, .sent m ∈ sent ∧ m.node = pod.nodeName ∧
            m.body = .object kind ∧ m.ns = obj.ns ∧ m.name = obj.name
  | _ => True

/-- What the pod uses is named where `PodConfigMapsAndSecrets` looks. -/
def Pod.Plain (pod : Pod) : Prop := ∀ kind name, pod.Uses kind name → pod.References kind name

/-- The pod that `syncPod` is adding. -/
def PodPoint.adding : PodPoint → Option Pod
  | .idle => none
  | .load pod .. | .store pod .. => some pod

/-- The pods that are delivered or being delivered. -/
def Downstream.Has (s : Downstream) (pod : Pod) : Prop :=
  (∃ k, s.pods.lookup k = some pod) ∨ s.syncPod.adding = some pod

/-- Pods are plain, and the list of an object is dropped only while no pod uses the object.  The
nodes do not change. -/
def Covered (s : Downstream) : Event → Prop
  | .pod type pod => type ≠ .deleted → s.lc.isEdgeNode pod.nodeName = true → pod.Plain
  | .objectStep kind => ∀ obj nodes, s.syncObject kind = .delete obj nodes → ∀ pod, s.Has pod →
    pod.ns = obj.ns → s.lc.isEdgeNode pod.nodeName = true → ¬ pod.Uses kind obj.name
  | .node .. => False
  | _ => True

/-- The node of the pod is on the list of the object. -/
def OnList (s : Downstream) (pod : Pod) (kind : Kind) (name : GoString) : Prop :=
  pod.nodeName ∈ s.lc.objectNodes kind pod.ns name

def PodPoint.Kept (s : Downstream) : PodPoint → Prop
  | .idle => True
  | .load pod _ todo => s.lc.isEdgeNode pod.nodeName = true ∧
    ∀ kind name, pod.Uses kind name → (kind, name) ∈ todo ∨ OnList s pod kind name
  | .store pod _ kind name loaded todo => s.lc.isEdgeNode pod.nodeName = true ∧
    (∀ kind' name', pod.Uses kind' name' →
      (kind', name') ∈ (kind, name) :: todo ∨ OnList s pod kind' name') ∧
    ∀ nodes, (s.lc.nodes kind).lookup (key pod.ns name) = some nodes →
      loaded = some nodes

structure Kept (s : Downstream) : Prop where
  named : ∀ n, s.lc.isEdgeNode n = true → n ≠ []
  pods : ∀ k pod, s.pods.lookup k = some pod → s.lc.isEdgeNode pod.nodeName = true →
    ∀ kind name, pod.Uses kind name → OnList s pod kind name
  point : s.syncPod.Kept s

variable {lc : LocationCache} {kind : Kind} {ns name n name' node ns' : GoString} {pod : Pod}
  {type : EventType}

theorem mem_objectNodes :
    n ∈ lc.objectNodes kind ns name ↔
      ∃ nodes, (lc.nodes kind).lookup (key ns name) = some nodes ∧ n ∈ nodes := by
  unfold objectNodes
  cases (lc.nodes kind).lookup (key ns name) with
  | none | some nodes => simp

theorem objectNodes_storeNodes {kind' : Kind} {loaded : Option (List GoString)}
    (hloaded : ∀ nodes, (lc.nodes kind).lookup (key ns name) = some nodes → loaded = some nodes)
    (h : n ∈ lc.objectNodes kind' ns' name') :
    n ∈ (lc.storeNodes kind (key ns name) node loaded).objectNodes kind' ns' name' := by
  obtain ⟨nodes, hlook, hn⟩ := mem_objectNodes.mp h
  apply mem_objectNodes.mpr
  rw [lookup_storeNodes]
  split_ifs with heq
  · obtain ⟨rfl, hkey⟩ := heq
    rw [hkey] at hlook
    exact ⟨_, rfl, mem_updatedNodes.mpr (.inr ⟨nodes, hloaded nodes hlook, hn⟩)⟩
  · exact ⟨nodes, hlook, hn⟩

theorem mem_storeNodes (lc : LocationCache) (kind : Kind) (ns name node : GoString)
    (loaded : Option (List GoString)) :
    node ∈ (lc.storeNodes kind (key ns name) node loaded).objectNodes kind ns name := by
  apply mem_objectNodes.mpr
  rw [lookup_storeNodes, if_pos ⟨rfl, rfl⟩]
  exact ⟨_, rfl, mem_updatedNodes.mpr (.inl rfl)⟩

theorem objectNodes_deleteObject {kind' : Kind} (hns : IsDNSLabel ns) (hns' : IsDNSLabel ns')
    (hother : ¬ (kind' = kind ∧ ns' = ns ∧ name' = name)) (h : n ∈ lc.objectNodes kind' ns' name') :
    n ∈ (lc.deleteObject kind ns name).objectNodes kind' ns' name' := by
  obtain ⟨nodes, hlook, hn⟩ := mem_objectNodes.mp h
  apply mem_objectNodes.mpr
  rw [lookup_deleteObject, if_neg]
  · exact ⟨nodes, hlook, hn⟩
  · rintro ⟨hkind, hkey⟩
    exact hother ⟨hkind, key_inj hns' hns hkey⟩

theorem message_of_name (hnode : node ≠ []) (operation : GoString) (body : Body)
    (obj : ObjectMeta) :
    ∃ m, message node operation body obj = some m := by
  have htype : body.resourceType ≠ [] := by
    cases body with
    | pod => decide
    | object kind => cases kind <;> decide
  unfold message Envoy.buildResource
  rw [if_neg (by simp [obj.ns_valid.1, htype, hnode])]
  exact ⟨_, rfl⟩

section

variable (h : Kept s)
include h

theorem Kept.frame (hlc : s'.lc = s.lc) (hpods : s'.pods = s.pods)
    (hpoint : s'.syncPod = s.syncPod) :
    Kept s' := by
  obtain ⟨lc, point, objects, pods, log⟩ := s'
  obtain rfl : lc = s.lc := hlc
  obtain rfl : pods = s.pods := hpods
  obtain rfl : point = s.syncPod := hpoint
  refine ⟨h.named, h.pods, ?_⟩
  have hp := h.point
  cases hs : s.syncPod with
  | idle => trivial
  | load pod type todo | store pod type kind name loaded todo =>
    rw [hs] at hp
    exact hp

theorem podEvent_kept (hidle : s.syncPod = .idle) (hcovered : Covered s (.pod type pod)) :
    Kept (s.podEvent type pod) := by
  have herase : ∀ log, Kept { s with pods := s.pods.erase pod.key, log } := by
    intro log
    refine ⟨h.named, GoMap.forall_erase h.pods _, ?_⟩
    rw [hidle]
    trivial
  unfold podEvent
  dsimp only
  split_ifs with hedge
  · -- the pod of a node that is no edge node
    have hinsert : ∀ log, Kept { s with pods := s.pods.insert pod.key pod, log } := by
      intro log
      refine ⟨h.named, GoMap.forall_insert h.pods ?_, ?_⟩
      · intro hp
        exact absurd hp (by simp [hedge])
      · rw [hidle]
        trivial
    cases type with
    | added | modified => exact hinsert _
    | deleted => exact herase _
  · rw [Bool.not_eq_false] at hedge
    obtain ⟨m, hm⟩ := message_of_name (h.named _ hedge) (podOperation type) .pod pod.toObjectMeta
    rw [hm]
    have hload : type ≠ .deleted → ∀ log,
        Kept { s with syncPod := .load pod type (podTodo pod), log } := by
      intro htype log
      refine ⟨h.named, h.pods, hedge, ?_⟩
      intro kind name huses
      exact .inl (mem_podTodo.mpr (hcovered htype hedge kind name huses))
    cases type with
    | added | modified => exact hload (by simp) _
    | deleted => exact herase _

theorem podStep_kept (hstep : s.podStep = some s') : Kept s' := by
  have hpoint := h.point
  unfold podStep at hstep
  split at hstep
  · cases hstep
  · rename_i pod type hpod
    cases hstep
    rw [hpod] at hpoint
    refine ⟨h.named, GoMap.forall_insert h.pods ?_, trivial⟩
    intro _ kind name huses
    exact (hpoint.2 kind name huses).resolve_left (List.not_mem_nil)
  · rename_i pod type kind name todo hpod
    cases hstep
    rw [hpod] at hpoint
    exact ⟨h.named, h.pods, hpoint.1, hpoint.2, fun nodes hlook => hlook⟩
  · rename_i pod type kind name loaded todo hpod
    cases hstep
    rw [hpod] at hpoint
    obtain ⟨hedge, huses, hloaded⟩ := hpoint
    refine ⟨h.named, ?_, hedge, ?_⟩
    · intro k p hlook hp kind' name' hu
      exact objectNodes_storeNodes hloaded (h.pods k p hlook hp kind' name' hu)
    · intro kind' name' hu
      rcases huses kind' name' hu with hmem | hon
      · rcases List.mem_cons.mp hmem with heq | hmem
        · cases heq
          exact .inr (mem_storeNodes ..)
        · exact .inl hmem
      · exact .inr (objectNodes_storeNodes hloaded hon)

theorem objectStep_kept (hcovered : Covered s (.objectStep kind))
    (hstep : s.objectStep kind = some s') : Kept s' := by
  unfold objectStep at hstep
  split at hstep
  · cases hstep
  · rename_i obj nodes hd
    cases hstep
    have hkeep : ∀ pod, s.Has pod → s.lc.isEdgeNode pod.nodeName = true → ∀ kind' name',
        pod.Uses kind' name' → OnList s pod kind' name' →
          pod.nodeName ∈
            (s.lc.deleteObject kind obj.ns obj.name).objectNodes kind' pod.ns name' := by
      intro pod hpod hedge kind' name' huses hon
      apply objectNodes_deleteObject obj.ns_valid pod.ns_valid _ hon
      rintro ⟨rfl, hns, rfl⟩
      exact hcovered obj nodes hd pod hpod hns hedge huses
    have hpoint := h.point
    refine ⟨h.named, ?_, ?_⟩
    · intro k pod hlook hedge kind' name' huses
      exact hkeep pod (.inl ⟨k, hlook⟩) hedge kind' name' huses (h.pods k pod hlook hedge _ _ huses)
    · change s.syncPod.Kept _
      cases hs : s.syncPod with
      | idle => trivial
      | load pod type todo =>
        rw [hs] at hpoint
        refine ⟨hpoint.1, fun kind' name' huses => (hpoint.2 kind' name' huses).imp id ?_⟩
        exact hkeep pod (.inr (by rw [hs]; rfl)) hpoint.1 kind' name' huses
      | store pod type kind₀ name₀ loaded todo =>
        rw [hs] at hpoint
        refine ⟨hpoint.1, fun kind' name' huses => (hpoint.2.1 kind' name' huses).imp id ?_, ?_⟩
        · exact hkeep pod (.inr (by rw [hs]; rfl)) hpoint.1 kind' name' huses
        · intro nodes' hlook
          apply hpoint.2.2
          have hold : ((s.lc.deleteObject kind obj.ns obj.name).nodes kind₀).lookup
              (key pod.ns name₀) = some nodes' := hlook
          rw [lookup_deleteObject] at hold
          split_ifs at hold
          exact hold

theorem step_kept {e : Event} (hcovered : Covered s e) (hstep : step s e = some s') : Kept s' := by
  cases e with
  | pod type pod =>
    simp only [step] at hstep
    split at hstep
    · rename_i hidle
      cases hstep
      exact podEvent_kept h hidle hcovered
    · cases hstep
  | podStep => exact podStep_kept h hstep
  | object kind type obj =>
    simp only [step, objectEvent] at hstep
    split at hstep
    · cases hstep
    · cases type with
      | added | modified | deleted =>
        cases hstep
        exact h.frame rfl rfl rfl
  | objectStep kind => exact objectStep_kept h hcovered hstep
  | node type node => exact hcovered.elim

theorem Kept.tells (e : Event) : Tells s e := by
  cases e with
  | object kind type obj =>
    intro htype k pod hlook hns huses hedge s' hstep
    have hon := h.pods k pod hlook hedge kind obj.name huses
    obtain ⟨m, hm⟩ :=
      message_of_name (h.named _ hedge) (objectOperation kind type) (.object kind) obj
    obtain ⟨hnode, hbody, hmns, hname, -⟩ := message_eq_some hm
    have hsent : s.sendObject kind type obj (s.lc.objectNodes kind obj.ns obj.name) = s' := by
      simp only [step, objectEvent] at hstep
      split at hstep
      · cases hstep
      · cases type with
        | added | modified => exact Option.some.inj hstep
        | deleted => exact absurd rfl htype
    refine ⟨_, by rw [← hsent]; rfl, m, ?_, hnode, hbody, hmns, hname⟩
    rw [List.mem_reverse]
    apply List.mem_map_of_mem
    rw [List.mem_filterMap]
    refine ⟨pod.nodeName, ?_, hm⟩
    rw [← hns]
    exact hon
  | pod type pod | podStep | objectStep kind | node type node => trivial

end

theorem isEdgeNode_locateNodes {nodes : List Node} {status : Option ConditionStatus}
    (h : (locateNodes nodes status lc).isEdgeNode n = true) :
    lc.isEdgeNode n = true ∨ ∃ node ∈ nodes, node.name = n := by
  induction nodes generalizing status lc with
  | nil => exact .inl h
  | cons node nodes ih =>
    rcases ih h with hlc | ⟨node', hmem, hname⟩
    · unfold isEdgeNode updateEdgeNode at hlc
      rw [decide_eq_true_iff, AList.mem_insert] at hlc
      rcases hlc with rfl | hold
      · exact .inr ⟨node, .head _, rfl⟩
      · exact .inl (decide_eq_true hold)
    · exact .inr ⟨node', .tail _ hmem, hname⟩

theorem addOrUpdatePod_spec (lc : LocationCache) (pod : Pod) :
    (addOrUpdatePod lc pod).edgeNodes = lc.edgeNodes ∧
      (∀ kind ns name, lc.objectNodes kind ns name ⊆
        (addOrUpdatePod lc pod).objectNodes kind ns name) ∧
      ∀ kind name, pod.References kind name →
        pod.nodeName ∈ (addOrUpdatePod lc pod).objectNodes kind pod.ns name := by
  have hfold : ∀ (todo : List (Kind × GoString)) (lc : LocationCache),
      let lc' := todo.foldl (storePodNode pod) lc
      lc'.edgeNodes = lc.edgeNodes ∧
        (∀ kind ns name, lc.objectNodes kind ns name ⊆ lc'.objectNodes kind ns name) ∧
        ∀ kind name, (kind, name) ∈ todo → pod.nodeName ∈ lc'.objectNodes kind pod.ns name := by
    intro todo
    induction todo with
    | nil => exact fun lc => ⟨rfl, fun _ _ _ => List.Subset.refl _, fun _ _ h => by cases h⟩
    | cons x todo ih =>
      intro lc
      obtain ⟨hedge, hkeep, hadd⟩ := ih (storePodNode pod lc x)
      refine ⟨hedge, ?_, ?_⟩
      · intro kind ns name n hn
        exact hkeep kind ns name (objectNodes_storeNodes (fun _ => id) hn)
      · intro kind name hmem
        rcases List.mem_cons.mp hmem with rfl | hmem
        · exact hkeep _ _ _ (mem_storeNodes ..)
        · exact hadd kind name hmem
  obtain ⟨hedge, hkeep, hadd⟩ := hfold (podTodo pod) lc
  exact ⟨hedge, hkeep, fun kind name href => hadd kind name (mem_podTodo.mpr href)⟩

theorem isEdgeNode_locatePod (s : Downstream) (pod : Pod) (n : GoString) :
    (locatePod s pod).lc.isEdgeNode n = s.lc.isEdgeNode n := by
  unfold locatePod isEdgeNode
  dsimp only
  split_ifs
  · rw [(addOrUpdatePod_spec s.lc pod).1]
  · rfl

theorem locatePod_kept (h : Kept s) (hidle : s.syncPod = .idle)
    (hplain : s.lc.isEdgeNode pod.nodeName = true → pod.Plain) : Kept (locatePod s pod) := by
  obtain ⟨-, hkeep, hadd⟩ := addOrUpdatePod_spec s.lc pod
  have hsame := isEdgeNode_locatePod s pod
  have hmono : ∀ kind ns name, s.lc.objectNodes kind ns name ⊆
      (locatePod s pod).lc.objectNodes kind ns name := by
    intro kind ns name
    unfold locatePod
    dsimp only
    split_ifs
    · exact hkeep kind ns name
    · exact List.Subset.refl _
  refine ⟨fun n hn => h.named n (hsame n ▸ hn), ?_, ?_⟩
  · refine GoMap.forall_insert ?_ ?_
    · intro k p hlook hedge kind name huses
      rw [hsame] at hedge
      exact hmono _ _ _ (h.pods k p hlook hedge kind name huses)
    · intro hedge kind name huses
      rw [hsame] at hedge
      have hlc : (locatePod s pod).lc = addOrUpdatePod s.lc pod := if_pos hedge
      unfold OnList
      rw [hlc]
      exact hadd kind name (hplain hedge kind name huses)
  · change s.syncPod.Kept _
    rw [hidle]
    trivial

theorem initLocating_kept (nodes : List Node) {pods : List Pod}
    (hpods : ∀ pod ∈ pods, (locateNodes nodes none {}).isEdgeNode pod.nodeName = true → pod.Plain) :
    Kept (initLocating nodes pods) := by
  have hstart : Kept { lc := locateNodes nodes none {} } := by
    refine ⟨?_, ?_, trivial⟩
    · intro n hn
      rcases isEdgeNode_locateNodes hn with hold | ⟨node, -, rfl⟩
      · simp [isEdgeNode] at hold
      · exact node.name_valid.1
    · intro k pod hlook
      cases hlook
  have hfold : ∀ s : Downstream, Kept s → s.syncPod = .idle →
      (∀ n, s.lc.isEdgeNode n = (locateNodes nodes none {}).isEdgeNode n) →
      Kept (pods.foldl locatePod s) := by
    induction pods with
    | nil => exact fun s h _ _ => h
    | cons pod pods ih =>
      intro s h hidle hedge
      apply ih fun p hp => hpods p (.tail _ hp)
      · exact locatePod_kept h hidle fun hpod => hpods pod (.head _) (hedge _ ▸ hpod)
      · exact hidle
      · exact fun n => (isEdgeNode_locatePod s pod n).trans (hedge n)
  exact hfold _ hstart rfl fun _ => rfl

/-- If every pod on an edge node is plain and no list is dropped while a pod uses the object, then
at every event of an object all edge nodes that use it are told. -/
theorem users_told (nodes : List Node) {pods : List Pod}
    (hpods : ∀ pod ∈ pods, (locateNodes nodes none {}).isEdgeNode pod.nodeName = true → pod.Plain)
    {es : List Event} (h : Along step Covered (initLocating nodes pods) es) :
    Along step Tells (initLocating nodes pods) es := by
  apply along_of_along _ (initLocating_kept nodes hpods) h
  intro s e s' hkept hcovered hstep
  exact ⟨step_kept hkept hcovered hstep, hkept.tells e⟩

namespace Sample

def edge1 : Node where
  name := str "edge1"
  labels := ∅
  conditions := [⟨.ready, .true⟩]
  name_valid := by decide +kernel

theorem default_valid : IsDNSLabel (str "default") := by decide +kernel

theorem web_valid : IsDNSSubdomain (str "web") := by decide +kernel

def named (name : GoString) (h : IsDNSSubdomain name) : ObjectMeta where
  name := name
  ns := str "default"
  name_valid := h
  ns_valid := default_valid

def config : ObjectMeta := named (str "config") (by decide +kernel)

def mounting : Pod where
  toObjectMeta := named (str "web") web_valid
  nodeName := str "edge1"
  volumes := [{ source := { configMap := some (str "config") } }]

/-- A pod with a variable that takes its value from the configmap. -/
def reading : Pod where
  toObjectMeta := named (str "web") web_valid
  nodeName := str "edge1"
  containers := [{ env := [{ configMap := some (str "config") }] }]

def remote : Pod :=
  { reading with toObjectMeta := named (str "api") (by decide +kernel), nodeName := str "cloud1" }

theorem mounting_plain : mounting.Plain := by
  rintro kind name (⟨v, hv, h⟩ | ⟨c, hc, -⟩ | ⟨-, h⟩)
  · cases List.mem_singleton.mp hv
    rcases h with h | ⟨p, hp, -⟩
    · exact .inl ⟨_, hv, h⟩
    · cases hp
  · cases hc
  · cases h

theorem mounting_uses : mounting.Uses .configMap (str "config") :=
  .inl ⟨_, List.mem_singleton_self _, .inl rfl⟩

theorem reading_uses : reading.Uses .configMap (str "config") :=
  .inr (.inl ⟨_, List.mem_singleton_self _, _, List.mem_singleton_self _, rfl⟩)

def deliver (pod : Pod) : List Event :=
  .pod .added pod :: List.replicate (2 * (podTodo pod).length + 1) .podStep

end Sample

open Sample

/-- The node of a pod that mounts a configmap is told about it. -/
theorem users_told_mounting :
    let es := deliver mounting ++ [.object .configMap .modified config]
    Along step Tells (initLocating [edge1] [remote]) es ∧
      ((run step (initLocating [edge1] [remote]) es).map fun s => s.log.length) = some 4 := by
  have hremote : (locateNodes [edge1] none {}).isEdgeNode remote.nodeName = false := by
    decide +kernel
  refine ⟨users_told [edge1] (by simp [hremote]) ?_, by decide +kernel⟩
  refine fun _ _ => ⟨fun _ _ => mounting_plain, ?_⟩
  exact fun _ _ => ⟨trivial, fun _ _ => ⟨trivial, fun _ _ => ⟨trivial, fun _ _ =>
    ⟨trivial, trivial⟩⟩⟩⟩

/-- A run that leaves the pod delivered, and an event of its configmap that sends nothing. -/
theorem not_tells {start : Downstream} {es : List Event} (htype : type ≠ .deleted)
    (hns : pod.ns = config.ns) (huses : pod.Uses .configMap config.name)
    (hrun : run step start es = some s) (hpods : s.pods = AList.insert pod.key pod ∅)
    (hedge : s.lc.isEdgeNode pod.nodeName = true)
    (hstep : (step s (.object .configMap type config)).map (·.log.length) = some s.log.length) :
    ¬ Along step Tells start (es ++ [.object .configMap type config]) := by
  intro h
  obtain ⟨s', hs', hlog⟩ := Option.map_eq_some_iff.mp hstep
  have hlook : s.pods.lookup pod.key = some pod := by
    rw [hpods, GoMap.lookup_insert, if_pos rfl]
  obtain ⟨sent, hsent, m, hm, -⟩ :=
    ((h.after hrun).2 s' hs').1 htype pod.key pod hlook hns huses hedge s' hs'
  rw [hsent, List.length_append, Nat.add_eq_right] at hlog
  rw [List.eq_nil_of_length_eq_zero hlog] at hm
  cases hm

/-- A variable that reads the configmap is overlooked; and after the configmap was deleted and
made again, the node that mounts it is not told. -/
theorem users_not_told :
    ¬ Along step Tells (initLocating [edge1] [])
        (deliver reading ++ [.object .configMap .modified config]) ∧
      ¬ Along step Tells (initLocating [edge1] [])
        ((deliver mounting ++
            [.object .configMap .deleted config, .objectStep .configMap]) ++
          [.object .configMap .added config]) := by
  constructor
  · exact not_tells (by simp) rfl reading_uses rfl rfl (by decide +kernel) (by decide +kernel)
  · exact not_tells (by simp) rfl mounting_uses rfl rfl (by decide +kernel) (by decide +kernel)

end KubeEdge.EdgeController
