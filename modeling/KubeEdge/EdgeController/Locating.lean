import KubeEdge.EdgeController.Location

namespace KubeEdge.EdgeController
open Go Machine Downstream LocationCache

variable {s s' : Downstream}

variable {pod : Pod} {kind : Kind} {name n node ns : GoString} {lc : LocationCache}
  {obj : ObjectMeta} {loaded : Option (List GoString)} {nodes : List GoString} {type : EventType}
  {ms : List Sent}

theorem mem_podConfigMapsAndSecrets :
    name ∈ podConfigMapsAndSecrets pod kind ↔ pod.References kind name := by
  unfold podConfigMapsAndSecrets Pod.References
  rw [List.mem_append, List.mem_append, List.mem_filterMap, List.mem_filterMap, or_assoc]
  cases kind <;> simp <;> grind

theorem mem_podTodo : (kind, name) ∈ podTodo pod ↔ pod.References kind name := by
  unfold podTodo
  rw [List.mem_append, ← mem_podConfigMapsAndSecrets]
  cases kind <;> simp

theorem key_inj {ns' name' : GoString} (hns : IsDNSLabel ns) (hns' : IsDNSLabel ns')
    (h : key ns name = key ns' name') : ns = ns' ∧ name = name' :=
  append_sep_inj hns.subdomain.slash hns'.subdomain.slash h

theorem mem_newNodes : n ∈ newNodes nodes node ↔ n = node ∨ n ∈ nodes := by
  unfold newNodes
  split_ifs with h
  · constructor
    · exact .inr
    · rintro (rfl | hn)
      · exact h
      · exact hn
  · rw [List.mem_append, List.mem_singleton, or_comm]

theorem mem_updatedNodes :
    n ∈ updatedNodes loaded node ↔
      n = node ∨ ∃ nodes, loaded = some nodes ∧ n ∈ nodes := by
  cases loaded with
  | none => simp [updatedNodes]
  | some nodes => simp [updatedNodes, mem_newNodes]

theorem lookup_storeNodes (lc : LocationCache) (kind kind' : Kind) (key key' node : GoString)
    (loaded : Option (List GoString)) :
    ((lc.storeNodes kind key node loaded).nodes kind').lookup key' =
      if kind' = kind ∧ key' = key then some (updatedNodes loaded node)
      else (lc.nodes kind').lookup key' := by
  unfold storeNodes setNodes
  dsimp only
  by_cases hkind : kind' = kind
  · subst hkind
    rw [Function.update_self, GoMap.lookup_insert]
    simp
  · rw [Function.update_of_ne hkind]
    simp [hkind]

theorem lookup_deleteObject (lc : LocationCache) (kind kind' : Kind) (ns name key' : GoString) :
    ((lc.deleteObject kind ns name).nodes kind').lookup key' =
      if kind' = kind ∧ key' = key ns name then none
      else (lc.nodes kind').lookup key' := by
  unfold deleteObject setNodes
  dsimp only
  by_cases hkind : kind' = kind
  · subst hkind
    rw [Function.update_self, GoMap.lookup_erase]
    simp
  · rw [Function.update_of_ne hkind]
    simp [hkind]

def Known (log : List Entry) (kind : Kind) (key n : GoString) : Prop :=
  -- a pod on the node has given the key
  ∃ pod name, .delivered pod true ∈ log ∧ pod.nodeName = n ∧
    key = LocationCache.key pod.ns name ∧ pod.References kind name

theorem Known.mono {log log' : List Entry} (hlog : log ⊆ log') {key : GoString} :
    Known log kind key n → Known log' kind key n :=
  fun ⟨pod, name, hpod, h⟩ => ⟨pod, name, hlog hpod, h⟩

def Listed (log : List Entry) (lc : LocationCache) : Prop :=
  ∀ kind key nodes, (lc.nodes kind).lookup key = some nodes → ∀ n ∈ nodes, Known log kind key n

theorem Listed.storeNodes {log : List Entry} (h : Listed log lc) (hpod : .delivered pod true ∈ log)
    (href : pod.References kind name)
    (hloaded : ∀ nodes, loaded = some nodes → ∀ n ∈ nodes, Known log kind (key pod.ns name) n) :
    Listed log (lc.storeNodes kind (key pod.ns name) pod.nodeName loaded) := by
  intro kind' key nodes hlook n hn
  rw [lookup_storeNodes] at hlook
  split_ifs at hlook with heq
  · obtain ⟨rfl, rfl⟩ := heq
    cases hlook
    rcases mem_updatedNodes.mp hn with rfl | ⟨nodes', hl, hn⟩
    · exact ⟨pod, name, hpod, rfl, rfl, href⟩
    · exact hloaded nodes' hl n hn
  · exact h kind' key nodes hlook n hn

/-- The pod that `syncPod` adds, and what it still has to add. -/
def Adding (log : List Entry) (pod : Pod) (todo : List (Kind × GoString)) : Prop :=
  .delivered pod true ∈ log ∧ ∀ kind name, (kind, name) ∈ todo → pod.References kind name

def PodPoint.Sound (log : List Entry) : PodPoint → Prop
  | .idle => True
  | .load pod _ todo => Adding log pod todo
  | .store pod _ kind name loaded todo => Adding log pod ((kind, name) :: todo) ∧
    ∀ nodes, loaded = some nodes → ∀ n ∈ nodes,
      Known log kind (key pod.ns name) n

structure Inv (s : Downstream) : Prop where
  listed : Listed s.log s.lc
  pod : s.syncPod.Sound s.log
  objects : ∀ kind obj nodes, s.syncObject kind = .delete obj nodes → ∀ n ∈ nodes,
    Known s.log kind (key obj.ns obj.name) n
  confined : Confined s

theorem PodPoint.Sound.mono {log log' : List Entry} (hlog : log ⊆ log') {p : PodPoint}
    (h : p.Sound log) : p.Sound log' := by
  cases p with
  | idle => trivial
  | load pod type todo => exact ⟨hlog h.1, h.2⟩
  | store pod type kind name loaded todo =>
    exact ⟨⟨hlog h.1.1, h.1.2⟩, fun nodes hl n hn => (h.2 nodes hl n hn).mono hlog⟩

theorem Inv.log (h : Inv s) (entries : List Entry)
    (hconfined : Confined { s with log := entries ++ s.log }) :
    Inv { s with log := entries ++ s.log } := by
  have hlog : s.log ⊆ entries ++ s.log := List.subset_append_right ..
  exact
    { listed := fun kind key nodes hl n hn => (h.listed kind key nodes hl n hn).mono hlog
      pod := h.pod.mono hlog
      objects := fun kind obj nodes hd n hn => (h.objects kind obj nodes hd n hn).mono hlog
      confined := hconfined }

theorem Confined.cons (h : Confined s) {e : Entry}
    (he : ∀ m, e = .sent m → ∀ kind, m.body = .object kind → ∃ pod, Justifies s.log kind m pod) :
    Confined { s with log := e :: s.log } := by
  intro m older hsuffix kind hkind
  rcases List.suffix_cons_iff.mp hsuffix with heq | hsuffix
  · cases heq
    exact he m rfl kind hkind
  · exact h m older hsuffix kind hkind

theorem Confined.send (h : Confined s)
    (hms : ∀ m ∈ ms, ∀ kind, m.body = .object kind → ∃ pod, Justifies s.log kind m pod) :
    Confined (s.send ms) := by
  induction ms generalizing s with
  | nil => exact h
  | cons m ms ih =>
    have hhead : Confined { s with log := .sent m :: s.log } := by
      apply h.cons
      rintro m' hm'
      cases hm'
      exact hms m (.head _)
    have hrest := ih hhead (by
      intro m' hm' kind hkind
      obtain ⟨pod, hpod, hjust⟩ := hms m' (.tail _ hm') kind hkind
      exact ⟨pod, .tail _ hpod, hjust⟩)
    simpa [Downstream.send] using hrest

theorem Inv.send (h : Inv s)
    (hms : ∀ m ∈ ms, ∀ kind, m.body = .object kind → ∃ pod, Justifies s.log kind m pod) :
    Inv (s.send ms) :=
  h.log _ (h.confined.send hms)

theorem message_eq_some {operation : GoString} {body : Body} {m : Sent}
    (h : message node operation body obj = some m) :
    m.node = node ∧ m.body = body ∧ m.ns = obj.ns ∧ m.name = obj.name ∧
      m.operation = operation := by
  unfold message at h
  split at h
  · cases h
  · cases h
    exact ⟨rfl, rfl, rfl, rfl, rfl⟩

theorem Inv.sendObject (h : Inv s)
    (hnodes : ∀ n ∈ nodes, Known s.log kind (key obj.ns obj.name) n) :
    Inv (s.sendObject kind type obj nodes) := by
  apply h.send
  intro m hm kind' hkind
  obtain ⟨n, hn, hmessage⟩ := List.mem_filterMap.mp hm
  obtain ⟨hnode, hbody, hns, hname, -⟩ := message_eq_some hmessage
  rw [hbody] at hkind
  cases hkind
  obtain ⟨pod, name, hpod, hnodeName, hkey, href⟩ := hnodes n hn
  obtain ⟨hns', hname'⟩ := key_inj obj.ns_valid pod.ns_valid hkey
  refine ⟨pod, hpod, hnodeName.trans hnode.symm, ?_, ?_⟩
  · rw [hns, hns']
  · rw [hname, hname']
    exact href

theorem podEvent_inv (h : Inv s) (type : EventType) (pod : Pod) :
    Inv (s.podEvent type pod) := by
  have hlogged : Inv { s with log := .delivered pod (s.lc.isEdgeNode pod.nodeName) :: s.log } :=
    h.log [_] (h.confined.cons fun m hm => by cases hm)
  have hskipped : ∀ pods, Inv { s with
      log := .delivered pod (s.lc.isEdgeNode pod.nodeName) :: s.log, pods } :=
    fun pods => ⟨hlogged.listed, hlogged.pod, hlogged.objects, hlogged.confined⟩
  unfold podEvent
  dsimp only
  split_ifs with hedge
  · exact hskipped _
  · rw [Bool.not_eq_false] at hedge
    cases hm : message pod.nodeName (podOperation type) .pod pod.toObjectMeta with
    | none => exact hskipped _
    | some m =>
      have hadding : Inv { s with
          log := .delivered pod (s.lc.isEdgeNode pod.nodeName) :: s.log
          syncPod := .load pod type (podTodo pod) } := by
        refine ⟨hlogged.listed, ⟨?_, fun kind name => mem_podTodo.mp⟩, hlogged.objects,
          hlogged.confined⟩
        rw [hedge]
        exact .head _
      cases type with
      | added | modified => exact hadding
      | deleted =>
        apply (hskipped _).send
        intro m' hm' kind hkind
        rw [List.mem_singleton.mp hm', (message_eq_some hm).2.1] at hkind
        cases hkind

theorem podStep_inv (h : Inv s) (hstep : s.podStep = some s') : Inv s' := by
  have hpoint := h.pod
  unfold podStep at hstep
  split at hstep
  · cases hstep
  · rename_i pod type _
    cases hstep
    have hdone : Inv { s with syncPod := .idle, pods := s.pods.insert pod.key pod } :=
      ⟨h.listed, trivial, h.objects, h.confined⟩
    apply hdone.send
    intro m hm kind hkind
    rw [Option.mem_toList] at hm
    rw [(message_eq_some hm).2.1] at hkind
    cases hkind
  · rename_i pod type kind name todo hpod
    cases hstep
    rw [hpod] at hpoint
    exact ⟨h.listed, ⟨hpoint, fun nodes => h.listed kind _ nodes⟩, h.objects, h.confined⟩
  · rename_i pod type kind name loaded todo hpod
    cases hstep
    rw [hpod] at hpoint
    obtain ⟨⟨hdelivered, hrefs⟩, hloaded⟩ := hpoint
    exact ⟨h.listed.storeNodes hdelivered (hrefs _ _ (.head _)) hloaded,
      ⟨hdelivered, fun k x hx => hrefs k x (.tail _ hx)⟩, h.objects, h.confined⟩

theorem Listed.objectNodes {log : List Entry} (h : Listed log lc)
    (hn : n ∈ lc.objectNodes kind ns name) :
    Known log kind (key ns name) n := by
  unfold LocationCache.objectNodes at hn
  cases hlook : (lc.nodes kind).lookup (key ns name) with
  | none => simp [hlook] at hn
  | some nodes =>
    rw [hlook] at hn
    exact h kind _ nodes hlook n hn

theorem objectEvent_inv (h : Inv s) (hstep : s.objectEvent kind type obj = some s') : Inv s' := by
  unfold objectEvent at hstep
  split at hstep
  · cases hstep
  · have hnodes : ∀ n ∈ s.lc.objectNodes kind obj.ns obj.name,
        Known s.log kind (key obj.ns obj.name) n := fun n => h.listed.objectNodes
    cases type with
    | added | modified =>
      cases hstep
      exact h.sendObject hnodes
    | deleted =>
      cases hstep
      refine ⟨h.listed, h.pod, ?_, h.confined⟩
      intro kind' obj' nodes' hd n hn
      dsimp only at hd
      by_cases hkind : kind' = kind
      · subst hkind
        rw [Function.update_self] at hd
        cases hd
        exact hnodes n hn
      · rw [Function.update_of_ne hkind] at hd
        exact h.objects kind' obj' nodes' hd n hn

theorem objectStep_inv (h : Inv s) (hstep : s.objectStep kind = some s') : Inv s' := by
  unfold objectStep at hstep
  split at hstep
  · cases hstep
  · rename_i obj nodes hd
    cases hstep
    have hnodes := h.objects kind obj nodes hd
    refine Inv.sendObject ⟨?_, h.pod, ?_, h.confined⟩ hnodes
    · intro kind' key nodes' hlook n hn
      rw [lookup_deleteObject] at hlook
      split_ifs at hlook
      exact h.listed kind' key nodes' hlook n hn
    · intro kind' obj' nodes' hd' n hn
      dsimp only at hd'
      by_cases hkind : kind' = kind
      · rw [hkind, Function.update_self] at hd'
        cases hd'
      · rw [Function.update_of_ne hkind] at hd'
        exact h.objects kind' obj' nodes' hd' n hn

theorem updateNode_nodes (lc : LocationCache) (name : GoString) (conditions : List NodeCondition) :
    (updateNode lc name conditions).nodes = lc.nodes := by
  induction conditions generalizing lc with
  | nil => rfl
  | cons c conditions ih =>
    unfold updateNode
    dsimp only
    split_ifs
    · exact ih lc
    · exact ih _
    · rfl

theorem Inv.setLc (h : Inv s) (hnodes : lc.nodes = s.lc.nodes) : Inv (s.setLc lc) := by
  refine ⟨?_, h.pod, h.objects, h.confined⟩
  intro kind key nodes hlook
  change (lc.nodes kind).lookup key = some nodes at hlook
  rw [hnodes] at hlook
  exact h.listed kind key nodes hlook

theorem nodeEvent_inv (h : Inv s) (type : EventType) (node : Node) :
    Inv (s.nodeEvent type node) := by
  cases type with
  | added | modified => exact h.setLc (updateNode_nodes ..)
  | deleted => exact h.setLc rfl

theorem step_inv {e : Event} (h : Inv s) (hstep : step s e = some s') : Inv s' := by
  cases e with
  | pod type pod =>
    simp only [step] at hstep
    split at hstep
    · cases hstep
      exact podEvent_inv h type pod
    · cases hstep
  | podStep => exact podStep_inv h hstep
  | object kind type obj => exact objectEvent_inv h hstep
  | objectStep kind => exact objectStep_inv h hstep
  | node type node =>
    cases hstep
    exact nodeEvent_inv h type node

theorem locateNodes_nodes (nodes : List Node) (status : Option ConditionStatus)
    (lc : LocationCache) : (locateNodes nodes status lc).nodes = lc.nodes := by
  induction nodes generalizing status lc with
  | nil => rfl
  | cons node nodes ih =>
    unfold locateNodes
    rw [ih]
    rfl

theorem Listed.addOrUpdatePod {log : List Entry} (h : Listed log lc)
    (hpod : .delivered pod true ∈ log) : Listed log (addOrUpdatePod lc pod) := by
  have hfold : ∀ (todo : List (Kind × GoString)) lc, Listed log lc →
      (∀ kind name, (kind, name) ∈ todo → pod.References kind name) →
      Listed log (todo.foldl (storePodNode pod) lc) := by
    intro todo
    induction todo with
    | nil => exact fun lc h _ => h
    | cons x todo ih =>
      intro lc h hrefs
      apply ih
      · exact h.storeNodes hpod (hrefs _ _ (.head _)) (h x.1 _)
      · exact fun kind name hx => hrefs kind name (.tail _ hx)
  exact hfold (podTodo pod) lc h fun kind name => mem_podTodo.mp

theorem locatePod_inv (h : Inv s) (pod : Pod) : Inv (locatePod s pod) := by
  have hlogged : Inv { s with log := .delivered pod (s.lc.isEdgeNode pod.nodeName) :: s.log } :=
    h.log [_] (h.confined.cons fun m hm => by cases hm)
  refine ⟨?_, hlogged.pod, hlogged.objects, hlogged.confined⟩
  unfold locatePod
  dsimp only
  split_ifs with hedge
  · apply hlogged.listed.addOrUpdatePod
    rw [hedge]
    exact .head _
  · exact hlogged.listed

theorem initLocating_inv (nodes : List Node) (pods : List Pod) : Inv (initLocating nodes pods) := by
  have hnodes : Inv { lc := locateNodes nodes none {} } := by
    refine ⟨?_, trivial, ?_, ?_⟩
    · intro kind key nodes' hlook
      rw [locateNodes_nodes] at hlook
      cases hlook
    · intro kind obj nodes' hd
      cases hd
    · intro m older hsuffix
      cases List.suffix_nil.mp hsuffix
  unfold initLocating
  induction pods using List.reverseRecOn with
  | nil => exact hnodes
  | append_singleton pods pod ih =>
    rw [List.foldl_append]
    exact locatePod_inv ih pod

/-- Whatever pods, nodes, configmaps and secrets come, an object is only sent to a node for a pod
that was delivered before, on this node while it was an edge node, and references the object. -/
theorem objects_confined (nodes : List Node) (pods : List Pod) (es : List Event) :
    Always step Confined (initLocating nodes pods) es :=
  (always_of_step (fun _ _ _ => step_inv) es (initLocating_inv nodes pods)).mono
    fun _ h => h.confined

end KubeEdge.EdgeController
