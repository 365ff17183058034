import KubeEdge.CloudHub.Routing

namespace KubeEdge.CloudHub.Sync
open Go

/-- An object as the API server has it; resource versions are numerals. -/
structure ApiObject where
  uid : GoString
  resourceVersion : GoString
  deletionTimestamp : Bool
  numeral : (parseUint resourceVersion).isSome

/-- The objects by group and version, resource, namespace and name. -/
abbrev ApiServer := GoMap ((GoString × GoString) × GoString × GoString × GoString) ApiObject

/-- An ObjectSync; its status is empty until a version was acknowledged.  UIDs have no dots. -/
structure ObjectSync where
  names : Names
  uid : GoString
  objectAPIVersion : GoString
  objectKind : GoString
  objectResourceVersion : GoString
  uid_plain : 46 ∉ uid
  kind_ne : objectKind ≠ []
  numeral : objectResourceVersion = [] ∨ (parseUint objectResourceVersion).isSome

def ObjectSync.name (s : ObjectSync) : GoString := buildObjectSyncName s.names.node s.uid

def getNodeName (syncName : GoString) : GoString := join 46 (split 46 syncName).dropLast

def getObjectUID (syncName : GoString) : GoString := (split 46 syncName).getLastD []

def parseGroupVersion (gv : GoString) : Option (GoString × GoString) :=
  if gv = [] ∨ gv = str "/" then some ([], [])
  else
    match split 47 gv with
    | [version] => some ([], version)
    | [group, version] => some (group, version)
    | _ => none

/-- The object that the ObjectSync is about, if the API server has one of that name. -/
def ApiServer.find (api : ApiServer) (s : ObjectSync) : Option ApiObject :=
  (parseGroupVersion s.objectAPIVersion).bind fun gv =>
    api.lookup (gv, s.objectKind, s.names.ns, s.names.object)

/-- A path that cannot be built is a nil message, which the caller dereferences. -/
def buildEdgeControllerMessage (id nodeName ns resourceType resourceName operation : GoString)
    (object : ApiObject) : M Message :=
  match Envoy.buildResource nodeName ns resourceType resourceName with
  | .error _ => .error .nilDereference
  | .ok resource => .ok
    { id := id
      source := str "edgecontroller"
      group := str "resource"
      resource := resource
      operation := operation
      resourceVersion := object.resourceVersion
      content := some ⟨object.uid, object.deletionTimestamp⟩ }

def sendEvents (id : GoString) (isNotFound : Bool) (nodeName : GoString) (s : ObjectSync)
    (object : ApiObject) : M (List Message) :=
  let build operation :=
    buildEdgeControllerMessage id nodeName s.names.ns s.objectKind s.names.object operation object
  if isNotFound then do .ok [← build (str "delete")]
  else if s.objectResourceVersion = [] then .ok []
  else do
    let c ← compareResourceVersion object.resourceVersion s.objectResourceVersion
    if c = .gt then .ok [← build (str "update")] else .ok []

/-- The messages that are sent; `id` is the identifier of a new message. -/
def manageObject (id : GoString) (api : ApiServer) (s : ObjectSync) : M (List Message) :=
  match api.find s with
  -- that the object is not found is an error of `Get` like any other
  | none => .ok []
  | some object =>
    -- the object that is rebuilt with the UID of the ObjectSync is not the one that is sent
    sendEvents id (getObjectUID s.name ≠ object.uid) (getNodeName s.name) s object

/-- What `saveSuccessPoint` does to the ObjectSyncs when the node answers `m`, if the API server
takes its writes. -/
def saveSuccessPoint (node : GoString) (m : Message) (objectSyncs : ObjectSyncs) : ObjectSyncs :=
  if m.group = str "resource" then
    match m.content with
    | none => objectSyncs
    | some accessor =>
      let key := (m.getNamespace, buildObjectSyncName node accessor.uid)
      if m.operation = str "delete" then objectSyncs.erase key
      else objectSyncs.insert key m.resourceVersion
  else objectSyncs

/-- The answers of the node lister: no error, or one of these. -/
inductive ListerError where
  | notFound
  | other (text : GoString)
  deriving DecidableEq

def checkObjectSync (get : GoString → Option ListerError) (syncName : GoString) :
    Bool × Option ListerError :=
  let err := get (getNodeName syncName)
  if err = some .notFound then (true, none) else (false, err)

/-- The ObjectSyncs after those of deleted nodes were deleted, if the API server takes that. -/
def deleteObjectSyncs (get : GoString → Option ListerError) (objectSyncs : ObjectSyncs) :
    ObjectSyncs :=
  objectSyncs.keys.foldl (fun rest key =>
    if (checkObjectSync get key.2).1 then rest.erase key else rest) objectSyncs

/-- A message that deletes the object of the ObjectSync on its node. -/
structure Deletes (s : ObjectSync) (m : Message) : Prop where
  operation : m.operation = str "delete"
  group : m.group = str "resource"
  node : m.getNodeID = some s.names.node
  ns : m.getNamespace = s.names.ns
  uid : m.content.map Accessor.uid = some s.uid

/-- A message that updates an object on the node of the ObjectSync. -/
structure Updates (s : ObjectSync) (m : Message) : Prop where
  operation : m.operation = str "update"
  node : m.getNodeID = some s.names.node

/-- The API server has a greater version than the node has acknowledged. -/
def Newer (object : ApiObject) (s : ObjectSync) : Prop :=
  ∃ a b, parseUint object.resourceVersion = some a ∧ parseUint s.objectResourceVersion = some b ∧
    b < a

/-- The stale object is deleted, the outdated one is updated, and an answered deletion removes
exactly its ObjectSync. -/
structure Reconciles (id : GoString) (api : ApiServer) (s : ObjectSync) : Prop where
  sent : ∃ sent, manageObject id api s = .ok sent ∧
    ((∃ m ∈ sent, Deletes s m) ↔ ∀ object, api.find s = some object → object.uid ≠ s.uid) ∧
    ((∃ m ∈ sent, Updates s m) ↔
      ∃ object, api.find s = some object ∧ object.uid = s.uid ∧ Newer object s)
  answered : ∀ m, Deletes s m → ∀ (objectSyncs : ObjectSyncs) k,
    (saveSuccessPoint s.names.node m objectSyncs).lookup k =
      if k = (s.names.ns, s.name) then none else objectSyncs.lookup k

theorem split_buildObjectSyncName (node : GoString) {uid : GoString} (hplain : 46 ∉ uid) :
    split 46 (buildObjectSyncName node uid) = split 46 node ++ [uid] := by
  have huid : split 46 uid = [uid] := by
    simpa using split_join 46 (s := [uid]) (by simp) (by simpa using hplain)
  rw [← huid]
  exact List.splitOnP_append_cons _ _ (by simp)

theorem getNodeName_buildObjectSyncName (node : GoString) {uid : GoString} (hplain : 46 ∉ uid) :
    getNodeName (buildObjectSyncName node uid) = node := by
  unfold getNodeName
  rw [split_buildObjectSyncName node hplain, List.dropLast_concat, join_split]

theorem getObjectUID_buildObjectSyncName (node : GoString) {uid : GoString} (hplain : 46 ∉ uid) :
    getObjectUID (buildObjectSyncName node uid) = uid := by
  unfold getObjectUID
  rw [split_buildObjectSyncName node hplain, List.getLastD_concat]

theorem getNodeName_name (s : ObjectSync) : getNodeName s.name = s.names.node :=
  getNodeName_buildObjectSyncName _ s.uid_plain

theorem getObjectUID_name (s : ObjectSync) : getObjectUID s.name = s.uid :=
  getObjectUID_buildObjectSyncName _ s.uid_plain

/-- What the controller sends about the object of an ObjectSync. -/
def message (id operation : GoString) (s : ObjectSync) (object : ApiObject) : Message where
  id := id
  source := str "edgecontroller"
  group := str "resource"
  resource := s.names.path s.objectKind
  operation := operation
  resourceVersion := object.resourceVersion
  content := some ⟨object.uid, object.deletionTimestamp⟩

theorem buildEdgeControllerMessage_eq (id operation : GoString) (s : ObjectSync)
    (object : ApiObject) :
    buildEdgeControllerMessage id s.names.node s.names.ns s.objectKind s.names.object operation
      object = .ok (message id operation s object) := by
  unfold buildEdgeControllerMessage
  rw [s.names.buildResource s.kind_ne]
  rfl

theorem getNodeID_message (id operation : GoString) (s : ObjectSync) (object : ApiObject) :
    (message id operation s object).getNodeID = some s.names.node :=
  getNodeID_withNames (message id operation s object) s.objectKind s.names

variable {s : ObjectSync} {api : ApiServer} {object : ApiObject} {id : GoString}

theorem manageObject_absent (h : api.find s = none) : manageObject id api s = .ok [] := by
  simp [manageObject, h]

theorem manageObject_other (h : api.find s = some object) (huid : object.uid ≠ s.uid) :
    manageObject id api s = .ok [message id (str "delete") s object] := by
  have hne : (decide (s.uid ≠ object.uid)) = true := by simpa using huid.symm
  simp [manageObject, h, getObjectUID_name, getNodeName_name, sendEvents, hne,
    buildEdgeControllerMessage_eq, ok_bind]

theorem manageObject_same (id : GoString) (h : api.find s = some object)
    (huid : object.uid = s.uid) :
    ∃ sent, manageObject id api s = .ok sent ∧
      (∀ m ∈ sent, m = message id (str "update") s object) ∧
      (sent ≠ [] ↔ Newer object s) := by
  have heq : (decide (s.uid ≠ object.uid)) = false := by simp [huid]
  simp only [manageObject, h, getObjectUID_name, getNodeName_name, sendEvents, heq,
    buildEdgeControllerMessage_eq, ok_bind, Bool.false_eq_true, if_false]
  obtain ⟨a, ha⟩ := Option.isSome_iff_exists.mp object.numeral
  by_cases hempty : s.objectResourceVersion = []
  · have hnone : parseUint s.objectResourceVersion = none := by
      rw [hempty]
      rfl
    refine ⟨[], if_pos hempty, by simp, ?_⟩
    simp [Newer, hnone]
  · obtain ⟨b, hb⟩ := Option.isSome_iff_exists.mp (s.numeral.resolve_left hempty)
    have hnewer : Newer object s ↔ compare a b = .gt := by
      simp [Newer, ha, hb, compare_gt_iff_gt]
    simp only [compareResourceVersion, ha, hb, ok_bind]
    split_ifs with hgt
    · exact ⟨_, rfl, by simp, by simp [hnewer, hgt]⟩
    · exact ⟨[], rfl, by simp, by simp [hnewer, hgt]⟩

theorem lookup_saveSuccessPoint {m : Message} (h : Deletes s m) (objectSyncs : ObjectSyncs)
    (k : GoString × GoString) :
    (saveSuccessPoint s.names.node m objectSyncs).lookup k =
      if k = (s.names.ns, s.name) then none else objectSyncs.lookup k := by
  obtain ⟨accessor, hcontent, huid⟩ := Option.map_eq_some_iff.mp h.uid
  unfold saveSuccessPoint
  rw [if_pos h.group, hcontent]
  dsimp only
  rw [if_pos h.operation, h.ns, huid]
  exact GoMap.lookup_erase ..

/-- Reconciliation does what it is for exactly if the object is still there under its UID:
nothing deletes an object that is gone, or whose name another object has. -/
theorem reconciles_iff (id : GoString) (api : ApiServer) (s : ObjectSync) :
    Reconciles id api s ↔ ∃ object, api.find s = some object ∧ object.uid = s.uid := by
  constructor
  · rintro ⟨⟨sent, hsent, hdeletes, -⟩, -⟩
    by_contra hgone
    push Not at hgone
    obtain ⟨m, hm, hdelete⟩ := hdeletes.mpr hgone
    cases hfind : api.find s with
    | none =>
      rw [manageObject_absent hfind] at hsent
      cases hsent
      cases hm
    | some object =>
      have hother := hgone object hfind
      rw [manageObject_other hfind hother] at hsent
      cases hsent
      cases List.mem_singleton.mp hm
      exact hother (Option.some.inj hdelete.uid)
  · rintro ⟨object, hfind, huid⟩
    obtain ⟨sent, hsent, hmessages, hnewer⟩ := manageObject_same id hfind huid
    refine ⟨⟨sent, hsent, ?_, ?_⟩, fun m hm => lookup_saveSuccessPoint hm⟩
    · apply iff_of_false
      · rintro ⟨m, hm, hdelete⟩
        have hop := hdelete.operation
        rw [hmessages m hm] at hop
        change str "update" = str "delete" at hop
        exact absurd hop (by decide +kernel)
      · intro hgone
        exact hgone object hfind huid
    · constructor
      · rintro ⟨m, hm, -⟩
        exact ⟨object, hfind, huid, hnewer.mp (List.ne_nil_of_mem hm)⟩
      · rintro ⟨object', hfind', -, hnewer'⟩
        rw [hfind] at hfind'
        cases hfind'
        obtain ⟨m, hm⟩ := List.exists_mem_of_ne_nil sent (hnewer.mpr hnewer')
        refine ⟨m, hm, ?_⟩
        rw [hmessages m hm]
        exact ⟨rfl, getNodeID_message ..⟩

namespace Sample

theorem web_valid : ValidName (str "web") := by decide

/-- The pod `web` of the node `edge1`, acknowledged with version 5. -/
def podSync : ObjectSync where
  names := CloudHub.Sample.podNames (str "web") web_valid
  uid := str "uid-1"
  objectAPIVersion := str "v1"
  objectKind := str "pod"
  objectResourceVersion := str "5"
  uid_plain := by decide +kernel
  kind_ne := by decide +kernel
  numeral := by decide +kernel

end Sample

/-- The pod was deleted while the hub was down: nothing tells the node. -/
theorem deleted_pod_stays : ¬ Reconciles (str "id") ∅ Sample.podSync := by
  rintro ⟨⟨sent, hsent, hdeletes, -⟩, -⟩
  cases hsent
  obtain ⟨m, hm, -⟩ := hdeletes.mpr (by
    intro object h
    cases h)
  cases hm

/-- The ObjectSyncs that answers of nodes leave. -/
def saved (answers : List (GoString × Message)) : ObjectSyncs :=
  answers.foldl (fun objectSyncs a => saveSuccessPoint a.1 a.2 objectSyncs) ∅

/-- The ObjectSync that an answer is about. -/
def Answers (a : GoString × Message) (k : GoString × GoString) : Prop :=
  ∃ accessor ∈ a.2.content, k = (a.2.getNamespace, buildObjectSyncName a.1 accessor.uid)

variable {k : GoString × GoString} {get : GoString → Option ListerError} {objectSyncs : ObjectSyncs}

theorem mem_saveSuccessPoint {a : GoString × Message}
    (hk : k ∈ saveSuccessPoint a.1 a.2 objectSyncs) :
    Answers a k ∨ k ∈ objectSyncs := by
  unfold saveSuccessPoint at hk
  cases hcontent : a.2.content with
  | none => exact .inr (by simpa [hcontent] using hk)
  | some accessor =>
    simp only [hcontent] at hk
    split_ifs at hk
    · exact .inr (AList.mem_erase.mp hk).2
    · rcases (AList.mem_insert _).mp hk with heq | hmem
      · exact .inl ⟨accessor, hcontent, heq⟩
      · exact .inr hmem
    · exact .inr hk

theorem answered_of_mem_saved {answers : List (GoString × Message)} (hk : k ∈ saved answers) :
    ∃ a ∈ answers, Answers a k := by
  induction answers using List.reverseRecOn with
  | nil => exact absurd hk (AList.notMem_empty k)
  | append_singleton answers a ih =>
    rw [saved, List.foldl_append] at hk
    rcases mem_saveSuccessPoint hk with hnew | hold
    · exact ⟨a, by simp, hnew⟩
    · obtain ⟨b, hb, hk⟩ := ih hold
      exact ⟨b, by simp [hb], hk⟩

theorem checkObjectSync_iff {syncName : GoString} :
    (checkObjectSync get syncName).1 = true ↔ get (getNodeName syncName) = some .notFound := by
  by_cases h : get (getNodeName syncName) = some .notFound <;> simp [checkObjectSync, h]

theorem mem_deleteObjectSyncs :
    k ∈ deleteObjectSyncs get objectSyncs ↔
      k ∈ objectSyncs ∧ get (getNodeName k.2) ≠ some .notFound := by
  -- over any list of keys, each is erased if its node is not found
  have hsweep (keys : List (GoString × GoString)) (rest : ObjectSyncs) :
      k ∈ keys.foldl
        (fun rest key => if (checkObjectSync get key.2).1 then rest.erase key else rest)
        rest ↔ k ∈ rest ∧ (k ∈ keys → get (getNodeName k.2) ≠ some .notFound) := by
    induction keys generalizing rest with
    | nil => simp
    | cons key keys ih =>
      rw [List.foldl_cons, ih]
      simp only [checkObjectSync_iff]
      by_cases hkey : k = key
      · subst hkey
        split_ifs with h <;> simp [h]
      · split_ifs <;> simp [hkey]
  rw [deleteObjectSyncs, hsweep]
  exact and_congr_right fun hk => by simp [AList.mem_keys.mp hk]

/-- For UIDs without dots: exactly the ObjectSyncs of nodes that do not exist are deleted, and
those of different nodes or objects have different names. -/
theorem deletes_outdated (get : GoString → Option ListerError) {answers : List (GoString × Message)}
    (hplain : ∀ a ∈ answers, ∀ accessor ∈ a.2.content, 46 ∉ accessor.uid) :
    (∀ k, k ∈ deleteObjectSyncs get (saved answers) ↔ k ∈ saved answers ∧
      ∃ a ∈ answers, Answers a k ∧ get a.1 ≠ some .notFound) ∧
    ∀ node uid node' uid', 46 ∉ uid → 46 ∉ uid' →
      buildObjectSyncName node uid = buildObjectSyncName node' uid' → node = node' ∧
        uid = uid' := by
  have hnode {a k} (ha : a ∈ answers) (hk : Answers a k) : getNodeName k.2 = a.1 := by
    obtain ⟨accessor, hcontent, rfl⟩ := hk
    exact getNodeName_buildObjectSyncName a.1 (hplain a ha accessor hcontent)
  constructor
  · intro k
    rw [mem_deleteObjectSyncs]
    refine and_congr_right fun hk => ⟨?_, ?_⟩
    · intro hfound
      obtain ⟨a, ha, hak⟩ := answered_of_mem_saved hk
      exact ⟨a, ha, hak, hnode ha hak ▸ hfound⟩
    · rintro ⟨a, ha, hak, hfound⟩
      rwa [hnode ha hak]
  · intro node uid node' uid' huid huid' h
    have hnode := congrArg getNodeName h
    have hobject := congrArg getObjectUID h
    rw [getNodeName_buildObjectSyncName _ huid, getNodeName_buildObjectSyncName _ huid'] at hnode
    rw [getObjectUID_buildObjectSyncName _ huid,
      getObjectUID_buildObjectSyncName _ huid'] at hobject
    exact ⟨hnode, hobject⟩

/-- The node `edge.west` is there, the node `edge` is not. -/
def Sample.getNode (name : GoString) : Option ListerError :=
  if name = str "edge.west" then none else some .notFound

/-- Both nodes have acknowledged the object. -/
def Sample.answers : List (GoString × Message) :=
  [str "edge", str "edge.west"].map fun node => (node,
    { id := [], source := str "edged", group := str "resource"
      resource := str "node/" ++ node ++ str "/default/pod/web"
      operation := str "update", resourceVersion := str "5", content := some ⟨str "1", false⟩ })

theorem west_kept :
    (str "default", str "edge.west.1") ∈
    deleteObjectSyncs Sample.getNode (saved Sample.answers) := by
  have hplain : ∀ a ∈ Sample.answers, ∀ accessor ∈ a.2.content, 46 ∉ accessor.uid := by
    decide +kernel
  have hwest : Answers Sample.answers[1] (str "default", str "edge.west.1") :=
    ⟨_, rfl, by decide +kernel⟩
  exact ((deletes_outdated Sample.getNode hplain).1 _).mpr
    ⟨by decide +kernel, _, List.getElem_mem _, hwest, by decide +kernel⟩

end KubeEdge.CloudHub.Sync
