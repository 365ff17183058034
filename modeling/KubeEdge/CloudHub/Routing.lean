import KubeEdge.CloudHub.Queue
import KubeEdge.Envoy.Store

namespace KubeEdge.CloudHub
open Go Message

/-- The first element that is not empty and follows an element `node`. -/
def nodeToken : List GoString → Option GoString
  | token :: next :: rest =>
    if token = str "node" ∧ next ≠ [] then some next else nodeToken (next :: rest)
  | _ => none

namespace Message

def getNodeID (m : Message) : Option GoString := nodeToken (split 47 m.resource)

/-- The words without a separator that `isListResource` looks for. -/
def listWords : List GoString :=
  [str "podlist", str "servicelist", str "endpointslist", str "membership", str "envoy"]

def hasListWord (s : GoString) : Bool := listWords.any (contains s)

/-- The checks of `isListResource` that do not search the path; `text` is the content where
it is a string. -/
def listKind (m : Message) (text : Option GoString) (resourceType : GoString) : Bool :=
  m.operation = str "applicationResponse" ||
    (m.operation = str "response" && text = some (str "OK")) ||
    (m.source = str "edgecontroller" && resourceType = str "node") ||
    m.group = str "user"

def isListResource (m : Message) (text : Option GoString) : Bool :=
  hasListWord m.resource || contains m.resource (str "twin" ++ 47 :: str "cloud_updated") ||
    m.listKind text m.getResourceType

end Message

/-- The two queues of a node. -/
inductive QueueKind
  | listQueue
  | nodeQueue
  deriving DecidableEq, Repr

/-- `DispatchMessage`: the node and the queue, or nothing where no node is found. -/
def dispatchMessage (m : Message) (text : Option GoString) : Option (GoString × QueueKind) :=
  m.getNodeID.map fun node => (node, if m.isListResource text then .listQueue else .nodeQueue)

/-- What Kubernetes asks of every name: that it can be an element of a path. -/
def ValidName (name : GoString) : Prop :=
  name ≠ [] ∧ 47 ∉ name ∧ 37 ∉ name ∧ name ≠ str "." ∧ name ≠ str ".."

instance (name : GoString) : Decidable (ValidName name) :=
  inferInstanceAs (Decidable (_ ∧ _ ∧ _ ∧ _ ∧ _))

/-- The names in a resource path. -/
structure Names where
  node : GoString
  ns : GoString
  object : GoString
  valid_node : ValidName node
  valid_ns : ValidName ns
  valid_object : ValidName object

def Names.path (n : Names) (resourceType : GoString) : GoString :=
  join 47 [str "node", n.node, n.ns, resourceType, n.object]

theorem Names.buildResource (n : Names) {resourceType : GoString} (htype : resourceType ≠ []) :
    Envoy.buildResource n.node n.ns resourceType n.object = .ok (n.path resourceType) := by
  unfold Envoy.buildResource Names.path
  rw [if_neg (by simp [n.valid_node.1, n.valid_ns.1, htype])]
  simp [n.valid_object.1]

/-- The message, about the object with these names. -/
def Message.withNames (m : Message) (resourceType : GoString) (n : Names) : Message :=
  { m with resource := n.path resourceType }

def twinUpdate (a b : GoString) : Bool :=
  -- the words across a separator
  (str "twin").isSuffixOf a && (str "cloud_updated").isPrefixOf b

/-- A list word in one of the names, or one that a name makes with its neighbour in the path. -/
def Names.spells (n : Names) (resourceType : GoString) : Bool :=
  hasListWord n.node || hasListWord n.ns || hasListWord n.object ||
    twinUpdate n.node n.ns || twinUpdate n.ns resourceType || twinUpdate resourceType n.object

def Message.listType (m : Message) (text : Option GoString) (resourceType : GoString) : Bool :=
  hasListWord resourceType || contains resourceType (str "twin" ++ 47 :: str "cloud_updated") ||
    m.listKind text (((split 47 resourceType)[0]?).getD [])

theorem hasListWord_append_sep (a b : GoString) :
    hasListWord (a ++ 47 :: b) = (hasListWord a || hasListWord b) := by
  have hplain : ∀ w ∈ listWords, (47 : UInt8) ∉ w := by decide
  rw [Bool.eq_iff_iff, Bool.or_eq_true]
  simp only [hasListWord, List.any_eq_true, contains_iff]
  constructor
  · rintro ⟨w, hw, h⟩
    rcases (infix_append_sep (hplain w hw)).mp h with h | h
    · exact .inl ⟨w, hw, h⟩
    · exact .inr ⟨w, hw, h⟩
  · rintro (⟨w, hw, h⟩ | ⟨w, hw, h⟩)
    · exact ⟨w, hw, (infix_append_sep (hplain w hw)).mpr (.inl h)⟩
    · exact ⟨w, hw, (infix_append_sep (hplain w hw)).mpr (.inr h)⟩

theorem contains_twin_append_sep (a b : GoString) :
    contains (a ++ 47 :: b) (str "twin" ++ 47 :: str "cloud_updated") =
      (contains a (str "twin" ++ 47 :: str "cloud_updated") ||
        contains b (str "twin" ++ 47 :: str "cloud_updated") || twinUpdate a b) := by
  rw [Bool.eq_iff_iff]
  simp only [twinUpdate, Bool.or_eq_true, Bool.and_eq_true, contains_iff,
    List.isSuffixOf_iff_suffix, List.isPrefixOf_iff_prefix]
  rw [infix_append_sep_of_sep (by decide) (by decide), or_assoc]

theorem contains_twin_of_name {name : GoString} (h : ValidName name) :
    contains name (str "twin" ++ 47 :: str "cloud_updated") = false := by
  rw [Bool.eq_false_iff, ne_eq, contains_iff]
  intro hwithin
  exact h.2.1 (hwithin.subset (by decide))

theorem twinUpdate_append_sep (a b c : GoString) :
    twinUpdate a (b ++ 47 :: c) = twinUpdate a b := by
  rw [Bool.eq_iff_iff]
  simp only [twinUpdate, Bool.and_eq_true, List.isPrefixOf_iff_prefix]
  rw [prefix_append_sep (by decide)]

section

variable (n : Names) (resourceType : GoString)

theorem path_eq :
    n.path resourceType =
      str "node" ++ 47 :: (n.node ++ 47 :: (n.ns ++ 47 :: (resourceType ++ 47 :: n.object))) := by
  simp [Names.path]

theorem hasListWord_path :
    hasListWord (n.path resourceType) =
      (hasListWord n.node || (hasListWord n.ns || (hasListWord resourceType ||
        hasListWord n.object))) := by
  have hnode : hasListWord (str "node") = false := by decide
  rw [path_eq]
  simp [hasListWord_append_sep, hnode, Bool.false_or]

theorem contains_twin_path :
    contains (n.path resourceType) (str "twin" ++ 47 :: str "cloud_updated") =
      (contains resourceType (str "twin" ++ 47 :: str "cloud_updated") ||
        twinUpdate n.node n.ns || twinUpdate n.ns resourceType ||
        twinUpdate resourceType n.object) := by
  have hnode : contains (str "node") (str "twin" ++ 47 :: str "cloud_updated") = false := by
    decide
  have hfirst : ∀ b, twinUpdate (str "node") b = false := by
    intro b
    have : (str "twin").isSuffixOf (str "node") = false := by decide
    simp [twinUpdate, this]
  rw [path_eq]
  simp only [contains_twin_append_sep, twinUpdate_append_sep, hnode, hfirst,
    contains_twin_of_name n.valid_node, contains_twin_of_name n.valid_ns,
    contains_twin_of_name n.valid_object, Bool.false_or, Bool.or_false]
  ac_rfl

theorem split_path :
    split 47 (n.path resourceType) =
      str "node" :: n.node :: n.ns :: (split 47 resourceType ++ split 47 n.object) := by
  rw [path_eq, split_append_sep (by decide), split_append_sep n.valid_node.2.1,
    split_append_sep n.valid_ns.2.1]
  congr 3
  exact List.splitOnP_append_cons _ _ (by simp)

end

theorem getResourceType_withNames (m : Message) (resourceType : GoString) (n : Names) :
    (m.withNames resourceType n).getResourceType = ((split 47 resourceType)[0]?).getD [] := by
  have hne : 0 < (split 47 resourceType).length :=
    List.length_pos_of_ne_nil (List.splitOnP_ne_nil _ _)
  change ((split 47 (n.path resourceType))[3]?).getD [] = _
  rw [split_path]
  simp only [List.getElem?_cons_succ]
  rw [List.getElem?_append_left hne]

theorem getNodeID_withNames (m : Message) (resourceType : GoString) (n : Names) :
    (m.withNames resourceType n).getNodeID = some n.node := by
  unfold Message.getNodeID Message.withNames
  rw [split_path]
  simp [nodeToken, n.valid_node.1]

/-- What decides about the queue: the kind and the type of the message, or a name. -/
theorem isListResource_withNames (m : Message) (text : Option GoString) (resourceType : GoString)
    (n : Names) :
    (m.withNames resourceType n).isListResource text =
      (m.listType text resourceType || n.spells resourceType) := by
  unfold Message.isListResource
  rw [getResourceType_withNames]
  change (hasListWord (n.path resourceType) || contains (n.path resourceType) _ ||
    m.listKind text _) = _
  rw [hasListWord_path, contains_twin_path]
  unfold Message.listType Names.spells
  ac_rfl

theorem dispatchMessage_withNames (m : Message) (text : Option GoString) (resourceType : GoString)
    (n : Names) :
    dispatchMessage (m.withNames resourceType n) text =
      some (n.node, if m.listType text resourceType || n.spells resourceType then .listQueue
        else .nodeQueue) := by
  unfold dispatchMessage
  rw [getNodeID_withNames, isListResource_withNames]
  rfl

/-- Messages about two objects of one type go to the same kind of queue exactly if the type
decides, or the names of both spell a list word, or those of neither do. -/
theorem same_queue_iff (m : Message) (text : Option GoString) (resourceType : GoString)
    (n n' : Names) :
    (dispatchMessage (m.withNames resourceType n) text).map Prod.snd =
        (dispatchMessage (m.withNames resourceType n') text).map Prod.snd ↔
      m.listType text resourceType = true ∨ n.spells resourceType = n'.spells resourceType := by
  rw [dispatchMessage_withNames, dispatchMessage_withNames]
  cases m.listType text resourceType <;> cases n.spells resourceType <;>
    cases n'.spells resourceType <;> simp

namespace Sample

/-- A pod of the node `edge1` in the namespace `default`. -/
def podNames (pod : GoString) (h : ValidName pod) : Names where
  node := str "edge1"
  ns := str "default"
  object := pod
  valid_node := by decide +kernel
  valid_ns := by decide +kernel
  valid_object := h

end Sample

open Sample

/-- The pod `web` waits for its answer, the pod `envoy` does not. -/
theorem pod_envoy_listQueue :
    let m := pod (str "update") (str "7")
    let web := podNames (str "web") (by decide +kernel)
    let envoy := podNames (str "envoy") (by decide +kernel)
    dispatchMessage (m.withNames (str "pod") web) none = some (str "edge1", .nodeQueue) ∧
      dispatchMessage (m.withNames (str "pod") envoy) none = some (str "edge1", .listQueue) := by
  decide +kernel

end KubeEdge.CloudHub
