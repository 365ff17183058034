import KubeEdge.Envoy.Translate

namespace KubeEdge.Envoy
open Go

def nodeGroupLabel : GoString := str "nodegroup"

structure LocationCache where
  edgeNodes : GoMap GoString ConditionStatus := ∅
  node2group : GoMap GoString (List GoString) := ∅
  group2node : GoMap GoString (List GoString) := ∅

/-- The non-empty `;`-separated groups of the nodegroup label. -/
def labelGroups (node : Node) : List GoString :=
  (split 59 (index node.labels nodeGroupLabel)).filter (· ≠ [])

def readyStatus (node : Node) : Option ConditionStatus :=
  (node.conditions.find? fun nsc => nsc.type = .ready).map (·.status)

namespace LocationCache

def getNodeStatus (lc : LocationCache) (nodeName : GoString) : Option ConditionStatus :=
  lc.edgeNodes.lookup nodeName

/-- `Group2node[g]`. -/
def members (lc : LocationCache) (g : GoString) : List GoString := (lc.group2node.lookup g).getD []

/-- `Node2group[n]`. -/
def groups (lc : LocationCache) (n : GoString) : List GoString := (lc.node2group.lookup n).getD []

def updateEdgeNode (lc : LocationCache) (node : Node) : LocationCache :=
  if nodeGroupLabel ∈ node.labels then
    match readyStatus node with
    | some status => { lc with edgeNodes := lc.edgeNodes.insert node.name status }
    | none => lc
  else lc

def deleteEdgeNode (lc : LocationCache) (node : Node) : LocationCache :=
  { lc with edgeNodes := lc.edgeNodes.erase node.name }

/-- Take a node out of the list of one group. -/
def dropMember (node : GoString) (g2n : GoMap GoString (List GoString)) (g : GoString) :
    GoMap GoString (List GoString) :=
  match g2n.lookup g with
  | some nodes => g2n.insert g (nodes.filter (· ≠ node))
  | none => g2n

def deleteNodeGroup (lc : LocationCache) (node : Node) : LocationCache :=
  if nodeGroupLabel ∈ node.labels then
    { lc with
      node2group := lc.node2group.erase node.name
      group2node := (labelGroups node).foldl (dropMember node.name) lc.group2node }
  else lc

/-- Append a node to the list of one group, whether it is there already or not. -/
def addMember (node : GoString) (g2n : GoMap GoString (List GoString)) (g : GoString) :
    GoMap GoString (List GoString) :=
  g2n.insert g ((g2n.lookup g).getD [] ++ [node])

/-- `UpdateNodeGroup`: only for a node that has a Ready condition, whatever its status. -/
def updateNodeGroup (lc : LocationCache) (node : Node) : LocationCache :=
  if (readyStatus node).isSome ∧ nodeGroupLabel ∈ node.labels then
    { lc with
      node2group := lc.node2group.insert node.name (labelGroups node)
      group2node := (labelGroups node).foldl (addMember node.name) lc.group2node }
  else lc

theorem lookup_foldl_dropMember (node : GoString) (groups : List GoString)
    (g2n : GoMap GoString (List GoString)) (g : GoString) :
    ((groups.foldl (dropMember node) g2n).lookup g).getD [] =
      if g ∈ groups then ((g2n.lookup g).getD []).filter (· ≠ node)
        else (g2n.lookup g).getD [] := by
  induction groups generalizing g2n with
  | nil => simp
  | cons h groups ih =>
    have hdrop : ((dropMember node g2n h).lookup g).getD [] =
        if g = h then ((g2n.lookup g).getD []).filter (· ≠ node) else (g2n.lookup g).getD [] := by
      unfold dropMember
      cases hl : g2n.lookup h with
      | none | some nodes =>
        by_cases hg : g = h
        · subst hg
          simp [hl]
        · simp [hg]
    rw [List.foldl_cons, ih, hdrop]
    by_cases hg : g = h
    · by_cases hgs : g ∈ groups <;> simp [hg, List.filter_filter]
    · simp [hg]

variable {g n : GoString} {lc : LocationCache} {node : Node}

theorem mem_foldl_addMember {node : GoString} {groups : List GoString}
    {g2n : GoMap GoString (List GoString)} :
    n ∈ ((groups.foldl (addMember node) g2n).lookup g).getD [] ↔
      (n = node ∧ g ∈ groups) ∨ n ∈ (g2n.lookup g).getD [] := by
  induction groups generalizing g2n with
  | nil => simp
  | cons h groups ih =>
    have hadd : n ∈ ((addMember node g2n h).lookup g).getD [] ↔
        (n = node ∧ g = h) ∨ n ∈ (g2n.lookup g).getD [] := by
      unfold addMember
      by_cases hg : g = h
      · subst hg
        simp [or_comm]
      · simp [hg]
    rw [List.foldl_cons, ih, hadd, List.mem_cons]
    tauto

theorem mem_members_deleteNodeGroup :
    n ∈ (lc.deleteNodeGroup node).members g ↔ n ∈ lc.members g ∧
      ¬ (n = node.name ∧ nodeGroupLabel ∈ node.labels ∧ g ∈ labelGroups node) := by
  unfold deleteNodeGroup members
  by_cases hl : nodeGroupLabel ∈ node.labels
  · rw [if_pos hl]
    rw [lookup_foldl_dropMember]
    by_cases hg : g ∈ labelGroups node <;> simp [hg, hl]
  · simp [hl]

theorem mem_members_updateNodeGroup :
    n ∈ (lc.updateNodeGroup node).members g ↔
      (n = node.name ∧ (readyStatus node).isSome ∧ nodeGroupLabel ∈ node.labels ∧
        g ∈ labelGroups node) ∨ n ∈ lc.members g := by
  unfold updateNodeGroup members
  by_cases hc : (readyStatus node).isSome ∧ nodeGroupLabel ∈ node.labels
  · rw [if_pos hc]
    rw [mem_foldl_addMember]
    simp [hc.1, hc.2]
  · rw [if_neg hc]
    tauto

theorem mem_groups_deleteNodeGroup :
    g ∈ (lc.deleteNodeGroup node).groups n ↔
      g ∈ lc.groups n ∧ ¬ (n = node.name ∧ nodeGroupLabel ∈ node.labels) := by
  unfold deleteNodeGroup groups
  by_cases hl : nodeGroupLabel ∈ node.labels
  · rw [if_pos hl]
    rw [GoMap.lookup_erase]
    by_cases hn : n = node.name <;> simp [hn, hl]
  · simp [hl]

section

variable (lc) (node)

theorem groups_updateNodeGroup (n : GoString) :
    (lc.updateNodeGroup node).groups n =
      if n = node.name ∧ (readyStatus node).isSome ∧ nodeGroupLabel ∈ node.labels then
        labelGroups node
      else lc.groups n := by
  unfold updateNodeGroup groups
  by_cases hc : (readyStatus node).isSome ∧ nodeGroupLabel ∈ node.labels
  · rw [if_pos hc]
    rw [GoMap.lookup_insert]
    by_cases hn : n = node.name <;> simp [hn, hc]
  · rw [if_neg hc, if_neg fun h => hc h.2]

@[simp] theorem members_updateEdgeNode (g : GoString) :
    (lc.updateEdgeNode node).members g = lc.members g := by
  unfold updateEdgeNode
  split_ifs
  · split <;> rfl
  · rfl

@[simp] theorem groups_updateEdgeNode (n : GoString) :
    (lc.updateEdgeNode node).groups n = lc.groups n := by
  unfold updateEdgeNode
  split_ifs
  · split <;> rfl
  · rfl

@[simp] theorem members_deleteEdgeNode (g : GoString) :
    (lc.deleteEdgeNode node).members g = lc.members g := rfl

@[simp] theorem getNodeStatus_deleteNodeGroup (n : GoString) :
    (lc.deleteNodeGroup node).getNodeStatus n = lc.getNodeStatus n := by
  unfold deleteNodeGroup
  split_ifs <;> rfl

@[simp] theorem getNodeStatus_updateNodeGroup (n : GoString) :
    (lc.updateNodeGroup node).getNodeStatus n = lc.getNodeStatus n := by
  unfold updateNodeGroup
  split_ifs <;> rfl

theorem getNodeStatus_updateEdgeNode (n : GoString) :
    (lc.updateEdgeNode node).getNodeStatus n =
      if n = node.name ∧ nodeGroupLabel ∈ node.labels ∧ (readyStatus node).isSome then
        readyStatus node
      else lc.getNodeStatus n := by
  unfold updateEdgeNode getNodeStatus
  by_cases hl : nodeGroupLabel ∈ node.labels
  · rw [if_pos hl]
    cases hr : readyStatus node with
    | none => simp
    | some status => simp [hl, GoMap.lookup_insert]
  · simp [hl]

end

end LocationCache

end KubeEdge.Envoy
