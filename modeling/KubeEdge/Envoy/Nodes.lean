import KubeEdge.Envoy.Isolation

namespace KubeEdge.Envoy
open Go Go.Machine LocationCache

/-- The controller and the nodes as they were delivered last. -/
structure NodeState where
  c : Controller
  nodes : Indexer Node (·.name)

/-- `initCache` gets the nodes in the order in which the lister returns them. -/
inductive NodeEvent
  | add (node : Node)
  | update (cur : Node)
  | delete (name : GoString)
  | initCache (order : List GoString)

/-- Updates and deletions are of the object delivered last, and `initCache` lists the objects
delivered last; `none` if there is no such object. -/
def nodeStep (s : NodeState) : NodeEvent → Option NodeState
  | .add node => some ⟨(addNode node s.c).1, s.nodes.put node⟩
  | .update cur =>
    (s.nodes.get cur.name).map fun old => ⟨(updateNode old cur s.c).1, s.nodes.put cur⟩
  | .delete name =>
    (s.nodes.get name).map fun node => ⟨deleteNode node s.c, s.nodes.remove name⟩
  | .initCache order =>
    if order.Perm (s.nodes.objects.map (·.name)) then
      some { s with c := { s.c with lc := initCache (order.filterMap s.nodes.get) s.c.lc } }
    else none

/-- A controller that knows no node. -/
def NodeState.empty (c : Controller) : NodeState := ⟨{ c with lc := {} }, ∅⟩

/-- Each map is the inverse of the other, and they record known nodes only, in groups of the
label these were delivered with. -/
def GroupsInverse (lc : LocationCache) (nodes : Indexer Node (·.name)) : Prop :=
  ∀ n g, (n ∈ lc.members g ↔ g ∈ lc.groups n) ∧
    (n ∈ lc.members g → ∃ node, nodes.get n = some node ∧ g ∈ labelGroups node)

def NodeState.Inverse (s : NodeState) : Prop := GroupsInverse s.c.lc s.nodes

/-- A node that is added is recorded at most in groups of its label. -/
def AddFits (s : NodeState) : NodeEvent → Prop
  | .add node => ∀ g, node.name ∈ s.c.lc.members g → g ∈ labelGroups node
  | _ => True

/-- A node is added when it is not known, or with the label it is known with. -/
def AddKnown (s : NodeState) : NodeEvent → Prop
  | .add node => ∀ old, s.nodes.get node.name = some old →
      index old.labels nodeGroupLabel = index node.labels nodeGroupLabel
  | _ => True

section

variable {lc : LocationCache} {nodes nodes' : Indexer Node (·.name)} {node : Node}

section

variable (h : GroupsInverse lc nodes)
include h

theorem GroupsInverse.congr (hget : ∀ n, nodes'.get n = nodes.get n) : GroupsInverse lc nodes' := by
  intro n g
  refine ⟨(h n g).1, fun hn => ?_⟩
  rw [hget]
  exact (h n g).2 hn

/-- Recording a node keeps the maps inverse exactly if the node is not recorded in other
groups. -/
theorem groupsInverse_updateNodeGroup :
    GroupsInverse (lc.updateNodeGroup node) (nodes.put node) ↔
      ∀ g, node.name ∈ lc.members g → g ∈ labelGroups node := by
  constructor
  · intro h' g hg
    have hmem : node.name ∈ (lc.updateNodeGroup node).members g :=
      mem_members_updateNodeGroup.mpr (.inr hg)
    obtain ⟨node', hget, hlabel⟩ := (h' node.name g).2 hmem
    rw [Indexer.get_put, if_pos rfl] at hget
    rwa [Option.some.inj hget]
  · intro hfits n g
    rw [mem_members_updateNodeGroup, groups_updateNodeGroup,
      Indexer.get_put]
    by_cases hn : n = node.name
    · subst hn
      constructor
      · split_ifs with hrec
        · have hg := hfits g
          tauto
        · rw [← (h node.name g).1]
          tauto
      · rintro (⟨-, -, -, hg⟩ | hg)
        · exact ⟨node, if_pos rfl, hg⟩
        · exact ⟨node, if_pos rfl, hfits g hg⟩
    · rw [if_neg fun hc => hn hc.1, if_neg hn]
      simpa [hn] using h n g

theorem GroupsInverse.deleteNodeGroup (hnode : nodes.get node.name = some node) :
    GroupsInverse (lc.deleteNodeGroup node) (nodes.remove node.name) := by
  have hlabel {g : GoString} (hg : node.name ∈ lc.members g) :
      nodeGroupLabel ∈ node.labels ∧ g ∈ labelGroups node := by
    obtain ⟨node', hget, hg'⟩ := (h node.name g).2 hg
    obtain rfl := Option.some.inj (hnode.symm.trans hget)
    exact ⟨label_of_mem_labelGroups hg', hg'⟩
  intro n g
  rw [mem_members_deleteNodeGroup, mem_groups_deleteNodeGroup,
    Indexer.get_remove, ← (h n g).1]
  by_cases hn : n = node.name
  · subst hn
    have hgone := hlabel (g := g)
    refine ⟨by tauto, ?_⟩
    rintro ⟨hg, hnot⟩
    exact absurd ⟨rfl, hlabel hg⟩ hnot
  · rw [if_neg hn]
    refine ⟨by tauto, fun hg => (h n g).2 hg.1⟩

theorem GroupsInverse.initCache {order : List Node}
    (horder : ∀ node ∈ order, nodes.get node.name = some node) :
    GroupsInverse (initCache order lc) nodes := by
  induction order generalizing lc with
  | nil => exact h
  | cons node order ih =>
    rw [List.forall_mem_cons] at horder
    refine ih ?_ horder.2
    dsimp only
    split_ifs
    · have hput : GroupsInverse (lc.updateNodeGroup node) (nodes.put node) := by
        refine (groupsInverse_updateNodeGroup h).mpr fun g hg => ?_
        obtain ⟨node', hget, hg'⟩ := (h node.name g).2 hg
        rwa [Option.some.inj (horder.1.symm.trans hget)]
      have hsame : GroupsInverse (lc.updateNodeGroup node) nodes := by
        refine hput.congr fun n => ?_
        rw [Indexer.get_put]
        split_ifs with hn
        · rw [hn, horder.1]
        · rfl
      intro n g
      rw [members_updateEdgeNode, groups_updateEdgeNode]
      exact hsame n g
    · exact h

end

end

theorem regroup_inverse {lc : LocationCache} {nodes : Indexer Node (·.name)} {old cur : Node}
    (h : GroupsInverse lc nodes) (hold : nodes.get cur.name = some old) :
    GroupsInverse (lc.regroup old cur) (nodes.put cur) := by
  have hname : old.name = cur.name := (Indexer.get_eq_some.mp hold).2
  unfold regroup
  split_ifs with hlabel
  · have hdel : GroupsInverse (lc.deleteNodeGroup old) (nodes.remove old.name) :=
      h.deleteNodeGroup (by rw [hname, hold])
    have hput : GroupsInverse ((lc.deleteNodeGroup old).updateNodeGroup cur)
        ((nodes.remove old.name).put cur) := by
      apply (groupsInverse_updateNodeGroup hdel).mpr
      intro g hg
      -- the node is recorded nowhere, so there is nothing to compare
      obtain ⟨node, hget, -⟩ := (hdel cur.name g).2 hg
      rw [Indexer.get_remove, if_pos hname.symm] at hget
      cases hget
    refine hput.congr fun n => ?_
    rw [Indexer.get_put, Indexer.get_put, Indexer.get_remove, hname]
    split_ifs <;> rfl
  · intro n g
    refine ⟨(h n g).1, fun hn => ?_⟩
    obtain ⟨node, hnode, hg⟩ := (h n g).2 hn
    rw [Indexer.get_put]
    split_ifs with heq
    · subst heq
      obtain rfl := Option.some.inj (hold.symm.trans hnode)
      exact ⟨cur, rfl, labelGroups_congr (not_not.mp hlabel).symm ▸ hg⟩
    · exact ⟨node, hnode, hg⟩

theorem inverse_step {s s' : NodeState} (event : NodeEvent) (hs : s.Inverse)
    (h : nodeStep s event = some s') : s'.Inverse ↔ AddFits s event := by
  have hedge {lc : LocationCache} {nodes : Indexer Node (·.name)} (node : Node) :
      GroupsInverse (lc.updateEdgeNode node) nodes ↔ GroupsInverse lc nodes := by
    unfold GroupsInverse
    simp [members_updateEdgeNode, groups_updateEdgeNode]
  cases event with
  | add node =>
    cases h
    rw [(addNode_spec node s.c).1]
    exact (hedge node).trans (groupsInverse_updateNodeGroup hs)
  | update cur =>
    obtain ⟨old, hold, rfl⟩ := Option.map_eq_some_iff.mp h
    refine iff_of_true ?_ trivial
    rw [(updateNode_spec old cur s.c).1]
    exact (hedge cur).mpr (regroup_inverse hs hold)
  | delete name =>
    obtain ⟨node, hnode, rfl⟩ := Option.map_eq_some_iff.mp h
    obtain rfl : node.name = name := (Indexer.get_eq_some.mp hnode).2
    exact iff_of_true (hs.deleteNodeGroup hnode) trivial
  | initCache order =>
    unfold nodeStep at h
    dsimp only at h
    split_ifs at h
    cases h
    refine iff_of_true (hs.initCache fun node hnode => ?_) trivial
    obtain ⟨name, -, hget⟩ := List.mem_filterMap.mp hnode
    rwa [(Indexer.get_eq_some.mp hget).2]

theorem addFits_of_addKnown {s : NodeState} (event : NodeEvent) (hs : s.Inverse)
    (h : AddKnown s event) : AddFits s event := by
  cases event with
  | add node =>
    intro g hg
    obtain ⟨old, hold, hlabel⟩ := (hs node.name g).2 hg
    exact labelGroups_congr (h old hold) ▸ hlabel
  | update cur | delete name | initCache order => trivial

theorem inverse_empty (c : Controller) : (NodeState.empty c).Inverse := by
  intro n g
  have hmembers : n ∉ (NodeState.empty c).c.lc.members g := List.not_mem_nil
  have hgroups : g ∉ (NodeState.empty c).c.lc.groups n := List.not_mem_nil
  exact ⟨iff_of_false hmembers hgroups, fun hn => absurd hn hmembers⟩

/-- The node-group maps are mutually inverse in every state of a run exactly if each node that
is added is recorded, when it is added, in groups of its label only.  That is so when a node is
added only while it is not known, or with the label it is known with. -/
theorem node_groups_inverse (c : Controller) (events : List NodeEvent) :
    (Always nodeStep NodeState.Inverse (NodeState.empty c) events ↔
      Along nodeStep AddFits (NodeState.empty c) events) ∧
    (Along nodeStep AddKnown (NodeState.empty c) events →
      Always nodeStep NodeState.Inverse (NodeState.empty c) events) := by
  refine ⟨always_iff_along (fun s a s' hs h => inverse_step a hs h) (inverse_empty c), ?_⟩
  apply always_of_along
  · intro s event s' hs hknown h
    exact (inverse_step event hs h).mpr (addFits_of_addKnown event hs hknown)
  · exact inverse_empty c

open Sample

/-- A node that is added again with another label stays recorded in the group of the first. -/
theorem added_twice_not_inverse : ¬ Always nodeStep NodeState.Inverse (NodeState.empty {})
    [.add (readyNode (str "edge")), .add (readyNode (str "core"))] := by
  intro h
  have hlast := h.last rfl (str "node") (str "edge")
  exact absurd (hlast.1.mp (by decide +kernel)) (by decide +kernel)

/-- Every known node with a Ready condition is recorded in all groups of its label. -/
def NodeState.Complete (s : NodeState) : Prop :=
  ∀ n node g, s.nodes.get n = some node → (readyStatus node).isSome → g ∈ labelGroups node →
    n ∈ s.c.lc.members g

/-- An update that leaves the label alone and delivers a Ready condition finds the node
recorded. -/
def UpdateFinds (s : NodeState) : NodeEvent → Prop
  | .update cur => ∀ old, s.nodes.get cur.name = some old →
      index cur.labels nodeGroupLabel = index old.labels nodeGroupLabel →
      (readyStatus cur).isSome → ∀ g ∈ labelGroups cur, cur.name ∈ s.c.lc.members g
  | _ => True

theorem complete_step {s s' : NodeState} (event : NodeEvent) (hs : s.Complete)
    (h : nodeStep s event = some s') : s'.Complete ↔ UpdateFinds s event := by
  cases event with
  | add node =>
    cases h
    refine iff_of_true ?_ trivial
    intro n node' g hget hready hg
    rw [(addNode_spec node s.c).1]
    rw [members_updateEdgeNode, mem_members_updateNodeGroup]
    rw [Indexer.get_put] at hget
    split_ifs at hget with hn
    · obtain rfl := Option.some.inj hget
      exact .inl ⟨hn, hready, label_of_mem_labelGroups hg, hg⟩
    · exact .inr (hs n node' g hget hready hg)
  | update cur =>
    obtain ⟨old, hold, rfl⟩ := Option.map_eq_some_iff.mp h
    have hname : old.name = cur.name := (Indexer.get_eq_some.mp hold).2
    unfold NodeState.Complete
    rw [(updateNode_spec old cur s.c).1]
    simp only [members_updateEdgeNode, Indexer.get_put]
    constructor
    · intro hcomplete old' hold' hlabel hready g hg
      obtain rfl := Option.some.inj (hold.symm.trans hold')
      have hmem := hcomplete cur.name cur g (if_pos rfl) hready hg
      unfold regroup at hmem
      rwa [if_neg (not_not.mpr hlabel)] at hmem
    · intro hfinds n node g hget hready hg
      split_ifs at hget with hn
      · obtain rfl := Option.some.inj hget
        rw [hn]
        unfold regroup
        split_ifs with hlabel
        · rw [mem_members_updateNodeGroup]
          exact .inl ⟨rfl, hready, label_of_mem_labelGroups hg, hg⟩
        · exact hfinds old hold (not_not.mp hlabel) hready g hg
      · rw [mem_members_regroup hname hn]
        exact hs n node g hget hready hg
  | delete name =>
    obtain ⟨node, hnode, rfl⟩ := Option.map_eq_some_iff.mp h
    have hname : node.name = name := (Indexer.get_eq_some.mp hnode).2
    refine iff_of_true ?_ trivial
    intro n node' g hget hready hg
    dsimp only [deleteNode] at hget ⊢
    rw [Indexer.get_remove] at hget
    split_ifs at hget with hn
    rw [members_deleteEdgeNode, mem_members_deleteNodeGroup]
    exact ⟨hs n node' g hget hready hg, fun hc => hn (hc.1.trans hname)⟩
  | initCache order =>
    unfold nodeStep at h
    dsimp only at h
    split_ifs at h
    cases h
    refine iff_of_true ?_ trivial
    intro n node g hget hready hg
    exact mem_members_initCache.mpr (.inl (hs n node g hget hready hg))

/-- What is known of the nodes from the objects that were delivered. -/
structure Deliveries where
  nodes : Indexer Node (·.name) := ∅
  /-- The nodes whose last add or label change had a Ready condition, or that `initCache` has
  listed with one since. -/
  noted : List GoString := []

def Deliveries.note (d : Deliveries) (node : Node) : List GoString :=
  if (readyStatus node).isSome then node.name :: d.noted else d.noted.filter (· ≠ node.name)

/-- Events as an informer delivers them: a node that is added is not known. -/
def deliver (d : Deliveries) : NodeEvent → Option Deliveries
  | .add node => if (d.nodes.get node.name).isNone then some ⟨d.nodes.put node, d.note node⟩
      else none
  | .update cur =>
    (d.nodes.get cur.name).map fun old =>
      ⟨d.nodes.put cur, if index cur.labels nodeGroupLabel ≠ index old.labels nodeGroupLabel
        then d.note cur else d.noted⟩
  | .delete name => (d.nodes.get name).map fun _ => ⟨d.nodes.remove name, d.noted⟩
  | .initCache order =>
    if order.Perm (d.nodes.objects.map (·.name)) then
      some { d with noted := d.noted ++ ((order.filterMap d.nodes.get).filter fun node =>
        (readyStatus node).isSome).map (·.name) }
    else none

/-- An update that keeps a label with a group and delivers a Ready condition is of a node that is
noted. -/
def UpdateNoted (d : Deliveries) : NodeEvent → Prop
  | .update cur => ∀ old, d.nodes.get cur.name = some old →
      index cur.labels nodeGroupLabel = index old.labels nodeGroupLabel →
      (readyStatus cur).isSome → labelGroups cur ≠ [] → cur.name ∈ d.noted
  | _ => True

/-- The members of a group are the nodes that are noted and have it in their label. -/
structure Tracks (s : NodeState) (d : Deliveries) : Prop where
  nodes : s.nodes = d.nodes
  members : ∀ n g, n ∈ s.c.lc.members g ↔
    n ∈ d.noted ∧ ∃ node, d.nodes.get n = some node ∧ g ∈ labelGroups node

theorem mem_note {d : Deliveries} {node : Node} {n : GoString} :
    n ∈ d.note node ↔ n = node.name ∧ (readyStatus node).isSome ∨ n ≠ node.name ∧ n ∈ d.noted := by
  unfold Deliveries.note
  by_cases hn : n = node.name <;> split_ifs with hready <;> simp [hn, hready]

section

variable {s : NodeState} {d d' : Deliveries}

theorem Tracks.add {node : Node} (h : Tracks s d) (hnew : d.nodes.get node.name = none) :
    Tracks ⟨(addNode node s.c).1, s.nodes.put node⟩ ⟨d.nodes.put node, d.note node⟩ := by
  refine ⟨congrArg (·.put node) h.nodes, fun n g => ?_⟩
  rw [(addNode_spec node s.c).1, members_updateEdgeNode, mem_members_updateNodeGroup, h.members,
    mem_note, Indexer.get_put]
  by_cases hn : n = node.name
  · subst hn
    have hlabel := @label_of_mem_labelGroups node g
    simp only [hnew, true_and, ne_eq, not_true_eq_false, false_and, or_false, if_true,
      Option.some.injEq, exists_eq_left', reduceCtorEq, exists_false, and_false]
    tauto
  · simp [hn]

theorem Tracks.update {old cur : Node} (h : Tracks s d) (hold : d.nodes.get cur.name = some old) :
    Tracks ⟨(updateNode old cur s.c).1, s.nodes.put cur⟩
      ⟨d.nodes.put cur, if index cur.labels nodeGroupLabel ≠ index old.labels nodeGroupLabel
        then d.note cur else d.noted⟩ := by
  have hname : old.name = cur.name := (Indexer.get_eq_some.mp hold).2
  refine ⟨congrArg (·.put cur) h.nodes, fun n g => ?_⟩
  rw [(updateNode_spec old cur s.c).1, members_updateEdgeNode, Indexer.get_put]
  by_cases hn : n = cur.name
  · subst hn
    rw [if_pos rfl]
    unfold regroup
    split_ifs with hlabel
    · -- the node has left all its groups
      have hcur := @label_of_mem_labelGroups cur g
      have hold' := @label_of_mem_labelGroups old g
      rw [mem_members_updateNodeGroup, mem_members_deleteNodeGroup, h.members, mem_note]
      simp only [hold, hname, Option.some.injEq, exists_eq_left', true_and, ne_eq,
        not_true_eq_false, false_and, or_false]
      tauto
    · rw [h.members, hold]
      simp [labelGroups_congr (not_not.mp hlabel)]
  · rw [mem_members_regroup hname hn, h.members, if_neg hn]
    split_ifs
    · simp [mem_note, hn]
    · rfl

theorem Tracks.delete {node : Node} (h : Tracks s d)
    (hnode : d.nodes.get node.name = some node) :
    Tracks ⟨deleteNode node s.c, s.nodes.remove node.name⟩ ⟨d.nodes.remove node.name, d.noted⟩ := by
  refine ⟨congrArg (·.remove node.name) h.nodes, fun n g => ?_⟩
  dsimp only [deleteNode]
  rw [members_deleteEdgeNode, mem_members_deleteNodeGroup, h.members, Indexer.get_remove]
  by_cases hn : n = node.name
  · subst hn
    have hlabel := @label_of_mem_labelGroups node g
    simp only [hnode, Option.some.injEq, exists_eq_left', if_true, reduceCtorEq, false_and,
      exists_false, and_false, iff_false, true_and]
    tauto
  · simp [hn]

theorem Tracks.initCache {order : List GoString} (h : Tracks s d) :
    Tracks { s with c := { s.c with lc := initCache (order.filterMap s.nodes.get) s.c.lc } }
      { d with noted := d.noted ++ ((order.filterMap d.nodes.get).filter fun node =>
        (readyStatus node).isSome).map (·.name) } := by
  refine ⟨h.nodes, fun n g => ?_⟩
  dsimp only
  rw [mem_members_initCache, h.members, h.nodes, List.mem_append, List.mem_map, or_and_right]
  refine or_congr_right ?_
  constructor
  · rintro ⟨node, hnode, rfl, hready, -, hg⟩
    obtain ⟨name, -, hget⟩ := List.mem_filterMap.mp hnode
    refine ⟨⟨node, List.mem_filter.mpr ⟨hnode, hready⟩, rfl⟩, node, ?_, hg⟩
    rwa [(Indexer.get_eq_some.mp hget).2]
  · rintro ⟨⟨node, hnode, rfl⟩, node', hget', hg⟩
    obtain ⟨hnode, hready⟩ := List.mem_filter.mp hnode
    obtain ⟨name, -, hget⟩ := List.mem_filterMap.mp hnode
    rw [← (Indexer.get_eq_some.mp hget).2] at hget
    obtain rfl := Option.some.inj (hget.symm.trans hget')
    exact ⟨node, hnode, rfl, hready, label_of_mem_labelGroups hg, hg⟩

theorem tracks_step (event : NodeEvent) (h : Tracks s d) (hd : deliver d event = some d') :
    ∃ s', nodeStep s event = some s' ∧ Tracks s' d' := by
  cases event with
  | add node =>
    unfold deliver at hd
    dsimp only at hd
    split_ifs at hd with hnew
    cases hd
    exact ⟨_, rfl, h.add (Option.isNone_iff_eq_none.mp hnew)⟩
  | update cur =>
    obtain ⟨old, hold, rfl⟩ := Option.map_eq_some_iff.mp hd
    refine ⟨_, ?_, h.update hold⟩
    simp only [nodeStep, h.nodes, hold, Option.map_some]
  | delete name =>
    obtain ⟨node, hnode, rfl⟩ := Option.map_eq_some_iff.mp hd
    obtain rfl : node.name = name := (Indexer.get_eq_some.mp hnode).2
    refine ⟨_, ?_, h.delete hnode⟩
    simp only [nodeStep, h.nodes, hnode, Option.map_some]
  | initCache order =>
    unfold deliver at hd
    dsimp only at hd
    split_ifs at hd with horder
    cases hd
    refine ⟨_, ?_, h.initCache⟩
    simp only [nodeStep, h.nodes, if_pos horder]

theorem updateFinds_iff (event : NodeEvent) (h : Tracks s d) :
    UpdateFinds s event ↔ UpdateNoted d event := by
  cases event with
  | update cur =>
    unfold UpdateFinds UpdateNoted
    rw [h.nodes]
    refine forall_congr' fun old => forall₃_congr fun hold hlabel _ => ?_
    have hmember : ∀ g ∈ labelGroups cur,
        (cur.name ∈ s.c.lc.members g ↔ cur.name ∈ d.noted) := by
      intro g hg
      rw [h.members, hold]
      simp [← labelGroups_congr hlabel, hg]
    constructor
    · intro hfinds hne
      obtain ⟨g, hg⟩ := List.exists_mem_of_ne_nil _ hne
      exact (hmember g hg).mp (hfinds g hg)
    · intro hnoted g hg
      exact (hmember g hg).mpr (hnoted (List.ne_nil_of_mem hg))
  | add node | delete name | initCache order => exact Iff.rfl

end

theorem tracks_empty (c : Controller) : Tracks (NodeState.empty c) {} := by
  refine ⟨rfl, fun n g => ?_⟩
  have hmembers : n ∉ (NodeState.empty c).c.lc.members g := List.not_mem_nil
  exact iff_of_false hmembers fun h => List.not_mem_nil h.1

/-- The node-group maps are complete in every state of a run exactly if, whenever an update keeps
the label and delivers a Ready condition, the last add or label change of the node, or a listing
since, had one as well. -/
theorem node_groups_complete_iff (c : Controller) (events : List NodeEvent)
    (hdelivered : (run deliver {} events).isSome) :
    Always nodeStep NodeState.Complete (NodeState.empty c) events ↔
      Along deliver UpdateNoted {} events := by
  refine always_iff_along_of_tracks (T := Tracks) ?_ ?_ (tracks_empty c) ?_ hdelivered
  · intro s d event d' ht hd
    exact tracks_step event ht hd
  · intro s d event s' ht hs h
    exact (complete_step event hs h).trans (updateFinds_iff event ht)
  · intro n node g hget
    cases hget

namespace Sample

/-- A node of the group `edge` that has not reported any condition yet. -/
def silentNode : Node := { readyNode (str "edge") with conditions := [] }

/-- The node changes its group before it reports, and is not ready at last. -/
def relabelled : List NodeEvent :=
  [.add silentNode, .update (readyNode (str "core")),
    .update { readyNode (str "core") with conditions := [⟨.ready, .false⟩] }]

end Sample

theorem node_groups_complete_relabelled : (run deliver {} relabelled).isSome ∧
    Always nodeStep NodeState.Complete (NodeState.empty {}) relabelled := by
  have hdelivered : (run deliver {} relabelled).isSome := by decide +kernel
  refine ⟨hdelivered, (node_groups_complete_iff {} relabelled hdelivered).mpr ?_⟩
  rintro d₁ ⟨⟩
  refine ⟨trivial, ?_⟩
  rintro d₂ ⟨⟩
  refine ⟨?_, ?_⟩
  · rintro old ⟨⟩ hlabel
    exact absurd hlabel (by decide +kernel)
  · rintro d₃ ⟨⟩
    refine ⟨?_, trivial⟩
    rintro old ⟨⟩ - - -
    decide +kernel

/-- A node that gets its label before its Ready condition is recorded nowhere. -/
theorem late_condition_not_recorded : ¬ Always nodeStep NodeState.Complete (NodeState.empty {})
    [.add silentNode, .update (readyNode (str "edge"))] := by
  intro h
  have hlast := h.last rfl (str "node") (readyNode (str "edge")) (str "edge") rfl
    (by decide +kernel) (by decide +kernel)
  exact absurd hlast (by decide +kernel)

end KubeEdge.Envoy
