import KubeEdge.CloudHub.Queue

namespace KubeEdge.CloudHub.Limit
open Go Machine

/-- Where a goroutine of `ServeConn` is. -/
inductive Phase
  /-- Before `RegisterNode` looks for the connection. -/
  | starting
  /-- Before `RegisterNode` stores the node. -/
  | registering
  /-- The handlers run. -/
  | serving
  /-- In `UnregisterNode`, before the node is deleted. -/
  | leaving
  deriving DecidableEq, Repr

/-- The maps of `MessageHandle`. -/
structure Hub where
  nodes : GoSet GoString := ∅
  nodeConns : GoSet GoString := ∅
  nodeLocks : GoSet GoString := ∅
  nodeRegistered : GoSet GoString := ∅
  keepaliveChannel : GoSet GoString := ∅
  goroutines : GoMap ℕ (GoString × Phase) := ∅
  next : ℕ := 0

namespace Hub

def getNodeCount (s : Hub) : ℕ := s.nodes.entries.length

/-- A registered node only gets its new connection; otherwise `ServeConn` is started. -/
def onRegister (s : Hub) (node : GoString) : Hub :=
  let s := { s with
    keepaliveChannel := GoSet.add node s.keepaliveChannel
    nodeConns := GoSet.add node s.nodeConns }
  if node ∈ s.nodeRegistered then s
  else { s with goroutines := s.goroutines.insert s.next (node, .starting), next := s.next + 1 }

/-- `RegisterNode` up to the stores; without a connection `ServeConn` returns. -/
def findConnection (s : Hub) (i : ℕ) (node : GoString) : Hub :=
  if node ∈ s.nodeConns then { s with goroutines := s.goroutines.insert i (node, .registering) }
  else { s with goroutines := s.goroutines.erase i }

/-- The end of `RegisterNode`. -/
def registerNode (s : Hub) (i : ℕ) (node : GoString) : Hub :=
  { s with
    nodeLocks := GoSet.add node s.nodeLocks
    nodes := GoSet.add node s.nodes
    nodeRegistered := GoSet.add node s.nodeRegistered
    goroutines := s.goroutines.insert i (node, .serving) }

/-- `UnregisterNode` up to the message about the lost connection. -/
def closeConnection (s : Hub) (i : ℕ) (node : GoString) : Hub :=
  { s with
    nodeLocks := s.nodeLocks.erase node
    nodeConns := s.nodeConns.erase node
    nodeRegistered := s.nodeRegistered.erase node
    keepaliveChannel := s.keepaliveChannel.erase node
    goroutines := s.goroutines.insert i (node, .leaving) }

/-- The end of `UnregisterNode`. -/
def deleteNode (s : Hub) (i : ℕ) (node : GoString) : Hub :=
  { s with nodes := s.nodes.erase node, goroutines := s.goroutines.erase i }

end Hub

/-- `\w`. -/
def isWord (c : UInt8) : Bool :=
  (48 ≤ c && c ≤ 57) || (65 ≤ c && c ≤ 90) || c = 95 || (97 ≤ c && c ≤ 122)

/-- `VolumeRegExp`: a name, `volume`, and something that begins as a name. -/
def matchesVolume (resource : GoString) : Bool :=
  match split 47 resource with
  | name :: kind :: volume :: _ =>
    name.head?.any isWord && name.all (fun c => isWord c || c = 45 || c = 46 || c = 43) &&
      kind = str "volume" && volume.head?.any isWord
  | _ => false

inductive Served
  /-- "Fail to serve node, reach node limit". -/
  | refused
  | keepalive
  /-- A keepalive of a node that has no channel. -/
  | notLoaded
  | volume
  | ack
  | upload
  | published
  deriving DecidableEq, Repr

def handleServer (nodeLimit : ℕ) (s : Hub) (node : GoString) (m : Message) : Served :=
  if nodeLimit ≤ s.getNodeCount then .refused
  else if m.operation = str "keepalive" then
    if node ∈ s.keepaliveChannel then .keepalive else .notLoaded
  else if matchesVolume m.resource then .volume
  else if m.operation = str "response" then .ack
  else if m.operation = str "upload" ∧ m.group = str "user" then .upload
  else .published

inductive Event
  | connect (node : GoString)
  | findConnection (i : ℕ)
  | registerNode (i : ℕ)
  /-- A handler reports that it has stopped. -/
  | closeConnection (i : ℕ)
  | deleteNode (i : ℕ)
  /-- `KeepaliveCheckLoop` has waited for too long. -/
  | timeout (node : GoString)
  /-- `HandleServer` changes none of the maps. -/
  | message (node : GoString) (m : Message)

def step (s : Hub) : Event → Option Hub
  | .connect node => some (s.onRegister node)
  | .findConnection i =>
    match s.goroutines.lookup i with
    | some (node, .starting) => some (s.findConnection i node)
    | _ => none
  | .registerNode i =>
    match s.goroutines.lookup i with
    | some (node, .registering) => some (s.registerNode i node)
    | _ => none
  | .closeConnection i =>
    match s.goroutines.lookup i with
    | some (node, .serving) => some (s.closeConnection i node)
    | _ => none
  | .deleteNode i =>
    match s.goroutines.lookup i with
    | some (node, .leaving) => some (s.deleteNode i node)
    | _ => none
  | .timeout node => some { s with nodeConns := s.nodeConns.erase node }
  | .message _ _ => some s

/-- The nodes are within the limit, and no message of one of them would be refused. -/
structure WithinLimit (nodeLimit : ℕ) (s : Hub) : Prop where
  count : s.getNodeCount ≤ nodeLimit
  served : ∀ node ∈ s.nodes, ∀ m, handleServer nodeLimit s node m ≠ .refused

/-- A new node is registered only where the limit is not reached with it. -/
def HasRoom (nodeLimit : ℕ) (s : Hub) : Event → Prop
  | .registerNode i => ∀ node phase, s.goroutines.lookup i = some (node, phase) →
      node ∈ s.nodes ∨ s.getNodeCount + 1 < nodeLimit
  | _ => True

instance (nodeLimit : ℕ) (s : Hub) (e : Event) : Decidable (HasRoom nodeLimit s e) :=
  match e with
  | .registerNode i => decidable_of_iff
      ((s.goroutines.lookup i).all
        (fun g => g.1 ∈ s.nodes ∨ s.getNodeCount + 1 < nodeLimit) = true)
      (by simp [HasRoom, Option.all_eq_true])
  | .connect _ | .findConnection _ | .closeConnection _ | .deleteNode _ | .timeout _
  | .message _ _ => isTrue trivial

variable {nodeLimit : ℕ} {s : Hub} {node : GoString}

theorem handleServer_refused {m : Message} :
    handleServer nodeLimit s node m = .refused ↔ nodeLimit ≤ s.getNodeCount := by
  unfold handleServer
  split_ifs <;> simp_all

theorem withinLimit_iff (hlimit : 1 ≤ nodeLimit) :
    WithinLimit nodeLimit s ↔ s.getNodeCount < nodeLimit := by
  constructor
  · intro h
    by_contra hfull
    have hcount : 0 < s.nodes.entries.length := by
      have := h.count
      unfold Hub.getNodeCount at this hfull
      omega
    obtain ⟨⟨node, u⟩, hmem⟩ := List.exists_mem_of_length_pos hcount
    have hnode : node ∈ s.nodes := List.mem_keys_of_mem hmem
    have hserved := h.served node hnode ⟨[], [], [], [], [], [], none⟩
    exact hserved (handleServer_refused.mpr (Nat.le_of_not_lt hfull))
  · intro h
    refine ⟨h.le, ?_⟩
    intro node _ m hrefused
    exact absurd (handleServer_refused.mp hrefused) (Nat.not_le_of_lt h)

theorem getNodeCount_registerNode (s : Hub) (i : ℕ) (node : GoString) :
    (s.registerNode i node).getNodeCount =
      if node ∈ s.nodes then s.getNodeCount else s.getNodeCount + 1 :=
  GoMap.length_insert s.nodes node ()

theorem getNodeCount_deleteNode (s : Hub) (i : ℕ) (node : GoString) :
    (s.deleteNode i node).getNodeCount ≤ s.getNodeCount :=
  (List.kerase_sublist node s.nodes.entries).length_le

theorem hasRoom_registerNode {i : ℕ} {phase : Phase}
    (hi : s.goroutines.lookup i = some (node, phase)) :
    HasRoom nodeLimit s (.registerNode i) ↔ node ∈ s.nodes ∨ s.getNodeCount + 1 < nodeLimit := by
  constructor
  · intro h
    exact h node phase hi
  · intro h node' phase' hi'
    rw [hi] at hi'
    cases hi'
    exact h

theorem getNodeCount_step {s' : Hub} {e : Event} (hcount : s.getNodeCount < nodeLimit)
    (hstep : step s e = some s') :
    s'.getNodeCount < nodeLimit ↔ HasRoom nodeLimit s e := by
  cases e with
  | connect node =>
    cases hstep
    have hnodes : (s.onRegister node).getNodeCount = s.getNodeCount := by
      unfold Hub.onRegister
      dsimp only
      split_ifs <;> rfl
    rw [hnodes]
    exact iff_of_true hcount trivial
  | findConnection i =>
    simp only [step] at hstep
    split at hstep
    · rename_i node _
      cases hstep
      have hnodes : (s.findConnection i node).getNodeCount = s.getNodeCount := by
        unfold Hub.findConnection
        split_ifs <;> rfl
      rw [hnodes]
      exact iff_of_true hcount trivial
    · cases hstep
  | registerNode i =>
    simp only [step] at hstep
    split at hstep
    · rename_i node hi
      cases hstep
      rw [getNodeCount_registerNode, hasRoom_registerNode hi]
      split_ifs with hnode
      · exact iff_of_true hcount (.inl hnode)
      · simp [hnode]
    · cases hstep
  | closeConnection i =>
    simp only [step] at hstep
    split at hstep
    · cases hstep
      exact iff_of_true hcount trivial
    · cases hstep
  | deleteNode i =>
    simp only [step] at hstep
    split at hstep
    · rename_i node _
      cases hstep
      exact iff_of_true ((getNodeCount_deleteNode s i node).trans_lt hcount) trivial
    · cases hstep
  | timeout node | message node m =>
    cases hstep
    exact iff_of_true hcount trivial

/-- A run stays within the limit, and serves all its nodes, exactly if every node that is
registered leaves room for one more. -/
theorem within_limit_iff {nodeLimit : ℕ} (hlimit : 1 ≤ nodeLimit) (events : List Event) :
    Always step (WithinLimit nodeLimit) {} events ↔ Along step (HasRoom nodeLimit) {} events := by
  apply always_iff_along
  · intro s e s' hs hstep
    rw [withinLimit_iff hlimit] at hs ⊢
    exact getNodeCount_step hs hstep
  · exact (withinLimit_iff hlimit).mpr hlimit

namespace Sample

def joining : List Event := [.connect (str "edge1"), .findConnection 0, .registerNode 0]

end Sample

/-- One node, and room for two. -/
theorem within_limit_two : Always step (WithinLimit 2) {} Sample.joining := by
  rw [within_limit_iff (by decide)]
  apply along_of_check (p := fun s e => decide (HasRoom 2 s e)) (by simp)
  decide +kernel

/-- With a limit of one, the only node is refused. -/
theorem single_node_refused : ¬ Always step (WithinLimit 1) {} Sample.joining := by
  intro h
  have hread : (run step {} Sample.joining).map (fun s =>
      decide (str "edge1" ∈ s.nodes) &&
        (handleServer 1 s (str "edge1") (Sample.pod (str "update") (str "1")) = .refused)) =
      some true := by
    decide +kernel
  obtain ⟨s, hs, hread⟩ := Option.map_eq_some_iff.mp hread
  simp only [Bool.and_eq_true, decide_eq_true_eq] at hread
  exact (h.last hs).served _ hread.1 _ hread.2

end KubeEdge.CloudHub.Limit
