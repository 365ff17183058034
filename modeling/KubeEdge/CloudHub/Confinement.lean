import KubeEdge.CloudHub.Nodes

namespace KubeEdge.CloudHub.Nodes
open Go Machine ListLoop

def Made (s : Hub) (o : ℕ) (pool : Pool) (nodeID : GoString) : Prop :=
  s.made[o]? = some (pool, nodeID)

def Dispatched (s : Hub) (msg : ℕ) (nodeID : GoString) (kind : QueueKind) : Prop :=
  ∃ m, s.received[msg]? = some (m, some (nodeID, kind))

def Connected (s : Hub) (nodeID : GoString) (conn : ℕ) : Prop :=
  s.connections[conn]? = some nodeID

def HasId (s : Hub) (msg : ℕ) (key : GoString) : Prop :=
  ∃ m found, s.received[msg]? = some (m, found) ∧ m.id = key

/-- The message in memory, with the path it is to be sent under. -/
def Trimmed (s : Hub) (msg : ℕ) : Prop :=
  ∃ m found, s.received[msg]? = some (m, found) ∧ s.heap[msg]? = some (trimMessage m)

/-- The message in memory as it was received. -/
def Whole (s : Hub) (msg : ℕ) : Prop :=
  ∃ m found, s.received[msg]? = some (m, found) ∧ s.heap[msg]? = some m

def Caller.Sound (s : Hub) (nodeID : GoString) : Caller → Prop
  | .addListQueue msg => Dispatched s msg nodeID .listQueue
  | .addListStore msg q => Dispatched s msg nodeID .listQueue ∧ Made s q .listQueue nodeID
  | .addQueue msg => Dispatched s msg nodeID .nodeQueue
  | .addStore msg q => Dispatched s msg nodeID .nodeQueue ∧ Made s q .queue nodeID
  | .listLoopQueue _ => True
  | .listLoopStore _ q => Made s q .listQueue nodeID
  | .listLoopNodeQueue _ q st => Made s q .listQueue nodeID ∧ Made s st .listStore nodeID
  | .writeLoopQueue => True
  | .writeLoopStore q => Made s q .queue nodeID

structure ListVars.Sound (s : Hub) (v : ListVars) : Prop where
  nodeListQueue : Made s v.nodeListQueue .listQueue v.nodeID
  nodeListStore : Made s v.nodeListStore .listStore v.nodeID
  nodeQueue : Made s v.nodeQueue .queue v.nodeID

structure WriteVars.Sound (s : Hub) (v : WriteVars) : Prop where
  nodeQueue : Made s v.nodeQueue .queue v.nodeID
  nodeStore : Made s v.nodeStore .store v.nodeID

/-- The copy that `MessageWriteLoop` sends. -/
def CopyOf (s : Hub) (nodeID : GoString) (msg : ℕ) (copyMsg : Message) : Prop :=
  ∃ m kind, s.received[msg]? = some (m, some (nodeID, kind)) ∧ copyMsg = trimMessage m

/-- What a goroutine holds belongs to one node. -/
def Point.Sound (s : Hub) : Point → Prop
  | .load nodeID k | .create nodeID k => k.Sound s nodeID
  | .listAdd msg q st => ∃ nodeID,
    Dispatched s msg nodeID .listQueue ∧ Made s q .listQueue nodeID ∧ Made s st .listStore nodeID
  | .listEnqueue _ q => ∃ nodeID, Made s q .listQueue nodeID
  | .check nodeID msg q st =>
    Dispatched s msg nodeID .nodeQueue ∧ Made s q .queue nodeID ∧ Made s st .store nodeID
  | .add _ msg q st => ∃ nodeID,
    Dispatched s msg nodeID .nodeQueue ∧ Made s q .queue nodeID ∧ Made s st .store nodeID
  | .enqueue _ q => ∃ nodeID, Made s q .queue nodeID
  | .listGet v | .listFind v _ | .listDelete v _ _ | .listDone v _ | .shutDownQueue v
  | .shutDownList v | .stopServe v => v.Sound s
  | .listTrim v key msg => v.Sound s ∧ Dispatched s msg v.nodeID .listQueue ∧ HasId s msg key
  | .listConn v _ msg => v.Sound s ∧ Dispatched s msg v.nodeID .listQueue ∧ Trimmed s msg
  | .listSend v _ msg hi => (v.Sound s ∧ Dispatched s msg v.nodeID .listQueue ∧ Trimmed s msg) ∧
    Connected s v.nodeID hi
  | .get v | .find v _ | .saveSuccessPoint v _ _ | .done v _ => v.Sound s
  | .conn v _ msg copyMsg => v.Sound s ∧ CopyOf s v.nodeID msg copyMsg
  | .send v _ msg copyMsg hi _ | .wait v _ msg copyMsg hi _ =>
    (v.Sound s ∧ CopyOf s v.nodeID msg copyMsg) ∧ Connected s v.nodeID hi
  | .onRegister nodeID hi | .storeConn nodeID hi _ => Connected s nodeID hi
  | _ => True

/-- The goroutine has the ticket of a list message. -/
def Point.Holds (s : Hub) (key : GoString) : Point → Prop
  | .load _ (.addListQueue msg) | .load _ (.addListStore msg _) | .create _ (.addListQueue msg)
  | .create _ (.addListStore msg _) | .listAdd msg _ _ => HasId s msg key
  | .listEnqueue k _ | .listFind _ k | .listTrim _ k _ => key = k
  | _ => False

/-- What the pools, stores, maps and messages of the cloud hub belong to. -/
structure HubSound (s : Hub) : Prop where
  pools : ∀ pool nodeID o, (s.pools pool).lookup nodeID = some o → Made s o pool nodeID
  listStores : ∀ o nodeID, Made s o .listStore nodeID → ∀ key msg,
    (s.store o).lookup key = some msg → Dispatched s msg nodeID .listQueue ∧ HasId s msg key
  stores : ∀ o nodeID, Made s o .store nodeID → ∀ key msg, (s.store o).lookup key = some msg →
    Dispatched s msg nodeID .nodeQueue
  conns : ∀ nodeID conn, s.nodeConns.lookup nodeID = some conn → Connected s nodeID conn
  length : s.heap.length = s.received.length
  heap : ∀ (msg : ℕ) (m : Message) (nodeID : GoString),
    s.received[msg]? = some (m, some (nodeID, .nodeQueue)) → s.heap[msg]? = some m
  listHeap : ∀ (msg : ℕ) (m : Message) found, s.received[msg]? = some (m, found) →
    s.heap[msg]? = some m ∨ s.heap[msg]? = some (trimMessage m)
  ids : ∀ (i j : ℕ) (m m' : Message) found found', s.received[i]? = some (m, found) →
    s.received[j]? = some (m', found') → m.id = m'.id → i = j
  found : ∀ (msg : ℕ) (m : Message) nodeID kind, s.received[msg]? = some (m, some (nodeID, kind)) →
    m.getNodeID = some nodeID
  waiting : ∀ o nodeID, Made s o .listQueue nodeID → ∀ key, key ∉ (s.queue o).waiting
  written : ∀ w ∈ s.written, ∃ m nodeID kind, s.received[w.msg]? = some (m, some (nodeID, kind)) ∧
    Connected s nodeID w.conn ∧ w.resource = (trimMessage m).resource
  spawned : ∀ p ∈ s.spawned, p.Sound s ∧ ∀ key, ¬ p.Holds s key

structure Grows (s s' : Hub) : Prop where
  made : ∀ {o : ℕ} {x}, s.made[o]? = some x → s'.made[o]? = some x
  received : ∀ {msg : ℕ} {x}, s.received[msg]? = some x → s'.received[msg]? = some x
  connections : ∀ {conn : ℕ} {x}, s.connections[conn]? = some x → s'.connections[conn]? = some x
  trimmed : ∀ {msg}, Trimmed s msg → Trimmed s' msg

variable {s s' : Hub}

theorem Grows.refl (s : Hub) : Grows s s := ⟨id, id, id, id⟩

/-- Nothing but the pools, queues, stores and the maps of the nodes has changed. -/
theorem Grows.of_eq (hmade : s'.made = s.made) (hreceived : s'.received = s.received)
    (hconnections : s'.connections = s.connections) (hheap : s'.heap = s.heap) : Grows s s' := by
  refine ⟨?_, ?_, ?_, ?_⟩
  · rw [hmade]
    exact id
  · rw [hreceived]
    exact id
  · rw [hconnections]
    exact id
  · unfold Trimmed
    rw [hreceived, hheap]
    exact id

variable {msg o q st : ℕ} {nodeID key nodeID' : GoString} {copyMsg : Message} {v : WriteVars}
  {k : Caller} {p : Point}

section
variable (h : Grows s s')
include h

theorem Grows.dispatched {kind : QueueKind} :
    Dispatched s msg nodeID kind → Dispatched s' msg nodeID kind :=
  fun ⟨m, hm⟩ => ⟨m, h.received hm⟩

theorem Grows.hasId : HasId s msg key → HasId s' msg key :=
  fun ⟨m, found, hm, hid⟩ => ⟨m, found, h.received hm, hid⟩

theorem Grows.copyOf : CopyOf s nodeID msg copyMsg → CopyOf s' nodeID msg copyMsg :=
  fun ⟨m, kind, hm, hcopy⟩ => ⟨m, kind, h.received hm, hcopy⟩

theorem Grows.listVars {v : ListVars} (hv : v.Sound s) : v.Sound s' :=
  ⟨h.made hv.nodeListQueue, h.made hv.nodeListStore, h.made hv.nodeQueue⟩

theorem Grows.writeVars (hv : v.Sound s) : v.Sound s' :=
  ⟨h.made hv.nodeQueue, h.made hv.nodeStore⟩

theorem Grows.caller (hk : k.Sound s nodeID) : k.Sound s' nodeID := by
  cases k with
  | addListQueue msg | addQueue msg => exact h.dispatched hk
  | addListStore msg q | addStore msg q => exact ⟨h.dispatched hk.1, h.made hk.2⟩
  | listLoopQueue serve | writeLoopQueue => trivial
  | listLoopStore serve q | writeLoopStore q => exact h.made hk
  | listLoopNodeQueue serve q st => exact ⟨h.made hk.1, h.made hk.2⟩

theorem Grows.point (hp : p.Sound s) : p.Sound s' := by
  have hlist : ∀ {v : ListVars} {msg : ℕ},
      v.Sound s ∧ Dispatched s msg v.nodeID .listQueue ∧ Trimmed s msg →
        v.Sound s' ∧ Dispatched s' msg v.nodeID .listQueue ∧ Trimmed s' msg :=
    fun hv => ⟨h.listVars hv.1, h.dispatched hv.2.1, h.trimmed hv.2.2⟩
  have hcopy : ∀ {v : WriteVars} {msg : ℕ} {copyMsg : Message},
      v.Sound s ∧ CopyOf s v.nodeID msg copyMsg → v.Sound s' ∧ CopyOf s' v.nodeID msg copyMsg :=
    fun hv => ⟨h.writeVars hv.1, h.copyOf hv.2⟩
  cases p with
  | load nodeID k | create nodeID k => exact h.caller hp
  | listAdd msg q st | add key msg q st =>
    obtain ⟨nodeID, hmsg, hq, hst⟩ := hp
    exact ⟨nodeID, h.dispatched hmsg, h.made hq, h.made hst⟩
  | listEnqueue key q | enqueue key q =>
    obtain ⟨nodeID, hq⟩ := hp
    exact ⟨nodeID, h.made hq⟩
  | check nodeID msg q st => exact ⟨h.dispatched hp.1, h.made hp.2.1, h.made hp.2.2⟩
  | listTrim v key msg => exact ⟨h.listVars hp.1, h.dispatched hp.2.1, h.hasId hp.2.2⟩
  | listConn v key msg => exact hlist hp
  | listSend v key msg conn => exact ⟨hlist hp.1, h.connections hp.2⟩
  | listGet v | listFind v key | listDelete v key msg | listDone v key | shutDownQueue v
  | shutDownList v | stopServe v => exact h.listVars hp
  | get v | find v key | saveSuccessPoint v key msg | done v key => exact h.writeVars hp
  | conn v key msg copyMsg => exact hcopy hp
  | send v key msg copyMsg hi retry | wait v key msg copyMsg hi retry =>
    exact ⟨hcopy hp.1, h.connections hp.2⟩
  | onRegister nodeID conn | storeConn nodeID conn registered => exact h.connections hp
  | keepalive | serveConn | connectLoad | connectStore | storeLock | storeRegistered | exitServe
  | deleteLock | deleteConn | deleteRegistered | closeLoad | closeDelete => trivial

end

theorem holds_congr (h : s'.received = s.received) : p.Holds s' key ↔ p.Holds s key := by
  unfold Point.Holds HasId
  rw [h]

theorem getElem?_snoc {α : Type} {l : List α} {i : ℕ} {x y : α} :
    (l ++ [y])[i]? = some x ↔ l[i]? = some x ∨ i = l.length ∧ x = y := by
  rw [List.getElem?_append]
  split_ifs with hi
  · have hne : i ≠ l.length := Nat.ne_of_lt hi
    simp [hne]
  · rw [List.getElem?_eq_none (Nat.le_of_not_lt hi)]
    by_cases he : i = l.length
    · subst he
      simp [eq_comm]
    · have hne : i - l.length ≠ 0 := by omega
      simp [he, hne]

theorem HubSound.spawned_mono (h : HubSound s) (hg : Grows s s') (he : s'.received = s.received) :
    ∀ p ∈ s.spawned, p.Sound s' ∧ ∀ key, ¬ p.Holds s' key := by
  intro p hp
  obtain ⟨hsound, hfree⟩ := h.spawned p hp
  exact ⟨hg.point hsound, fun key hk => hfree key ((holds_congr he).mp hk)⟩

theorem grows_make (s : Hub) (pool : Pool) (nodeID : GoString) : Grows s (s.make pool nodeID) :=
  ⟨fun h => getElem?_snoc.mpr (.inl h), id, id, id⟩

theorem grows_setQueue (s : Hub) (o : ℕ) (q : Workqueue GoString Unit) : Grows s (s.setQueue o q) :=
  Grows.of_eq rfl rfl rfl rfl

theorem grows_setStore (s : Hub) (o : ℕ) (m : GoMap GoString ℕ) : Grows s (s.setStore o m) :=
  Grows.of_eq rfl rfl rfl rfl

theorem grows_addKey (s : Hub) (o : ℕ) (key : GoString) : Grows s (s.addKey o key) := by
  unfold Hub.addKey
  split_ifs
  · exact .refl s
  · exact .of_eq rfl rfl rfl rfl

theorem made_make {pool pool' : Pool} (h : Made (s.make pool nodeID) o pool' nodeID') :
    Made s o pool' nodeID' ∧ o ≠ s.made.length ∨
      o = s.made.length ∧ pool' = pool ∧ nodeID' = nodeID := by
  rcases getElem?_snoc.mp h with h | ⟨ho, he⟩
  · exact .inl ⟨h, Nat.ne_of_lt (List.getElem?_eq_some_iff.mp h).1⟩
  · cases he
    exact .inr ⟨ho, rfl, rfl⟩

theorem made_new (s : Hub) (pool : Pool) (nodeID : GoString) :
    Made (s.make pool nodeID) s.made.length pool nodeID :=
  getElem?_snoc.mpr (.inr ⟨rfl, rfl⟩)

section

variable (h : HubSound s)
include h

theorem HubSound.make (pool : Pool) (nodeID : GoString) : HubSound (s.make pool nodeID) := by
  have hg := grows_make s pool nodeID
  have hstore : ∀ {o key msg}, ((s.make pool nodeID).store o).lookup key = some msg →
      o ≠ s.made.length ∧ (s.store o).lookup key = some msg := by
    intro o key msg hlook
    by_cases ho : o = s.made.length
    · simp [Hub.make, ho] at hlook
    · have hold : (s.make pool nodeID).store o = s.store o := Function.update_of_ne ho _ _
      rw [hold] at hlook
      exact ⟨ho, hlook⟩
  refine
    { pools := ?_, listStores := ?_, stores := ?_, conns := h.conns, length := h.length,
      heap := h.heap, listHeap := h.listHeap, ids := h.ids, found := h.found, waiting := ?_,
      written := h.written, spawned := h.spawned_mono hg rfl }
  · intro pool' nodeID' o hlook
    change (Function.update s.pools pool _ pool').lookup nodeID' = some o at hlook
    by_cases hp : pool' = pool
    · subst hp
      rw [Function.update_self] at hlook
      exact GoMap.forall_insert (fun _ _ hlook => hg.made (h.pools _ _ _ hlook)) (made_new ..)
        nodeID' o hlook
    · rw [Function.update_of_ne hp] at hlook
      exact hg.made (h.pools pool' nodeID' o hlook)
  · intro o nodeID' hmade key msg hlook
    obtain ⟨ho, hlook⟩ := hstore hlook
    rcases made_make hmade with ⟨hmade, -⟩ | ⟨hnew, -⟩
    · exact h.listStores o nodeID' hmade key msg hlook
    · exact absurd hnew ho
  · intro o nodeID' hmade key msg hlook
    obtain ⟨ho, hlook⟩ := hstore hlook
    rcases made_make hmade with ⟨hmade, -⟩ | ⟨hnew, -⟩
    · exact h.stores o nodeID' hmade key msg hlook
    · exact absurd hnew ho
  · intro o nodeID' hmade key
    change key ∉ (Function.update s.queue s.made.length {} o).waiting
    rcases made_make hmade with ⟨hmade, ho⟩ | ⟨hnew, -⟩
    · rw [Function.update_of_ne ho]
      exact h.waiting o nodeID' hmade key
    · rw [hnew, Function.update_self]
      simp

theorem HubSound.setStore {m : GoMap GoString ℕ}
    (hlist : ∀ nodeID, Made s o .listStore nodeID → ∀ key msg, m.lookup key = some msg →
      Dispatched s msg nodeID .listQueue ∧ HasId s msg key)
    (hnode : ∀ nodeID, Made s o .store nodeID → ∀ key msg, m.lookup key = some msg →
      Dispatched s msg nodeID .nodeQueue) :
    HubSound (s.setStore o m) := by
  have hcases : ∀ o', (s.setStore o m).store o' = if o' = o then m else s.store o' :=
    fun o' => Function.update_apply s.store o m o'
  refine
    { h with
      listStores := ?_, stores := ?_
      spawned := h.spawned_mono (.of_eq rfl rfl rfl rfl) rfl }
  · intro o' nodeID hmade key msg hlook
    rw [hcases] at hlook
    split_ifs at hlook with ho
    · exact hlist nodeID (ho ▸ hmade) key msg hlook
    · exact h.listStores o' nodeID hmade key msg hlook
  · intro o' nodeID hmade key msg hlook
    rw [hcases] at hlook
    split_ifs at hlook with ho
    · exact hnode nodeID (ho ▸ hmade) key msg hlook
    · exact h.stores o' nodeID hmade key msg hlook

theorem HubSound.eraseStore (o : ℕ) (k : GoString) :
    HubSound (s.setStore o ((s.store o).erase k)) := by
  apply h.setStore
  · intro nodeID hmade
    exact GoMap.forall_erase (h.listStores o nodeID hmade) k
  · intro nodeID hmade
    exact GoMap.forall_erase (h.stores o nodeID hmade) k

theorem HubSound.setQueue {q : Workqueue GoString Unit}
    (hwaiting : ∀ nodeID, Made s o .listQueue nodeID → ∀ key, key ∉ q.waiting) :
    HubSound (s.setQueue o q) := by
  refine
    { h with
      waiting := ?_
      spawned := h.spawned_mono (.of_eq rfl rfl rfl rfl) rfl }
  intro o' nodeID hmade key
  change key ∉ (Function.update s.queue o q o').waiting
  by_cases ho : o' = o
  · subst ho
    rw [Function.update_self]
    exact hwaiting nodeID hmade key
  · rw [Function.update_of_ne ho]
    exact h.waiting o' nodeID hmade key

end

theorem Made.unique {pool pool' : Pool} (h : Made s o pool nodeID) (h' : Made s o pool' nodeID') :
    pool = pool' ∧ nodeID = nodeID' := by
  have he := Option.some.inj (h.symm.trans h')
  exact ⟨congrArg Prod.fst he, congrArg Prod.snd he⟩

section

variable (h : HubSound s)
include h

theorem HubSound.setNodeQueue (hv : v.Sound s) (q : Workqueue GoString Unit) :
    HubSound (s.setQueue v.nodeQueue q) := by
  apply h.setQueue
  intro n hmade
  cases (hv.nodeQueue.unique hmade).1

theorem HubSound.addKey (o : ℕ) (key : GoString) : HubSound (s.addKey o key) := by
  unfold Hub.addKey
  split_ifs
  · exact h
  · apply h.setQueue
    intro nodeID hmade k
    rw [Workqueue.waiting_add]
    exact h.waiting o nodeID hmade k

theorem HubSound.idle (shutDown : ℕ → Bool) (nodeLocks nodeRegistered : GoSet GoString) (serves : ℕ)
    (exits : List ℕ) (objectSyncs : ObjectSyncs) :
    HubSound { s with shutDown, nodeLocks, nodeRegistered, serves, exits, objectSyncs } :=
  { h with spawned := h.spawned_mono (.of_eq rfl rfl rfl rfl) rfl }

theorem HubSound.setConns {nodeConns : GoMap GoString ℕ}
    (hconns : ∀ nodeID conn, nodeConns.lookup nodeID = some conn → Connected s nodeID conn) :
    HubSound { s with nodeConns } :=
  { h with conns := hconns, spawned := h.spawned_mono (.of_eq rfl rfl rfl rfl) rfl }

theorem HubSound.eraseConn (n : GoString) :
    HubSound { s with nodeConns := s.nodeConns.erase n } :=
  h.setConns (GoMap.forall_erase h.conns n)

theorem HubSound.insertConn {n : GoString} {c : ℕ} (hc : Connected s n c) :
    HubSound { s with nodeConns := s.nodeConns.insert n c } :=
  h.setConns (GoMap.forall_insert h.conns hc)

theorem HubSound.spawn (ps : List Point) (hps : ∀ p ∈ ps, p.Sound s ∧ ∀ key, ¬ p.Holds s key) :
    HubSound { s with spawned := s.spawned ++ ps } := by
  refine { h with spawned := ?_ }
  intro p hp
  have hg : Grows s { s with spawned := s.spawned ++ ps } := .of_eq rfl rfl rfl rfl
  have hold : p.Sound s ∧ ∀ key, ¬ p.Holds s key := by
    rcases List.mem_append.mp hp with hp | hp
    · exact h.spawned p hp
    · exact hps p hp
  exact ⟨hg.point hold.1, fun key hk => hold.2 key ((holds_congr (by rfl)).mp hk)⟩

theorem HubSound.erasePool (pool : Pool) (n : GoString) :
    HubSound { s with pools := Function.update s.pools pool ((s.pools pool).erase n) } := by
  refine
    { h with
      pools := ?_
      spawned := h.spawned_mono (.of_eq rfl rfl rfl rfl) rfl }
  intro pool' nodeID o hlook
  change (Function.update s.pools pool _ pool').lookup nodeID = some o at hlook
  by_cases hp : pool' = pool
  · subst hp
    rw [Function.update_self] at hlook
    exact GoMap.forall_erase (h.pools pool') n nodeID o hlook
  · rw [Function.update_of_ne hp] at hlook
    exact h.pools pool' nodeID o hlook

theorem HubSound.trim {m : Message} (hd : Dispatched s msg nodeID .listQueue) (hwhole : Whole s msg)
    (hm : s.heap[msg]? = some m) : let s' := { s with heap := s.heap.set msg (trimMessage m) }
    HubSound s' ∧ Grows s s' ∧ Trimmed s' msg := by
  intro s'
  obtain ⟨m₀, found, hrec, hheap⟩ := hwhole
  obtain rfl : m₀ = m := Option.some.inj (hheap.symm.trans hm)
  have hlt : msg < s.heap.length := (List.getElem?_eq_some_iff.mp hm).1
  have hself : s'.heap[msg]? = some (trimMessage m₀) := by
    rw [List.getElem?_set_self hlt]
  have hother : ∀ {i}, i ≠ msg → s'.heap[i]? = s.heap[i]? := by
    intro i hi
    rw [List.getElem?_set_ne hi.symm]
  have htrimmed : Trimmed s' msg := ⟨m₀, found, hrec, hself⟩
  have hg : Grows s s' := by
    refine ⟨id, id, id, ?_⟩
    rintro i ⟨mi, fi, hreci, hheapi⟩
    by_cases hi : i = msg
    · rw [hi]
      exact htrimmed
    · refine ⟨mi, fi, hreci, ?_⟩
      rw [hother hi]
      exact hheapi
  refine ⟨{ h with length := ?_, heap := ?_, listHeap := ?_, spawned := h.spawned_mono hg rfl },
    hg, htrimmed⟩
  · change (s.heap.set msg _).length = _
    rw [List.length_set]
    exact h.length
  · intro i mi n hreci
    by_cases hi : i = msg
    · obtain ⟨m', hm'⟩ := hd
      rw [hi] at hreci
      cases hm'.symm.trans hreci
    · rw [hother hi]
      exact h.heap i mi n hreci
  · intro i mi fi hreci
    by_cases hi : i = msg
    · rw [hi] at hreci ⊢
      cases hrec.symm.trans hreci
      exact .inr hself
    · rw [hother hi]
      exact h.listHeap i mi fi hreci

theorem HubSound.hubIoWrite {conn : ℕ} (hcopy : CopyOf s nodeID msg copyMsg)
    (hconn : Connected s nodeID conn)
    (hwrite : s.hubIoWrite nodeID ⟨conn, msg, copyMsg.resource⟩ = some s') :
    HubSound s' ∧ Grows s s' := by
  unfold Hub.hubIoWrite at hwrite
  split_ifs at hwrite
  cases hwrite
  have hg : Grows s { s with written := ⟨conn, msg, copyMsg.resource⟩ :: s.written } :=
    Grows.of_eq rfl rfl rfl rfl
  refine ⟨{ h with written := ?_, spawned := h.spawned_mono hg rfl }, hg⟩
  obtain ⟨m, kind, hrec, rfl⟩ := hcopy
  exact List.forall_mem_cons.mpr ⟨⟨m, nodeID, kind, hrec, hconn, rfl⟩, h.written⟩

end

theorem Caller.Sound.next (hk : k.Sound s nodeID) (ho : Made s o k.pool nodeID) :
    (k.next nodeID o).Sound s := by
  cases k with
  | addListQueue msg | addQueue msg | listLoopStore serve q | writeLoopStore q => exact ⟨hk, ho⟩
  | addListStore msg q => exact ⟨nodeID, hk.1, hk.2, ho⟩
  | addStore msg q | listLoopNodeQueue serve q st => exact ⟨hk.1, hk.2, ho⟩
  | listLoopQueue serve | writeLoopQueue => exact ho

theorem HubSound.id_of_heap (h : HubSound s) {m : Message} (hm : s.heap[msg]? = some m) :
    HasId s msg m.id := by
  have hlt : msg < s.received.length := by
    rw [← h.length]
    exact (List.getElem?_eq_some_iff.mp hm).1
  rcases hx : s.received[msg] with ⟨m₀, found⟩
  have hrec : s.received[msg]? = some (m₀, found) := by
    rw [List.getElem?_eq_getElem hlt, hx]
  refine ⟨m₀, found, hrec, ?_⟩
  rcases h.listHeap msg m₀ found hrec with hheap | hheap
  · rw [Option.some.inj (hheap.symm.trans hm)]
  · rw [← Option.some.inj (hheap.symm.trans hm)]
    rfl

/-- The state after a step, and the point that the goroutine goes on to. -/
def Fits (s s' : Hub) (next : Option Point) : Prop :=
  HubSound s' ∧ Grows s s' ∧ ∀ p ∈ next, p.Sound s'

theorem Fits.stop (h : HubSound s') (hg : Grows s s') : Fits s s' none :=
  ⟨h, hg, by simp⟩

theorem Fits.goOn (h : HubSound s') (hg : Grows s s') (hp : p.Sound s') : Fits s s' (some p) := by
  refine ⟨h, hg, ?_⟩
  intro q hq
  cases hq
  exact hp

theorem Fits.stay (h : HubSound s) (hp : p.Sound s) : Fits s s (some p) :=
  Fits.goOn h (.refl s) hp

theorem Fits.idle (h : HubSound s) (hp : p.Sound s) {shutDown : ℕ → Bool}
    {nodeLocks nodeRegistered : GoSet GoString} {serves : ℕ} {exits : List ℕ}
    {objectSyncs : ObjectSyncs} :
    Fits s { s with shutDown, nodeLocks, nodeRegistered, serves, exits, objectSyncs } (some p) := by
  have hg : Grows s { s with shutDown, nodeLocks, nodeRegistered, serves, exits, objectSyncs } :=
    Grows.of_eq rfl rfl rfl rfl
  exact .goOn (h.idle ..) hg (hg.point hp)

section
variable {ok : Bool} {next : Option Point} (h : HubSound s)
include h

-- makes the equations of `exec` once, for all the lemmas of the section
attribute [local simp] exec

theorem load_fits (hk : k.Sound s nodeID) (he : exec s ok (.load nodeID k) = some (s', next)) :
    Fits s s' next := by
  simp only [exec] at he
  split at he
  · rename_i o hlook
    cases he
    exact .stay h (hk.next (h.pools _ _ _ hlook))
  · cases he
    exact .stay h hk

theorem create_fits (hk : k.Sound s nodeID) (he : exec s ok (.create nodeID k) = some (s', next)) :
    Fits s s' next := by
  cases he
  have hg := grows_make s k.pool nodeID
  exact .goOn (h.make _ _) hg ((hg.caller hk).next (made_new s k.pool nodeID))

theorem listAdd_fits (hp : (Point.listAdd msg q st).Sound s)
    (he : exec s ok (.listAdd msg q st) = some (s', next)) : Fits s s' next := by
  obtain ⟨nodeID, hd, hq, hst⟩ := hp
  obtain ⟨m, hm, he⟩ := Option.bind_eq_some_iff.mp he
  cases he
  have hstored : HubSound (s.setStore st ((s.store st).insert m.id msg)) := by
    apply h.setStore
    · intro n hmade
      obtain ⟨-, rfl⟩ := hst.unique hmade
      exact GoMap.forall_insert (h.listStores st _ hst) ⟨hd, h.id_of_heap hm⟩
    · intro n hmade
      cases (hst.unique hmade).1
  exact .goOn hstored (grows_setStore ..) ⟨nodeID, hq⟩

theorem add_fits (hp : (Point.add key msg q st).Sound s)
    (he : exec s ok (.add key msg q st) = some (s', next)) : Fits s s' next := by
  obtain ⟨nodeID, hd, hq, hst⟩ := hp
  cases he
  have hstored : HubSound (s.setStore st ((s.store st).insert key msg)) := by
    apply h.setStore
    · intro n hmade
      cases (hst.unique hmade).1
    · intro n hmade
      obtain ⟨-, rfl⟩ := hst.unique hmade
      exact GoMap.forall_insert (h.stores st _ hst) hd
  exact .goOn hstored (grows_setStore ..) ⟨nodeID, hq⟩

theorem check_fits (hp : (Point.check nodeID msg q st).Sound s)
    (he : exec s ok (.check nodeID msg q st) = some (s', next)) : Fits s s' next := by
  obtain ⟨m, -, he⟩ := Option.bind_eq_some_iff.mp he
  obtain ⟨accepted, -, he⟩ := Option.bind_eq_some_iff.mp he
  cases he
  cases accepted with
  | none => exact .stop h (.refl s)
  | some key => exact .stay h ⟨nodeID, hp⟩

theorem listGet_fits {v : ListVars} (hv : v.Sound s)
    (he : exec s ok (.listGet v) = some (s', next)) : Fits s s' next := by
  simp only [exec] at he
  split at he
  · rename_i key q hget
    cases he
    have hq : HubSound (s.setQueue v.nodeListQueue q) := by
      apply h.setQueue
      intro n hmade k
      rw [(Workqueue.get_eq_some hget).2.2.1]
      exact h.waiting _ n hmade k
    exact .goOn hq (grows_setQueue ..) ((grows_setQueue ..).listVars hv)
  · split_ifs at he
    cases he
    exact .stop h (.refl s)

theorem listFind_fits {v : ListVars} (hv : v.Sound s)
    (he : exec s ok (.listFind v key) = some (s', next)) : Fits s s' next := by
  simp only [exec] at he
  split at he
  · cases he
    exact .stay h hv
  · rename_i msg hlook
    cases he
    exact .stay h ⟨hv, h.listStores _ _ hv.nodeListStore key msg hlook⟩

theorem listTrim_fits {v : ListVars} (hp : (Point.listTrim v key msg).Sound s)
    (hwhole : Whole s msg) (he : exec s ok (.listTrim v key msg) = some (s', next)) :
    Fits s s' next := by
  obtain ⟨m, hm, he⟩ := Option.bind_eq_some_iff.mp he
  split_ifs at he
  · cases he
    exact .stay h hp.1
  · cases he
    obtain ⟨hsound, hg, htrimmed⟩ := h.trim hp.2.1 hwhole hm
    exact .goOn hsound hg ⟨hg.listVars hp.1, hg.dispatched hp.2.1, htrimmed⟩
  · cases he
    exact .stay h hp.1

theorem listConn_fits {v : ListVars} (hp : (Point.listConn v key msg).Sound s)
    (he : exec s ok (.listConn v key msg) = some (s', next)) : Fits s s' next := by
  simp only [exec] at he
  split at he
  · cases he
    exact .stay h hp.1
  · rename_i conn hconn
    cases he
    exact .stay h ⟨hp, h.conns _ _ hconn⟩

theorem listSend_fits {v : ListVars} {conn : ℕ} (hp : (Point.listSend v key msg conn).Sound s)
    (he : exec s ok (.listSend v key msg conn) = some (s', next)) : Fits s s' next := by
  obtain ⟨⟨hv, ⟨m₀, hrec⟩, htrimmed⟩, hconn⟩ := hp
  obtain ⟨m, hm, he⟩ := Option.bind_eq_some_iff.mp he
  have hcopy : CopyOf s v.nodeID msg m := by
    obtain ⟨m₁, found, hrec₁, hheap⟩ := htrimmed
    cases hrec.symm.trans hrec₁
    exact ⟨m₀, _, hrec, Option.some.inj (hm.symm.trans hheap)⟩
  cases he
  by_cases hok : ok = true
  · rw [if_pos hok]
    cases hwrite : s.hubIoWrite v.nodeID ⟨conn, msg, m.resource⟩ with
    | none => exact .stay h hv
    | some s₁ =>
      obtain ⟨hsound, hg⟩ := h.hubIoWrite hcopy hconn hwrite
      exact .goOn hsound hg (hg.listVars hv)
  · rw [if_neg hok]
    exact .stay h hv

theorem get_fits (hv : v.Sound s) (he : exec s ok (.get v) = some (s', next)) : Fits s s' next := by
  simp only [exec] at he
  split at he
  · rename_i key q hget
    cases he
    exact .goOn (h.setNodeQueue hv q) (grows_setQueue ..) ((grows_setQueue ..).writeVars hv)
  · split_ifs at he
    cases he
    exact .stop h (.refl s)

theorem find_fits (hv : v.Sound s) (he : exec s ok (.find v key) = some (s', next)) :
    Fits s s' next := by
  simp only [exec] at he
  split at he
  · cases he
    exact .stay h hv
  · rename_i msg hlook
    obtain ⟨m, hm, he⟩ := Option.bind_eq_some_iff.mp he
    split_ifs at he
    · cases he
      obtain ⟨m₀, hrec⟩ := h.stores _ _ hv.nodeStore key msg hlook
      have hheap := h.heap msg m₀ _ hrec
      obtain rfl : m₀ = m := Option.some.inj (hheap.symm.trans hm)
      exact .stay h ⟨hv, m₀, _, hrec, rfl⟩
    · cases he
      exact .stay h hv

theorem conn_fits (hp : (Point.conn v key msg copyMsg).Sound s)
    (he : exec s ok (.conn v key msg copyMsg) = some (s', next)) : Fits s s' next := by
  simp only [exec] at he
  split at he
  · cases he
    exact .stay h hp
  · rename_i hi hconn
    cases he
    exact .stay h ⟨hp, h.conns _ _ hconn⟩

theorem send_fits {hi retry : ℕ} (hp : (Point.send v key msg copyMsg hi retry).Sound s)
    (he : exec s ok (.send v key msg copyMsg hi retry) = some (s', next)) : Fits s s' next := by
  simp only [exec] at he
  split at he
  · rename_i s₁ hwrite
    cases he
    split_ifs at hwrite
    obtain ⟨hsound, hg⟩ := h.hubIoWrite hp.1.2 hp.2 hwrite
    have hp' : (Point.wait v key msg copyMsg hi retry).Sound s := hp
    exact .goOn hsound hg (hg.point hp')
  · cases he
    exact .goOn (h.setNodeQueue hp.1.1 _) (grows_setQueue ..) ((grows_setQueue ..).writeVars hp.1.1)

theorem wait_fits {hi retry : ℕ} (hp : (Point.wait v key msg copyMsg hi retry).Sound s)
    (he : exec s ok (.wait v key msg copyMsg hi retry) = some (s', next)) : Fits s s' next := by
  simp only [exec] at he
  split_ifs at he
  · cases he
    exact .stay h hp.1.1
  · cases he
    exact .stay h hp.1.1
  · cases he
    exact .stay h hp

theorem saveSuccessPoint_fits (hv : v.Sound s)
    (he : exec s ok (.saveSuccessPoint v key msg) = some (s', next)) : Fits s s' next := by
  obtain ⟨m, -, he⟩ := Option.bind_eq_some_iff.mp he
  split_ifs at he
  · cases he
    exact .goOn (h.eraseStore _ _) (grows_setStore ..) ((grows_setStore ..).writeVars hv)
  · cases he
    exact .stay h hv

end

theorem exec_fits {ok : Bool} {next : Option Point} (h : HubSound s) (hp : p.Sound s)
    (hready : ∀ v key msg, p = .listTrim v key msg → Whole s msg)
    (he : exec s ok p = some (s', next)) : Fits s s' next := by
  cases p with
  | load nodeID k => exact load_fits h hp he
  | create nodeID k => exact create_fits h hp he
  | listAdd msg q st => exact listAdd_fits h hp he
  | listEnqueue key q | enqueue key q =>
    cases he
    exact .stop (h.addKey q key) (grows_addKey ..)
  | check nodeID msg q st => exact check_fits h hp he
  | add key msg q st => exact add_fits h hp he
  | listGet v => exact listGet_fits h hp he
  | listFind v key => exact listFind_fits h hp he
  | listTrim v key msg => exact listTrim_fits h hp (hready v key msg rfl) he
  | listConn v key msg => exact listConn_fits h hp he
  | listSend v key msg conn => exact listSend_fits h hp he
  | listDelete v key msg =>
    obtain ⟨m, -, he⟩ := Option.bind_eq_some_iff.mp he
    cases he
    exact .goOn (h.eraseStore ..) (grows_setStore ..) ((grows_setStore ..).listVars hp)
  | listDone v key =>
    cases he
    have hq : HubSound (s.setQueue v.nodeListQueue ((s.queue v.nodeListQueue).done key)) := by
      apply h.setQueue
      rw [Workqueue.waiting_done]
      exact h.waiting v.nodeListQueue
    exact .goOn hq (grows_setQueue ..) ((grows_setQueue ..).listVars hp)
  | shutDownQueue v | shutDownList v =>
    cases he
    apply Fits.idle h
    exact hp
  | stopServe v =>
    cases he
    exact Fits.stop (h.idle s.shutDown s.nodeLocks s.nodeRegistered s.serves _ s.objectSyncs)
      (.of_eq rfl rfl rfl rfl)
  | get v => exact get_fits h hp he
  | find v key => exact find_fits h hp he
  | conn v key msg copyMsg => exact conn_fits h hp he
  | send v key msg copyMsg hi retry => exact send_fits h hp he
  | wait v key msg copyMsg hi retry => exact wait_fits h hp he
  | saveSuccessPoint v key msg => exact saveSuccessPoint_fits h hp he
  | done v key =>
    cases he
    exact .goOn (h.setNodeQueue hp _) (grows_setQueue ..) ((grows_setQueue ..).writeVars hp)
  | keepalive nodeID =>
    simp only [exec] at he
    split_ifs at he
    · cases he
      refine .goOn (h.eraseConn nodeID) (.of_eq rfl rfl rfl rfl) ?_
      trivial
    · cases he
      exact .stop h (.refl s)
  | onRegister nodeID conn =>
    cases he
    exact .stay h hp
  | storeConn nodeID conn registered =>
    have hinsert := h.insertConn hp
    simp only [exec] at he
    split_ifs at he
    · cases he
      exact .stop hinsert (.of_eq rfl rfl rfl rfl)
    · cases he
      refine .stop (hinsert.spawn _ ?_) (.of_eq rfl rfl rfl rfl)
      intro p hp
      rw [List.mem_singleton.mp hp]
      exact ⟨trivial, fun _ => id⟩
  | serveConn nodeID =>
    simp only [exec] at he
    split at he
    · cases he
      exact .stop h (.refl s)
    · cases he
      exact .stay h trivial
  | connectLoad nodeID todo missing | closeLoad nodeID todo missing =>
    cases todo with
    | nil =>
      cases he
      exact .stay h trivial
    | cons pool todo =>
      simp only [exec] at he
      split at he
      · cases he
        exact .stay h trivial
      · cases he
        exact .stay h trivial
  | connectStore nodeID missing =>
    cases missing with
    | nil =>
      cases he
      exact .stay h trivial
    | cons pool missing =>
      cases he
      exact .goOn (h.make pool nodeID) (grows_make ..) trivial
  | storeLock nodeID | deleteLock nodeID | deleteRegistered nodeID =>
    cases he
    apply Fits.idle h
    trivial
  | storeRegistered nodeID =>
    cases he
    have hspawn := h.spawn [.keepalive nodeID, .load nodeID .writeLoopQueue,
      .load nodeID (.listLoopQueue s.serves)] (by
        intro p hp
        simp only [List.mem_cons, List.not_mem_nil, or_false] at hp
        rcases hp with rfl | rfl | rfl
        · exact ⟨trivial, fun _ => id⟩
        · exact ⟨trivial, fun _ => id⟩
        · exact ⟨trivial, fun _ => id⟩)
    refine .goOn (hspawn.idle s.shutDown s.nodeLocks _ _ s.exits s.objectSyncs)
      (.of_eq rfl rfl rfl rfl) ?_
    trivial
  | exitServe nodeID serve =>
    simp only [exec] at he
    split_ifs at he
    cases he
    exact .stay h trivial
  | deleteConn nodeID =>
    cases he
    refine .goOn (h.eraseConn nodeID) (.of_eq rfl rfl rfl rfl) ?_
    trivial
  | closeDelete nodeID found =>
    cases found with
    | nil =>
      cases he
      exact .stop h (.refl s)
    | cons pool found =>
      cases he
      refine .goOn (h.erasePool pool nodeID) (.of_eq rfl rfl rfl rfl) ?_
      trivial

end KubeEdge.CloudHub.Nodes
