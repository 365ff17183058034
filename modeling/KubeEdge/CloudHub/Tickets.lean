import KubeEdge.CloudHub.Confinement

namespace KubeEdge.CloudHub.Nodes
open Go Machine ListLoop

variable {s s' : Hub} {ok : Bool} {p : Point} {next : Option Point}

def QueueHolds (s : Hub) (o : ℕ) (key : GoString) : Prop :=
  (∃ nodeID, Made s o .listQueue nodeID) ∧ key ∈ (s.queue o).dirty

/-- The ticket that a goroutine has after a step it had before, or got from a queue that has
lost it; a queue only gets a ticket from `addListMessageToQueue`. -/
structure Moves (s s' : Hub) (p : Point) (next : Option Point) : Prop where
  received : s'.received = s.received
  queue : ∀ o key, QueueHolds s' o key →
    QueueHolds s o key ∨ p = .listEnqueue key o ∧ next = none
  point : ∀ q ∈ next, ∀ key, q.Holds s' key →
    p.Holds s key ∨ ∃ o, QueueHolds s o key ∧ ¬ QueueHolds s' o key
  heap : s'.heap = s.heap ∨ ∃ v key msg m, p = .listTrim v key msg ∧
    s'.heap = s.heap.set msg m ∧ ∀ q ∈ next, ∀ key, ¬ q.Holds s' key

section

variable (hreceived : s'.received = s.received) (hheap : s'.heap = s.heap)
include hreceived hheap

/-- A step of a goroutine that keeps its ticket or has none, while the queues keep theirs or
lose some. -/
theorem Moves.of_queue (hqueue : ∀ o key, QueueHolds s' o key → QueueHolds s o key)
    (hpoint : ∀ q ∈ next, ∀ key, q.Holds s' key → p.Holds s key) : Moves s s' p next where
  received := hreceived
  queue o key hk := .inl (hqueue o key hk)
  point q hq key hk := .inl (hpoint q hq key hk)
  heap := .inl hheap

theorem Moves.of_eq (hmade : s'.made = s.made) (hqueue : s'.queue = s.queue)
    (hpoint : ∀ q ∈ next, ∀ key, q.Holds s' key → p.Holds s key) : Moves s s' p next := by
  refine .of_queue hreceived hheap ?_ hpoint
  intro o key hk
  unfold QueueHolds Made at hk
  rw [hmade, hqueue] at hk
  exact hk

end

theorem Moves.stay (hpoint : ∀ q ∈ next, ∀ key, q.Holds s key → p.Holds s key) :
    Moves s s p next :=
  Moves.of_eq rfl rfl rfl rfl hpoint

theorem free_none : ∀ q ∈ (none : Option Point), ∀ key, q.Holds s' key → p.Holds s key := by
  simp

theorem free_some {q : Point} (hfree : ∀ key, q.Holds s' key → p.Holds s key) :
    ∀ q' ∈ some q, ∀ key, q'.Holds s' key → p.Holds s key := by
  intro q' hq'
  cases hq'
  exact hfree

theorem Moves.free {q : Point} (hfree : ∀ key, ¬ q.Holds s key) : Moves s s p (some q) :=
  Moves.stay (free_some fun key hk => absurd hk (hfree key))

variable {nodeID key rest : GoString} {o msg q : ℕ} {k : Caller} {v : ListVars}

theorem queueHolds_make {pool : Pool} (h : QueueHolds (s.make pool nodeID) o key) :
    QueueHolds s o key := by
  obtain ⟨⟨n, hmade⟩, hdirty⟩ := h
  change key ∈ (Function.update s.queue s.made.length {} o).dirty at hdirty
  rcases made_make hmade with ⟨hmade, ho⟩ | ⟨ho, -⟩
  · rw [Function.update_of_ne ho] at hdirty
    exact ⟨⟨n, hmade⟩, hdirty⟩
  · rw [ho, Function.update_self] at hdirty
    simp at hdirty

theorem queueHolds_setQueue {o' : ℕ} {q : Workqueue GoString Unit}
    (hq : (∃ nodeID, Made s o .listQueue nodeID) → key ∈ q.dirty → key ∈ (s.queue o).dirty)
    (h : QueueHolds (s.setQueue o q) o' key) : QueueHolds s o' key := by
  obtain ⟨hmade, hdirty⟩ := h
  change key ∈ (Function.update s.queue o q o').dirty at hdirty
  by_cases ho : o' = o
  · subst ho
    rw [Function.update_self] at hdirty
    exact ⟨hmade, hq hmade hdirty⟩
  · rw [Function.update_of_ne ho] at hdirty
    exact ⟨hmade, hdirty⟩

theorem not_listQueue (h : Made s o .queue nodeID) : ¬ ∃ nodeID', Made s o .listQueue nodeID' := by
  rintro ⟨nodeID', h'⟩
  cases (h.unique h').1

theorem queueHolds_addKey {o' : ℕ} {k : GoString} (h : QueueHolds (s.addKey o k) o' key) :
    QueueHolds s o' key ∨ key = k ∧ o' = o ∧ ∃ nodeID, Made s o .listQueue nodeID := by
  unfold Hub.addKey at h
  split_ifs at h
  · exact .inl h
  · obtain ⟨hmade, hdirty⟩ := h
    change key ∈ (Function.update s.queue o _ o').dirty at hdirty
    by_cases ho : o' = o
    · subst ho
      rw [Function.update_self, Workqueue.mem_dirty_add] at hdirty
      rcases hdirty with rfl | hdirty
      · exact .inr ⟨rfl, rfl, hmade⟩
      · exact .inl ⟨hmade, hdirty⟩
    · rw [Function.update_of_ne ho] at hdirty
      exact .inl ⟨hmade, hdirty⟩

theorem addKey_received (s : Hub) (o : ℕ) (key : GoString) :
    (s.addKey o key).received = s.received ∧ (s.addKey o key).heap = s.heap := by
  unfold Hub.addKey
  split_ifs
  · exact ⟨rfl, rfl⟩
  · exact ⟨rfl, rfl⟩

theorem holds_next (hreceived : s'.received = s.received) (h : (k.next nodeID o).Holds s' key) :
    (Point.load nodeID k).Holds s key := by
  rw [holds_congr hreceived] at h
  cases k with
  | addListQueue msg | addListStore msg q => exact h
  | addQueue msg | addStore msg q | listLoopQueue serve | listLoopStore serve q
  | listLoopNodeQueue serve q st | writeLoopQueue | writeLoopStore q => exact False.elim h

theorem load_moves (he : exec s ok (.load nodeID k) = some (s', next)) :
    Moves s s' (.load nodeID k) next := by
  simp only [exec] at he
  split at he
  · cases he
    exact .stay (free_some fun key hk => holds_next rfl hk)
  · cases he
    exact .stay (free_some fun key hk => by cases k <;> exact hk)

theorem create_moves (he : exec s ok (.create nodeID k) = some (s', next)) :
    Moves s s' (.create nodeID k) next := by
  cases he
  refine .of_queue rfl rfl (fun o key => queueHolds_make) (free_some ?_)
  intro key hk
  have hload := holds_next rfl hk
  cases k <;> exact hload

theorem listAdd_moves (h : HubSound s) {st : ℕ}
    (he : exec s ok (.listAdd msg q st) = some (s', next)) :
    Moves s s' (.listAdd msg q st) next := by
  obtain ⟨m, hm, he⟩ := Option.bind_eq_some_iff.mp he
  cases he
  refine .of_eq rfl rfl rfl rfl (free_some ?_)
  intro key hk
  have hkey : key = m.id := hk
  rw [hkey]
  exact h.id_of_heap hm

theorem listEnqueue_moves (he : exec s ok (.listEnqueue key q) = some (s', next)) :
    Moves s s' (.listEnqueue key q) next := by
  cases he
  refine ⟨(addKey_received s q key).1, ?_, by simp, .inl (addKey_received s q key).2⟩
  intro o k hk
  rcases queueHolds_addKey hk with hold | ⟨rfl, rfl, -⟩
  · exact .inl hold
  · exact .inr ⟨rfl, rfl⟩

theorem enqueue_moves (hp : (Point.enqueue key q).Sound s)
    (he : exec s ok (.enqueue key q) = some (s', next)) : Moves s s' (.enqueue key q) next := by
  obtain ⟨nodeID, hmade⟩ := hp
  cases he
  refine .of_queue (addKey_received s q key).1 (addKey_received s q key).2 ?_ free_none
  intro o k hk
  rcases queueHolds_addKey hk with hold | ⟨-, -, hlist⟩
  · exact hold
  · exact absurd hlist (not_listQueue hmade)

theorem listGet_moves (hv : v.Sound s) (he : exec s ok (.listGet v) = some (s', next)) :
    Moves s s' (.listGet v) next := by
  simp only [exec] at he
  split at he
  · rename_i k q hget
    cases he
    obtain ⟨-, hqueue, -, -, hdirty⟩ := Workqueue.get_eq_some hget
    have hlost : ∀ o key, QueueHolds (s.setQueue v.nodeListQueue q) o key → QueueHolds s o key :=
      fun o key => queueHolds_setQueue fun _ hk => ((hdirty key).mp hk).2
    refine ⟨rfl, fun o key hk => .inl (hlost o key hk), ?_, .inl rfl⟩
    intro p hp key hk
    cases hp
    obtain rfl : key = k := hk
    refine .inr ⟨v.nodeListQueue, ⟨⟨_, hv.nodeListQueue⟩, ?_⟩, ?_⟩
    · apply (s.queue v.nodeListQueue).queue_dirty
      rw [hqueue]
      exact .head _
    · rintro ⟨-, hstill⟩
      change key ∈ (Function.update s.queue v.nodeListQueue q v.nodeListQueue).dirty at hstill
      rw [Function.update_self] at hstill
      exact ((hdirty key).mp hstill).1 rfl
  · split_ifs at he
    cases he
    exact .stay free_none

theorem listFind_moves (he : exec s ok (.listFind v key) = some (s', next)) :
    Moves s s' (.listFind v key) next := by
  simp only [exec] at he
  split at he
  · cases he
    exact .free fun _ => id
  · cases he
    exact .stay (free_some fun _ hk => hk)

theorem listTrim_moves (he : exec s ok (.listTrim v key msg) = some (s', next)) :
    Moves s s' (.listTrim v key msg) next := by
  obtain ⟨m, hm, he⟩ := Option.bind_eq_some_iff.mp he
  split_ifs at he
  · cases he
    exact .free fun _ => id
  · cases he
    refine ⟨rfl, fun o k hk => .inl hk, ?_, .inr ⟨v, key, msg, _, rfl, rfl, ?_⟩⟩
    · intro q hq k hk
      cases hq
      exact False.elim hk
    · intro q hq k hk
      cases hq
      exact hk
  · cases he
    exact .free fun _ => id

theorem setQueue_moves (hmade : Made s o .queue nodeID) (q : Workqueue GoString Unit) {p' : Point}
    (hfree : ∀ key, ¬ p'.Holds (s.setQueue o q) key) :
    Moves s (s.setQueue o q) p (some p') := by
  refine .of_queue rfl rfl ?_ (free_some fun key hk => absurd hk (hfree key))
  intro o' key
  exact queueHolds_setQueue fun hlist => absurd hlist (not_listQueue hmade)

theorem hubIoWrite_same {w : Write} (h : s.hubIoWrite nodeID w = some s') :
    s'.received = s.received ∧ s'.heap = s.heap ∧ s'.made = s.made ∧ s'.queue = s.queue := by
  unfold Hub.hubIoWrite at h
  split_ifs at h
  cases h
  exact ⟨rfl, rfl, rfl, rfl⟩

theorem listSend_moves {conn : ℕ} (he : exec s ok (.listSend v key msg conn) = some (s', next)) :
    Moves s s' (.listSend v key msg conn) next := by
  obtain ⟨m, -, he⟩ := Option.bind_eq_some_iff.mp he
  cases he
  by_cases hok : ok = true
  · rw [if_pos hok]
    cases hwrite : s.hubIoWrite v.nodeID ⟨conn, msg, m.resource⟩ with
    | none => exact .free fun _ => id
    | some s₁ =>
      obtain ⟨hreceived, hheap, hmade, hqueue⟩ := hubIoWrite_same hwrite
      exact .of_eq hreceived hheap hmade hqueue (free_some fun _ => False.elim)
  · rw [if_neg hok]
    exact .free fun _ => id

theorem send_moves {v : WriteVars} {hi retry : ℕ} {copyMsg : Message}
    (hp : (Point.send v key msg copyMsg hi retry).Sound s)
    (he : exec s ok (.send v key msg copyMsg hi retry) = some (s', next)) :
    Moves s s' (.send v key msg copyMsg hi retry) next := by
  simp only [exec] at he
  split at he
  · rename_i s₁ hwrite
    cases he
    split_ifs at hwrite
    obtain ⟨hreceived, hheap, hmade, hqueue⟩ := hubIoWrite_same hwrite
    exact .of_eq hreceived hheap hmade hqueue (free_some fun _ => False.elim)
  · cases he
    exact setQueue_moves hp.1.1.nodeQueue _ fun _ => id

theorem exec_moves (h : HubSound s) (hp : p.Sound s) (he : exec s ok p = some (s', next)) :
    Moves s s' p next := by
  cases p with
  | load nodeID k => exact load_moves he
  | create nodeID k => exact create_moves he
  | listAdd msg q st => exact listAdd_moves h he
  | listEnqueue key q => exact listEnqueue_moves he
  | check nodeID msg q st =>
    obtain ⟨m, -, he⟩ := Option.bind_eq_some_iff.mp he
    obtain ⟨accepted, -, he⟩ := Option.bind_eq_some_iff.mp he
    cases he
    cases accepted with
    | none => exact .stay free_none
    | some key => exact .free fun _ => id
  | add key msg q st | shutDownQueue v | shutDownList v | onRegister nodeID conn
  | storeLock nodeID | storeRegistered nodeID | deleteLock nodeID | deleteConn nodeID
  | deleteRegistered nodeID =>
    cases he
    exact .of_eq rfl rfl rfl rfl (free_some fun _ => False.elim)
  | enqueue key q => exact enqueue_moves hp he
  | listGet v => exact listGet_moves hp he
  | listFind v key => exact listFind_moves he
  | listTrim v key msg => exact listTrim_moves he
  | listConn v key msg | conn v key msg copyMsg | serveConn nodeID =>
    simp only [exec] at he
    split at he
    · cases he
      first
        | exact .stay free_none
        | exact .free fun _ => id
    · cases he
      exact .free fun _ => id
  | listSend v key msg conn => exact listSend_moves he
  | listDelete v key msg =>
    obtain ⟨m, -, he⟩ := Option.bind_eq_some_iff.mp he
    cases he
    exact .of_eq rfl rfl rfl rfl (free_some fun _ => False.elim)
  | listDone v key =>
    cases he
    refine .of_queue rfl rfl ?_ (free_some fun _ => False.elim)
    intro o k
    apply queueHolds_setQueue
    intro _ hk
    rw [Workqueue.dirty_done] at hk
    exact hk
  | get v =>
    simp only [exec] at he
    split at he
    · cases he
      exact setQueue_moves hp.nodeQueue _ fun _ => id
    · split_ifs at he
      cases he
      exact .stay free_none
  | find v key =>
    simp only [exec] at he
    split at he
    · cases he
      exact .free fun _ => id
    · obtain ⟨m, -, he⟩ := Option.bind_eq_some_iff.mp he
      split_ifs at he <;> cases he <;> exact .free fun _ => id
  | send v key msg copyMsg hi retry => exact send_moves hp he
  | wait v key msg copyMsg hi retry =>
    simp only [exec] at he
    split_ifs at he <;> cases he <;> exact .free fun _ => id
  | saveSuccessPoint v key msg =>
    obtain ⟨m, -, he⟩ := Option.bind_eq_some_iff.mp he
    split_ifs at he
    · cases he
      exact .of_eq rfl rfl rfl rfl (free_some fun _ => False.elim)
    · cases he
      exact .free fun _ => id
  | done v key =>
    cases he
    exact setQueue_moves hp.nodeQueue _ fun _ => id
  | keepalive nodeID =>
    simp only [exec] at he
    split_ifs at he
    · cases he
      exact .of_eq rfl rfl rfl rfl (free_some fun _ => False.elim)
    · cases he
      exact .stay free_none
  | storeConn nodeID conn registered =>
    simp only [exec] at he
    split_ifs at he <;> cases he <;> exact .of_eq rfl rfl rfl rfl free_none
  | connectLoad nodeID todo missing | closeLoad nodeID todo missing =>
    cases todo with
    | nil =>
      cases he
      exact .free fun _ => id
    | cons pool todo =>
      simp only [exec] at he
      split at he <;> cases he <;> exact .free fun _ => id
  | connectStore nodeID missing =>
    cases missing with
    | nil =>
      cases he
      exact .free fun _ => id
    | cons pool missing =>
      cases he
      exact .of_queue rfl rfl (fun o key => queueHolds_make)
        (free_some fun _ => False.elim)
  | exitServe nodeID serve =>
    simp only [exec] at he
    split_ifs at he
    cases he
    exact .free fun _ => id
  | stopServe v =>
    cases he
    exact .of_eq rfl rfl rfl rfl free_none
  | closeDelete nodeID found =>
    cases found with
    | nil =>
      cases he
      exact .stay free_none
    | cons pool found =>
      cases he
      exact .of_eq rfl rfl rfl rfl (free_some fun _ => False.elim)

/-- Where a ticket can be. -/
inductive Place
  | goroutine (g : ℕ)
  | queue (o : ℕ)

def World.Holds (w : World) (key : GoString) : Place → Prop
  | .goroutine g => ∃ p ∈ w.goroutines g, p.Holds w.hub key
  | .queue o => QueueHolds w.hub o key

/-- The message with this identifier is in memory as it was received. -/
def WholeKey (s : Hub) (key : GoString) : Prop :=
  ∃ (msg : ℕ) (m : Message) (found : _),
    s.received[msg]? = some (m, found) ∧ m.id = key ∧ s.heap[msg]? = some m

structure Inv (w : World) : Prop where
  hub : HubSound w.hub
  points : ∀ g, ∀ p ∈ w.goroutines g, p.Sound w.hub
  unique : ∀ key a b, w.Holds key a → w.Holds key b → a = b
  whole : ∀ key a, w.Holds key a → WholeKey w.hub key

theorem Inv.ready {w : World} (h : Inv w) {g : ℕ} (hp : p ∈ w.goroutines g) :
    ∀ v key msg, p = .listTrim v key msg → Whole w.hub msg := by
  rintro v key msg rfl
  obtain ⟨-, -, m, found, hrec, hid⟩ := h.points g _ hp
  obtain ⟨msg', m', found', hrec', hid', hheap⟩ := h.whole key (.goroutine g) ⟨_, hp, rfl⟩
  obtain rfl := h.hub.ids msg' msg m' m found' found hrec' hrec (hid'.trans hid.symm)
  exact ⟨m', found', hrec', hheap⟩

section
variable {w : World} {g : ℕ}

/-- The state after a step of the goroutine `g`. -/
def World.after (w : World) (g : ℕ) (s' : Hub) (next : Option Point) : World :=
  ⟨s', Function.update w.goroutines g next⟩

theorem mem_after {g' : ℕ} {q : Point} (h : q ∈ (w.after g s' next).goroutines g') :
    g' = g ∧ q ∈ next ∨ g' ≠ g ∧ q ∈ w.goroutines g' := by
  change q ∈ Function.update w.goroutines g next g' at h
  by_cases hg : g' = g
  · rw [hg, Function.update_self] at h
    exact .inl ⟨hg, h⟩
  · rw [Function.update_of_ne hg] at h
    exact .inr ⟨hg, h⟩

theorem holds_before (hm : Moves w.hub s' p next) (hp : p ∈ w.goroutines g) {a : Place}
    (ha : (w.after g s' next).Holds key a) :
    w.Holds key a ∨
      (∃ o, a = .goroutine g ∧ w.Holds key (.queue o) ∧
        ¬ (w.after g s' next).Holds key (.queue o)) ∨
      ∃ o, a = .queue o ∧ p = .listEnqueue key o ∧ next = none := by
  cases a with
  | goroutine g' =>
    obtain ⟨q, hq, hholds⟩ := ha
    rcases mem_after hq with ⟨rfl, hnext⟩ | ⟨-, hq⟩
    · rcases hm.point q hnext key hholds with hold | ⟨o, ho, hlost⟩
      · exact .inl ⟨p, hp, hold⟩
      · exact .inr (.inl ⟨o, rfl, ho, hlost⟩)
    · exact .inl ⟨q, hq, (holds_congr hm.received).mp hholds⟩
  | queue o =>
    rcases hm.queue o key ha with hold | hput
    · exact .inl hold
    · exact .inr (.inr ⟨o, rfl, hput⟩)

theorem not_holds_of_none : ¬ (w.after g s' none).Holds key (.goroutine g) := by
  rintro ⟨q, hq, -⟩
  simp [World.after] at hq

section

variable (h : Inv w) (hm : Moves w.hub s' p next) (hp : p ∈ w.goroutines g) (key : GoString)
include h hm hp

theorem after_unique (a b : Place) (ha : (w.after g s' next).Holds key a)
    (hb : (w.after g s' next).Holds key b) : a = b := by
  -- a ticket that was handed over is not where it was
  have hput : ∀ {o}, p = .listEnqueue key o → w.Holds key (.goroutine g) := by
    rintro o rfl
    exact ⟨_, hp, rfl⟩
  rcases holds_before hm hp ha with ha' | ⟨o, rfl, ho, hlost⟩ | ⟨o, rfl, hpoint, hnone⟩ <;>
    rcases holds_before hm hp hb with hb' | ⟨o', rfl, ho', hlost'⟩ | ⟨o', rfl, hpoint', hnone'⟩
  · exact h.unique key a b ha' hb'
  · rw [h.unique key a _ ha' ho'] at ha
    exact absurd ha hlost'
  · rw [h.unique key a _ ha' (hput hpoint'), hnone'] at ha
    exact absurd ha not_holds_of_none
  · rw [h.unique key b _ hb' ho] at hb
    exact absurd hb hlost
  · rfl
  · cases h.unique key _ _ ho (hput hpoint')
  · rw [h.unique key b _ hb' (hput hpoint), hnone] at hb
    exact absurd hb not_holds_of_none
  · cases h.unique key _ _ ho' (hput hpoint)
  · cases hpoint.symm.trans hpoint'
    rfl

theorem after_whole (a : Place) (ha : (w.after g s' next).Holds key a) : WholeKey s' key := by
  have hbefore : ∃ b, w.Holds key b := by
    rcases holds_before hm hp ha with ha | ⟨o, -, ho, -⟩ | ⟨o, -, rfl, -⟩
    · exact ⟨a, ha⟩
    · exact ⟨.queue o, ho⟩
    · exact ⟨.goroutine g, _, hp, rfl⟩
  obtain ⟨b, hb⟩ := hbefore
  obtain ⟨msg, m, found, hrec, hid, hheap⟩ := h.whole key b hb
  rw [← hm.received] at hrec
  refine ⟨msg, m, found, hrec, hid, ?_⟩
  rcases hm.heap with heq | ⟨v, key₀, msg₀, m₀, rfl, hset, hfree⟩
  · rw [heq]
    exact hheap
  · -- the ticket of the trimmed message is gone
    have hne : msg₀ ≠ msg := by
      rintro rfl
      obtain ⟨-, -, m', found', hrec', hid'⟩ := h.points g _ hp
      rw [hm.received] at hrec
      cases hrec.symm.trans hrec'
      obtain rfl : key = key₀ := hid.symm.trans hid'
      have hg : w.Holds key (.goroutine g) := ⟨_, hp, rfl⟩
      rcases holds_before hm hp ha with ha' | ⟨o, -, ho, -⟩ | ⟨o, -, hpoint, -⟩
      · obtain rfl := h.unique key a _ ha' hg
        obtain ⟨q, hq, hholds⟩ := ha
        change q ∈ Function.update w.goroutines g next g at hq
        rw [Function.update_self] at hq
        exact hfree q hq key hholds
      · cases h.unique key _ _ ho hg
      · cases hpoint
    rw [hset, List.getElem?_set_ne hne]
    exact hheap

end

theorem exec_inv (h : Inv w) (hp : p ∈ w.goroutines g)
    (he : exec w.hub ok p = some (s', next)) : Inv (w.after g s' next) := by
  have hsound := h.points g p hp
  have hm := exec_moves h.hub hsound he
  obtain ⟨hhub, hg, hnext⟩ := exec_fits h.hub hsound (h.ready hp) he
  refine ⟨hhub, ?_, after_unique h hm hp, after_whole h hm hp⟩
  intro g' q hq
  rcases mem_after hq with ⟨-, hq⟩ | ⟨-, hq⟩
  · exact hnext q hq
  · exact hg.point (h.points g' q hq)

end

section
variable {m : Message} {text : Option GoString}

theorem grows_receive (s : Hub) (m : Message) (text : Option GoString) :
    Grows s (s.receive m text) := by
  refine ⟨id, fun h => getElem?_snoc.mpr (.inl h), id, ?_⟩
  rintro msg ⟨m', found, hrec, hheap⟩
  exact ⟨m', found, getElem?_snoc.mpr (.inl hrec), getElem?_snoc.mpr (.inl hheap)⟩

theorem Grows.hasId_back (h : Grows s s') {kind : QueueKind} (hd : Dispatched s msg nodeID kind)
    (hid : HasId s' msg key) :
    HasId s msg key := by
  obtain ⟨m, hrec⟩ := hd
  obtain ⟨m', found, hrec', hid⟩ := hid
  cases (h.received hrec).symm.trans hrec'
  exact ⟨m, _, hrec, hid⟩

theorem Grows.holds_back (h : Grows s s') (hp : p.Sound s) (hk : p.Holds s' key) :
    p.Holds s key := by
  cases p with
  | load nodeID k | create nodeID k =>
    cases k with
    | addListQueue msg => exact h.hasId_back hp hk
    | addListStore msg q => exact h.hasId_back hp.1 hk
    | addQueue msg | addStore msg q | listLoopQueue serve | listLoopStore serve q
    | listLoopNodeQueue serve q st | writeLoopQueue | writeLoopStore q => exact hk
  | listAdd msg q st =>
    obtain ⟨nodeID, hd, -⟩ := hp
    exact h.hasId_back hd hk
  | _ => exact hk

theorem heap_receive (h : HubSound s) {m' : Message} {found : _}
    (hrec : (s.receive m text).received[msg]? = some (m', found)) :
    s.received[msg]? = some (m', found) ∨
      msg = s.received.length ∧ m' = m ∧ found = dispatchMessage m text ∧
        (s.receive m text).heap[msg]? = some m := by
  rcases getElem?_snoc.mp hrec with hrec | ⟨hmsg, he⟩
  · exact .inl hrec
  · cases he
    refine .inr ⟨hmsg, rfl, rfl, getElem?_snoc.mpr (.inr ⟨?_, rfl⟩)⟩
    rw [h.length]
    exact hmsg

theorem HubSound.receive (h : HubSound s) (hfresh : ∀ x ∈ s.received, x.1.id ≠ m.id) :
    HubSound (s.receive m text) := by
  have hg := grows_receive s m text
  have hold : ∀ {msg : ℕ} {m' : Message}, s.heap[msg]? = some m' →
      (s.receive m text).heap[msg]? = some m' := fun hheap => getElem?_snoc.mpr (.inl hheap)
  refine
    { pools := h.pools, listStores := ?_, stores := ?_, conns := h.conns, length := ?_, heap := ?_,
      listHeap := ?_, ids := ?_, found := ?_, waiting := h.waiting, written := ?_, spawned := ?_ }
  · intro o nodeID hmade key msg hlook
    obtain ⟨hd, hid⟩ := h.listStores o nodeID hmade key msg hlook
    exact ⟨hg.dispatched hd, hg.hasId hid⟩
  · intro o nodeID hmade key msg hlook
    exact hg.dispatched (h.stores o nodeID hmade key msg hlook)
  · change (s.heap ++ [m]).length = (s.received ++ [_]).length
    simp [h.length]
  · intro msg m' nodeID hrec
    rcases heap_receive h hrec with hrec | ⟨-, rfl, -, hheap⟩
    · exact hold (h.heap msg m' nodeID hrec)
    · exact hheap
  · intro msg m' found hrec
    rcases heap_receive h hrec with hrec | ⟨-, rfl, -, hheap⟩
    · exact (h.listHeap msg m' found hrec).imp hold hold
    · exact .inl hheap
  · intro i j mi mj fi fj hi hj hid
    rcases heap_receive h hi with hi' | ⟨hi', rfl, -⟩ <;>
      rcases heap_receive h hj with hj' | ⟨hj', rfl, -⟩
    · exact h.ids i j mi mj fi fj hi' hj' hid
    · exact absurd hid (hfresh (mi, fi) (List.mem_of_getElem? hi'))
    · exact absurd hid.symm (hfresh (mj, fj) (List.mem_of_getElem? hj'))
    · rw [hi', hj']
  · intro msg m' nodeID kind hrec
    rcases heap_receive h hrec with hrec | ⟨-, rfl, hfound, -⟩
    · exact h.found msg m' nodeID kind hrec
    · obtain ⟨n, hn, he⟩ := Option.map_eq_some_iff.mp hfound.symm
      cases he
      exact hn
  · intro w hw
    obtain ⟨m', nodeID, kind, hrec, hconn, hres⟩ := h.written w hw
    exact ⟨m', nodeID, kind, hg.received hrec, hconn, hres⟩
  · intro p hp
    obtain ⟨hsound, hfree⟩ := h.spawned p hp
    exact ⟨hg.point hsound, fun key hk => hfree key (hg.holds_back hsound hk)⟩

theorem dispatch_sound (hp : p ∈ dispatch s.received.length m text) :
    p.Sound (s.receive m text) ∧ ∀ key, p.Holds (s.receive m text) key → key = m.id := by
  have hnew : (s.receive m text).received[s.received.length]? = some (m, dispatchMessage m text) :=
    getElem?_snoc.mpr (.inr ⟨rfl, rfl⟩)
  unfold dispatch at hp
  split at hp
  · cases hp
  · rename_i nodeID hd
    cases hp
    rw [hd] at hnew
    refine ⟨⟨m, hnew⟩, ?_⟩
    rintro key ⟨m', found, hrec, hid⟩
    cases hnew.symm.trans hrec
    exact hid.symm
  · rename_i nodeID hd
    split_ifs at hp
    · cases hp
    · cases hp
      rw [hd] at hnew
      exact ⟨⟨m, hnew⟩, fun key => False.elim⟩

theorem receive_inv {w : World} (h : Inv w) (hfresh : ∀ x ∈ w.hub.received, x.1.id ≠ m.id) :
    Inv (w.after 0 (w.hub.receive m text) (dispatch w.hub.received.length m text)) := by
  have hg := grows_receive w.hub m text
  -- only the dispatcher has a ticket for the new message, and only for that one
  have hbefore : ∀ {key a}, (w.after 0 (w.hub.receive m text)
      (dispatch w.hub.received.length m text)).Holds key a →
      a = .goroutine 0 ∧ key = m.id ∨ w.Holds key a := by
    intro key a ha
    cases a with
    | queue o => exact .inr ha
    | goroutine g =>
      obtain ⟨p, hp, hk⟩ := ha
      rcases mem_after hp with ⟨rfl, hp⟩ | ⟨-, hp⟩
      · exact .inl ⟨rfl, (dispatch_sound hp).2 key hk⟩
      · exact .inr ⟨p, hp, hg.holds_back (h.points g p hp) hk⟩
  have hnew : ∀ {a}, ¬ w.Holds m.id a := by
    intro a ha
    obtain ⟨msg, m', found, hrec, hid, -⟩ := h.whole m.id a ha
    exact hfresh _ (List.mem_of_getElem? hrec) hid
  refine ⟨h.hub.receive hfresh, ?_, ?_, ?_⟩
  · intro g p hp
    rcases mem_after hp with ⟨-, hp⟩ | ⟨-, hp⟩
    · exact (dispatch_sound hp).1
    · exact hg.point (h.points g p hp)
  · intro key a b ha hb
    rcases hbefore ha with ⟨rfl, rfl⟩ | ha <;> rcases hbefore hb with ⟨rfl, hkey⟩ | hb
    · rfl
    · exact absurd hb hnew
    · exact absurd (hkey ▸ ha) hnew
    · exact h.unique key a b ha hb
  · intro key a ha
    rcases hbefore ha with ⟨-, rfl⟩ | ha
    · refine ⟨w.hub.received.length, m, _, getElem?_snoc.mpr (.inr ⟨rfl, rfl⟩), rfl, ?_⟩
      rw [← h.hub.length]
      exact getElem?_snoc.mpr (.inr ⟨rfl, rfl⟩)
    · obtain ⟨msg, m', found, hrec, hid, hheap⟩ := h.whole key a ha
      exact ⟨msg, m', found, hg.received hrec, hid, getElem?_snoc.mpr (.inl hheap)⟩

end

section
variable {w w' : World} {m : GoString}

theorem Inv.of_hub (h : Inv w) (hhub : HubSound s')
    (hreceived : s'.received = w.hub.received) (hheap : s'.heap = w.hub.heap)
    (hgrows : Grows w.hub s')
    (hqueue : ∀ o key, QueueHolds s' o key → QueueHolds w.hub o key) :
    Inv { w with hub := s' } := by
  have hbefore : ∀ {key a}, World.Holds { w with hub := s' } key a → w.Holds key a := by
    intro key a ha
    cases a with
    | goroutine g =>
      obtain ⟨p, hp, hk⟩ := ha
      exact ⟨p, hp, (holds_congr hreceived).mp hk⟩
    | queue o => exact hqueue o key ha
  refine ⟨hhub, fun g p hp => hgrows.point (h.points g p hp), ?_, ?_⟩
  · intro key a b ha hb
    exact h.unique key a b (hbefore ha) (hbefore hb)
  · intro key a ha
    obtain ⟨msg, m, found, hrec, hid, hmem⟩ := h.whole key a (hbefore ha)
    refine ⟨msg, m, found, ?_, hid, ?_⟩
    · rw [hreceived]
      exact hrec
    · rw [hheap]
      exact hmem

theorem HubSound.connect (h : HubSound s) (nodeID : GoString) :
    let s' := { s with
      connections := s.connections ++ [nodeID]
      spawned := s.spawned ++ [.onRegister nodeID s.connections.length] }
    HubSound s' ∧ Grows s s' := by
  intro s'
  have hg : Grows s s' := ⟨id, id, fun hc => getElem?_snoc.mpr (.inl hc), id⟩
  refine ⟨{ h with conns := ?_, written := ?_, spawned := ?_ }, hg⟩
  · intro n conn hlook
    exact hg.connections (h.conns n conn hlook)
  · intro x hx
    obtain ⟨m, n, kind, hrec, hconn, hres⟩ := h.written x hx
    exact ⟨m, n, kind, hrec, hg.connections hconn, hres⟩
  · exact forall_mem_snoc (h.spawned_mono hg rfl) ⟨getElem?_snoc.mpr (.inr ⟨rfl, rfl⟩), fun _ => id⟩

theorem start_inv (h : Inv w) {g i : ℕ} (hp : w.hub.spawned[i]? = some p) :
    Inv (w.after g { w.hub with spawned := w.hub.spawned.eraseIdx i } (some p)) := by
  obtain ⟨hsound, hfree⟩ := h.hub.spawned p (List.mem_of_getElem? hp)
  have hg : Grows w.hub { w.hub with spawned := w.hub.spawned.eraseIdx i } :=
    Grows.of_eq rfl rfl rfl rfl
  have hhub : HubSound { w.hub with spawned := w.hub.spawned.eraseIdx i } :=
    { h.hub with
      spawned := fun q hq => h.hub.spawned_mono hg rfl q (List.mem_of_mem_eraseIdx hq) }
  have hbefore : ∀ {key a}, (w.after g { w.hub with spawned := w.hub.spawned.eraseIdx i }
      (some p)).Holds key a → w.Holds key a := by
    intro key a ha
    cases a with
    | queue o => exact ha
    | goroutine g' =>
      obtain ⟨q, hq, hk⟩ := ha
      rcases mem_after hq with ⟨-, hq⟩ | ⟨-, hq⟩
      · cases hq
        exact absurd hk (hfree key)
      · exact ⟨q, hq, hk⟩
  refine ⟨hhub, ?_, ?_, ?_⟩
  · intro g' q hq
    rcases mem_after hq with ⟨-, hq⟩ | ⟨-, hq⟩
    · cases hq
      exact hg.point hsound
    · exact hg.point (h.points g' q hq)
  · intro key a b ha hb
    exact h.unique key a b (hbefore ha) (hbefore hb)
  · intro key a ha
    exact h.whole key a (hbefore ha)

theorem release_inv (h : Inv w) (hkey : key ∈ (w.hub.queue o).waiting) :
    Inv { w with hub := w.hub.release o key } := by
  have hother : ∀ nodeID, ¬ Made w.hub o .listQueue nodeID :=
    fun nodeID hmade => h.hub.waiting o nodeID hmade key hkey
  unfold Hub.release
  split_ifs
  · exact h
  · apply h.of_hub _ (by rfl) (by rfl) (grows_setQueue ..)
    · intro o' k
      apply queueHolds_setQueue
      rintro ⟨nodeID, hmade⟩
      exact absurd hmade (hother nodeID)
    · apply h.hub.setQueue
      intro nodeID hmade
      exact absurd hmade (hother nodeID)

theorem step_inv {e : Event} (h : Inv w) (hstep : step w e = some w') : Inv w' := by
  cases e with
  | receive m text =>
    simp only [step] at hstep
    split_ifs at hstep with hok
    cases hstep
    exact receive_inv h hok.2
  | connect nodeID =>
    cases hstep
    obtain ⟨hhub, hg⟩ := h.hub.connect nodeID
    exact h.of_hub hhub rfl rfl hg fun _ _ => id
  | start g i =>
    simp only [step] at hstep
    split_ifs at hstep
    obtain ⟨p, hp, hstep⟩ := Option.bind_eq_some_iff.mp hstep
    cases hstep
    exact start_inv h hp
  | step g ok =>
    obtain ⟨p, hp, hstep⟩ := Option.bind_eq_some_iff.mp hstep
    obtain ⟨⟨s', next⟩, he, hstep⟩ := Option.bind_eq_some_iff.mp hstep
    cases hstep
    exact exec_inv h hp he
  | release o key =>
    simp only [step] at hstep
    split_ifs at hstep with hkey
    cases hstep
    exact release_inv h hkey
  | informer objectSyncs =>
    cases hstep
    have hg : Grows w.hub { w.hub with objectSyncs } := .of_eq rfl rfl rfl rfl
    exact h.of_hub (h.hub.idle w.hub.shutDown w.hub.nodeLocks w.hub.nodeRegistered w.hub.serves
      w.hub.exits objectSyncs) rfl rfl hg fun _ _ => id

theorem holds_init (key : GoString) (a : Place) : ¬ World.Holds {} key a := by
  cases a <;> simp [World.Holds, QueueHolds]

theorem init_inv : Inv {} where
  hub :=
    { pools := by simp, listStores := by simp [Made], stores := by simp [Made], conns := by simp
      length := rfl, heap := by simp, listHeap := by simp, ids := by simp, found := by simp
      waiting := by simp [Made], written := by simp, spawned := by simp }
  points := by simp
  unique key a _ ha := absurd ha (holds_init key a)
  whole key a ha := absurd ha (holds_init key a)

theorem split_node (hm : 47 ∉ m) :
    split 47 (str "node" ++ 47 :: (m ++ 47 :: rest)) = str "node" :: m :: split 47 rest := by
  rw [split_append_sep (by decide), split_append_sep hm]

theorem trimPath_node (hm : 47 ∉ m) :
    Envoy.trimPath (str "node" ++ 47 :: (m ++ 47 :: rest)) = rest := by
  have hlen : ¬ (str "node" :: m :: split 47 rest).length < 3 := by
    have hne : 0 < (split 47 rest).length :=
      List.length_pos_of_ne_nil (List.splitOnP_ne_nil _ _)
    simp only [List.length_cons]
    omega
  have hnode : (str "node").isPrefixOf (str "node" ++ 47 :: (m ++ 47 :: rest)) = true := by
    simp
  unfold Envoy.trimPath
  rw [if_pos hnode, split_node hm, if_neg hlen]
  exact join_split ..

theorem getNodeID_node {msg : Message} (hne : m ≠ []) (hm : 47 ∉ m)
    (hres : msg.resource = str "node" ++ 47 :: (m ++ 47 :: rest)) : msg.getNodeID = some m := by
  unfold Message.getNodeID
  rw [hres, split_node hm]
  simp [nodeToken, hne]

theorem Inv.confined (h : Inv w) : Confined w := by
  intro x hx
  obtain ⟨msg, nodeID, kind, hrec, hconn, hwritten⟩ := h.hub.written x hx
  refine ⟨msg, _, hrec, ?_⟩
  intro m rest hne hm _ hres
  have hnode := h.hub.found x.msg msg nodeID kind hrec
  rw [getNodeID_node hne hm hres] at hnode
  cases hnode
  refine ⟨hconn, ?_⟩
  rw [hwritten]
  change Envoy.trimPath msg.resource = rest
  rw [hres]
  exact trimPath_node hm

end

/-- In every run, the write loops write a message only to connections of the node in its path,
and every time under the rest of the path. -/
theorem writes_confined (es : List Event) : Always step Confined {} es :=
  (always_of_step (fun _ _ _ => step_inv) es init_inv).mono fun _ => Inv.confined

/-- In every run a list message is in one place, with the dispatcher, in a queue or with a write
loop, until it is trimmed, and no message is trimmed twice. -/
theorem list_keys_unique (es : List Event) : Always step Inv {} es :=
  always_of_step (fun _ _ _ => step_inv) es init_inv

end KubeEdge.CloudHub.Nodes
