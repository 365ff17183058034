import KubeEdge.CloudHub.Queue

namespace KubeEdge.CloudHub
open Go Machine Workqueue

/-- The version in the ObjectSync of a message's object, as the lister shows it. -/
def recordedVersion (node : GoString) (m : Message) (s : NodeQueue) : Option GoString := do
  let accessor ← m.content
  s.objectSyncs.lookup (m.getNamespace, buildObjectSyncName node accessor.uid)

/-- Version `v` is newer than the stored message of the key and than the ObjectSync. -/
def NewerThanKnown (node key : GoString) (m : Message) (v : ℕ) (s : NodeQueue) : Prop :=
  (∀ x, s.nodeStore.lookup key = some x → ∃ w, x.msg.version = some w ∧ w < v) ∧
  ∀ version, recordedVersion node m s = some version → version ≠ [] →
    ∃ w, parseUint version = some w ∧ w < v

def AtRest (key : GoString) (s : NodeQueue) : Prop :=
  -- nothing is left to do for the key
  s.dispatching = none ∧ ¬ s.nodeQueue.Scheduled key

/-- A message that is at least as new as version `v` and was dispatched no earlier is passed to
`sendMsg` between two states of a run. -/
def SentSince (key : GoString) (v : ℕ) (s t : NodeQueue) : Prop :=
  ∃ new, t.log = new ++ s.log ∧ ∃ y, .passed y ∈ new ∧ y.key = key ∧ s.next ≤ y.address ∧
    ¬ y.msg.isDeleteMessage ∧ ∃ w, y.msg.version = some w ∧ v ≤ w

/-- After `addMessageToQueue` the message is stored and its key waits, or its state is sent in
every continuation in which the pending message of the key is answered and that goes on
until nothing is left to do for the key. -/
def Retained (node key : GoString) (m : Message) (v : ℕ) (s s' : NodeQueue) : Prop :=
  (s'.nodeStore.lookup key = some ⟨key, s.next, m⟩ ∧ key ∈ s'.nodeQueue.dirty) ∨
  ∃ x, s.nodeStore.lookup key = some x ∧ ∀ events t, run (step node) s' events = some t →
    AtRest key t → x ∈ t.acked → SentSince key v s' t

/-- No deletion that goes to the edge is stored for the key.  Where nothing is stored, the
content has a UID to find the ObjectSync with. -/
def Unblocked (key : GoString) (m : Message) (s : NodeQueue) : Prop :=
  match s.nodeStore.lookup key with
  | none => m.content.isSome
  | some x => x.msg.isDeleteMessage → ¬ x.msg.isToEdge

section

variable {node key : GoString} {m : Message} {s : NodeQueue} {v : ℕ}

section

variable (hkey : m.getMsgKey = some key) (hdel : ¬ m.isDeleteMessage)
include hkey hdel

theorem accepts_behind_delete {x : Stored} (hx : s.nodeStore.lookup key = some x)
    (hxdel : x.msg.isDeleteMessage) : accepts node m s = .ok none := by
  unfold accepts
  by_cases hempty : m.resourceVersion = [] ∧ ¬ m.isDeleteMessage
  · rw [if_pos hempty]
  · rw [if_neg hempty, hkey]
    dsimp only
    rw [if_neg hdel, hx]
    dsimp only
    rw [if_pos hxdel]

theorem accepts_without_uid (hx : s.nodeStore.lookup key = none) (hcontent : m.content = none) :
    accepts node m s = .ok none := by
  unfold accepts
  by_cases hempty : m.resourceVersion = [] ∧ ¬ m.isDeleteMessage
  · rw [if_pos hempty]
  · rw [if_neg hempty, hkey]
    dsimp only
    rw [if_neg hdel, hx]
    rw [hcontent]

end

theorem compareResourceVersion_of_lt {a b : GoString} {w : ℕ} (ha : parseUint a = some v)
    (hb : parseUint b = some w) (h : w < v) : compareResourceVersion a b = .ok .gt := by
  unfold compareResourceVersion
  rw [ha, hb]
  dsimp only
  rw [compare_gt_iff_gt.mpr h]

theorem resourceVersion_ne_nil (hv : m.version = some v) : m.resourceVersion ≠ [] := by
  intro hempty
  rw [Message.version, hempty] at hv
  cases hv

theorem accepts_newer (hkey : m.getMsgKey = some key) (hdel : ¬ m.isDeleteMessage)
    (hv : m.version = some v) (hnewer : NewerThanKnown node key m v s)
    (hcontent : s.nodeStore.lookup key = none → m.content.isSome)
    (hfree : ∀ x, s.nodeStore.lookup key = some x → ¬ x.msg.isDeleteMessage) :
    accepts node m s = .ok (some key) := by
  unfold accepts
  rw [if_neg (by simp [resourceVersion_ne_nil hv]), hkey]
  dsimp only
  rw [if_neg hdel]
  cases hx : s.nodeStore.lookup key with
  | none =>
    obtain ⟨accessor, hcontent⟩ := Option.isSome_iff_exists.mp (hcontent hx)
    rw [hcontent]
    dsimp only
    split
    · rfl
    · rename_i version hversion
      split_ifs with hempty
      · rfl
      · have hrecorded : recordedVersion node m s = some version := by
          simp [recordedVersion, hcontent, hversion]
        obtain ⟨w, hw, hlt⟩ := hnewer.2 version hrecorded hempty
        rw [compareResourceVersion_of_lt hv hw hlt, ok_bind, if_pos rfl]
  | some x =>
    dsimp only
    obtain ⟨w, hw, hlt⟩ := hnewer.1 x hx
    rw [if_neg (hfree x hx), compareResourceVersion_of_lt hv hw hlt, ok_bind, if_pos rfl]

theorem addMessageToQueue_of_accepts {accepted : Option GoString}
    (h : accepts node m s = .ok accepted) : addMessageToQueue node m s =
      .ok (accepted.elim s fun key => s.put key m) := by
  unfold addMessageToQueue
  rw [h, ok_bind]
  cases accepted <;> rfl

end

/-- What is held, passed or answered goes to the edge and was dispatched before, and what is
stored and was not passed yet will be looked at. -/
structure Traced (s : NodeQueue) : Prop where
  stored : ∀ k x, s.nodeStore.lookup k = some x → x.address < s.next
  held : ∀ k j x, s.nodeQueue.worker k = some j → j.holds = some x →
    x.address < s.next ∧ x.msg.isToEdge
  passed : ∀ x, .passed x ∈ s.log → x.msg.isToEdge
  acked : ∀ x ∈ s.acked, x.msg.isToEdge
  unsent : ∀ k x, s.nodeStore.lookup k = some x → x.msg.isToEdge → .passed x ∈ s.log ∨
    k ∈ s.nodeQueue.dirty ∨ s.nodeQueue.worker k = some .got ∨
      s.nodeQueue.worker k = some (.ready x)

theorem traced_start (objectSyncs : ObjectSyncs) : Traced (start objectSyncs) where
  stored := by intro k x h; cases h
  held := by intro k j x h; cases h
  passed := by intro x h; cases h
  acked := by intro x h; cases h
  unsent := by intro k x h; cases h

section

variable {node key : GoString} {s : NodeQueue}

section

variable (h : Traced s)
include h

/-- A write loop goes on from `j₀` to `j`.  A message that is ready is passed in this turn, and
after `Get` the stored message is made ready. -/
theorem Traced.setJob {s' : NodeQueue} {j j₀ : Job} (hnext : s'.next = s.next)
    (hstore : ∀ k x, s'.nodeStore.lookup k = some x → s.nodeStore.lookup k = some x)
    (hdirty : s'.nodeQueue.dirty = s.nodeQueue.dirty) (hjob : s.nodeQueue.worker key = some j₀)
    (hworker : ∀ k, s'.nodeQueue.worker k = if k = key then some j else s.nodeQueue.worker k)
    (hlog : ∀ x, .passed x ∈ s'.log ↔ .passed x ∈ s.log ∨ j₀ = .ready x)
    (hacked : ∀ x ∈ s'.acked, x ∈ s.acked ∨ j₀.holds = some x)
    (hholds : ∀ x, j.holds = some x → j₀.holds = some x ∨ s.nodeStore.lookup key = some x ∧
      x.msg.isToEdge)
    (hgot : ∀ x, j₀ = .got → s.nodeStore.lookup key = some x → x.msg.isToEdge → j = .ready x) :
    Traced s' := by
  have hready : ∀ {x}, j₀ = .ready x → x.msg.isToEdge := by
    intro x hx
    exact (h.held key j₀ x hjob (hx ▸ rfl)).2
  constructor
  case stored =>
    intro k x hx
    rw [hnext]
    exact h.stored k x (hstore k x hx)
  case held =>
    intro k j' x hj' hx
    rw [hworker] at hj'
    rw [hnext]
    split_ifs at hj' with hk
    · cases hj'
      rcases hholds x hx with hx | ⟨hx, hedge⟩
      · exact h.held key j₀ x hjob hx
      · exact ⟨h.stored key x hx, hedge⟩
    · exact h.held k j' x hj' hx
  case passed =>
    intro x hx
    rcases (hlog x).mp hx with hx | hx
    · exact h.passed x hx
    · exact hready hx
  case acked =>
    intro x hx
    rcases hacked x hx with hx | hx
    · exact h.acked x hx
    · exact (h.held key j₀ x hjob hx).2
  case unsent =>
    intro k x hx hedge
    rw [hdirty, hworker, hlog]
    have hold := h.unsent k x (hstore k x hx) hedge
    split_ifs with hk
    · subst hk
      rw [hjob] at hold
      rcases hold with hpassed | hdirty | hj | hj
      · exact .inl (.inl hpassed)
      · exact .inr (.inl hdirty)
      · have hj := hgot x (Option.some.inj hj) (hstore k x hx) hedge
        exact .inr (.inr (.inr (congrArg some hj)))
      · exact .inl (.inr (Option.some.inj hj))
    · exact hold.imp_left .inl

theorem Traced.job {j j₀ : Job} (hjob : s.nodeQueue.worker key = some j₀)
    (hready : ∀ x, j₀ ≠ .ready x)
    (hholds : ∀ x, j.holds = some x → j₀.holds = some x ∨ s.nodeStore.lookup key = some x ∧
      x.msg.isToEdge)
    (hgot : ∀ x, j₀ = .got → s.nodeStore.lookup key = some x → x.msg.isToEdge → j = .ready x) :
    Traced (s.setJob key j) := by
  refine h.setJob rfl (fun _ _ hx => hx) (dirty_setWorker ..) hjob (worker_setJob hjob)
    ?_ (fun _ => .inl) hholds hgot
  intro x
  exact (or_iff_left (hready x)).symm

theorem Traced.put (m : Message) : Traced (s.put key m) := by
  have hlookup : ∀ k, (s.put key m).nodeStore.lookup k =
      if k = key then some ⟨key, s.next, m⟩ else s.nodeStore.lookup k :=
    fun k => GoMap.lookup_insert ..
  have hworker : ∀ k, (s.put key m).nodeQueue.worker k = s.nodeQueue.worker k :=
    fun k => worker_add ..
  have hdirty : ∀ k, k ∈ (s.put key m).nodeQueue.dirty ↔ k = key ∨ k ∈ s.nodeQueue.dirty :=
    fun k => mem_dirty_add ..
  have hlog : ∀ x, .passed x ∈ (s.put key m).log ↔ .passed x ∈ s.log := by
    simp [NodeQueue.put]
  constructor
  case stored =>
    intro k x hx
    rw [hlookup] at hx
    split_ifs at hx
    · cases hx
      exact Nat.lt_succ_self _
    · exact Nat.lt_succ_of_lt (h.stored k x hx)
  case held =>
    intro k j x hj hx
    rw [hworker] at hj
    have hold := h.held k j x hj hx
    exact ⟨Nat.lt_succ_of_lt hold.1, hold.2⟩
  case passed =>
    intro x hx
    exact h.passed x ((hlog x).mp hx)
  case acked => exact h.acked
  case unsent =>
    intro k x hx hedge
    rw [hlog, hdirty, hworker]
    by_cases hk : k = key
    · exact .inr (.inl (.inl hk))
    · rw [hlookup, if_neg hk] at hx
      exact (h.unsent k x hx hedge).imp_right (Or.imp_left .inr)

theorem Traced.get {q : Workqueue GoString Job} (hget : s.nodeQueue.get Job.got = some (key, q)) :
    Traced { s with nodeQueue := q } := by
  obtain ⟨-, -, -, hworker, hdirty⟩ := get_eq_some hget
  refine ⟨h.stored, ?_, h.passed, h.acked, ?_⟩
  · intro k j x hj hx
    rw [hworker] at hj
    split_ifs at hj with hk
    · cases hj
      cases hx
    · exact h.held k j x hj hx
  · intro k x hx hedge
    rw [hworker, hdirty]
    split_ifs with hk
    · exact .inr (.inr (.inl rfl))
    · exact (h.unsent k x hx hedge).imp_right (Or.imp_left (And.intro hk))

theorem Traced.success {x : Stored} {retry : ℕ}
    (hjob : s.nodeQueue.worker key = some (.waiting x retry true)) :
    Traced ((s.saveSuccessPoint x).setJob key .finished) := by
  refine h.setJob (next_saveSuccessPoint s x) (fun _ _ => lookup_of_saveSuccessPoint)
    (by simp [NodeQueue.setJob]) hjob (worker_success hjob) ?_ ?_ (by simp [Job.holds]) (by simp)
  · intro y
    obtain ⟨new, hlog, hnew⟩ := log_saveSuccessPoint s x
    simp [NodeQueue.setJob, hlog, hnew]
  · intro y hy
    exact .inl (acked_saveSuccessPoint s x ▸ hy)

theorem Traced.done (hjob : s.nodeQueue.worker key = some .finished) :
    Traced { s with nodeQueue := s.nodeQueue.done key } := by
  refine ⟨h.stored, ?_, h.passed, h.acked, ?_⟩
  · intro k j x hj hx
    rw [worker_done] at hj
    split_ifs at hj
    exact h.held k j x hj hx
  · intro k x hx hedge
    rw [dirty_done, worker_done]
    have hold := h.unsent k x hx hedge
    split_ifs with hk
    · subst hk
      simpa [hjob] using hold
    · exact hold

theorem Traced.release : Traced { s with nodeQueue := s.nodeQueue.release key } := by
  refine ⟨h.stored, ?_, h.passed, h.acked, ?_⟩
  · intro k j x hj
    exact h.held k j x ((worker_release ..).symm.trans hj)
  · intro k x hx hedge
    rw [mem_dirty_release, worker_release]
    exact (h.unsent k x hx hedge).imp_right (Or.imp_left .inr)

theorem traced_step {s' : NodeQueue} {e : Event} (hstep : step node s e = some s') : Traced s' := by
  cases turn_of_step hstep with
  | check hidle haccepts | informer => exact { h with }
  | commit hm => exact h.put _
  | get hget => exact h.get hget
  | loadGone hjob hx => exact h.job hjob (by simp) (by simp [Job.holds]) (by simp [hx])
  | loadSkip hjob hx hedge =>
    refine h.job hjob (by simp) (by simp [Job.holds]) ?_
    intro y _ hy hedge'
    rw [hx] at hy
    cases hy
    rw [hedge] at hedge'
    cases hedge'
  | load hjob hx hedge =>
    refine h.job hjob (by simp) ?_ ?_
    · intro y hy
      cases hy
      exact .inr ⟨hx, hedge⟩
    · intro y _ hy _
      rw [hx] at hy
      cases hy
      rfl
  | send hjob =>
    refine h.setJob rfl (fun _ _ hx => hx) (dirty_setWorker ..) hjob (worker_setJob hjob)
      ?_ (fun _ => .inl) (fun _ => .inl) (by simp)
    intro y
    simp [NodeQueue.setJob, or_comm, eq_comm]
  | sendFails hjob =>
    refine h.setJob rfl (fun _ _ hx => hx) (dirty_setWorker ..) hjob
      (worker_retryLater hjob) ?_ (fun _ => .inl) (by simp [Job.holds]) (by simp)
    intro y
    simp [NodeQueue.retryLater, or_comm, eq_comm]
  | ack hjob =>
    refine h.setJob rfl (fun _ _ hx => hx) (dirty_setWorker ..) hjob (worker_setJob hjob)
      (by simp [NodeQueue.setJob]) ?_ (fun _ => .inl) (by simp)
    intro y hy
    rcases List.mem_cons.mp hy with rfl | hy
    · exact .inr rfl
    · exact .inl hy
  | lateAck hpassed =>
    exact ⟨h.stored, h.held, h.passed,
      List.forall_mem_cons.mpr ⟨h.passed _ hpassed, h.acked⟩, h.unsent⟩
  | success hjob => exact h.success hjob
  | giveUp hjob => exact h.job hjob (by simp) (by simp [Job.holds]) (by simp)
  | resend hjob => exact h.job hjob (by simp) (fun _ => .inl) (by simp)
  | resendFails hjob =>
    exact h.setJob rfl (fun _ _ hx => hx) (dirty_setWorker ..) hjob
      (worker_retryLater hjob) (by simp [NodeQueue.retryLater]) (fun _ => .inl)
      (by simp [Job.holds]) (by simp)
  | done hjob => exact h.done hjob
  | release hwaiting => exact h.release

theorem traced_run {events : List Event} {t : NodeQueue}
    (hrun : run (step node) s events = some t) :
    Traced t :=
  (always_of_step (fun _ _ _ h => traced_step h) events h).last hrun

end

/-- No stored message is forgotten before `sendMsg`. -/
theorem messages_traced (objectSyncs : ObjectSyncs) (es : List Event) :
    Always (step node) Traced (start objectSyncs) es :=
  always_of_step (fun _ _ _ h => traced_step h) es (traced_start objectSyncs)

end

/-- A run leads from `s` to `t` that dispatches nothing and passes, deletions apart, only
messages with addresses below the bound. -/
structure Leads (node : GoString) (bound : ℕ) (s t : NodeQueue) : Prop where
  reaches : ∃ events, run (step node) s events = some t
  log : ∃ new, t.log = new ++ s.log ∧
    ∀ y, .passed y ∈ new → ¬ y.msg.isDeleteMessage → y.address < bound
  acked : s.acked ⊆ t.acked
  dispatching : t.dispatching = s.dispatching

section

variable {node key : GoString} {bound : ℕ} {s t u : NodeQueue}

theorem Leads.refl : Leads node bound s s :=
  ⟨⟨[], rfl⟩, ⟨[], rfl, by simp⟩, List.Subset.refl _, rfl⟩

theorem Leads.trans (hst : Leads node bound s t) (htu : Leads node bound t u) :
    Leads node bound s u := by
  constructor
  case reaches =>
    obtain ⟨events, hrun⟩ := hst.reaches
    obtain ⟨events', hrun'⟩ := htu.reaches
    exact ⟨events ++ events', (run_append hrun).trans hrun'⟩
  case log =>
    obtain ⟨new, hlog, hall⟩ := hst.log
    obtain ⟨new', hlog', hall'⟩ := htu.log
    refine ⟨new' ++ new, by rw [hlog', hlog, List.append_assoc], ?_⟩
    intro y hy
    rcases List.mem_append.mp hy with hy | hy
    · exact hall' y hy
    · exact hall y hy
  case acked => exact List.Subset.trans hst.acked htu.acked
  case dispatching => exact htu.dispatching.trans hst.dispatching

theorem Leads.traced (hst : Leads node bound s t) (hs : Traced s) : Traced t := by
  obtain ⟨events, hrun⟩ := hst.reaches
  exact traced_run hs hrun

theorem leads_of_step {e : Event} (new : List Entry) (hstep : step node s e = some t)
    (hlog : t.log = new ++ s.log)
    (hall : ∀ y, .passed y ∈ new → ¬ y.msg.isDeleteMessage → y.address < bound)
    (hacked : s.acked ⊆ t.acked) (hdispatching : t.dispatching = s.dispatching) :
    Leads node bound s t :=
  ⟨⟨[e], by simp [run, hstep]⟩, ⟨new, hlog, hall⟩, hacked, hdispatching⟩

theorem leads_of_silent {e : Event} (hstep : step node s e = some t) (hlog : t.log = s.log)
    (hacked : t.acked = s.acked) (hdispatching : t.dispatching = s.dispatching) :
    Leads node bound s t :=
  leads_of_step [] hstep hlog (by simp) (by rw [hacked]; exact List.Subset.refl _) hdispatching

/-- The write loop of the key can come to its end, with the store as it is. -/
def CanFree (node key : GoString) (bound : ℕ) (s : NodeQueue) : Prop :=
  ∃ t, Leads node bound s t ∧ t.nodeStore = s.nodeStore ∧ t.nodeQueue.worker key = none

theorem CanFree.of_leads (hst : Leads node bound s t) (hstore : t.nodeStore = s.nodeStore)
    (ht : CanFree node key bound t) : CanFree node key bound s := by
  obtain ⟨u, htu, hstore', hfree⟩ := ht
  exact ⟨u, hst.trans htu, hstore'.trans hstore, hfree⟩

theorem canFree_finished (hjob : s.nodeQueue.worker key = some .finished) :
    CanFree node key bound s := by
  have hstep : step node s (.done key) = some { s with nodeQueue := s.nodeQueue.done key } := by
    simp [step, hjob]
  refine ⟨_, leads_of_silent hstep rfl rfl rfl, rfl, ?_⟩
  exact (worker_done ..).trans (if_pos rfl)

theorem canFree_ready {x : Stored} (hjob : s.nodeQueue.worker key = some (.ready x))
    (hx : x.address < bound) : CanFree node key bound s := by
  have hstep : step node s (.send key false) =
      some ({ s with log := .passed x :: s.log }.retryLater key) := by simp [step, hjob]
  have hleads : Leads node bound s ({ s with log := .passed x :: s.log }.retryLater key) := by
    refine leads_of_step [.passed x] hstep rfl ?_ (List.Subset.refl _) rfl
    intro y hy _
    simp only [List.mem_singleton, Entry.passed.injEq] at hy
    rw [hy]
    exact hx
  apply CanFree.of_leads hleads rfl
  exact canFree_finished ((worker_retryLater hjob key).trans (if_pos rfl))

theorem canFree (hs : Traced s) {x : Stored} (hx : s.nodeStore.lookup key = some x)
    (hedge : x.msg.isToEdge) : CanFree node key s.next s := by
  cases hjob : s.nodeQueue.worker key with
  | none => exact ⟨s, .refl, rfl, hjob⟩
  | some j =>
    cases j with
    | got =>
      have hstep : step node s (.load key) = some (s.setJob key (.ready x)) := by
        simp [step, hjob, hx, hedge]
      apply CanFree.of_leads (leads_of_silent hstep rfl rfl rfl) rfl
      exact canFree_ready ((worker_setJob hjob key).trans (if_pos rfl)) (hs.stored key x hx)
    | ready y => exact canFree_ready hjob (hs.held key _ y hjob rfl).1
    | waiting y retry closed =>
      by_cases hretry : retry = 4
      · have hstep : step node s (.tick key false) = some (s.setJob key .finished) := by
          simp [step, hjob, hretry]
        apply CanFree.of_leads (leads_of_silent hstep rfl rfl rfl) rfl
        exact canFree_finished ((worker_setJob hjob key).trans (if_pos rfl))
      · have hstep : step node s (.tick key false) = some (s.retryLater key) := by
          simp [step, hjob, hretry]
        apply CanFree.of_leads (leads_of_silent hstep rfl rfl rfl) rfl
        exact canFree_finished ((worker_retryLater hjob key).trans (if_pos rfl))
    | finished => exact canFree_finished hjob

/-- A write loop has just taken the key, and it was not added again. -/
def Taken (key : GoString) (s : NodeQueue) : Prop :=
  s.nodeQueue.worker key = some .got ∧ ¬ ComesBack s key

theorem exists_taken_of_queue (hkey : key ∈ s.nodeQueue.queue)
    (hwaiting : key ∉ s.nodeQueue.waiting) :
    ∃ t, Leads node bound s t ∧ t.nodeStore = s.nodeStore ∧ Taken key t := by
  obtain ⟨before, after, hqueue⟩ := List.append_of_mem hkey
  -- by induction on what waits before the key
  induction before generalizing s with
  | nil =>
    obtain ⟨q, hget⟩ := get_of_queue hqueue Job.got
    obtain ⟨-, -, hwaiting', hworker, hdirty⟩ := get_eq_some hget
    have hstep : step node s .get = some { s with nodeQueue := q } := by simp [step, hget]
    refine ⟨_, leads_of_silent hstep rfl rfl rfl, rfl, (hworker key).trans (if_pos rfl), ?_⟩
    simp [ComesBack, hdirty, hwaiting', hwaiting]
  | cons first before ih =>
    obtain ⟨q, hget⟩ := get_of_queue hqueue Job.got
    obtain ⟨-, hrest, hwaiting', -, -⟩ := get_eq_some hget
    have hstep : step node s .get = some { s with nodeQueue := q } := by simp [step, hget]
    have hrest : q.queue = before ++ key :: after := by
      rw [hqueue] at hrest
      exact (List.cons.inj hrest).2.symm
    have hnext : ∃ t, Leads node bound { s with nodeQueue := q } t ∧ t.nodeStore = s.nodeStore ∧
        Taken key t := ih (by simp [hrest]) (by rw [hwaiting']; exact hwaiting) hrest
    obtain ⟨t, ht, hstore, htaken⟩ := hnext
    exact ⟨t, (leads_of_silent hstep rfl rfl rfl).trans ht, hstore, htaken⟩

theorem exists_taken (hfree : s.nodeQueue.worker key = none) (hback : ComesBack s key) :
    ∃ t, Leads node bound s t ∧ t.nodeStore = s.nodeStore ∧ Taken key t := by
  by_cases hwaiting : key ∈ s.nodeQueue.waiting
  · have hstep : step node s (.release key) =
        some { s with nodeQueue := s.nodeQueue.release key } := by
      simp [step, hwaiting]
    have hqueue : key ∈ (s.nodeQueue.release key).queue := by
      apply mem_queue_of_dirty
      · rw [worker_release]
        exact hfree
      · exact (mem_dirty_release ..).mpr (.inl rfl)
    have hnext : ∃ t, Leads node bound { s with nodeQueue := s.nodeQueue.release key } t ∧
        t.nodeStore = s.nodeStore ∧ Taken key t :=
      exists_taken_of_queue hqueue (by simp)
    obtain ⟨t, ht, hstore, htaken⟩ := hnext
    exact ⟨t, (leads_of_silent hstep rfl rfl rfl).trans ht, hstore, htaken⟩
  · have hdirty := hback.resolve_right hwaiting
    exact exists_taken_of_queue (mem_queue_of_dirty hfree hdirty) hwaiting

/-- The edge answers `x`, and nothing is left to do for the key. -/
def CanAnswer (node key : GoString) (bound : ℕ) (x : Stored) (s : NodeQueue) : Prop :=
  ∃ t, Leads node bound s t ∧ x ∈ t.acked ∧ ¬ t.nodeQueue.Scheduled key

variable {x : Stored}

theorem CanAnswer.of_leads (hst : Leads node bound s t) (ht : CanAnswer node key bound x t) :
    CanAnswer node key bound x s := by
  obtain ⟨u, htu, hacked, hrest⟩ := ht
  exact ⟨u, hst.trans htu, hacked, hrest⟩

theorem canAnswer_finished (hjob : s.nodeQueue.worker key = some .finished)
    (hback : ¬ ComesBack s key) (hacked : x ∈ s.acked) : CanAnswer node key bound x s := by
  have hstep : step node s (.done key) = some { s with nodeQueue := s.nodeQueue.done key } := by
    simp [step, hjob]
  refine ⟨_, leads_of_silent hstep rfl rfl rfl, hacked, not_scheduled ?_ ?_⟩
  · exact (worker_done ..).trans (if_pos rfl)
  · rw [comesBack_done]
    exact hback

theorem canAnswer_closed {retry : ℕ} (hjob : s.nodeQueue.worker key = some (.waiting x retry true))
    (hback : ¬ ComesBack s key) (hacked : x ∈ s.acked) : CanAnswer node key bound x s := by
  have hstep : step node s (.success key) = some ((s.saveSuccessPoint x).setJob key .finished) := by
    simp [step, hjob]
  have hacked' : ((s.saveSuccessPoint x).setJob key .finished).acked = s.acked :=
    acked_saveSuccessPoint s x
  obtain ⟨new, hlog, hnew⟩ := log_saveSuccessPoint s x
  have hleads : Leads node bound s ((s.saveSuccessPoint x).setJob key .finished) := by
    refine leads_of_step new hstep hlog ?_ ?_ (dispatching_saveSuccessPoint s x)
    · exact fun y hy => absurd hy (hnew y)
    · rw [hacked']
      exact List.Subset.refl _
  apply CanAnswer.of_leads hleads
  apply canAnswer_finished
  · exact (worker_success hjob key).trans (if_pos rfl)
  · rw [comesBack_success]
    exact hback
  · rw [hacked']
    exact hacked

theorem canAnswer_waiting {retry : ℕ} {closed : Bool}
    (hjob : s.nodeQueue.worker key = some (.waiting x retry closed)) (hback : ¬ ComesBack s key) :
    CanAnswer node key bound x s := by
  have hstep : step node s (.ack key) =
      some ({ s with acked := x :: s.acked }.setJob key (.waiting x retry true)) := by
    simp [step, hjob]
  apply CanAnswer.of_leads
    (leads_of_step [] hstep rfl (by simp) (List.subset_cons_self ..) rfl)
  apply canAnswer_closed
  · exact (worker_setJob hjob key).trans (if_pos rfl)
  · rw [comesBack_setJob]
    exact hback
  · exact .head _

theorem canAnswer_ready (hjob : s.nodeQueue.worker key = some (.ready x))
    (hback : ¬ ComesBack s key) (hdel : x.msg.isDeleteMessage) : CanAnswer node key bound x s := by
  have hstep : step node s (.send key true) =
      some ({ s with log := .passed x :: s.log }.setJob key (.waiting x 0 false)) := by
    simp [step, hjob]
  have hleads : Leads node bound s
      ({ s with log := .passed x :: s.log }.setJob key (.waiting x 0 false)) := by
    -- what is passed is a deletion
    refine leads_of_step [.passed x] hstep rfl ?_ (List.Subset.refl _) rfl
    intro y hy hydel
    simp only [List.mem_singleton, Entry.passed.injEq] at hy
    rw [hy] at hydel
    exact absurd hdel hydel
  apply CanAnswer.of_leads hleads
  apply canAnswer_waiting
  · exact (worker_setJob hjob key).trans (if_pos rfl)
  · rw [comesBack_setJob]
    exact hback

theorem canAnswer_taken (htaken : Taken key s) (hx : s.nodeStore.lookup key = some x)
    (hedge : x.msg.isToEdge) (hdel : x.msg.isDeleteMessage) : CanAnswer node key bound x s := by
  have hstep : step node s (.load key) = some (s.setJob key (.ready x)) := by
    simp [step, htaken.1, hx, hedge]
  apply CanAnswer.of_leads (leads_of_silent hstep rfl rfl rfl)
  apply canAnswer_ready
  · exact (worker_setJob htaken.1 key).trans (if_pos rfl)
  · rw [comesBack_setJob]
    exact htaken.2
  · exact hdel

theorem canAnswer (hs : Traced s) (hx : s.nodeStore.lookup key = some x) (hedge : x.msg.isToEdge)
    (hdel : x.msg.isDeleteMessage) : CanAnswer node key s.next x s := by
  have hfree : CanFree node key s.next s := canFree hs hx hedge
  obtain ⟨t, hst, hstore, hfree⟩ := hfree
  rw [← hstore] at hx
  apply CanAnswer.of_leads hst
  by_cases hback : ComesBack t key
  · have htaken : ∃ u, Leads node s.next t u ∧ u.nodeStore = t.nodeStore ∧ Taken key u :=
      exists_taken hfree hback
    obtain ⟨u, htu, hstore', htaken⟩ := htaken
    rw [← hstore'] at hx
    exact .of_leads htu (canAnswer_taken htaken hx hedge hdel)
  · -- nothing is left to do, so the message was passed and its answer comes late
    have hpassed : .passed x ∈ t.log := by
      have hunsent := (hst.traced hs).unsent key x hx hedge
      have hdirty : key ∉ t.nodeQueue.dirty := fun hmem => hback (.inl hmem)
      simpa [hfree, hdirty] using hunsent
    have hstep : step node t (.lateAck x) = some { t with acked := x :: t.acked } := by
      simp [step, hpassed]
    exact ⟨_, leads_of_step [] hstep rfl (by simp) (List.subset_cons_self ..) rfl,
      .head _, not_scheduled hfree hback⟩

end

section

variable {node key : GoString} {m : Message} {v : ℕ} {s : NodeQueue}

theorem retained_put : Retained node key m v s (s.put key m) := by
  left
  constructor
  · exact (GoMap.lookup_insert ..).trans (if_pos rfl)
  · exact (mem_dirty_add ..).mpr (.inl rfl)

/-- A deletion that goes to the edge is answered, and nothing that was dispatched since is
sent. -/
theorem not_retained (hs : Traced s) (hidle : s.dispatching = none) (hdel : ¬ m.isDeleteMessage)
    {x : Stored} (hx : s.nodeStore.lookup key = some x) (hxdel : x.msg.isDeleteMessage)
    (hedge : x.msg.isToEdge) : ¬ Retained node key m v s s := by
  rintro (⟨hstored, -⟩ | ⟨x', hx', hsent⟩)
  · rw [hx] at hstored
    cases hstored
    exact hdel hxdel
  · rw [hx] at hx'
    cases hx'
    have hanswer : CanAnswer node key s.next x s := canAnswer hs hx hedge hxdel
    obtain ⟨t, hst, hacked, hrest⟩ := hanswer
    obtain ⟨events, hrun⟩ := hst.reaches
    obtain ⟨new, hlog, hall⟩ := hst.log
    have hrest : AtRest key t := ⟨hst.dispatching.trans hidle, hrest⟩
    obtain ⟨new', hlog', y, hy, -, hle, hydel, -⟩ := hsent events t hrun hrest hacked
    have hnew : new' = new := List.append_cancel_right (hlog'.symm.trans hlog)
    rw [hnew] at hy
    exact absurd (hall y hy hydel) (Nat.not_lt.mpr hle)

theorem retained_of_not_isToEdge {s' : NodeQueue} (hs : Traced s') {x : Stored}
    (hx : s.nodeStore.lookup key = some x) (hedge : ¬ x.msg.isToEdge) :
    Retained node key m v s s' := by
  right
  refine ⟨x, hx, ?_⟩
  intro events t hrun _ hacked
  exact absurd ((traced_run hs hrun).acked x hacked) hedge

/-- In every reachable state, a message that is newer than what is known is retained exactly if
no deletion that goes to the edge is stored for its key. -/
theorem newer_retained_iff {objectSyncs : ObjectSyncs} {events : List Event}
    (hrun : run (step node) (start objectSyncs) events = some s) (hidle : s.dispatching = none)
    (hkey : m.getMsgKey = some key) (hdel : ¬ m.isDeleteMessage) (hv : m.version = some v)
    (hnewer : NewerThanKnown node key m v s) :
    ∃ s', addMessageToQueue node m s = .ok s' ∧
      (Retained node key m v s s' ↔ Unblocked key m s) := by
  have hs : Traced s := traced_run (traced_start objectSyncs) hrun
  unfold Unblocked
  cases hx : s.nodeStore.lookup key with
  | none =>
    cases hcontent : m.content with
    | none =>
      have haccepts : accepts node m s = .ok none := accepts_without_uid hkey hdel hx hcontent
      refine ⟨s, addMessageToQueue_of_accepts haccepts, iff_of_false ?_ (by simp)⟩
      simp [Retained, hx]
    | some accessor =>
      have haccepts : accepts node m s = .ok (some key) :=
        accepts_newer hkey hdel hv hnewer (by simp [hcontent]) (by simp [hx])
      exact ⟨_, addMessageToQueue_of_accepts haccepts, iff_of_true retained_put rfl⟩
  | some x =>
    by_cases hxdel : x.msg.isDeleteMessage
    · have haccepts : accepts node m s = .ok none := accepts_behind_delete hkey hdel hx hxdel
      refine ⟨s, addMessageToQueue_of_accepts haccepts, ?_⟩
      by_cases hedge : x.msg.isToEdge
      · exact iff_of_false (not_retained hs hidle hdel hx hxdel hedge) fun h => h hxdel hedge
      · exact iff_of_true (retained_of_not_isToEdge hs hx hedge) fun _ => hedge
    · have haccepts : accepts node m s = .ok (some key) :=
        accepts_newer hkey hdel hv hnewer (by simp [hx]) (by simpa [hx] using hxdel)
      exact ⟨_, addMessageToQueue_of_accepts haccepts,
        iff_of_true retained_put fun h => absurd h hxdel⟩

theorem newerThanKnown_of_stored {x : Stored} {w : ℕ} (hx : s.nodeStore.lookup key = some x)
    (hw : x.msg.version = some w) (hlt : w < v) (hrecorded : recordedVersion node m s = none) :
    NewerThanKnown node key m v s := by
  constructor
  · intro x' hx'
    rw [hx] at hx'
    cases hx'
    exact ⟨w, hw, hlt⟩
  · intro version hversion
    rw [hrecorded] at hversion
    cases hversion

end

open Sample

theorem newer_retained_queued :
    ∃ s s', run (step (str "node")) (start ∅) [.check (pod (str "insert") (str "1")), .commit] =
        some s ∧
      (s.nodeStore.lookup podKey).bind (·.msg.version) = some 1 ∧
      addMessageToQueue (str "node") (pod (str "update") (str "2")) s = .ok s' ∧
      Retained (str "node") podKey (pod (str "update") (str "2")) 2 s s' := by
  have hread : (run (step (str "node")) (start ∅)
      [.check (pod (str "insert") (str "1")), .commit]).map (fun s =>
      (s.nodeStore.lookup podKey).any (fun x =>
        !x.msg.isDeleteMessage && x.msg.version = some 1) &&
      s.dispatching.isNone &&
      (recordedVersion (str "node") (pod (str "update") (str "2")) s).isNone) = some true := by
    decide +kernel
  obtain ⟨s, hs, hread⟩ := Option.map_eq_some_iff.mp hread
  simp only [Bool.and_eq_true, Bool.not_eq_true', Option.any_eq_true, decide_eq_true_eq,
    Option.isNone_iff_eq_none] at hread
  obtain ⟨⟨⟨x, hx, hxdel, hxversion⟩, hidle⟩, hrecorded⟩ := hread
  have hnewer := newerThanKnown_of_stored (v := 2) hx hxversion (by decide) hrecorded
  obtain ⟨s', hs', hiff⟩ := newer_retained_iff hs hidle (by decide +kernel) (by decide +kernel)
    (by decide +kernel) hnewer
  refine ⟨s, s', hs, by rw [hx]; exact hxversion, hs', hiff.mpr ?_⟩
  unfold Unblocked
  rw [hx]
  intro hdel
  rw [hxdel] at hdel
  cases hdel

namespace Sample

def deletePod : List Event := [.check (pod (str "delete") (str "1")), .commit]

def answerPod : List Event :=
  [.get, .load podKey, .send podKey true, .ack podKey, .success podKey, .done podKey]

end Sample

/-- The pod is deleted and created again before the deletion is answered.  The new pod is
discarded, and when the deletion is answered nothing is left of it. -/
theorem recreated_discarded :
    ∃ s t, run (step (str "node")) (start ∅) deletePod = some s ∧
      NewerThanKnown (str "node") podKey (pod (str "insert") (str "2")) 2 s ∧
      addMessageToQueue (str "node") (pod (str "insert") (str "2")) s = .ok s ∧
      run (step (str "node")) s answerPod = some t ∧
      t.nodeStore.lookup podKey = none ∧ AtRest podKey t ∧
      ¬ Retained (str "node") podKey (pod (str "insert") (str "2")) 2 s s := by
  have hdelete : (run (step (str "node")) (start ∅) deletePod).map (fun s =>
      (s.nodeStore.lookup podKey).any (fun x =>
        x.msg.isDeleteMessage && x.msg.isToEdge && x.msg.version = some 1) &&
      s.dispatching.isNone &&
      (recordedVersion (str "node") (pod (str "insert") (str "2")) s).isNone) =
      some true := by
    decide +kernel
  obtain ⟨s, hs, hdelete⟩ := Option.map_eq_some_iff.mp hdelete
  simp only [Bool.and_eq_true, Option.any_eq_true, decide_eq_true_eq,
    Option.isNone_iff_eq_none] at hdelete
  obtain ⟨⟨⟨x, hx, ⟨hxdel, hedge⟩, hxversion⟩, hidle⟩, hrecorded⟩ := hdelete
  have hanswer : (run (step (str "node")) (start ∅) (deletePod ++ answerPod)).map
      (fun t => (t.nodeStore.lookup podKey).isNone && t.dispatching.isNone &&
        (t.nodeQueue.worker podKey).isNone && GoSet.isEmpty t.nodeQueue.dirty &&
        GoSet.isEmpty t.nodeQueue.waiting) = some true := by
    decide +kernel
  rw [run_append hs] at hanswer
  obtain ⟨t, ht, hanswer⟩ := Option.map_eq_some_iff.mp hanswer
  simp only [Bool.and_eq_true, Option.isNone_iff_eq_none, GoSet.isEmpty_iff] at hanswer
  obtain ⟨⟨⟨⟨hgone, hidle'⟩, hfree⟩, hdirty⟩, hwaiting⟩ := hanswer
  have hrest : AtRest podKey t := by
    refine ⟨hidle', not_scheduled hfree ?_⟩
    rintro (hmem | hmem)
    · exact hdirty _ hmem
    · exact hwaiting _ hmem
  have hpod : ¬ (pod (str "insert") (str "2")).isDeleteMessage := by decide +kernel
  have haccepts : accepts (str "node") (pod (str "insert") (str "2")) s = .ok none :=
    accepts_behind_delete (by decide +kernel) hpod hx hxdel
  have htraced : Traced s := traced_run (traced_start ∅) hs
  exact ⟨s, t, hs, newerThanKnown_of_stored hx hxversion (by decide) hrecorded,
    addMessageToQueue_of_accepts haccepts, ht, hgone, hrest,
    not_retained htraced hidle hpod hx hxdel hedge⟩

end KubeEdge.CloudHub
