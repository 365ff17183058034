import KubeEdge.CloudHub.Queue

namespace KubeEdge.CloudHub
open Go Machine Workqueue

def Entry.removes (k : GoString) : Entry → Bool
  | .removed x => x.key = k
  | _ => false

/-- The entries since the key was removed from the store. -/
def since (k : GoString) (log : List Entry) : List Entry := log.takeWhile fun e => !e.removes k

/-- The second version is the first one, or both are numbers and it is not the smaller one. -/
def VersionLE (x y : Message) : Prop :=
  x.resourceVersion = y.resourceVersion ∨ ∃ v w, x.version = some v ∧ y.version = some w ∧ v ≤ w

/-- A message that is handed to `sendMsg` is not older than those that were since the key was
removed, and was not stored behind a deletion. -/
def SendsInOrder (s : NodeQueue) (e : Event) : Prop :=
  ∀ k ok y, e = .send k ok → s.nodeQueue.worker k = some (.ready y) → ¬ y.msg.isDeleteMessage →
    (∀ x, .passed x ∈ since k s.log → x.key = k → ¬ x.msg.isDeleteMessage → VersionLE x.msg y.msg) ∧
    ∀ newer d older, since k s.log = newer ++ .stored d :: older → d.key = k →
      d.msg.isDeleteMessage → .stored y ∉ newer

section

variable (k : GoString) (x : Stored) (log : List Entry)

@[simp] theorem since_stored : since k (.stored x :: log) = .stored x :: since k log := rfl

theorem since_removed :
    since k (.removed x :: log) = if x.key = k then [] else .removed x :: since k log := by
  unfold since
  by_cases h : x.key = k <;> simp [Entry.removes, h]

end

theorem VersionLE.refl (x : Message) : VersionLE x x := .inl rfl

theorem VersionLE.trans {x y z : Message} (hxy : VersionLE x y) (hyz : VersionLE y z) :
    VersionLE x z := by
  rcases hxy with hxy | ⟨v, w, hv, hw, hle⟩
  · unfold VersionLE Message.version at hyz ⊢
    rw [hxy]
    exact hyz
  · right
    rcases hyz with hyz | ⟨w', u, hw', hu, hle'⟩
    · unfold Message.version at hw ⊢
      rw [hyz] at hw
      exact ⟨v, w, hv, hw, hle⟩
    · rw [hw] at hw'
      cases hw'
      exact ⟨v, u, hv, hu, hle.trans hle'⟩

/-- In a history a deletion of the key is followed by deletions only, and what is stored now
is one. -/
def Blocked (k : GoString) (entries : List Entry) (stored : Option Stored) : Prop :=
  ∀ newer d older, entries = newer ++ .stored d :: older → d.key = k → d.msg.isDeleteMessage →
    (∃ y, stored = some y ∧ y.msg.isDeleteMessage) ∧
      ∀ y, .stored y ∈ newer → y.key = k → y.msg.isDeleteMessage

theorem Blocked.cons {k : GoString} {entries : List Entry} {stored : Option Stored} {e : Entry}
    (h : Blocked k entries stored) (he : ∀ z, e ≠ .stored z) : Blocked k (e :: entries) stored := by
  intro newer d older heq hkey hdel
  rcases List.cons_eq_append_iff.mp heq with ⟨-, hd⟩ | ⟨rest, rfl, hrest⟩
  · exact absurd (List.cons.inj hd).1.symm (he d)
  · obtain ⟨hstored, hall⟩ := h rest d older hrest hkey hdel
    refine ⟨hstored, fun z hz => ?_⟩
    rcases List.mem_cons.mp hz with hz | hz
    · exact absurd hz.symm (he z)
    · exact hall z hz

variable {x : Stored} {s s' : NodeQueue} {key node : GoString}

/-- Where only a deletion is stored over a deletion, the next message may be stored. -/
theorem Blocked.store {k : GoString} {entries : List Entry} {stored : Option Stored}
    (h : Blocked k entries stored)
    (hx : ∀ y, k = x.key → stored = some y → y.msg.isDeleteMessage → x.msg.isDeleteMessage) :
    Blocked k (.stored x :: entries) (if k = x.key then some x else stored) := by
  intro newer d older heq hkey hdel
  rcases List.cons_eq_append_iff.mp heq with ⟨rfl, hd⟩ | ⟨rest, rfl, hrest⟩
  · cases (List.cons.inj hd).1
    rw [if_pos hkey.symm]
    exact ⟨⟨x, rfl, hdel⟩, by simp⟩
  · obtain ⟨⟨y, hy, hydel⟩, hall⟩ := h rest d older hrest hkey hdel
    split_ifs with hk
    · have hxdel := hx y hk hy hydel
      refine ⟨⟨x, rfl, hxdel⟩, fun z hz hzkey => ?_⟩
      rcases List.mem_cons.mp hz with hz | hz
      · cases hz
        exact hxdel
      · exact hall z hz hzkey
    · refine ⟨⟨y, hy, hydel⟩, fun z hz hzkey => ?_⟩
      rcases List.mem_cons.mp hz with hz | hz
      · cases hz
        exact absurd hzkey.symm hk
      · exact hall z hz hzkey

structure Ordered (s : NodeQueue) : Prop where
  stored : ∀ k x, s.nodeStore.lookup k = some x → x.key = k
  /-- A held message is in the store or was replaced by a newer one or a deletion. -/
  held : ∀ k j x, s.nodeQueue.worker k = some j → j.holds = some x → x.key = k ∧
    ∃ y, s.nodeStore.lookup k = some y ∧
      (¬ x.msg.isDeleteMessage → ¬ y.msg.isDeleteMessage → VersionLE x.msg y.msg)
  /-- So is a message that was passed. -/
  passed : ∀ k x, .passed x ∈ since k s.log → x.key = k → ¬ x.msg.isDeleteMessage →
    (∃ y, s.nodeStore.lookup k = some y ∧ (¬ y.msg.isDeleteMessage → VersionLE x.msg y.msg)) ∧
    ∀ y, s.nodeQueue.worker k = some (.ready y) → ¬ y.msg.isDeleteMessage →
      VersionLE x.msg y.msg
  /-- What is about to be stored replaces nothing newer and no deletion. -/
  dispatching : ∀ k m, s.dispatching = some (k, m) → ¬ m.isDeleteMessage →
    ∀ y, s.nodeStore.lookup k = some y → ¬ y.msg.isDeleteMessage ∧ VersionLE y.msg m
  /-- A stored deletion stays, or is replaced by another, until the key is removed. -/
  blocked : ∀ k, Blocked k (since k s.log) (s.nodeStore.lookup k)

theorem ordered_start (objectSyncs : ObjectSyncs) :
    Ordered (start objectSyncs) where
  stored := by intro k x h; cases h
  held := by intro k j x h; cases h
  passed := by intro k x h; cases h
  dispatching := by intro k m h; cases h
  blocked := by
    intro k newer d older h
    simp [start, since] at h

section

variable (h : Ordered s) (hstore : s'.nodeStore = s.nodeStore) (hlog : s'.log = s.log)
  (hdispatching : s'.dispatching = s.dispatching)
include h hstore hlog hdispatching

theorem Ordered.frame
    (hheld : ∀ k j x, s'.nodeQueue.worker k = some j → j.holds = some x →
      ∃ j₀, s.nodeQueue.worker k = some j₀ ∧ j₀.holds = some x)
    (hready : ∀ k y, s'.nodeQueue.worker k = some (.ready y) →
      s.nodeQueue.worker k = some (.ready y)) :
    Ordered s' where
  stored := by
    rw [hstore]
    exact h.stored
  held := by
    intro k j x hj hx
    obtain ⟨j₀, hj₀, hx₀⟩ := hheld k j x hj hx
    rw [hstore]
    exact h.held k j₀ x hj₀ hx₀
  passed := by
    rw [hstore, hlog]
    intro k x hx hkey hdel
    have hold := h.passed k x hx hkey hdel
    exact ⟨hold.1, fun y hy => hold.2 y (hready k y hy)⟩
  dispatching := by
    rw [hstore, hdispatching]
    exact h.dispatching
  blocked := by
    rw [hstore, hlog]
    exact h.blocked

theorem Ordered.setJob {j j₀ : Job} (hjob : s.nodeQueue.worker key = some j₀)
    (hworker : ∀ k, s'.nodeQueue.worker k = if k = key then some j else s.nodeQueue.worker k)
    (hholds : ∀ x, j.holds = some x → j₀.holds = some x) (hready : ∀ x, j ≠ .ready x) :
    Ordered s' := by
  apply h.frame hstore hlog hdispatching
  · intro k j' x hj' hx
    rw [hworker] at hj'
    split_ifs at hj' with hk
    · cases hj'
      exact ⟨j₀, hk ▸ hjob, hholds x hx⟩
    · exact ⟨j', hj', hx⟩
  · intro k y hy
    rw [hworker] at hy
    split_ifs at hy with hk
    · exact absurd (Option.some.inj hy) (hready y)
    · exact hy

end

theorem compareResourceVersion_gt {a b : GoString} (h : compareResourceVersion a b = .ok .gt) :
    ∃ v w, parseUint a = some v ∧ parseUint b = some w ∧ w < v := by
  unfold compareResourceVersion at h
  split at h
  · rename_i v w hv hw
    exact ⟨v, w, hv, hw, compare_gt_iff_gt.mp (Except.ok.inj h)⟩
  · cases h

/-- A message that passes and is no deletion is newer than the stored one, which is none. -/
theorem newer_of_accepts {m : Message} (h : accepts node m s = .ok (some key))
    (hdel : ¬ m.isDeleteMessage) :
    ∀ y, s.nodeStore.lookup key = some y → ¬ y.msg.isDeleteMessage ∧ VersionLE y.msg m := by
  unfold accepts at h
  by_cases hempty : m.resourceVersion = [] ∧ ¬ m.isDeleteMessage
  · rw [if_pos hempty] at h
    cases h
  rw [if_neg hempty] at h
  split at h
  · cases h
  · rename_i key' hkey
    rw [if_neg hdel] at h
    split at h
    · rename_i hnone
      -- nothing is stored for the key, whatever the ObjectSync says
      have hk : key' = key := by
        split at h
        · cases h
        · split at h
          · exact Option.some.inj (Except.ok.inj h)
          · split_ifs at h
            · exact Option.some.inj (Except.ok.inj h)
            · obtain ⟨c, -, h⟩ := ok_of_bind h
              split_ifs at h
              · exact Option.some.inj (Except.ok.inj h)
              · cases h
      intro y hy
      rw [← hk, hnone] at hy
      cases hy
    · rename_i x hx
      split_ifs at h with hxdel
      · cases h
      · obtain ⟨c, hc, h⟩ := ok_of_bind h
        split_ifs at h with hgt
        · cases h
          intro y hy
          rw [hx] at hy
          cases hy
          rw [hgt] at hc
          obtain ⟨v, w, hv, hw, hlt⟩ := compareResourceVersion_gt hc
          exact ⟨hxdel, .inr ⟨w, v, hw, hv, hlt.le⟩⟩
        · cases h

section

variable (h : Ordered s)
include h

theorem Ordered.put {m : Message} (hm : s.dispatching = some (key, m)) : Ordered (s.put key m) := by
  set new : Stored := ⟨key, s.next, m⟩ with hnew
  have hlookup : ∀ k, (s.put key m).nodeStore.lookup k =
      if k = key then some new else s.nodeStore.lookup k := fun k => GoMap.lookup_insert ..
  have hworker : ∀ k, (s.put key m).nodeQueue.worker k = s.nodeQueue.worker k :=
    fun k => worker_add ..
  -- what was not older than the stored message is not older than the new one
  have hnewer : ∀ {x y : Stored}, s.nodeStore.lookup key = some y → ¬ m.isDeleteMessage →
      (¬ y.msg.isDeleteMessage → VersionLE x.msg y.msg) → VersionLE x.msg m := by
    intro x y hy hdel hxy
    obtain ⟨hydel, hle⟩ := h.dispatching key m hm hdel y hy
    exact (hxy hydel).trans hle
  constructor
  case stored =>
    intro k x hx
    rw [hlookup] at hx
    split_ifs at hx with hk
    · cases hx
      exact hk.symm
    · exact h.stored k x hx
  case held =>
    intro k j x hj hx
    rw [hworker] at hj
    obtain ⟨hkey, y, hy, hle⟩ := h.held k j x hj hx
    refine ⟨hkey, ?_⟩
    rw [hlookup]
    split_ifs with hk
    · subst hk
      exact ⟨new, rfl, fun hx hdel => hnewer hy hdel (hle hx)⟩
    · exact ⟨y, hy, hle⟩
  case passed =>
    intro k x hx hkey hdel
    have hx : .passed x ∈ since k s.log := by
      simpa [NodeQueue.put] using hx
    obtain ⟨⟨y, hy, hle⟩, hready⟩ := h.passed k x hx hkey hdel
    refine ⟨?_, fun y hy => hready y (hworker k ▸ hy)⟩
    rw [hlookup]
    split_ifs with hk
    · subst hk
      exact ⟨new, rfl, fun hdel => hnewer hy hdel hle⟩
    · exact ⟨y, hy, hle⟩
  case dispatching =>
    intro k m' hm'
    cases hm'
  case blocked =>
    intro k
    rw [hlookup]
    refine (h.blocked k).store ?_
    intro y hk hy hydel
    subst hk
    by_contra hmdel
    exact (h.dispatching k m hm hmdel y hy).1 hydel

theorem Ordered.load (hjob : s.nodeQueue.worker key = some .got)
    (hx : s.nodeStore.lookup key = some x) : Ordered (s.setJob key (.ready x)) := by
  have hworker := worker_setJob (j := .ready x) hjob
  refine ⟨h.stored, ?_, ?_, h.dispatching, h.blocked⟩
  · intro k j y hj hy
    rw [hworker] at hj
    split_ifs at hj with hk
    · cases hj
      cases hy
      subst hk
      exact ⟨h.stored k x hx, x, hx, fun _ _ => VersionLE.refl x.msg⟩
    · exact h.held k j y hj hy
  · intro k y hy hkey hdel
    have hpassed := h.passed k y hy hkey hdel
    refine ⟨hpassed.1, ?_⟩
    intro z hz hzdel
    rw [hworker] at hz
    split_ifs at hz with hk
    · cases hz
      subst hk
      obtain ⟨x', hx', hle⟩ := hpassed.1
      rw [hx] at hx'
      cases hx'
      exact hle hzdel
    · exact hpassed.2 z hz hzdel

/-- A message is passed; afterwards the write loop has it in `sendMsg`, or is finished. -/
theorem Ordered.pass {j : Job} (hjob : s.nodeQueue.worker key = some (.ready x))
    (hstore : s'.nodeStore = s.nodeStore) (hlog : s'.log = .passed x :: s.log)
    (hdispatching : s'.dispatching = s.dispatching)
    (hworker : ∀ k, s'.nodeQueue.worker k = if k = key then some j else s.nodeQueue.worker k)
    (hholds : ∀ y, j.holds = some y → y = x) (hready : ∀ y, j ≠ .ready y) : Ordered s' := by
  have hheld := h.held key _ x hjob rfl
  constructor
  case stored =>
    rw [hstore]
    exact h.stored
  case held =>
    intro k j' y hj' hy
    rw [hworker] at hj'
    rw [hstore]
    split_ifs at hj' with hk
    · cases hj'
      rw [hholds y hy, hk]
      exact hheld
    · exact h.held k j' y hj' hy
  case passed =>
    rw [hstore, hlog]
    intro k y hy hkey hdel
    have hold : ∀ z, s'.nodeQueue.worker k = some (.ready z) →
        k ≠ key ∧ s.nodeQueue.worker k = some (.ready z) := by
      intro z hz
      rw [hworker] at hz
      split_ifs at hz with hk
      · exact absurd (Option.some.inj hz) (hready z)
      · exact ⟨hk, hz⟩
    rcases List.mem_cons.mp hy with hy | hy
    · cases hy
      have hk : key = k := hheld.1.symm.trans hkey
      subst hk
      obtain ⟨z, hz, hle⟩ := hheld.2
      exact ⟨⟨z, hz, hle hdel⟩, fun z hz => absurd rfl (hold z hz).1⟩
    · have hpassed := h.passed k y hy hkey hdel
      exact ⟨hpassed.1, fun z hz => hpassed.2 z (hold z hz).2⟩
  case dispatching =>
    rw [hstore, hdispatching]
    exact h.dispatching
  case blocked =>
    rw [hstore, hlog]
    intro k
    exact (h.blocked k).cons (fun z hz => by cases hz)

theorem Ordered.remove (hstore : s'.nodeStore = s.nodeStore.erase x.key)
    (hlog : s'.log = .removed x :: s.log) (hdispatching : s'.dispatching = s.dispatching)
    (hworker : ∀ k, s'.nodeQueue.worker k = if k = x.key then some .finished
      else s.nodeQueue.worker k) :
    Ordered s' := by
  have hlookup : ∀ k, s'.nodeStore.lookup k =
      if k = x.key then none else s.nodeStore.lookup k := by
    rw [hstore]
    exact fun k => GoMap.lookup_erase ..
  have hsince : ∀ k, since k s'.log = if x.key = k then [] else .removed x :: since k s.log := by
    rw [hlog]
    exact fun k => since_removed k x s.log
  constructor
  case stored =>
    intro k y hy
    rw [hlookup] at hy
    split_ifs at hy with hk
    exact h.stored k y hy
  case held =>
    intro k j y hj hy
    rw [hworker] at hj
    rw [hlookup]
    split_ifs at hj with hk
    · cases hj
      cases hy
    · rw [if_neg hk]
      exact h.held k j y hj hy
  case passed =>
    intro k y hy hkey hdel
    rw [hsince] at hy
    split_ifs at hy with hk
    · cases hy
    · rcases List.mem_cons.mp hy with hy | hy
      · cases hy
      · have hk' : k ≠ x.key := fun he => hk he.symm
        have hpassed := h.passed k y hy hkey hdel
        rw [hlookup, hworker, if_neg hk', if_neg hk']
        exact hpassed
  case dispatching =>
    intro k m hm hdel
    rw [hdispatching] at hm
    intro y hy
    rw [hlookup] at hy
    split_ifs at hy
    exact h.dispatching k m hm hdel y hy
  case blocked =>
    intro k
    rw [hsince, hlookup]
    split_ifs with hk hk' hk'
    · intro newer d older hs
      simp at hs
    · exact absurd hk.symm hk'
    · exact absurd hk'.symm hk
    · exact (h.blocked k).cons (fun z hz => by cases hz)

theorem Ordered.get {q : Workqueue GoString Job} (hget : s.nodeQueue.get Job.got = some (key, q)) :
    Ordered { s with nodeQueue := q } := by
  obtain ⟨-, -, -, hworker, -⟩ := get_eq_some hget
  refine h.frame rfl rfl rfl ?_ ?_
  · intro k j x hj hx
    rw [hworker] at hj
    split_ifs at hj with hk
    · cases hj
      cases hx
    · exact ⟨j, hj, hx⟩
  · intro k y hy
    rw [hworker] at hy
    split_ifs at hy with hk
    · cases hy
    · exact hy

theorem Ordered.done (key : GoString) : Ordered { s with nodeQueue := s.nodeQueue.done key } := by
  have hworker := fun k => worker_done s.nodeQueue key k
  refine h.frame rfl rfl rfl ?_ ?_
  · intro k j x hj hx
    rw [hworker] at hj
    split_ifs at hj with hk
    exact ⟨j, hj, hx⟩
  · intro k y hy
    rw [hworker] at hy
    split_ifs at hy with hk
    exact hy

theorem ordered_step {e : Event} (hstep : step node s e = some s') : Ordered s' := by
  cases turn_of_step hstep with
  | check hidle haccepts =>
    refine ⟨h.stored, h.held, h.passed, ?_, h.blocked⟩
    intro k m' hm' hdel
    obtain ⟨key, hkey, heq⟩ := Option.map_eq_some_iff.mp hm'
    cases heq
    subst hkey
    exact newer_of_accepts haccepts hdel
  | commit hm => exact h.put hm
  | get hget => exact h.get hget
  | loadGone hjob hx | loadSkip hjob hx hedge | ack hjob | giveUp hjob | resend hjob =>
    exact h.setJob rfl rfl rfl hjob (worker_setJob hjob) (by simp [Job.holds]) (by simp)
  | load hjob hx hedge => exact h.load hjob hx
  | send hjob =>
    exact h.pass hjob rfl rfl rfl (worker_setJob hjob) (by simp [Job.holds, eq_comm]) (by simp)
  | sendFails hjob =>
    exact h.pass hjob rfl rfl rfl (worker_retryLater hjob) (by simp [Job.holds]) (by simp)
  | lateAck hpassed => exact h.frame rfl rfl rfl (fun k j x hj hx => ⟨j, hj, hx⟩) fun k y hy => hy
  | success hjob =>
    rename_i key x retry
    obtain ⟨rfl, -⟩ := h.held key _ x hjob rfl
    unfold NodeQueue.saveSuccessPoint
    split_ifs with hdelete
    · exact h.remove rfl rfl rfl (worker_setJob hjob)
    · exact h.setJob rfl rfl rfl hjob (worker_setJob hjob) (by simp [Job.holds]) (by simp)
  | resendFails hjob =>
    exact h.setJob rfl rfl rfl hjob (worker_retryLater hjob) (by simp [Job.holds]) (by simp)
  | done hjob => exact h.done _
  | release hwaiting =>
    refine h.frame rfl rfl rfl ?_ ?_
    · intro k j x hj hx
      exact ⟨j, (worker_release ..).symm.trans hj, hx⟩
    · intro k y hy
      exact (worker_release ..).symm.trans hy
  | informer => exact { h with }

theorem Ordered.sendsInOrder (e : Event) : SendsInOrder s e := by
  intro k ok y _ hjob hdel
  constructor
  · intro x hx hkey hxdel
    exact (h.passed k x hx hkey hxdel).2 y hjob hdel
  · intro newer d older hsince hkey hddel hmem
    have hykey := (h.held k _ y hjob rfl).1
    exact hdel ((h.blocked k newer d older hsince hkey hddel).2 y hmem hykey)

end

/-- In every run of a node's queue, whatever was recorded before. -/
theorem versions_never_go_backwards (node : GoString)
    (objectSyncs : ObjectSyncs) (events : List Event) :
    Along (step node) SendsInOrder (start objectSyncs) events :=
  along_of_step (fun _ e _ h hstep => ⟨ordered_step h hstep, h.sendsInOrder e⟩) events
    (ordered_start objectSyncs)

/-- The write loops hold nothing newer than what is stored. -/
theorem stored_newest (node : GoString) (objectSyncs : ObjectSyncs) (es : List Event) :
    Always (step node) Ordered (start objectSyncs) es :=
  always_of_step (fun _ _ _ h => ordered_step h) es (ordered_start objectSyncs)

end KubeEdge.CloudHub
