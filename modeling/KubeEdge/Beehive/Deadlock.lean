import KubeEdge.Beehive.Bus

namespace KubeEdge.Beehive
open Go Machine

variable {β : Type} {c : ℕ}

/-- The thread is at `Lock` or at `RLock`. -/
def Thread.waits : Thread β → Bool
  | .sync c =>
    match c.pc with
    | .register | .registering | .leave _ | .leaving _ => true
    | .sending | .waiting | .returned _ => false
  | .group g =>
    match g.pc with
    | .register | .registering | .leave _ | .leaving _ => true
    | .polling | .closed _ | .returned _ => false
  | .resp _ pc => pc = .start

def Bus.Released (s : Bus β) : Prop := s.reads = false ∧ s.writes = false

/-- The thread holds the lock or keeps readers out. -/
def Bus.Holds (s : Bus β) (t : ℕ) : Prop :=
  ∃ th, s.threads[t]? = some th ∧ (th.reads = true ∨ th.writes = true)

/-- If a caller waits for the lock, then steps of those that hold it release it. -/
def Live (s : Bus β) : Prop :=
  (∃ th ∈ s.threads, th.waits = true) →
    ∃ ts : List ℕ, (∀ t ∈ ts, s.Holds t) ∧
      ∃ s', run step s (ts.map .next) = some s' ∧ s'.Released

def Thread.sendsTo (c : ℕ) : Thread β → Bool
  | .resp _ (.sending c') => c' = c
  | _ => false

/-- The responses under way to a channel. -/
def Bus.senders (s : Bus β) (c : ℕ) : ℕ := s.threads.countP (·.sendsTo c)

/-- How many messages the channel of a thread can take. -/
def Thread.room : Thread β → ℕ
  | .sync c =>
    match c.pc with
    | .waiting => 1
    | _ => 0
  | .group g => g.modules.length - g.anonChan.length
  | .resp _ _ => 0

def Bus.room (s : Bus β) (c : ℕ) : ℕ := (s.threads[c]?).elim 0 Thread.room

/-- A condition on a step, in the state before it: a response comes to a channel that has room
for it, and a call does not time out while a response is under way to it. -/
def Accepting (s : Bus β) : Event β → Prop
  | .next t =>
    match s.threads[t]? with
    | some (.resp m .start) => ∀ c ∈ s.anonChannels.lookup m.parentID, s.senders c < s.room c
    | _ => True
  | .timeout t =>
    match s.threads[t]? with
    | some (.sync _) => s.senders t = 0
    | _ => True
  | _ => True

instance (s : Bus β) (ev : Event β) : Decidable (Accepting s ev) := by
  unfold Accepting
  split
  · split <;> infer_instance
  · split <;> infer_instance
  · exact .isTrue trivial

section Threads
variable {s : Bus β} {t : ℕ} {th th' : Thread β}

theorem getElem?_set_of (hth : s.threads[t]? = some th) (c : ℕ) :
    (s.set t th').threads[c]? = if c = t then some th' else s.threads[c]? :=
  Threads.getElem?_set_of hth th' c

theorem countP_set_of (hth : s.threads[t]? = some th) (th' : Thread β) (p : Thread β → Bool) :
    (s.set t th').threads.countP p + (p th).toNat = s.threads.countP p + (p th').toNat :=
  Threads.countP_set_of hth th' p

theorem countP_call (s : Bus β) (th : Thread β) (p : Thread β → Bool) :
    (s.call th).threads.countP p = s.threads.countP p + (p th).toNat := by
  cases hp : p th <;> simp [Bus.call, hp]

theorem room_set (hth : s.threads[t]? = some th) (c : ℕ) :
    (s.set t th').room c = if c = t then th'.room else s.room c := by
  unfold Bus.room
  rw [getElem?_set_of hth]
  split_ifs <;> rfl

theorem room_of (hth : s.threads[t]? = some th) : s.room t = th.room := by
  rw [Bus.room, hth]
  rfl

theorem room_call (s : Bus β) (th : Thread β) (c : ℕ) : s.room c ≤ (s.call th).room c := by
  unfold Bus.room Bus.call
  by_cases hc : c < s.threads.length
  · rw [List.getElem?_append_left hc]
  · rw [List.getElem?_eq_none (by omega)]
    exact Nat.zero_le _

theorem writes_eq_false (s : Bus β) : s.writes = false ↔ s.threads.countP (·.writes) = 0 := by
  rw [Bus.writes, List.any_eq_false, List.countP_eq_zero]

theorem reads_eq_false (s : Bus β) : s.reads = false ↔ s.threads.countP (·.reads) = 0 := by
  rw [Bus.reads, List.any_eq_false, List.countP_eq_zero]

end Threads

structure Inv (s : Bus β) : Prop where
  fits : ∀ c, s.senders c ≤ s.room c
  one : s.threads.countP (·.writes) ≤ 1

section Steps
variable {s s' : Bus β} {t : ℕ} {th th' : Thread β} {ev : Event β} {m : Message β}

section

variable (h : ∀ c, s.senders c ≤ s.room c) (hth : s.threads[t]? = some th)
include h hth

theorem fits_set (hsends : ∀ c, th'.sendsTo c = th.sendsTo c) (hroom : s.senders t ≤ th'.room)
    (c : ℕ) : (s.set t th').senders c ≤ (s.set t th').room c := by
  have hsenders : (s.set t th').senders c = s.senders c := by
    have hcount := countP_set_of hth th' (·.sendsTo c)
    simp only [hsends] at hcount
    exact Nat.add_right_cancel hcount
  rw [hsenders, room_set hth]
  split_ifs with hc
  · rw [hc]
    exact hroom
  · exact h c

theorem fits_turn (hturn : th.Turn s t ev th') (hev : Accepting s ev) (c : ℕ) :
    (s.set t th').senders c ≤ (s.set t th').room c := by
  have hold : s.senders t ≤ th.room := room_of hth ▸ h t
  cases hturn with
  | sent call hpc | sendTimeout call err hpc hexpired | lock call hpc hw | relock call r hpc hw =>
    refine fits_set h hth (by intro _; rfl) ?_ c
    simpa [Thread.room, hpc] using hold
  | expire call | missed m hw hx | unlock m =>
    refine fits_set h hth (by intro _; rfl) ?_ c
    exact hold
  | respTimeout call err hpc hexpired =>
    refine fits_set h hth (by intro _; rfl) ?_ c
    simp only [Accepting, hth] at hev
    rw [hev]
    exact Nat.zero_le _
  | group ev g g' hg =>
    refine fits_set h hth (by intro _; rfl) ?_ c
    rw [Thread.room, hg.modules, hg.anonChan]
    exact hold
  | found m x hw hx =>
    simp only [Accepting, hth] at hev
    have hroom := hev x hx
    have hcount := countP_set_of hth (.resp m (.sending x)) (·.sendsTo c)
    change (s.set t _).senders c + 0 = s.senders c + _ at hcount
    have hkept : (s.set t (.resp m (.sending x))).room c = s.room c := by
      rw [room_set hth]
      split_ifs with hc
      · rw [hc, room_of hth]
        rfl
      · rfl
    by_cases hc : x = c
    · subst hc
      simp [Thread.sendsTo] at hcount
      omega
    · simp [Thread.sendsTo, hc] at hcount
      have := h c
      omega

end

section

variable (ht : s.threads[t]? = some (.resp m (.sending c))) (hc : s.threads[c]? = some th)
  (haccepts : th.Accepts m th')
include ht hc haccepts

theorem hand_ne : t ≠ c := by
  rintro rfl
  rw [ht] at hc
  cases hc
  cases haccepts

theorem sender_set : (s.set c th').threads[t]? = some (.resp m (.sending c)) := by
  rw [getElem?_set_of hc, if_neg (hand_ne ht hc haccepts), ht]

theorem fits_hand (h : ∀ c, s.senders c ≤ s.room c) (d : ℕ) :
    ((s.set c th').set t (.resp m .leave)).senders d ≤
      ((s.set c th').set t (.resp m .leave)).room d := by
  have hne := hand_ne ht hc haccepts
  have ht' := sender_set ht hc haccepts
  have hfirst := countP_set_of hc th' (·.sendsTo d)
  have hsecond := countP_set_of ht' (.resp m .leave) (·.sendsTo d)
  change ((s.set c th').set t _).senders d + _ = (s.set c th').senders d + 0 at hsecond
  change (s.set c th').senders d + _ = s.senders d + _ at hfirst
  have hsilent : th.sendsTo d = false ∧ th'.sendsTo d = false := by
    cases haccepts <;> exact ⟨rfl, rfl⟩
  have hroom : ((s.set c th').set t (.resp m .leave)).room d =
      if d = c then th'.room else s.room d := by
    rw [room_set ht', room_set hc]
    split_ifs with hdt hdc hdc
    · exact absurd (hdt.symm.trans hdc) hne
    · rw [hdt, room_of ht]
      rfl
    · rfl
    · rfl
  have hless : th'.room + 1 = th.room := by
    cases haccepts with
    | sync call hpc => simp [Thread.room, hpc]
    | group g hg =>
      simp only [Thread.room, List.length_append, List.length_singleton]
      omega
  have hd := h d
  rw [hsilent.1, hsilent.2] at hfirst
  rw [hroom]
  by_cases hdc : d = c
  · subst hdc
    rw [room_of hc] at hd
    simp [Thread.sendsTo] at hfirst hsecond ⊢
    omega
  · simp [Thread.sendsTo, hdc, Ne.symm hdc] at hfirst hsecond ⊢
    omega

end

theorem one_set (h : s.threads.countP (·.writes) ≤ 1) (hth : s.threads[t]? = some th)
    (hwrites : th'.writes = true → th.writes = true ∨ s.writes = false) :
    (s.set t th').threads.countP (·.writes) ≤ 1 := by
  have hcount := countP_set_of hth th' (·.writes)
  rw [writes_eq_false] at hwrites
  cases hw' : th'.writes with
  | false =>
    simp only [hw', Bool.toNat_false] at hcount
    omega
  | true =>
    obtain hw | hnone := hwrites hw'
    · simp only [hw, hw'] at hcount
      omega
    · simp only [hw', Bool.toNat_true] at hcount
      omega

theorem turn_writes (hturn : th.Turn s t ev th') (hwrites : th'.writes = true) :
    th.writes = true ∨ s.writes = false := by
  cases hturn with
  | lock call hpc hw | relock call r hpc hw => exact .inr hw
  | expire call => exact .inl hwrites
  | group ev g g' hg => exact hg.writes hwrites
  | _ => cases hwrites

/-- A writer at the end of its critical section. -/
structure Thread.Finishes (th th' : Thread β) : Prop where
  room : th.room ≤ th'.room
  sendsTo : ∀ c, th'.sendsTo c = th.sendsTo c
  writes : th'.writes = false

theorem Thread.Registers.finishes (h : th.Registers th') : th.Finishes th' := by
  cases h with
  | sync call hpc => exact ⟨by simp [Thread.room, hpc], fun _ => rfl, rfl⟩
  | group g hpc => exact ⟨le_rfl, fun _ => rfl, rfl⟩

theorem Thread.Removes.finishes (h : th.Removes th') : th.Finishes th' := by
  cases h with
  | sync call r hpc => exact ⟨by simp [Thread.room, hpc], fun _ => rfl, rfl⟩
  | group g b hpc => exact ⟨le_rfl, fun _ => rfl, rfl⟩

theorem Inv.finishes (h : Inv s) (hth : s.threads[t]? = some th) (hfinishes : th.Finishes th')
    (anonChannels : GoMap GoString ℕ) : Inv { s.set t th' with anonChannels } where
  fits := fits_set h.fits hth hfinishes.sendsTo ((room_of hth ▸ h.fits t).trans hfinishes.room)
  one := one_set h.one hth (by rw [hfinishes.writes]; simp)

theorem move_inv (h : Inv s) (hev : Accepting s ev) (hmove : Move s ev s') : Inv s' := by
  cases hmove with
  | outside ev channels hsame => exact ⟨h.fits, h.one⟩
  | call ev th hstarts hid =>
    constructor
    · intro c
      have hsenders : (s.call th).senders c = s.senders c := by
        rw [Bus.senders, countP_call]
        cases hstarts <;> rfl
      rw [hsenders]
      exact (h.fits c).trans (room_call s th c)
    · rw [countP_call]
      have hwrites : th.writes = false := by
        cases hstarts with
        | group g hchan hpc =>
          obtain hpc | ⟨r, hpc⟩ := hpc <;> rw [Thread.writes, hpc] <;> rfl
        | _ => rfl
      rw [hwrites]
      exact h.one
  | turn ev channels hsame t th th' hth hturn =>
    exact ⟨fits_turn h.fits hth hturn hev, one_set h.one hth (turn_writes hturn)⟩
  | register t th th' id hth hregisters hid hreads =>
    exact h.finishes hth hregisters.finishes _
  | remove t th th' id hth hremoves hid hreads => exact h.finishes hth hremoves.finishes _
  | hand t c m th th' ht hc haccepts =>
    refine ⟨fits_hand ht hc haccepts h.fits, ?_⟩
    have hone : (s.set c th').threads.countP (·.writes) ≤ 1 := by
      apply one_set h.one hc
      cases haccepts with
      | sync call hpc => simp [Thread.writes, SyncPc.writes]
      | group g hg => exact .inl
    exact one_set hone (sender_set ht hc haccepts) fun hwrites => by cases hwrites

end Steps

theorem start_inv (channels : GoMap GoString (List (Message β)))
    (typeChannels : GoMap GoString (List GoString)) : Inv (Bus.mk channels typeChannels ∅ []) where
  fits := fun _ => Nat.zero_le _
  one := Nat.zero_le _

section Release
variable {s s' : Bus β} {t r : ℕ} {th : Thread β}

def Thread.sends : Thread β → Bool
  | .resp _ (.sending _) => true
  | _ => false

/-- The steps that those who hold the read lock have left until they release it. -/
def Bus.load (s : Bus β) : ℕ := s.threads.countP (·.reads) + s.threads.countP (·.sends)

theorem sendAnon_of_room (hroom : 0 < s.room c) (m : Message β) :
    ∃ th th', s.threads[c]? = some th ∧ th.Accepts m th' ∧ s.sendAnon c m = some (s.set c th') := by
  unfold Bus.room at hroom
  cases hth : s.threads[c]? with
  | none =>
    rw [hth] at hroom
    cases hroom
  | some th =>
    rw [hth] at hroom
    cases th with
    | resp message pc => cases hroom
    | sync call =>
      have hpc : call.pc = .waiting := by
        cases hpc : call.pc with
        | waiting => rfl
        | _ =>
          simp only [Option.elim_some, Thread.room, hpc] at hroom
          cases hroom
      refine ⟨_, _, rfl, .sync call hpc, ?_⟩
      simp [Bus.sendAnon, hth, hpc]
    | group g =>
      have hlt : g.anonChan.length < g.modules.length := by
        simp only [Option.elim_some, Thread.room] at hroom
        omega
      refine ⟨_, _, rfl, .group g hlt, ?_⟩
      simp [Bus.sendAnon, hth, hlt]

theorem Holds.of_set {th' : Thread β} (hth : s.threads[r]? = some th)
    (hreads : th'.reads = true → s.Holds r) (hwrites : th'.writes = true → s.Holds r)
    (h : (s.set r th').Holds t) : s.Holds t := by
  obtain ⟨th₁, hth₁, hholds⟩ := h
  rw [getElem?_set_of hth] at hth₁
  split_ifs at hth₁ with ht
  · cases hth₁
    rw [ht]
    exact hholds.elim hreads hwrites
  · exact ⟨th₁, hth₁, hholds⟩

theorem reader_next (h : Inv s) (hth : s.threads[r]? = some th) (hreads : th.reads = true) :
    ∃ s', step s (.next r) = some s' ∧ Inv s' ∧
      (∀ t, s'.Holds t → s.Holds t) ∧ s'.load < s.load := by
  have hholds : s.Holds r := ⟨th, hth, .inl hreads⟩
  cases th with
  | sync call | group g => cases hreads
  | resp m pc =>
    cases pc with
    | start | returned => cases hreads
    | leave =>
      have hstep : step s (.next r) = some (s.set r (.resp m .returned)) := by
        simp only [step, hth]
        rfl
      refine ⟨_, hstep, move_inv h (by simp [Accepting, hth]) (step_move hstep), ?_, ?_⟩
      · intro t
        exact Holds.of_set hth (fun _ => hholds) (fun _ => hholds)
      · have hreads₁ := countP_set_of hth (.resp m .returned) (·.reads)
        have hsends₁ := countP_set_of hth (.resp m .returned) (·.sends)
        change _ + 1 = _ + 0 at hreads₁
        change _ + 0 = _ + 0 at hsends₁
        unfold Bus.load
        omega
    | sending c =>
      have hroom : 0 < s.room c := by
        apply Nat.lt_of_lt_of_le _ (h.fits c)
        apply List.countP_pos_iff.mpr
        exact ⟨_, List.mem_of_getElem? hth, by simp [Thread.sendsTo]⟩
      obtain ⟨thc, thc', hthc, haccepts, hsend⟩ := sendAnon_of_room hroom m
      have hstep : step s (.next r) = some ((s.set c thc').set r (.resp m .leave)) := by
        simp [step, hth, Bus.nextResp, hsend, Option.map_some]
      have hth' := sender_set hth hthc haccepts
      have hkept : thc'.reads = thc.reads ∧ thc'.sends = thc.sends ∧
          (thc'.writes = true → thc.writes = true) := by
        cases haccepts with
        | sync call hpc => exact ⟨rfl, rfl, fun hw => by cases hw⟩
        | group g hg => exact ⟨rfl, rfl, id⟩
      refine ⟨_, hstep, move_inv h (by simp [Accepting, hth]) (step_move hstep), ?_, ?_⟩
      · intro t ht
        have hback : ∀ t, (s.set c thc').Holds t → s.Holds t := by
          intro t
          apply Holds.of_set hthc
          · intro hr
            exact ⟨thc, hthc, .inl (hkept.1 ▸ hr)⟩
          · intro hw
            exact ⟨thc, hthc, .inr (hkept.2.2 hw)⟩
        have hself : (s.set c thc').Holds r := ⟨_, hth', .inl rfl⟩
        exact hback t (Holds.of_set hth' (fun _ => hself) (fun _ => hself) ht)
      · have hreads₁ := countP_set_of hthc thc' (·.reads)
        have hsends₁ := countP_set_of hthc thc' (·.sends)
        have hreads₂ := countP_set_of hth' (.resp m .leave) (·.reads)
        have hsends₂ := countP_set_of hth' (.resp m .leave) (·.sends)
        simp only [hkept.1, hkept.2.1] at hreads₁ hsends₁
        change _ + 1 = _ + 1 at hreads₂
        change _ + 1 = _ + 0 at hsends₂
        unfold Bus.load
        omega

theorem readers_leave (h : Inv s) : ∃ ts : List ℕ, (∀ t ∈ ts, s.Holds t) ∧
    ∃ s', run step s (ts.map .next) = some s' ∧ Inv s' ∧ s'.reads = false ∧
      ∀ t, s'.Holds t → s.Holds t := by
  induction hn : s.load using Nat.strong_induction_on generalizing s with
  | _ n ih =>
    cases hreads : s.reads with
    | false => exact ⟨[], by simp, s, rfl, h, hreads, fun _ => id⟩
    | true =>
      obtain ⟨th, hmem, hth⟩ := List.any_eq_true.mp hreads
      obtain ⟨r, hr⟩ := List.getElem?_of_mem hmem
      obtain ⟨s₁, hstep, hinv, hback, hload⟩ := reader_next h hr hth
      obtain ⟨ts, hts, s', hrun, hinv', hfree, hback'⟩ := ih s₁.load (hn ▸ hload) hinv rfl
      refine ⟨r :: ts, ?_, s', ?_, hinv', hfree, fun t ht => hback t (hback' t ht)⟩
      · exact List.forall_mem_cons.mpr ⟨⟨th, hr, .inl hth⟩, fun t ht => hback t (hts t ht)⟩
      · rw [List.map_cons, run, hstep]
        exact hrun

theorem writer_next (hth : s.threads[t]? = some th) (hwrites : th.writes = true)
    (hreads : s.reads = false) : ∃ th' anonChannels, th'.reads = false ∧ th'.writes = false ∧
      step s (.next t) = some { s.set t th' with anonChannels } := by
  cases th with
  | resp m pc => cases hwrites
  | sync c =>
    cases hpc : c.pc with
    | registering =>
      refine ⟨.sync { c with pc := .waiting }, s.anonChannels.insert c.message.id t, rfl, rfl, ?_⟩
      simp only [step, hth, Bus.nextSync, hpc, hreads]
      rfl
    | leaving r =>
      refine ⟨.sync { c with pc := .returned r }, s.anonChannels.erase c.message.id, rfl, rfl, ?_⟩
      simp only [step, hth, Bus.nextSync, hpc, hreads]
      rfl
    | _ =>
      rw [Thread.writes, hpc] at hwrites
      cases hwrites
  | group g =>
    cases hpc : g.pc with
    | registering =>
      refine ⟨.group { g with pc := .polling, unsent := g.modules },
        s.anonChannels.insert g.message.id t, rfl, rfl, ?_⟩
      simp only [step, hth, Bus.nextGroup, hpc, hreads]
      rfl
    | leaving b =>
      refine ⟨.group { g with pc := .closed b }, s.anonChannels.erase g.message.id, rfl, rfl, ?_⟩
      simp only [step, hth, Bus.nextGroup, hpc, hreads]
      rfl
    | _ =>
      rw [Thread.writes, hpc] at hwrites
      cases hwrites

theorem Inv.releases (h : Inv s) : ∃ ts : List ℕ, (∀ t ∈ ts, s.Holds t) ∧
    ∃ s', run step s (ts.map .next) = some s' ∧ Inv s' ∧ s'.Released := by
  obtain ⟨ts, hts, s₁, hrun, hinv, hreads, hback⟩ := readers_leave h
  cases hwrites : s₁.writes with
  | false => exact ⟨ts, hts, s₁, hrun, hinv, hreads, hwrites⟩
  | true =>
    obtain ⟨th, hmem, hth⟩ := List.any_eq_true.mp hwrites
    obtain ⟨w, hw⟩ := List.getElem?_of_mem hmem
    obtain ⟨th', anonChannels, hreads', hwrites', hstep⟩ := writer_next hw hth hreads
    have haccepting : Accepting s₁ (.next w) := by
      simp only [Accepting, hw]
      cases th with
      | sync c | group g => trivial
      | resp m pc => cases hth
    have hinv' := move_inv hinv haccepting (step_move hstep)
    refine ⟨ts ++ [w], ?_, _, ?_, hinv', ?_, ?_⟩
    · exact forall_mem_snoc hts (hback w ⟨th, hw, .inr hth⟩)
    · rw [List.map_append, run_append hrun]
      simp [List.map_cons, List.map_nil, run, hstep]
    · have hcount := countP_set_of hw th' (·.reads)
      rw [reads_eq_false] at hreads ⊢
      simp only [hreads', Bool.toNat_false] at hcount
      change (s₁.set w th').threads.countP _ = 0
      omega
    · have hcount := countP_set_of hw th' (·.writes)
      have hone := hinv.one
      rw [writes_eq_false]
      simp only [hth, hwrites', Bool.toNat_true, Bool.toNat_false] at hcount
      change (s₁.set w th').threads.countP _ = 0
      omega

end Release

/-- A caller that waits for the lock waits for those who can release it, on every run in which
responses come to channels that have room for them and no call times out during one. -/
theorem lock_live {channels : GoMap GoString (List (Message β))}
    {typeChannels : GoMap GoString (List GoString)} {es : List (Event β)}
    (h : Along step Accepting (Bus.mk channels typeChannels ∅ []) es) :
    Always step Live (Bus.mk channels typeChannels ∅ []) es := by
  have hinv : Always step Inv (Bus.mk channels typeChannels ∅ []) es := by
    apply always_of_along ?_ (start_inv channels typeChannels) h
    intro s ev s' hs hev hstep
    exact move_inv hs hev (step_move hstep)
  apply hinv.mono
  intro s hs _
  obtain ⟨ts, hts, s', hrun, -, hreleased⟩ := hs.releases
  exact ⟨ts, hts, s', hrun, hreleased⟩

namespace Sample

/-- One module, which is also the only one of its type. -/
def start : Bus Unit :=
  { channels := AList.insert (str "m") [] ∅
    typeChannels := AList.insert (str "g") [str "m"] ∅ }

def request : Message Unit := ⟨str "1", [], false, ()⟩

def response : Message Unit := ⟨str "2", str "1", false, ()⟩

/-- `SendSync` sends its request, registers its channel and waits. -/
def waiting : List (Event Unit) :=
  [.sendSync (str "m") request, .next 0, .next 0, .next 0, .receive (str "m")]

def answered : List (Event Unit) :=
  waiting ++ [.sendResp response, .next 1, .next 1, .next 1, .next 0, .next 0]

def late : List (Event Unit) :=
  waiting ++ [.expire 0, .timeout 0, .sendResp response, .next 1, .next 0]

def twice : List (Event Unit) :=
  [.sendToGroupSync (str "g") request, .next 0, .next 0, .deliver 0 (str "m"),
    .receive (str "m"), .sendResp response, .next 1, .next 1, .next 1, .sendResp response,
    .next 2, .next 0, .next 0]

end Sample

open Sample

theorem lock_live_answered :
    (run step start answered).isSome ∧
      Always step Live start answered := by
  refine ⟨by decide +kernel, ?_⟩
  apply lock_live
  apply along_of_check
  · intro s ev h
    exact of_decide_eq_true h
  · decide +kernel

/-- A caller waits for the lock, which is held, and no thread can go on. -/
def Bus.stuck (s : Bus β) : Bool :=
  s.reads && s.threads.any (·.waits) &&
    (List.range s.threads.length).all fun t => (step s (.next t)).isNone

theorem not_live_of_stuck {s : Bus β} (h : s.stuck = true) : ¬ Live s := by
  intro hlive
  simp only [Bus.stuck, Bool.and_eq_true, List.all_eq_true, List.mem_range] at h
  obtain ⟨⟨hreads, hwaits⟩, hstuck⟩ := h
  obtain ⟨ts, -, s', hrun, hreleased⟩ := hlive (List.any_eq_true.mp hwaits)
  cases ts with
  | nil =>
    cases hrun
    rw [hreleased.1] at hreads
    cases hreads
  | cons t ts =>
    have hnone : step s (.next t) = none := by
      by_cases ht : t < s.threads.length
      · exact Option.isNone_iff_eq_none.mp (hstuck t ht)
      · simp [step, List.getElem?_eq_none (Nat.not_lt.mp ht)]
    rw [List.map_cons, run, hnone] at hrun
    cases hrun

theorem not_always_live {s : Bus β} {es : List (Event β)}
    (h : (run step s es).map (·.stuck) = some true) : ¬ Always step Live s es := by
  intro halways
  obtain ⟨s', hrun, hstuck⟩ := Option.map_eq_some_iff.mp h
  exact not_live_of_stuck hstuck (halways.last hrun)

/-- A response that comes when `SendSync` has timed out, and a second response to a group of one
module, hold the lock that the caller waits for. -/
theorem lock_stuck :
    ¬ Always step Live start late ∧
      ¬ Always step Live start twice :=
  ⟨not_always_live (by decide +kernel), not_always_live (by decide +kernel)⟩

end KubeEdge.Beehive
