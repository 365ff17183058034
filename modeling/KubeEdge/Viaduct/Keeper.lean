import KubeEdge.Go.Control
import KubeEdge.Go.Machine
import KubeEdge.Go.Text
import KubeEdge.Go.Threads

namespace KubeEdge.Viaduct
open Go Machine

variable {β : Type}

/-- What a connection reads of a message, and its content. -/
structure Message (β : Type) where
  id : GoString
  parentID : GoString
  operation : GoString
  sync : Bool
  content : β
  deriving DecidableEq

/-- Where `WriteMessageSync` stands. -/
inductive Pc (β : Type)
  | writing
  | written
  /-- The channel is stored. -/
  | stored
  /-- At the receive. -/
  | waiting
  /-- At `Delete`. -/
  | ended (r : Result (Message β))
  | returned (r : Result (Message β))

structure Call (β : Type) where
  message : Message β
  expired : Bool := false
  pc : Pc β := .writing

/-- Where the reading loop stands with the message that it has read. -/
inductive Loop (β : Type)
  | idle
  | read (m : Message β)
  /-- `Match` has found a channel. -/
  | matched (m : Message β)
  /-- At the send to the channel of this call. -/
  | loaded (m : Message β) (t : ℕ)

def Loop.message : Loop β → Option (Message β)
  | .idle => none
  | .read m | .matched m | .loaded m _ => some m

structure Conn (β : Type) where
  keeper : GoMap GoString ℕ := ∅
  calls : List (Call β) := []
  loop : Loop β := .idle
  /-- What is put into the fifo or given to the handler. -/
  passed : List (Message β) := []

inductive Event (β : Type)
  | writeMessageSync (m : Message β)
  | next (t : ℕ)
  | writeError (t : ℕ) (err : GoString)
  | expire (t : ℕ)
  | timeout (t : ℕ)
  | readMessage (m : Message β)
  | loop

/-- `filterControlMessage`. -/
def Message.isControl (m : Message β) : Bool :=
  m.operation = str "config" || m.operation = str "ping" || m.operation = str "pong"

namespace Conn

def set (s : Conn β) (t : ℕ) (c : Call β) : Conn β := { s with calls := s.calls.set t c }

def nextCall (s : Conn β) (t : ℕ) (c : Call β) : Option (Conn β) :=
  match c.pc with
  | .writing => some (s.set t { c with pc := .written })
  | .written =>
    some { s.set t { c with pc := .stored } with keeper := s.keeper.insert c.message.id t }
  | .stored => some (s.set t { c with pc := .waiting })
  | .ended r =>
    some { s.set t { c with pc := .returned r } with keeper := s.keeper.erase c.message.id }
  -- a response comes by the step of the reading loop
  | .waiting | .returned _ => none

/-- `sendToKeepChannel`: the channel takes the message if its call is at the receive. -/
def notify (s : Conn β) (t : ℕ) (m : Message β) : Conn β :=
  match s.calls[t]? with
  | some ⟨message, expired, .waiting⟩ => s.set t ⟨message, expired, .ended (.ok m)⟩
  | _ => s

def nextLoop (s : Conn β) : Option (Conn β) :=
  match s.loop with
  | .idle => none
  | .read m =>
    if m.isControl then some { s with loop := .idle }
    else if (s.keeper.lookup m.parentID).isSome then some { s with loop := .matched m }
    else some { s with loop := .idle, passed := s.passed ++ [m] }
  | .matched m =>
    match s.keeper.lookup m.parentID with
    | some t => some { s with loop := .loaded m t }
    | none => some { s with loop := .idle }
  | .loaded m t => some { s.notify t m with loop := .idle }

end Conn

def step (s : Conn β) : Event β → Option (Conn β)
  | .writeMessageSync m =>
    some { s with calls := s.calls ++ [⟨{ m with sync := true }, false, .writing⟩] }
  | .next t =>
    match s.calls[t]? with
    | some c => s.nextCall t c
    | none => none
  | .writeError t err =>
    match s.calls[t]? with
    | some ⟨message, expired, .writing⟩ =>
      some (s.set t ⟨message, expired, .returned (.error err)⟩)
    | _ => none
  | .expire t =>
    match s.calls[t]? with
    | some c => some (s.set t { c with expired := true })
    | none => none
  | .timeout t =>
    match s.calls[t]? with
    | some ⟨message, true, .waiting⟩ =>
      let err := str "wait response timeout, message id:" ++ message.id
      some (s.set t ⟨message, true, .ended (.error err)⟩)
    | _ => none
  | .readMessage m =>
    match s.loop with
    | .idle => some { s with loop := .read m }
    | _ => none
  | .loop => s.nextLoop

/-- The request is written and its call has no result yet. -/
def Pc.pending : Pc β → Bool
  | .written | .stored | .waiting => true
  | .writing | .ended _ | .returned _ => false

def Conn.Returned (s : Conn β) (t : ℕ) (r : Result (Message β)) : Prop :=
  ∃ c, s.calls[t]? = some c ∧ c.pc = .returned r

/-- The call is not at its receive yet. -/
def Pc.early : Pc β → Bool
  | .written | .stored => true
  | .writing | .waiting | .ended _ | .returned _ => false

/-- A condition on a step, in the state before it: requests have ids of their own, the response to
a written request is no control message and is taken up when its call receives, and a call does
not time out while the loop has its response. -/
def Parked (s : Conn β) : Event β → Prop
  | .writeMessageSync m => ∀ c ∈ s.calls, c.message.id ≠ m.id
  | .timeout t => ∀ c ∈ s.calls[t]?, ∀ m ∈ s.loop.message, m.parentID ≠ c.message.id
  | .readMessage m => ∀ c ∈ s.calls, c.message.id = m.parentID → c.pc.pending = true →
    m.isControl = false
  | .loop =>
    match s.loop with
    | .read m => ∀ c ∈ s.calls, c.message.id = m.parentID → c.pc.pending = true →
      c.pc.early = false
    | _ => True
  | _ => True

instance (s : Conn β) (ev : Event β) : Decidable (Parked s ev) := by
  unfold Parked
  split
  · infer_instance
  · infer_instance
  · infer_instance
  · split <;> infer_instance
  · exact .isTrue trivial

/-- The channel of the call is stored. -/
def Pc.kept : Pc β → Bool
  | .stored | .waiting | .ended _ => true
  | .writing | .written | .returned _ => false

/-- The call is at its receive or past it. -/
def Pc.late : Pc β → Bool
  | .waiting | .ended _ | .returned _ => true
  | .writing | .written | .stored => false

def Pc.result : Pc β → Option (Result (Message β))
  | .ended r | .returned r => some r
  | .writing | .written | .stored | .waiting => none

/-- What a step keeps of a call. -/
structure Call.Evolves (c c' : Call β) : Prop where
  message : c'.message = c.message
  late : c.pc.late = true → c'.pc.late = true
  result : ∀ r, c.pc.result = some r → c'.pc.result = some r

theorem Call.evolves {c : Call β} {pc : Pc β} (hlate : c.pc.late = true → pc.late = true)
    (hresult : c.pc.result = none) : c.Evolves { c with pc } := by
  refine ⟨rfl, hlate, ?_⟩
  rw [hresult]
  rintro _ ⟨⟩

theorem Call.evolves_returned {c : Call β} {r : Result (Message β)} (hpc : c.pc = .ended r) :
    c.Evolves { c with pc := .returned r } := by
  refine ⟨rfl, fun _ => rfl, ?_⟩
  rw [hpc]
  exact fun _ => id

/-- All that a step can do to the calls and the map. -/
inductive Move (s : Conn β) : Event β → Conn β → Prop
  | call (m : Message β) : Move s (.writeMessageSync m)
    { s with calls := s.calls ++ [⟨{ m with sync := true }, false, .writing⟩] }
  | turn (ev : Event β) (t : ℕ) (c c' : Call β) (hc : s.calls[t]? = some c)
    (hevolves : c.Evolves c') (hkept : c'.pc.kept = c.pc.kept) : Move s ev (s.set t c')
  | store (t : ℕ) (c : Call β) (hc : s.calls[t]? = some c) (hpc : c.pc = .written) :
    Move s (.next t)
      { s.set t { c with pc := .stored } with keeper := s.keeper.insert c.message.id t }
  | delete (t : ℕ) (c : Call β) (r : Result (Message β)) (hc : s.calls[t]? = some c)
    (hpc : c.pc = .ended r) : Move s (.next t)
      { s.set t { c with pc := .returned r } with keeper := s.keeper.erase c.message.id }
  | read (m : Message β) : Move s (.readMessage m) { s with loop := .read m }
  | loop (h : s.nextLoop = some s') : Move s .loop s'

section Moves
variable {s s' : Conn β} {t : ℕ}

theorem nextCall_move {c : Call β} (hc : s.calls[t]? = some c) (h : s.nextCall t c = some s') :
    Move s (.next t) s' := by
  unfold Conn.nextCall at h
  split at h
  case h_1 hpc =>
    cases h
    exact .turn _ t c _ hc (Call.evolves (by rw [hpc]; exact id) (by rw [hpc]; rfl))
      (by rw [hpc]; rfl)
  case h_2 hpc =>
    cases h
    exact .store t c hc hpc
  case h_3 hpc =>
    cases h
    exact .turn _ t c _ hc (Call.evolves (fun _ => rfl) (by rw [hpc]; rfl)) (by rw [hpc]; rfl)
  case h_4 r hpc =>
    cases h
    exact .delete t c r hc hpc
  case h_5 => cases h
  case h_6 => cases h

theorem step_move {ev : Event β} (h : step s ev = some s') : Move s ev s' := by
  cases ev with
  | writeMessageSync m =>
    cases h
    exact .call m
  | next t =>
    simp only [step] at h
    split at h
    case h_1 c hc => exact nextCall_move hc h
    case h_2 => cases h
  | writeError t err | timeout t =>
    simp only [step] at h
    split at h
    case h_1 hc =>
      cases h
      exact .turn _ t _ _ hc ⟨rfl, fun _ => rfl, by rintro _ ⟨⟩⟩ rfl
    case h_2 => cases h
  | expire t =>
    simp only [step] at h
    split at h
    case h_1 hc =>
      cases h
      exact .turn _ t _ _ hc ⟨rfl, id, fun _ => id⟩ rfl
    case h_2 => cases h
  | readMessage m =>
    simp only [step] at h
    split at h
    · cases h
      exact .read m
    · cases h
  | loop => exact .loop h

theorem notify_eq (s : Conn β) (t : ℕ) (m : Message β) :
    s.notify t m = s ∨ ∃ c, s.calls[t]? = some c ∧ c.pc = .waiting ∧
      s.notify t m = s.set t { c with pc := .ended (.ok m) } := by
  unfold Conn.notify
  split
  case h_1 message expired hc => exact .inr ⟨_, hc, rfl, rfl⟩
  case h_2 => exact .inl rfl

end Moves

/-- The response that the loop is about to send finds its call at the receive, or past it. -/
def Ready (s : Conn β) : Prop :=
  match s.loop with
  | .idle | .read _ => True
  | .matched m => ∃ (t : ℕ) (c : Call β), s.calls[t]? = some c ∧ c.message.id = m.parentID ∧
    c.pc.late = true
  | .loaded m t => ∃ c, s.calls[t]? = some c ∧ c.message.id = m.parentID ∧ c.pc.late = true

def Call.key (c : Call β) : Option GoString := some c.message.id

structure Inv (s : Conn β) : Prop where
  unique : Threads.Distinct Call.key s.calls
  kept : Threads.Registered Call.key (·.pc.kept) s.keeper s.calls
  ready : Ready s

section Steps
variable {s s' : Conn β} {t : ℕ} {c c' : Call β}

theorem Call.Evolves.key (h : c.Evolves c') : c'.key = c.key := by
  rw [Call.key, Call.key, h.message]

theorem late_set (hc : s.calls[t]? = some c) (hevolves : c.Evolves c') {id : GoString} {i : ℕ}
    (h : ∃ a, s.calls[i]? = some a ∧ a.message.id = id ∧ a.pc.late = true) :
    ∃ a, (s.set t c').calls[i]? = some a ∧ a.message.id = id ∧ a.pc.late = true := by
  obtain ⟨a, hi, hid, hlate⟩ := h
  have hget := Threads.getElem?_set_of hc c' i
  split_ifs at hget with hit
  · rw [hit, hc] at hi
    cases hi
    exact ⟨c', hget, by rw [hevolves.message, hid], hevolves.late hlate⟩
  · exact ⟨a, hget.trans hi, hid, hlate⟩

theorem ready_set (h : Ready s) (hc : s.calls[t]? = some c) (hevolves : c.Evolves c') :
    Ready (s.set t c') := by
  unfold Ready at h ⊢
  change match s.loop with
    | .idle | .read _ => True
    | .matched m => _
    | .loaded m t => _
  cases hloop : s.loop with
  | idle | read m => trivial
  | matched m =>
    rw [hloop] at h
    obtain ⟨i, hi⟩ := h
    exact ⟨i, late_set hc hevolves hi⟩
  | loaded m i =>
    rw [hloop] at h
    exact late_set hc hevolves h

section

variable (h : Inv s) (hc : s.calls[t]? = some c)
include h hc

theorem turn_inv (hevolves : c.Evolves c') (hkept : c'.pc.kept = c.pc.kept) : Inv (s.set t c') where
  unique := h.unique.set hc hevolves.key
  kept := h.kept.set hc hevolves.key hkept
  ready := ready_set h.ready hc hevolves

theorem store_inv (hpc : c.pc = .written) :
    Inv { s.set t { c with pc := .stored } with keeper := s.keeper.insert c.message.id t } := by
  have hevolves : c.Evolves { c with pc := .stored } :=
    Call.evolves (by rw [hpc]; exact id) (by rw [hpc]; rfl)
  exact
    { unique := h.unique.set hc hevolves.key
      kept := h.kept.insert h.unique hc hevolves.key rfl rfl
      ready := ready_set h.ready hc hevolves }

theorem delete_inv {r : Result (Message β)} (hpc : c.pc = .ended r) :
    Inv { s.set t { c with pc := .returned r } with keeper := s.keeper.erase c.message.id } := by
  have hevolves := Call.evolves_returned hpc
  exact
    { unique := h.unique.set hc hevolves.key
      kept := h.kept.erase h.unique hc rfl rfl
      ready := ready_set h.ready hc hevolves }

end

theorem call_inv (h : Inv s) {m : Message β} (hfresh : ∀ c ∈ s.calls, c.message.id ≠ m.id) :
    Inv { s with calls := s.calls ++ [⟨{ m with sync := true }, false, .writing⟩] } where
  unique := by
    apply h.unique.append
    intro x hx id hid hx'
    exact hfresh x hx (Option.some.inj (hx'.trans hid.symm))
  kept := h.kept.append rfl
  ready := by
    have hready := h.ready
    unfold Ready at hready ⊢
    split <;> rename_i hloop
    · trivial
    · trivial
    · rw [hloop] at hready
      obtain ⟨i, a, hi, ha⟩ := hready
      exact ⟨i, a, Threads.getElem?_append_of hi _, ha⟩
    · rw [hloop] at hready
      obtain ⟨a, hi, ha⟩ := hready
      exact ⟨a, Threads.getElem?_append_of hi _, ha⟩

theorem loop_inv (h : Inv s) (hparked : Parked s .loop) (hs : s.nextLoop = some s') : Inv s' := by
  unfold Conn.nextLoop at hs
  split at hs
  case h_1 => cases hs
  case h_2 m hloop =>
    split_ifs at hs with hcontrol hmatch
    · cases hs
      exact { h with ready := trivial }
    · cases hs
      refine { h with ready := ?_ }
      obtain ⟨t, ht⟩ := Option.isSome_iff_exists.mp hmatch
      obtain ⟨c, hc, hkept, hkey⟩ := (h.kept _ t).mp ht
      have hkept : c.pc.kept = true := hkept
      have hid : c.message.id = m.parentID := Option.some.inj hkey
      simp only [Parked, hloop] at hparked
      refine ⟨t, c, hc, hid, ?_⟩
      have hearly := hparked c (List.mem_of_getElem? hc) hid
      cases hpc : c.pc with
      | writing | written | returned r =>
        rw [hpc] at hkept
        cases hkept
      | stored =>
        rw [hpc] at hearly
        cases hearly rfl
      | waiting | ended r => rfl
    · cases hs
      exact { h with ready := trivial }
  case h_3 m hloop =>
    have hready := h.ready
    unfold Ready at hready
    rw [hloop] at hready
    obtain ⟨i, a, hi, hid, hlate⟩ := hready
    split at hs
    case h_1 t ht =>
      cases hs
      obtain ⟨c, hc, -, hkey⟩ := (h.kept _ t).mp ht
      have hit : i = t := h.unique i t a c m.parentID hi hc (congrArg some hid) hkey
      exact { h with ready := ⟨a, hit ▸ hi, hid, hlate⟩ }
    case h_2 =>
      cases hs
      exact { h with ready := trivial }
  case h_4 m t hloop =>
    cases hs
    obtain hsame | ⟨c, hc, hpc, hset⟩ := notify_eq s t m
    · rw [hsame]
      exact { h with ready := trivial }
    · have hevolves : c.Evolves { c with pc := .ended (.ok m) } :=
        Call.evolves (fun _ => rfl) (by rw [hpc]; rfl)
      have hinv := turn_inv h hc hevolves (by rw [hpc]; rfl)
      rw [hset]
      exact { hinv with ready := trivial }

theorem move_inv {ev : Event β} (h : Inv s) (hparked : Parked s ev) (hmove : Move s ev s') :
    Inv s' := by
  cases hmove with
  | call m => exact call_inv h hparked
  | turn ev t c c' hc hevolves hkept => exact turn_inv h hc hevolves hkept
  | store t c hc hpc => exact store_inv h hc hpc
  | delete t c r hc hpc => exact delete_inv h hc hpc
  | read m => exact { h with ready := trivial }
  | loop hs => exact loop_inv h hparked hs

end Steps

theorem start_inv : Inv ({} : Conn β) where
  unique := by simp [Threads.Distinct]
  kept := by simp [Threads.Registered]
  ready := trivial

section Got
variable {s s' : Conn β} {t : ℕ} {c : Call β} {m : Message β}

def Conn.Got (s : Conn β) (t : ℕ) (m : Message β) : Prop :=
  ∃ c, s.calls[t]? = some c ∧ c.pc.result = some (.ok m)

theorem got_set {i : ℕ} {c' : Call β} (h : s.Got t m) (hc : s.calls[i]? = some c)
    (hevolves : c.Evolves c') : (s.set i c').Got t m := by
  obtain ⟨a, ha, hresult⟩ := h
  have hget := Threads.getElem?_set_of hc c' t
  split_ifs at hget with hti
  · rw [hti, hc] at ha
    cases ha
    exact ⟨c', hget, hevolves.result _ hresult⟩
  · exact ⟨a, hget.trans ha, hresult⟩

theorem loop_got (h : s.Got t m) (hs : s.nextLoop = some s') : s'.Got t m := by
  unfold Conn.nextLoop at hs
  split at hs
  case h_1 => cases hs
  case h_2 => split_ifs at hs <;> cases hs <;> exact h
  case h_3 => split at hs <;> cases hs <;> exact h
  case h_4 m' i hloop =>
    cases hs
    obtain hsame | ⟨c, hc, hpc, hset⟩ := notify_eq s i m'
    · rw [hsame]
      exact h
    · rw [hset]
      exact got_set h hc (Call.evolves (fun _ => rfl) (by rw [hpc]; rfl))

theorem step_got {ev : Event β} (h : s.Got t m) (hstep : step s ev = some s') : s'.Got t m := by
  cases step_move hstep with
  | call m' =>
    obtain ⟨a, ha, hresult⟩ := h
    exact ⟨a, Threads.getElem?_append_of ha _, hresult⟩
  | turn ev i c c' hc hevolves hkept => exact got_set h hc hevolves
  | store i c hc hpc =>
    exact got_set h hc (Call.evolves (by rw [hpc]; exact id) (by rw [hpc]; rfl))
  | delete i c r hc hpc => exact got_set h hc (Call.evolves_returned hpc)
  | read m' => exact h
  | loop hs => exact loop_got h hs

theorem Pc.waiting_of_late {pc : Pc β} (hpending : pc.pending = true) (hlate : pc.late = true) :
    pc = .waiting := by
  cases pc <;> simp_all [Pc.pending, Pc.late]

theorem Pc.waiting_of_not_early {pc : Pc β} (hpending : pc.pending = true)
    (hearly : pc.early = false) : pc = .waiting := by
  cases pc <;> simp_all [Pc.pending, Pc.early]

/-- The loop has the response to a call without a result. -/
def Conn.Holds (s : Conn β) (t : ℕ) (m : Message β) : Prop :=
  s.loop.message = some m ∧ m.isControl = false ∧
    ∃ c, s.calls[t]? = some c ∧ m.parentID = c.message.id ∧ c.pc.pending = true

theorem holds_set {i : ℕ} {c' : Call β} (h : s.Holds t m) (hc : s.calls[i]? = some c)
    (hmessage : c'.message = c.message)
    (hpending : i = t → c.pc.pending = true → c'.pc.pending = true) : (s.set i c').Holds t m := by
  obtain ⟨hloop, hcontrol, a, ha, hparent, ha'⟩ := h
  refine ⟨hloop, hcontrol, ?_⟩
  have hget := Threads.getElem?_set_of hc c' t
  split_ifs at hget with hti
  · subst hti
    rw [hc] at ha
    cases ha
    exact ⟨c', hget, by rw [hmessage, hparent], hpending rfl ha'⟩
  · exact ⟨a, hget.trans ha, hparent, ha'⟩

/-- A turn of the loop takes the response on, and the last one gives it to the call. -/
theorem holds_loop (h : Inv s) (hparked : Parked s .loop) (hold : s.Holds t m)
    (hs : s.nextLoop = some s') : s'.Got t m ∨ s'.Holds t m := by
  obtain ⟨hloop, hcontrol, c, hc, hparent, hpending⟩ := hold
  have hkey : c.key = some m.parentID := congrArg some hparent.symm
  have hfound : c.pc = .waiting → s.keeper.lookup m.parentID = some t := by
    intro hpc
    exact (h.kept _ t).mpr ⟨c, hc, congrArg Pc.kept hpc, hkey⟩
  have hready := h.ready
  unfold Ready at hready
  unfold Conn.nextLoop at hs
  split at hs
  case h_1 => cases hs
  case h_2 m' hread =>
    rw [hread] at hloop
    cases hloop
    simp only [Parked, hread] at hparked
    have hearly := hparked c (List.mem_of_getElem? hc) hparent.symm hpending
    rw [hcontrol, hfound (Pc.waiting_of_not_early hpending hearly)] at hs
    cases hs
    exact .inr ⟨rfl, hcontrol, c, hc, hparent, hpending⟩
  case h_3 m' hmatched =>
    rw [hmatched] at hloop hready
    cases hloop
    obtain ⟨i, a, hi, hid, hlate⟩ := hready
    have hit : i = t := h.unique i t a c m.parentID hi hc (congrArg some hid) hkey
    subst hit
    rw [hc] at hi
    cases hi
    rw [hfound (Pc.waiting_of_late hpending hlate)] at hs
    cases hs
    exact .inr ⟨rfl, hcontrol, c, hc, hparent, hpending⟩
  case h_4 m' i hloaded =>
    rw [hloaded] at hloop hready
    cases hloop
    obtain ⟨a, hi, hid, hlate⟩ := hready
    have hit : i = t := h.unique i t a c m.parentID hi hc (congrArg some hid) hkey
    subst hit
    rw [hc] at hi
    cases hi
    obtain ⟨message, expired, pc⟩ := c
    cases Pc.waiting_of_late hpending hlate
    cases hs
    refine .inl ⟨⟨message, expired, .ended (.ok m)⟩, ?_, rfl⟩
    simp only [Conn.notify, hc]
    exact (Threads.getElem?_set_of hc _ i).trans (if_pos rfl)

theorem holds_nextCall {i : ℕ} (hold : s.Holds t m) (hc : s.calls[i]? = some c)
    (hs : s.nextCall i c = some s') : s'.Holds t m := by
  unfold Conn.nextCall at hs
  split at hs
  case h_1 | h_2 | h_3 =>
    cases hs
    exact holds_set hold hc rfl (fun _ _ => rfl)
  case h_4 r hpc =>
    cases hs
    refine holds_set hold hc rfl ?_
    rw [hpc]
    rintro - ⟨⟩
  case h_5 | h_6 => cases hs

theorem holds_step {ev : Event β} (h : Inv s) (hparked : Parked s ev) (hold : s.Holds t m)
    (hstep : step s ev = some s') : s'.Got t m ∨ s'.Holds t m := by
  cases ev with
  | writeMessageSync m' =>
    cases hstep
    obtain ⟨hloop, hcontrol, c, hc, hparent, hpending⟩ := hold
    exact .inr ⟨hloop, hcontrol, c, Threads.getElem?_append_of hc _, hparent, hpending⟩
  | next i =>
    simp only [step] at hstep
    split at hstep
    case h_1 c hc => exact .inr (holds_nextCall hold hc hstep)
    case h_2 => cases hstep
  | writeError i err =>
    simp only [step] at hstep
    split at hstep
    case h_1 hc =>
      cases hstep
      exact .inr (holds_set hold hc rfl (by rintro - ⟨⟩))
    case h_2 => cases hstep
  | expire i =>
    simp only [step] at hstep
    split at hstep
    case h_1 hc =>
      cases hstep
      exact .inr (holds_set hold hc rfl (fun _ => id))
    case h_2 => cases hstep
  | timeout i =>
    simp only [step] at hstep
    split at hstep
    case h_1 message hc =>
      cases hstep
      refine .inr (holds_set hold hc rfl ?_)
      rintro rfl
      -- the call that waits for this response does not time out now
      obtain ⟨hloop, -, a, ha, hparent, -⟩ := hold
      exact absurd hparent (hparked a ha m hloop)
    case h_2 => cases hstep
  | readMessage m' =>
    simp only [step] at hstep
    split at hstep
    case h_1 hidle =>
      obtain ⟨hloop, -⟩ := hold
      rw [hidle] at hloop
      cases hloop
    case h_2 => cases hstep
  | loop => exact holds_loop h hparked hold hstep

/-- Steps of the call and of the loop that meet the condition lead to the return of the response. -/
def Conn.Leads (s : Conn β) (t : ℕ) (m : Message β) : Prop :=
  ∃ (es : List (Event β)) (s' : Conn β), (∀ ev ∈ es, ev = .next t ∨ ev = .loop) ∧
    Along step Parked s es ∧ run step s es = some s' ∧ s'.Returned t (.ok m)

theorem leads_of_step {ev : Event β} (hev : ev = .next t ∨ ev = .loop) (hparked : Parked s ev)
    (hstep : step s ev = some s') (h : s'.Leads t m) : s.Leads t m := by
  obtain ⟨es, s₁, hes, halong, hrun, hreturned⟩ := h
  refine ⟨ev :: es, s₁, List.forall_mem_cons.mpr ⟨hev, hes⟩, ?_, ?_, hreturned⟩
  · intro s'' hs''
    rw [hstep] at hs''
    cases hs''
    exact ⟨hparked, halong⟩
  · rw [run, hstep]
    exact hrun

theorem leads_of_got (h : s.Got t m) : s.Leads t m := by
  obtain ⟨c, hc, hresult⟩ := h
  cases hpc : c.pc with
  | writing | written | stored | waiting =>
    rw [hpc] at hresult
    cases hresult
  | returned r =>
    rw [hpc] at hresult
    cases hresult
    exact ⟨[], s, by simp, trivial, rfl, c, hc, hpc⟩
  | ended r =>
    rw [hpc] at hresult
    cases hresult
    have hstep : step s (.next t) = some { s.set t { c with pc := .returned (.ok m) } with
        keeper := s.keeper.erase c.message.id } := by
      simp [step, hc, Conn.nextCall, hpc]
    refine leads_of_step (.inl rfl) trivial hstep ⟨[], _, by simp, trivial, rfl, ?_⟩
    exact ⟨_, (Threads.getElem?_set_of hc _ t).trans (if_pos rfl), rfl⟩

def Pc.rank : Pc β → ℕ
  | .written => 2
  | .stored => 1
  | .writing | .waiting | .ended _ | .returned _ => 0

def Loop.rank : Loop β → ℕ
  | .read _ => 3
  | .matched _ => 2
  | .loaded _ _ => 1
  | .idle => 0

/-- How many steps the call and the loop have left until the response is handed over. -/
def Conn.rank (s : Conn β) (t : ℕ) : ℕ := s.loop.rank + (s.calls[t]?.map (·.pc.rank)).getD 0

theorem rank_set {c' : Call β} (hc : s.calls[t]? = some c) (hrank : c'.pc.rank < c.pc.rank) :
    (s.set t c').rank t < s.rank t := by
  have hget : (s.set t c').calls[t]? = some c' :=
    (Threads.getElem?_set_of hc c' t).trans (if_pos rfl)
  unfold Conn.rank
  rw [hget, hc]
  exact Nat.add_lt_add_left hrank _

/-- A call at its receive is at the end of its steps, also if it is notified. -/
theorem rank_notify (hc : s.calls[t]? = some c) (hpc : c.pc = .waiting) (i : ℕ) (m : Message β) :
    ((s.notify i m).calls[t]?.map (·.pc.rank)).getD 0 = 0 := by
  obtain hsame | ⟨a, ha, -, hset⟩ := notify_eq s i m
  · rw [hsame, hc]
    exact congrArg Pc.rank hpc
  · have hget : (s.set i { a with pc := .ended (.ok m) }).calls[t]? = _ :=
      Threads.getElem?_set_of ha _ t
    rw [hset, hget]
    split_ifs
    · rfl
    · rw [hc]
      exact congrArg Pc.rank hpc

theorem loop_progress (h : Inv s) (hloop : s.loop.message = some m) (hcontrol : m.isControl = false)
    (hc : s.calls[t]? = some c) (hkey : c.key = some m.parentID) (hpc : c.pc = .waiting) :
    ∃ s', Parked s .loop ∧ step s .loop = some s' ∧ s'.rank t < s.rank t := by
  have hfound : s.keeper.lookup m.parentID = some t :=
    (h.kept _ t).mpr ⟨c, hc, congrArg Pc.kept hpc, hkey⟩
  cases hs : s.loop with
  | idle =>
    rw [hs] at hloop
    cases hloop
  | read m' =>
    rw [hs] at hloop
    cases hloop
    refine ⟨{ s with loop := .matched m }, ?_, ?_, ?_⟩
    · simp only [Parked, hs]
      intro a ha hid _
      obtain ⟨i, hi⟩ := List.mem_iff_getElem?.mp ha
      have hit : i = t := h.unique i t a c m.parentID hi hc (congrArg some hid) hkey
      rw [hit, hc] at hi
      cases hi
      rw [hpc]
      rfl
    · simp [step, Conn.nextLoop, hs, hcontrol, hfound]
    · simp [Conn.rank, hs, Loop.rank]
  | matched m' =>
    rw [hs] at hloop
    cases hloop
    refine ⟨{ s with loop := .loaded m t }, ?_, ?_, ?_⟩
    · simp only [Parked, hs]
    · simp [step, Conn.nextLoop, hs, hfound]
    · simp [Conn.rank, hs, Loop.rank]
  | loaded m' i =>
    rw [hs] at hloop
    cases hloop
    refine ⟨{ s.notify i m with loop := .idle }, ?_, ?_, ?_⟩
    · simp only [Parked, hs]
    · simp [step, Conn.nextLoop, hs]
    · unfold Conn.rank
      rw [rank_notify hc hpc, hs]
      exact Nat.lt_of_lt_of_le Nat.zero_lt_one (Nat.le_add_right ..)

theorem holds_progress (h : Inv s) (hold : s.Holds t m) :
    ∃ ev s', (ev = .next t ∨ ev = .loop) ∧ Parked s ev ∧ step s ev = some s' ∧
      s'.rank t < s.rank t := by
  obtain ⟨hloop, hcontrol, c, hc, hparent, hpending⟩ := hold
  cases hpc : c.pc with
  | writing | ended r | returned r =>
    rw [hpc] at hpending
    cases hpending
  | written =>
    refine ⟨.next t, { s.set t { c with pc := .stored } with
      keeper := s.keeper.insert c.message.id t }, .inl rfl, trivial, ?_, ?_⟩
    · simp [step, hc, Conn.nextCall, hpc]
    · exact rank_set hc (by rw [hpc]; exact Nat.lt_succ_self _)
  | stored =>
    refine ⟨.next t, s.set t { c with pc := .waiting }, .inl rfl, trivial, ?_, ?_⟩
    · simp [step, hc, Conn.nextCall, hpc]
    · exact rank_set hc (by rw [hpc]; exact Nat.lt_succ_self _)
  | waiting =>
    obtain ⟨s', hparked, hstep, hrank⟩ :=
      loop_progress h hloop hcontrol hc (congrArg some hparent.symm) hpc
    exact ⟨.loop, s', .inr rfl, hparked, hstep, hrank⟩

theorem leads_of_holds (h : Inv s) (hold : s.Holds t m) : s.Leads t m := by
  induction hn : s.rank t using Nat.strong_induction_on generalizing s with
  | h n ih =>
    obtain ⟨ev, s', hev, hparked, hstep, hrank⟩ := holds_progress h hold
    have hinv := move_inv h hparked (step_move hstep)
    apply leads_of_step hev hparked hstep
    obtain hgot | hold' := holds_step h hparked hold hstep
    · exact leads_of_got hgot
    · exact ih (s'.rank t) (hn ▸ hrank) hinv hold' rfl

end Got

/-- If the reading loop reads the response to a request that has been written and whose call has no
result yet, then `WriteMessageSync` returns it: it returns nothing else, and from every state that
follows the steps of the call and of the loop lead to its return. -/
theorem response_kept {es₁ es₂ : List (Event β)} {m : Message β}
    (h : Along step Parked {} (es₁ ++ .readMessage m :: es₂)) {s₁ s₂ s₃ : Conn β}
    (h₁ : run step {} es₁ = some s₁) {t : ℕ} {c : Call β} (hc : s₁.calls[t]? = some c)
    (hparent : m.parentID = c.message.id) (hpending : c.pc.pending = true)
    (hread : step s₁ (.readMessage m) = some s₂) (h₂ : run step s₂ es₂ = some s₃) :
    (∀ x, s₃.Returned t x → x = .ok m) ∧ s₃.Leads t m := by
  obtain ⟨halong₁, halong₂⟩ := h.after h₁
  obtain ⟨hparked, halong₃⟩ := halong₂ s₂ hread
  have hinv₁ : Inv s₁ := by
    have hinv : Always step Inv {} es₁ := by
      apply always_of_along ?_ start_inv halong₁
      intro s ev s' hs hev hs'
      exact move_inv hs hev (step_move hs')
    exact hinv.last h₁
  have hinv₂ : Inv s₂ := move_inv hinv₁ hparked (step_move hread)
  have hold₂ : s₂.Holds t m := by
    have hcontrol := hparked c (List.mem_of_getElem? hc) hparent.symm hpending
    simp only [step] at hread
    split at hread
    · cases hread
      exact ⟨rfl, hcontrol, c, hc, hparent, hpending⟩
    · cases hread
  -- the response stays with the loop until the call has it
  have hkept : Always step (fun s => Inv s ∧ (s.Got t m ∨ s.Holds t m)) s₂ es₂ := by
    apply always_of_along ?_ ⟨hinv₂, .inr hold₂⟩ halong₃
    rintro s ev s' ⟨hinv, hs⟩ hev hs'
    refine ⟨move_inv hinv hev (step_move hs'), ?_⟩
    obtain hgot | hold := hs
    · exact .inl (step_got hgot hs')
    · exact holds_step hinv hev hold hs'
  obtain ⟨hinv₃, hs₃⟩ := hkept.last h₂
  constructor
  · rintro x ⟨c₃, hc₃, hpc⟩
    obtain ⟨c₃', hc₃', hresult⟩ | ⟨-, -, c₃', hc₃', -, hpending₃⟩ := hs₃
    · rw [hc₃] at hc₃'
      cases hc₃'
      rw [hpc] at hresult
      exact Option.some.inj hresult
    · rw [hc₃] at hc₃'
      cases hc₃'
      rw [hpc] at hpending₃
      cases hpending₃
  · obtain hgot | hold := hs₃
    · exact leads_of_got hgot
    · exact leads_of_holds hinv₃ hold

namespace Sample

def request : Message Unit := ⟨str "1", [], str "query", false, ()⟩

def response : Message Unit := ⟨str "2", str "1", str "response", false, ()⟩

def requested : List (Event Unit) := [.writeMessageSync request, .next 0]

def stored : List (Event Unit) := requested ++ ([.next 0] : List (Event Unit))

def receiving : List (Event Unit) := stored ++ ([.next 0] : List (Event Unit))

end Sample

open Sample

/-- The response is read while the writer waits, and the deadline passes before it is handed
over. -/
theorem response_kept_receiving : ∃ s₁ s₂ s₃ c,
    run step {} receiving = some s₁ ∧ step s₁ (.readMessage response) = some s₂ ∧
    s₁.calls[0]? = some c ∧ c.pc.pending = true ∧
    run step s₂ [.loop, .expire 0, .loop] = some s₃ ∧
    (∀ x, s₃.Returned 0 x → x = .ok response) ∧ s₃.Leads 0 response := by
  have halong : Along step Parked {}
      (receiving ++ .readMessage response :: [.loop, .expire 0, .loop]) := by
    apply along_of_check
    · intro s ev h
      exact of_decide_eq_true h
    · decide +kernel
  have hruns : ∃ s₁ s₂ s₃ c, run step {} receiving = some s₁ ∧
      step s₁ (.readMessage response) = some s₂ ∧ s₁.calls[0]? = some c ∧
      c.pc.pending = true ∧ response.parentID = c.message.id ∧
      run step s₂ [.loop, .expire 0, .loop] = some s₃ :=
    ⟨_, _, _, _, rfl, rfl, rfl, rfl, rfl, rfl⟩
  obtain ⟨s₁, s₂, s₃, c, h₁, hread, hc, hpending, hparent, h₂⟩ := hruns
  exact ⟨s₁, s₂, s₃, c, h₁, hread, hc, hpending, h₂,
    response_kept halong h₁ hc hparent hpending hread h₂⟩

/-- In the state `s₁` the response to the first call is read before the deadline, and after these
steps the call has timed out. -/
def TimesOut (before after : List (Event Unit)) : Prop :=
  ∃ s₁ s₂ s₃ c, run step {} before = some s₁ ∧ step s₁ (.readMessage response) = some s₂ ∧
    s₁.calls[0]? = some c ∧ response.parentID = c.message.id ∧ c.pc.pending = true ∧
    c.expired = false ∧ run step s₂ after = some s₃ ∧
    s₃.Returned 0 (.error (str "wait response timeout, message id:1"))

/-- A response that is taken up before the channel is stored is passed on, one that is taken up
before the receive is dropped, and one that the loop has when the time is up is not returned. -/
theorem response_dropped :
    TimesOut requested [.loop, .next 0, .next 0, .expire 0, .timeout 0, .next 0] ∧
    TimesOut stored [.loop, .loop, .loop, .next 0, .expire 0, .timeout 0, .next 0] ∧
    TimesOut receiving [.loop, .expire 0, .timeout 0, .next 0] :=
  ⟨⟨_, _, _, _, rfl, rfl, rfl, rfl, rfl, rfl, rfl, _, rfl, rfl⟩,
    ⟨_, _, _, _, rfl, rfl, rfl, rfl, rfl, rfl, rfl, _, rfl, rfl⟩,
    _, _, _, _, rfl, rfl, rfl, rfl, rfl, rfl, rfl, _, rfl, rfl⟩

end KubeEdge.Viaduct
