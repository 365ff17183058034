import KubeEdge.Go.Control
import KubeEdge.Go.Machine
import KubeEdge.Go.Text
import KubeEdge.Go.Threads

namespace KubeEdge.Beehive
open Go Machine

variable {β : Type}

/-- What the bus reads of a message, and its content. -/
structure Message (β : Type) where
  id : GoString
  parentID : GoString
  sync : Bool
  content : β
  deriving DecidableEq

/-- The request that is sent, with the flag set. -/
def Message.request (m : Message β) : Message β := { m with sync := true }

/-- Where `SendSync` stands. -/
inductive SyncPc (β : Type)
  /-- At the send of the request. -/
  | sending
  /-- At `Lock`, to register its channel. -/
  | register
  /-- Later readers are kept out. -/
  | registering
  | waiting
  /-- At `Lock`, to remove its channel. -/
  | leave (r : Result (Message β))
  | leaving (r : Result (Message β))
  | returned (r : Result (Message β))

structure SyncCall (β : Type) where
  moduleName : GoString
  message : Message β
  /-- The deadline has passed. -/
  expired : Bool := false
  pc : SyncPc β := .sending

/-- Where `SendToGroupSync` stands. -/
inductive GroupPc
  | register
  | registering
  | polling
  | leave (timedOut : Bool)
  | leaving (timedOut : Bool)
  /-- The channel is closed and its buffer counted. -/
  | closed (timedOut : Bool)
  | returned (r : Result Unit)

structure GroupCall (β : Type) where
  modules : List GoString
  message : Message β
  expired : Bool := false
  /-- The modules whose goroutines have not sent yet. -/
  unsent : List GoString := []
  timeoutCounter : ℕ := 0
  /-- The anonymous channel, which has room for one message of each module. -/
  anonChan : List (Message β) := []
  pc : GroupPc := .register

inductive RespPc
  | start
  /-- At the send to the channel that this thread made. -/
  | sending (c : ℕ)
  /-- At `RUnlock`. -/
  | leave
  | returned
  deriving DecidableEq

inductive Thread (β : Type)
  | sync (call : SyncCall β)
  | group (call : GroupCall β)
  | resp (message : Message β) (pc : RespPc)

/-- The caller keeps readers out. -/
def SyncPc.writes : SyncPc β → Bool
  | .registering | .leaving _ => true
  | .sending | .register | .waiting | .leave _ | .returned _ => false

def GroupPc.writes : GroupPc → Bool
  | .registering | .leaving _ => true
  | .register | .polling | .leave _ | .closed _ | .returned _ => false

/-- The caller holds the read lock. -/
def RespPc.reads : RespPc → Bool
  | .sending _ | .leave => true
  | .start | .returned => false

namespace Thread

def reads : Thread β → Bool
  | .resp _ pc => pc.reads
  | .sync _ | .group _ => false

def writes : Thread β → Bool
  | .sync c => c.pc.writes
  | .group g => g.pc.writes
  | .resp _ _ => false

end Thread

/-- What `SendToGroupSync` returns. -/
def GroupCall.result (g : GroupCall β) (timedOut : Bool) : Result Unit :=
  let uninvitedGuests := g.anonChan.countP fun resp => resp.parentID ≠ g.message.id
  if timedOut then
    if g.timeoutCounter ≠ 0 then
      .error (str "timeout to send message, several " ++ decimal g.timeoutCounter ++
        str " timeout when send")
    else .error (str "Timeout to send message")
  else if uninvitedGuests ≠ 0 then
    .error (str "got some unexpected(" ++ decimal uninvitedGuests ++ str ") resp")
  else .ok ()

structure Bus (β : Type) where
  channels : GoMap GoString (List (Message β))
  typeChannels : GoMap GoString (List GoString)
  /-- The thread that has made each channel. -/
  anonChannels : GoMap GoString ℕ := ∅
  threads : List (Thread β) := []

inductive Event (β : Type)
  | send (name : GoString) (m : Message β)
  | receive (name : GoString)
  | sendSync (name : GoString) (m : Message β)
  | sendToGroupSync (type : GoString) (m : Message β)
  | sendResp (m : Message β)
  /-- The deadline of a call passes. -/
  | expire (t : ℕ)
  | next (t : ℕ)
  | timeout (t : ℕ)
  /-- A goroutine of `SendToGroupSync` sends to its module, or gives up. -/
  | deliver (t : ℕ) (name : GoString)
  | giveUp (t : ℕ) (name : GoString)

def channelSize : ℕ := 1024

namespace Bus

def reads (s : Bus β) : Bool := s.threads.any (·.reads)

def writes (s : Bus β) : Bool := s.threads.any (·.writes)

def set (s : Bus β) (t : ℕ) (th : Thread β) : Bus β := { s with threads := s.threads.set t th }

def call (s : Bus β) (th : Thread β) : Bus β := { s with threads := s.threads ++ [th] }

/-- A send to the channel of a module, which waits while the channel is full. -/
def put (s : Bus β) (name : GoString) (m : Message β) : Option (Bus β) :=
  match s.channels.lookup name with
  | none => none
  | some channel =>
    if channel.length < channelSize then
      some { s with channels := s.channels.insert name (channel ++ [m]) }
    else none

def nextSync (s : Bus β) (t : ℕ) (c : SyncCall β) : Option (Bus β) :=
  match c.pc with
  | .sending =>
    (s.put c.moduleName c.message.request).map fun s => s.set t (.sync { c with pc := .register })
  | .register => if s.writes then none else some (s.set t (.sync { c with pc := .registering }))
  | .registering =>
    if s.reads then none
    else some { s.set t (.sync { c with pc := .waiting }) with
      anonChannels := s.anonChannels.insert c.message.id t }
  | .leave r => if s.writes then none else some (s.set t (.sync { c with pc := .leaving r }))
  | .leaving r =>
    if s.reads then none
    else some { s.set t (.sync { c with pc := .returned r }) with
      anonChannels := s.anonChannels.erase c.message.id }
  -- a response comes by the step of `SendResp`
  | .waiting | .returned _ => none

def nextGroup (s : Bus β) (t : ℕ) (g : GroupCall β) : Option (Bus β) :=
  match g.pc with
  | .register => if s.writes then none else some (s.set t (.group { g with pc := .registering }))
  | .registering =>
    if s.reads then none
    else some { s.set t (.group { g with pc := .polling, unsent := g.modules }) with
      anonChannels := s.anonChannels.insert g.message.id t }
  | .polling =>
    if g.anonChan.length = g.modules.length then
      some (s.set t (.group { g with pc := .leave false }))
    else none
  | .leave b => if s.writes then none else some (s.set t (.group { g with pc := .leaving b }))
  | .leaving b =>
    if s.reads then none
    else some { s.set t (.group { g with pc := .closed b }) with
      anonChannels := s.anonChannels.erase g.message.id }
  | .closed b => some (s.set t (.group { g with pc := .returned (g.result b) }))
  | .returned _ => none

/-- A send to an anonymous channel: that of `SendSync` has no buffer, so the caller has to be
waiting.  A closed channel is not sent to, since it is removed from the map first. -/
def sendAnon (s : Bus β) (c : ℕ) (m : Message β) : Option (Bus β) :=
  match s.threads[c]? with
  | some (.sync call) =>
    match call.pc with
    | .waiting => some (s.set c (.sync { call with pc := .leave (.ok m) }))
    | _ => none
  | some (.group g) =>
    if g.anonChan.length < g.modules.length then
      some (s.set c (.group { g with anonChan := g.anonChan ++ [m] }))
    else none
  | _ => none

def nextResp (s : Bus β) (t : ℕ) (m : Message β) : RespPc → Option (Bus β)
  | .start =>
    if s.writes then none
    else
      match s.anonChannels.lookup m.parentID with
      | some c => some (s.set t (.resp m (.sending c)))
      | none => some (s.set t (.resp m .leave))
  | .sending c => (s.sendAnon c m).map fun s => s.set t (.resp m .leave)
  | .leave => some (s.set t (.resp m .returned))
  | .returned => none

end Bus

def step (s : Bus β) : Event β → Option (Bus β)
  | .send name m => s.put name m
  | .receive name =>
    match s.channels.lookup name with
    | some (_ :: channel) => some { s with channels := s.channels.insert name channel }
    | _ => none
  | .sendSync name m =>
    if (s.channels.lookup name).isSome then some (s.call (.sync ⟨name, m, false, .sending⟩))
    else
      let err := str "bad request module name(" ++ name ++ str ")"
      some (s.call (.sync ⟨name, m, false, .returned (.error err)⟩))
  | .sendToGroupSync type m =>
    match s.typeChannels.lookup type with
    | some modules => some (s.call (.group { modules, message := m }))
    | none =>
      let err := str "failed to get module type(" ++ type ++ str ") channel list"
      some (s.call (.group { modules := [], message := m, pc := .returned (.error err) }))
  | .sendResp m => some (s.call (.resp m .start))
  | .expire t =>
    match s.threads[t]? with
    | some (.sync c) => some (s.set t (.sync { c with expired := true }))
    | some (.group g) => some (s.set t (.group { g with expired := true }))
    | _ => none
  | .next t =>
    match s.threads[t]? with
    | some (.sync c) => s.nextSync t c
    | some (.group g) => s.nextGroup t g
    | some (.resp m pc) => s.nextResp t m pc
    | none => none
  | .timeout t =>
    match s.threads[t]? with
    | some (.sync ⟨name, m, true, .sending⟩) =>
      some (s.set t (.sync ⟨name, m, true, .returned (.error (str "timeout to send message"))⟩))
    | some (.sync ⟨name, m, true, .waiting⟩) =>
      some (s.set t (.sync ⟨name, m, true, .leave (.error (str "timeout to get response"))⟩))
    | some (.group ⟨modules, m, true, unsent, n, anonChan, .polling⟩) =>
      some (s.set t (.group ⟨modules, m, true, unsent, n, anonChan, .leave true⟩))
    | _ => none
  | .deliver t name =>
    match s.threads[t]? with
    | some (.group g) =>
      if name ∈ g.unsent then
        (s.put name g.message.request).map fun s =>
          s.set t (.group { g with unsent := g.unsent.erase name })
      else none
    | _ => none
  | .giveUp t name =>
    match s.threads[t]? with
    | some (.group g) =>
      if g.expired ∧ name ∈ g.unsent then
        some (s.set t (.group { g with
          unsent := g.unsent.erase name
          timeoutCounter := g.timeoutCounter + 1 }))
      else none
    | _ => none

def SyncPc.registered : SyncPc β → Bool
  | .waiting | .leave _ | .leaving _ => true
  | .sending | .register | .registering | .returned _ => false

def GroupPc.registered : GroupPc → Bool
  | .polling | .leave _ | .leaving _ => true
  | .register | .registering | .closed _ | .returned _ => false

namespace Thread

/-- The id of the request of a synchronous call. -/
def request : Thread β → Option GoString
  | .sync c => some c.message.id
  | .group g => some g.message.id
  | .resp _ _ => none

/-- The channel of the call is in the map. -/
def registered : Thread β → Bool
  | .sync c => c.pc.registered
  | .group g => g.pc.registered
  | .resp _ _ => false

/-- A call that begins. -/
inductive Starts (s : Bus β) : Thread β → Prop
  | sync (name : GoString) (m : Message β) : Starts s (.sync ⟨name, m, false, .sending⟩)
  | unknown (name : GoString) (m : Message β) (err : GoString)
    (h : s.channels.lookup name = none) : Starts s (.sync ⟨name, m, false, .returned (.error err)⟩)
  | group (g : GroupCall β) (hchan : g.anonChan = [])
    (hpc : g.pc = .register ∨ ∃ r, g.pc = .returned r) : Starts s (.group g)
  | resp (m : Message β) : Starts s (.resp m .start)

/-- A step of `SendToGroupSync` that leaves its channel alone. -/
structure GroupTurn (s : Bus β) (g g' : GroupCall β) : Prop where
  message : g'.message = g.message
  modules : g'.modules = g.modules
  anonChan : g'.anonChan = g.anonChan
  registered : g'.pc.registered = g.pc.registered
  writes : g'.pc.writes = true → g.pc.writes = true ∨ s.writes = false

/-- A step of a thread that leaves the map and the other threads alone. -/
inductive Turn (s : Bus β) (t : ℕ) : Event β → Thread β → Thread β → Prop
  | sent (c : SyncCall β) (hpc : c.pc = .sending) :
    Turn s t (.next t) (.sync c) (.sync { c with pc := .register })
  | lock (c : SyncCall β) (hpc : c.pc = .register) (h : s.writes = false) :
    Turn s t (.next t) (.sync c) (.sync { c with pc := .registering })
  | relock (c : SyncCall β) (r : Result (Message β)) (hpc : c.pc = .leave r)
    (h : s.writes = false) : Turn s t (.next t) (.sync c) (.sync { c with pc := .leaving r })
  | expire (c : SyncCall β) : Turn s t (.expire t) (.sync c) (.sync { c with expired := true })
  | sendTimeout (c : SyncCall β) (err : GoString) (hpc : c.pc = .sending)
    (h : c.expired = true) :
    Turn s t (.timeout t) (.sync c) (.sync { c with pc := .returned (.error err) })
  | respTimeout (c : SyncCall β) (err : GoString) (hpc : c.pc = .waiting)
    (h : c.expired = true) :
    Turn s t (.timeout t) (.sync c) (.sync { c with pc := .leave (.error err) })
  | group (ev : Event β) (g g' : GroupCall β) (h : GroupTurn s g g') :
    Turn s t ev (.group g) (.group g')
  | found (m : Message β) (c : ℕ) (h : s.writes = false)
    (hc : s.anonChannels.lookup m.parentID = some c) :
    Turn s t (.next t) (.resp m .start) (.resp m (.sending c))
  | missed (m : Message β) (h : s.writes = false)
    (hc : s.anonChannels.lookup m.parentID = none) :
    Turn s t (.next t) (.resp m .start) (.resp m .leave)
  | unlock (m : Message β) : Turn s t (.next t) (.resp m .leave) (.resp m .returned)

/-- The critical section that puts the channel of a call into the map. -/
inductive Registers : Thread β → Thread β → Prop
  | sync (c : SyncCall β) (hpc : c.pc = .registering) :
    Registers (.sync c) (.sync { c with pc := .waiting })
  | group (g : GroupCall β) (hpc : g.pc = .registering) :
    Registers (.group g) (.group { g with pc := .polling, unsent := g.modules })

/-- The critical section that takes the channel out of the map. -/
inductive Removes : Thread β → Thread β → Prop
  | sync (c : SyncCall β) (r : Result (Message β)) (hpc : c.pc = .leaving r) :
    Removes (.sync c) (.sync { c with pc := .returned r })
  | group (g : GroupCall β) (b : Bool) (hpc : g.pc = .leaving b) :
    Removes (.group g) (.group { g with pc := .closed b })

/-- The thread that has made the channel takes a message, or its buffer does. -/
inductive Accepts (m : Message β) : Thread β → Thread β → Prop
  | sync (c : SyncCall β) (hpc : c.pc = .waiting) :
    Accepts m (.sync c) (.sync { c with pc := .leave (.ok m) })
  | group (g : GroupCall β) (h : g.anonChan.length < g.modules.length) :
    Accepts m (.group g) (.group { g with anonChan := g.anonChan ++ [m] })

end Thread

def Event.request : Event β → Option GoString
  | .sendSync _ m | .sendToGroupSync _ m => some m.id
  | _ => none

def SameModules (s : Bus β) (channels : GoMap GoString (List (Message β))) : Prop :=
  ∀ name, channels.lookup name = none ↔ s.channels.lookup name = none

/-- All that a step can do. -/
inductive Move (s : Bus β) : Event β → Bus β → Prop
  | outside (ev : Event β) (channels : GoMap GoString (List (Message β)))
    (h : SameModules s channels) : Move s ev { s with channels }
  | call (ev : Event β) (th : Thread β) (h : th.Starts s) (hid : th.request = ev.request) :
    Move s ev (s.call th)
  | turn (ev : Event β) (channels : GoMap GoString (List (Message β)))
    (h : SameModules s channels) (t : ℕ) (th th' : Thread β) (hth : s.threads[t]? = some th)
    (hturn : th.Turn s t ev th') : Move s ev { s.set t th' with channels }
  | register (t : ℕ) (th th' : Thread β) (id : GoString) (hth : s.threads[t]? = some th)
    (h : th.Registers th') (hid : th.request = some id) (hreads : s.reads = false) :
    Move s (.next t) { s.set t th' with anonChannels := s.anonChannels.insert id t }
  | remove (t : ℕ) (th th' : Thread β) (id : GoString) (hth : s.threads[t]? = some th)
    (h : th.Removes th') (hid : th.request = some id) (hreads : s.reads = false) :
    Move s (.next t) { s.set t th' with anonChannels := s.anonChannels.erase id }
  | hand (t c : ℕ) (m : Message β) (th th' : Thread β)
    (ht : s.threads[t]? = some (.resp m (.sending c))) (hc : s.threads[c]? = some th)
    (h : th.Accepts m th') : Move s (.next t) ((s.set c th').set t (.resp m .leave))

section Moves
variable {s s' : Bus β} {t : ℕ} {m : Message β} {g : GroupCall β} {name : GoString} {ev : Event β}

theorem SameModules.refl (s : Bus β) : SameModules s s.channels := fun _ => Iff.rfl

theorem SameModules.insert (h : s.channels.lookup name ≠ none) (channel : List (Message β)) :
    SameModules s (s.channels.insert name channel) := by
  intro k
  rw [GoMap.lookup_insert]
  split_ifs with hk
  · rw [hk]
    simp [h]
  · rfl

theorem put_eq (h : s.put name m = some s') :
    ∃ channels, SameModules s channels ∧ s' = { s with channels } := by
  unfold Bus.put at h
  split at h
  case h_1 => cases h
  case h_2 channel hchannel =>
    split_ifs at h
    cases h
    exact ⟨_, .insert (by rw [hchannel]; simp) _, rfl⟩

theorem Move.of_turn {th th' : Thread β} (hth : s.threads[t]? = some th) (h : th.Turn s t ev th') :
    Move s ev (s.set t th') :=
  .turn ev s.channels (.refl s) t th th' hth h

theorem nextSync_move {c : SyncCall β} (hth : s.threads[t]? = some (.sync c))
    (h : s.nextSync t c = some s') : Move s (.next t) s' := by
  unfold Bus.nextSync at h
  split at h
  case h_1 hpc =>
    obtain ⟨s₁, hput, rfl⟩ := Option.map_eq_some_iff.mp h
    obtain ⟨channels, hsame, rfl⟩ := put_eq hput
    exact .turn _ channels hsame t _ _ hth (.sent c hpc)
  case h_2 hpc =>
    split_ifs at h with hwrites
    cases h
    exact .of_turn hth (.lock c hpc (by simpa using hwrites))
  case h_3 hpc =>
    split_ifs at h with hreads
    cases h
    exact .register t _ _ _ hth (.sync c hpc) rfl (by simpa using hreads)
  case h_4 r hpc =>
    split_ifs at h with hwrites
    cases h
    exact .of_turn hth (.relock c r hpc (by simpa using hwrites))
  case h_5 r hpc =>
    split_ifs at h with hreads
    cases h
    exact .remove t _ _ _ hth (.sync c r hpc) rfl (by simpa using hreads)
  case h_6 => cases h
  case h_7 => cases h

theorem nextGroup_move (hth : s.threads[t]? = some (.group g)) (h : s.nextGroup t g = some s') :
    Move s (.next t) s' := by
  obtain ⟨modules, message, expired, unsent, n, anonChan, pc⟩ := g
  cases pc with
  | register | leave b =>
    simp only [Bus.nextGroup] at h
    split_ifs at h with hwrites
    cases h
    refine .of_turn hth (.group _ _ _ ⟨rfl, rfl, rfl, rfl, fun _ => .inr ?_⟩)
    simpa using hwrites
  | registering =>
    simp only [Bus.nextGroup] at h
    split_ifs at h with hreads
    cases h
    exact .register t _ _ _ hth (.group _ rfl) rfl (by simpa using hreads)
  | polling =>
    simp only [Bus.nextGroup] at h
    split_ifs at h
    cases h
    exact .of_turn hth (.group _ _ _ ⟨rfl, rfl, rfl, rfl, fun hw => by cases hw⟩)
  | leaving b =>
    simp only [Bus.nextGroup] at h
    split_ifs at h with hreads
    cases h
    exact .remove t _ _ _ hth (.group _ b rfl) rfl (by simpa using hreads)
  | closed b =>
    cases h
    exact .of_turn hth (.group _ _ _ ⟨rfl, rfl, rfl, rfl, fun hw => by cases hw⟩)
  | returned r => cases h

theorem sendAnon_accepts {c : ℕ} (h : s.sendAnon c m = some s') :
    ∃ th th', s.threads[c]? = some th ∧ th.Accepts m th' ∧ s' = s.set c th' := by
  unfold Bus.sendAnon at h
  split at h
  case h_1 call hcall =>
    split at h
    case h_1 hpc =>
      cases h
      exact ⟨_, _, hcall, .sync call hpc, rfl⟩
    case h_2 => cases h
  case h_2 g hg =>
    split_ifs at h with hroom
    cases h
    exact ⟨_, _, hg, .group g hroom, rfl⟩
  case h_3 => cases h

theorem nextResp_move {pc : RespPc} (hth : s.threads[t]? = some (.resp m pc))
    (h : s.nextResp t m pc = some s') : Move s (.next t) s' := by
  cases pc with
  | start =>
    simp only [Bus.nextResp] at h
    split_ifs at h with hwrites
    have hwrites : s.writes = false := by simpa using hwrites
    split at h
    case h_1 c hc =>
      cases h
      exact .of_turn hth (.found m c hwrites hc)
    case h_2 hc =>
      cases h
      exact .of_turn hth (.missed m hwrites hc)
  | sending c =>
    obtain ⟨s₁, hsend, rfl⟩ := Option.map_eq_some_iff.mp h
    obtain ⟨th, th', hc, haccepts, rfl⟩ := sendAnon_accepts hsend
    exact .hand t c m th th' hth hc haccepts
  | leave =>
    cases h
    exact .of_turn hth (.unlock m)
  | returned => cases h

theorem timeout_move (h : step s (.timeout t) = some s') : Move s (.timeout t) s' := by
  simp only [step] at h
  split at h
  case h_1 hth =>
    cases h
    exact .of_turn hth (.sendTimeout _ _ rfl rfl)
  case h_2 hth =>
    cases h
    exact .of_turn hth (.respTimeout _ _ rfl rfl)
  case h_3 hth =>
    cases h
    exact .of_turn hth (.group _ _ _ ⟨rfl, rfl, rfl, rfl, fun hw => by cases hw⟩)
  case h_4 => cases h

theorem groupTurn_of_pc {g' : GroupCall β} (hmessage : g'.message = g.message)
    (hmodules : g'.modules = g.modules) (hanonChan : g'.anonChan = g.anonChan)
    (hpc : g'.pc = g.pc) :
    Thread.GroupTurn s g g' := by
  refine ⟨hmessage, hmodules, hanonChan, ?_, ?_⟩
  · rw [hpc]
  · rw [hpc]
    exact .inl

theorem step_move (h : step s ev = some s') : Move s ev s' := by
  cases ev with
  | send name m =>
    obtain ⟨channels, hsame, rfl⟩ := put_eq h
    exact .outside _ channels hsame
  | receive name =>
    simp only [step] at h
    split at h
    case h_1 channel hchannel =>
      cases h
      exact .outside _ _ (.insert (by rw [hchannel]; simp) _)
    case h_2 => cases h
  | sendSync name m =>
    simp only [step] at h
    split_ifs at h with hname
    · cases h
      exact .call _ _ (.sync name m) rfl
    · cases h
      exact .call _ _ (.unknown name m _ (by simpa using hname)) rfl
  | sendToGroupSync type m =>
    simp only [step] at h
    split at h
    · cases h
      exact .call _ _ (.group _ rfl (.inl rfl)) rfl
    · cases h
      exact .call _ _ (.group _ rfl (.inr ⟨_, rfl⟩)) rfl
  | sendResp m =>
    cases h
    exact .call _ _ (.resp m) rfl
  | expire t =>
    simp only [step] at h
    split at h
    case h_1 c hth =>
      cases h
      exact .of_turn hth (.expire c)
    case h_2 g hth =>
      cases h
      exact .of_turn hth (.group _ _ _ (groupTurn_of_pc rfl rfl rfl rfl))
    case h_3 => cases h
  | next t =>
    simp only [step] at h
    split at h
    case h_1 c hth => exact nextSync_move hth h
    case h_2 g hth => exact nextGroup_move hth h
    case h_3 m pc hth => exact nextResp_move hth h
    case h_4 => cases h
  | timeout t => exact timeout_move h
  | deliver t name =>
    simp only [step] at h
    split at h
    case h_1 g hth =>
      split_ifs at h
      obtain ⟨s₁, hput, rfl⟩ := Option.map_eq_some_iff.mp h
      obtain ⟨channels, hsame, rfl⟩ := put_eq hput
      exact .turn _ channels hsame t _ _ hth (.group _ _ _ (groupTurn_of_pc rfl rfl rfl rfl))
    case h_2 => cases h
  | giveUp t name =>
    simp only [step] at h
    split at h
    case h_1 g hth =>
      split_ifs at h
      cases h
      exact .of_turn hth (.group _ _ _ (groupTurn_of_pc rfl rfl rfl rfl))
    case h_2 => cases h

end Moves

end KubeEdge.Beehive
