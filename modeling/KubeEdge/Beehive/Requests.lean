import KubeEdge.Beehive.Deadlock

namespace KubeEdge.Beehive
open Go Machine

variable {β : Type} {m : Message β} {ev : Event β} {r : ℕ} {c : SyncCall β} {es : List (Event β)}

/-- How a call of `SendSync` ends, from where this is known. -/
def SyncPc.result : SyncPc β → Option (Result (Message β))
  | .leave r | .leaving r | .returned r => some r
  | .sending | .register | .registering | .waiting => none

/-- The request that a response is for. -/
def Thread.answers : Thread β → Option GoString
  | .resp m _ => some m.parentID
  | .sync _ | .group _ => none

/-- `SendResp` has been called once for the request of a call and has returned, and the deadline
of the call has not passed. -/
structure Bus.AnsweredInTime (s : Bus β) (t r : ℕ) (c : SyncCall β) (m : Message β) : Prop where
  call : s.threads[t]? = some (.sync c)
  resp : s.threads[r]? = some (.resp m .returned)
  parentID : m.parentID = c.message.id
  once : s.threads.countP (fun th => th.answers = some c.message.id) = 1
  known : s.channels.lookup c.moduleName ≠ none
  inTime : c.expired = false

def Bus.Returned (s : Bus β) (t : ℕ) (r : Result (Message β)) : Prop :=
  ∃ call, s.threads[t]? = some (.sync call) ∧ call.pc = .returned r

/-- The channel of `SendSync` is not in the map yet. -/
def Thread.early : Thread β → Bool
  | .sync c =>
    match c.pc with
    | .sending | .register | .registering => true
    | .waiting | .leave _ | .leaving _ | .returned _ => false
  | .group _ | .resp _ _ => false

def Bus.Fresh (s : Bus β) (id : GoString) : Prop :=
  ∀ th ∈ s.threads, th.request ≠ some id ∧ th.answers ≠ some id

/-- A condition on a step, in the state before it: requests have new ids, and a response is sent
when the channel for it is in the map. -/
def Prompt (s : Bus β) : Event β → Prop
  | .sendSync _ m | .sendToGroupSync _ m => s.Fresh m.id
  | .next t =>
    match s.threads[t]? with
    | some (.resp m .start) =>
      ∀ th ∈ s.threads, th.request = some m.parentID → th.early = false
    | _ => True
  | _ => True

instance (s : Bus β) (id : GoString) : Decidable (s.Fresh id) := by
  unfold Bus.Fresh
  infer_instance

instance (s : Bus β) : ∀ ev : Event β, Decidable (Prompt s ev)
  | .sendSync _ m | .sendToGroupSync _ m => inferInstanceAs (Decidable (s.Fresh m.id))
  | .next t => by
    unfold Prompt
    dsimp only
    rcases s.threads[t]? with _ | _ | _ | ⟨m, _ | _ | _ | _⟩
    case some.resp.start => infer_instance
    all_goals exact .isTrue trivial
  | .send .. | .receive _ | .sendResp _ | .expire _ | .timeout _ | .deliver .. | .giveUp .. =>
    .isTrue trivial

def RespPc.done : RespPc → Bool
  | .leave | .returned => true
  | .start | .sending _ => false

/-- What a step keeps of a thread. -/
inductive Thread.Evolves : Thread β → Thread β → Prop
  | sync (c c' : SyncCall β) (hmodule : c'.moduleName = c.moduleName)
    (hmessage : c'.message = c.message) (hexpired : c.expired = true → c'.expired = true)
    (hresult : ∀ r, c.pc.result = some r → c'.pc.result = some r) :
    Evolves (.sync c) (.sync c')
  | group (g g' : GroupCall β) (hmessage : g'.message = g.message) :
    Evolves (.group g) (.group g')
  | resp (m : Message β) (pc pc' : RespPc) (h : pc.done = true → pc'.done = true) :
    Evolves (.resp m pc) (.resp m pc')

section Evolves
variable {s s' : Bus β} {t : ℕ} {th th' : Thread β}

theorem Thread.Evolves.refl (th : Thread β) : th.Evolves th := by
  cases th with
  | sync c => exact .sync c c rfl rfl id fun _ => id
  | group g => exact .group g g rfl
  | resp m pc => exact .resp m pc pc id

theorem Thread.Evolves.trans {th'' : Thread β} (h : th.Evolves th') (h' : th'.Evolves th'') :
    th.Evolves th'' := by
  cases h with
  | sync c c' hmodule hmessage hexpired hresult =>
    cases h' with
    | sync _ c'' hmodule' hmessage' hexpired' hresult' =>
      exact .sync c c'' (hmodule'.trans hmodule) (hmessage'.trans hmessage)
        (fun h => hexpired' (hexpired h)) fun r h => hresult' r (hresult r h)
  | group g g' hmessage =>
    cases h' with
    | group _ g'' hmessage' => exact .group g g'' (hmessage'.trans hmessage)
  | resp m pc pc' hdone =>
    cases h' with
    | resp _ _ pc'' hdone' => exact .resp m pc pc'' fun h => hdone' (hdone h)

theorem Thread.Evolves.request (h : th.Evolves th') : th'.request = th.request := by
  cases h with
  | sync c c' hmodule hmessage | group g g' hmessage =>
    rw [Thread.request, Thread.request, hmessage]
  | resp => rfl

theorem Thread.Evolves.answers (h : th.Evolves th') : th'.answers = th.answers := by
  cases h <;> rfl

theorem Thread.Turn.evolves (h : th.Turn s t ev th') : th.Evolves th' := by
  cases h with
  | sent c hpc | lock c hpc | sendTimeout c err hpc | respTimeout c err hpc =>
    refine .sync _ _ rfl rfl id ?_
    rw [hpc]
    rintro _ ⟨⟩
  | relock c r hpc hw =>
    refine .sync _ _ rfl rfl id ?_
    rw [hpc]
    exact fun _ => id
  | expire c => exact .sync _ _ rfl rfl (fun _ => rfl) fun _ => id
  | group ev g g' hg => exact .group g g' hg.message
  | found m c | missed m => exact .resp m _ _ fun h => by cases h
  | unlock m => exact .resp m _ _ fun _ => rfl

theorem Thread.Registers.evolves (h : th.Registers th') : th.Evolves th' := by
  cases h with
  | sync c hpc =>
    refine .sync _ _ rfl rfl id ?_
    rw [hpc]
    rintro _ ⟨⟩
  | group g hpc => exact .group _ _ rfl

theorem Thread.Removes.evolves (h : th.Removes th') : th.Evolves th' := by
  cases h with
  | sync c r hpc =>
    refine .sync _ _ rfl rfl id ?_
    rw [hpc]
    exact fun _ => id
  | group g b hpc => exact .group _ _ rfl

theorem Thread.Accepts.evolves (h : th.Accepts m th') : th.Evolves th' := by
  cases h with
  | sync c hpc =>
    refine .sync _ _ rfl rfl id ?_
    rw [hpc]
    rintro _ ⟨⟩
  | group g hg => exact .group _ _ rfl

/-- The threads go on. -/
structure Follows (s s' : Bus β) : Prop where
  forth : ∀ (i : ℕ) (th : Thread β), s.threads[i]? = some th →
    ∃ th', s'.threads[i]? = some th' ∧ th.Evolves th'
  back : ∀ (i : ℕ) (th' : Thread β), s'.threads[i]? = some th' →
    ∃ th, s.threads[i]? = some th ∧ th.Evolves th'

/-- The threads go on, and a thread that comes is a call. -/
structure Grows (s s' : Bus β) (ev : Event β) : Prop where
  forth : ∀ (i : ℕ) (th : Thread β), s.threads[i]? = some th →
    ∃ th', s'.threads[i]? = some th' ∧ th.Evolves th'
  back : ∀ (i : ℕ) (th' : Thread β), s'.threads[i]? = some th' →
    (∃ th, s.threads[i]? = some th ∧ th.Evolves th') ∨
      i = s.threads.length ∧ th'.Starts s ∧ th'.request = ev.request

theorem Follows.grows (h : Follows s s') (ev : Event β) : Grows s s' ev :=
  ⟨h.forth, fun i th hi => .inl (h.back i th hi)⟩

theorem Follows.trans {s'' : Bus β} (h : Follows s s') (h' : Follows s' s'') : Follows s s'' := by
  constructor
  · intro i th hi
    obtain ⟨th₁, h₁, he₁⟩ := h.forth i th hi
    obtain ⟨th₂, h₂, he₂⟩ := h'.forth i th₁ h₁
    exact ⟨th₂, h₂, he₁.trans he₂⟩
  · intro i th hi
    obtain ⟨th₁, h₁, he₁⟩ := h'.back i th hi
    obtain ⟨th₂, h₂, he₂⟩ := h.back i th₁ h₁
    exact ⟨th₂, h₂, he₂.trans he₁⟩

theorem follows_set (hth : s.threads[t]? = some th) (h : th.Evolves th') :
    Follows s (s.set t th') := by
  constructor
  · intro i thi hi
    rw [getElem?_set_of hth]
    split_ifs with hit
    · rw [hit, hth] at hi
      cases hi
      exact ⟨th', rfl, h⟩
    · exact ⟨thi, hi, .refl thi⟩
  · intro i thi hi
    obtain ⟨rfl, rfl⟩ | hold := Threads.get_set hth hi
    · exact ⟨th, hth, h⟩
    · exact ⟨thi, hold, .refl thi⟩

theorem grows_call (hstarts : th.Starts s) (hid : th.request = ev.request) :
    Grows s (s.call th) ev := by
  constructor
  · intro i thi hi
    exact ⟨thi, Threads.getElem?_append_of hi th, .refl thi⟩
  · intro i thi hi
    obtain hold | ⟨hlast, rfl⟩ := Threads.get_append hi
    · exact .inl ⟨thi, hold, .refl thi⟩
    · exact .inr ⟨hlast, hstarts, hid⟩

theorem move_grows (h : Move s ev s') : Grows s s' ev := by
  cases h with
  | outside ev channels hsame =>
    exact ⟨fun i th hi => ⟨th, hi, .refl th⟩, fun i th hi => .inl ⟨th, hi, .refl th⟩⟩
  | call ev th hstarts hid => exact grows_call hstarts hid
  | turn ev channels hsame t th th' hth hturn =>
    exact { (follows_set hth hturn.evolves).grows ev with }
  | register t th th' id hth hfinishes hid hreads | remove t th th' id hth hfinishes hid hreads =>
    exact { (follows_set hth hfinishes.evolves).grows (.next t) with }
  | hand t c m th th' ht hc haccepts =>
    have ht' := sender_set ht hc haccepts
    have hleave : (Thread.resp m (.sending c)).Evolves (.resp m .leave) :=
      .resp m _ _ fun h => by cases h
    exact ((follows_set hc haccepts.evolves).trans (follows_set ht' hleave)).grows _

theorem move_known (h : Move s ev s') (name : GoString) :
    s'.channels.lookup name = none ↔ s.channels.lookup name = none := by
  cases h with
  | outside ev channels hsame | turn ev channels hsame => exact hsame name
  | _ => rfl

end Evolves

/-- Requests have ids of their own, and the map has the channels of the calls that are between
their two critical sections. -/
structure Mapped (s : Bus β) : Prop where
  unique : Threads.Distinct Thread.request s.threads
  mapped : Threads.Registered Thread.request Thread.registered s.anonChannels s.threads
  aimed : ∀ (r : ℕ) (m : Message β) (c : ℕ), s.threads[r]? = some (.resp m (.sending c)) →
    ∃ th : Thread β, s.threads[c]? = some th ∧ th.request = some m.parentID

/-- A call fails when it is late, and returns a response that was sent for it. -/
structure Honest (s : Bus β) : Prop where
  failed : ∀ (t : ℕ) (c : SyncCall β) err, s.threads[t]? = some (.sync c) →
    c.pc.result = some (.error err) →
    c.expired = true ∨ s.channels.lookup c.moduleName = none
  got : ∀ (t : ℕ) (c : SyncCall β) (m : Message β), s.threads[t]? = some (.sync c) →
    c.pc.result = some (.ok m) →
    ∃ (r : ℕ) (pc : RespPc), s.threads[r]? = some (.resp m pc) ∧ pc.done = true ∧
      m.parentID = c.message.id

def Bus.Again (s : Bus β) (r : ℕ) (id : GoString) : Prop :=
  ∃ (r' : ℕ) (th : Thread β), r' ≠ r ∧ s.threads[r']? = some th ∧ th.answers = some id

/-- A response that has been sent has been taken, unless it was late or not the only one. -/
def Taken (s : Bus β) : Prop :=
  ∀ (t r : ℕ) (c : SyncCall β) (m : Message β) (pc : RespPc), s.threads[t]? = some (.sync c) →
    s.threads[r]? = some (.resp m pc) → pc.done = true → m.parentID = c.message.id →
    c.pc.result = some (.ok m) ∨ c.expired = true ∨ s.channels.lookup c.moduleName = none ∨
      s.Again r c.message.id

section Steps
variable {s s' : Bus β} {t : ℕ} {th th' : Thread β} {c' : SyncCall β}

theorem Thread.Turn.registered (h : th.Turn s t ev th') : th'.registered = th.registered := by
  cases h with
  | sent c hpc | lock c hpc | relock c r hpc | sendTimeout c err hpc | respTimeout c err hpc =>
    simp [Thread.registered, hpc, SyncPc.registered]
  | group ev g g' hg => exact hg.registered
  | _ => rfl

theorem Prompt.fresh (hev : Prompt s ev) {id : GoString} (hid : ev.request = some id) :
    s.Fresh id := by
  cases ev with
  | sendSync name m | sendToGroupSync type m =>
    rw [← Option.some.inj hid]
    exact hev
  | _ => cases hid

theorem unique_move (h : Mapped s) (hev : Prompt s ev) (hmove : Move s ev s') :
    Threads.Distinct Thread.request s'.threads := by
  cases hmove with
  | outside ev channels hsame => exact h.unique
  | call ev th hstarts hid =>
    apply h.unique.append
    intro x hx id hrequest
    exact (hev.fresh (hid.symm.trans hrequest) x hx).1
  | turn ev channels hsame t th th' hth hturn => exact h.unique.set hth hturn.evolves.request
  | register t th th' id hth hfinishes hid hreads | remove t th th' id hth hfinishes hid hreads =>
    exact h.unique.set hth hfinishes.evolves.request
  | hand t c m th th' ht hc haccepts =>
    exact (h.unique.set hc haccepts.evolves.request).set (sender_set ht hc haccepts) rfl

theorem mapped_move (h : Mapped s) (hmove : Move s ev s') :
    Threads.Registered Thread.request Thread.registered s'.anonChannels s'.threads := by
  cases hmove with
  | outside ev channels hsame => exact h.mapped
  | call ev th hstarts hid =>
    apply h.mapped.append
    cases hstarts with
    | group g hchan hpc =>
      obtain hpc | ⟨r, hpc⟩ := hpc <;> rw [Thread.registered, hpc] <;> rfl
    | _ => rfl
  | turn ev channels hsame t th th' hth hturn =>
    exact h.mapped.set hth hturn.evolves.request hturn.registered
  | register t th th' id hth hregisters hid hreads =>
    refine h.mapped.insert h.unique hth hregisters.evolves.request ?_ hid
    cases hregisters <;> rfl
  | remove t th th' id hth hremoves hid hreads =>
    refine h.mapped.erase h.unique hth ?_ hid
    cases hremoves <;> rfl
  | hand t c m th th' ht hc haccepts =>
    have hkept : th'.registered = th.registered := by
      cases haccepts with
      | sync call hpc => simp [Thread.registered, hpc, SyncPc.registered]
      | group g hg => rfl
    exact (h.mapped.set hc haccepts.evolves.request hkept).set (sender_set ht hc haccepts) rfl rfl

theorem sending_back (hmove : Move s ev s') {c : ℕ}
    (h : s'.threads[r]? = some (.resp m (.sending c))) :
    s.threads[r]? = some (.resp m (.sending c)) ∨ s.anonChannels.lookup m.parentID = some c := by
  cases hmove with
  | outside ev channels hsame => exact .inl h
  | call ev th hstarts hid =>
    obtain hold | hnew := Threads.get_append h
    · exact .inl hold
    · rw [← hnew.2] at hstarts
      cases hstarts
  | turn ev channels hsame t th th' hth hturn =>
    obtain ⟨rfl, rfl⟩ | hold := Threads.get_set hth h
    · cases hturn with
      | found m c hw hc => exact .inr hc
    · exact .inl hold
  | register t th th' id hth hfinishes hid hreads | remove t th th' id hth hfinishes hid hreads =>
    obtain ⟨rfl, rfl⟩ | hold := Threads.get_set hth h
    · cases hfinishes
    · exact .inl hold
  | hand t d m' th th' ht hd haccepts =>
    obtain ⟨rfl, hleave⟩ | hold := Threads.get_set (sender_set ht hd haccepts) h
    · cases hleave
    · obtain ⟨rfl, rfl⟩ | hold := Threads.get_set hd hold
      · cases haccepts
      · exact .inl hold

theorem done_back (hmove : Move s ev s') {pc : RespPc} (h : s'.threads[r]? = some (.resp m pc))
    (hdone : pc.done = true) :
    (∃ pc, s.threads[r]? = some (.resp m pc) ∧ pc.done = true) ∨
    (ev = .next r ∧ s.threads[r]? = some (.resp m .start) ∧
      s.anonChannels.lookup m.parentID = none) ∨
    ∃ (c : ℕ) (th th' : Thread β), s.threads[r]? = some (.resp m (.sending c)) ∧
      s.threads[c]? = some th ∧ s'.threads[c]? = some th' ∧ th.Accepts m th' := by
  cases hmove with
  | outside ev channels hsame => exact .inl ⟨pc, h, hdone⟩
  | call ev th hstarts hid =>
    obtain hold | hnew := Threads.get_append h
    · exact .inl ⟨pc, hold, hdone⟩
    · rw [← hnew.2] at hstarts
      cases hstarts
      cases hdone
  | turn ev channels hsame t th th' hth hturn =>
    obtain ⟨rfl, rfl⟩ | hold := Threads.get_set hth h
    · cases hturn with
      | found m c hw hc => cases hdone
      | missed m hw hc => exact .inr (.inl ⟨rfl, hth, hc⟩)
      | unlock m => exact .inl ⟨.leave, hth, rfl⟩
    · exact .inl ⟨pc, hold, hdone⟩
  | register t th th' id hth hfinishes hid hreads | remove t th th' id hth hfinishes hid hreads =>
    obtain ⟨rfl, rfl⟩ | hold := Threads.get_set hth h
    · cases hfinishes
    · exact .inl ⟨pc, hold, hdone⟩
  | hand t d m' th th' ht hd haccepts =>
    have ht' := sender_set ht hd haccepts
    obtain ⟨rfl, hleave⟩ | hold := Threads.get_set ht' h
    · cases hleave
      refine .inr (.inr ⟨d, th, th', ht, hd, ?_, haccepts⟩)
      rw [getElem?_set_of ht', if_neg (hand_ne ht hd haccepts).symm, getElem?_set_of hd, if_pos rfl]
    · obtain ⟨rfl, rfl⟩ | hold := Threads.get_set hd hold
      · cases haccepts
      · exact .inl ⟨pc, hold, hdone⟩

theorem result_back (hmove : Move s ev s') {x : Result (Message β)}
    (h : s'.threads[t]? = some (.sync c')) (hresult : c'.pc.result = some x) :
    (∃ c, s.threads[t]? = some (.sync c) ∧ (Thread.sync c).Evolves (.sync c') ∧
      c.pc.result = some x) ∨
    ((∃ err, x = .error err) ∧
      (c'.expired = true ∨ s.channels.lookup c'.moduleName = none)) ∨
    ∃ (r : ℕ) (m : Message β), x = .ok m ∧ s.threads[r]? = some (.resp m (.sending t)) ∧
      s'.threads[r]? = some (.resp m .leave) := by
  cases hmove with
  | outside ev channels hsame => exact .inl ⟨c', h, .refl _, hresult⟩
  | call ev th hstarts hid =>
    obtain hold | hnew := Threads.get_append h
    · exact .inl ⟨c', hold, .refl _, hresult⟩
    · rw [← hnew.2] at hstarts
      cases hstarts with
      | sync name m => cases hresult
      | unknown name m err hname =>
        cases hresult
        exact .inr (.inl ⟨⟨err, rfl⟩, .inr hname⟩)
  | turn ev channels hsame t' th th' hth hturn =>
    obtain ⟨rfl, rfl⟩ | hold := Threads.get_set hth h
    · have hevolves := hturn.evolves
      cases hturn with
      | sent c hpc | lock c hpc hw => cases hresult
      | relock c r hpc hw =>
        exact .inl ⟨c, hth, hevolves, by rw [hpc]; exact hresult⟩
      | expire c => exact .inl ⟨c, hth, hevolves, hresult⟩
      | sendTimeout c err hpc hexpired | respTimeout c err hpc hexpired =>
        cases hresult
        exact .inr (.inl ⟨⟨err, rfl⟩, .inl hexpired⟩)
    · exact .inl ⟨c', hold, .refl _, hresult⟩
  | register t' th th' id hth hregisters hid hreads =>
    obtain ⟨rfl, rfl⟩ | hold := Threads.get_set hth h
    · cases hregisters
      cases hresult
    · exact .inl ⟨c', hold, .refl _, hresult⟩
  | remove t' th th' id hth hremoves hid hreads =>
    obtain ⟨rfl, rfl⟩ | hold := Threads.get_set hth h
    · have hevolves := hremoves.evolves
      cases hremoves with
      | sync c r hpc => exact .inl ⟨c, hth, hevolves, by rw [hpc]; exact hresult⟩
    · exact .inl ⟨c', hold, .refl _, hresult⟩
  | hand r d m th th' hr hd haccepts =>
    have hr' := sender_set hr hd haccepts
    obtain ⟨rfl, hleave⟩ | hold := Threads.get_set hr' h
    · cases hleave
    · obtain ⟨rfl, rfl⟩ | hold := Threads.get_set hd hold
      · cases haccepts with
        | sync c hpc =>
          cases hresult
          refine .inr (.inr ⟨r, m, rfl, hr, ?_⟩)
          rw [getElem?_set_of hr', if_pos rfl]
      · exact .inl ⟨c', hold, .refl _, hresult⟩

theorem move_mapped (h : Mapped s) (hev : Prompt s ev) (hmove : Move s ev s') : Mapped s' where
  unique := unique_move h hev hmove
  mapped := mapped_move h hmove
  aimed := by
    intro r m c hr
    have hold : ∃ th : Thread β, s.threads[c]? = some th ∧ th.request = some m.parentID := by
      obtain hr | hc := sending_back hmove hr
      · exact h.aimed r m c hr
      · obtain ⟨th, hth, -, hrequest⟩ := (h.mapped _ _).mp hc
        exact ⟨th, hth, hrequest⟩
    obtain ⟨th, hth, hrequest⟩ := hold
    obtain ⟨th', hth', hevolves⟩ := (move_grows hmove).forth c th hth
    exact ⟨th', hth', hevolves.request.trans hrequest⟩

theorem move_honest (h : Honest s) (hmapped : Mapped s) (hmove : Move s ev s') : Honest s' where
  failed := by
    intro t c' err hc' hresult
    rw [move_known hmove]
    obtain ⟨c, hc, hevolves, hold⟩ | ⟨-, hfailed⟩ | ⟨r, m, hok, -⟩ :=
      result_back hmove hc' hresult
    · cases hevolves with
      | sync _ _ hmodule hmessage hexpired _ =>
        rw [hmodule]
        exact (h.failed t c err hc hold).imp hexpired id
    · exact hfailed
    · cases hok
  got := by
    intro t c' m hc' hresult
    obtain ⟨c, hc, hevolves, hold⟩ | ⟨⟨err, herr⟩, -⟩ | ⟨r, m', hok, hr, hr'⟩ :=
      result_back hmove hc' hresult
    · obtain ⟨r, pc, hr, hdone, hparent⟩ := h.got t c m hc hold
      obtain ⟨th', hr', hkept⟩ := (move_grows hmove).forth r _ hr
      cases hevolves with
      | sync _ _ _ hmessage _ _ =>
        cases hkept with
        | resp _ _ pc' hpc => exact ⟨r, pc', hr', hpc hdone, hmessage ▸ hparent⟩
    · cases herr
    · cases hok
      obtain ⟨th, hth, hrequest⟩ := hmapped.aimed r m t hr
      obtain ⟨th', hth', hevolves⟩ := (move_grows hmove).forth t th hth
      rw [hc'] at hth'
      cases hth'
      rw [← hevolves.request] at hrequest
      exact ⟨r, .leave, hr', rfl, (Option.some.inj hrequest).symm⟩

theorem taken_forth (hmove : Move s ev s') (hevolves : (Thread.sync c).Evolves (.sync c'))
    (h : c.pc.result = some (.ok m) ∨ c.expired = true ∨ s.channels.lookup c.moduleName = none ∨
      s.Again r c.message.id) :
    c'.pc.result = some (.ok m) ∨ c'.expired = true ∨
      s'.channels.lookup c'.moduleName = none ∨ s'.Again r c'.message.id := by
  cases hevolves with
  | sync _ _ hmodule hmessage hexpired hresult =>
    rw [move_known hmove, hmodule, hmessage]
    obtain hgot | hlate | hunknown | ⟨r', th, hne, hth, hanswers⟩ := h
    · exact .inl (hresult _ hgot)
    · exact .inr (.inl (hexpired hlate))
    · exact .inr (.inr (.inl hunknown))
    · obtain ⟨th', hth', hkept⟩ := (move_grows hmove).forth r' th hth
      exact .inr (.inr (.inr ⟨r', th', hne, hth', hkept.answers.trans hanswers⟩))

theorem result_of_missed (h : Mapped s) (hev : Prompt s (.next r))
    (hc : s.threads[t]? = some (.sync c)) (hr : s.threads[r]? = some (.resp m .start))
    (hparent : m.parentID = c.message.id) (hmissed : s.anonChannels.lookup m.parentID = none) :
    ∃ x, c.pc.result = some x := by
  have hrequest : (Thread.sync c).request = some m.parentID := by rw [hparent]; rfl
  have hearly : (Thread.sync c).early = false := by
    simp only [Prompt, hr] at hev
    exact hev _ (List.mem_of_getElem? hc) hrequest
  have hgone : (Thread.sync c).registered = false := by
    by_contra hregistered
    have hmap := (h.mapped m.parentID t).mpr ⟨_, hc, by simpa using hregistered, hrequest⟩
    rw [hmissed] at hmap
    cases hmap
  cases hpc : c.pc with
  | sending | register | registering =>
    simp [Thread.early, hpc] at hearly
  | waiting | leave x | leaving x =>
    simp [Thread.registered, hpc, SyncPc.registered] at hgone
  | returned x => exact ⟨x, rfl⟩

theorem move_taken (h : Taken s) (hmapped : Mapped s) (hhonest : Honest s) (hev : Prompt s ev)
    (hmove : Move s ev s') : Taken s' := by
  intro t r c' m pc' hc' hr' hdone' hparent
  have hgrows := move_grows hmove
  obtain ⟨th, hth, hevolves⟩ | ⟨-, -, hrequest⟩ := hgrows.back t _ hc'
  · cases hevolves with
    | sync c _ hmodule hmessage hexpired hresult =>
      have hkept : (Thread.sync c).Evolves (.sync c') :=
        .sync c c' hmodule hmessage hexpired hresult
      rw [hmessage] at hparent
      obtain ⟨pc, hr, hdone⟩ | ⟨rfl, hr, hmissed⟩ | ⟨x, thx, thx', hr, hx, hx', haccepts⟩ :=
        done_back hmove hr' hdone'
      · exact taken_forth hmove hkept (h t r c m pc hth hr hdone hparent)
      · apply taken_forth hmove hkept
        obtain ⟨x, hx⟩ := result_of_missed hmapped hev hth hr hparent hmissed
        cases x with
        | error err => exact .inr ((hhonest.failed t c err hth hx).imp id .inl)
        | ok m' =>
          obtain ⟨r', pc, hr₁, hdone, hparent'⟩ := hhonest.got t c m' hth hx
          refine .inr (.inr (.inr ⟨r', _, ?_, hr₁, congrArg some hparent'⟩))
          rintro rfl
          rw [hr] at hr₁
          cases hr₁
          cases hdone
      · obtain ⟨y, hy, hrequest⟩ := hmapped.aimed r m x hr
        have hxt : x = t :=
          hmapped.unique x t y _ m.parentID hy hth hrequest (by rw [hparent]; rfl)
        subst hxt
        rw [hc'] at hx'
        cases hx'
        cases haccepts
        exact .inl rfl
  · -- a new call: nobody has answered it yet
    exfalso
    obtain ⟨th, hr, hevolves⟩ | ⟨-, hstarts, -⟩ := hgrows.back r _ hr'
    · have hanswers : th.answers = some c'.message.id := by
        rw [← hevolves.answers, ← hparent]
        rfl
      have hfresh : s.Fresh c'.message.id := hev.fresh hrequest.symm
      exact (hfresh th (List.mem_of_getElem? hr)).2 hanswers
    · cases hstarts
      cases hdone'

end Steps

structure Kept (s : Bus β) : Prop where
  inv : Inv s
  mapped : Mapped s
  honest : Honest s
  taken : Taken s

theorem start_kept (channels : GoMap GoString (List (Message β)))
    (typeChannels : GoMap GoString (List GoString)) : Kept (Bus.mk channels typeChannels ∅ []) where
  inv := start_inv channels typeChannels
  mapped :=
    { unique := by simp [Threads.Distinct]
      mapped := by simp [Threads.Registered]
      aimed := by simp }
  honest :=
    { failed := by simp
      got := by simp }
  taken := by simp [Taken]

theorem step_kept {s s' : Bus β} (h : Kept s) (haccepting : Accepting s ev) (hprompt : Prompt s ev)
    (hstep : step s ev = some s') : Kept s' where
  inv := move_inv h.inv haccepting (step_move hstep)
  mapped := move_mapped h.mapped hprompt (step_move hstep)
  honest := move_honest h.honest h.mapped (step_move hstep)
  taken := move_taken h.taken h.mapped h.honest hprompt (step_move hstep)

theorem kept_along {s : Bus β} (h : Kept s)
    (halong : Along step (fun s ev => Accepting s ev ∧ Prompt s ev) s es) :
    Always step Kept s es := by
  apply always_of_along ?_ h halong
  intro s ev s' hs hev hstep
  exact step_kept hs hev.1 hev.2 hstep

section Returned
variable {s s' : Bus β} {t : ℕ}

def Bus.Got (s : Bus β) (t : ℕ) (m : Message β) : Prop :=
  ∃ c, s.threads[t]? = some (.sync c) ∧ c.pc.result = some (.ok m)

theorem step_got (h : s.Got t m) (hstep : step s ev = some s') : s'.Got t m := by
  obtain ⟨c, hc, hresult⟩ := h
  obtain ⟨th', hth', hevolves⟩ := (move_grows (step_move hstep)).forth t _ hc
  cases hevolves with
  | sync _ c' hmodule hmessage hexpired hkept => exact ⟨c', hth', hkept _ hresult⟩

theorem run_got (h : s.Got t m) (hrun : run step s es = some s') : s'.Got t m := by
  have halways : Always step (fun s => s.Got t m) s es := always_of_step
    (fun s ev s' hs hstep => step_got hs hstep) es h
  exact halways.last hrun

theorem Bus.AnsweredInTime.got (h : s.AnsweredInTime t r c m) (htaken : Taken s) : s.Got t m := by
  obtain hgot | hlate | hunknown | ⟨r', th, hne, hth, hanswers⟩ :=
    htaken t r c m .returned h.call h.resp rfl h.parentID
  · exact ⟨c, h.call, hgot⟩
  · rw [h.inTime] at hlate
    cases hlate
  · exact absurd hunknown h.known
  · -- without this response there would still be one
    exfalso
    have hcount := countP_set_of h.resp (.sync c) fun th => th.answers = some c.message.id
    have hself : (Thread.resp m .returned).answers = some c.message.id :=
      congrArg some h.parentID
    have hnone : (Thread.sync c).answers ≠ some c.message.id := by simp [Thread.answers]
    have hzero : (s.set r (.sync c)).threads.countP
        (fun th => th.answers = some c.message.id) = 0 := by
      simp only [hself, hnone, h.once, decide_true, decide_false, Bool.toNat_true,
        Bool.toNat_false] at hcount
      omega
    have hth' : (s.set r (.sync c)).threads[r']? = some th := by
      rw [getElem?_set_of h.resp, if_neg hne, hth]
    exact List.countP_eq_zero.mp hzero th (List.mem_of_getElem? hth') (by simpa using hanswers)

theorem returned_of_released (h : s.Got t m) (hfree : s.Released) :
    ∃ (ts : List ℕ) (s' : Bus β), run step s (ts.map .next) = some s' ∧
      s'.Returned t (.ok m) := by
  obtain ⟨c, hc, hresult⟩ := h
  cases hpc : c.pc with
  | sending | register | registering | waiting =>
    rw [hpc] at hresult
    cases hresult
  | leaving x =>
    have hwrites := List.any_eq_false.mp hfree.2 _ (List.mem_of_getElem? hc)
    simp [Thread.writes, hpc, SyncPc.writes] at hwrites
  | returned x =>
    rw [hpc] at hresult
    cases hresult
    exact ⟨[], s, rfl, c, hc, hpc⟩
  | leave x =>
    rw [hpc] at hresult
    cases hresult
    let c₁ : SyncCall β := { c with pc := .leaving (.ok m) }
    have hlock : step s (.next t) = some (s.set t (.sync c₁)) := by
      simp only [step, hc, Bus.nextSync, hpc, hfree.2]
      rfl
    have hc₁ : (s.set t (.sync c₁)).threads[t]? = some (.sync c₁) := by
      rw [getElem?_set_of hc, if_pos rfl]
    have hreads : (s.set t (.sync c₁)).reads = false := by
      have hcount := countP_set_of hc (.sync c₁) (·.reads)
      rw [reads_eq_false]
      exact (Nat.add_right_cancel hcount).trans ((reads_eq_false s).mp hfree.1)
    have hrun : run step s ([t, t].map .next) = some
        { (s.set t (.sync c₁)).set t (.sync { c₁ with pc := .returned (.ok m) }) with
          anonChannels := s.anonChannels.erase c.message.id } := by
      simp only [List.map_cons, List.map_nil, run, hlock, Option.bind_some]
      simp only [step, hc₁, Bus.nextSync, c₁, hreads]
      rfl
    exact ⟨_, _, hrun, _, (getElem?_set_of hc₁ t).trans (if_pos rfl), rfl⟩

end Returned

/-- If `SendResp` has been called once for a request and has returned before the deadline, then
`SendSync` returns that response: it returns nothing else, and it can return from every state
that follows. -/
theorem response_returned {channels : GoMap GoString (List (Message β))}
    {typeChannels : GoMap GoString (List GoString)} {es₁ es₂ : List (Event β)}
    (h : Along step (fun s ev => Accepting s ev ∧ Prompt s ev)
      (Bus.mk channels typeChannels ∅ []) (es₁ ++ es₂))
    {s₁ s₂ : Bus β} (h₁ : run step (Bus.mk channels typeChannels ∅ []) es₁ = some s₁)
    (h₂ : run step s₁ es₂ = some s₂) {t r : ℕ} {c : SyncCall β} {m : Message β}
    (hanswered : s₁.AnsweredInTime t r c m) :
    (∀ x, s₂.Returned t x → x = .ok m) ∧
      ∃ (ts : List ℕ) (s₃ : Bus β), run step s₂ (ts.map .next) = some s₃ ∧
        s₃.Returned t (.ok m) := by
  obtain ⟨halong₁, halong₂⟩ := h.after h₁
  have hkept₁ : Kept s₁ := (kept_along (start_kept channels typeChannels) halong₁).last h₁
  have hkept₂ : Kept s₂ := (kept_along hkept₁ halong₂).last h₂
  have hgot₂ : s₂.Got t m := run_got (hanswered.got hkept₁.taken) h₂
  constructor
  · rintro x ⟨c₂, hc₂, hpc⟩
    obtain ⟨c₂', hc₂', hresult⟩ := hgot₂
    rw [hc₂] at hc₂'
    cases hc₂'
    rw [hpc] at hresult
    exact Option.some.inj hresult
  · obtain ⟨ts, -, s', hrun, -, hfree⟩ := hkept₂.inv.releases
    obtain ⟨ts', s₃, hrun', hreturned⟩ := returned_of_released (run_got hgot₂ hrun) hfree
    refine ⟨ts ++ ts', s₃, ?_, hreturned⟩
    rw [List.map_append, run_append hrun, hrun']

namespace Sample

def responded : List (Event Unit) := waiting ++ [.sendResp response, .next 1, .next 1, .next 1]

/-- The module answers before the channel is in the map. -/
def early : List (Event Unit) :=
  [.sendSync (str "m") request, .next 0, .receive (str "m"), .sendResp response, .next 1, .next 1]

def timedOut : List (Event Unit) := [.next 0, .next 0, .expire 0, .timeout 0, .next 0, .next 0]

end Sample

open Sample

theorem response_returned_answered : ∃ s₁ s₂,
    run step start responded = some s₁ ∧ run step s₁ [.next 0] = some s₂ ∧
    s₁.AnsweredInTime 0 1 ⟨str "m", request, false, .leave (.ok response)⟩
      response ∧
    (∀ x, s₂.Returned 0 x → x = .ok response) ∧
      ∃ (ts : List ℕ) (s₃ : Bus Unit), run step s₂ (ts.map .next) = some s₃ ∧
        s₃.Returned 0 (.ok response) := by
  have halong : Along step (fun s ev => Accepting s ev ∧ Prompt s ev) start
      (responded ++ [.next 0]) := by
    apply along_of_check
    · intro s ev h
      exact of_decide_eq_true h
    · decide +kernel
  have hruns : ∃ s₁ s₂, run step start responded = some s₁ ∧
      run step s₁ [.next 0] = some s₂ ∧
      s₁.AnsweredInTime 0 1 ⟨str "m", request, false, .leave (.ok response)⟩
        response :=
    ⟨_, _, rfl, rfl, rfl, rfl, rfl, by decide +kernel, by decide +kernel, rfl⟩
  obtain ⟨s₁, s₂, h₁, h₂, hanswered⟩ := hruns
  exact ⟨s₁, s₂, h₁, h₂, hanswered, response_returned halong h₁ h₂ hanswered⟩

/-- A response that is sent before the channel is in the map is lost, and the call times out. -/
theorem response_lost : ∃ s₁ s₂,
    run step start early = some s₁ ∧ run step s₁ timedOut = some s₂ ∧
    s₁.AnsweredInTime 0 1 ⟨str "m", request, false, .register⟩ response ∧
    s₂.Returned 0 (.error (str "timeout to get response")) := by
  refine ⟨_, _, rfl, rfl, ?_, ?_⟩
  · exact ⟨rfl, rfl, rfl, by decide +kernel, by decide +kernel, rfl⟩
  · exact ⟨_, rfl, rfl⟩

end KubeEdge.Beehive
