import KubeEdge.DeviceTwin.Deal
import KubeEdge.Go.Machine

namespace KubeEdge.DeviceTwin.Confirm
open Go Machine

inductive Content
  | text (s : GoString)
  | bytes (s : GoString)
  /-- `DeviceTwinResult`. -/
  | twins (twin : GoMap GoString MsgTwin)

structure Message where
  id : GoString
  parentID : GoString := []
  source : GoString := []
  group : GoString := []
  resource : GoString := []
  operation : GoString := []
  content : Content := .text []

/-- The names that `dtcommon` has for actions; a message may be left without one. -/
inductive Action
  | memDetailResult
  | memGet
  | memUpdated
  | twinGet
  | twinUpdate
  | twinCloudSync
  | deviceUpdated
  | deviceStateGet
  | deviceStateUpdate
  | sendToEdge
  | sendToCloud
  | lifeCycle
  | confirm
  | unset
  deriving DecidableEq, Repr

structure DTMessage where
  action : Action
  identity : GoString := []
  msg : Message

/-- `ActionModuleMap`, for `CommModule`. -/
def Action.toComm : Action → Bool
  | .lifeCycle | .confirm => true
  | _ => false

/-- `EventActionMap`. -/
def eventAction (pre suffix : GoString) : Option Action :=
  if pre = str "$hw/events/node/" then
    if suffix = str "/membership/detail/result" then some .memDetailResult
    else if suffix = str "/membership/updated" then some .memUpdated
    else if suffix = str "/membership/get" then some .memGet
    else none
  else if pre = str "$hw/events/device/" then
    if suffix = str "/state/get" then some .deviceStateGet
    else if suffix = str "/updated" then some .deviceUpdated
    else if suffix = str "/state/update" then some .deviceStateUpdate
    else if suffix = str "/twin/update" then some .twinUpdate
    else if suffix = str "/twin/cloud_updated" then some .twinCloudSync
    else if suffix = str "/twin/get" then some .twinGet
    else none
  else none

/-- The topic of a message from the event bus. -/
def classifyTopic (topic : GoString) : M (Option (Action × GoString)) :=
  let parts := split 47 topic
  if parts.length = 4 then
    if (str "$hw/events/connected/").isPrefixOf topic ||
        (str "$hw/events/disconnected/").isPrefixOf topic then .ok (some (.lifeCycle, []))
    else .ok none
  else
    match parts[3]? with
    | none => .error .indexOutOfRange
    | some identity =>
      let loc := index topic identity
      .ok ((eventAction (topic.take loc) (topic.drop (loc + identity.length))).map (·, identity))

/-- The resource and the operation of a message from the cloud; the content becomes bytes. -/
def classifyCloud (m : Message) : M (Option (Action × GoString)) :=
  if contains m.resource (str "membership/detail") then .ok (some (.memDetailResult, []))
  else if contains m.resource (str "membership") then .ok (some (.memUpdated, []))
  else if contains m.resource (str "twin/cloud_updated") then
    match (split 47 m.resource)[1]? with
    | none => .error .indexOutOfRange
    | some identity => .ok (some (.twinCloudSync, identity))
  else if contains m.operation (str "updated") then
    match split 47 m.resource with
    | [device, identity] =>
      .ok (some (if device = str "device" then (.deviceUpdated, identity) else (.unset, [])))
    | _ => .ok (some (.unset, []))
  else .ok none

section

-- `base64.URLEncoding.DecodeString`
variable (decodeString : GoString → Option GoString)

def classifyMsg (m : Message) : M (Option DTMessage) :=
  if m.source = str "bus" then
    match decodeString m.resource with
    | none => .ok none
    | some topic => do
      match ← classifyTopic topic, m.content with
      | none, _ => .ok none
      | some (action, identity), .text s =>
        .ok (some ⟨action, identity, { m with content := .bytes s }⟩)
      | some _, _ => .error .typeAssertion
  else if m.source = str "edgemgr" ∨ m.source = str "devicecontroller" then do
    let action ← classifyCloud m
    .ok (action.map fun (action, identity) => ⟨action, identity, m⟩)
  else if m.source = str "edgehub" ∧ m.resource = str "node/connection" then
    .ok (some ⟨.lifeCycle, [], m⟩)
  else .ok none

end

inductive State
  | connected
  | disconnected
  deriving DecidableEq, Repr

structure Edge where
  state : State := .disconnected
  confirmMap : GoMap GoString DTMessage := ∅
  /-- The channel of the communication worker. -/
  comm : List DTMessage := []
  /-- What was sent to the device twin module; `SendToGroup` keeps no order. -/
  twin : List Message := []
  /-- The channel of the edge hub. -/
  hub : List Message := []
  /-- The ids of the messages that the module has made for the cloud. -/
  made : GoSet GoString := ∅
  /-- The ids of those whose response the edge hub has dispatched. -/
  answered : GoSet GoString := ∅

def dealSendToCloud (s : Edge) (m : Message) : Edge :=
  if s.state = .disconnected then s
  else { s with
    hub := s.hub ++ [m]
    confirmMap := s.confirmMap.insert m.id { action := .sendToCloud, msg := m } }

/-- The message of `detailRequest`; what it contains is not looked at here. -/
def detailMessage (uuid : GoString) : Message where
  id := uuid
  source := str "twin"
  group := str "resource"
  resource := str "membership/detail"
  operation := str "get"

def detailRequest (uuid : GoString) (s : Edge) : Edge :=
  { s with
    confirmMap := s.confirmMap.insert uuid { action := .sendToCloud, msg := detailMessage uuid }
    hub := s.hub ++ [detailMessage uuid]
    made := GoSet.add uuid s.made }

def dealLifeCycle (uuid : GoString) (s : Edge) (m : Message) : Edge :=
  match m.content with
  | .text info =>
    if info = str "cloud_connected" then
      { (if s.state = .disconnected then detailRequest uuid s else s) with state := .connected }
    else if info = str "cloud_disconnected" then { s with state := .disconnected }
    else s
  | _ => s

def dealConfirm (s : Edge) (m : Message) : Edge :=
  { s with confirmMap := s.confirmMap.erase m.parentID }

/-- `ActionCallBack`. -/
def callBack (uuid : GoString) (s : Edge) (m : DTMessage) : Edge :=
  match m.action with
  | .sendToCloud => dealSendToCloud s m.msg
  | .lifeCycle => dealLifeCycle uuid s m.msg
  | .confirm => dealConfirm s m.msg
  -- `dealSendToEdge`, or no callback
  | _ => s

/-- `Range` visits the keys in some order. -/
def checkConfirm (uuid : GoString) (s : Edge) (order : List GoString) : Edge :=
  order.foldl (fun s' key => (s.confirmMap.lookup key).elim s' (callBack uuid s')) s

/-- The groups that `dispatch` knows. -/
def groups : List GoString := [str "resource", str "twin", str "func", str "user", str "envoy"]

/-- A message from the cloud.  A response goes to the module that waits for it, if there is one. -/
def dispatch (s : Edge) (m : Message) : Edge :=
  if m.group ∉ groups then s
  else if m.parentID ≠ [] then
    if m.group = str "twin" ∧ m.parentID ∈ s.made then
      { s with answered := GoSet.add m.parentID s.answered }
    else s
  else if m.group = str "twin" then { s with twin := s.twin ++ [m] }
  else s

section

variable (decodeString : GoString → Option GoString)

def distributeMsg (s : Edge) (m : Message) : M Edge := do
  let s := if m.parentID ≠ [] then
      { s with comm := s.comm ++
        [{ action := .confirm, msg := { id := [], parentID := m.parentID } }] }
    else s
  match ← classifyMsg decodeString m with
  | none => .ok s
  | some dtMsg =>
    .ok (if dtMsg.action.toComm then { s with comm := s.comm ++ [dtMsg] } else s)

inductive Event
  /-- A worker hands over a message for the cloud or for the event bus. -/
  | send (m : DTMessage)
  /-- Another module, or the edge hub on its own account, sends to the device twin module. -/
  | publish (m : Message)
  | dispatch (m : Message)
  /-- The device twin module takes a message. -/
  | distribute (i : ℕ)
  /-- The communication worker takes a message; a detail request would have this id. -/
  | work (uuid : GoString)
  | checkConfirm (uuid : GoString) (order : List GoString)
  /-- The edge hub sends the next message. -/
  | routeToCloud

def step (s : Edge) : Event → Option Edge
  | .send m =>
    -- `NewMessage` gives every message an id of its own
    if (m.action = .sendToCloud ∨ m.action = .sendToEdge) ∧ m.msg.id ∉ s.made then
      some { s with comm := s.comm ++ [m], made := GoSet.add m.msg.id s.made }
    else none
  | .publish m =>
    -- such messages are no responses
    if m.parentID = [] then some { s with twin := s.twin ++ [m] } else none
  | .dispatch m => some (dispatch s m)
  | .distribute i =>
    (s.twin[i]?).bind fun m =>
      (distributeMsg decodeString { s with twin := s.twin.eraseIdx i } m).toOption
  | .work uuid =>
    match s.comm with
    | [] => none
    | m :: comm => if uuid ∈ s.made then none else some (callBack uuid { s with comm := comm } m)
  | .checkConfirm uuid order =>
    if order.Perm s.confirmMap.keys then some (checkConfirm uuid s order) else none
  | .routeToCloud => some { s with hub := s.hub.tail }

/-- All queues are empty. -/
def Idle (s : Edge) : Prop := s.comm = [] ∧ s.twin = [] ∧ s.hub = []

/-- The messages that `checkConfirm` sends. -/
def resent (s : Edge) : Event → List Message
  | .checkConfirm uuid order => (checkConfirm uuid s order).hub.drop s.hub.length
  | _ => []

/-- The message is not in `ConfirmMap`, and `checkConfirm` never sends it again. -/
structure Retired (s : Edge) (id : GoString) : Prop where
  gone : id ∉ s.confirmMap
  silent : ∀ es, Along (step decodeString) (fun s e => ∀ m ∈ resent s e, m.id ≠ id) s es

def Message.connects (m : Message) : Bool :=
  match m.content with
  | .text info => info = str "cloud_connected"
  | _ => false

/-- The id of the message that the worker sends when it takes a message. -/
def sentId (state : State) (uuid : GoString) (m : DTMessage) : Option GoString :=
  match m.action, state with
  | .sendToCloud, .connected => some m.msg.id
  -- the detail request after a reconnection
  | .lifeCycle, .disconnected => if m.msg.connects then some uuid else none
  | _, _ => none

/-- The worker takes a message and sends the one with this id. -/
def sends (s : Edge) (id : GoString) : Event → Bool
  | .work uuid => s.comm.head?.bind (sentId s.state uuid) = some id
  | _ => false

end

/-- Messages for the cloud are stored under their ids. -/
def StoredById (confirmMap : GoMap GoString DTMessage) : Prop :=
  ∀ key m, confirmMap.lookup key = some m → m.action = .sendToCloud ∧ m.msg.id = key

theorem StoredById.insert {confirmMap : GoMap GoString DTMessage} (h : StoredById confirmMap)
    (m : Message) : StoredById (confirmMap.insert m.id { action := .sendToCloud, msg := m }) := by
  exact GoMap.forall_insert h ⟨rfl, rfl⟩

/-- What a round of `checkConfirm` does. -/
structure Resent (s s' : Edge) : Prop where
  state : s'.state = s.state
  comm : s'.comm = s.comm
  twin : s'.twin = s.twin
  made : s'.made = s.made
  answered : s'.answered = s.answered
  stored : StoredById s'.confirmMap
  mem : ∀ id, id ∈ s'.confirmMap ↔ id ∈ s.confirmMap
  hub : ∃ sent, s'.hub = s.hub ++ sent ∧ ∀ m ∈ sent, m.id ∈ s.confirmMap

variable {m : Message} {a : Action} {e : Event} {s : Edge}

theorem Resent.send {s' : Edge} (h : Resent s s') (hm : m.id ∈ s.confirmMap) :
    Resent s (dealSendToCloud s' m) := by
  unfold dealSendToCloud
  by_cases hstate : s'.state = .disconnected
  · rw [if_pos hstate]
    exact h
  · rw [if_neg hstate]
    obtain ⟨sent, hhub, hsent⟩ := h.hub
    refine ⟨h.state, h.comm, h.twin, h.made, h.answered, h.stored.insert m, ?_, sent ++ [m], ?_, ?_⟩
    · intro id
      rw [AList.mem_insert, h.mem]
      constructor
      · rintro (rfl | hid)
        · exact hm
        · exact hid
      · exact .inr
    · rw [hhub, List.append_assoc]
    · exact forall_mem_snoc hsent hm

theorem checkConfirm_resent (h : StoredById s.confirmMap) (uuid : GoString)
    (order : List GoString) :
    Resent s (checkConfirm uuid s order) := by
  have hfold : ∀ s', Resent s s' → Resent s (order.foldl
      (fun s' key => (s.confirmMap.lookup key).elim s' (callBack uuid s')) s') := by
    induction order with
    | nil => exact fun _ hs' => hs'
    | cons key order ih =>
      intro s' hs'
      apply ih
      change Resent s ((s.confirmMap.lookup key).elim s' (callBack uuid s'))
      cases hkey : s.confirmMap.lookup key with
      | none => exact hs'
      | some m =>
        obtain ⟨haction, hid⟩ := h key m hkey
        have hmem : m.msg.id ∈ s.confirmMap := by
          rw [hid]
          exact GoMap.mem_iff_lookup.mpr ⟨m, hkey⟩
        simp only [Option.elim_some, callBack, haction]
        exact hs'.send hmem
  exact hfold s ⟨rfl, rfl, rfl, rfl, rfl, h, fun _ => Iff.rfl, [], by simp, by simp⟩

/-- No confirmation is under way. -/
structure Unconfirmed (s : Edge) : Prop where
  twin : ∀ m ∈ s.twin, m.parentID = []
  comm : ∀ m ∈ s.comm, m.action ≠ .confirm
  stored : StoredById s.confirmMap

section

variable {decodeString : GoString → Option GoString} {s' : Edge} {identity id : GoString}
  {es : List Event}

/-- The actions of messages that come from other modules. -/
def Action.incoming : Action → Bool
  | .sendToEdge | .sendToCloud | .confirm => false
  | _ => true

theorem eventAction_incoming {pre suffix : GoString} (h : eventAction pre suffix = some a) :
    a.incoming = true := by
  unfold eventAction at h
  split_ifs at h <;> cases h <;> rfl

theorem classifyTopic_incoming {topic : GoString}
    (h : classifyTopic topic = .ok (some (a, identity))) : a.incoming = true := by
  unfold classifyTopic at h
  dsimp only at h
  split_ifs at h
  · cases h
    rfl
  · cases h
  · cases hparts : (split 47 topic)[3]? with
    | none =>
      rw [hparts] at h
      cases h
    | some part =>
      rw [hparts] at h
      obtain ⟨a', ha', heq⟩ := Option.map_eq_some_iff.mp (Except.ok.inj h)
      cases heq
      exact eventAction_incoming ha'

theorem classifyCloud_incoming (h : classifyCloud m = .ok (some (a, identity))) :
    a.incoming = true := by
  unfold classifyCloud at h
  split_ifs at h
  · cases h
    rfl
  · cases h
    rfl
  · split at h
    · cases h
    · cases h
      rfl
  · split at h
    · split_ifs at h <;> cases h <;> rfl
    · cases h
      rfl
  · cases h

theorem classifyMsg_incoming {dtMsg : DTMessage}
    (h : classifyMsg decodeString m = .ok (some dtMsg)) :
    dtMsg.action.incoming = true := by
  unfold classifyMsg at h
  split_ifs at h
  · split at h
    · cases h
    · obtain ⟨topic, htopic, h⟩ := ok_of_bind h
      split at h
      · cases h
      · cases h
        exact classifyTopic_incoming htopic
      · cases h
  · obtain ⟨action, haction, h⟩ := ok_of_bind h
    obtain ⟨⟨a, identity⟩, rfl, rfl⟩ := Option.map_eq_some_iff.mp (Except.ok.inj h)
    exact classifyCloud_incoming haction
  · cases h
    rfl
  · cases h

/-- A message that is no response adds at most itself to the channel of the worker. -/
theorem distributeMsg_spec (hm : m.parentID = []) (h : distributeMsg decodeString s m = .ok s') :
    ∃ ms, s' = { s with comm := s.comm ++ ms } ∧ ∀ m' ∈ ms, m'.action.incoming = true := by
  obtain ⟨dtMsg, hclassify, h⟩ := ok_of_bind h
  rw [if_neg (by simp [hm])] at h
  cases dtMsg with
  | none =>
    cases h
    exact ⟨[], by simp, by simp⟩
  | some dtMsg =>
    cases h
    split_ifs
    · refine ⟨[dtMsg], rfl, ?_⟩
      intro m' hm'
      cases List.mem_singleton.mp hm'
      exact classifyMsg_incoming hclassify
    · exact ⟨[], by simp, by simp⟩

theorem callBack_mem (h : StoredById s.confirmMap) (uuid : GoString) {m : DTMessage}
    (hm : m.action ≠ .confirm) :
    StoredById (callBack uuid s m).confirmMap ∧ (callBack uuid s m).comm = s.comm ∧
      (callBack uuid s m).twin = s.twin ∧ ∀ id, id ∈ (callBack uuid s m).confirmMap ↔
        id ∈ s.confirmMap ∨ sentId s.state uuid m = some id := by
  obtain ⟨action, identity, msg⟩ := m
  cases action with
  | sendToCloud =>
    cases hstate : s.state with
    | disconnected => simp [callBack, sentId, dealSendToCloud, hstate, h]
    | connected =>
      simp only [callBack, sentId, dealSendToCloud, hstate, reduceCtorEq, if_false]
      refine ⟨h.insert msg, trivial, trivial, ?_⟩
      intro id
      rw [AList.mem_insert, or_comm, Option.some_inj, eq_comm]
  | lifeCycle =>
    cases hcontent : msg.content with
    | text info =>
      by_cases hconnected : info = str "cloud_connected"
      · cases hstate : s.state with
        | connected =>
          simp [callBack, sentId, dealLifeCycle, hcontent, hconnected, hstate, h]
        | disconnected =>
          simp only [callBack, sentId, dealLifeCycle, Message.connects, hcontent, hconnected,
            hstate, if_true, detailRequest, decide_true]
          refine ⟨h.insert (detailMessage uuid), trivial, trivial, ?_⟩
          intro id
          rw [AList.mem_insert, or_comm, Option.some_inj, eq_comm]
      · have hsame : (dealLifeCycle uuid s msg).confirmMap = s.confirmMap ∧
            (dealLifeCycle uuid s msg).comm = s.comm ∧
              (dealLifeCycle uuid s msg).twin = s.twin := by
          simp only [dealLifeCycle, hcontent, if_neg hconnected]
          split_ifs <;> exact ⟨rfl, rfl, rfl⟩
        have hnone : sentId s.state uuid ⟨.lifeCycle, identity, msg⟩ = none := by
          cases hstate : s.state <;> simp [sentId, Message.connects, hcontent, hconnected]
        simp only [callBack, hsame, hnone, reduceCtorEq, or_false, implies_true, and_true]
        exact h
    | bytes b | twins t => cases hstate : s.state <;>
        simp [callBack, sentId, dealLifeCycle, Message.connects, hcontent, h]
  | confirm => exact absurd rfl hm
  | _ => cases hstate : s.state <;> simp [callBack, sentId, h]

theorem step_work {uuid : GoString} (h : step decodeString s (.work uuid) = some s') :
    ∃ m comm, s.comm = m :: comm ∧ uuid ∉ s.made ∧ s' = callBack uuid { s with comm } m := by
  simp only [step] at h
  cases hcomm : s.comm with
  | nil =>
    rw [hcomm] at h
    cases h
  | cons m comm =>
    rw [hcomm] at h
    split_ifs at h with huuid
    exact ⟨m, comm, rfl, huuid, (Option.some_inj.mp h).symm⟩

theorem step_distribute (hs : Unconfirmed s) {i : ℕ}
    (h : step decodeString s (.distribute i) = some s') :
    ∃ ms, s' = { s with twin := s.twin.eraseIdx i, comm := s.comm ++ ms } ∧
      ∀ m' ∈ ms, m'.action.incoming = true := by
  obtain ⟨m, hm, h⟩ := Option.bind_eq_some_iff.mp h
  exact distributeMsg_spec (hs.twin m (List.mem_of_getElem? hm)) (toOption_eq_some.mp h)

theorem step_unconfirmed (h : Unconfirmed s) (hstep : step decodeString s e = some s') :
    Unconfirmed s' ∧ ∀ id, id ∈ s'.confirmMap ↔ id ∈ s.confirmMap ∨ sends s id e = true := by
  cases e with
  | send m =>
    simp only [step] at hstep
    split_ifs at hstep with hm
    cases hstep
    refine ⟨⟨h.twin, forall_mem_snoc h.comm ?_, h.stored⟩, by simp [sends]⟩
    rcases hm.1 with haction | haction <;> simp [haction]
  | publish m =>
    simp only [step] at hstep
    split_ifs at hstep with hm
    cases hstep
    exact ⟨⟨forall_mem_snoc h.twin hm, h.comm, h.stored⟩, by simp [sends]⟩
  | dispatch m =>
    cases hstep
    have hframe : ∀ {t : Edge}, t.confirmMap = s.confirmMap → t.comm = s.comm →
        (∀ m' ∈ t.twin, m'.parentID = []) → Unconfirmed t ∧
          ∀ id, id ∈ t.confirmMap ↔ id ∈ s.confirmMap ∨ sends s id (.dispatch m) = true := by
      intro t hmap hcomm htwin
      refine ⟨⟨htwin, ?_, ?_⟩, ?_⟩
      · rw [hcomm]
        exact h.comm
      · rw [hmap]
        exact h.stored
      · simp [hmap, sends]
    unfold dispatch
    by_cases hparent : m.parentID = []
    · rw [if_neg (not_not.mpr hparent)]
      split_ifs
      · exact hframe rfl rfl (forall_mem_snoc h.twin hparent)
      · exact hframe rfl rfl h.twin
      · exact hframe rfl rfl h.twin
    · rw [if_pos hparent]
      split_ifs <;> exact hframe rfl rfl h.twin
  | distribute i =>
    obtain ⟨ms, rfl, hms⟩ := step_distribute h hstep
    refine ⟨⟨?_, List.forall_mem_append.mpr ⟨h.comm, ?_⟩, h.stored⟩, by simp [sends]⟩
    · exact fun m' hm' => h.twin m' (List.mem_of_mem_eraseIdx hm')
    · intro m' hm' haction
      have hincoming := hms m' hm'
      rw [haction] at hincoming
      cases hincoming
  | work uuid =>
    obtain ⟨m, comm, hcomm, -, rfl⟩ := step_work hstep
    have hm : m.action ≠ .confirm := h.comm m (by simp [hcomm])
    obtain ⟨hstored, hcomm', htwin, hmem⟩ :=
      callBack_mem (s := { s with comm := comm }) h.stored uuid hm
    refine ⟨⟨?_, ?_, hstored⟩, ?_⟩
    · rw [htwin]
      exact h.twin
    · rw [hcomm']
      exact fun m' hm' => h.comm m' (by simp [hcomm, hm'])
    · intro id
      rw [hmem]
      simp [sends, hcomm]
  | checkConfirm uuid order =>
    simp only [step] at hstep
    split_ifs at hstep with horder
    cases hstep
    have hresent := checkConfirm_resent h.stored uuid order
    refine ⟨⟨?_, ?_, hresent.stored⟩, ?_⟩
    · rw [hresent.twin]
      exact h.twin
    · rw [hresent.comm]
      exact h.comm
    · intro id
      simp [hresent.mem, sends]
  | routeToCloud =>
    cases hstep
    exact ⟨⟨h.twin, h.comm, h.stored⟩, by simp [sends]⟩

theorem callBack_made (uuid : GoString) (s : Edge) (m : DTMessage) :
    (∀ id ∈ s.made, id ∈ (callBack uuid s m).made) ∧
      (callBack uuid s m).answered = s.answered := by
  unfold callBack
  split
  · unfold dealSendToCloud
    split_ifs <;> exact ⟨fun _ h => h, rfl⟩
  · unfold dealLifeCycle
    split
    · split_ifs
      · exact ⟨fun _ h => GoSet.mem_add.mpr (.inr h), rfl⟩
      all_goals exact ⟨fun _ h => h, rfl⟩
    · exact ⟨fun _ h => h, rfl⟩
  · exact ⟨fun _ h => h, rfl⟩
  · exact ⟨fun _ h => h, rfl⟩

/-- Ids are made once: a message that is new to the worker comes from elsewhere or has a new id. -/
structure Fresh (s s' : Edge) : Prop where
  made : ∀ id ∈ s.made, id ∈ s'.made
  answered : ∀ id ∈ s'.answered, id ∈ s.answered ∨ id ∈ s.made
  comm : ∀ m ∈ s'.comm, m ∈ s.comm ∨ m.action.incoming = true ∨ m.msg.id ∉ s.made

theorem step_fresh (h : Unconfirmed s) (hstep : step decodeString s e = some s') : Fresh s s' := by
  cases e with
  | send m =>
    simp only [step] at hstep
    split_ifs at hstep with hm
    cases hstep
    exact ⟨fun id hid => GoSet.mem_add.mpr (.inr hid), fun _ hid => .inl hid,
      forall_mem_snoc (fun _ hm' => .inl hm') (.inr (.inr hm.2))⟩
  | publish m =>
    simp only [step] at hstep
    split_ifs at hstep
    cases hstep
    exact ⟨fun _ hid => hid, fun _ hid => .inl hid, fun _ hm' => .inl hm'⟩
  | dispatch m =>
    cases hstep
    unfold dispatch
    split_ifs with _ _ hknown
    · refine ⟨fun _ hid => hid, ?_, fun _ hm' => .inl hm'⟩
      intro id hid
      rcases GoSet.mem_add.mp hid with rfl | hid
      · exact .inr hknown.2
      · exact .inl hid
    all_goals exact ⟨fun _ hid => hid, fun _ hid => .inl hid, fun _ hm' => .inl hm'⟩
  | distribute i =>
    obtain ⟨ms, rfl, hms⟩ := step_distribute h hstep
    exact ⟨fun _ hid => hid, fun _ hid => .inl hid, List.forall_mem_append.mpr
      ⟨fun _ hm' => .inl hm', fun m' hm' => .inr (.inl (hms m' hm'))⟩⟩
  | work uuid =>
    obtain ⟨m, comm, hcomm, -, rfl⟩ := step_work hstep
    obtain ⟨hmade, hsame⟩ := callBack_made uuid { s with comm := comm } m
    have hm : m.action ≠ .confirm := h.comm m (by simp [hcomm])
    have hrest := (callBack_mem (s := { s with comm := comm }) h.stored uuid hm).2.1
    refine ⟨hmade, ?_, ?_⟩
    · rw [hsame]
      exact fun _ hid => .inl hid
    · rw [hrest]
      exact fun m' hm' => .inl (by simp [hcomm, hm'])
  | checkConfirm uuid order =>
    simp only [step] at hstep
    split_ifs at hstep
    cases hstep
    have hresent := checkConfirm_resent h.stored uuid order
    refine ⟨?_, ?_, ?_⟩
    · rw [hresent.made]
      exact fun _ hid => hid
    · rw [hresent.answered]
      exact fun _ hid => .inl hid
    · rw [hresent.comm]
      exact fun _ hm' => .inl hm'
  | routeToCloud =>
    cases hstep
    exact ⟨fun _ hid => hid, fun _ hid => .inl hid, fun _ hm' => .inl hm'⟩

/-- The message is neither stored nor on its way to the worker. -/
structure Absent (id : GoString) (s : Edge) : Prop where
  made : id ∈ s.made
  gone : id ∉ s.confirmMap
  comm : ∀ m ∈ s.comm, m.action = .sendToCloud → m.msg.id ≠ id

theorem Absent.not_sends (h : Absent id s) (hstep : step decodeString s e = some s') :
    sends s id e = false := by
  cases e with
  | work uuid =>
    obtain ⟨m, comm, hcomm, huuid, -⟩ := step_work hstep
    simp only [sends, hcomm, List.head?_cons, Option.bind_some, decide_eq_false_iff_not]
    intro hsent
    unfold sentId at hsent
    split at hsent
    · rename_i haction _
      exact h.comm m (by simp [hcomm]) haction (Option.some_inj.mp hsent)
    · split_ifs at hsent
      cases hsent
      exact huuid h.made
    · cases hsent
  | _ => rfl

theorem step_absent (hs : Unconfirmed s) (h : Absent id s)
    (hstep : step decodeString s e = some s') :
    Absent id s' := by
  obtain ⟨hmade, -, hcomm⟩ := step_fresh hs hstep
  refine ⟨hmade id h.made, ?_, ?_⟩
  · rw [(step_unconfirmed hs hstep).2, h.not_sends hstep]
    simpa using h.gone
  · intro m hm haction
    rcases hcomm m hm with hold | hincoming | hnew
    · exact h.comm m hold haction
    · rw [haction] at hincoming
      cases hincoming
    · rintro rfl
      exact hnew h.made

theorem mem_of_resent (h : StoredById s.confirmMap) (hm : m ∈ resent s e) :
    m.id ∈ s.confirmMap := by
  cases e with
  | checkConfirm uuid order =>
    obtain ⟨sent, hhub, hsent⟩ := (checkConfirm_resent h uuid order).hub
    simp only [resent, hhub, List.drop_left] at hm
    exact hsent m hm
  | _ => cases hm

theorem run_mem (h : Unconfirmed s) (hrun : run (step decodeString) s es = some s')
    (id : GoString) :
    Unconfirmed s' ∧ (id ∉ s'.confirmMap ↔ id ∉ s.confirmMap ∧
      Along (step decodeString) (fun s e => sends s id e = false) s es) := by
  induction es generalizing s with
  | nil =>
    cases hrun
    exact ⟨h, by simp [Along]⟩
  | cons e es ih =>
    obtain ⟨s₁, h₁, hrun⟩ := Option.bind_eq_some_iff.mp hrun
    obtain ⟨hs₁, hmem⟩ := step_unconfirmed h h₁
    obtain ⟨hs', hrest⟩ := ih hs₁ hrun
    refine ⟨hs', ?_⟩
    rw [hrest, hmem, not_or, Bool.not_eq_true]
    simp only [Along, h₁, Option.some_inj, forall_eq']
    tauto

theorem run_answered (h : Unconfirmed s) (hanswered : ∀ id ∈ s.answered, id ∈ s.made)
    (hrun : run (step decodeString) s es = some s') :
    ∀ id ∈ s'.answered, id ∈ s'.made := by
  induction es generalizing s with
  | nil =>
    cases hrun
    exact hanswered
  | cons e es ih =>
    obtain ⟨s₁, h₁, hrun⟩ := Option.bind_eq_some_iff.mp hrun
    obtain ⟨hmade, hnew, -⟩ := step_fresh h h₁
    refine ih (step_unconfirmed h h₁).1 ?_ hrun
    intro id hid
    rcases hnew id hid with hid | hid
    · exact hmade id (hanswered id hid)
    · exact hmade id hid

/-- After any run of the edge that ends with all queues empty, a message that was answered is
out of `ConfirmMap` for good exactly if it was never sent: what the cloud has confirmed is sent
again and again. -/
theorem retired_iff_never_sent (decodeString : GoString → Option GoString) (es : List Event)
    (s : Edge) (hrun : run (step decodeString) {} es = some s) (hidle : Idle s) (id : GoString)
    (hid : id ∈ s.answered) :
    Retired decodeString s id ↔
      Along (step decodeString) (fun s e => sends s id e = false) {} es := by
  have hstart : Unconfirmed {} := ⟨by simp, by simp, fun key m hm => by cases hm⟩
  obtain ⟨hs, hmem⟩ := run_mem hstart hrun id
  have hmade := run_answered hstart (fun id hid => by cases hid) hrun id hid
  constructor
  · intro hretired
    exact (hmem.mp hretired.gone).2
  · intro hnever
    have hgone : id ∉ s.confirmMap := hmem.mpr ⟨AList.notMem_empty id, hnever⟩
    refine ⟨hgone, ?_⟩
    intro es'
    have habsent : Absent id s := by
      refine ⟨hmade, hgone, ?_⟩
      rw [hidle.1]
      simp
    refine along_of_step (I := fun s => Unconfirmed s ∧ Absent id s) ?_ es' ⟨hs, habsent⟩
    rintro t e t' ⟨ht, htabsent⟩ hstep
    refine ⟨⟨(step_unconfirmed ht hstep).1, step_absent ht htabsent hstep⟩, ?_⟩
    rintro m hm rfl
    exact htabsent.gone (mem_of_resent ht.stored hm)

end

def report : DTMessage where
  action := .sendToCloud
  msg :=
    { id := str "report", source := str "twin", group := str "resource",
      resource := str "device/d/twin/edge_updated", operation := str "update",
      content := .twins (AList.insert (str "temperature")
        { actual := ⟨some ⟨some (str "20")⟩, none⟩ } ∅) }

/-- What `updateDeviceStatus` answers. -/
def response : Message where
  id := str "response"
  parentID := str "report"
  source := str "devicecontroller"
  group := str "twin"
  resource := str "twin"
  operation := str "response"
  content := .text (str "OK")

/-- `pubConnectInfo`. -/
def cloudConnected : Message where
  id := str "connection"
  source := str "edgehub"
  group := str "twin"
  resource := str "node/connection"
  operation := str "connect"
  content := .text (str "cloud_connected")

/-- Whether the queues are empty, the report was answered and the map has it. -/
def ending (s : Edge) : Bool × Bool × Bool :=
  (s.comm.isEmpty && s.twin.isEmpty && s.hub.isEmpty, decide (str "report" ∈ s.answered),
    decide (str "report" ∈ s.confirmMap))

theorem idle_of_ending {answered stored : Bool} (h : ending s = (true, answered, stored)) :
    Idle s := by
  simp only [ending, Prod.mk.injEq, Bool.and_eq_true, List.isEmpty_iff] at h
  exact ⟨h.1.1.1, h.1.1.2, h.1.2⟩

/-- A report that is made while the cloud is not connected. -/
def offline : List Event := [.send report, .work (str "1"), .dispatch response]

theorem offline_retired : ∃ s, run (step fun _ => none) {} offline = some s ∧ Idle s ∧
    str "report" ∈ s.answered ∧ Retired (fun _ => none) s (str "report") := by
  have hrun : (run (step fun _ => none) {} offline).map ending = some (true, true, false) := by
    decide +kernel
  obtain ⟨s, hs, hending⟩ := Option.map_eq_some_iff.mp hrun
  have hanswered : str "report" ∈ s.answered := by
    simp only [ending, Prod.mk.injEq, decide_eq_true_eq] at hending
    exact hending.2.1
  refine ⟨s, hs, idle_of_ending hending, hanswered, ?_⟩
  apply (retired_iff_never_sent _ offline s hs (idle_of_ending hending) _ hanswered).mpr
  apply along_of_check (p := fun s e => !sends s (str "report") e) (by simp)
  decide +kernel

def online : List Event :=
  [.publish cloudConnected, .distribute 0, .work (str "detail"), .send report, .work (str "1"),
    .routeToCloud, .routeToCloud, .dispatch response]

/-- The response is lost at the edge hub: the report stays in `ConfirmMap`, and the next round of
`checkConfirm` sends it again. -/
theorem answered_report_resent : ∃ s, run (step fun _ => none) {} online = some s ∧ Idle s ∧
    str "report" ∈ s.answered ∧ ¬ Retired (fun _ => none) s (str "report") ∧
      (resent s (.checkConfirm (str "2") [str "report", str "detail"])).map Message.id =
        [str "report", str "detail"] := by
  have hrun : (run (step fun _ => none) {} online).map ending = some (true, true, true) := by
    decide +kernel
  have hresent : (run (step fun _ => none) {} online).map (fun s =>
      (resent s (.checkConfirm (str "2") [str "report", str "detail"])).map Message.id) =
        some [str "report", str "detail"] := by decide +kernel
  obtain ⟨s, hs, hending⟩ := Option.map_eq_some_iff.mp hrun
  rw [hs] at hresent
  have hidle := idle_of_ending hending
  simp only [ending, Prod.mk.injEq, decide_eq_true_eq] at hending
  exact ⟨s, hs, hidle, hending.2.1, fun h => h.gone hending.2.2, Option.some_inj.mp hresent⟩

end KubeEdge.DeviceTwin.Confirm
