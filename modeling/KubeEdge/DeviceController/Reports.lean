import KubeEdge.DeviceController.Workers
import KubeEdge.DeviceTwin.Confirm

namespace KubeEdge.DeviceController.Reports
open Go Machine Threads DeviceTwin Cloud

/-- `PubToController`. -/
def cloudResource (node : GoString) (m : Confirm.Message) : GoString :=
  str "node/" ++ node ++ str "/" ++ m.resource

def getDeviceID (resource : GoString) : Option GoString :=
  match split 47 resource with
  | _ :: _ :: device :: id :: _ => if device = str "device" then some id else none
  | _ => none

/-- `messagelayer.GetResourceType`, for the one type that there is. -/
def isEdgeUpdated (resource : GoString) : Bool := contains resource (str "twin/edge_updated")

/-- The device and the twins that a message reports on. -/
def received (node : GoString) (m : Confirm.Message) :
    Option (GoString × GoMap GoString MsgTwin) :=
  if isEdgeUpdated (cloudResource node m) then
    match m.content, getDeviceID (cloudResource node m) with
    | .twins twin, some id => some (id, twin)
    | _, _ => none
  else none

/-- The message of `dealSyncResult`. -/
def syncMessage (id uuid : GoString) (twin : GoMap GoString MsgTwin) : Confirm.DTMessage where
  action := .sendToCloud
  msg :=
    { id := uuid, source := str "twin", group := str "resource",
      resource := str "device/" ++ id ++ str "/twin/edge_updated",
      operation := str "update", content := .twins twin }

/-- An edge node and the cloud. -/
structure World (n : ℕ) where
  /-- The devices at the edge. -/
  devices : GoMap GoString DeviceTwin.Device := ∅
  edge : Confirm.Edge := {}
  deviceStatusChan : List Confirm.Message := []
  cloud : Process n

inductive Event (n : ℕ)
  /-- `Updated`; a report would have the id `uuid`. -/
  | update (id : GoString) (twin : Option Update) (db : Database) (uuid : GoString)
  /-- The communication worker and what is around it. -/
  | edge (e : Confirm.Event)
  /-- The edge hub sends its next message, and `dispatchMessage` gets it. -/
  | routeToCloud
  | receive (w : Fin n)
  | run (w : Fin n)
  | deliver

section

variable (isFloat : GoString → Bool) (decodeString : GoString → Option GoString) (node : GoString)

/-- Every patch succeeds; a run ends with a panic. -/
def step {n : ℕ} (s : World n) : Event n → Option (World n)
  | .update id twin db uuid =>
    -- the id is a part of the topic
    if 47 ∈ id then none
    else
      match unmarshalDeviceTwinUpdate twin, s.devices.lookup id with
      | .ok content, some device =>
        (dealDeviceTwin isFloat device (some content) .rest db).toOption.bind fun (device, reply) =>
          let devices := s.devices.insert id device
          if reply.syncResult.entries = [] then some { s with devices := devices }
          else (Confirm.step decodeString s.edge (.send (syncMessage id uuid reply.syncResult))).map
            fun edge => { s with devices := devices, edge := edge }
      | _, _ => some s
  | .edge e =>
    match e with
    | .routeToCloud => none
    -- only `dealSyncResult` makes reports
    | .send m =>
      if m.action = .sendToEdge ∨ received node m.msg = none then
        (Confirm.step decodeString s.edge (.send m)).map fun edge => { s with edge := edge }
      else none
    | e => (Confirm.step decodeString s.edge e).map fun edge => { s with edge := edge }
  | .routeToCloud =>
    match s.edge.hub with
    | [] => none
    | m :: hub => some { s with
        edge := { s.edge with hub := hub }
        deviceStatusChan := s.deviceStatusChan ++
          if isEdgeUpdated (cloudResource node m) then [m] else [] }
  | .receive w =>
    match s.deviceStatusChan with
    | [] => none
    | m :: rest =>
      match received node m with
      | none => some { s with deviceStatusChan := rest }
      | some (id, twin) => (DeviceController.step n s.cloud (.receive w id twin)).map fun cloud =>
          { s with deviceStatusChan := rest, cloud := cloud }
  | .run w =>
    (DeviceController.step n s.cloud (.run w true)).map fun cloud => { s with cloud := cloud }
  | .deliver => (DeviceController.step n s.cloud .deliver).map fun cloud =>
      { s with cloud := cloud }

end

/-- The actual value of a twin at the edge, empty where there is none. -/
def actual (devices : GoMap GoString DeviceTwin.Device) (id k : GoString) : GoString :=
  actualText ((devices.lookup id).bind fun device => device.twins.lookup k)

/-- The edge is connected, and nothing is under way. -/
structure Quiescent {n : ℕ} (s : World n) : Prop where
  connected : s.edge.state = .connected
  edge : Confirm.Idle s.edge
  deviceStatusChan : s.deviceStatusChan = []
  workers : ∀ w, (s.cloud.threads w).rest = []
  watch : s.cloud.shared.watch = []

/-- The reported values of a device of the node that the cloud knows are those of the edge. -/
def Agrees {n : ℕ} (s : World n) : Prop :=
  ∀ id p device, id ∈ s.devices → s.cloud.shared.device.lookup id = some p →
    s.cloud.shared.api.lookup ((s.cloud.shared.objects p).ns, id) = some device →
      ∀ k v, reportedValue device.twins k = some v → v = actual s.devices id k

section

variable (node : GoString)

def timely (devices : GoMap GoString DeviceTwin.Device) (m : Confirm.Message) : Bool :=
  -- what a message reports is the case
  (received node m).all fun (id, twin) => twin.entries.all fun e =>
    e.2.report.all fun v => v = actual devices id e.1

/-- No update takes an actual value away, and none is made half.  The communication worker takes
a report only while it is connected, and sends reports again only where they are still the case.
A worker of the cloud takes a report when nobody is busy with the device. -/
def steady {n : ℕ} (s : World n) : Event n → Bool
  | .update id twin db _ =>
    (db = .committed || db = .rolledBack) &&
      match unmarshalDeviceTwinUpdate twin, s.devices.lookup id with
      | .ok content, some device =>
        content.entries.all fun e => keepsActual (device.twins.lookup e.1) e.2
      | _, _ => true
  | .edge (.work _) => s.edge.comm.head?.all fun m =>
      m.action ≠ .sendToCloud || (received node m.msg).isNone || s.edge.state = .connected
  | .edge (.checkConfirm _ _) => s.edge.state = .disconnected ||
      s.edge.confirmMap.entries.all fun e => timely node s.devices e.2.msg
  | .receive _ => s.deviceStatusChan.head?.all fun m =>
      (received node m).all fun (id, _) => free s.cloud id
  | _ => true

end

section

variable (node id k : GoString)

def valueOf (m : Confirm.Message) : Option GoString :=
  (received node m).bind fun (id', twin) =>
    if id' = id then (twin.lookup k).bind MsgTwin.report else none

/-- The value that a message will report when the worker has sent it. -/
def sentValue (m : Confirm.DTMessage) : Option GoString :=
  if m.action = .sendToCloud then valueOf node id k m.msg else none

end

section

variable {node id k : GoString} {decodeString : GoString → Option GoString} {s s' : Confirm.Edge}

theorem valueOf_detailMessage (uuid : GoString) :
    valueOf node id k (Confirm.detailMessage uuid) = none := by
  have hreceived : received node (Confirm.detailMessage uuid) = none := by
    unfold received
    split_ifs <;> rfl
  rw [valueOf, hreceived]
  rfl

theorem callBack_hub (id k uuid : GoString) {m : Confirm.DTMessage}
    (hm : m.action = .sendToCloud → (received node m.msg).isNone ∨ s.state = .connected) :
    (Confirm.callBack uuid s m).comm = s.comm ∧
      ∃ sent, (Confirm.callBack uuid s m).hub = s.hub ++ sent ∧
        ∀ v, after (sent.map (valueOf node id k)) v = (sentValue node id k m).getD v := by
  obtain ⟨action, identity, msg⟩ := m
  cases action with
  | sendToCloud =>
    cases hstate : s.state with
    | connected =>
      refine ⟨?_, [msg], ?_, fun v => rfl⟩ <;>
        simp [Confirm.callBack, Confirm.dealSendToCloud, hstate]
    | disconnected =>
      refine ⟨?_, [], ?_, ?_⟩
      · simp [Confirm.callBack, Confirm.dealSendToCloud, hstate]
      · simp [Confirm.callBack, Confirm.dealSendToCloud, hstate]
      · intro v
        have hnone : received node msg = none := by
          rcases hm rfl with hnone | hconnected
          · exact Option.isNone_iff_eq_none.mp hnone
          · rw [hstate] at hconnected
            cases hconnected
        simp [sentValue, valueOf, hnone]
  | lifeCycle =>
    have hcases : (Confirm.dealLifeCycle uuid s msg).comm = s.comm ∧
        ((Confirm.dealLifeCycle uuid s msg).hub = s.hub ∨
          (Confirm.dealLifeCycle uuid s msg).hub = s.hub ++ [Confirm.detailMessage uuid]) := by
      unfold Confirm.dealLifeCycle
      cases msg.content with
      | text info =>
        dsimp only
        split_ifs <;> simp [Confirm.detailRequest]
      | _ => exact ⟨rfl, .inl rfl⟩
    refine ⟨hcases.1, ?_⟩
    rcases hcases.2 with hhub | hhub
    · exact ⟨[], by simpa [Confirm.callBack] using hhub, fun v => rfl⟩
    · refine ⟨[Confirm.detailMessage uuid], by simpa [Confirm.callBack] using hhub, ?_⟩
      intro v
      simp [valueOf_detailMessage, sentValue]
  | confirm => exact ⟨rfl, [], by simp [Confirm.callBack, Confirm.dealConfirm], fun v => rfl⟩
  | _ => exact ⟨rfl, [], by simp [Confirm.callBack], fun v => rfl⟩

theorem checkConfirm_hub (h : Confirm.StoredById s.confirmMap) (uuid : GoString)
    (order : List GoString) : ∃ sent, (Confirm.checkConfirm uuid s order).hub = s.hub ++ sent ∧
      ∀ m ∈ sent, s.state = .connected ∧ ∃ key dtMsg, s.confirmMap.lookup key = some dtMsg ∧
        dtMsg.msg = m := by
  let again (t : Confirm.Edge) (key : GoString) : Confirm.Edge :=
    (s.confirmMap.lookup key).elim t (Confirm.callBack uuid t)
  have hfold : ∀ t : Confirm.Edge, t.state = s.state → ∃ sent,
      (order.foldl again t).hub = t.hub ++ sent ∧
        ∀ m ∈ sent, s.state = .connected ∧ ∃ key dtMsg, s.confirmMap.lookup key = some dtMsg ∧
          dtMsg.msg = m := by
    induction order with
    | nil => exact fun t _ => ⟨[], by simp, by simp⟩
    | cons key order ih =>
      intro t ht
      change ∃ sent, (order.foldl again (again t key)).hub = t.hub ++ sent ∧ _
      have hagain : again t key = (s.confirmMap.lookup key).elim t (Confirm.callBack uuid t) := rfl
      rw [hagain]
      cases hkey : s.confirmMap.lookup key with
      | none => exact ih t ht
      | some dtMsg =>
        have haction := (h key dtMsg hkey).1
        have hcall : Confirm.callBack uuid t dtMsg = Confirm.dealSendToCloud t dtMsg.msg := by
          simp [Confirm.callBack, haction]
        simp only [Option.elim_some, hcall]
        cases hstate : s.state with
        | disconnected =>
          rw [Confirm.dealSendToCloud, if_pos (ht.trans hstate)]
          rw [hstate] at ih
          exact ih t (ht.trans hstate)
        | connected =>
          have hne : t.state ≠ .disconnected := by
            rw [ht, hstate]
            exact fun h => by cases h
          rw [Confirm.dealSendToCloud, if_neg hne]
          rw [hstate] at ih ht
          let t' : Confirm.Edge := { t with
            hub := t.hub ++ [dtMsg.msg]
            confirmMap := t.confirmMap.insert dtMsg.msg.id
              { action := .sendToCloud, msg := dtMsg.msg } }
          obtain ⟨sent, hhub, hsent⟩ := ih t' ht
          refine ⟨dtMsg.msg :: sent, ?_, ?_⟩
          · rw [hhub]
            simp [t']
          · exact List.forall_mem_cons.mpr ⟨⟨rfl, key, dtMsg, hkey, rfl⟩, hsent⟩
  exact hfold s rfl

/-- What the edge hub and the worker still have to send. -/
def waiting (node id k : GoString) (s : Confirm.Edge) : List (Option GoString) :=
  s.hub.map (valueOf node id k) ++ s.comm.map (sentValue node id k)

/-- The last value stays, if the worker does not drop a report and does not send an old one
again. -/
theorem edge_keeps (h : Confirm.Unconfirmed s) {e : Confirm.Event}
    (hstep : Confirm.step decodeString s e = some s') (he : e ≠ .routeToCloud)
    (hsend : ∀ m, e = .send m → sentValue node id k m = none)
    (hwork : ∀ uuid m, e = .work uuid → s.comm.head? = some m → m.action = .sendToCloud →
      (received node m.msg).isNone ∨ s.state = .connected)
    {u v : GoString}
    (hagain : ∀ uuid order, e = .checkConfirm uuid order → s.state = .connected →
      ∀ key m, s.confirmMap.lookup key = some m →
        valueOf node id k m.msg = none ∨ valueOf node id k m.msg = some v)
    (hv : after (waiting node id k s) u = v) : after (waiting node id k s') u = v := by
  have hsilent : ∀ ms : List Confirm.DTMessage, (∀ m ∈ ms, sentValue node id k m = none) →
      ∀ u, after (ms.map (sentValue node id k)) u = u := by
    intro ms hms u
    apply after_of_none
    intro value hvalue
    obtain ⟨m, hm, rfl⟩ := List.mem_map.mp hvalue
    exact hms m hm
  simp only [waiting, after_append] at hv ⊢
  cases e with
  | send m =>
    simp only [Confirm.step] at hstep
    split_ifs at hstep
    cases hstep
    simp [hv, hsend m rfl]
  | publish m =>
    simp only [Confirm.step] at hstep
    split_ifs at hstep
    cases hstep
    exact hv
  | dispatch m =>
    cases hstep
    have hsame : (Confirm.dispatch s m).hub = s.hub ∧ (Confirm.dispatch s m).comm = s.comm := by
      unfold Confirm.dispatch
      split_ifs <;> exact ⟨rfl, rfl⟩
    rw [hsame.1, hsame.2, hv]
  | distribute i =>
    obtain ⟨ms, rfl, hms⟩ := Confirm.step_distribute h hstep
    simp only [List.map_append, after_append, hv]
    apply hsilent
    intro m' hm'
    rw [sentValue, if_neg]
    intro haction
    have hincoming := hms m' hm'
    rw [haction] at hincoming
    cases hincoming
  | work uuid =>
    obtain ⟨m, comm, hcomm, -, rfl⟩ := Confirm.step_work hstep
    obtain ⟨hcomm', sent, hhub, hsent⟩ := callBack_hub (s := { s with comm := comm }) id k uuid
      fun haction => hwork uuid m rfl (by rw [hcomm]; rfl) haction
    rw [hcomm] at hv
    rw [hcomm', hhub, List.map_append, after_append, hsent]
    exact hv
  | checkConfirm uuid order =>
    simp only [Confirm.step] at hstep
    split_ifs at hstep
    cases hstep
    obtain ⟨sent, hhub, hsent⟩ := checkConfirm_hub h.stored uuid order
    rw [hhub, (Confirm.checkConfirm_resent h.stored uuid order).comm, List.map_append, after_append]
    apply after_repeated hv
    intro value hvalue
    obtain ⟨m, hm, rfl⟩ := List.mem_map.mp hvalue
    obtain ⟨hconnected, key, dtMsg, hkey, rfl⟩ := hsent m hm
    exact hagain uuid order rfl hconnected key dtMsg hkey
  | routeToCloud => exact absurd rfl he

theorem received_syncMessage (hnode : 47 ∉ node) (hid : 47 ∉ id) (uuid : GoString)
    (twin : GoMap GoString MsgTwin) :
    received node (syncMessage id uuid twin).msg = some (id, twin) := by
  have hresource : cloudResource node (syncMessage id uuid twin).msg =
      str "node" ++ 47 :: (node ++ 47 :: (str "device" ++ 47 :: (id ++ 47 ::
        str "twin/edge_updated"))) := by
    have h₁ : str "node/" = str "node" ++ [47] := by decide
    have h₂ : str "device/" = str "device" ++ [47] := by decide
    have h₃ : str "/twin/edge_updated" = 47 :: str "twin/edge_updated" := by decide
    have h₄ : str "/" = [47] := by decide
    simp [cloudResource, syncMessage, h₁, h₂, h₃, h₄, List.append_assoc, List.cons_append,
      List.nil_append]
  have hupdated : isEdgeUpdated (cloudResource node (syncMessage id uuid twin).msg) = true := by
    rw [hresource, isEdgeUpdated, contains_iff]
    refine ⟨str "node" ++ 47 :: (node ++ 47 :: (str "device" ++ 47 :: (id ++ [47]))), [], ?_⟩
    simp
  have hdevice : getDeviceID (cloudResource node (syncMessage id uuid twin).msg) = some id := by
    rw [hresource, getDeviceID, split_append_sep (by decide), split_append_sep hnode,
      split_append_sep (by decide), split_append_sep hid]
    rfl
  rw [received, if_pos hupdated, hdevice]
  rfl

end

/-- What is under way leads to the actual values at the edge. -/
structure Inv {n : ℕ} (node : GoString) (φ : Fin n → Phase) (s : World n) : Prop where
  cloud : Tracked φ s.cloud
  unconfirmed : Confirm.Unconfirmed s.edge
  same : ∀ id device, s.devices.lookup id = some device →
    ∀ k, SameActual (device.twins.lookup k) (device.rows.lookup k)
  value : ∀ id p, id ∈ s.devices → s.cloud.shared.device.lookup id = some p →
    ∀ k v, reportedValue (s.cloud.shared.objects p).twins k = some v → ∀ now, Now φ id k now →
      after (now ++ s.deviceStatusChan.map (valueOf node id k) ++ waiting node id k s.edge) v =
        actual s.devices id k

section

variable {isFloat : GoString → Bool} {decodeString : GoString → Option GoString} {node : GoString}
  {n : ℕ} {φ φ' : Fin n → Phase} {s s' : World n}

theorem Inv.of_moves (h : Inv node φ s) {cloud : Process n} (hcloud : Tracked φ' cloud)
    (hmoves : Moves φ s.cloud.shared φ' cloud.shared) : Inv node φ' { s with cloud := cloud } := by
  refine ⟨hcloud, h.unconfirmed, h.same, ?_⟩
  intro id p' hid hp' k v' hv' now' hnow'
  obtain ⟨p, hp, hvalues⟩ := hmoves id p' hp'
  obtain ⟨v, hv, hnows⟩ := hvalues k v' hv'
  obtain ⟨now, hnow, heq⟩ := hnows now' hnow'
  have hvalue := h.value id p hid hp k v hv now hnow
  simp only [after_append] at hvalue ⊢
  rw [← heq]
  exact hvalue

theorem valueOf_of_timely {devices : GoMap GoString DeviceTwin.Device} {m : Confirm.Message}
    (h : timely node devices m = true) (id k : GoString) :
    valueOf node id k m = none ∨ valueOf node id k m = some (actual devices id k) := by
  unfold timely at h
  unfold valueOf
  cases hreceived : received node m with
  | none => exact .inl rfl
  | some r =>
    obtain ⟨id', twin⟩ := r
    rw [hreceived] at h
    simp only [Option.all_some, List.all_eq_true] at h
    simp only [Option.bind_some]
    split_ifs with hid
    · subst hid
      cases hm : twin.lookup k with
      | none => exact .inl rfl
      | some m =>
        have hentry := h ⟨k, m⟩ (AList.mem_lookup_iff.mp hm)
        cases hvalue : m.report with
        | none => exact .inl (by simp [hvalue])
        | some v =>
          simp only [hvalue, Option.all_some, decide_eq_true_eq] at hentry
          exact .inr (by simp [hvalue, hentry])
    · exact .inl rfl

theorem update_inv (hnode : 47 ∉ node) (h : Inv node φ s) {id uuid : GoString}
    {twin : Option Update} {db : Database}
    (hsteady : steady node s (.update id twin db uuid) = true)
    (hstep : step isFloat decodeString node s (.update id twin db uuid) = some s') :
    Inv node φ s' := by
  simp only [step] at hstep
  split_ifs at hstep with hslash
  simp only [steady, Bool.and_eq_true, Bool.or_eq_true, decide_eq_true_eq] at hsteady
  obtain ⟨hdb, hsteady⟩ := hsteady
  cases hcontent : unmarshalDeviceTwinUpdate twin with
  | error e =>
    rw [hcontent] at hstep
    cases hstep
    exact h
  | ok content =>
    cases hdevice : s.devices.lookup id with
    | none =>
      rw [hcontent, hdevice] at hstep
      cases hstep
      exact h
    | some device =>
      rw [hcontent, hdevice] at hstep hsteady
      simp only [List.all_eq_true] at hsteady
      obtain ⟨⟨device', reply⟩, hdeal, hstep⟩ := Option.bind_eq_some_iff.mp hstep
      obtain ⟨hsame, hvalue⟩ := update_reported hdb (h.same id device hdevice) hsteady
        (toOption_eq_some.mp hdeal)
      have hmem : ∀ id', id' ∈ s.devices.insert id device' → id' ∈ s.devices := by
        intro id' hid'
        rw [AList.mem_insert] at hid'
        rcases hid' with rfl | hid'
        · exact GoMap.mem_iff_lookup.mpr ⟨device, hdevice⟩
        · exact hid'
      have hsame' : ∀ id' d, (s.devices.insert id device').lookup id' = some d →
          ∀ k, SameActual (d.twins.lookup k) (d.rows.lookup k) :=
        GoMap.forall_insert h.same hsame
      -- what the report says about a twin is its new value
      have hactual : ∀ id' k, actual (s.devices.insert id device') id' k =
          (if id = id' then (reply.syncResult.lookup k).bind MsgTwin.report else none).getD
            (actual s.devices id' k) := by
        intro id' k
        unfold actual
        by_cases hid : id' = id
        · subst hid
          rw [AList.lookup_insert, if_pos rfl, hdevice]
          exact hvalue k
        · rw [GoMap.lookup_insert, if_neg hid, if_neg (Ne.symm hid)]
          rfl
      split_ifs at hstep with hempty
      · cases hstep
        refine ⟨h.cloud, h.unconfirmed, hsame', ?_⟩
        intro id' p hid' hp k v hv now hnow
        have hnone : reply.syncResult.lookup k = none := by
          rw [AList.lookup_eq_none, AList.mem_keys, AList.keys, hempty]
          simp
        rw [hactual, hnone, Option.bind_none, ite_self, Option.getD_none]
        exact h.value id' p (hmem id' hid') hp k v hv now hnow
      · obtain ⟨edge, hedge, rfl⟩ := Option.map_eq_some_iff.mp hstep
        refine ⟨h.cloud, (Confirm.step_unconfirmed h.unconfirmed hedge).1, hsame', ?_⟩
        intro id' p hid' hp k v hv now hnow
        have hold := h.value id' p (hmem id' hid') hp k v hv now hnow
        have hsent : sentValue node id' k (syncMessage id uuid reply.syncResult) =
            if id = id' then (reply.syncResult.lookup k).bind MsgTwin.report else none := by
          have hvalue : sentValue node id' k (syncMessage id uuid reply.syncResult) =
              valueOf node id' k (syncMessage id uuid reply.syncResult).msg := if_pos rfl
          rw [hvalue, valueOf, received_syncMessage hnode hslash]
          rfl
        simp only [Confirm.step] at hedge
        split_ifs at hedge
        cases hedge
        simp only [waiting, List.map_append, List.map_cons, List.map_nil, after_append, after_cons,
          after_nil, hsent] at hold ⊢
        rw [hold, hactual]

theorem edge_inv (h : Inv node φ s) {e : Confirm.Event}
    (hsteady : steady node s (.edge e) = true)
    (hstep : step isFloat decodeString node s (.edge e) = some s') : Inv node φ s' := by
  have hcases : ∃ edge, Confirm.step decodeString s.edge e = some edge ∧
      s' = { s with edge := edge } ∧ e ≠ .routeToCloud ∧
      ∀ m, e = .send m → m.action = .sendToEdge ∨ received node m.msg = none := by
    cases e with
    | routeToCloud => cases hstep
    | send m =>
      simp only [step] at hstep
      split_ifs at hstep with hm
      obtain ⟨edge, hedge, rfl⟩ := Option.map_eq_some_iff.mp hstep
      refine ⟨edge, hedge, rfl, Confirm.Event.noConfusion, ?_⟩
      intro m' hm'
      cases hm'
      exact hm
    | _ =>
      simp only [step] at hstep
      obtain ⟨edge, hedge, rfl⟩ := Option.map_eq_some_iff.mp hstep
      exact ⟨edge, hedge, rfl, Confirm.Event.noConfusion, fun m hm => (by cases hm)⟩
  obtain ⟨edge, hedge, rfl, hroute, hsend⟩ := hcases
  refine ⟨h.cloud, (Confirm.step_unconfirmed h.unconfirmed hedge).1, h.same, ?_⟩
  intro id p hid hp k v hv now hnow
  have hold := h.value id p hid hp k v hv now hnow
  rw [after_append] at hold ⊢
  refine edge_keeps h.unconfirmed hedge hroute ?_ ?_ ?_ hold
  · intro m hm
    rcases hsend m hm with hm | hm
    · simp [sentValue, hm]
    · simp [sentValue, valueOf, hm]
  · rintro uuid m rfl hhead haction
    simpa [steady, hhead, haction] using hsteady
  · rintro uuid order rfl hconnected key m hm
    simp only [steady, hconnected, reduceCtorEq, decide_false, Bool.false_or,
      List.all_eq_true] at hsteady
    exact valueOf_of_timely (hsteady ⟨key, m⟩ (AList.mem_lookup_iff.mp hm)) id k

theorem routeToCloud_inv (h : Inv node φ s)
    (hstep : step isFloat decodeString node s .routeToCloud = some s') : Inv node φ s' := by
  simp only [step] at hstep
  cases hhub : s.edge.hub with
  | nil =>
    rw [hhub] at hstep
    cases hstep
  | cons m hub =>
    rw [hhub] at hstep
    cases hstep
    refine ⟨h.cloud, ⟨h.unconfirmed.twin, h.unconfirmed.comm, h.unconfirmed.stored⟩, h.same, ?_⟩
    intro id p hid hp k v hv now hnow
    have hold := h.value id p hid hp k v hv now hnow
    simp only [waiting, hhub, List.map_cons, after_append, after_cons] at hold
    simp only [waiting, List.map_append, after_append]
    split_ifs with hupdated
    · exact hold
    · have hnone : valueOf node id k m = none := by
        rw [valueOf, received, if_neg hupdated]
        rfl
      rw [hnone] at hold
      exact hold

theorem receive_inv (h : Inv node φ s) {w : Fin n} (hsteady : steady node s (.receive w) = true)
    (hstep : step isFloat decodeString node s (.receive w) = some s') : ∃ φ', Inv node φ' s' := by
  simp only [step] at hstep
  cases hchan : s.deviceStatusChan with
  | nil =>
    rw [hchan] at hstep
    cases hstep
  | cons m rest =>
    rw [hchan] at hstep
    simp only [steady, hchan, List.head?_cons, Option.all_some] at hsteady
    simp only at hstep
    cases hreceived : received node m with
    | none =>
      rw [hreceived] at hstep
      cases hstep
      refine ⟨φ, h.cloud, h.unconfirmed, h.same, ?_⟩
      intro id p hid hp k v hv now hnow
      have hold := h.value id p hid hp k v hv now hnow
      simpa [hchan, valueOf, hreceived] using hold
    | some r =>
      obtain ⟨id, twin⟩ := r
      rw [hreceived] at hstep hsteady
      obtain ⟨cloud, hcloud, rfl⟩ := Option.map_eq_some_iff.mp hstep
      obtain ⟨hshared, hidle, htracked⟩ := receive_tracked h.cloud hsteady hcloud
      refine ⟨Function.update φ w (.load id twin), htracked, h.unconfirmed, h.same, ?_⟩
      intro id' p hid' hp k v hv now hnow
      simp only [hshared] at hp hv
      have hnobody : ∀ w', (φ w').device ≠ some id :=
        fun w' => Phase.device_of_free hsteady (h.cloud.ops w')
      by_cases hid : id' = id
      · subst hid
        have hold := h.value id' p hid' hp k v hv [] (.inr ⟨hnobody, rfl⟩)
        rw [now_update (fun w' hw' => absurd hw' (hnobody w')) (fun _ h => by cases h; rfl) hnow]
        simpa [hchan, valueOf, hreceived, Phase.values] using hold
      · have hnow' : Now φ id' k now := by
          refine now_update_of_ne ?_ ?_ hnow
          · rw [hidle]
            exact fun h => by cases h
          · exact fun h => hid (Option.some_inj.mp h).symm
        have hold := h.value id' p hid' hp k v hv now hnow'
        simpa [hchan, valueOf, hreceived, Ne.symm hid] using hold

theorem step_inv (hnode : 47 ∉ node) (h : ∃ φ, Inv node φ s) {e : Event n}
    (hsteady : steady node s e = true)
    (hstep : step isFloat decodeString node s e = some s') : ∃ φ, Inv node φ s' := by
  obtain ⟨φ, h⟩ := h
  cases e with
  | update id twin db uuid => exact ⟨φ, update_inv hnode h hsteady hstep⟩
  | edge e => exact ⟨φ, edge_inv h hsteady hstep⟩
  | routeToCloud => exact ⟨φ, routeToCloud_inv h hstep⟩
  | receive w => exact receive_inv h hsteady hstep
  | run w =>
    obtain ⟨cloud, hcloud, rfl⟩ := Option.map_eq_some_iff.mp hstep
    obtain ⟨φ', htracked, hmoves⟩ := run_moves h.cloud hcloud
    exact ⟨φ', h.of_moves htracked hmoves⟩
  | deliver =>
    obtain ⟨cloud, hcloud, rfl⟩ := Option.map_eq_some_iff.mp hstep
    obtain ⟨htracked, hmoves⟩ := deliver_moves h.cloud hcloud
    exact ⟨φ, h.of_moves htracked hmoves⟩

/-- A start at which nothing has been reported yet: the database has the twins of the edge, the
map has the devices of the API server, and the values agree. -/
structure Start (s : World n) : Prop where
  edge : s.edge = {}
  deviceStatusChan : s.deviceStatusChan = []
  workers : ∀ w, (s.cloud.threads w).rest = []
  watch : s.cloud.shared.watch = []
  same : ∀ id device, s.devices.lookup id = some device →
    ∀ k, SameActual (device.twins.lookup k) (device.rows.lookup k)
  made : ∀ id p, s.cloud.shared.device.lookup id = some p → p < s.cloud.shared.made
  inj : ∀ id id' p, s.cloud.shared.device.lookup id = some p →
    s.cloud.shared.device.lookup id' = some p → id = id'
  api : ∀ id p, s.cloud.shared.device.lookup id = some p →
    s.cloud.shared.api.lookup ((s.cloud.shared.objects p).ns, id) =
      some (s.cloud.shared.objects p)
  agrees : Agrees s

theorem Start.inv (h : Start s) : Inv node (fun _ => .idle) s := by
  refine ⟨⟨h.workers, ?_, ?_, h.made, h.inj, ?_, ?_⟩, ?_, h.same, ?_⟩
  · exact fun _ _ _ hpointer => by cases hpointer
  · exact fun _ _ _ hdevice => by cases hdevice
  · exact fun id p hp => ⟨_, h.api id p hp, rfl, fun _ => rfl⟩
  · rw [h.watch]
    simp
  · rw [h.edge]
    exact ⟨by simp, by simp, fun key m hm => by cases hm⟩
  · intro id p hid hp k v hv now hnow
    rcases hnow with ⟨w, hw, -⟩ | ⟨-, rfl⟩
    · cases hw
    · rw [h.deviceStatusChan, h.edge]
      exact h.agrees id p _ hid hp (h.api id p hp) k v hv

theorem Inv.agrees (h : Inv node φ s) (hquiescent : Quiescent s) : Agrees s := by
  have hidle : ∀ w id, (φ w).device ≠ some id := by
    intro w id hdevice
    have hops := h.cloud.ops w
    rw [hquiescent.workers w] at hops
    cases hφ : φ w with
    | idle =>
      rw [hφ] at hdevice
      cases hdevice
    | setting id' p values =>
      rw [hφ] at hops
      simp [Phase.ops] at hops
    | _ =>
      rw [hφ] at hops
      cases hops
  intro id p device hid hp hdevice k v hv
  obtain ⟨twins, hapi, -, hsame⟩ := h.cloud.api id p hp
  cases hapi.symm.trans hdevice
  rw [hsame fun w => hidle w id] at hv
  have hvalue := h.value id p hid hp k v hv [] (.inr ⟨fun w => hidle w id, rfl⟩)
  obtain ⟨hcomm, -, hhub⟩ := hquiescent.edge
  simpa [hquiescent.deviceStatusChan, waiting, hcomm, hhub] using hvalue

end

/-- In every steady run, whatever the connection does and however many workers there are, the
reported values in the API server are the actual values at the edge whenever nothing is under
way. -/
theorem reported_values_latest (isFloat : GoString → Bool)
    (decodeString : GoString → Option GoString) (node : GoString) (hnode : 47 ∉ node) (n : ℕ)
    (s : World n) (hstart : Start s) (es : List (Event n))
    (hsteady : Along (step isFloat decodeString node) (fun s e => steady node s e = true) s es) :
    Always (step isFloat decodeString node) (fun s => Quiescent s → Agrees s) s es := by
  have hinv : Always (step isFloat decodeString node) (fun s => ∃ φ, Inv node φ s) s es :=
    always_of_along (fun _ _ _ h hsteady hstep => step_inv hnode h hsteady hstep)
      ⟨_, hstart.inv⟩ hsteady
  exact hinv.mono fun s ⟨φ, h⟩ hquiescent => h.agrees hquiescent

/-- The device with one twin that has never been reported. -/
def oneTwin : World 1 where
  devices := AList.insert (str "d") {} ∅
  cloud := oneDevice

theorem oneTwin_start : Start oneTwin := by
  have hdevice : ∀ id p, oneTwin.cloud.shared.device.lookup id = some p → id = str "d" ∧ p = 0 := by
    intro id p hp
    simpa [oneTwin, oneDevice, GoMap.lookup_insert, eq_comm, -AList.insert_empty] using hp
  have hapi : oneTwin.cloud.shared.api.lookup (str "default", str "d") =
      some (thermometer "20") := AList.lookup_insert _
  refine ⟨rfl, rfl, fun _ => rfl, rfl, ?_, ?_, ?_, ?_, ?_⟩
  · intro id device hdevice k
    obtain ⟨-, rfl⟩ : id = str "d" ∧ {} = device := by
      simpa [oneTwin, GoMap.lookup_insert, -AList.insert_empty] using hdevice
    rfl
  · intro id p hp
    rw [(hdevice id p hp).2]
    exact Nat.zero_lt_one
  · intro id id' p hp hp'
    rw [(hdevice id p hp).1, (hdevice id' p hp').1]
  · intro id p hp
    obtain ⟨rfl, rfl⟩ := hdevice id p hp
    exact hapi
  · intro id p device _ hp hd k v hv
    obtain ⟨rfl, rfl⟩ := hdevice id p hp
    cases hapi.symm.trans hd
    unfold reportedValue thermometer at hv
    simp only [List.find?_cons] at hv
    split at hv
    · cases hv
      rfl
    · cases hv

def measured (value uuid : String) : Event 1 :=
  .update (str "d") (some (AList.insert (str "temperature")
    (some { metadata := some (str "string"), actual := ⟨some ⟨some (str value)⟩, none⟩ }) ∅))
    .committed (str uuid)

/-- The edge hub tells that the cloud is connected. -/
def connecting : List (Event 1) :=
  [.edge (.publish Confirm.cloudConnected), .edge (.distribute 0), .edge (.work (str "detail")),
    .routeToCloud]

/-- A worker takes the report and does all its steps. -/
def applying : List (Event 1) :=
  .receive onlyWorker :: List.replicate 5 (.run onlyWorker) ++ [.deliver]

/-- Whether the state is quiescent, with the actual and the reported value of the twin. -/
def summary (s : World 1) : Bool × GoString × Option GoString :=
  (s.edge.state = .connected && s.edge.comm.isEmpty && s.edge.twin.isEmpty && s.edge.hub.isEmpty &&
      s.deviceStatusChan.isEmpty && (s.cloud.threads onlyWorker).rest.isEmpty &&
      s.cloud.shared.watch.isEmpty,
    actual s.devices (str "d") (str "temperature"),
    (s.cloud.shared.api.lookup (str "default", str "d")).bind fun device =>
      reportedValue device.twins (str "temperature"))

theorem quiescent_of_summary {s : World 1} {v : GoString} {reported : Option GoString}
    (h : summary s = (true, v, reported)) : Quiescent s := by
  simp only [summary, Prod.mk.injEq, Bool.and_eq_true, decide_eq_true_eq, List.isEmpty_iff] at h
  obtain ⟨⟨⟨⟨⟨⟨⟨hstate, hcomm⟩, htwin⟩, hhub⟩, hchan⟩, hrest⟩, hwatch⟩, -, -⟩ := h
  refine ⟨hstate, ⟨hcomm, htwin, hhub⟩, hchan, ?_, hwatch⟩
  intro w
  rw [Subsingleton.elim w onlyWorker]
  exact hrest

def online : List (Event 1) :=
  connecting ++ [measured "21" "report", .edge (.work (str "1")), .routeToCloud] ++ applying

theorem reported_values_latest_online : ∃ s,
    run (step (fun _ => true) (fun _ => none) (str "n")) oneTwin online = some s ∧ Quiescent s ∧
      Agrees s ∧ actual s.devices (str "d") (str "temperature") = str "21" := by
  have hrun : (run (step (fun _ => true) (fun _ => none) (str "n")) oneTwin online).map summary =
      some (true, str "21", some (str "21")) := by decide +kernel
  obtain ⟨s, hs, hsummary⟩ := Option.map_eq_some_iff.mp hrun
  have hquiescent := quiescent_of_summary hsummary
  have hsteady : Along (step (fun _ => true) (fun _ => none) (str "n"))
      (fun s e => steady (str "n") s e = true) oneTwin online := by
    apply along_of_check (p := steady (str "n")) (by simp)
    decide +kernel
  have hlatest := reported_values_latest (fun _ => true) (fun _ => none) (str "n") (by decide) 1
    oneTwin oneTwin_start online hsteady
  simp only [summary, Prod.mk.injEq] at hsummary
  exact ⟨s, hs, hquiescent, hlatest.last hs hquiescent, hsummary.2.1⟩

def offline : List (Event 1) :=
  [measured "21" "report", .edge (.work (str "1"))] ++ connecting

/-- The worker drops a report while it is not connected; when the cloud is there again, nobody
makes up for it. -/
theorem offline_update_lost : ∃ s,
    run (step (fun _ => true) (fun _ => none) (str "n")) oneTwin offline = some s ∧ Quiescent s ∧
      ¬ Agrees s := by
  have hrun : (run (step (fun _ => true) (fun _ => none) (str "n")) oneTwin offline).map summary =
      some (true, str "21", some []) := by decide +kernel
  have hknown : (run (step (fun _ => true) (fun _ => none) (str "n")) oneTwin offline).map
      (fun s => (decide (str "d" ∈ s.devices), s.cloud.shared.device.lookup (str "d"),
        (s.cloud.shared.objects 0).ns)) = some (true, some 0, str "default") := by decide +kernel
  obtain ⟨s, hs, hsummary⟩ := Option.map_eq_some_iff.mp hrun
  rw [hs] at hknown
  simp only [Option.map_some, Option.some.injEq, Prod.mk.injEq, decide_eq_true_eq] at hknown
  obtain ⟨hmem, hp, hns⟩ := hknown
  refine ⟨s, hs, quiescent_of_summary hsummary, ?_⟩
  intro hagrees
  simp only [summary, Prod.mk.injEq] at hsummary
  obtain ⟨device, hdevice, hreported⟩ := Option.bind_eq_some_iff.mp hsummary.2.2
  rw [← hns] at hdevice
  have hvalue := hagrees (str "d") 0 device hmem hp hdevice _ _ hreported
  rw [hsummary.2.1] at hvalue
  cases hvalue

end KubeEdge.DeviceController.Reports
