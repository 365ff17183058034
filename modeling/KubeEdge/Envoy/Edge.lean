import KubeEdge.Envoy.Kinds
import KubeEdge.Envoy.Store

namespace KubeEdge.Envoy
open Go

/-- The kinds the edge tells apart. -/
inductive ResourceKind
  | secret
  | endpoint
  | cluster
  | route
  | listener
  deriving DecidableEq, Repr

def ResourceKind.text : ResourceKind → GoString
  | .secret => str "Secret"
  | .endpoint => str "Endpoint"
  | .cluster => str "Cluster"
  | .route => str "Route"
  | .listener => str "Listener"

/-- The `switch` over the kind in a path. -/
def ResourceKind.ofText (text : GoString) : Option ResourceKind :=
  if text = str "Secret" then some .secret
  else if text = str "Endpoint" then some .endpoint
  else if text = str "Cluster" then some .cluster
  else if text = str "Route" then some .route
  else if text = str "Listener" then some .listener
  else none

def Spec.resourceKind : Spec → ResourceKind
  | .secret _ => .secret
  | .endpoint _ => .endpoint
  | .cluster _ => .cluster
  | .route _ => .route
  | .listener _ => .listener

/-- http and https listeners are one kind at the edge. -/
def Kind.resourceKind : Kind → ResourceKind
  | .secret => .secret
  | .endpoint => .endpoint
  | .cluster => .cluster
  | .route => .route
  | .httpListener | .httpsListener => .listener

/-- Protocol buffers and the text a message carries them in: base64, quoted as a JSON
string.  Only the round trips are used. -/
structure Codec where
  Bytes : Type
  Text : Type
  marshal : Spec → Bytes
  unmarshal : ResourceKind → Bytes → Option Spec
  encode : Bytes → Text
  decode : Text → Option Bytes
  unmarshal_marshal : ∀ s, unmarshal s.resourceKind (marshal s) = some s
  decode_encode : ∀ b, decode (encode b) = some b

structure Message (K : Codec) where
  resource : GoString
  operation : Operation
  content : K.Text

/-- The message `dispatchResource` sends. -/
def Dispatch.message (K : Codec) (d : Dispatch) : Result (Message K) := do
  let path ← d.path
  .ok ⟨path, d.opr, K.encode (K.marshal d.resource.spec)⟩

/-- `trimMessage` of the cloud hub. -/
def trimMessage {K : Codec} (m : Message K) : Message K :=
  if (str "node").isPrefixOf m.resource then
    let tokens := split 47 m.resource
    if tokens.length < 3 then m else { m with resource := join 47 (tokens.drop 2) }
  else m

structure EdgeResource where
  name : GoString
  ns : GoString
  spec : Spec

/-- `envoySecrets`, `envoyEndpoints` and so on: one map for each kind. -/
structure ControlPlane where
  resources : ResourceKind → GoMap GoString EdgeResource := fun _ => ∅

namespace ControlPlane

def put (e : ControlPlane) (kind : ResourceKind) (resource : EdgeResource) : ControlPlane :=
  ⟨Function.update e.resources kind ((e.resources kind).insert resource.name resource)⟩

def remove (e : ControlPlane) (kind : ResourceKind) (name : GoString) : ControlPlane :=
  ⟨Function.update e.resources kind ((e.resources kind).erase name)⟩

def lookup (e : ControlPlane) (slot : ResourceKind × GoString) : Option Spec :=
  ((e.resources slot.1).lookup slot.2).map (·.spec)

end ControlPlane

/-- The key, the kind and the rest of a path. -/
def parseResource (resource : GoString) : M (GoString × GoString) :=
  match split 47 resource with
  | _ :: kind :: _ => .ok (resource, kind)
  | _ => .error .indexOutOfRange

/-- `GetNamespace`; an error makes its callers take `default`. -/
def getNamespace (resource : GoString) : GoString :=
  ((split 47 resource)[2]?).getD (str "default")

inductive ProcessError
  | content
  | unknownKind
  | unmarshal
  deriving DecidableEq, Repr

def processInsert (K : Codec) (e : ControlPlane) (m : Message K) :
    M (Except ProcessError ControlPlane) := do
  let (key, kindText) ← parseResource m.resource
  match K.decode m.content with
  | none => .ok (.error .content)
  | some bytes =>
    match ResourceKind.ofText kindText with
    | none => .ok (.error .unknownKind)
    | some kind =>
      match K.unmarshal kind bytes with
      | none => .ok (.error .unmarshal)
      | some spec => .ok (.ok (e.put kind ⟨key, getNamespace m.resource, spec⟩))

/-- A content that does not unmarshal does not stop a deletion. -/
def processDelete (K : Codec) (e : ControlPlane) (m : Message K) :
    M (Except ProcessError ControlPlane) := do
  let (key, kindText) ← parseResource m.resource
  match K.decode m.content with
  | none => .ok (.error .content)
  | some _ =>
    match ResourceKind.ofText kindText with
    | none => .ok (.error .unknownKind)
    | some kind => .ok (.ok (e.remove kind key))

/-- `process`: an error is logged and the message is gone. -/
def process (K : Codec) (e : ControlPlane) (m : Message K) : M ControlPlane := do
  let result ←
    match m.operation with
    | .insert => processInsert K e m
    | .delete => processDelete K e m
  match result with
  | .ok e' => .ok e'
  | .error _ => .ok e

def Resource.slot (R : Resource) : ResourceKind × GoString :=
  (R.spec.resourceKind,
    R.ns ++ 47 :: (R.spec.resourceKind.text ++ 47 :: (str "envoy" ++ R.name)))

/-- What a dispatch leaves in the slot of its resource. -/
def Dispatch.value (d : Dispatch) : Option Spec :=
  match d.opr with
  | .insert => some d.resource.spec
  | .delete => none

@[simp] theorem ofText_text (kind : ResourceKind) : ResourceKind.ofText kind.text = some kind := by
  cases kind <;> decide

theorem text_injective : Function.Injective ResourceKind.text := by
  intro a b h
  have h' := congrArg ResourceKind.ofText h
  simpa using h'

theorem slash_notMem_text (kind : ResourceKind) : (47 : UInt8) ∉ kind.text := by
  cases kind <;> decide

theorem text_ne_nil (kind : ResourceKind) : kind.text ≠ [] := by
  cases kind <;> decide

def edgePath (ns : GoString) (kind : ResourceKind) (name : GoString) : GoString :=
  ns ++ 47 :: (kind.text ++ 47 :: (str "envoy" ++ name))

def nodePath (node path : GoString) : GoString := str "node" ++ 47 :: (node ++ 47 :: path)

/-- What `trimMessage` does to the path. -/
def trimPath (resource : GoString) : GoString :=
  if (str "node").isPrefixOf resource then
    let tokens := split 47 resource
    if tokens.length < 3 then resource else join 47 (tokens.drop 2)
  else resource

theorem trimMessage_eq {K : Codec} (m : Message K) :
    trimMessage m = ⟨trimPath m.resource, m.operation, m.content⟩ := by
  unfold trimMessage trimPath
  dsimp only
  split_ifs <;> rfl

variable {ns node : GoString} {d : Dispatch}

theorem buildResource_envoy (hnode : node ≠ []) (hns : ns ≠ []) (kind : ResourceKind)
    (name : GoString) :
    buildResource node ns kind.text (str "envoy" ++ name) =
      .ok (nodePath node (edgePath ns kind name)) := by
  have hid : str "envoy" ++ name ≠ [] := by
    intro h
    exact absurd (List.append_eq_nil_iff.mp h).1 (by decide)
  unfold buildResource
  rw [if_neg (by simp [hns, hnode, text_ne_nil])]
  dsimp only
  rw [if_neg hid]
  simp [nodePath, edgePath]

theorem split_edgePath (hns : 47 ∉ ns) (kind : ResourceKind) (name : GoString) :
    split 47 (edgePath ns kind name) = ns :: kind.text :: split 47 (str "envoy" ++ name) := by
  unfold edgePath
  rw [split_append_sep hns, split_append_sep (slash_notMem_text _)]

theorem trimPath_nodePath (hnode : 47 ∉ node) (hns : 47 ∉ ns) (kind : ResourceKind)
    (name : GoString) :
    trimPath (nodePath node (edgePath ns kind name)) = edgePath ns kind name := by
  have hsplit : split 47 (nodePath node (edgePath ns kind name)) =
      str "node" :: node :: split 47 (edgePath ns kind name) := by
    unfold nodePath
    rw [split_append_sep (by decide), split_append_sep hnode]
  have hlen : ¬ (str "node" :: node :: split 47 (edgePath ns kind name)).length < 3 := by
    rw [split_edgePath hns]
    simp
  have hprefix : (str "node").isPrefixOf (nodePath node (edgePath ns kind name)) = true := by
    simp [nodePath]
  unfold trimPath
  rw [if_pos hprefix, hsplit, if_neg hlen]
  exact join_split ..

theorem parseResource_edgePath (hns : 47 ∉ ns) (kind : ResourceKind) (name : GoString) :
    parseResource (edgePath ns kind name) = .ok (edgePath ns kind name, kind.text) := by
  unfold parseResource
  rw [split_edgePath hns]

theorem edgePath_inj {ns' name name' : GoString} {kind kind' : ResourceKind} (hns : 47 ∉ ns)
    (hns' : 47 ∉ ns') : edgePath ns kind name = edgePath ns' kind' name' ↔
      ns = ns' ∧ kind = kind' ∧ name = name' := by
  constructor
  · intro h
    have h₁ := append_sep_inj hns hns' h
    have h₂ := append_sep_inj (slash_notMem_text _) (slash_notMem_text _) h₁.2
    exact ⟨h₁.1, text_injective h₂.1, List.append_cancel_left h₂.2⟩
  · rintro ⟨rfl, rfl, rfl⟩
    rfl

theorem resourceType_eq (spec : Spec) : resourceType spec = spec.resourceKind.text := by
  cases spec <;> rfl

theorem resourceKind_eq (s : Spec) : s.resourceKind = s.kind.resourceKind := by
  cases s with
  | listener l =>
    simp only [Spec.kind]
    split_ifs <;> rfl
  | _ => rfl

theorem ControlPlane.lookup_put (e : ControlPlane) (kind : ResourceKind) (R : EdgeResource)
    (slot : ResourceKind × GoString) : (e.put kind R).lookup slot =
      if slot = (kind, R.name) then some R.spec else e.lookup slot := by
  obtain ⟨kind', name⟩ := slot
  unfold put lookup
  dsimp only
  by_cases hk : kind' = kind
  · subst hk
    rw [Function.update_self, GoMap.lookup_insert]
    by_cases hn : name = R.name <;> simp [hn]
  · rw [Function.update_of_ne hk]
    simp [hk]

theorem ControlPlane.lookup_remove (e : ControlPlane) (kind : ResourceKind) (name : GoString)
    (slot : ResourceKind × GoString) : (e.remove kind name).lookup slot =
      if slot = (kind, name) then none else e.lookup slot := by
  obtain ⟨kind', name'⟩ := slot
  unfold remove lookup
  dsimp only
  by_cases hk : kind' = kind
  · subst hk
    rw [Function.update_self, GoMap.lookup_erase]
    by_cases hn : name' = name <;> simp [hn]
  · rw [Function.update_of_ne hk]
    simp [hk]

variable {K : Codec} {m : Message K} {R' : Resource}

/-- The message of a dispatch, as it reaches the edge. -/
def Dispatch.trimmed (K : Codec) (d : Dispatch) : Message K :=
  ⟨d.resource.slot.2, d.opr, K.encode (K.marshal d.resource.spec)⟩

theorem message_ok (hnode : d.node ≠ []) (hns : d.resource.ns ≠ []) :
    d.message K = .ok ⟨nodePath d.node d.resource.slot.2, d.opr,
      K.encode (K.marshal d.resource.spec)⟩ := by
  have hpath : d.path = .ok (nodePath d.node d.resource.slot.2) := by
    unfold Dispatch.path
    rw [resourceType_eq]
    exact buildResource_envoy hnode hns _ _
  unfold Dispatch.message
  rw [hpath]
  rfl

theorem set_of_message (hm : d.message K = .ok m) : d.node ≠ [] ∧ d.resource.ns ≠ [] := by
  by_contra hset
  have hset : d.resource.ns = [] ∨ resourceType d.resource.spec = [] ∨ d.node = [] := by tauto
  unfold Dispatch.message Dispatch.path buildResource at hm
  rw [if_pos hset] at hm
  cases hm

theorem trimMessage_of_message (hnode : 47 ∉ d.node) (hns : 47 ∉ d.resource.ns)
    (hm : d.message K = .ok m) : trimMessage m = d.trimmed K := by
  have hset := set_of_message hm
  rw [message_ok hset.1 hset.2] at hm
  rw [← Except.ok.inj hm, trimMessage_eq]
  exact congrArg (fun r => Message.mk r _ _) (trimPath_nodePath hnode hns _ _)

theorem trimMessage_message (hns : IsDNSLabel d.resource.ns) (hnode : IsDNSSubdomain d.node) :
    ∃ m, d.message K = .ok m ∧ trimMessage m = d.trimmed K := by
  have hm := message_ok (K := K) hnode.1 hns.1
  exact ⟨_, hm, trimMessage_of_message hnode.slash hns.subdomain.slash hm⟩

section

variable (e : ControlPlane) (hns : 47 ∉ d.resource.ns)
include hns

theorem processInsert_trimmed :
    processInsert K e (d.trimmed K) = .ok (.ok (e.put d.resource.spec.resourceKind
      ⟨d.resource.slot.2, getNamespace d.resource.slot.2, d.resource.spec⟩)) := by
  have hparse : parseResource d.resource.slot.2 =
      .ok (d.resource.slot.2, d.resource.spec.resourceKind.text) :=
    parseResource_edgePath hns _ _
  simp [processInsert, Dispatch.trimmed, hparse, K.decode_encode, K.unmarshal_marshal]

theorem processDelete_trimmed :
    processDelete K e (d.trimmed K) =
      .ok (.ok (e.remove d.resource.spec.resourceKind d.resource.slot.2)) := by
  have hparse : parseResource d.resource.slot.2 =
      .ok (d.resource.slot.2, d.resource.spec.resourceKind.text) :=
    parseResource_edgePath hns _ _
  simp [processDelete, Dispatch.trimmed, hparse, K.decode_encode]

theorem process_trimmed :
    ∃ e', process K e (d.trimmed K) = .ok e' ∧ ∀ slot, e'.lookup slot =
      if slot = d.resource.slot then d.value else e.lookup slot := by
  unfold process
  have hopr : (d.trimmed K).operation = d.opr := rfl
  rw [hopr]
  cases hd : d.opr with
  | insert =>
    simp only [processInsert_trimmed e hns, ok_bind]
    refine ⟨_, rfl, fun slot => ?_⟩
    rw [ControlPlane.lookup_put, Dispatch.value, hd]
    rfl
  | delete =>
    simp only [processDelete_trimmed e hns, ok_bind]
    refine ⟨_, rfl, fun slot => ?_⟩
    rw [ControlPlane.lookup_remove, Dispatch.value, hd]
    rfl

end

theorem process_message (e : ControlPlane) (hns : IsDNSLabel d.resource.ns)
    (hnode : IsDNSSubdomain d.node) : ∃ m e', d.message K = .ok m ∧
      process K e (trimMessage m) = .ok e' ∧ ∀ slot, e'.lookup slot =
        if slot = d.resource.slot then d.value else e.lookup slot := by
  obtain ⟨m, hm, htrim⟩ := trimMessage_message hns hnode
  obtain ⟨e', hproc, hlookup⟩ := process_trimmed e hns.subdomain.slash
  exact ⟨m, e', hm, htrim ▸ hproc, hlookup⟩

/-- The messages of a list of dispatches that go to the node `n`. -/
def messagesTo (K : Codec) (n : GoString) (ds : List Dispatch) : List (Message K) :=
  (ds.filter (·.node = n)).filterMap fun d => (d.message K).toOption

/-- What the edge stores once it has processed these messages. -/
def drain (K : Codec) (ms : List (Message K)) (e : ControlPlane) : M ControlPlane :=
  loopM (fun e m => process K e (trimMessage m)) ms e

/-- Dispatches that agree on the slots they share write what they say and nothing else. -/
theorem drain_messagesTo {n : GoString} (ds : List Dispatch) (hn : IsDNSSubdomain n)
    (hns : ∀ d ∈ ds, IsDNSLabel d.resource.ns)
    (hsame : ∀ d ∈ ds, ∀ d' ∈ ds, d.resource.slot = d'.resource.slot → d.value = d'.value)
    (e : ControlPlane) : ∃ e', drain K (messagesTo K n ds) e = .ok e' ∧
      (∀ d ∈ ds, d.node = n → e'.lookup d.resource.slot = d.value) ∧
      ∀ slot, (∀ d ∈ ds, d.node = n → d.resource.slot ≠ slot) → e'.lookup slot = e.lookup slot := by
  induction ds generalizing e with
  | nil => exact ⟨e, rfl, by simp, fun _ _ => rfl⟩
  | cons d ds ih =>
    have hih := ih (fun x hx => hns x (.tail _ hx))
      (fun x hx y hy => hsame x (.tail _ hx) y (.tail _ hy))
    by_cases hd : d.node = n
    · obtain ⟨m, e₁, hm, hproc, hlookup⟩ := process_message e
        (hns d (.head _)) (hd ▸ hn)
      obtain ⟨e', hdrain, hmine, hother⟩ := hih e₁
      have hcons : messagesTo K n (d :: ds) = m :: messagesTo K n ds := by
        simp [messagesTo, hd, hm, Except.toOption]
      refine ⟨e', ?_, ?_, ?_⟩
      · rw [hcons]
        change (process K e (trimMessage m) >>= fun e => drain K (messagesTo K n ds) e) = _
        rw [hproc, ok_bind, hdrain]
      · intro x hx hxn
        by_cases hlater : ∃ y ∈ ds, y.node = n ∧ y.resource.slot = x.resource.slot
        · obtain ⟨y, hy, hyn, hslot⟩ := hlater
          rw [← hslot, hmine y hy hyn]
          exact hsame y (.tail _ hy) x hx hslot
        · obtain rfl : x = d := by
            rcases List.mem_cons.mp hx with rfl | hx
            · rfl
            · exact absurd ⟨x, hx, hxn, rfl⟩ hlater
          rw [hother _ fun y hy hyn hslot => hlater ⟨y, hy, hyn, hslot⟩, hlookup, if_pos rfl]
      · intro slot hslot
        rw [hother slot fun y hy hyn => hslot y (.tail _ hy) hyn, hlookup, if_neg]
        exact fun he => hslot d (.head _) hd he.symm
    · obtain ⟨e', hdrain, hmine, hother⟩ := hih e
      have hcons : messagesTo K n (d :: ds) = messagesTo K n ds := by
        simp [messagesTo, hd]
      refine ⟨e', hcons ▸ hdrain, ?_, ?_⟩
      · intro x hx hxn
        rcases List.mem_cons.mp hx with rfl | hx
        · exact absurd hxn hd
        · exact hmine x hx hxn
      · exact fun slot hslot => hother slot fun y hy => hslot y (.tail _ hy)

theorem key_of_slot {H : Digest} {R : Resource} (h : R.Typed H) (h' : R'.Typed H)
    (hslot : R.slot = R'.slot) : R.key = R'.key := by
  have hpath := (Prod.mk.inj hslot).2
  have hsame := (edgePath_inj h.1.subdomain.slash h'.1.subdomain.slash).mp hpath
  unfold Resource.key
  rw [hsame.1, hsame.2.2]

theorem slot_congr {H : Digest} {R : Resource} (h : R.Typed H) (h' : R'.Typed H)
    (hns : R.ns = R'.ns) (hname : R.name = R'.name) : R.slot = R'.slot := by
  have hkey : R.key = R'.key := by
    unfold Resource.key
    rw [hns, hname]
  unfold Resource.slot
  rw [resourceKind_eq, resourceKind_eq, h.kind_eq h' hkey, hns, hname]

namespace Sample

def codec : Codec where
  Bytes := Spec
  Text := Spec
  marshal s := s
  unmarshal kind s := if s.resourceKind = kind then some s else none
  encode s := s
  decode s := some s
  unmarshal_marshal _ := if_pos rfl
  decode_encode _ := rfl

/-- A dispatch of the secret `cert` of a namespace to the node `node`. -/
def sendCert (ns : GoString) (opr : Operation) : Dispatch :=
  ⟨⟨str "cert", ns, [], ∅, ∅, .secret ⟨str "cert", none, none⟩⟩, opr, str "node"⟩

end Sample

end KubeEdge.Envoy
