import KubeEdge.Go.Base64
import KubeEdge.Go.Quote
import KubeEdge.Envoy.Edge

namespace KubeEdge.Envoy
open Go

/-- The content of a message, an `interface{}`. -/
inductive Content
  | bytes (b : List UInt8)
  | text (s : GoString)
  deriving DecidableEq, Repr

/-- `generateContent`: bytes are taken for JSON already. -/
def generateContent : Content → GoString
  | .bytes b => b
  | .text s => jsonString s

/-- How a string content arrives that was sent as a JSON string: decoded with the rest of
its message, or still in JSON. -/
inductive Carried : Content → Content → Prop
  | decoded (s : GoString) : Carried (.text s) (.text s)
  | raw (s : GoString) : Carried (.text s) (.bytes (jsonString s))

/-- `generateContent`, `strconv.Unquote` and `DecodeString`, as `processInsert` and
`processDelete` begin. -/
def decodeContent (c : Content) : Option (List UInt8) := do
  let unquoted ← unquote (generateContent c)
  base64Decode unquoted

theorem htmlSafe_of_isBase64 {c : UInt8} (h : IsBase64 c) : htmlSafe c = true := by
  have hall : ∀ n : Fin 256, IsBase64 (UInt8.ofNat n) → htmlSafe (UInt8.ofNat n) = true := by
    decide +kernel
  have hc := hall ⟨c.toNat, c.toNat_lt⟩
  simp only [UInt8.ofNat_toNat] at hc
  exact hc h

variable {c : Content} {b : List UInt8} {node ns name : GoString}

theorem generateContent_carried {s : GoString} (h : Carried (.text s) c) :
    generateContent c = jsonString s := by
  cases h <;> rfl

theorem unquote_json_base64 (b : List UInt8) :
    unquote (jsonString (base64Encode b)) = some (base64Encode b) := by
  apply unquote_jsonString
  intro c hc
  exact htmlSafe_of_isBase64 (isBase64_encode b c hc)

theorem unquote_base64 (b : List UInt8) : unquote (base64Encode b) = none := by
  cases hs : base64Encode b with
  | nil => rfl
  | cons c s =>
    have hc : IsBase64 c := by
      apply isBase64_encode b
      rw [hs]
      exact .head _
    have h96 : c ≠ 96 := hc.ne (by decide)
    have h34 : c ≠ 34 := hc.ne (by decide)
    have h39 : c ≠ 39 := hc.ne (by decide)
    cases s with
    | nil => rfl
    | cons d s => simp [unquote, h96, h34, h39]

theorem decodeContent_carried (h : Carried (.text (base64Encode b)) c) :
    decodeContent c = some b := by
  unfold decodeContent
  rw [generateContent_carried h, unquote_json_base64]
  exact base64Decode_encode b

structure WireMessage where
  resource : GoString
  operation : Operation
  content : Content
  deriving DecidableEq, Repr

namespace WireMessage

/-- The message for a marshalled resource: the end of `dispatchResource`. -/
def build (node ns : GoString) (kind : ResourceKind) (name : GoString) (opr : Operation)
    (b : List UInt8) : Result WireMessage := do
  let path ← buildResource node ns kind.text (str "envoy" ++ name)
  .ok ⟨path, opr, .text (base64Encode b)⟩

/-- `trimMessage` of the cloud hub. -/
def trim (m : WireMessage) : WireMessage := { m with resource := trimPath m.resource }

/-- What `processInsert` has of a message when it unmarshals: the key, the kind and the
bytes. -/
def received (m : WireMessage) :
    M (Except ProcessError (GoString × ResourceKind × List UInt8)) := do
  let (key, kindText) ← parseResource m.resource
  match decodeContent m.content with
  | none => .ok (.error .content)
  | some bytes =>
    match ResourceKind.ofText kindText with
    | none => .ok (.error .unknownKind)
    | some kind => .ok (.ok (key, kind, bytes))

/-- Nothing is sent for a resource without a namespace or to a node without a name. -/
theorem build_error (h : node = [] ∨ ns = []) (kind : ResourceKind) (name : GoString)
    (opr : Operation) (b : List UInt8) :
    ∃ e, build node ns kind name opr b = .error e := by
  have hset : ns = [] ∨ kind.text = [] ∨ node = [] := by tauto
  unfold build buildResource
  rw [if_pos hset]
  exact ⟨_, rfl⟩

theorem build_ok (hnode : node ≠ []) (hns : ns ≠ []) (kind : ResourceKind) (name : GoString)
    (opr : Operation) (b : List UInt8) :
    build node ns kind name opr b =
      .ok ⟨nodePath node (edgePath ns kind name), opr, .text (base64Encode b)⟩ := by
  unfold build
  rw [buildResource_envoy hnode hns]
  rfl

theorem build_inv {kind : ResourceKind} {opr : Operation} {m : WireMessage}
    (h : build node ns kind name opr b = .ok m) :
    m = ⟨nodePath node (edgePath ns kind name), opr, .text (base64Encode b)⟩ := by
  by_cases hset : node = [] ∨ ns = []
  · obtain ⟨e, he⟩ := build_error hset kind name opr b
    rw [he] at h
    cases h
  · rw [not_or] at hset
    rw [build_ok hset.1 hset.2] at h
    exact (Except.ok.inj h).symm

/-- What the edge reads from a message whose content arrives as `c`. -/
def arrives (m : WireMessage) (c : Content) :
    M (Except ProcessError (GoString × ResourceKind × List UInt8)) :=
  { m.trim with content := c }.received

theorem received_edgePath (hns : 47 ∉ ns) (kind : ResourceKind) (name : GoString) (opr : Operation)
    (hc : decodeContent c = some b) :
    received ⟨edgePath ns kind name, opr, c⟩ = .ok (.ok (edgePath ns kind name, kind, b)) := by
  unfold received
  rw [parseResource_edgePath hns, ok_bind, hc]
  simp

theorem arrives_eq (hnode : 47 ∉ node) (hns : 47 ∉ ns) (kind : ResourceKind) (name : GoString)
    (opr : Operation) (hc : Carried (.text (base64Encode b)) c) :
    arrives ⟨nodePath node (edgePath ns kind name), opr, .text (base64Encode b)⟩ c =
      .ok (.ok (edgePath ns kind name, kind, b)) := by
  unfold arrives trim
  rw [trimPath_nodePath hnode hns]
  exact received_edgePath hns kind name opr (decodeContent_carried hc)

end WireMessage

/-- Nothing is built without a node or a namespace; whatever is built arrives as the kind and
the bytes that were sent, and the key tells the resources of a node apart.  Only node and
namespace have to be free of slashes. -/
theorem envoy_codec_round_trip {node ns : GoString} (hnode : 47 ∉ node) (hns : 47 ∉ ns)
    (name : GoString) (kind : ResourceKind) (opr : Operation) (b : List UInt8) :
    (node = [] ∨ ns = [] → ∃ e, WireMessage.build node ns kind name opr b = .error e) ∧
    (node ≠ [] → ns ≠ [] → ∃ m key, WireMessage.build node ns kind name opr b = .ok m ∧
      (∀ c, Carried m.content c → m.arrives c = .ok (.ok (key, kind, b))) ∧
      ∀ (ns' name' : GoString) (kind' : ResourceKind) (opr' : Operation) (b' : List UInt8)
        (m' : WireMessage) (c' : Content) (key' : GoString) (rest : ResourceKind × List UInt8),
        47 ∉ ns' → WireMessage.build node ns' kind' name' opr' b' = .ok m' →
        Carried m'.content c' → m'.arrives c' = .ok (.ok (key', rest)) →
        (key = key' ↔ ns = ns' ∧ kind = kind' ∧ name = name')) := by
  refine ⟨fun h => WireMessage.build_error h kind name opr b, fun hnode₀ hns₀ => ?_⟩
  have hm := WireMessage.build_ok hnode₀ hns₀ kind name opr b
  refine ⟨_, edgePath ns kind name, hm, ?_, ?_⟩
  · intro c hc
    exact WireMessage.arrives_eq hnode hns kind name opr hc
  · intro ns' name' kind' opr' b' m' c' key' rest hns' hm' hc' harrives
    have hm' := WireMessage.build_inv hm'
    subst hm'
    -- what arrives is determined, so the key is the path
    rw [WireMessage.arrives_eq hnode hns' kind' name' opr' hc'] at harrives
    have hkey : edgePath ns' kind' name' = key' := by
      have hread := Except.ok.inj (Except.ok.inj harrives)
      exact congrArg Prod.fst hread
    rw [← hkey]
    exact edgePath_inj hns hns'

theorem envoy_codec_round_trip_secret :
    ∃ m key, WireMessage.build (str "node") (str "default") .secret (str "cert") .insert [255, 0] =
        .ok m ∧ m.arrives m.content = .ok (.ok (key, .secret, [255, 0])) := by
  have hnode : 47 ∉ str "node" := by decide +kernel
  have hns : 47 ∉ str "default" := by decide +kernel
  have hall := envoy_codec_round_trip hnode hns (str "cert") .secret .insert [255, 0]
  obtain ⟨m, key, hm, harrives, -⟩ := hall.2 (by decide +kernel) (by decide +kernel)
  refine ⟨m, key, hm, harrives _ ?_⟩
  rw [WireMessage.build_inv hm]
  exact .decoded _

/-- Protocol buffers: what was marshalled can be unmarshalled as its kind. -/
structure Proto where
  marshal : Spec → List UInt8
  unmarshal : ResourceKind → List UInt8 → Option Spec
  unmarshal_marshal : ∀ s, unmarshal s.resourceKind (marshal s) = some s

namespace Proto

/-- Protocol buffers as base64 in a string. -/
def codec (P : Proto) : Codec where
  Bytes := List UInt8
  Text := Content
  marshal := P.marshal
  unmarshal := P.unmarshal
  encode b := .text (base64Encode b)
  decode := decodeContent
  unmarshal_marshal := P.unmarshal_marshal
  decode_encode _ := decodeContent_carried (.decoded _)

variable {P : Proto}

/-- A message of this codec, as it is sent. -/
def wire (m : Message P.codec) : WireMessage := ⟨m.resource, m.operation, m.content⟩

theorem message_wire (d : Dispatch) : (d.message P.codec).map wire =
    WireMessage.build d.node d.resource.ns d.resource.spec.resourceKind d.resource.name d.opr
      (P.marshal d.resource.spec) := by
  unfold Dispatch.message Dispatch.path WireMessage.build
  rw [resourceType_eq]
  cases buildResource d.node d.resource.ns d.resource.spec.resourceKind.text
    (str "envoy" ++ d.resource.name) <;> rfl

theorem trimMessage_wire (m : Message P.codec) : wire (trimMessage m) = (wire m).trim := by
  rw [trimMessage_eq]
  rfl

theorem processInsert_wire (e : ControlPlane) (m : Message P.codec) :
    processInsert P.codec e m = (wire m).received >>= fun
      | .error err => .ok (.error err)
      | .ok (key, kind, bytes) =>
        match P.unmarshal kind bytes with
        | none => .ok (.error .unmarshal)
        | some spec => .ok (.ok (e.put kind ⟨key, getNamespace m.resource, spec⟩)) := by
  unfold processInsert WireMessage.received wire
  dsimp [codec]
  cases parseResource m.resource with
  | error f => rfl
  | ok parsed =>
    simp only [ok_bind]
    cases decodeContent m.content with
    | none => rfl
    | some bytes =>
      cases ResourceKind.ofText parsed.2 <;> rfl

end Proto

/-- The namespace that `processInsert` and `processDelete` set on the resource they make for
a message. -/
def Message.recordedNamespace {K : Codec} (m : Message K) : GoString := getNamespace m.resource

def ControlPlane.namespaceAt (e : ControlPlane) (slot : ResourceKind × GoString) :
    Option GoString :=
  ((e.resources slot.1).lookup slot.2).map (·.ns)

theorem ControlPlane.namespaceAt_put (e : ControlPlane) (kind : ResourceKind) (R : EdgeResource) :
    (e.put kind R).namespaceAt (kind, R.name) = some R.ns := by
  unfold put namespaceAt
  dsimp only
  rw [Function.update_self, GoMap.lookup_insert, if_pos rfl]
  rfl

theorem getNamespace_edgePath (hns : 47 ∉ ns) (hname : 47 ∉ name) (kind : ResourceKind) :
    getNamespace (edgePath ns kind name) = str "envoy" ++ name := by
  have hid : 47 ∉ str "envoy" ++ name := by
    rw [List.mem_append, not_or]
    exact ⟨by decide, hname⟩
  have hlast : split 47 (str "envoy" ++ name) = [str "envoy" ++ name] := by
    have hjoin := split_join 47 (List.cons_ne_nil (str "envoy" ++ name) [])
      fun x hx => (List.mem_singleton.mp hx) ▸ hid
    simpa [join] using hjoin
  unfold getNamespace
  rw [split_edgePath hns, hlast]
  rfl

/-- The edge records the namespace of a dispatched resource exactly where that is called
like the resource, with `envoy` before the name. -/
theorem edge_namespace_iff (K : Codec) {d : Dispatch} (hnode : 47 ∉ d.node)
    (hns : 47 ∉ d.resource.ns) (hname : 47 ∉ d.resource.name) {m : Message K}
    (hm : d.message K = .ok m) :
    ((trimMessage m).recordedNamespace = d.resource.ns ↔
      d.resource.ns = str "envoy" ++ d.resource.name) ∧
    ∀ e, ∃ e', processInsert K e (trimMessage m) = .ok (.ok e') ∧
      (e'.namespaceAt d.resource.slot = some d.resource.ns ↔
        d.resource.ns = str "envoy" ++ d.resource.name) := by
  have hrecorded : getNamespace d.resource.slot.2 = str "envoy" ++ d.resource.name :=
    getNamespace_edgePath hns hname _
  rw [trimMessage_of_message hnode hns hm]
  constructor
  · change getNamespace d.resource.slot.2 = d.resource.ns ↔ _
    rw [hrecorded]
    exact eq_comm
  · intro e
    refine ⟨_, processInsert_trimmed e hns, ?_⟩
    have hstored := e.namespaceAt_put d.resource.spec.resourceKind
      ⟨d.resource.slot.2, getNamespace d.resource.slot.2, d.resource.spec⟩
    rw [show d.resource.slot = (d.resource.spec.resourceKind, d.resource.slot.2) from rfl, hstored,
      hrecorded, Option.some.injEq]
    exact eq_comm

open Sample

theorem edge_namespace_envoycert :
    ∃ m, (sendCert (str "envoycert") .insert).message codec = .ok m ∧
      (trimMessage m).recordedNamespace = str "envoycert" := by
  have hset : ∃ m, (sendCert (str "envoycert") .insert).message codec = .ok m :=
    ⟨_, message_ok (by decide +kernel) (by decide +kernel)⟩
  obtain ⟨m, hm⟩ := hset
  have hall := edge_namespace_iff codec
    (by decide +kernel) (by decide +kernel) (by decide +kernel) hm
  exact ⟨m, hm, hall.1.mpr (by decide +kernel)⟩

/-- The secret `cert` of the namespace `default` is recorded and stored under `envoycert`. -/
theorem namespace_not_recovered :
    ∃ m e', (sendCert (str "default") .insert).message codec = .ok m ∧
      processInsert codec {} (trimMessage m) = .ok (.ok e') ∧
      e'.namespaceAt (sendCert (str "default") .insert).resource.slot =
        some (str "envoycert") ∧
      (trimMessage m).recordedNamespace = str "envoycert" ∧ str "envoycert" ≠ str "default" := by
  have hm := message_ok (K := codec) (d := sendCert (str "default") .insert)
    (by decide +kernel) (by decide +kernel)
  have htrim := trimMessage_of_message (by decide +kernel) (by decide +kernel) hm
  have hinsert := processInsert_trimmed (K := codec) {}
    (d := sendCert (str "default") .insert) (by decide +kernel)
  refine ⟨_, _, hm, hinsert, ?_, ?_, by decide +kernel⟩
  · refine (ControlPlane.namespaceAt_put ..).trans ?_
    decide +kernel
  · rw [htrim]
    decide +kernel

end KubeEdge.Envoy
