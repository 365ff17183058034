import KubeEdge.Envoy.Wire
import KubeEdge.Viaduct.Lanes

namespace KubeEdge.Envoy.Transport
open Go

variable {ν : Type} {m' : Viaduct.ModelMessage ν}

/-- Protocol buffers of the resources; marshalling may fail. -/
structure Marshaller where
  marshal : Spec → Result (List UInt8)
  unmarshal : ResourceKind → List UInt8 → Option Spec
  unmarshal_marshal : ∀ {s b}, marshal s = .ok b → unmarshal s.resourceKind b = some s

def operationText : Operation → GoString
  | .insert => str "insert"
  | .delete => str "delete"

/-- The message of `dispatchResource`; `NewMessage` makes up the id and the time. -/
def dispatchMessage (P : Marshaller) (id : GoString) (timestamp : ℤ) (d : Dispatch) :
    Result (Viaduct.ModelMessage ν) := do
  let resource ← d.path
  let resourcepb ← P.marshal d.resource.spec
  .ok {
    id := id
    parentID := []
    timestamp := timestamp
    resourceVersion := d.resource.resourceVersion
    sync := false
    source := str "envoyingress"
    group := str "envoy"
    resource := resource
    operation := operationText d.opr
    content := .text (base64Encode resourcepb) }

/-- `trimMessage` of the cloud hub. -/
def trimModel (m : Viaduct.ModelMessage ν) : Viaduct.ModelMessage ν :=
  { m with resource := trimPath m.resource }

theorem dispatchMessage_inv {P : Marshaller} {id : GoString} {timestamp : ℤ} {d : Dispatch}
    {m : Viaduct.ModelMessage ν} (h : dispatchMessage P id timestamp d = .ok m) :
    ∃ b, P.marshal d.resource.spec = .ok b ∧ d.path = .ok m.resource ∧
      m.content = .text (base64Encode b) := by
  unfold dispatchMessage at h
  cases hpath : d.path with
  | error err =>
    rw [hpath] at h
    cases h
  | ok resource =>
    cases hb : P.marshal d.resource.spec with
    | error err =>
      rw [hpath, hb] at h
      cases h
    | ok b =>
      rw [hpath, hb] at h
      cases h
      exact ⟨b, rfl, rfl, rfl⟩

/-- `dao.Secret`, `dao.Endpoint` and so on. -/
structure Row where
  id : GoString
  name : GoString
  value : GoString
  jsonValue : GoString
  deriving DecidableEq, Repr

inductive InsertError
  | content
  | unquote
  | base64
  | unknownKind
  | unmarshal
  | json
  | save
  deriving DecidableEq, Repr

/-- What `processInsert` calls: protocol buffers, `json.Marshal` of a resource and of a content,
and the database, which may fail. -/
structure Edge (ν : Type) extends Marshaller where
  jsonMarshal : Spec → Option GoString
  jsonContent : ν → Result GoString
  saves : ResourceKind → Row → Bool

structure EdgeState where
  plane : ControlPlane := {}
  tables : ResourceKind → GoMap GoString Row := fun _ => ∅

def generateContent (E : Edge ν) : Viaduct.Content ν → Result GoString
  | .bytes b => .ok b
  | .none => .ok (str "null")
  | .text s => .ok (jsonString s)
  | .other v => E.jsonContent v

/-- The second part of `processInsert`: the resource goes to the map of its kind, and then the
row to the table. -/
def store (E : Edge ν) (st : EdgeState) (kind : ResourceKind) (resource unquoted : GoString)
    (bytes : List UInt8) : EdgeState × Except InsertError (ResourceKind × Row) :=
  match E.unmarshal kind bytes with
  | none => (st, .error .unmarshal)
  | some spec =>
    let st := { st with plane := st.plane.put kind ⟨resource, getNamespace resource, spec⟩ }
    match E.jsonMarshal spec with
    | none => (st, .error .json)
    | some json =>
      let row : Row := ⟨resource, resource, unquoted, json⟩
      if E.saves kind row then
        ({ st with
            tables := Function.update st.tables kind ((st.tables kind).insert row.id row) },
          .ok (kind, row))
      else (st, .error .save)

/-- `processInsert`, with the row that it saved. -/
def processInsert (E : Edge ν) (st : EdgeState) (m : Viaduct.ModelMessage ν) :
    M (EdgeState × Except InsertError (ResourceKind × Row)) :=
  match generateContent E m.content with
  | .error _ => .ok (st, .error .content)
  | .ok content => do
    let (resKey, resType) ← parseResource m.resource
    match unquote content with
    | none => .ok (st, .error .unquote)
    | some unquoted =>
      match base64Decode unquoted with
      | none => .ok (st, .error .base64)
      | some bytes =>
        match ResourceKind.ofText resType with
        | none => .ok (st, .error .unknownKind)
        | some kind => .ok (store E st kind resKey unquoted bytes)

/-- Whether an insertion succeeds, and the kind, the key and the bytes that it stores. -/
def outcome (E : Edge ν) (st : EdgeState) (m : Viaduct.ModelMessage ν) :
    M (Option (ResourceKind × Row)) :=
  (processInsert E st m).map (·.2.toOption)

/-- The path names a kind of which the bytes are a resource, and its row can be saved. -/
def Stores (E : Edge ν) (resource : GoString) (b : List UInt8) : Prop :=
  ∃ kindText kind spec json, parseResource resource = .ok (resource, kindText) ∧
    ResourceKind.ofText kindText = some kind ∧ E.unmarshal kind b = some spec ∧
    E.jsonMarshal spec = some json ∧
    E.saves kind ⟨resource, resource, base64Encode b, json⟩ = true

theorem parseResource_key {resource key kindText : GoString}
    (h : parseResource resource = .ok (key, kindText)) : key = resource := by
  unfold parseResource at h
  split at h
  · exact (congrArg Prod.fst (Except.ok.inj h)).symm
  · cases h

section Contents

variable {E : Edge ν} {m : Viaduct.ModelMessage ν} {b : List UInt8}

theorem processInsert_text (hm : m.content = .text (base64Encode b)) (st : EdgeState) :
    processInsert E st m = parseResource m.resource >>= fun (resKey, resType) =>
      match ResourceKind.ofText resType with
      | none => .ok (st, .error .unknownKind)
      | some kind => .ok (store E st kind resKey (base64Encode b) b) := by
  simp [processInsert, hm, generateContent, unquote_json_base64, base64Decode_encode]

theorem processInsert_bare (hm : m.content = .bytes (base64Encode b)) (st : EdgeState) :
    processInsert E st m = parseResource m.resource >>= fun _ => .ok (st, .error .unquote) := by
  simp [processInsert, hm, generateContent, unquote_base64]

section

variable (st : EdgeState) (kind : ResourceKind) (resource unquoted : GoString)

theorem store_eq_none :
    (store E st kind resource unquoted b).2.toOption = none ↔
      ¬ ∃ spec json, E.unmarshal kind b = some spec ∧ E.jsonMarshal spec = some json ∧
        E.saves kind ⟨resource, resource, unquoted, json⟩ = true := by
  unfold store
  cases hspec : E.unmarshal kind b with
  | none => simp [Except.toOption]
  | some spec =>
    cases hjson : E.jsonMarshal spec with
    | none => simp [Except.toOption, hjson]
    | some json =>
      simp only [hjson]
      split_ifs with hsaves <;> simp [Except.toOption, hjson, hsaves]

theorem store_plane :
    (store E st kind resource unquoted b).1.plane =
      match E.unmarshal kind b with
      | none => st.plane
      | some spec => st.plane.put kind ⟨resource, getNamespace resource, spec⟩ := by
  unfold store
  cases E.unmarshal kind b with
  | none => rfl
  | some spec =>
    cases hjson : E.jsonMarshal spec with
    | none => simp [hjson]
    | some json =>
      simp only [hjson]
      split_ifs <;> rfl

end

/-- The two contents have the same outcome exactly if the resource is not stored either way. -/
theorem outcome_eq_iff (hm : m.content = .text (base64Encode b))
    (hm' : m'.content = .bytes (base64Encode b)) (hresource : m'.resource = m.resource)
    (st : EdgeState) : outcome E st m = outcome E st m' ↔ ¬ Stores E m.resource b := by
  unfold outcome Stores
  rw [processInsert_text hm, processInsert_bare hm', hresource]
  cases hparse : parseResource m.resource with
  | error fault => simp
  | ok parsed =>
    obtain ⟨key, kindText⟩ := parsed
    obtain rfl := parseResource_key hparse
    cases hkind : ResourceKind.ofText kindText with
    | none => simp [hkind, Except.map, Except.toOption]
    | some kind =>
      have hstore := store_eq_none (E := E) (b := b) st kind m.resource (base64Encode b)
      have hrefused : (.error .unquote : Except InsertError (ResourceKind × Row)).toOption = none :=
        rfl
      simp [hkind, hrefused, hstore, Except.map]

end Contents

/-- A message of the edge's model, in which a content is bytes or a string. -/
def contentOf : Content → Viaduct.Content ν
  | .bytes b => .bytes b
  | .text s => .text s

theorem processInsert_plane {P : Proto} {E : Edge ν} (hP : E.unmarshal = P.unmarshal)
    (st : EdgeState) (m : Message P.codec) (hresource : m'.resource = m.resource)
    (hcontent : m'.content = contentOf m.content) :
    (processInsert E st m').map (·.1.plane) =
      (Envoy.processInsert P.codec st.plane m).map fun
        | .ok plane => plane
        | .error _ => st.plane := by
  have hgenerate : generateContent E m'.content = .ok (Envoy.generateContent m.content) := by
    rw [hcontent]
    cases m.content <;> rfl
  have hdecode : P.codec.decode m.content = decodeContent m.content := rfl
  unfold processInsert Envoy.processInsert
  simp only [hgenerate, hresource, hdecode, decodeContent]
  cases hparse : parseResource m.resource with
  | error fault => rfl
  | ok parsed =>
    obtain ⟨key, kindText⟩ := parsed
    simp only [ok_bind]
    cases unquote (Envoy.generateContent m.content) with
    | none => rfl
    | some unquoted =>
      cases hbytes : base64Decode unquoted with
      | none => simp [hbytes, Except.map]
      | some bytes =>
        obtain rfl := parseResource_key hparse
        cases ResourceKind.ofText kindText with
        | none => simp [hbytes, Except.map]
        | some kind =>
          have hunmarshal : P.codec.unmarshal kind bytes = E.unmarshal kind bytes := by
            rw [hP]
            rfl
          simp only [Option.bind_eq_bind, Option.bind_some, hbytes, hunmarshal, Except.map,
            store_plane]
          cases E.unmarshal kind bytes <;> rfl

theorem validUtf8_base64 (b : List UInt8) : validUtf8 (base64Encode b) = true := by
  apply validUtf8_ascii
  intro c hc
  have hall : ∀ n : Fin 256, IsBase64 (UInt8.ofNat n) → UInt8.ofNat n < 0x80 := by
    decide +kernel
  have hc' := hall ⟨c.toNat, c.toNat_lt⟩
  simp only [UInt8.ofNat_toNat] at hc'
  exact hc' (isBase64_encode b c hc)

section Lanes

variable {E : Edge ν} {B : Viaduct.ProtoBuf} {J : Viaduct.Json ν} {id : GoString} {timestamp : ℤ}
  {d : Dispatch} {m : Viaduct.ModelMessage ν} {b : List UInt8}

/-- A message of `dispatchResource` that is written to both lanes, after whatever was written
before, is read from both.  The outcome at the edge is the same exactly if its resource is not
stored in any case: the path names no kind of resource or the bytes are none of that kind, or
the row cannot be made or saved. -/
theorem lanes_agree_iff (hm : dispatchMessage E.toMarshaller id timestamp d = .ok m)
    (hb : E.marshal d.resource.spec = .ok b) {before out : List UInt8}
    (hout : Viaduct.QuicLane.writeMessage B E.jsonContent before (trimModel m) = .ok out)
    (texts : List J.Text) :
    ∃ text m₁, Viaduct.WSLane.writeMessage J texts (trimModel m) = .ok (texts ++ [text]) ∧
      (∀ rest, Viaduct.WSLane.readMessage J (text :: rest) = some (.ok m₁, rest)) ∧
      ∀ (s : Stream) (rest : List UInt8), before ++ s.bytes = out ++ rest →
        ∃ m₂ s', Viaduct.QuicLane.readMessage B s = some (.ok (.ok m₂), some s') ∧
          s'.bytes = rest ∧
          ∀ st, outcome E st m₁ = outcome E st m₂ ↔ ¬ Stores E (trimPath m.resource) b := by
  obtain ⟨b', hb', -, hcontent⟩ := dispatchMessage_inv hm
  obtain rfl : b' = b := Except.ok.inj (hb'.symm.trans hb)
  have htext : (trimModel m).content = .text (base64Encode b') := hcontent
  obtain ⟨text, hwrite, hread⟩ := Viaduct.WSLane.readMessage_written htext texts
  refine ⟨text, _, hwrite, hread, ?_⟩
  intro s rest hs
  obtain ⟨content, s', hproto, hread', hs', hutf8⟩ := Viaduct.QuicLane.readMessage_written hout hs
  refine ⟨_, s', hread', hs', ?_⟩
  -- the path is UTF-8, as it was written to the stream, and so is base64
  have hresource : ((trimModel m).mapText J.coerce).resource = trimPath m.resource :=
    J.coerce_utf8 hutf8
  have hstring : ((trimModel m).mapText J.coerce).content = .text (base64Encode b') := by
    unfold Viaduct.ModelMessage.mapText
    simp [htext, J.coerce_utf8 (validUtf8_base64 b')]
  have hbare : (Viaduct.translated (trimModel m) content).content = .bytes (base64Encode b') := by
    rw [htext] at hproto
    cases hproto
    rfl
  intro st
  rw [← hresource]
  exact outcome_eq_iff hstring hbare hresource.symm st

end Lanes

namespace Sample

/-- Secrets without a certificate, by their names, and a database that takes every row. -/
def edge : Edge Unit where
  marshal
    | .secret ⟨name, none, none⟩ => .ok name
    | _ => .error (str "not supported")
  unmarshal kind b := if kind = .secret then some (.secret ⟨b, none, none⟩) else none
  unmarshal_marshal := by
    intro s b h
    split at h
    · cases h
      rfl
    · cases h
  jsonMarshal _ := some (str "null")
  jsonContent _ := .ok (str "null")
  saves _ _ := true

def protoBuf (known : Viaduct.ProtoMessage)
    (hutf8 : ∀ r, known.router = some r → validUtf8 r.resouce = true) : Viaduct.ProtoBuf where
  marshal m := if m = known then .ok [1] else .error (str "not supported")
  unmarshal b := if b = [1] then .ok known else .error (str "unexpected end")
  unmarshal_marshal := by
    intro m b h
    split_ifs at h with hm
    cases h
    rw [if_pos rfl, hm]
  marshal_utf8 := by
    intro m b r h hr
    split_ifs at h with hm
    exact hutf8 r (hm ▸ hr)
  marshal_length := by
    intro m b h
    split_ifs at h
    cases h
    decide

def json : Viaduct.Json Unit where
  Text := Viaduct.ModelMessage Unit
  marshal m := .ok m
  unmarshal m := .ok (m.mapText id)
  coerce := id
  coerce_utf8 _ := rfl
  unmarshal_marshal _ := ⟨_, rfl, rfl⟩

/-- The message for the secret `cert` with this path. -/
def sent (path : GoString) : Viaduct.ModelMessage Unit :=
  ⟨str "id", [], 0, [], false, str "envoyingress", str "envoy", path, str "insert",
    .text (base64Encode (str "cert"))⟩

def sentProto (path : GoString) : Viaduct.ProtoMessage where
  header := some { id := str "id" }
  router := some ⟨str "envoyingress", str "envoy", str "insert", path⟩
  content := base64Encode (str "cert")

/-- Protocol buffers that know the two messages below, each in its turn. -/
def protoBufDefault : Viaduct.ProtoBuf :=
  protoBuf (sentProto (str "default/Secret/envoycert")) fun _ h => by
    cases h
    decide +kernel

def protoBufSlash : Viaduct.ProtoBuf :=
  protoBuf (sentProto (str "a/b/Secret/envoycert")) fun _ h => by
    cases h
    decide +kernel

/-- The only package that these protocol buffers make. -/
def stream : Stream where
  chunks := [Viaduct.package [1]]
  nonempty := by decide

end Sample

/-- A namespace with a slash: no kind is found in the path, on either lane. -/
theorem lanes_agree_unknown :
    ∃ m m₁ m₂ s', dispatchMessage Sample.edge.toMarshaller (str "id") 0
        (Sample.sendCert (str "a/b") .insert) = .ok m ∧
      Viaduct.WSLane.readMessage Sample.json [trimModel m] = some (.ok m₁, []) ∧
      Viaduct.QuicLane.readMessage Sample.protoBufSlash Sample.stream =
        some (.ok (.ok m₂), some s') ∧
      outcome Sample.edge {} m₁ = outcome Sample.edge {} m₂ := by
  have hm : dispatchMessage Sample.edge.toMarshaller (str "id") 0
      (Sample.sendCert (str "a/b") .insert) =
      .ok (Sample.sent (str "node/node/a/b/Secret/envoycert")) := rfl
  have hout : Viaduct.QuicLane.writeMessage Sample.protoBufSlash Sample.edge.jsonContent []
      (trimModel (Sample.sent (str "node/node/a/b/Secret/envoycert"))) =
      .ok (Viaduct.package [1]) := rfl
  obtain ⟨text, m₁, hwrite, hread, hquic⟩ :=
    lanes_agree_iff (J := Sample.json) hm rfl hout []
  obtain ⟨m₂, s', hread', -, hiff⟩ := hquic Sample.stream [] rfl
  have htext : trimModel (Sample.sent (str "node/node/a/b/Secret/envoycert")) = text := by
    exact (List.cons.inj (Except.ok.inj hwrite)).1
  refine ⟨_, m₁, m₂, s', hm, htext ▸ hread [], hread', (hiff {}).mpr ?_⟩
  rintro ⟨kindText, kind, -, -, hparse, hkind, -⟩
  have hkindText : str "b" = kindText := congrArg Prod.snd (Except.ok.inj hparse)
  have hnone : ResourceKind.ofText (str "b") = none := by decide +kernel
  rw [← hkindText, hnone] at hkind
  cases hkind

/-- The secret `cert` of the namespace `default` is stored if it comes on a WebSocket, and an
error if it comes on a QUIC stream. -/
theorem lanes_disagree :
    ∃ m m₁ m₂ s', dispatchMessage Sample.edge.toMarshaller (str "id") 0
        (Sample.sendCert (str "default") .insert) = .ok m ∧
      Viaduct.WSLane.writeMessage Sample.json [] (trimModel m) = .ok [trimModel m] ∧
      Viaduct.WSLane.readMessage Sample.json [trimModel m] = some (.ok m₁, []) ∧
      Viaduct.QuicLane.writeMessage Sample.protoBufDefault Sample.edge.jsonContent []
        (trimModel m) = .ok Sample.stream.bytes ∧
      Viaduct.QuicLane.readMessage Sample.protoBufDefault Sample.stream =
        some (.ok (.ok m₂), some s') ∧
      outcome Sample.edge {} m₁ = .ok (some (.secret, ⟨str "default/Secret/envoycert",
        str "default/Secret/envoycert", base64Encode (str "cert"), str "null"⟩)) ∧
      outcome Sample.edge {} m₂ = .ok none := by
  refine ⟨Sample.sent (str "node/node/default/Secret/envoycert"), _, _, _, rfl, rfl, rfl, rfl, rfl,
    ?_, ?_⟩
  · unfold outcome
    rw [processInsert_text rfl]
    rfl
  · unfold outcome
    rfl

end KubeEdge.Envoy.Transport
