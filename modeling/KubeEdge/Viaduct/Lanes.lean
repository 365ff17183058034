import KubeEdge.Go.Quote
import KubeEdge.Viaduct.Packer

namespace KubeEdge.Viaduct
open Go

/-- The content of a message, an `interface{}`; `other` is a value of any other type. -/
inductive Content (ν : Type)
  | none
  | bytes (b : List UInt8)
  | text (s : GoString)
  | other (v : ν)
  deriving DecidableEq, Repr

/-- `model.Message`. -/
structure ModelMessage (ν : Type) where
  id : GoString
  parentID : GoString
  timestamp : ℤ
  resourceVersion : GoString
  sync : Bool
  source : GoString
  group : GoString
  resource : GoString
  operation : GoString
  content : Content ν
  deriving DecidableEq, Repr

structure ProtoHeader where
  id : GoString := []
  parentID : GoString := []
  timestamp : ℤ := 0
  sync : Bool := false
  messageType : GoString := []
  deriving DecidableEq, Repr

structure ProtoRouter where
  source : GoString := []
  group : GoString := []
  operaion : GoString := []
  resouce : GoString := []
  deriving DecidableEq, Repr

/-- `message.Message`; header and router are pointers. -/
structure ProtoMessage where
  header : Option ProtoHeader
  router : Option ProtoRouter
  content : List UInt8 := []
  deriving DecidableEq, Repr

variable {ν : Type} {m : ModelMessage ν} {jsonMarshal : ν → Result (List UInt8)}

/-- Protocol buffers: strings are UTF-8, a message is below 2 GiB, and what was marshalled can be
unmarshalled. -/
structure ProtoBuf where
  marshal : ProtoMessage → Result (List UInt8)
  unmarshal : List UInt8 → Result ProtoMessage
  unmarshal_marshal : ∀ {m b}, marshal m = .ok b → unmarshal b = .ok m
  marshal_utf8 : ∀ {m b r}, marshal m = .ok b → m.router = some r → validUtf8 r.resouce = true
  marshal_length : ∀ {m b}, marshal m = .ok b → b.length < 2 ^ 31

/-- The content as `modelToProto` has it, with `json.Marshal` for the other values. -/
def contentToProto (jsonMarshal : ν → Result (List UInt8)) : Content ν → Result (List UInt8)
  | .none => .ok []
  | .bytes b => .ok b
  | .text s => .ok s
  | .other v => jsonMarshal v

def modelToProto (jsonMarshal : ν → Result (List UInt8)) (src : ModelMessage ν) :
    Result ProtoMessage := do
  let content ← contentToProto jsonMarshal src.content
  .ok {
    header := some {
      id := src.id
      parentID := src.parentID
      timestamp := src.timestamp
      sync := src.sync }
    router := some {
      source := src.source
      group := src.group
      resouce := src.resource
      operaion := src.operation }
    content := content }

/-- `protoToModel`, into a new message. -/
def protoToModel (src : ProtoMessage) : M (ModelMessage ν) :=
  match src.header, src.router with
  | some header, some router =>
    .ok {
      id := header.id
      parentID := header.parentID
      timestamp := header.timestamp
      resourceVersion := []
      sync := header.sync
      source := router.source
      group := router.group
      resource := router.resouce
      operation := router.operaion
      content := .bytes src.content }
  | _, _ => .error .nilDereference

def encode (B : ProtoBuf) (jsonMarshal : ν → Result (List UInt8)) (m : ModelMessage ν) :
    Result (List UInt8) := do
  let protoMessage ← modelToProto jsonMarshal m
  B.marshal protoMessage

def decode (B : ProtoBuf) (raw : List UInt8) : M (Result (ModelMessage ν)) :=
  match B.unmarshal raw with
  | .error err => .ok (.error err)
  | .ok protoMessage => do
    let m ← protoToModel protoMessage
    .ok (.ok m)

/-- A message as it comes out of the translator: without its resource version, and with bytes
for a content. -/
def translated (m : ModelMessage ν) (content : List UInt8) : ModelMessage ν :=
  { m with resourceVersion := [], content := .bytes content }

/-- What is encoded is decoded as the translated message, and the path is UTF-8. -/
theorem decode_encode {B : ProtoBuf} {raw : List UInt8} (h : encode B jsonMarshal m = .ok raw) :
    ∃ content, contentToProto jsonMarshal m.content = .ok content ∧
      decode B raw = .ok (.ok (translated m content)) ∧ validUtf8 m.resource = true ∧
      raw.length < 2 ^ 32 := by
  unfold encode modelToProto at h
  cases hcontent : contentToProto jsonMarshal m.content with
  | error err =>
    rw [hcontent] at h
    cases h
  | ok content =>
    rw [hcontent] at h
    refine ⟨content, rfl, ?_, B.marshal_utf8 h rfl, ?_⟩
    · unfold decode
      rw [B.unmarshal_marshal h]
      rfl
    · exact lt_trans (B.marshal_length h) (by decide)

inductive LaneError
  | package (e : PackageError)
  | decode (err : GoString)
  deriving DecidableEq, Repr

namespace QuicLane

/-- `WriteMessage`, on a stream that takes every byte. -/
def writeMessage (B : ProtoBuf) (jsonMarshal : ν → Result (List UInt8)) (out : List UInt8)
    (m : ModelMessage ν) : Result (List UInt8) := do
  let rawData ← encode B jsonMarshal m
  match write (some buffer) out rawData with
  | (.error err, _) => .error err
  | (.ok _, out) => .ok out

def readMessage (B : ProtoBuf) (s : Stream) :
    Option (M (Except LaneError (ModelMessage ν)) × Option Stream) :=
  match read (some s) with
  | none => none
  | some (.error fault, s) => some (.error fault, s)
  | some (.ok (.error e), s) => some (.ok (.error (.package e)), s)
  | some (.ok (.ok rawData), s) =>
    match decode B rawData with
    | .error fault => some (.error fault, s)
    | .ok (.error err) => some (.ok (.error (.decode err)), s)
    | .ok (.ok m) => some (.ok (.ok m), s)

/-- What is written after other messages is read after them, as the translated message. -/
theorem readMessage_written {B : ProtoBuf} {out out' : List UInt8}
    (h : writeMessage B jsonMarshal out m = .ok out') {s : Stream} {rest : List UInt8}
    (hs : out ++ s.bytes = out' ++ rest) :
    ∃ content s', contentToProto jsonMarshal m.content = .ok content ∧
      readMessage B s = some (.ok (.ok (translated m content)), some s') ∧ s'.bytes = rest ∧
      validUtf8 m.resource = true := by
  unfold writeMessage at h
  cases hraw : encode B jsonMarshal m with
  | error err =>
    rw [hraw] at h
    cases h
  | ok raw =>
    rw [hraw] at h
    obtain ⟨content, hcontent, hdecode, hutf8, hlen⟩ := decode_encode hraw
    have hout : out ++ package raw = out' := by
      simpa [write_buffer, bind, Except.bind] using h
    have hbytes : s.bytes = package raw ++ rest := by
      rw [← hout, List.append_assoc] at hs
      exact List.append_cancel_left hs
    obtain ⟨s', hread, hs'⟩ := read_package hlen hbytes
    refine ⟨content, s', hcontent, ?_, hs', hutf8⟩
    simp [readMessage, hread, hdecode]

end QuicLane

/-- The strings of a message; `json.Marshal` writes each of them. -/
def ModelMessage.mapText (f : GoString → GoString) (m : ModelMessage ν) : ModelMessage ν where
  id := f m.id
  parentID := f m.parentID
  timestamp := m.timestamp
  resourceVersion := f m.resourceVersion
  sync := m.sync
  source := f m.source
  group := f m.group
  resource := f m.resource
  operation := f m.operation
  content :=
    match m.content with
    | .text s => .text (f s)
    | c => c

/-- JSON of messages: one whose content is a string has a JSON, and is read from it with its
strings made UTF-8. -/
structure Json (ν : Type) where
  Text : Type
  marshal : ModelMessage ν → Result Text
  unmarshal : Text → Result (ModelMessage ν)
  coerce : GoString → GoString
  coerce_utf8 : ∀ {s}, validUtf8 s = true → coerce s = s
  unmarshal_marshal : ∀ {m s}, m.content = .text s →
    ∃ text, marshal m = .ok text ∧ unmarshal text = .ok (m.mapText coerce)

namespace WSLane

variable {J : Json ν}

/-- `WriteJSON`: one WebSocket message for each message. -/
def writeMessage (J : Json ν) (out : List J.Text) (m : ModelMessage ν) : Result (List J.Text) := do
  let text ← J.marshal m
  .ok (out ++ [text])

/-- `ReadJSON`, with the WebSocket messages left; there is none at the end of the connection. -/
def readMessage (J : Json ν) : List J.Text → Option (Result (ModelMessage ν) × List J.Text)
  | [] => none
  | text :: rest => some (J.unmarshal text, rest)

theorem readMessage_written {t : GoString} (ht : m.content = .text t) (out : List J.Text) :
    ∃ text, writeMessage J out m = .ok (out ++ [text]) ∧
      ∀ rest, readMessage J (text :: rest) = some (.ok (m.mapText J.coerce), rest) := by
  obtain ⟨text, hmarshal, hunmarshal⟩ := J.unmarshal_marshal ht
  refine ⟨text, ?_, ?_⟩
  · unfold writeMessage
    rw [hmarshal]
    rfl
  · intro rest
    rw [readMessage, hunmarshal]

end WSLane

end KubeEdge.Viaduct
