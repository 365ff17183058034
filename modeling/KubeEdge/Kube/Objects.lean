import KubeEdge.Go.Control
import KubeEdge.Go.Indexer

namespace KubeEdge
open Go

/-- `[a-z0-9-]`. -/
def isLabelChar (c : UInt8) : Bool :=
  (97 ≤ c.toNat && c.toNat ≤ 122) || (48 ≤ c.toNat && c.toNat ≤ 57) || c.toNat == 45

/-- A DNS label.  Which characters may stand first and last is not needed below,
so that part of the rule is left out. -/
def IsDNSLabel (s : GoString) : Prop := s ≠ [] ∧ s.length ≤ 63 ∧ ∀ c ∈ s, isLabelChar c

/-- A DNS subdomain: labels separated by dots. -/
def IsDNSSubdomain (s : GoString) : Prop :=
  s ≠ [] ∧ s.length ≤ 253 ∧ ∀ c ∈ s, isLabelChar c ∨ c.toNat = 46

-- `List.all` goes through the text once; the instance of `∀ c ∈ s` evaluates it at every step
instance (s : GoString) : Decidable (IsDNSLabel s) :=
  decidable_of_iff (s ≠ [] ∧ s.length ≤ 63 ∧ s.all isLabelChar) (by simp [IsDNSLabel])

instance (s : GoString) : Decidable (IsDNSSubdomain s) :=
  decidable_of_iff (s ≠ [] ∧ s.length ≤ 253 ∧ s.all fun c => isLabelChar c || c.toNat == 46)
    (by simp [IsDNSSubdomain])

variable {s : GoString}

theorem IsDNSLabel.subdomain (h : IsDNSLabel s) : IsDNSSubdomain s :=
  ⟨h.1, h.2.1.trans (by decide), fun c hc => .inl (h.2.2 c hc)⟩

theorem isLabelChar_iff {c : UInt8} : isLabelChar c ↔
    (97 ≤ c.toNat ∧ c.toNat ≤ 122) ∨ (48 ≤ c.toNat ∧ c.toNat ≤ 57) ∨ c.toNat = 45 := by
  simp [isLabelChar, or_assoc]

section

variable (h : IsDNSSubdomain s)
include h

theorem IsDNSSubdomain.not_mem {c : UInt8} (hc : c.toNat = 47 ∨ c.toNat = 95) : c ∉ s := by
  intro hm
  have := h.2.2 c hm
  rw [isLabelChar_iff] at this
  omega

theorem IsDNSSubdomain.slash : (47 : UInt8) ∉ s :=
  h.not_mem (.inl rfl)

theorem IsDNSSubdomain.underscore : (95 : UInt8) ∉ s :=
  h.not_mem (.inr rfl)

end

/-- The part of `metav1.ObjectMeta` that is read, for a namespaced object. -/
structure ObjectMeta where
  name : GoString
  ns : GoString
  uid : GoString := []
  resourceVersion : GoString := []
  annotations : GoMap GoString GoString := ∅
  name_valid : IsDNSSubdomain name
  ns_valid : IsDNSLabel ns

/-- `m[k]` of a `map[string]string`: a missing key reads as the empty string. -/
def index (m : GoMap GoString GoString) (k : GoString) : GoString := (m.lookup k).getD []

def ObjectMeta.key (m : ObjectMeta) : GoString × GoString := (m.ns, m.name)

/-- `cache.MetaNamespaceKeyFunc`, which `controller.KeyFunc` is for a live object. -/
def keyFunc (m : ObjectMeta) : GoString := if 0 < m.ns.length then m.ns ++ 47 :: m.name else m.name

/-- `cache.SplitMetaNamespaceKey`; `none` is the format error. -/
def splitMetaNamespaceKey (key : GoString) : Option (GoString × GoString) :=
  match split 47 key with
  | [name] => some ([], name)
  | [ns, name] => some (ns, name)
  | _ => none

theorem keyFunc_eq (m : ObjectMeta) : keyFunc m = m.ns ++ 47 :: m.name :=
  if_pos (List.length_pos_of_ne_nil m.ns_valid.1)

theorem split_keyFunc (m : ObjectMeta) :
    splitMetaNamespaceKey (keyFunc m) = some (m.ns, m.name) := by
  have hs : split 47 (keyFunc m) = [m.ns, m.name] := by
    have := split_join 47 (s := [m.ns, m.name]) (by simp) (by
      intro x hx
      simp only [List.mem_cons, List.not_mem_nil, or_false] at hx
      rcases hx with rfl | rfl
      · exact m.ns_valid.subdomain.slash
      · exact m.name_valid.slash)
    simpa [keyFunc_eq] using this
  simp [splitMetaNamespaceKey, hs]

theorem keyFunc_of_split {key : GoString} {m : ObjectMeta}
    (h : splitMetaNamespaceKey key = some m.key) : key = keyFunc m := by
  have hj : join 47 (split 47 key) = key := join_split 47 key
  unfold splitMetaNamespaceKey at h
  split at h
  · have hns : ([] : GoString) = m.ns := congrArg Prod.fst (Option.some.inj h)
    exact absurd hns.symm m.ns_valid.1
  · rename_i ns name hs
    have hk : (ns, name) = m.key := Option.some.inj h
    rw [hs] at hj
    rw [keyFunc_eq, ← hj, show m.ns = ns from (congrArg Prod.fst hk).symm,
      show m.name = name from (congrArg Prod.snd hk).symm]
    simp
  · cases h

theorem keyFunc_inj {m m' : ObjectMeta} (h : keyFunc m = keyFunc m') : m.key = m'.key := by
  have := split_keyFunc m
  rw [h, split_keyFunc m'] at this
  exact (Option.some.inj this).symm

/-- `reflect.DeepEqual` on two maps: a nil map equals only a nil map. -/
def deepEqual {V : Type} : Option (GoMap GoString V) → Option (GoMap GoString V) → Prop
  | none, none => True
  | some a, some b => a.entries.Perm b.entries
  | _, _ => False

instance {V : Type} [DecidableEq V] (a b : Option (GoMap GoString V)) : Decidable (deepEqual a b) :=
  match a, b with
  | none, none => isTrue trivial
  | some _, some _ => inferInstanceAs (Decidable (List.Perm _ _))
  | none, some _ => isFalse id
  | some _, none => isFalse id

inductive Protocol
  | TCP
  | UDP
  | SCTP
  deriving DecidableEq, Repr

structure ServicePort where
  name : GoString
  protocol : Protocol
  port : Int32
  deriving DecidableEq

/-- A service; its name is a DNS label. -/
structure Service extends ObjectMeta where
  ports : List ServicePort
  selector : Option (GoMap GoString GoString) := none
  externalName : GoString := []
  name_label : IsDNSLabel name

/-- `other` stands for the fields that only `reflect.DeepEqual` looks at. -/
structure EndpointAddress where
  ip : GoString
  other : GoString := []
  deriving DecidableEq

structure EndpointPort where
  name : GoString
  port : Int32
  protocol : Protocol
  deriving DecidableEq

structure EndpointSubset where
  addresses : List EndpointAddress
  notReadyAddresses : List EndpointAddress := []
  ports : List EndpointPort
  deriving DecidableEq

structure Endpoints extends ObjectMeta where
  subsets : List EndpointSubset

structure Secret extends ObjectMeta where
  type : GoString := []
  data : Option (GoMap GoString (List UInt8))
  stringData : Option (GoMap GoString (List UInt8)) := none

/-- `s.Data[k]`; `none` is the nil slice. -/
def Secret.index (s : Secret) (k : GoString) : Option (List UInt8) := s.data.bind (AList.lookup k)

inductive NodeConditionType
  | ready
  | other (name : GoString)
  deriving DecidableEq

inductive ConditionStatus
  | true
  | false
  | unknown
  deriving DecidableEq, Repr

structure NodeCondition where
  type : NodeConditionType
  status : ConditionStatus
  deriving DecidableEq

structure Node where
  name : GoString
  labels : GoMap GoString GoString
  conditions : List NodeCondition
  name_valid : IsDNSSubdomain name

structure ServiceBackendPort where
  name : GoString := []
  number : Int32 := 0
  deriving DecidableEq

structure IngressServiceBackend where
  name : GoString
  port : ServiceBackendPort
  deriving DecidableEq

/-- The `resource` alternative is never looked at: such a backend has no service. -/
structure IngressBackend where
  service : Option IngressServiceBackend
  deriving DecidableEq

inductive PathType
  | exact
  | prefix_
  | implementationSpecific
  deriving DecidableEq, Repr

structure HTTPIngressPath where
  path : GoString
  pathType : Option PathType
  backend : IngressBackend
  deriving DecidableEq

structure IngressRule where
  host : GoString
  http : Option (List HTTPIngressPath)
  deriving DecidableEq

structure IngressTLS where
  hosts : List GoString
  secretName : GoString
  deriving DecidableEq

/-- `networking/v1` `Ingress`. -/
structure Ingress extends ObjectMeta where
  defaultBackend : Option IngressBackend := none
  tls : List IngressTLS := []
  rules : List IngressRule := []

inductive IntOrString
  | int (v : Int32)
  | string (v : GoString)
  deriving DecidableEq

namespace V1beta1

structure IngressBackend where
  serviceName : GoString
  servicePort : IntOrString
  deriving DecidableEq

structure HTTPIngressPath where
  path : GoString
  pathType : Option PathType
  backend : IngressBackend
  deriving DecidableEq

structure IngressRule where
  host : GoString
  http : Option (List HTTPIngressPath)
  deriving DecidableEq

/-- `networking/v1beta1` `Ingress`. -/
structure Ingress extends ObjectMeta where
  backend : Option IngressBackend := none
  tls : List IngressTLS := []
  rules : List IngressRule := []

end V1beta1

abbrev IngressLister := Indexer Ingress (·.key)
abbrev V1beta1IngressLister := Indexer V1beta1.Ingress (·.key)
abbrev ServiceLister := Indexer Service (·.key)
abbrev EndpointsLister := Indexer Endpoints (·.key)
abbrev SecretLister := Indexer Secret (·.key)

/-- What the listers of the controller return at one moment. -/
structure Listers where
  ingresses : IngressLister := ∅
  v1beta1Ingresses : V1beta1IngressLister := ∅
  services : ServiceLister := ∅
  endpoints : EndpointsLister := ∅
  secrets : SecretLister := ∅

/-- `Lister.Xs(ns).List(labels.Everything())`; the namespace `""` lists everything.  The vendored
indexer ranges over a Go map, so the order of `objects` is that of one call. -/
def listByNamespace {α : Type} {key : α → GoString × GoString} (s : Indexer α key) (ns : GoString) :
    List α :=
  if ns = [] then s.objects else s.objects.filter fun o => (key o).1 = ns

end KubeEdge
