import KubeEdge.Envoy.Store
import KubeEdge.MetaServer.Keys

namespace KubeEdge.DynamicController
open Go MetaServer

variable {β : Type}

/-- `labels.Set` and `fields.Set`. -/
abbrev Attributes := GoMap GoString GoString

inductive Operator
  | equals
  | doubleEquals
  | isIn
  | notIn
  | notEquals
  | exist
  | doesNotExist
  | greaterThan
  | lessThan
  deriving DecidableEq, Repr

structure Requirement where
  key : GoString
  operator : Operator
  strValues : List GoString
  deriving DecidableEq, Repr

/-- The comparison of `Gt` and `Lt`, which have one value. -/
def Requirement.compare (r : Requirement) (value : GoString) (less : ℤ → ℤ → Bool) : Bool :=
  match parseInt value, r.strValues with
  | some lsValue, [strValue] =>
    match parseInt strValue with
    | some rValue => less lsValue rValue
    | none => false
  | _, _ => false

def Requirement.matches (r : Requirement) (ls : Attributes) : Bool :=
  match r.operator, ls.lookup r.key with
  | .isIn, some value | .equals, some value | .doubleEquals, some value => value ∈ r.strValues
  | .isIn, none | .equals, none | .doubleEquals, none => false
  | .notIn, some value | .notEquals, some value => value ∉ r.strValues
  | .notIn, none | .notEquals, none => true
  | .exist, value => value.isSome
  | .doesNotExist, value => value.isNone
  | .greaterThan, some value => r.compare value fun a b => b < a
  | .lessThan, some value => r.compare value fun a b => a < b
  | .greaterThan, none | .lessThan, none => false

/-- `labels.Selector`: all requirements. -/
abbrev LabelSelector := List Requirement

def LabelSelector.matches (s : LabelSelector) (ls : Attributes) : Bool := s.all (·.matches ls)

/-- A term `field=value` or `field!=value`. -/
structure FieldTerm where
  field : GoString
  value : GoString
  negated : Bool := false
  deriving DecidableEq, Repr

/-- A missing field reads as the empty string. -/
def FieldTerm.matches (t : FieldTerm) (ls : Attributes) : Bool :=
  if t.negated then (ls.lookup t.field).getD [] ≠ t.value
  else (ls.lookup t.field).getD [] = t.value

/-- `fields.Selector`: all terms. -/
abbrev FieldSelector := List FieldTerm

def FieldSelector.matches (s : FieldSelector) (ls : Attributes) : Bool := s.all (·.matches ls)

/-- An object of the informer's cache; `nodeName` is the string at `spec.nodeName`. -/
structure Obj (β : Type) where
  kind : GoString
  ns : GoString
  name : GoString
  labels : Attributes
  nodeName : Option GoString
  value : β
  deriving DecidableEq

def Obj.key (o : Obj β) : GoString × GoString := (o.ns, o.name)

def setField (fields : Attributes) (field : GoString) : Option GoString → Attributes
  | none => fields
  | some value => fields.insert field value

/-- The fields of `UnstructuredAttr`; those of a pod have the namespace under another name. -/
def attrFields (o : Obj β) : Attributes :=
  if o.kind = str "Pod" then
    let setMap := setField ∅ (str "metadata.name") (if o.name ≠ [] then some o.name else none)
    let setMap := setField setMap (str "metadata.namespaces")
      (if o.ns ≠ [] then some o.ns else none)
    setField setMap (str "spec.nodeName") o.nodeName
  else
    let fieldSet : Attributes := AList.insert (str "metadata.name") o.name ∅
    AList.insert (str "metadata.namespace") o.ns fieldSet

def Obj.fields (o : Obj β) : Attributes :=
  let fields : Attributes := AList.insert (str "metadata.name") o.name ∅
  setField (AList.insert (str "metadata.namespace") o.ns fields) (str "spec.nodeName") o.nodeName

/-- `label` is nil where the text could not be parsed. -/
structure LabelFieldSelector where
  label : Option LabelSelector
  field : FieldSelector
  deriving DecidableEq, Repr

/-- `Match` calls `Matches` of the label selector; on a nil selector it panics. -/
def LabelFieldSelector.matches (lf : LabelFieldSelector) (set set2 : Attributes) : M Bool := do
  let label ← deref lf.label
  .ok (label.matches set && label.matches set2)

def LabelFieldSelector.matchObj (lf : LabelFieldSelector) (o : Obj β) : M Bool :=
  lf.matches o.labels (attrFields o)

structure SelectorListener where
  nodeName : GoString
  gvr : GVR
  selector : LabelFieldSelector
  deriving DecidableEq, Repr

/-- What is read of an application for a list or a watch. -/
structure Application where
  key : GoString
  nodename : GoString
  labelSelector : GoString
  fieldSelector : GoString
  deriving DecidableEq, Repr

section Parse
-- `labels.Parse` and `fields.ParseSelector`; `none` is an error
variable (parseLabels : GoString → Option LabelSelector)
variable (parseFields : GoString → Option FieldSelector)

/-- `NewSelector`: the error of the labels is dropped, that of the fields panics. -/
def newSelector (ls fs : GoString) : M LabelFieldSelector :=
  match parseFields fs with
  | none => .error .panicked
  | some field => .ok ⟨parseLabels ls, field⟩

def Application.toListener (a : Application) : M SelectorListener := do
  let (gvr, ns, _) := parseKey a.key
  let selector ← newSelector parseLabels parseFields a.labelSelector a.fieldSelector
  let selector := if ns ≠ [] then
      { selector with field := selector.field ++ [⟨str "metadata.namespace", ns, false⟩] }
    else selector
  .ok ⟨a.nodename, gvr, selector⟩

/-- The application asks for the object: both selectors select it, and it is in the namespace
that the key names. -/
def Application.AsksFor (a : Application) (o : Obj β) : Prop :=
  ((parseLabels a.labelSelector).map (·.matches o.labels) = some true ∧
    (parseFields a.fieldSelector).map (·.matches o.fields) = some true) ∧
    ((parseKey a.key).2.1 = [] ∨ o.ns = (parseKey a.key).2.1)

end Parse

end KubeEdge.DynamicController
