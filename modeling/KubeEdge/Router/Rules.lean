import KubeEdge.Go.Machine
import KubeEdge.Kube.Objects

namespace KubeEdge.Router
open Go Machine

structure RuleEndpoint extends ObjectMeta where
  ruleEndpointType : GoString

structure Rule extends ObjectMeta where
  source : GoString
  sourceResource : GoMap GoString GoString := ∅
  target : GoString
  targetResource : GoMap GoString GoString := ∅

def restEndpoint : GoString := str "rest"

def eventbusEndpoint : GoString := str "eventbus"

/-- What a source factory builds: the `Rest` or the `EventBus` of a source. -/
inductive Source
  | rest (ns path : GoString)
  | eventBus (ns nodeName subTopic : GoString)
  deriving DecidableEq

inductive Target
  | rest (ns endpoint : GoString)
  | eventBus (ns pubTopic : GoString)
  deriving DecidableEq

/-- `normalizeResource`; `TrimLeft` and `TrimRight` take all slashes away. -/
def normalizeResource (resource : GoString) : GoString :=
  let resource := if resource.head? = some 47 then resource.dropWhile (· = 47) else resource
  if resource.getLast? = some 47 then resource.rdropWhile (· = 47) else resource

/-- `GetSource` of the REST factory; `none` is its nil. -/
def restSource (ep : RuleEndpoint) (resource : GoMap GoString GoString) : Option Source := do
  let path ← resource.lookup (str "path")
  some (.rest ep.ns (normalizeResource path))

def eventbusSource (ep : RuleEndpoint) (resource : GoMap GoString GoString) : Option Source := do
  let subTopic ← resource.lookup (str "topic")
  let nodeName ← resource.lookup (str "node_name")
  some (.eventBus ep.ns nodeName subTopic)

def restTarget (ep : RuleEndpoint) (resource : GoMap GoString GoString) : Option Target := do
  let endpoint ← resource.lookup (str "resource")
  some (.rest ep.ns endpoint)

def eventbusTarget (ep : RuleEndpoint) (resource : GoMap GoString GoString) : Option Target := do
  let pubTopic ← resource.lookup (str "topic")
  some (.eventBus ep.ns pubTopic)

/-- `provider.GetSourceFactory`, with the factories the two packages register. -/
def getSourceFactory (type : GoString) :
    Option (RuleEndpoint → GoMap GoString GoString → Option Source) :=
  if type = restEndpoint then some restSource
  else if type = eventbusEndpoint then some eventbusSource
  else none

def getTargetFactory (type : GoString) :
    Option (RuleEndpoint → GoMap GoString GoString → Option Target) :=
  if type = restEndpoint then some restTarget
  else if type = eventbusEndpoint then some eventbusTarget
  else none

/-- The closure `addRule` registers, by what it captures. -/
structure Handle where
  rule : Rule
  source : Source
  target : Target

structure State where
  rules : GoMap GoString Rule := ∅
  ruleEndpoints : GoMap GoString RuleEndpoint := ∅
  /-- `handlers` of `RestHandlerInstance`. -/
  restHandlers : GoMap GoString Handle := ∅
  /-- The listeners of `MessageHandlerInstance` that rules register. -/
  messageHandlers : GoMap GoString Handle := ∅
  /-- Resource and operation of each message sent to the cloud hub. -/
  sent : List (GoString × GoString) := []

def getKey (ns name : GoString) : GoString := ns ++ 47 :: name

/-- `/namespace/path`. -/
def restPath (ns path : GoString) : GoString := 47 :: (ns ++ 47 :: path)

/-- `node/nodeName/namespace/subTopic`. -/
def busResource (ns nodeName subTopic : GoString) : GoString :=
  str "node/" ++ nodeName ++ str "/" ++ ns ++ str "/" ++ subTopic

/-- `RegisterListener` of the two sources, neither of which fails. -/
def registerListener (r : State) (h : Handle) : Source → State
  | .rest ns path => { r with restHandlers := r.restHandlers.insert (restPath ns path) h }
  | .eventBus ns nodeName subTopic =>
    let resource := busResource ns nodeName subTopic
    { r with
      messageHandlers := r.messageHandlers.insert (str "bus/" ++ resource) h
      sent := r.sent ++ [(resource, str "subscribe")] }

def unregisterListener (r : State) : Source → State
  | .rest ns path => { r with restHandlers := r.restHandlers.erase (restPath ns path) }
  | .eventBus ns nodeName subTopic =>
    let resource := busResource ns nodeName subTopic
    { r with
      messageHandlers := r.messageHandlers.erase (str "bus/" ++ resource)
      sent := r.sent ++ [(resource, str "unsubscribe")] }

def getSourceOfRule (r : State) (rule : Rule) : Result Source :=
  let sourceKey := getKey rule.ns rule.source
  match r.ruleEndpoints.lookup sourceKey with
  | none => .error (str "source rule endpoint " ++ sourceKey ++ str " does not existing")
  | some sourceEp =>
    match getSourceFactory sourceEp.ruleEndpointType with
    | none =>
      .error (str "source definition " ++ sourceEp.ruleEndpointType ++ str " does not existing")
    | some sf =>
      match sf sourceEp rule.sourceResource with
      | none => .error (str "can't get source: " ++ rule.source)
      | some source => .ok source

def getTargetOfRule (r : State) (rule : Rule) : Result Target :=
  let targetKey := getKey rule.ns rule.target
  match r.ruleEndpoints.lookup targetKey with
  | none => .error (str "target rule endpoint " ++ targetKey ++ str " does not existing")
  | some targetEp =>
    match getTargetFactory targetEp.ruleEndpointType with
    | none =>
      .error (str "target definition " ++ targetEp.ruleEndpointType ++ str " does not existing")
    | some tf =>
      match tf targetEp rule.targetResource with
      | none => .error (str "can't get target: " ++ rule.target)
      | some target => .ok target

def addRule (r : State) (rule : Rule) : Result State := do
  let source ← getSourceOfRule r rule
  let target ← getTargetOfRule r rule
  let r := registerListener r { rule, source, target } source
  .ok { r with rules := r.rules.insert (getKey rule.ns rule.name) rule }

/-- `addRuleWithRetry` with `attempts` calls of `addRule` left. -/
def addRuleWithRetry (rule : Rule) : ℕ → State → State
  | 0, r => r
  | attempts + 1, r =>
    match addRule r rule with
    | .ok r => r
    | .error _ => addRuleWithRetry rule attempts r

def delRule (r : State) (ns name : GoString) : State :=
  let ruleKey := getKey ns name
  match r.rules.lookup ruleKey with
  | none => r
  | some rule =>
    match getSourceOfRule r rule with
    | .error _ => r
    | .ok source =>
      let r := unregisterListener r source
      { r with rules := r.rules.erase ruleKey }

def addRuleEndpoint (r : State) (ep : RuleEndpoint) : State :=
  { r with ruleEndpoints := r.ruleEndpoints.insert (getKey ep.ns ep.name) ep }

def deleteRuleEndpoint (r : State) (ns name : GoString) : State :=
  { r with ruleEndpoints := r.ruleEndpoints.erase (getKey ns name) }

/-- The operations the handlers tell apart. -/
inductive Operation
  | insert
  | delete
  | other
  deriving DecidableEq

def handleRule (r : State) (rule : Rule) : Operation → State
  | .insert => addRuleWithRetry rule 4 r
  | .delete => delRule r rule.ns rule.name
  | .other => r

def handleRuleEndpoint (r : State) (ep : RuleEndpoint) : Operation → State
  | .insert => addRuleEndpoint r ep
  | .delete => deleteRuleEndpoint r ep.ns ep.name
  | .other => r

/-- A message for the router, by the type of its content. -/
inductive Message
  | rule (operation : Operation) (rule : Rule)
  | ruleEndpoint (operation : Operation) (ep : RuleEndpoint)

def handle (r : State) : Message → State
  | .rule operation rule => handleRule r rule operation
  | .ruleEndpoint operation ep => handleRuleEndpoint r ep operation

structure Standing where
  rule : Rule
  kind : Option GoString

/-- The normalised source path of a rule whose source is a REST endpoint. -/
def Standing.path (l : Standing) : Option GoString :=
  if l.kind = some restEndpoint then
    (l.rule.sourceResource.lookup (str "path")).map normalizeResource
  else none

/-- `/namespace/path` of such a rule. -/
def Standing.listener (l : Standing) : Option GoString := l.path.map (restPath l.rule.ns)

structure World where
  state : State := {}
  standing : GoMap (GoString × GoString) Standing := ∅

/-- The type of the endpoint stored under a name. -/
def State.kind (r : State) (ns name : GoString) : Option GoString :=
  (r.ruleEndpoints.lookup (getKey ns name)).map (·.ruleEndpointType)

/-- How a rule inserted now is recorded. -/
def State.stand (r : State) (rule : Rule) : Standing := ⟨rule, r.kind rule.ns rule.source⟩

def World.record (w : World) : Message → GoMap (GoString × GoString) Standing
  | .rule .insert rule => w.standing.insert rule.key (w.state.stand rule)
  | .rule .delete rule => w.standing.erase rule.key
  | _ => w.standing

def step (w : World) (m : Message) : Option World :=
  some { state := handle w.state m, standing := w.record m }

/-- The rule was inserted, is not yet deleted, and is recorded under its own name. -/
def Stands (standing : GoMap (GoString × GoString) Standing) (l : Standing) : Prop :=
  standing.lookup l.rule.key = some l

/-- A table holds exactly the standing rules that have a place in it, each at its place. -/
def Lists (table : GoString → Option Rule) (standing : GoMap (GoString × GoString) Standing)
    (place : Standing → Option GoString) : Prop :=
  ∀ key rule, table key = some rule ↔ ∃ l, Stands standing l ∧ l.rule = rule ∧ place l = some key

/-- The maps follow the rules: `rules` holds the standing ones, each under its key, and
a REST listener is registered under a path exactly if a standing rule has that path; it
forwards for that rule. -/
structure Follows (w : World) : Prop where
  rules : Lists (fun key => w.state.rules.lookup key) w.standing
    (fun l => some (getKey l.rule.ns l.rule.name))
  listeners : Lists (fun path => (w.state.restHandlers.lookup path).map (·.rule)) w.standing
    Standing.listener

/-- Rules of one namespace have pairwise different normalised source paths. -/
def DistinctPaths (standing : GoMap (GoString × GoString) Standing) : Prop :=
  ∀ a ∈ standing.entries, ∀ b ∈ standing.entries,
    a.2.rule.ns = b.2.rule.ns → a.2.path ≠ none → a.2.path = b.2.path → a.1 = b.1

/-- Both endpoints of a rule exist when it is inserted, and the paths stay different. -/
def Proper (w : World) (m : Message) : Prop :=
  DistinctPaths (w.record m) ∧
    match m with
    | .rule .insert rule =>
      (w.state.kind rule.ns rule.source).isSome ∧ (w.state.kind rule.ns rule.target).isSome
    | _ => True

/-- A source of this type can be built from these attributes. -/
def SourceFits (kind : Option GoString) (resource : GoMap GoString GoString) : Prop :=
  (kind = some restEndpoint ∧ str "path" ∈ resource) ∨
    (kind = some eventbusEndpoint ∧ str "topic" ∈ resource ∧ str "node_name" ∈ resource)

def TargetFits (kind : Option GoString) (resource : GoMap GoString GoString) : Prop :=
  (kind = some restEndpoint ∧ str "resource" ∈ resource) ∨
    (kind = some eventbusEndpoint ∧ str "topic" ∈ resource)

/-- A rule is inserted with the attributes its endpoints need, and in place of a
standing rule only if that one has no listener or the same; a standing rule is deleted
only while its source endpoint is stored with the type it was inserted with. -/
def Settled (w : World) : Message → Prop
  | .rule .insert rule =>
    SourceFits (w.state.kind rule.ns rule.source) rule.sourceResource ∧
      TargetFits (w.state.kind rule.ns rule.target) rule.targetResource ∧
      ∀ l ∈ w.standing.lookup rule.key,
        l.listener = none ∨ l.listener = (w.state.stand rule).listener
  | .rule .delete rule =>
    ∀ l ∈ w.standing.lookup rule.key, w.state.kind l.rule.ns l.rule.source = l.kind
  | _ => True

/-- The path a source registers a REST listener under. -/
def Source.listener : Source → Option GoString
  | .rest ns path => some (restPath ns path)
  | .eventBus .. => none

section

variable (r : State) (h : Handle) (source : Source)
include h

@[simp] theorem registerListener_rules : (registerListener r h source).rules = r.rules := by
  cases source <;> rfl

@[simp] theorem registerListener_ruleEndpoints :
    (registerListener r h source).ruleEndpoints = r.ruleEndpoints := by
  cases source <;> rfl

theorem registerListener_lookup (path : GoString) :
    (registerListener r h source).restHandlers.lookup path =
      if source.listener = some path then some h else r.restHandlers.lookup path := by
  cases source with
  | rest ns p =>
    rw [registerListener, GoMap.lookup_insert]
    simp [Source.listener, Option.some.injEq, eq_comm]
  | eventBus ns nodeName subTopic => simp [registerListener, Source.listener]

end

section

variable (r : State) (source : Source)

@[simp] theorem unregisterListener_rules : (unregisterListener r source).rules = r.rules := by
  cases source <;> rfl

@[simp] theorem unregisterListener_ruleEndpoints :
    (unregisterListener r source).ruleEndpoints = r.ruleEndpoints := by
  cases source <;> rfl

theorem unregisterListener_lookup (path : GoString) :
    (unregisterListener r source).restHandlers.lookup path =
      if source.listener = some path then none else r.restHandlers.lookup path := by
  cases source with
  | rest ns p =>
    rw [unregisterListener, GoMap.lookup_erase]
    simp [Source.listener, Option.some.injEq, eq_comm]
  | eventBus ns nodeName subTopic => simp [unregisterListener, Source.listener]

end

/-- Endpoints are stored under their own names. -/
def EndpointsKeyed (r : State) : Prop :=
  ∀ key ep, r.ruleEndpoints.lookup key = some ep → key = getKey ep.ns ep.name

variable {rule : Rule} {r : State} {l' : Standing}

/-- A source that fits is found, and its listener is the one the rule stands for. -/
theorem getSourceOfRule_of_fits (hkeyed : EndpointsKeyed r)
    (hfits : SourceFits (r.kind rule.ns rule.source) rule.sourceResource) :
    ∃ source, getSourceOfRule r rule = .ok source ∧
      source.listener = (r.stand rule).listener := by
  have hsome : ∃ ep, r.ruleEndpoints.lookup (getKey rule.ns rule.source) = some ep := by
    cases hep : r.ruleEndpoints.lookup (getKey rule.ns rule.source) with
    | none => simp [SourceFits, State.kind, hep] at hfits
    | some ep => exact ⟨ep, rfl⟩
  obtain ⟨ep, hep⟩ := hsome
  have hns : rule.ns = ep.ns :=
    (append_sep_inj rule.ns_valid.subdomain.slash ep.ns_valid.subdomain.slash
      (hkeyed _ _ hep)).1
  have hkind : r.kind rule.ns rule.source = some ep.ruleEndpointType := by
    simp [State.kind, hep]
  rw [hkind] at hfits
  rcases hfits with ⟨htype, hpath⟩ | ⟨htype, htopic, hnode⟩
  · obtain ⟨path, hpath⟩ := GoMap.mem_iff_lookup.mp hpath
    have htype := Option.some.inj htype
    refine ⟨.rest ep.ns (normalizeResource path), ?_, ?_⟩
    · simp [getSourceOfRule, hep, htype, getSourceFactory, restSource, hpath]
    · rw [← hns]
      simp [Source.listener, Standing.listener, Standing.path, State.stand, hkind, htype, hpath]
  · obtain ⟨topic, htopic⟩ := GoMap.mem_iff_lookup.mp htopic
    obtain ⟨node, hnode⟩ := GoMap.mem_iff_lookup.mp hnode
    have htype := Option.some.inj htype
    have hne : eventbusEndpoint ≠ restEndpoint := by decide
    refine ⟨.eventBus ep.ns node topic, ?_, ?_⟩
    · simp [getSourceOfRule, hep, htype, getSourceFactory, hne, eventbusSource, htopic, hnode]
    · simp [Source.listener, Standing.listener, Standing.path, State.stand, hkind, htype, hne]

theorem getTargetOfRule_of_fits
    (hfits : TargetFits (r.kind rule.ns rule.target) rule.targetResource) :
    ∃ target, getTargetOfRule r rule = .ok target := by
  cases hep : r.ruleEndpoints.lookup (getKey rule.ns rule.target) with
  | none => simp [TargetFits, State.kind, hep] at hfits
  | some ep =>
    have hkind : r.kind rule.ns rule.target = some ep.ruleEndpointType := by
      simp [State.kind, hep]
    rw [hkind] at hfits
    rcases hfits with ⟨htype, hresource⟩ | ⟨htype, htopic⟩
    · obtain ⟨endpoint, hresource⟩ := GoMap.mem_iff_lookup.mp hresource
      exact ⟨.rest ep.ns endpoint, by
        simp [getTargetOfRule, hep, Option.some.inj htype, getTargetFactory, restTarget,
          hresource]⟩
    · obtain ⟨topic, htopic⟩ := GoMap.mem_iff_lookup.mp htopic
      have hne : eventbusEndpoint ≠ restEndpoint := by decide
      exact ⟨.eventBus ep.ns topic, by
        simp [getTargetOfRule, hep, Option.some.inj htype, getTargetFactory, hne, eventbusTarget,
          htopic]⟩

theorem addRuleWithRetry_of_fits (hkeyed : EndpointsKeyed r)
    (hsource : SourceFits (r.kind rule.ns rule.source) rule.sourceResource)
    (htarget : TargetFits (r.kind rule.ns rule.target) rule.targetResource) :
    ∃ source target, source.listener = (r.stand rule).listener ∧
      addRuleWithRetry rule 4 r =
        { registerListener r { rule, source, target } source with
          rules := r.rules.insert (getKey rule.ns rule.name) rule } := by
  obtain ⟨source, hs, hlistener⟩ := getSourceOfRule_of_fits hkeyed hsource
  obtain ⟨target, ht⟩ := getTargetOfRule_of_fits htarget
  refine ⟨source, target, hlistener, ?_⟩
  simp [addRuleWithRetry, addRule, hs, ht, bind, Except.bind]

theorem delRule_of_fits {ns name : GoString} (hkeyed : EndpointsKeyed r)
    (hrule : r.rules.lookup (getKey ns name) = some rule)
    (hsource : SourceFits (r.kind rule.ns rule.source) rule.sourceResource) :
    ∃ source, source.listener = (r.stand rule).listener ∧
      delRule r ns name =
        { unregisterListener r source with rules := r.rules.erase (getKey ns name) } := by
  obtain ⟨source, hs, hlistener⟩ := getSourceOfRule_of_fits hkeyed hsource
  refine ⟨source, hlistener, ?_⟩
  simp [delRule, hrule, hs]

theorem getKey_inj {a b : ObjectMeta} (h : getKey a.ns a.name = getKey b.ns b.name) :
    a.key = b.key := by
  obtain ⟨hns, hname⟩ :=
    append_sep_inj a.ns_valid.subdomain.slash b.ns_valid.subdomain.slash h
  exact Prod.ext hns hname

theorem DistinctPaths.key_eq {standing : GoMap (GoString × GoString) Standing}
    (h : DistinctPaths standing) {l : Standing} {path : GoString}
    (hl : standing.lookup l.rule.key = some l) (hl' : standing.lookup l'.rule.key = some l')
    (hp : l.listener = some path) (hp' : l'.listener = some path) : l.rule.key = l'.rule.key := by
  obtain ⟨p, hpath, rfl⟩ := Option.map_eq_some_iff.mp hp
  obtain ⟨p', hpath', he⟩ := Option.map_eq_some_iff.mp hp'
  obtain ⟨hns, rfl⟩ := append_sep_inj l'.rule.ns_valid.subdomain.slash
    l.rule.ns_valid.subdomain.slash (List.cons.inj he).2
  refine h _ (AList.mem_lookup_iff.mp hl) _ (AList.mem_lookup_iff.mp hl') hns.symm ?_ ?_
  · simp [hpath]
  · rw [hpath, hpath']

variable {standing : GoMap (GoString × GoString) Standing} {table table' : GoString → Option Rule}
  {place : Standing → Option GoString}

theorem stands_insert (new l : Standing) :
    Stands (standing.insert new.rule.key new) l ↔
      l = new ∨ (Stands standing l ∧ l.rule.key ≠ new.rule.key) := by
  rw [Stands, GoMap.lookup_insert]
  split_ifs with hk
  · rw [Option.some.injEq, eq_comm]
    simp [hk]
  · have hne : l ≠ new := by
      rintro rfl
      exact hk rfl
    simp [Stands, hne, hk]

theorem stands_erase (key : GoString × GoString) (l : Standing) :
    Stands (standing.erase key) l ↔ Stands standing l ∧ l.rule.key ≠ key := by
  rw [Stands, GoMap.lookup_erase]
  split_ifs with hk <;> simp [Stands, hk]

/-- A rule is entered at its place.  What it takes the place of in the record has no
other place in the table, and no other rule has this one. -/
theorem Lists.insert (h : Lists table standing place) (new : Standing)
    (hplace : ∀ l, Stands standing l → l.rule.key = new.rule.key →
      place l = none ∨ place l = place new)
    (hother : ∀ l key, Stands standing l → l.rule.key ≠ new.rule.key → place l = some key →
      place new ≠ some key)
    (htable : ∀ key, table' key = if place new = some key then some new.rule else table key) :
    Lists table' (standing.insert new.rule.key new) place := by
  intro key rule
  simp only [htable, stands_insert]
  constructor
  · intro hlookup
    split_ifs at hlookup with hp
    · exact ⟨new, .inl rfl, Option.some.inj hlookup, hp⟩
    · obtain ⟨l, hl, rfl, hpl⟩ := (h key rule).mp hlookup
      refine ⟨l, .inr ⟨hl, ?_⟩, rfl, hpl⟩
      intro he
      rcases hplace l hl he with hnone | hsame
      · rw [hpl] at hnone
        cases hnone
      · exact hp (hsame.symm.trans hpl)
  · rintro ⟨l, rfl | ⟨hl, hne⟩, rfl, hpl⟩
    · rw [if_pos hpl]
    · rw [if_neg (hother l key hl hne hpl)]
      exact (h key l.rule).mpr ⟨l, hl, rfl, hpl⟩

theorem Lists.erase (h : Lists table standing place) {gone : Standing}
    (hgone : Stands standing gone)
    (hother : ∀ l key, Stands standing l → l.rule.key ≠ gone.rule.key → place l = some key →
      place gone ≠ some key)
    (htable : ∀ key, table' key = if place gone = some key then none else table key) :
    Lists table' (standing.erase gone.rule.key) place := by
  intro key rule
  simp only [htable, stands_erase]
  constructor
  · intro hlookup
    split_ifs at hlookup with hp
    obtain ⟨l, hl, rfl, hpl⟩ := (h key rule).mp hlookup
    refine ⟨l, ⟨hl, ?_⟩, rfl, hpl⟩
    intro he
    have hsame : l = gone := by
      rw [Stands, he, hgone] at hl
      exact (Option.some.inj hl).symm
    exact hp (hsame ▸ hpl)
  · rintro ⟨l, ⟨hl, hne⟩, rfl, hpl⟩
    rw [if_neg (hother l key hl hne hpl)]
    exact (h key l.rule).mpr ⟨l, hl, rfl, hpl⟩

structure Inv (w : World) : Prop extends Follows w where
  endpoints : EndpointsKeyed w.state
  distinct : DistinctPaths w.standing
  fits : ∀ l, Stands w.standing l → SourceFits l.kind l.rule.sourceResource

theorem inv_start : Inv {} where
  rules key rule := by simp [Stands]
  listeners path rule := by simp [Stands]
  endpoints key ep := by simp
  distinct := by simp [DistinctPaths]
  fits l := by simp [Stands]

variable {w w' : World}

theorem getKey_ne {l : Standing} {key : GoString} (hne : l.rule.key ≠ l'.rule.key)
    (hl : some (getKey l.rule.ns l.rule.name) = some key) :
    some (getKey l'.rule.ns l'.rule.name) ≠ some key := by
  intro hl'
  exact hne (getKey_inj (Option.some.inj (hl.trans hl'.symm)))

theorem Inv.insertRule (hw : Inv w) (hdistinct : DistinctPaths (w.record (.rule .insert rule)))
    (hsettled : Settled w (.rule .insert rule)) (hstep : step w (.rule .insert rule) = some w') :
    Inv w' := by
  obtain ⟨hsource, htarget, hplace⟩ := hsettled
  obtain ⟨source, target, hlistener, hadd⟩ :=
    addRuleWithRetry_of_fits hw.endpoints hsource htarget
  have hhandle : handle w.state (.rule .insert rule) = _ := hadd
  obtain rfl := Option.some.inj hstep
  rw [hhandle]
  refine ⟨⟨?_, ?_⟩, ?_, hdistinct, ?_⟩
  · refine hw.rules.insert (w.state.stand rule) ?_ ?_ ?_
    · intro l _ he
      exact .inr (congrArg (fun k : GoString × GoString => some (getKey k.1 k.2)) he)
    · exact fun l key _ hne hl => getKey_ne hne hl
    · intro key
      simp [GoMap.lookup_insert, State.stand, eq_comm]
  · refine hw.listeners.insert (w.state.stand rule) ?_ ?_ ?_
    · intro l hl he
      exact hplace l (by rw [Stands, he] at hl; exact hl)
    · intro l path hl hne hpath hnew
      refine hne (hdistinct.key_eq ?_ ?_ hpath hnew)
      · exact (stands_insert (w.state.stand rule) l).mpr (.inr ⟨hl, hne⟩)
      · exact (stands_insert (w.state.stand rule) _).mpr (.inl rfl)
    · intro path
      simp only [registerListener_lookup, hlistener]
      split_ifs <;> rfl
  · intro key ep hep
    exact hw.endpoints key ep (by simpa using hep)
  · intro l hl
    rcases (stands_insert (w.state.stand rule) l).mp hl with rfl | ⟨hold, -⟩
    · exact hsource
    · exact hw.fits l hold

theorem Inv.deleteRule (hw : Inv w) (hdistinct : DistinctPaths (w.record (.rule .delete rule)))
    (hsettled : Settled w (.rule .delete rule)) (hstep : step w (.rule .delete rule) = some w') :
    Inv w' := by
  obtain rfl := Option.some.inj hstep
  have hfits : ∀ l, Stands (w.standing.erase rule.key) l →
      SourceFits l.kind l.rule.sourceResource :=
    fun l hl => hw.fits l ((stands_erase rule.key l).mp hl).1
  cases hstored : w.state.rules.lookup (getKey rule.ns rule.name) with
  | none =>
    have hhandle : handle w.state (.rule .delete rule) = w.state := by
      simp [handle, handleRule, delRule, hstored]
    have hnone : ∀ l, Stands (w.standing.erase rule.key) l ↔ Stands w.standing l := by
      intro l
      rw [stands_erase]
      refine and_iff_left_of_imp fun hl he => ?_
      have hsome : w.state.rules.lookup (getKey rule.ns rule.name) = some l.rule :=
        (hw.rules _ l.rule).mpr ⟨l, hl, rfl,
          congrArg (fun k : GoString × GoString => some (getKey k.1 k.2)) he⟩
      rw [hstored] at hsome
      cases hsome
    rw [hhandle]
    refine ⟨⟨?_, ?_⟩, hw.endpoints, hdistinct, hfits⟩
    · intro key rule'
      simpa [World.record, hnone] using hw.rules key rule'
    · intro path rule'
      simpa [World.record, hnone] using hw.listeners path rule'
  | some stored =>
    obtain ⟨l, hl, rfl, hkey⟩ := (hw.rules _ stored).mp hstored
    have hkey : getKey l.rule.ns l.rule.name = getKey rule.ns rule.name := Option.some.inj hkey
    have hlkey : l.rule.key = rule.key := getKey_inj hkey
    have hkind : w.state.kind l.rule.ns l.rule.source = l.kind :=
      hsettled l (by rw [← hlkey]; exact hl)
    obtain ⟨source, hlistener, hdel⟩ := delRule_of_fits hw.endpoints hstored (by
      rw [hkind]
      exact hw.fits l hl)
    have hstand : w.state.stand l.rule = l := by rw [State.stand, hkind]
    rw [hstand] at hlistener
    have hhandle : handle w.state (.rule .delete rule) = _ := hdel
    rw [hhandle]
    simp only [World.record, ← hlkey] at hdistinct hfits ⊢
    refine ⟨⟨?_, ?_⟩, ?_, hdistinct, hfits⟩
    · refine hw.rules.erase hl (fun l' key _ hne hl' => getKey_ne hne hl') ?_
      intro key
      rw [hkey]
      simp [GoMap.lookup_erase, eq_comm]
    · refine hw.listeners.erase hl ?_ ?_
      · intro l' path hl' hne hpath hgone
        exact hne (hw.distinct.key_eq hl' hl hpath hgone)
      · intro path
        simp only [unregisterListener_lookup, hlistener]
        split_ifs <;> rfl
    · intro key ep hep
      exact hw.endpoints key ep (by simpa using hep)

theorem Inv.ruleEndpoint (hw : Inv w) {operation : Operation} {ep : RuleEndpoint}
    (hstep : step w (.ruleEndpoint operation ep) = some w') : Inv w' := by
  obtain rfl := Option.some.inj hstep
  refine ⟨?_, ?_, hw.distinct, hw.fits⟩
  · cases operation <;> exact ⟨hw.rules, hw.listeners⟩
  · cases operation with
    | insert => exact GoMap.forall_insert hw.endpoints rfl
    | delete => exact GoMap.forall_erase hw.endpoints _
    | other => exact hw.endpoints

theorem Inv.step (hw : Inv w) {m : Message} (hproper : Proper w m) (hsettled : Settled w m)
    (hstep : step w m = some w') : Inv w' := by
  cases m with
  | ruleEndpoint operation ep => exact hw.ruleEndpoint hstep
  | rule operation rule =>
    cases operation with
    | insert => exact hw.insertRule hproper.1 hsettled hstep
    | delete => exact hw.deleteRule hproper.1 hsettled hstep
    | other =>
      obtain rfl := Option.some.inj hstep
      exact hw

/-- As long as rules are deleted while their source endpoints are there, after every
message the maps hold the standing rules and their listeners, and nothing else. -/
theorem listeners_follow_rules (ms : List Message)
    (h : Along step (fun w m => Proper w m ∧ Settled w m) {} ms) : Always step Follows {} ms :=
  (always_of_along (fun _ _ _ hw hm hstep => hw.step hm.1 hm.2 hstep)
    inv_start h).mono fun _ hw => hw.toFollows

instance (standing : GoMap (GoString × GoString) Standing) : Decidable (DistinctPaths standing) :=
  inferInstanceAs (Decidable (∀ a ∈ standing.entries, ∀ b ∈ standing.entries, _ → _ → _ → _))

instance (kind : Option GoString) (resource : GoMap GoString GoString) :
    Decidable (SourceFits kind resource) :=
  inferInstanceAs (Decidable (_ ∧ _ ∨ _ ∧ _ ∧ _))

instance (kind : Option GoString) (resource : GoMap GoString GoString) :
    Decidable (TargetFits kind resource) :=
  inferInstanceAs (Decidable (_ ∧ _ ∨ _ ∧ _))

instance (w : World) : (m : Message) → Decidable (Proper w m)
  | .rule .insert _ => inferInstanceAs (Decidable (DistinctPaths _ ∧ _ ∧ _))
  | .rule .delete _ => inferInstanceAs (Decidable (DistinctPaths _ ∧ True))
  | .rule .other _ => inferInstanceAs (Decidable (DistinctPaths _ ∧ True))
  | .ruleEndpoint .. => inferInstanceAs (Decidable (DistinctPaths _ ∧ True))

instance (w : World) : (m : Message) → Decidable (Settled w m)
  | .rule .insert rule =>
    inferInstanceAs (Decidable (SourceFits _ _ ∧ TargetFits _ _ ∧
      ∀ l ∈ w.standing.lookup rule.key, _ ∨ _))
  | .rule .delete rule => inferInstanceAs (Decidable (∀ l ∈ w.standing.lookup rule.key, _))
  | .rule .other _ => inferInstanceAs (Decidable True)
  | .ruleEndpoint .. => inferInstanceAs (Decidable True)

theorem default_valid : IsDNSLabel (str "default") := by decide +kernel

theorem rest_valid : IsDNSSubdomain (str "rest") := by decide +kernel

theorem bus_valid : IsDNSSubdomain (str "bus") := by decide +kernel

theorem forward_valid : IsDNSSubdomain (str "forward") := by decide +kernel

def restEp : RuleEndpoint :=
  { name := str "rest", ns := str "default", ruleEndpointType := restEndpoint,
    name_valid := rest_valid, ns_valid := default_valid }

def busEp : RuleEndpoint :=
  { name := str "bus", ns := str "default", ruleEndpointType := eventbusEndpoint,
    name_valid := bus_valid, ns_valid := default_valid }

/-- From `/default/a` to the topic `t`. -/
def forward : Rule :=
  { name := str "forward", ns := str "default", name_valid := forward_valid,
    ns_valid := default_valid, source := str "rest", target := str "bus",
    sourceResource := AList.singleton (str "path") (str "/a"),
    targetResource := AList.singleton (str "topic") (str "t") }

def installed : List Message :=
  [.ruleEndpoint .insert restEp, .ruleEndpoint .insert busEp, .rule .insert forward]

/-- The rule goes first, then its endpoints. -/
def orderly : List Message :=
  installed ++ ([.rule .delete forward, .ruleEndpoint .delete restEp] : List Message)

theorem orderly_settled : Along step (fun w m => Proper w m ∧ Settled w m) {} orderly :=
  along_of_check
    (fun _ _ h => of_decide_eq_true h) (by decide)

theorem listeners_follow_rules_orderly : Always step Follows {} orderly :=
  listeners_follow_rules orderly orderly_settled

def orphaned : List Message :=
  -- the endpoint goes first
  installed ++ ([.ruleEndpoint .delete restEp, .rule .delete forward] : List Message)

/-- The rule is deleted, and its listener and its entry stay. -/
theorem listener_left_behind : ∃ w, run step {} orphaned = some w ∧
    Along step Proper {} orphaned ∧ w.standing.lookup forward.key = none ∧
    w.state.rules.lookup (str "default/forward") = some forward ∧
    (w.state.restHandlers.lookup (str "/default/a")).isSome ∧ ¬ Follows w := by
  refine ⟨_, rfl, ?_, rfl, rfl, rfl, ?_⟩
  · exact along_of_check
      (fun _ _ h => of_decide_eq_true h) (by decide +kernel)
  · intro h
    obtain ⟨l, hl, -⟩ := (h.rules (str "default/forward") forward).mp rfl
    cases hl

end KubeEdge.Router
