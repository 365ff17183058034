import KubeEdge.Go.Control
import KubeEdge.Kube.Objects

namespace KubeEdge.MetaServer
open Go

/-- `strings.ToLower`, for ASCII. -/
def toLower (s : GoString) : GoString := s.map fun c => if 65 ≤ c ∧ c ≤ 90 then c + 32 else c

/-- `strings.TrimSuffix(s, "/")`. -/
def trimSlash (s : GoString) : GoString := if s.getLast? = some 47 then s.dropLast else s

/-- `TrimSuffix` as long as there is a slash. -/
def trimSlashes (s : GoString) : GoString := s.rdropWhile (· = 47)

def IsPathSegmentName (s : GoString) : Prop :=
  s ≠ [] ∧ s ≠ str "." ∧ s ≠ str ".." ∧ 47 ∉ s ∧ 37 ∉ s

/-- A letter, a digit or a hyphen, which a custom resource's kind may have. -/
def isKindByte (c : UInt8) : Bool :=
  (48 ≤ c ∧ c ≤ 57) || (65 ≤ c ∧ c ≤ 90) || (97 ≤ c ∧ c ≤ 122) || c = 45

def IsKind (s : GoString) : Prop := s ≠ [] ∧ ∀ c ∈ s, isKindByte c

instance (s : GoString) : Decidable (IsPathSegmentName s) :=
  inferInstanceAs (Decidable (_ ∧ _ ∧ _ ∧ _ ∧ _))

instance (s : GoString) : Decidable (IsKind s) := inferInstanceAs (Decidable (_ ∧ _))

/-- What names an object; `ns` is empty for an object of the cluster. -/
structure Meta where
  group : GoString
  version : GoString
  kind : GoString
  ns : GoString
  name : GoString
  deriving DecidableEq, Repr

structure Meta.Valid (o : Meta) : Prop where
  group : o.group = [] ∨ IsDNSSubdomain o.group
  version : IsDNSLabel o.version
  kind : IsKind o.kind
  ns : o.ns = [] ∨ IsDNSLabel o.ns
  name : IsPathSegmentName o.name

instance (o : Meta) : Decidable o.Valid :=
  decidable_of_iff ((o.group = [] ∨ IsDNSSubdomain o.group) ∧ IsDNSLabel o.version ∧
      IsKind o.kind ∧ (o.ns = [] ∨ IsDNSLabel o.ns) ∧ IsPathSegmentName o.name)
    ⟨fun ⟨h₁, h₂, h₃, h₄, h₅⟩ => ⟨h₁, h₂, h₃, h₄, h₅⟩,
      fun h => ⟨h.group, h.version, h.kind, h.ns, h.name⟩⟩

structure GVR where
  group : GoString := []
  version : GoString := []
  resource : GoString := []
  deriving DecidableEq, Repr

def GVR.Empty (gvr : GVR) : Prop := gvr.group = [] ∧ gvr.version = [] ∧ gvr.resource = []

instance (gvr : GVR) : Decidable gvr.Empty := inferInstanceAs (Decidable (_ ∧ _ ∧ _))

def unsafeKindToResource (k : GoString) : GoString :=
  if k = [] then k
  else if k = str "Endpoints" then str "endpoints"
  else
    let r := toLower k
    if r.getLast? = some 115 then r ++ str "es"
    else if r.getLast? = some 121 then r.dropLast ++ str "ies"
    else r ++ str "s"

def Meta.resource (o : Meta) : GoString := unsafeKindToResource o.kind

def Meta.gvr (o : Meta) : GVR := ⟨o.group, o.version, o.resource⟩

/-- The group and the namespace that stand in a key for the empty ones. -/
def groupCore : GoString := str "core"
def nullNamespace : GoString := str "null"
def nullName : GoString := str "null"

def keyFuncObj (o : Meta) : Result GoString :=
  if o.group = [] ∧ o.version = [] ∧ o.kind = [] then
    .error (str "could not get group/version/kind information in obj")
  else
    let group := if o.group = [] then groupCore else o.group
    let key := str "/" ++ group ++ str "/" ++ o.version ++ str "/" ++ o.resource ++ str "/"
    let key := key ++ (if o.ns ≠ [] then o.ns ++ str "/" else nullNamespace ++ str "/")
    .ok (trimSlash (key ++ o.name))

/-- What the key reads of `RequestInfo`. -/
structure RequestInfo where
  isResourceRequest : Bool := false
  apiPrefix : GoString := []
  apiGroup : GoString := []
  apiVersion : GoString := []
  ns : GoString := []
  resource : GoString := []
  name : GoString := []
  deriving DecidableEq, Repr

/-- `NewRequestInfo`, from the segments of the path; `none` is the error.  A request without a
name may get one from its field selector, which is not modelled. -/
def newRequestInfo (currentParts : List GoString) : Option RequestInfo :=
  match currentParts with
  | apiPrefix :: a :: b :: rest =>
    if apiPrefix = str "api" then resourceInfo apiPrefix [] a (b :: rest)
    else if apiPrefix = str "apis" then
      match rest with
      | [] => some { apiPrefix }
      | c :: rest => resourceInfo apiPrefix a b (c :: rest)
    else some {}
  | _ => some {}
where
  /-- What comes after the version. -/
  resourceInfo (apiPrefix apiGroup apiVersion : GoString) (parts : List GoString) :
      Option RequestInfo :=
    let info : RequestInfo := { isResourceRequest := true, apiPrefix, apiGroup, apiVersion }
    match parts with
    | [] => some info
    | verb :: rest =>
      if verb = str "proxy" ∨ verb = str "watch" then
        if rest = [] then none else some (namedInfo info rest)
      else some (namedInfo info parts)
  /-- What comes after a special verb. -/
  namedInfo (info : RequestInfo) (parts : List GoString) : RequestInfo :=
    match parts with
    | [] => info
    | [resource] => { info with resource }
    | first :: ns :: rest =>
      if first ≠ str "namespaces" then { info with resource := first, name := ns }
      else
        let info := { info with ns }
        match rest with
        | [] => { info with resource := first, name := ns }
        | resource :: rest =>
          if resource = str "status" ∨ resource = str "finalize" then
            { info with resource := first, name := ns }
          else { info with resource, name := rest.headD [] }

/-- The segments of the path of an object. -/
def Meta.path (o : Meta) : List GoString :=
  (if o.group = [] then [str "api"] else [str "apis", o.group]) ++ [o.version] ++
    (if o.ns = [] then [] else [str "namespaces", o.ns]) ++ [o.resource, o.name]

/-- `splitPath` of a path that starts with a slash. -/
def splitPath (path : GoString) : List GoString :=
  let path := trimSlashes (path.dropWhile (· = 47))
  if path = [] then [] else split 47 path

def RequestInfo.keyGroup (info : RequestInfo) : Result GoString :=
  if info.apiPrefix = str "api" then .ok groupCore
  else if info.apiPrefix = str "apis" then
    if info.apiGroup = [] then .error (str "failed to get key from request info")
    else .ok info.apiGroup
  else .error (str "failed to get key from request info")

/-- The server reads the path of the request for exactly this object. -/
def Meta.request (o : Meta) : Option RequestInfo :=
  newRequestInfo (splitPath (47 :: join 47 o.path))

/-- `KeyFuncReq`, where the context has what `NewRequestInfo` found. -/
def keyFuncReq (info : Option RequestInfo) : Result GoString :=
  match info with
  | none => .error (str "no request info in context")
  | some info =>
    if ¬ info.isResourceRequest then .error (str "no request info in context")
    else do
      let group ← info.keyGroup
      let key := str "/" ++ group ++ str "/" ++ info.apiVersion ++ str "/"
      let key := key ++ info.resource ++ str "/"
      let key := key ++ (if info.ns ≠ [] then info.ns ++ str "/" else nullNamespace ++ str "/")
      .ok (trimSlash (key ++ if info.name ≠ [] then info.name else nullName))

def parseGroupVersion (gv : GoString) : Result (GoString × GoString) :=
  if gv = [] ∨ gv = str "/" then .ok ([], [])
  else
    match split 47 gv with
    | [version] => .ok ([], version)
    | [group, version] => .ok (group, version)
    | _ => .error (str "unexpected GroupVersion string: " ++ gv)

/-- An index out of range is set to 0, where the empty string is. -/
def parseKey (key : GoString) : GVR × GoString × GoString :=
  let sl := trimSlashes key
  if sl = [] then ({}, [], [])
  else
    let slices := split 47 sl
    if slices.head? ≠ some [] then ({}, [], [])
    else
      let group := slices.getD 1 []
      let group := if group = groupCore then [] else group
      match parseGroupVersion (group ++ str "/" ++ slices.getD 2 []) with
      | .error _ => ({}, [], [])
      | .ok (group, version) =>
        let ns := slices.getD 4 []
        let ns := if ns = nullNamespace then [] else ns
        let name := slices.getD 5 []
        let name := if name = nullName then [] else name
        (⟨group, version, slices.getD 3 []⟩, ns, name)

theorem toLower_slash {k : GoString} (hk : ∀ c ∈ k, isKindByte c) :
    (47 : UInt8) ∉ toLower k := by
  intro h
  obtain ⟨c, hc, h⟩ := List.mem_map.mp h
  have hbyte := hk c hc
  simp only [isKindByte, Bool.or_eq_true, decide_eq_true_eq, ← UInt8.toNat_inj] at hbyte
  simp only [UInt8.le_iff_toNat_le] at hbyte h
  split_ifs at h with hupper
  · have hnat := congrArg UInt8.toNat h
    rw [UInt8.toNat_add] at hnat
    simp only [UInt8.reduceToNat] at *
    omega
  · rw [h] at hbyte hupper
    simp only [UInt8.reduceToNat] at *
    omega

theorem resource_getLast {k : GoString} (hk : k ≠ []) :
    (unsafeKindToResource k).getLast? = some 115 := by
  simp only [unsafeKindToResource]
  rw [if_neg hk]
  split_ifs
  · rfl
  · simp [str]
  · simp [str]
  · simp [str]

theorem resource_ne {k x : GoString} (hk : k ≠ []) (hx : x.getLast? ≠ some 115) :
    unsafeKindToResource k ≠ x :=
  fun h => hx (h ▸ resource_getLast hk)

theorem resource_slash {k : GoString} (hk : ∀ c ∈ k, isKindByte c) :
    (47 : UInt8) ∉ unsafeKindToResource k := by
  have hlower := toLower_slash hk
  simp only [unsafeKindToResource]
  split_ifs with hempty
  · simp [hempty]
  · decide
  · intro h
    obtain h | h := List.mem_append.mp h
    · exact hlower h
    · revert h
      decide
  · intro h
    obtain h | h := List.mem_append.mp h
    · exact hlower (List.mem_of_mem_dropLast h)
    · revert h
      decide
  · intro h
    obtain h | h := List.mem_append.mp h
    · exact hlower h
    · revert h
      decide

def keyOf (group version resource ns name : GoString) : GoString :=
  join 47 [[], group, version, resource, ns, name]

def orCore (group : GoString) : GoString := if group = [] then groupCore else group

def orNull (ns : GoString) : GoString := if ns = [] then nullNamespace else ns

theorem trimSlash_append {s name : GoString} (hne : name ≠ []) (hslash : (47 : UInt8) ∉ name) :
    trimSlash (s ++ name) = s ++ name := by
  unfold trimSlash
  rw [if_neg]
  rw [List.getLast?_append, List.getLast?_eq_getLast_of_ne_nil hne]
  intro h
  apply hslash
  rw [← Option.some.inj h]
  exact List.getLast_mem hne

variable {o : Meta} {group version : GoString}

theorem keyFuncObj_eq (ho : o.Valid) :
    keyFuncObj o = .ok (keyOf (orCore o.group) o.version o.resource (orNull o.ns) o.name) := by
  have hversion : o.version ≠ [] := ho.version.1
  unfold keyFuncObj
  dsimp only
  rw [trimSlash_append ho.name.1 ho.name.2.2.2.1]
  unfold keyOf orCore orNull
  split_ifs <;> simp_all [str]

theorem keyFuncReq_eq {info : RequestInfo} (hinfo : info.isResourceRequest)
    (hgroup : info.keyGroup = .ok group) (hne : info.name ≠ [])
    (hslash : (47 : UInt8) ∉ info.name) :
    keyFuncReq (some info) =
      .ok (keyOf group info.apiVersion info.resource (orNull info.ns) info.name) := by
  simp only [keyFuncReq, hinfo, not_true_eq_false, if_false, hgroup, if_pos hne, bind, Except.bind]
  rw [trimSlash_append hne hslash]
  unfold keyOf orNull
  split_ifs <;> simp_all [str]

/-- What is read of the path before the resource. -/
def Meta.baseInfo (o : Meta) : RequestInfo :=
  { isResourceRequest := true
    apiPrefix := if o.group = [] then str "api" else str "apis"
    apiGroup := o.group
    apiVersion := o.version }

theorem keyFuncReq_baseInfo (o : Meta) (ns resource : GoString) {name : GoString} (hne : name ≠ [])
    (hslash : (47 : UInt8) ∉ name) :
    keyFuncReq (some { o.baseInfo with ns, resource, name }) =
      .ok (keyOf (orCore o.group) o.version resource (orNull ns) name) := by
  apply keyFuncReq_eq rfl ?_ hne hslash
  unfold RequestInfo.keyGroup orCore Meta.baseInfo
  by_cases hempty : o.group = []
  · simp [hempty]
  · simp [hempty, show str "apis" ≠ str "api" by decide]

theorem newRequestInfo_path (o : Meta) (hkind : o.kind ≠ []) :
    newRequestInfo o.path = some (newRequestInfo.namedInfo o.baseInfo
      ((if o.ns = [] then [] else [str "namespaces", o.ns]) ++ [o.resource, o.name])) := by
  have hproxy : o.resource ≠ str "proxy" := resource_ne hkind (by decide)
  have hwatch : o.resource ≠ str "watch" := resource_ne hkind (by decide)
  unfold Meta.path
  have hapis : str "apis" ≠ str "api" := by decide
  have hns : str "namespaces" ≠ str "proxy" ∧ str "namespaces" ≠ str "watch" := by decide
  by_cases hgroup : o.group = [] <;> by_cases hempty : o.ns = [] <;>
    simp [newRequestInfo, newRequestInfo.resourceInfo, Meta.baseInfo, hgroup, hempty, hproxy,
      hwatch, hapis, hns]

theorem join_ends {s : List GoString} (hs : s ≠ []) (hne : ∀ x ∈ s, x ≠ [])
    (hslash : ∀ x ∈ s, (47 : UInt8) ∉ x) :
    join 47 s ≠ [] ∧ (join 47 s).head? ≠ some 47 ∧ (join 47 s).getLast? ≠ some 47 := by
  induction s with
  | nil => exact absurd rfl hs
  | cons a s ih =>
    have ha : a ≠ [] := hne a (.head _)
    have hmem : 47 ∉ a := hslash a (.head _)
    have hhead : a.head? ≠ some 47 := fun h => hmem (List.mem_of_head? h)
    cases s with
    | nil =>
      rw [join_singleton]
      exact ⟨ha, hhead, fun h => hmem (List.mem_of_getLast? h)⟩
    | cons b s =>
      obtain ⟨hjoin, -, hlast⟩ := ih (List.cons_ne_nil _ _)
        (fun x hx => hne x (.tail _ hx))
        (fun x hx => hslash x (.tail _ hx))
      rw [join_cons_cons]
      refine ⟨by simp, ?_, ?_⟩
      · rwa [List.head?_append_of_ne_nil _ ha]
      · rw [List.getLast?_append_cons, List.getLast?_cons_of_ne_nil hjoin]
        exact hlast

/-- What holds of the words in it and of what names the object holds of every segment. -/
theorem forall_path {P : GoString → Prop} (hapi : P (str "api")) (hapis : P (str "apis"))
    (hword : P (str "namespaces")) (hgroup : o.group ≠ [] → P o.group) (hversion : P o.version)
    (hns : o.ns ≠ [] → P o.ns) (hresource : P o.resource) (hname : P o.name) :
    ∀ x ∈ o.path, P x := by
  unfold Meta.path
  split_ifs <;> simp_all

theorem path_slash (ho : o.Valid) : ∀ x ∈ o.path, (47 : UInt8) ∉ x :=
  forall_path (by decide) (by decide) (by decide) (fun h => (ho.group.resolve_left h).slash)
    ho.version.subdomain.slash (fun h => (ho.ns.resolve_left h).subdomain.slash)
    (resource_slash ho.kind.2) ho.name.2.2.2.1

theorem path_ne_nil (ho : o.Valid) : ∀ x ∈ o.path, x ≠ [] :=
  forall_path (by decide) (by decide) (by decide) id ho.version.1 id
    (resource_ne ho.kind.1 (by decide)) ho.name.1

theorem splitPath_path (ho : o.Valid) : splitPath (47 :: join 47 o.path) = o.path := by
  have hne : o.path ≠ [] := by simp [Meta.path]
  obtain ⟨hjoin, hhead, hlast⟩ := join_ends hne (path_ne_nil ho) (path_slash ho)
  have hdrop : (47 :: join 47 o.path).dropWhile (· = 47) = join 47 o.path := by
    rw [List.dropWhile_cons_of_pos (by simp)]
    apply List.dropWhile_eq_self_iff.mpr
    intro hlen h
    rw [decide_eq_true_eq] at h
    apply hhead
    rw [List.head?_eq_getElem?, List.getElem?_eq_getElem hlen, h]
  have htrim : trimSlashes (join 47 o.path) = join 47 o.path := by
    apply List.rdropWhile_eq_self_iff.mpr
    intro hne h
    rw [decide_eq_true_eq] at h
    apply hlast
    rw [List.getLast?_eq_getLast_of_ne_nil hne, h]
  unfold splitPath
  rw [hdrop, htrim]
  simp only [if_neg hjoin]
  exact split_join 47 hne (path_slash ho)

section

variable (hgroup : (47 : UInt8) ∉ group) (hversion : (47 : UInt8) ∉ version)
include hgroup hversion

theorem parseGroupVersion_append (hne : version ≠ []) :
    parseGroupVersion (group ++ str "/" ++ version) = .ok (group, version) := by
  have hjoin : group ++ str "/" ++ version = join 47 [group, version] := by simp [str]
  have hslash : ∀ x ∈ [group, version], 47 ∉ x := by simp [hgroup, hversion]
  have hempty : ¬ (group ++ str "/" ++ version = [] ∨ group ++ str "/" ++ version = str "/") := by
    rintro (h | h)
    · simp [str] at h
    · have hlen := congrArg List.length h
      have hpos := List.length_pos_of_ne_nil hne
      simp only [List.length_append, str, String.toList, List.length_map] at hlen
      omega
  unfold parseGroupVersion
  rw [if_neg hempty, hjoin, split_join 47 (List.cons_ne_nil _ _) hslash]

/-- The key of an object has six segments; only the placeholders are read as something else. -/
theorem parseKey_keyOf {resource ns name : GoString} (hversion_ne : version ≠ [])
    (hresource : (47 : UInt8) ∉ resource) (hns : (47 : UInt8) ∉ ns) (hname : (47 : UInt8) ∉ name)
    (hname_ne : name ≠ []) :
    parseKey (keyOf group version resource ns name) =
      (⟨if group = groupCore then [] else group, version, resource⟩,
        if ns = nullNamespace then [] else ns, if name = nullName then [] else name) := by
  have hslash : ∀ x ∈ [[], group, version, resource, ns, name], 47 ∉ x := by
    simp [hgroup, hversion, hresource, hns, hname]
  have hkey : ∃ s, keyOf group version resource ns name = s ++ name :=
    ⟨47 :: (group ++ 47 :: (version ++ 47 :: (resource ++ 47 :: (ns ++ [47])))), by simp [keyOf]⟩
  have hne : keyOf group version resource ns name ≠ [] := by simp [keyOf]
  have htrim : trimSlashes (keyOf group version resource ns name) =
      keyOf group version resource ns name := by
    obtain ⟨s, hs⟩ := hkey
    rw [hs]
    apply List.rdropWhile_eq_self_iff.mpr
    intro _ h
    rw [List.getLast_append_of_ne_nil _ hname_ne, decide_eq_true_eq] at h
    exact hname (h ▸ List.getLast_mem hname_ne)
  have hsplit : split 47 (keyOf group version resource ns name) =
      [[], group, version, resource, ns, name] := split_join 47 (List.cons_ne_nil _ _) hslash
  have hcore : 47 ∉ (if group = groupCore then [] else group) := by
    split_ifs
    · simp
    · exact hgroup
  unfold parseKey
  rw [htrim]
  simp only [if_neg hne, hsplit, List.head?_cons, ne_eq, not_true_eq_false, if_false,
    List.getD_cons_succ, List.getD_cons_zero, parseGroupVersion_append hcore hversion hversion_ne]

end

/-- The request for the object gives its key, and the key gives back what names the object. -/
def Meta.KeyAgrees (o : Meta) : Prop :=
  keyFuncObj o = keyFuncReq o.request ∧
    ∃ key, keyFuncObj o = .ok key ∧ parseKey key = (o.gvr, o.ns, o.name)

/-- Nothing is called as a placeholder is, the object is not a `Namespace`, and its resource is
not called as a subresource of namespaces is. -/
structure Meta.Plain (o : Meta) : Prop where
  group : o.group ≠ groupCore
  ns : o.ns ≠ nullNamespace
  name : o.name ≠ nullName
  namespace_object : o.ns = [] → o.resource ≠ str "namespaces"
  subresource : o.ns ≠ [] → o.resource ≠ str "status"

theorem keyOf_inj {g g' v v' r r' n n' a a' : GoString}
    (h : ∀ x ∈ [g, v, r, n, a], (47 : UInt8) ∉ x)
    (h' : ∀ x ∈ [g', v', r', n', a'], (47 : UInt8) ∉ x)
    (heq : keyOf g v r n a = keyOf g' v' r' n' a') :
    g = g' ∧ v = v' ∧ r = r' ∧ n = n' ∧ a = a' := by
  have hsplit : ∀ {g v r n a : GoString}, (∀ x ∈ [g, v, r, n, a], 47 ∉ x) →
      split 47 (keyOf g v r n a) = [[], g, v, r, n, a] := by
    intro g v r n a h
    apply split_join 47 (List.cons_ne_nil _ _)
    exact List.forall_mem_cons.mpr ⟨by simp, h⟩
  have hlist := congrArg (split 47) heq
  rw [hsplit h, hsplit h'] at hlist
  simpa using hlist

namespace Meta.Valid
section

variable (ho : o.Valid)
include ho

theorem orCore_slash : (47 : UInt8) ∉ orCore o.group := by
  unfold orCore
  split_ifs with hempty
  · decide
  · exact (ho.group.resolve_left hempty).slash

theorem orNull_slash : (47 : UInt8) ∉ orNull o.ns := by
  unfold orNull
  split_ifs with hempty
  · decide
  · exact (ho.ns.resolve_left hempty).subdomain.slash

theorem segments_slash :
    ∀ x ∈ [orCore o.group, o.version, o.resource, orNull o.ns, o.name], (47 : UInt8) ∉ x := by
  simp only [List.forall_mem_cons]
  exact ⟨ho.orCore_slash, ho.version.subdomain.slash, resource_slash ho.kind.2, ho.orNull_slash,
    ho.name.2.2.2.1, List.forall_mem_nil _⟩

theorem parses_iff :
    parseKey (keyOf (orCore o.group) o.version o.resource (orNull o.ns) o.name) =
      (o.gvr, o.ns, o.name) ↔ o.group ≠ groupCore ∧ o.ns ≠ nullNamespace ∧ o.name ≠ nullName := by
  have hcore : groupCore ≠ [] := by decide
  have hnull : nullNamespace ≠ [] := by decide
  have hresource : 47 ∉ o.resource := resource_slash ho.kind.2
  rw [parseKey_keyOf ho.orCore_slash ho.version.subdomain.slash ho.version.1 hresource
    ho.orNull_slash ho.name.2.2.2.1 ho.name.1]
  have hgroup : (if orCore o.group = groupCore then [] else orCore o.group) = o.group ↔
      o.group ≠ groupCore := by
    unfold orCore
    by_cases hempty : o.group = []
    · simp [hempty, hcore.symm]
    · rw [if_neg hempty]
      by_cases h : o.group = groupCore
      · simp [h, hcore.symm]
      · simp [h]
  have hns : (if orNull o.ns = nullNamespace then [] else orNull o.ns) = o.ns ↔
      o.ns ≠ nullNamespace := by
    unfold orNull
    by_cases hempty : o.ns = []
    · simp [hempty, hnull.symm]
    · rw [if_neg hempty]
      by_cases h : o.ns = nullNamespace
      · simp [h, hnull.symm]
      · simp [h]
  have hname : (if o.name = nullName then [] else o.name) = o.name ↔ o.name ≠ nullName := by
    by_cases h : o.name = nullName
    · simp [h, nullName, str]
    · simp [h]
  unfold Meta.gvr
  simp [Prod.mk.injEq, GVR.mk.injEq, and_true, hgroup, hns, hname]

/-- The key of the request for an object; a request for a `Namespace` has the name also as
its namespace, and a resource called as a subresource of namespaces is taken for it. -/
theorem keyFuncReq_request : keyFuncReq o.request = .ok
    (if o.ns = [] ∧ o.resource = str "namespaces" then
      keyOf (orCore o.group) o.version o.resource o.name o.name
    else if o.ns ≠ [] ∧ o.resource = str "status" then
      keyOf (orCore o.group) o.version (str "namespaces") o.ns o.ns
    else keyOf (orCore o.group) o.version o.resource (orNull o.ns) o.name) := by
  have hfinalize : o.resource ≠ str "finalize" := resource_ne ho.kind.1 (by decide)
  have hslash := ho.name.2.2.2.1
  unfold Meta.request
  rw [splitPath_path ho, newRequestInfo_path o ho.kind.1]
  set parts := (if o.ns = [] then [] else [str "namespaces", o.ns]) ++ [o.resource, o.name]
    with hparts
  by_cases hns : o.ns = []
  · by_cases hres : o.resource = str "namespaces"
    · have hinfo : newRequestInfo.namedInfo o.baseInfo parts =
          { o.baseInfo with ns := o.name, resource := o.resource, name := o.name } := by
        simp [newRequestInfo.namedInfo, hparts, hns, hres]
      rw [hinfo, keyFuncReq_baseInfo o _ _ ho.name.1 hslash, if_pos ⟨hns, hres⟩, orNull,
        if_neg ho.name.1]
    · have hinfo : newRequestInfo.namedInfo o.baseInfo parts =
          { o.baseInfo with ns := o.ns, resource := o.resource, name := o.name } := by
        simp [newRequestInfo.namedInfo, hparts, hns, hres, Meta.baseInfo]
      rw [hinfo, keyFuncReq_baseInfo o _ _ ho.name.1 hslash, if_neg (fun h => hres h.2),
        if_neg (fun h => h.1 hns)]
  · have hlabel := ho.ns.resolve_left hns
    by_cases hres : o.resource = str "status"
    · have hinfo : newRequestInfo.namedInfo o.baseInfo parts =
          { o.baseInfo with ns := o.ns, resource := str "namespaces", name := o.ns } := by
        simp [newRequestInfo.namedInfo, hparts, hns, hres]
      rw [hinfo, keyFuncReq_baseInfo o _ _ hns hlabel.subdomain.slash, if_neg (fun h => hns h.1),
        if_pos ⟨hns, hres⟩, orNull, if_neg hns]
    · have hinfo : newRequestInfo.namedInfo o.baseInfo parts =
          { o.baseInfo with ns := o.ns, resource := o.resource, name := o.name } := by
        simp [newRequestInfo.namedInfo, hparts, hns, hres, hfinalize]
      rw [hinfo, keyFuncReq_baseInfo o _ _ ho.name.1 hslash, if_neg (fun h => hns h.1),
        if_neg (fun h => hres h.2)]

end

end Meta.Valid

theorem keyAgrees_iff (ho : o.Valid) : o.KeyAgrees ↔ o.Plain := by
  have hparse := ho.parses_iff
  obtain ⟨hcore, hversion, hresource, hnull, hobject, hnil⟩ := by
    simpa only [List.forall_mem_cons] using ho.segments_slash
  unfold Meta.KeyAgrees
  rw [keyFuncObj_eq ho, ho.keyFuncReq_request]
  constructor
  · rintro ⟨hreq, key, hkey, hback⟩
    cases hkey
    obtain ⟨hgroup, hns, hname⟩ := hparse.mp hback
    have hreq := Except.ok.inj hreq
    refine ⟨hgroup, hns, hname, ?_, ?_⟩
    · intro hempty hres
      rw [if_pos ⟨hempty, hres⟩] at hreq
      have hseg : ∀ x ∈ [orCore o.group, o.version, o.resource, o.name, o.name],
          47 ∉ x := by
        simp only [List.forall_mem_cons]
        exact ⟨hcore, hversion, hresource, hobject, hobject, hnil⟩
      obtain ⟨-, -, -, hns', -⟩ := keyOf_inj ho.segments_slash hseg hreq
      rw [orNull, if_pos hempty] at hns'
      exact hname hns'.symm
    · intro hne hres
      rw [if_neg (fun h => hne h.1), if_pos ⟨hne, hres⟩] at hreq
      have hseg : ∀ x ∈ [orCore o.group, o.version, str "namespaces", o.ns, o.ns],
          47 ∉ x := by
        rw [orNull, if_neg hne] at hnull
        simp only [List.forall_mem_cons]
        exact ⟨hcore, hversion, by decide, hnull, hnull, hnil⟩
      obtain ⟨-, -, hkind, -⟩ := keyOf_inj ho.segments_slash hseg hreq
      rw [hres] at hkind
      revert hkind
      decide
  · intro hplain
    refine ⟨?_, _, rfl, hparse.mpr ⟨hplain.group, hplain.ns, hplain.name⟩⟩
    rw [if_neg (fun h => hplain.namespace_object h.1 h.2),
      if_neg (fun h => hplain.subresource h.1 h.2)]

/-- The key of an object is the key of the request for it and is parsed back exactly where the
object is plain, and plain objects with one key have the same names. -/
theorem keys_agree (o : Meta) (ho : o.Valid) :
    (o.KeyAgrees ↔ o.Plain) ∧ ∀ o' : Meta, o'.Valid → o.Plain → o'.Plain →
      keyFuncObj o = keyFuncObj o' → o.gvr = o'.gvr ∧ o.ns = o'.ns ∧ o.name = o'.name := by
  refine ⟨keyAgrees_iff ho, ?_⟩
  intro o' ho' hplain hplain' hkey
  obtain ⟨-, key, hk, hback⟩ := (keyAgrees_iff ho).mpr hplain
  obtain ⟨-, key', hk', hback'⟩ := (keyAgrees_iff ho').mpr hplain'
  rw [hk, hk'] at hkey
  cases hkey
  rw [hback] at hback'
  simpa using hback'

namespace Sample

def pod : Meta := ⟨[], str "v1", str "Pod", str "default", str "web"⟩
def nullPod : Meta := { pod with ns := str "null" }
def clusterPod : Meta := { pod with ns := [] }
def other : Meta := ⟨[], str "v1", str "Namespace", [], str "other"⟩

end Sample

open Sample

theorem keys_agree_pod : pod.Valid ∧ pod.Plain ∧ pod.KeyAgrees := by
  have hvalid : pod.Valid := by decide +kernel
  have hplain : pod.Plain :=
    ⟨by decide, by decide, by decide, by decide, by decide +kernel⟩
  exact ⟨hvalid, hplain, (keys_agree pod hvalid).1.mpr hplain⟩

/-- A `Namespace` has another key in requests than in the store; a pod of the namespace `null`
has the key of an object without a namespace, and is read back as one. -/
theorem keys_differ :
    other.Valid ∧ nullPod.Valid ∧ clusterPod.Valid ∧
      keyFuncObj other = .ok (str "/core/v1/namespaces/null/other") ∧
      keyFuncReq other.request = .ok (str "/core/v1/namespaces/other/other") ∧
      keyFuncObj nullPod = .ok (str "/core/v1/pods/null/web") ∧
      keyFuncObj clusterPod = .ok (str "/core/v1/pods/null/web") ∧
      parseKey (str "/core/v1/pods/null/web") = (⟨[], str "v1", str "pods"⟩, [], str "web") := by
  decide +kernel

end KubeEdge.MetaServer
