import KubeEdge.Kube.Objects

namespace KubeEdge.Envoy
open Go

/-- `crypto/sha1` and `crypto/sha256`. -/
structure Digest where
  sha1 : List UInt8 → List UInt8
  sha256 : List UInt8 → List UInt8
  sha1_length : ∀ b, (sha1 b).length = 20
  sha256_length : ∀ b, (sha256 b).length = 32

/-- `truncate`: cut `s` to `l` bytes, ending in `-suffix`. -/
def truncate (l : ℕ) (s suffix : GoString) : GoString :=
  if s.length ≤ l then s
  else if l ≤ suffix.length then suffix.take (min l suffix.length)
  else s.take (l - suffix.length - 1) ++ 45 :: suffix

/-- The loop of `Hashname`: element `n` is cut in place, `n` running down from the
last one, until the joined string is short enough. -/
def hashnameLoop (l w : ℕ) (shorthash : GoString) : ℕ → List GoString → Option GoString
  | 0, _ => none
  | n + 1, s =>
    let s := s.modify n fun e => truncate w e shorthash
    let r := join 95 s
    if r.length < l then some r else hashnameLoop l w shorthash n s

def hashname (H : Digest) (l : ℕ) (s : List GoString) : GoString :=
  let r := join 95 s
  if r.length < l then r
  else
    let hash := hex (H.sha256 r)
    match hashnameLoop l (l / s.length) (hash.take 6) s.length s with
    | some r => r
    | none => hash.take (min hash.length l)

theorem truncate_length_le (l : ℕ) (s suffix : GoString) :
    (truncate l s suffix).length ≤ min l s.length := by
  unfold truncate
  split_ifs with h₁ h₂
  · exact le_min h₁ le_rfl
  · rw [List.length_take]
    omega
  · rw [List.length_append, List.length_cons, List.length_take]
    omega

variable {l w n : ℕ} {short a b suffix name ns : GoString} {s : List GoString} {H : Digest}
  {port port' : Int32}

theorem truncate_eq_self {s : GoString} (h : s.length ≤ l) (suffix : GoString) :
    truncate l s suffix = s := if_pos h

theorem mem_truncate {s : GoString} {c : UInt8} (h : c ∈ truncate l s suffix) :
    c ∈ s ∨ c = 45 ∨ c ∈ suffix := by
  unfold truncate at h
  split_ifs at h
  · exact .inl h
  · exact .inr (.inr (List.mem_of_mem_take h))
  · rw [List.mem_append, List.mem_cons] at h
    rcases h with h | h | h
    · exact .inl (List.mem_of_mem_take h)
    · exact .inr (.inl h)
    · exact .inr (.inr h)

/-- The list with the elements from position `n` on cut. -/
def cutFrom (w : ℕ) (short : GoString) (n : ℕ) (s : List GoString) : List GoString :=
  s.take n ++ (s.drop n).map fun e => truncate w e short

theorem cutFrom_length_self (w : ℕ) (short : GoString) (s : List GoString) :
    cutFrom w short s.length s = s := by simp [cutFrom]

theorem cutFrom_zero (w : ℕ) (short : GoString) (s : List GoString) :
    cutFrom w short 0 s = s.map fun e => truncate w e short := by simp [cutFrom]

theorem modify_cutFrom (hn : n < s.length) :
    (cutFrom w short (n + 1) s).modify n (fun e => truncate w e short) = cutFrom w short n s := by
  obtain ⟨p, a, q, rfl, rfl⟩ : ∃ p a q, s = p ++ a :: q ∧ n = p.length :=
    ⟨s.take n, s[n], s.drop (n + 1), by simp, by simp; omega⟩
  have htake : (p ++ a :: q).take (p.length + 1) = p ++ [a] := by simp [List.take_append]
  unfold cutFrom
  rw [htake, List.append_assoc, List.singleton_append, List.modify_eq_take_cons_drop (by simp)]
  simp

theorem hashnameLoop_eq (l w : ℕ) (short : GoString) (hn : n ≤ s.length) :
    (∃ k < n, hashnameLoop l w short n (cutFrom w short n s) =
        some (join 95 (cutFrom w short k s)) ∧ (join 95 (cutFrom w short k s)).length < l ∧
      ∀ i, k < i → i < n → l ≤ (join 95 (cutFrom w short i s)).length) ∨
    (hashnameLoop l w short n (cutFrom w short n s) = none ∧
      ∀ i < n, l ≤ (join 95 (cutFrom w short i s)).length) := by
  induction n with
  | zero => exact .inr ⟨rfl, by simp⟩
  | succ n ih =>
    rw [hashnameLoop, modify_cutFrom hn]
    split_ifs with hr
    · exact .inl ⟨n, by omega, rfl, hr, by omega⟩
    -- the turn for `n` was too long, too
    have hlast {i : ℕ} (hi : i < n + 1) (h : i < n → l ≤ (join 95 (cutFrom w short i s)).length) :
        l ≤ (join 95 (cutFrom w short i s)).length := by
      rcases Nat.lt_succ_iff_lt_or_eq.mp hi with hi | rfl
      · exact h hi
      · exact Nat.not_lt.mp hr
    rcases ih (by omega) with ⟨k, hk, heq, hfits, hlong⟩ | ⟨heq, hlong⟩
    · exact .inl ⟨k, by omega, heq, hfits, fun i hki hi => hlast hi (hlong i hki)⟩
    · exact .inr ⟨heq, fun i hi => hlast hi (hlong i)⟩

/-- The name with the fields from position `i` on cut. -/
def cutName (H : Digest) (l : ℕ) (s : List GoString) (i : ℕ) : GoString :=
  join 95 (cutFrom (l / s.length) ((hex (H.sha256 (join 95 s))).take 6) i s)

/-- What `Hashname` returns: the joined fields, as few of the last of them cut as will do, or a
bare hash when cutting every field does not help. -/
theorem hashname_cases (H : Digest) (l : ℕ) (s : List GoString) :
    (∃ k ≤ s.length, hashname H l s = cutName H l s k ∧ (cutName H l s k).length < l ∧
      ∀ i, k < i → i ≤ s.length → l ≤ (cutName H l s i).length) ∨
    (hashname H l s = (hex (H.sha256 (join 95 s))).take (min 64 l) ∧
      ∀ i ≤ s.length, l ≤ (cutName H l s i).length) := by
  have hlen : (hex (H.sha256 (join 95 s))).length = 64 := by rw [hex_length, H.sha256_length]
  have hself := cutFrom_length_self (l / s.length) ((hex (H.sha256 (join 95 s))).take 6) s
  have hjoin : cutName H l s s.length = join 95 s := congrArg (join 95) hself
  unfold hashname
  dsimp only
  split_ifs with hr
  · exact .inl ⟨s.length, le_rfl, hjoin.symm, by rwa [hjoin], by omega⟩
  have hlast {i : ℕ} (hi : i ≤ s.length) (h : i < s.length → l ≤ (cutName H l s i).length) :
      l ≤ (cutName H l s i).length := by
    rcases Nat.lt_or_eq_of_le hi with hi | rfl
    · exact h hi
    · exact hjoin ▸ Nat.not_lt.mp hr
  have hloop := hashnameLoop_eq l (l / s.length) ((hex (H.sha256 (join 95 s))).take 6)
    (le_refl s.length)
  rw [hself] at hloop
  rcases hloop with ⟨k, hk, heq, hfits, hlong⟩ | ⟨heq, hlong⟩ <;> rw [heq]
  · exact .inl ⟨k, hk.le, rfl, hfits, fun i hki hi => hlast hi (hlong i hki)⟩
  · exact .inr ⟨by rw [hlen], fun i hi => hlast hi (hlong i)⟩

/-- `s[:n]`. -/
def sliceTo (s : GoString) (n : ℤ) : M GoString :=
  if 0 ≤ n ∧ n ≤ s.length then .ok (s.take n.toNat) else .error .indexOutOfRange

def truncateChecked (l : ℕ) (s suffix : GoString) : M GoString :=
  if s.length ≤ l then .ok s
  else if l ≤ suffix.length then sliceTo suffix (min l suffix.length)
  else do
    let start ← sliceTo s (l - suffix.length - 1)
    .ok (start ++ 45 :: suffix)

def hashnameLoopChecked (l w : ℕ) (hash : GoString) : ℕ → List GoString → M (Option GoString)
  | 0, _ => .ok none
  | n + 1, s =>
    match s[n]? with
    | none => .error .indexOutOfRange
    | some e => do
      let shorthash ← sliceTo hash 6
      let e ← truncateChecked w e shorthash
      let r := join 95 (s.set n e)
      if r.length < l then .ok (some r) else hashnameLoopChecked l w hash n (s.set n e)

def hashnameChecked (H : Digest) (l : ℕ) (s : List GoString) : M GoString :=
  let r := join 95 s
  if r.length < l then .ok r
  else do
    let hash := hex (H.sha256 r)
    match ← hashnameLoopChecked l (l / s.length) hash s.length s with
    | some r => .ok r
    | none => sliceTo hash (min hash.length l)

theorem sliceTo_eq {s : GoString} {k : ℕ} (hk : k ≤ s.length) : sliceTo s k = .ok (s.take k) :=
  if_pos ⟨Int.natCast_nonneg k, Int.ofNat_le.mpr hk⟩

theorem truncateChecked_eq (l : ℕ) (s suffix : GoString) :
    truncateChecked l s suffix = .ok (truncate l s suffix) := by
  unfold truncateChecked truncate
  split_ifs with hfits hshort
  · rfl
  · rw [← Nat.cast_min, sliceTo_eq (Nat.min_le_right ..)]
  · have hstart : (l : ℤ) - suffix.length - 1 = ((l - suffix.length - 1 : ℕ) : ℤ) := by omega
    rw [hstart, sliceTo_eq (by omega)]
    rfl

theorem hashnameLoopChecked_eq {hash : GoString} (hhash : 6 ≤ hash.length) (hn : n ≤ s.length) :
    hashnameLoopChecked l w hash n s = .ok (hashnameLoop l w (hash.take 6) n s) := by
  induction n generalizing s with
  | zero => rfl
  | succ n ih =>
    have hget : s[n]? = some (s.get ⟨n, hn⟩) := List.getElem?_eq_getElem hn
    have hset : s.set n (truncate w (s.get ⟨n, hn⟩) (hash.take 6)) =
        s.modify n fun e => truncate w e (hash.take 6) := by
      rw [List.modify_eq_set_getElem?, hget]
      rfl
    rw [hashnameLoopChecked, hget]
    dsimp only
    rw [show (6 : ℤ) = ((6 : ℕ) : ℤ) from rfl, sliceTo_eq hhash, ok_bind, truncateChecked_eq,
      ok_bind, hset, hashnameLoop]
    split_ifs
    · rfl
    · exact ih (by rw [List.length_modify]; omega)

theorem hashnameChecked_eq (H : Digest) (l : ℕ) (s : List GoString) :
    hashnameChecked H l s = .ok (hashname H l s) := by
  have hlen : (hex (H.sha256 (join 95 s))).length = 64 := by rw [hex_length, H.sha256_length]
  unfold hashnameChecked hashname
  dsimp only
  split_ifs
  · rfl
  rw [hashnameLoopChecked_eq (by omega) le_rfl, ok_bind]
  split
  · rfl
  · rw [← Nat.cast_min, sliceTo_eq (Nat.min_le_left ..)]

/-- `Hashname` returns, within its limit; it cuts no field if the joined fields are short enough,
as few as will do otherwise, and takes the bare hash if none of that helps. -/
theorem hashname_limit (H : Digest) (l : ℕ) (s : List GoString) :
    ∃ r, hashnameChecked H l s = .ok r ∧ r.length ≤ l ∧
      ((join 95 s).length < l → r = join 95 s) ∧
      (l ≤ (join 95 s).length →
        (∃ k < s.length, r = cutName H l s k ∧ r.length < l ∧
          ∀ i, k < i → i < s.length → l ≤ (cutName H l s i).length) ∨
        ((∀ i < s.length, l ≤ (cutName H l s i).length) ∧
          r = (hex (H.sha256 (join 95 s))).take (min 64 l))) ∧
      ∀ e short, (truncate (l / s.length) e short).length ≤ l / s.length := by
  have hjoin : cutName H l s s.length = join 95 s := congrArg (join 95) (cutFrom_length_self ..)
  refine ⟨_, hashnameChecked_eq H l s, ?_, fun hfits => if_pos hfits, ?_, ?_⟩
  · rcases hashname_cases H l s with ⟨k, -, h, hfits, -⟩ | ⟨h, -⟩ <;> rw [h]
    · exact hfits.le
    · exact (List.length_take_le ..).trans (Nat.min_le_right ..)
  · intro hlong
    rcases hashname_cases H l s with ⟨k, hk, h, hfits, hmore⟩ | ⟨h, hmore⟩
    · rcases Nat.lt_or_eq_of_le hk with hk | rfl
      · exact .inl ⟨k, hk, h, h ▸ hfits, fun i hki hi => hmore i hki hi.le⟩
      · rw [hjoin] at hfits
        omega
    · exact .inr ⟨fun i hi => hmore i hi.le, h⟩
  · exact fun e short => (truncate_length_le ..).trans (Nat.min_le_left ..)

/-- `b` is `a`, or `a` cut to `w` bytes. -/
structure Cut (w : ℕ) (a b : GoString) : Prop where
  eq_self : a.length ≤ w → b = a
  chars : ∀ c ∈ b, c ∈ a ∨ c = 45 ∨ IsHexDigit c

theorem Cut.refl (w : ℕ) (a : GoString) : Cut w a a := ⟨fun _ => rfl, fun _ => .inl⟩

theorem Cut.truncate (h : ∀ c ∈ suffix, IsHexDigit c) (a : GoString) :
    Cut w a (truncate w a suffix) where
  eq_self ha := truncate_eq_self ha suffix
  chars c hc := (mem_truncate hc).imp_right (Or.imp_right (h c))

theorem Cut.not_mem (h : Cut w a b) (ha : (95 : UInt8) ∉ a) : (95 : UInt8) ∉ b := by
  intro hb
  rcases h.chars 95 hb with h | h | h
  · exact ha h
  · exact absurd h (by decide)
  · exact absurd h (by unfold IsHexDigit; decide)

theorem cut_cutFrom (h : ∀ c ∈ short, IsHexDigit c) (n : ℕ) (s : List GoString) :
    List.Forall₂ (Cut w) s (cutFrom w short n s) := by
  conv_lhs => rw [← List.take_append_drop n s]
  refine List.rel_append ?_ ?_
  · exact List.forall₂_same.mpr fun a _ => Cut.refl w a
  · exact List.forall₂_map_right_iff.mpr (List.forall₂_same.mpr fun a _ => Cut.truncate h a)

theorem hashname_fields (H : Digest) (l : ℕ) (s : List GoString) :
    (∃ t, List.Forall₂ (Cut (l / s.length)) s t ∧ hashname H l s = join 95 t) ∨
    ((∀ c ∈ hashname H l s, IsHexDigit c) ∧ ∃ short : GoString,
      l ≤ (join 95 (s.map fun e => truncate (l / s.length) e short)).length) := by
  have hhex : ∀ c ∈ (hex (H.sha256 (join 95 s))).take 6, IsHexDigit c :=
    fun c hc => hex_isHexDigit (List.mem_of_mem_take hc)
  rcases hashname_cases H l s with ⟨k, -, h, -⟩ | ⟨h, hlen⟩
  · exact .inl ⟨_, cut_cutFrom hhex k s, h⟩
  · have hzero := hlen 0 (Nat.zero_le _)
    rw [cutName, cutFrom_zero] at hzero
    refine .inr ⟨?_, _, hzero⟩
    intro c hc
    rw [h] at hc
    exact hex_isHexDigit (List.mem_of_mem_take hc)

/-- `HTTPHealthCheckPolicy`; durations are whole seconds. -/
structure HTTPHealthCheckPolicy where
  path : GoString
  interval : ℕ
  timeout : ℕ
  unhealthyThreshold : UInt32
  healthyThreshold : UInt32

structure PeerValidationContext where
  caCertificate : Option Secret := none
  subjectName : GoString := []

def tlsCertKey : GoString := str "tls.crt"

def secretname (H : Digest) (s : Secret) : GoString :=
  let hash := H.sha1 ((s.index tlsCertKey).getD [])
  hashname H 60 [s.ns, s.name, hex (hash.take 5)]

/-- What the health check adds to the hashed text of `Clustername`. -/
def healthCheckText : Option HTTPHealthCheckPolicy → GoString
  | none => []
  | some hc =>
    (if 0 < hc.timeout then durationString hc.timeout else []) ++
    (if 0 < hc.interval then durationString hc.interval else []) ++
    (if 0 < hc.unhealthyThreshold.toNat then itoa hc.unhealthyThreshold.toNat else []) ++
    (if 0 < hc.healthyThreshold.toNat then itoa hc.healthyThreshold.toNat else []) ++ hc.path

/-- What the upstream validation adds; the certificate is dereferenced unchecked. -/
def validationText : Option PeerValidationContext → M GoString
  | none => .ok []
  | some uv => do
    let ca ← deref uv.caCertificate
    .ok (ca.name ++ uv.subjectName)

/-- `Clustername` for the hashed text `buf`. -/
def clusternameOf (H : Digest) (service : Service) (servicePort : ServicePort) (buf : GoString) :
    GoString :=
  hashname H 60
    [service.ns, service.name, itoa servicePort.port.toInt, hex ((H.sha1 buf).take 5)]

def clustername (H : Digest) (service : Service) (servicePort : ServicePort)
    (loadBalancerPolicy : GoString) (hc : Option HTTPHealthCheckPolicy)
    (uv : Option PeerValidationContext) : M GoString := do
  let text ← validationText uv
  .ok (clusternameOf H service servicePort (loadBalancerPolicy ++ healthCheckText hc ++ text))

def endpointName (H : Digest) (service : Service) : GoString :=
  hashname H 60 [service.name, service.ns]

def routeName (H : Digest) (ingress : Ingress) : GoString :=
  hashname H 60 [ingress.name, ingress.ns, str "envoyroute"]

def envoyHTTPListener : GoString := str "ingress_http"

def envoyHTTPSListener : GoString := str "ingress_https"

def defaultHTTPListenerAddress : GoString := str "0.0.0.0"

/-- The name of the listener of kind `listener` on a port. -/
def listenerName (H : Digest) (listener : GoString) (port : Int32) : GoString :=
  hashname H 60 [listener, defaultHTTPListenerAddress, itoa port.toInt]

/-- `EnvoyResourceKeyFunc`, of the namespace and name of a resource. -/
def envoyResourceKeyFunc (ns name : GoString) : GoString :=
  if ns = [] then name else ns ++ 47 :: name

/-- The kinds of resources, http and https listeners apart. -/
inductive Kind
  | secret
  | endpoint
  | cluster
  | route
  | httpListener
  | httpsListener
  deriving DecidableEq, Repr

/-- `Named H ns k name`: a resource of kind `k` made from objects of the namespace
`ns` may be called `name`. -/
inductive Named (H : Digest) : GoString → Kind → GoString → Prop
  | secret (s : Secret) : Named H s.ns .secret (secretname H s)
  | endpoint (s : Service) : Named H s.ns .endpoint (endpointName H s)
  | cluster (s : Service) (p : ServicePort) (lb : GoString) (hc : Option HTTPHealthCheckPolicy)
      (uv : Option PeerValidationContext) (name : GoString)
      (h : clustername H s p lb hc uv = .ok name) :
      Named H s.ns .cluster name
  | route (i : Ingress) : Named H i.ns .route (routeName H i)
  | httpListener (ns : GoString) (port : Int32) :
      Named H ns .httpListener (listenerName H envoyHTTPListener port)
  | httpsListener (ns : GoString) (port : Int32) :
      Named H ns .httpsListener (listenerName H envoyHTTPSListener port)

/-- The kind read off a name, from the number of its fields and two of them. -/
def kindOfName (name : GoString) : Kind :=
  match split 95 name with
  | [_, _, c] => if c = str "envoyroute" then .route else .secret
  | [_, b, c, _] =>
    if c = defaultHTTPListenerAddress then
      if b = str "http" then .httpListener else .httpsListener
    else .cluster
  | _ => .endpoint

theorem hashname_of_short (h : (join 95 s).length < l) : hashname H l s = join 95 s := if_pos h

theorem split_hashname_three (H : Digest) {c : GoString} (ha : (95 : UInt8) ∉ a)
    (hb : (95 : UInt8) ∉ b) (hc : (95 : UInt8) ∉ c) (hlen : c.length ≤ 17) :
    ∃ x y, split 95 (hashname H 60 [a, b, c]) = [x, y, c] := by
  rcases hashname_fields H 60 [a, b, c] with ⟨t, ht, h⟩ | ⟨-, short, h⟩
  · rcases ht with _ | ⟨hx, _ | ⟨hy, _ | ⟨hz, _ | _⟩⟩⟩
    rename_i x y z
    have hzc : z = c := hz.eq_self (by simpa using hlen.trans (by decide))
    subst hzc
    refine ⟨x, y, ?_⟩
    rw [h]
    refine split_join _ (by simp) ?_
    simp only [List.forall_mem_cons]
    exact ⟨hx.not_mem ha, hy.not_mem hb, hc, by simp⟩
  · have h₁ := truncate_length_le 20 a short
    have h₂ := truncate_length_le 20 b short
    have h₃ := truncate_length_le 20 c short
    simp at h
    omega

theorem split_hashname_four (H : Digest) {c d : GoString} (ha : (95 : UInt8) ∉ a)
    (hb : (95 : UInt8) ∉ b) (hc : (95 : UInt8) ∉ c) (hd : (95 : UInt8) ∉ d) (hclen : c.length ≤ 11)
    (hdlen : d.length ≤ 10) :
    ∃ x y, split 95 (hashname H 60 [a, b, c, d]) = [x, y, c, d] := by
  rcases hashname_fields H 60 [a, b, c, d] with ⟨t, ht, h⟩ | ⟨-, short, h⟩
  · rcases ht with _ | ⟨hx, _ | ⟨hy, _ | ⟨hz, _ | ⟨hw, _ | _⟩⟩⟩⟩
    rename_i x y z w
    have hzc : z = c := hz.eq_self (by simpa using hclen.trans (by decide))
    have hwd : w = d := hw.eq_self (by simpa using hdlen.trans (by decide))
    subst hzc hwd
    refine ⟨x, y, ?_⟩
    rw [h]
    refine split_join _ (by simp) ?_
    simp only [List.forall_mem_cons]
    exact ⟨hx.not_mem ha, hy.not_mem hb, hc, hd, by simp⟩
  · have h₁ := truncate_length_le 15 a short
    have h₂ := truncate_length_le 15 b short
    have h₃ := truncate_length_le 15 c short
    have h₄ := truncate_length_le 15 d short
    simp at h
    omega

theorem hex_no_underscore (b : List UInt8) : (95 : UInt8) ∉ hex b := by
  intro h
  exact absurd (hex_isHexDigit h) (by unfold IsHexDigit; decide)

theorem itoa_no_underscore (i : ℤ) : (95 : UInt8) ∉ itoa i := by
  intro h
  exact absurd (itoa_char h) (by decide)

section

variable (H)

theorem hex_sha1_length (b : List UInt8) : (hex ((H.sha1 b).take 5)).length = 10 := by
  rw [hex_length, List.length_take, H.sha1_length]
  rfl

theorem kindOfName_secretname (s : Secret) : kindOfName (secretname H s) = .secret := by
  obtain ⟨x, y, h⟩ := split_hashname_three H s.ns_valid.subdomain.underscore s.name_valid.underscore
    (hex_no_underscore ((H.sha1 ((s.index tlsCertKey).getD [])).take 5))
    (by rw [hex_sha1_length]; decide)
  have hne : hex ((H.sha1 ((s.index tlsCertKey).getD [])).take 5) ≠ str "envoyroute" := by
    intro he
    have hn : 110 ∈ hex ((H.sha1 ((s.index tlsCertKey).getD [])).take 5) := by
      rw [he]
      decide
    exact absurd (hex_isHexDigit hn) (by unfold IsHexDigit; decide)
  unfold secretname kindOfName
  simp [h, hne]

theorem kindOfName_endpointName (s : Service) : kindOfName (endpointName H s) = .endpoint := by
  unfold endpointName kindOfName
  rcases hashname_fields H 60 [s.name, s.ns] with ⟨t, ht, h⟩ | ⟨hhex, -⟩
  · rcases ht with _ | ⟨hx, _ | ⟨hy, _ | _⟩⟩
    rename_i x y
    have hs : split 95 (join 95 [x, y]) = [x, y] := by
      refine split_join _ (by simp) ?_
      simp only [List.forall_mem_cons]
      exact ⟨hx.not_mem s.name_valid.underscore,
        hy.not_mem s.ns_valid.subdomain.underscore, by simp⟩
    rw [h, hs]
  · have hs := split_join 95 (s := [hashname H 60 [s.name, s.ns]]) (by simp) (by
      intro x hx hm
      rw [List.mem_singleton.mp hx] at hm
      exact absurd (hhex 95 hm) (by unfold IsHexDigit; decide))
    rw [join_singleton] at hs
    rw [hs]

theorem split_clusternameOf (s : Service) (p : ServicePort) (buf : GoString) :
    ∃ x y, split 95 (clusternameOf H s p buf) =
      [x, y, itoa p.port.toInt, hex ((H.sha1 buf).take 5)] :=
  split_hashname_four H s.ns_valid.subdomain.underscore s.name_valid.underscore
    (itoa_no_underscore p.port.toInt) (hex_no_underscore ((H.sha1 buf).take 5))
    (itoa_int32_length p.port) (hex_sha1_length H buf).le

theorem kindOfName_clusternameOf (s : Service) (p : ServicePort) (buf : GoString) :
    kindOfName (clusternameOf H s p buf) = .cluster := by
  obtain ⟨x, y, h⟩ := split_clusternameOf H s p buf
  have hne : itoa p.port.toInt ≠ defaultHTTPListenerAddress := by
    intro he
    have hdot : 46 ∈ itoa p.port.toInt := by
      rw [he]
      decide
    exact absurd (itoa_char hdot) (by decide)
  unfold kindOfName
  simp [h, hne]

theorem kindOfName_routeName (i : Ingress) : kindOfName (routeName H i) = .route := by
  obtain ⟨x, y, h⟩ := split_hashname_three H (c := str "envoyroute") i.name_valid.underscore
    i.ns_valid.subdomain.underscore (by decide) (by decide)
  unfold routeName kindOfName
  simp [h]

theorem listenerName_eq {listener : GoString} (hl : listener.length ≤ 13) (port : Int32) :
    listenerName H listener port =
      join 95 [listener, defaultHTTPListenerAddress, itoa port.toInt] := by
  have hp := itoa_int32_length port
  have ha : defaultHTTPListenerAddress.length = 7 := by decide
  refine hashname_of_short ?_
  simp [ha]
  omega

/-- Both listener names have a field `ingress` in front of the `http` or `https` one. -/
theorem split_listenerName (hb : (95 : UInt8) ∉ b) (hlen : b.length ≤ 5) (port : Int32) :
    split 95 (listenerName H (str "ingress" ++ 95 :: b) port) =
      [str "ingress", b, defaultHTTPListenerAddress, itoa port.toInt] := by
  have hi : (str "ingress").length = 7 := by decide
  rw [listenerName_eq H (by simp [hi]; omega)]
  have hj : join 95 [str "ingress" ++ 95 :: b, defaultHTTPListenerAddress, itoa port.toInt] =
      join 95 [str "ingress", b, defaultHTTPListenerAddress, itoa port.toInt] := by simp
  rw [hj]
  refine split_join _ (by simp) ?_
  simp only [List.forall_mem_cons]
  exact ⟨by decide, hb, by decide, itoa_no_underscore _, by simp⟩

theorem kindOfName_httpListener (port : Int32) :
    kindOfName (listenerName H envoyHTTPListener port) = .httpListener := by
  have h := split_listenerName H (b := str "http") (by decide) (by decide) port
  unfold kindOfName
  rw [show envoyHTTPListener = str "ingress" ++ 95 :: str "http" by decide, h]
  rfl

theorem kindOfName_httpsListener (port : Int32) :
    kindOfName (listenerName H envoyHTTPSListener port) = .httpsListener := by
  have h := split_listenerName H (b := str "https") (by decide) (by decide) port
  unfold kindOfName
  rw [show envoyHTTPSListener = str "ingress" ++ 95 :: str "https" by decide, h]
  rfl

end

theorem port_of_listenerName (hb : (95 : UInt8) ∉ b) (hlen : b.length ≤ 5)
    (h : listenerName H (str "ingress" ++ 95 :: b) port =
      listenerName H (str "ingress" ++ 95 :: b) port') :
    port = port' := by
  have hsplit := congrArg (split 95) h
  rw [split_listenerName H hb hlen, split_listenerName H hb hlen] at hsplit
  simp only [List.cons.injEq, and_true, true_and] at hsplit
  exact Int32.toInt_inj.mp (itoa_injective hsplit)

theorem listenerName_inj
    (h : listenerName H envoyHTTPListener port = listenerName H envoyHTTPListener port') :
    port = port' := by
  exact port_of_listenerName (by decide) (by decide) h

theorem listenerName_ne_https (H : Digest) (port : Int32) :
    listenerName H envoyHTTPListener port ≠ envoyHTTPSListener := by
  intro he
  have hk := kindOfName_httpListener H port
  rw [he] at hk
  exact absurd hk (by decide)

theorem Named.kindOfName_eq {k : Kind} (h : Named H ns k name) : kindOfName name = k := by
  cases h with
  | secret s => exact kindOfName_secretname H s
  | endpoint s => exact kindOfName_endpointName H s
  | cluster s p lb hc uv name h =>
    obtain ⟨text, -, h⟩ := ok_of_bind h
    cases h
    exact kindOfName_clusternameOf H s p _
  | route i => exact kindOfName_routeName H i
  | httpListener ns port => exact kindOfName_httpListener H port
  | httpsListener ns port => exact kindOfName_httpsListener H port

theorem envoyResourceKeyFunc_inj {name' : GoString}
    (h : envoyResourceKeyFunc ns name = envoyResourceKeyFunc ns name') : name = name' := by
  unfold envoyResourceKeyFunc at h
  split_ifs at h
  · exact h
  · simpa using h

end KubeEdge.Envoy
