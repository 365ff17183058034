import KubeEdge.Go.Handoff
import KubeEdge.Envoy.Edge

namespace KubeEdge.Envoy
open Go Machine

/-- `ChannelSizeDefault`. -/
def channelSize : ℕ := 1024

/-- `routeToEdge` and `dispatch` read and start a goroutine for a message of the envoy group,
`SendToGroup` sends, and `runEnvoyControlPlane` takes and processes. -/
def hubStep (K : Codec) : Handoff.State (Message K) ControlPlane → Handoff.Turn →
    Option (Handoff.State (Message K) ControlPlane) :=
  Handoff.step channelSize (process K)

/-- A node before it has read any of the messages that the cloud hub writes for it. -/
def edgeHub (K : Codec) (n : GoString) (ds : List Dispatch) (e : ControlPlane) :
    Handoff.State (Message K) ControlPlane :=
  { incoming := (messagesTo K n ds).map trimMessage, consumer := e }

def lastFor (slot : ResourceKind × GoString) (ds : List Dispatch) : Option Dispatch :=
  (ds.filter (·.resource.slot = slot)).getLast?

/-- However the goroutines are scheduled, once all messages are processed every slot holds
what the last message for it says. -/
def LastWriteWins (K : Codec) (n : GoString) (ds : List Dispatch) (e : ControlPlane) : Prop :=
  ∀ turns s, run (hubStep K) (edgeHub K n ds e) turns = some s → s.Done →
    ∀ slot d, lastFor slot (ds.filter (·.node = n)) = some d → s.consumer.lookup slot = d.value

variable {ds : List Dispatch}

theorem mem_of_lastFor {slot : ResourceKind × GoString} {d : Dispatch}
    (h : lastFor slot ds = some d) : d ∈ ds ∧ d.resource.slot = slot := by
  have hmem := List.mem_of_getLast? h
  rw [List.mem_filter, decide_eq_true_eq] at hmem
  exact hmem

theorem exists_lastFor {d : Dispatch} (h : d ∈ ds) :
    ∃ d', lastFor d.resource.slot ds = some d' := by
  have hne : ds.filter (·.resource.slot = d.resource.slot) ≠ [] :=
    List.ne_nil_of_mem (List.mem_filter.mpr ⟨h, decide_eq_true rfl⟩)
  exact ⟨_, List.getLast?_eq_some_getLast hne⟩

theorem lastFor_append_singleton (slot : ResourceKind × GoString) (ds : List Dispatch)
    (d : Dispatch) : lastFor slot (ds ++ [d]) =
      if d.resource.slot = slot then some d else lastFor slot ds := by
  unfold lastFor
  by_cases h : d.resource.slot = slot <;> simp [List.filter_append, h]

variable {K : Codec}

theorem process_all (hns : ∀ d ∈ ds, 47 ∉ d.resource.ns) (e : ControlPlane) :
    ∃ e', loopM (process K) (ds.map (·.trimmed K)) e = .ok e' ∧
      ∀ slot d, lastFor slot ds = some d → e'.lookup slot = d.value := by
  induction ds using List.reverseRecOn with
  | nil => exact ⟨e, rfl, fun _ _ h => by cases h⟩
  | append_singleton ds d ih =>
    obtain ⟨e₁, hloop, hlast⟩ := ih fun x hx => hns x (List.mem_append_left _ hx)
    obtain ⟨e', hproc, hlookup⟩ := process_trimmed e₁ (hns d (by simp))
    refine ⟨e', ?_, ?_⟩
    · rw [List.map_append, loopM_append hloop, List.map_singleton, loopM, hproc, ok_bind]
      rfl
    · intro slot x hx
      rw [lastFor_append_singleton] at hx
      rw [hlookup slot]
      by_cases hslot : d.resource.slot = slot
      · rw [if_pos hslot] at hx
        cases hx
        rw [if_pos hslot.symm]
      · rw [if_neg hslot] at hx
        rw [if_neg (Ne.symm hslot)]
        exact hlast slot x hx

theorem incoming_eq {n : GoString} (hn : IsDNSSubdomain n)
    (hns : ∀ d ∈ ds, IsDNSLabel d.resource.ns) :
    (messagesTo K n ds).map trimMessage = (ds.filter (·.node = n)).map (·.trimmed K) := by
  unfold messagesTo
  induction ds with
  | nil => rfl
  | cons d ds ih =>
    have hrest := ih fun x hx => hns x (.tail _ hx)
    by_cases hd : d.node = n
    · obtain ⟨m, hm, htrim⟩ := trimMessage_message (hns d (.head _)) (hd ▸ hn)
      have hsome : (d.message K).toOption = some m := by rw [hm]; rfl
      simp [hd, decide_true, hsome,
        List.map_cons, htrim, hrest]
    · simp only [List.filter_cons, hd, decide_false]
      exact hrest

/-- The last write wins exactly where the messages for one slot all say the same. -/
theorem last_write_wins_iff (K : Codec) {n : GoString} (hn : IsDNSSubdomain n) {ds : List Dispatch}
    (hns : ∀ d ∈ ds, IsDNSLabel d.resource.ns) (e : ControlPlane) :
    LastWriteWins K n ds e ↔ ∀ d ∈ ds, d.node = n → ∀ d' ∈ ds, d'.node = n →
      d.resource.slot = d'.resource.slot → d.value = d'.value := by
  set sent := ds.filter (·.node = n) with hsent
  have hmem : ∀ d, d ∈ sent ↔ d ∈ ds ∧ d.node = n := by
    intro d
    rw [hsent, List.mem_filter, decide_eq_true_eq]
  have hslash : ∀ d ∈ sent, 47 ∉ d.resource.ns :=
    fun d hd => (hns d ((hmem d).mp hd).1).subdomain.slash
  constructor
  · intro hwins
    -- whichever dispatch for the slot is delivered last decides
    have hlast : ∀ x ∈ sent, ∀ d, lastFor x.resource.slot sent = some d → x.value = d.value := by
      intro x hx d hd
      obtain ⟨l₁, l₂, hsplit⟩ := List.append_of_mem hx
      have hperm : ((l₁ ++ l₂) ++ [x]).Perm sent := by
        rw [hsplit]
        exact (List.perm_append_singleton x (l₁ ++ l₂)).trans List.perm_middle.symm
      obtain ⟨e', hloop, hlookup⟩ := process_all
        (fun y hy => hslash y (hperm.subset hy)) e
      have hroom : 0 < channelSize := by decide
      obtain ⟨turns, hrun⟩ := Handoff.exists_run hroom (hperm.map (·.trimmed K)) hloop
      rw [← incoming_eq hn hns] at hrun
      have hx' : lastFor x.resource.slot ((l₁ ++ l₂) ++ [x]) = some x := by
        rw [lastFor_append_singleton, if_pos rfl]
      have hend := hwins turns _ hrun ⟨rfl, rfl, rfl⟩ _ d hd
      exact (hlookup _ x hx').symm.trans hend
    intro d hd hdn d' hd' hdn' hslot
    have hd := (hmem d).mpr ⟨hd, hdn⟩
    have hd' := (hmem d').mpr ⟨hd', hdn'⟩
    obtain ⟨dl, hdl⟩ := exists_lastFor hd
    rw [hlast d hd dl hdl, hlast d' hd' dl (hslot ▸ hdl)]
  · intro hsame turns s hrun hdone slot d hd
    unfold edgeHub at hrun
    rw [incoming_eq hn hns] at hrun
    obtain ⟨messages, hmessages, hfold⟩ := Handoff.consumed_of_run hrun hdone
    obtain ⟨order, hperm, rfl⟩ := Handoff.exists_of_perm_map hmessages
    obtain ⟨e', hloop, hlookup⟩ := process_all (fun y hy => hslash y (hperm.subset hy)) e
    have he' : s.consumer = e' := Except.ok.inj (hfold.symm.trans hloop)
    have hd := mem_of_lastFor hd
    -- some dispatch for the slot was processed last, and it says the same
    obtain ⟨x, hx⟩ := exists_lastFor (hperm.symm.subset hd.1)
    have hxmem := mem_of_lastFor hx
    have hxsent := (hmem x).mp (hperm.subset hxmem.1)
    have hdsent := (hmem d).mp hd.1
    rw [he', ← hd.2, hlookup _ x hx]
    exact hsame x hxsent.1 hxsent.2 d hdsent.1 hdsent.2 hxmem.2

open Sample

/-- Two inserts of one secret may overtake each other. -/
theorem last_write_wins_repeated :
    LastWriteWins codec (str "node")
      [sendCert (str "default") .insert, sendCert (str "default") .insert] {} := by
  refine (last_write_wins_iff codec (by decide +kernel) ?_ {}).mpr ?_
  · intro d hd
    obtain rfl : d = sendCert (str "default") .insert := by simpa using hd
    decide +kernel
  · intro d hd _ d' hd' _ _
    obtain rfl : d = sendCert (str "default") .insert := by simpa using hd
    obtain rfl : d' = sendCert (str "default") .insert := by simpa using hd'
    rfl

/-- The secret is inserted and deleted, the goroutine of the deletion sends first, and the
secret stays. -/
theorem delete_overtaken :
    ¬ LastWriteWins codec (str "node")
      [sendCert (str "default") .insert, sendCert (str "default") .delete] {} := by
  intro hwins
  have hrun : (run (hubStep codec) (edgeHub codec (str "node")
      [sendCert (str "default") .insert, sendCert (str "default") .delete] {})
      [.read, .read, .send 1, .send 0, .take, .take]).map (fun s =>
        (s.incoming.length, s.goroutines.length, s.channel.length,
          (s.consumer.lookup (sendCert (str "default") .insert).resource.slot).isSome)) =
      some (0, 0, 0, true) := by
    decide +kernel
  obtain ⟨s, hs, hread⟩ := Option.map_eq_some_iff.mp hrun
  simp only [Prod.mk.injEq, List.length_eq_zero_iff] at hread
  have habsent := hwins _ s hs ⟨hread.1, hread.2.1, hread.2.2.1⟩
    (sendCert (str "default") .insert).resource.slot
    (sendCert (str "default") .delete) rfl
  rw [habsent] at hread
  exact absurd hread.2.2.2 (by decide)

end KubeEdge.Envoy
