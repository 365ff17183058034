import KubeEdge.MetaServer.Imitator

namespace KubeEdge.MetaServer
open Go Machine

variable {β : Type}

/-- A key that names a version, as the keys of all requests do. -/
structure ProperKey (key : GoString) : Prop where
  version : (parseKey key).1.version ≠ []
  group_slash : (47 : UInt8) ∉ (parseKey key).1.group
  version_comma : (44 : UInt8) ∉ (parseKey key).1.version

theorem GVR.string_inj {a b : GVR} (ha : (47 : UInt8) ∉ a.group) (hb : (47 : UInt8) ∉ b.group)
    (ha' : (44 : UInt8) ∉ a.version) (hb' : (44 : UInt8) ∉ b.version)
    (h : a.string = b.string) : a = b := by
  have hform : ∀ c : GVR, c.string =
      c.group ++ 47 :: (c.version ++ 44 :: (str " Resource=" ++ c.resource)) := by
    intro c
    have hcomma : str ", Resource=" = 44 :: str " Resource=" := rfl
    simp [GVR.string, hcomma, show str "/" = [47] from rfl, List.append_assoc,
      List.cons_append, List.nil_append]
  rw [hform, hform] at h
  obtain ⟨hgroup, h⟩ := append_sep_inj ha hb h
  obtain ⟨hversion, h⟩ := append_sep_inj ha' hb' h
  cases a
  cases b
  simp_all

theorem parseKey_null (key : GoString) :
    (parseKey key).2.1 ≠ nullNamespace ∧ (parseKey key).2.2 ≠ nullName := by
  have hnull : ([]) ≠ str "null" := by decide
  have hread : ∀ s : GoString, (if s = str "null" then [] else s) ≠ str "null" := by
    intro s
    split_ifs with h
    · exact hnull
    · exact h
  simp only [parseKey]
  by_cases hempty : trimSlashes key = []
  · rw [if_pos hempty]
    exact ⟨hnull, hnull⟩
  · rw [if_neg hempty]
    by_cases hhead : (split 47 (trimSlashes key)).head? ≠ some []
    · rw [if_pos hhead]
      exact ⟨hnull, hnull⟩
    · rw [if_neg hhead]
      split
      · exact ⟨hnull, hnull⟩
      · exact ⟨hread _, hread _⟩

variable {k objKey key : GoString} {e : WatchEvent β} {s' s : World β} {p : Predicate β}
  {rows : GoMap GoString (Row β)} {o : Object β}

theorem parseKey_object (ho : o.objectMeta.Valid) (hk : o.key = .ok k) :
    (47 : UInt8) ∉ (parseKey k).1.group ∧ (44 : UInt8) ∉ (parseKey k).1.version := by
  rw [Object.key, keyFuncObj_eq ho] at hk
  cases hk
  have hresource : 47 ∉ o.objectMeta.resource := resource_slash ho.kind.2
  rw [parseKey_keyOf ho.orCore_slash ho.version.subdomain.slash ho.version.1 hresource
    ho.orNull_slash ho.name.2.2.2.1 ho.name.1]
  constructor
  · dsimp only
    split_ifs
    · simp
    · exact ho.orCore_slash
  · intro hcomma
    have hlabel := ho.version.2.2 _ hcomma
    revert hlabel
    decide

theorem selected_iff (hkey : ProperKey key) (ho : o.objectMeta.Valid) (hk : o.key = .ok k) :
    (rowOf k o).Selected (parseKey key).1 (parseKey key).2.1 (parseKey key).2.2 ↔
      InScope key k := by
  obtain ⟨hns, hname⟩ := parseKey_null key
  obtain ⟨hgroup, hversion⟩ := parseKey_object ho hk
  have hempty : ¬ (parseKey key).1.Empty := fun h => hkey.version h.2.1
  have hgvr : (parseKey k).1.string = (parseKey key).1.string ↔
      (parseKey key).1 = (parseKey k).1 := by
    constructor
    · intro h
      exact GVR.string_inj hkey.group_slash hgroup hkey.version_comma hversion h.symm
    · intro h
      rw [h]
  unfold Row.Selected InScope WatchHook.Covers newWatchHook rowOf
  rw [hgvr, eq_comm (a := (parseKey k).2.1), eq_comm (a := (parseKey k).2.2)]
  simp [hempty, hns, hname, false_or]

theorem foldl_listed (hkey : ProperKey key) (p : Predicate β) (hstored : Stored s.rows)
    (k : GoString) :
    ((listed s.rows key).map fun row => WatchEvent.mk .added row.value).foldl (p.follow k) none =
      target key p s k := by
  unfold listed rawMetaByGVRNN
  rw [List.foldl_map, List.foldl_filter, GoMap.foldl_values]
  · unfold target
    cases hlook : s.rows.lookup k with
    | none => simp
    | some row =>
      obtain ⟨hrow, hrowkey, hvalid⟩ := hstored k row hlook
      have hiff := selected_iff hkey hvalid hrowkey
      rw [← hrow] at hiff
      by_cases hscope : InScope key k
      · simp [hscope, hiff.mpr hscope, Predicate.follow, hrowkey, Predicate.selected,
          Option.filter]
      · simp [hscope, mt hiff.mp hscope]
  · intro a row hlook ha x
    have hrowkey : row.value.key = .ok a := (hstored a row hlook).2.1
    simp [Predicate.follow, hrowkey, ha]

/-- The events that the watch still has to send, with this event in its loop variable. -/
def Watcher.unsent (wres : Option (WatchEvent β)) : Watcher β → List (WatchEvent β)
  | .syncing kvs _ => kvs.map fun row => ⟨.added, row.value⟩
  | .forwarding _ => wres.toList
  | _ => []

/-- The events on their way, as they stand. -/
def coming (s : World β) : List (WatchEvent β) :=
  s.pending.filterMap s.event ++ s.watcher.unsent s.wres

/-- What the client has once the events on their way have come. -/
def view (p : Predicate β) (s : World β) (k : GoString) : Option (Object β) :=
  (coming s).foldl (p.follow k) ((replay s.stream.results).lookup k)

theorem view_congr (hstream : s'.stream = s.stream) (hcoming : coming s' = coming s)
    (k : GoString) : view p s' k = view p s k := by
  unfold view
  rw [hstream, hcoming]

theorem WatchEvent.inScope_iff (hkey : e.object.key = .ok objKey) :
    e.InScope key ↔ MetaServer.InScope key objKey := by
  unfold WatchEvent.InScope
  rw [hkey]

/-- The client comes to have what is selected, up to an event that is stored and not yet handed
on.  If the hook does not take that event, the list had it. -/
def Seen (key : GoString) (p : Predicate β) (s : World β) (rev : UInt64) : Prop :=
  match s.injector with
  | .ready _ => ∀ k, view p s k = target key p s k
  | .stored e _ =>
    (¬ (e.InScope key ∧ rev.toNat + 1 < e.object.resourceVersion.toNat) →
      ∀ k, view p s k = target key p s k) ∧
    (e.InScope key → ∀ k, p.follow k (view p s k) e = target key p s k)

theorem Seen.congr {rev : UInt64} (h : Seen key p s rev) (hview : ∀ k, view p s' k = view p s k)
    (hrows : s'.rows = s.rows) (hinjector : s'.injector = s.injector) : Seen key p s' rev := by
  unfold Seen target at *
  rw [hinjector, hrows]
  simpa [hview] using h

structure Inv (key : GoString) (p : Predicate β) (s : World β) : Prop where
  remembers : s.stream.Remembers
  stored : Stored s.rows
  valid : ∀ todo, s.injector = .ready todo → ∀ e ∈ todo, e.object.objectMeta.Valid
  valid_rest : ∀ e todo, s.injector = .stored e todo → ∀ e ∈ todo, e.object.objectMeta.Valid
  saved : ∀ e todo, s.injector = .stored e todo → ∀ objKey, e.object.key = .ok objKey →
    s.rows.lookup objKey = if e.type = .deleted then none else some (rowOf objKey e.object)
  fresh : s.watcher = .start → s.stream.results = [] ∧ s.pending = []
  alive : ∀ err, s.watcher ≠ .failed err
  seen : ∀ rev, s.watcher.listRev = some rev → Seen key p s rev

theorem follow_target (hkey : e.object.key = .ok objKey) (hscope : InScope key objKey)
    (hsaved : s.rows.lookup objKey = if e.type = .deleted then none
      else some (rowOf objKey e.object))
    (k : GoString) :
    p.follow k (target key p s k) e = target key p s k := by
  unfold Predicate.follow
  split_ifs with hk
  · rw [hkey] at hk
    cases hk
    unfold target Predicate.selected
    rw [if_pos hscope, hsaved]
    by_cases hdeleted : e.type = .deleted
    · simp [hdeleted]
    · simp [hdeleted, rowOf, Option.filter]
  · rfl

theorem lookup_save (s : World β) (e : WatchEvent β) (objKey k : GoString) :
    (s.save e objKey).rows.lookup k =
      if k = objKey then (if e.type = .deleted then none else some (rowOf objKey e.object))
      else s.rows.lookup k := by
  unfold World.save
  by_cases hdeleted : e.type = .deleted
  · simp only [if_pos hdeleted]
    exact GoMap.lookup_erase _ _ _
  · simp only [if_neg hdeleted]
    exact GoMap.lookup_insert _ _ _ _

theorem target_save (hkey : e.object.key = .ok objKey) (k : GoString) :
    target key p (s.save e objKey) k =
      if InScope key objKey then p.follow k (target key p s k) e else target key p s k := by
  unfold Predicate.follow target
  rw [lookup_save, hkey]
  by_cases hk : k = objKey
  · subst hk
    by_cases hscope : InScope key k
    · by_cases hdeleted : e.type = .deleted
      · simp [hscope, hdeleted, Predicate.selected]
      · simp [hscope, hdeleted, Predicate.selected, rowOf, Option.filter]
    · simp [hscope]
  · have hne : objKey ≠ k := fun h => hk h.symm
    simp [hk, hne]

theorem save_stored (hs : Stored s.rows) (hkey : e.object.key = .ok objKey)
    (hvalid : e.object.objectMeta.Valid) :
    Stored (s.save e objKey).rows := by
  intro key row hlook
  rw [lookup_save] at hlook
  split_ifs at hlook with hk
  · cases hlook
    rw [hk]
    exact ⟨rfl, hkey, hvalid⟩
  · exact hs key row hlook

theorem Inv.of_watcher (h : Inv key p s) (hrows : s'.rows = s.rows)
    (hinjector : s'.injector = s.injector) (hremembers : s'.stream.Remembers)
    (hstart : s'.watcher ≠ .start) (halive : ∀ err, s'.watcher ≠ .failed err)
    (hrev : s'.watcher.listRev = s.watcher.listRev) (hview : ∀ k, view p s' k = view p s k) :
    Inv key p s' where
  remembers := hremembers
  stored := hrows ▸ h.stored
  valid := by rw [hinjector]; exact h.valid
  valid_rest := by rw [hinjector]; exact h.valid_rest
  saved := by rw [hinjector, hrows]; exact h.saved
  fresh := fun hs => absurd hs hstart
  alive := halive
  seen := fun rev hs => (h.seen rev (hrev ▸ hs)).congr hview hrows hinjector

theorem Inv.sendEvent {ptr : EventPtr β} {after : Watcher β} (h : Inv key p s)
    (hs : s.sendEvent ptr after = some s')
    (hunsent : s.watcher.unsent s.wres = (s.event ptr).toList ++ after.unsent s.wres)
    (hstart : after ≠ .start) (halive : ∀ err, after ≠ .failed err)
    (hrev : after.listRev = s.watcher.listRev) : Inv key p s' := by
  unfold World.sendEvent at hs
  split_ifs at hs
  cases hs
  refine h.of_watcher rfl rfl h.remembers hstart halive hrev (view_congr rfl ?_)
  unfold coming
  rw [hunsent, ← List.append_assoc]
  congr 1
  change (s.processing.toList ++ (s.incoming ++ [ptr])).filterMap s.event =
    (s.processing.toList ++ s.incoming).filterMap s.event ++ (s.event ptr).toList
  rw [← List.append_assoc, List.filterMap_append]
  cases hptr : s.event ptr <;> simp [hptr]

theorem inject_inv (h : Inv key p s) {msg : Message β} (hs : step key p s (.inject msg) = some s') :
    Inv key p s' := by
  simp only [step] at hs
  split at hs
  case h_2 => cases hs
  case h_1 hready =>
    split_ifs at hs with hvalid
    cases hs
    refine { h with valid := ?_, valid_rest := by simp, saved := by simp, seen := ?_ }
    · intro todo htodo
      cases htodo
      exact hvalid
    · intro rev hrev
      have hseen := h.seen rev hrev
      unfold Seen at hseen
      rw [hready] at hseen
      exact hseen

theorem store_inv (h : Inv key p s) (htimely : Timely key s .store)
    (hs : step key p s .store = some s') : Inv key p s' := by
  simp only [step] at hs
  split at hs
  case h_2 => cases hs
  case h_1 e todo hready =>
    split at hs
    case h_2 => cases hs
    case h_1 objKey hkey =>
      cases hs
      obtain ⟨hwatcher, hstream, hpending, hcoming⟩ : (s.save e objKey).watcher = s.watcher ∧
          (s.save e objKey).stream = s.stream ∧ (s.save e objKey).pending = s.pending ∧
          coming (s.save e objKey) = coming s := by
        unfold World.save
        split_ifs <;> exact ⟨rfl, rfl, rfl, rfl⟩
      have hvalid := h.valid _ hready
      constructor
      · exact hstream ▸ h.remembers
      · exact save_stored h.stored hkey (hvalid e (.head _))
      · intro todo' htodo
        cases htodo
      · intro e' todo' hstored
        cases hstored
        exact fun e he => hvalid e (.tail _ he)
      · intro e' todo' hstored objKey' hkey'
        cases hstored
        rw [hkey] at hkey'
        cases hkey'
        exact (lookup_save s e objKey objKey).trans (if_pos rfl)
      · intro hstart
        have hfresh := h.fresh (hwatcher ▸ hstart)
        exact ⟨hstream ▸ hfresh.1, hpending ▸ hfresh.2⟩
      · intro err
        exact hwatcher ▸ h.alive err
      · intro rev hrev
        have hrev : s.watcher.listRev = some rev := hwatcher ▸ hrev
        have hseen := h.seen rev hrev
        simp only [Seen, hready] at hseen
        have hview : ∀ k, view p { s.save e objKey with injector := .stored e todo } k =
            target key p s k := by
          intro k
          rw [← hseen k]
          exact view_congr hstream hcoming k
        have htarget : ∀ k, target key p { s.save e objKey with injector := .stored e todo } k =
            if InScope key objKey then p.follow k (target key p s k) e else target key p s k :=
          fun k => target_save hkey k
        simp only [Timely, StoresNewer, hready, hrev] at htimely
        unfold Seen
        dsimp only
        rw [WatchEvent.inScope_iff hkey] at htimely ⊢
        constructor
        · intro hold k
          have hscope : ¬ InScope key objKey := fun hscope => hold ⟨hscope, htimely hscope⟩
          rw [hview, htarget, if_neg hscope]
        · intro hscope k
          rw [hview, htarget, if_pos hscope]

theorem newer_of_lt {rev v : UInt64} (h : rev.toNat + 1 < v.toNat) :
    (newWatchHook key (rev + 1)).Newer v := by
  right
  change (rev + 1).toNat < v.toNat
  rw [UInt64.toNat_add]
  simp only [UInt64.reduceToNat]
  omega

theorem trigger_cases {todo : List (WatchEvent β)} (hs : s.trigger key e objKey todo = some s') :
    (∃ rev, s.watcher = .receiving rev ∧ InScope key objKey ∧
      s' = { s with injector := .ready todo, watcher := .forwarding rev, wres := some e }) ∨
    (s' = { s with injector := .ready todo } ∧ ∀ rev, s.watcher.listRev = some rev →
      ¬ s.watcher.Unhooked →
      ¬ (InScope key objKey ∧ rev.toNat + 1 < e.object.resourceVersion.toNat)) := by
  have hnot : ∀ rev, ¬ ((newWatchHook key (rev + 1)).Covers objKey ∧
      (newWatchHook key (rev + 1)).Newer e.object.resourceVersion) →
      ¬ (InScope key objKey ∧ rev.toNat + 1 < e.object.resourceVersion.toNat) := by
    rintro rev hnot ⟨hscope, hlt⟩
    exact hnot ⟨hscope, newer_of_lt hlt⟩
  unfold World.trigger at hs
  split at hs
  case h_1 rev hwatcher =>
    dsimp only at hs
    split_ifs at hs with htaken
    · cases hs
      exact .inl ⟨rev, hwatcher, htaken.1, rfl⟩
    · cases hs
      right
      refine ⟨rfl, fun rev' hrev _ => ?_⟩
      rw [hwatcher] at hrev
      cases hrev
      exact hnot rev htaken
  case h_2 rev hwatcher =>
    dsimp only at hs
    split_ifs at hs with htaken
    cases hs
    right
    refine ⟨rfl, fun rev' hrev _ => ?_⟩
    rw [hwatcher] at hrev
    cases hrev
    exact hnot rev htaken
  case h_3 hreceiving hforwarding =>
    cases hs
    right
    refine ⟨rfl, fun rev hrev hhooked => ?_⟩
    cases hwatcher : s.watcher with
    | start | failed =>
      rw [hwatcher] at hrev
      cases hrev
    | syncing | synced =>
      rw [hwatcher] at hhooked
      exact absurd trivial hhooked
    | receiving rev => exact absurd hwatcher (hreceiving rev)
    | forwarding rev => exact absurd hwatcher (hforwarding rev)

/-- An event that no pending pointer leads to can be put into the loop variable. -/
theorem coming_forwarding {rev : UInt64} {injector : Injector β}
    (hwatcher : s.watcher = .receiving rev) (hwres : .wres ∉ s.pending) :
    coming { s with injector, watcher := .forwarding rev, wres := some e } = coming s ++ [e] := by
  have hevents : s.pending.filterMap
      (World.event { s with injector, watcher := .forwarding rev, wres := some e }) =
        s.pending.filterMap s.event := by
    apply List.filterMap_congr
    intro ptr hptr
    cases ptr with
    | listed e => rfl
    | wres => exact absurd hptr hwres
  have hcoming : coming s = s.pending.filterMap s.event := by
    simp [coming, hwatcher, Watcher.unsent]
  rw [hcoming, ← hevents]
  rfl

theorem trigger_inv (h : Inv key p s) (htimely : Timely key s .trigger)
    (hs : step key p s .trigger = some s') : Inv key p s' := by
  simp only [step] at hs
  split at hs
  case h_2 => cases hs
  case h_1 e todo hstored =>
    split at hs
    case h_2 => cases hs
    case h_1 objKey hkey =>
      have hrest := h.valid_rest e todo hstored
      have hvalid : ∀ todo', Injector.ready todo = .ready todo' →
          ∀ e ∈ todo', e.object.objectMeta.Valid := by
        intro todo' htodo
        cases htodo
        exact hrest
      obtain ⟨rev, hwatcher, hscope, rfl⟩ | ⟨rfl, hold⟩ := trigger_cases hs
      · have hseen := h.seen rev (by rw [hwatcher]; rfl)
        simp only [Seen, hstored] at hseen
        refine { h with
          valid := hvalid, valid_rest := by simp, saved := by simp, fresh := by simp
          alive := by simp, seen := ?_ }
        intro rev' hrev k
        have hin := (WatchEvent.inScope_iff hkey).mpr hscope
        have hwres : .wres ∉ s.pending := by
          have hone := htimely.2
          simp only [TriggersOneByOne, hstored, hwatcher] at hone
          exact hone hin
        refine Eq.trans ?_ (hseen.2 hin k)
        unfold view
        rw [coming_forwarding hwatcher hwres, List.foldl_append]
        rfl
      · -- the event is skipped because the list had it, or because it is not for this watch
        refine { h with valid := hvalid, valid_rest := by simp, saved := by simp, seen := ?_ }
        intro rev hrev
        have hseen := h.seen rev hrev
        simp only [Seen, hstored] at hseen
        refine hseen.1 ?_
        rintro ⟨hscope, hlt⟩
        by_cases hunhooked : s.watcher.Unhooked
        · simp only [Timely, TriggersOlder, hstored, hrev] at htimely
          have hle := htimely.1 hunhooked hscope
          omega
        · exact hold rev hrev hunhooked ⟨(WatchEvent.inScope_iff hkey).mp hscope, hlt⟩

theorem list_inv (hkey : ProperKey key) (h : Inv key p s) (htimely : Timely key s .list)
    (hs : step key p s .list = some s') : Inv key p s' := by
  simp only [step] at hs
  split at hs
  case h_2 => cases hs
  case h_1 hstart =>
    rw [if_neg htimely] at hs
    cases hs
    obtain ⟨hresults, hpending⟩ := h.fresh hstart
    have hview : ∀ k, view p { s with watcher := .syncing (listed s.rows key) s.revision } k =
        target key p s k := by
      intro k
      rw [← foldl_listed hkey p h.stored k]
      unfold view coming
      rw [hresults,
        show World.pending { s with watcher := .syncing (listed s.rows key) s.revision } =
        [] from hpending]
      rfl
    refine { h with fresh := by simp, alive := by simp, seen := ?_ }
    intro rev hrev
    unfold Seen
    cases hinjector : s.injector with
    | ready todo => exact hview
    | stored e todo =>
      refine ⟨fun _ => hinjector ▸ hview, ?_⟩
      intro hscope k
      obtain ⟨objKey, hobj⟩ : ∃ objKey, e.object.key = .ok objKey := by
        unfold WatchEvent.InScope at hscope
        split at hscope
        · exact ⟨_, ‹_›⟩
        · cases hscope
      rw [WatchEvent.inScope_iff hobj] at hscope
      have hviewk := hview k
      rw [hinjector] at hviewk
      rw [hviewk]
      exact follow_target hobj hscope (h.saved e todo hinjector objKey hobj) k

section

variable (h : Inv key p s)
include h

theorem send_inv (hs : step key p s .send = some s') : Inv key p s' := by
  simp only [step] at hs
  split at hs
  case h_1 kv kvs rev hwatcher =>
    exact h.sendEvent hs (by rw [hwatcher]; rfl) (by simp) (by simp) (by rw [hwatcher]; rfl)
  case h_2 rev hwatcher =>
    cases hs
    refine h.of_watcher rfl rfl h.remembers ?_ ?_ ?_ ?_
    · simp
    · simp
    · rw [hwatcher]
      rfl
    · refine view_congr rfl ?_
      unfold coming
      rw [hwatcher]
      rfl
  case h_3 => cases hs

theorem register_inv (hs : step key p s .register = some s') : Inv key p s' := by
  simp only [step] at hs
  split at hs
  case h_2 => cases hs
  case h_1 rev hwatcher =>
    cases hs
    refine h.of_watcher rfl rfl h.remembers ?_ ?_ ?_ ?_
    · simp
    · simp
    · rw [hwatcher]
      rfl
    · refine view_congr rfl ?_
      unfold coming
      rw [hwatcher]
      rfl

theorem forward_inv (hs : step key p s .forward = some s') : Inv key p s' := by
  simp only [step] at hs
  split at hs
  case h_2 => cases hs
  case h_1 rev hwatcher =>
    exact h.sendEvent hs (by simp [hwatcher, Watcher.unsent, World.event])
      (by simp) (by simp) (by rw [hwatcher]; rfl)

theorem receive_inv (hs : step key p s .receive = some s') : Inv key p s' := by
  simp only [step] at hs
  split at hs
  case h_2 => cases hs
  case h_1 ptr incoming hprocessing hincoming =>
    cases hs
    have hpending : s.pending = ptr :: incoming := by
      rw [World.pending, hprocessing, hincoming]
      rfl
    refine h.of_watcher rfl rfl h.remembers ?_ h.alive rfl (view_congr rfl ?_)
    · intro hstart
      have hempty := (h.fresh hstart).2
      rw [hpending] at hempty
      cases hempty
    · unfold coming
      rw [hpending]
      rfl

theorem process_inv (hs : step key p s .process = some s') : Inv key p s' := by
  simp only [step] at hs
  split at hs
  case h_1 => cases hs
  case h_2 e hevent =>
    split_ifs at hs
    cases hs
    obtain ⟨hremembers, hlookup⟩ := processEvent_view p h.remembers e
    obtain ⟨ptr, hprocessing, hptr⟩ := Option.bind_eq_some_iff.mp hevent
    have hpending : s.pending = ptr :: s.incoming := by
      rw [World.pending, hprocessing]
      rfl
    refine h.of_watcher rfl rfl hremembers ?_ h.alive rfl ?_
    · intro hstart
      have hempty := (h.fresh hstart).2
      rw [hpending] at hempty
      cases hempty
    · intro k
      have hcoming : coming s =
          e :: coming { s with processing := none, stream := s.stream.processEvent p e } := by
        unfold coming
        rw [hpending, List.filterMap_cons_some hptr]
        rfl
      unfold view
      rw [hlookup k, hcoming, List.foldl_cons]

theorem take_inv (hs : step key p s .take = some s') : Inv key p s' := by
  simp only [step] at hs
  split_ifs at hs
  cases hs
  exact { h with }

end

theorem step_inv (hkey : ProperKey key) (h : Inv key p s) {e : Event β} (htimely : Timely key s e)
    (hs : step key p s e = some s') : Inv key p s' := by
  cases e with
  | inject msg => exact inject_inv h hs
  | store => exact store_inv h htimely hs
  | trigger => exact trigger_inv h htimely hs
  | list => exact list_inv hkey h htimely hs
  | send => exact send_inv h hs
  | register => exact register_inv h hs
  | forward => exact forward_inv h hs
  | receive => exact receive_inv h hs
  | process => exact process_inv h hs
  | take => exact take_inv h hs

theorem Inv.complete (h : Inv key p s) : Complete key p s := by
  intro hidle k
  unfold Idle at hidle
  split at hidle
  case h_1 rev hinjector hwatcher hincoming =>
    have hseen := h.seen rev (by rw [hwatcher]; rfl)
    simp only [Seen, hinjector] at hseen
    rw [← hseen k]
    simp [view, coming, hwatcher, hincoming, Watcher.unsent]
  case h_2 err hinjector hwatcher hincoming => exact absurd hwatcher (h.alive err)
  case h_3 => cases hidle

theorem start_inv (key : GoString) (p : Predicate β) (hrows : Stored rows) (revision : UInt64) :
    Inv key p (start rows revision) where
  remembers := remembers_start
  stored := hrows
  valid := by
    intro todo htodo e he
    cases htodo
    cases he
  valid_rest := by simp [start]
  saved := by simp [start]
  fresh := fun _ => ⟨rfl, rfl⟩
  alive := by simp [start]
  seen := by
    intro rev hrev
    cases hrev

/-- While the list finds something, what is stored after the list is taken by the hook, nothing
newer than the list is handed on before the hook is registered, and the hook takes an event only
when the one before it is processed, the client has what is stored and selected whenever nothing is
under way. -/
theorem watch_misses_nothing (key : GoString) (hkey : ProperKey key) (p : Predicate β)
    (rows : GoMap GoString (Row β)) (hrows : Stored rows) (revision : UInt64)
    (es : List (Event β)) (h : Along (step key p) (Timely key) (start rows revision) es) :
    Always (step key p) (Complete key p) (start rows revision) es := by
  apply Always.mono (fun _ => Inv.complete)
  apply always_of_along ?_ (start_inv key p hrows revision) h
  intro s e s' hs htimely hstep
  exact step_inv hkey hs htimely hstep

namespace Sample

def pods : GoString := str "/core/v1/pods/null/null"

def everything : Predicate Unit := ⟨true, fun _ => .ok true⟩

def object (name : String) (version : UInt64) : Object Unit :=
  ⟨⟨[], str "v1", str "Pod", str "ns", str name⟩, version, ()⟩

/-- A message about one pod is injected, stored and handed on. -/
def send (operation : Operation) (name : String) (version : UInt64) : List (Event Unit) :=
  [.inject ⟨str "ns/pod/" ++ str name, operation, some [object name version]⟩, .store, .trigger]

def sync : List (Event Unit) := [.list, .send, .send, .receive, .process]

def followed : List (Event Unit) :=
  send .insert "a" 5 ++ sync ++ ([.register] : List (Event Unit)) ++ send .insert "b" 7 ++
    ([.forward, .receive, .process] : List (Event Unit)) ++ send .delete "b" 7 ++
    ([.forward, .receive, .process] : List (Event Unit))

/-- The pod changes between the list and the registration. -/
def between : List (Event Unit) := send .insert "a" 5 ++ sync ++ send .update "a" 8 ++ [.register]

def next : List (Event Unit) := send .insert "a" 5 ++ sync ++ [.register] ++ send .update "a" 6

/-- The pod is deleted in the version that was listed. -/
def delete : List (Event Unit) := send .insert "a" 5 ++ sync ++ [.register] ++ send .delete "a" 5

def first : List (Event Unit) := [.list] ++ send .insert "a" 5

/-- Two pods are handed on before the first one is processed. -/
def shared : List (Event Unit) :=
  send .insert "a" 5 ++ sync ++ ([.register] : List (Event Unit)) ++ send .insert "b" 7 ++
    ([.forward] : List (Event Unit)) ++ send .insert "c" 9 ++
    ([.forward, .receive, .process, .receive, .process] : List (Event Unit))

end Sample

open Sample

theorem stored_empty : Stored (∅ : GoMap GoString (Row β)) := by
  intro key row hlook
  cases hlook

theorem watch_misses_nothing_followed :
    (run (step pods everything) (start ∅ 0) followed).isSome ∧
    ProperKey pods ∧
    Along (step pods everything) (Timely pods) (start ∅ 0) followed ∧
    Always (step pods everything) (Complete pods everything)
      (start ∅ 0) followed := by
  have hkey : ProperKey pods := ⟨by decide +kernel, by decide +kernel, by decide +kernel⟩
  have htimely : Along (step pods everything) (Timely pods) (start ∅ 0)
      followed := by
    apply along_of_check
      (fun s e h => of_decide_eq_true h)
    decide +kernel
  exact ⟨by decide +kernel, hkey, htimely,
    watch_misses_nothing pods hkey everything ∅ stored_empty 0 _ htimely⟩

theorem not_always_complete {revision : UInt64} {es : List (Event β)} {a b : Option (Object β)}
    (hrun : (run (step key p) (start rows revision) es).map (fun s =>
      (decide (Idle s), (replay s.stream.results).lookup k, target key p s k)) = some (true, a, b))
    (hne : a ≠ b) : ¬ Always (step key p) (Complete key p) (start rows revision) es := by
  intro halways
  obtain ⟨s, hs, heq⟩ := Option.map_eq_some_iff.mp hrun
  simp only [Prod.mk.injEq, decide_eq_true_eq] at heq
  obtain ⟨hidle, rfl, rfl⟩ := heq
  exact hne (halways.last hs hidle k)

/-- A change between the list and the registration is lost, so are the next version after the
list, a delete in the listed version, and the first of two events that are handed on before it is
processed; a watch that lists nothing ends. -/
theorem watch_misses :
    ¬ Always (step pods everything) (Complete pods everything)
      (start ∅ 0) between ∧
    ¬ Always (step pods everything) (Complete pods everything)
      (start ∅ 0) next ∧
    ¬ Always (step pods everything) (Complete pods everything)
      (start ∅ 0) delete ∧
    ¬ Always (step pods everything) (Complete pods everything)
      (start ∅ 0) first ∧
    ¬ Always (step pods everything) (Complete pods everything)
      (start ∅ 0) shared := by
  refine ⟨?_, ?_, ?_, ?_, ?_⟩
  · apply not_always_complete (k := str "/core/v1/pods/ns/a") (a := some (object "a" 5))
      (b := some (object "a" 8))
    · decide +kernel
    · decide +kernel
  · apply not_always_complete (k := str "/core/v1/pods/ns/a") (a := some (object "a" 5))
      (b := some (object "a" 6))
    · decide +kernel
    · decide +kernel
  · apply not_always_complete (k := str "/core/v1/pods/ns/a") (a := some (object "a" 5))
      (b := none)
    · decide +kernel
    · decide +kernel
  · apply not_always_complete (k := str "/core/v1/pods/ns/a") (a := none)
      (b := some (object "a" 5))
    · decide +kernel
    · decide +kernel
  · apply not_always_complete (k := str "/core/v1/pods/ns/b") (a := none)
      (b := some (object "b" 7))
    · decide +kernel
    · decide +kernel

end KubeEdge.MetaServer
