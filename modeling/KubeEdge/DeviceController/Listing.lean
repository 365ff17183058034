import KubeEdge.DeviceController.Profile

namespace KubeEdge.DeviceController.Profile
open Go Machine

section

variable {α β : Type*} {l pre post : List α} {a : α} {f : α → GoString} {name : GoString}

theorem exists_split (h : name ∈ l.map f) :
    ∃ pre a post, l = pre ++ a :: post ∧ f a = name ∧ (∀ x ∈ pre, f x ≠ name) ∧
      l.find? (fun x => f x = name) = some a := by
  obtain ⟨x, hx, hname⟩ := List.mem_map.mp h
  obtain ⟨a, ha⟩ : ∃ a, l.find? (fun x => f x = name) = some a := by
    rw [← Option.isSome_iff_exists, List.find?_isSome]
    exact ⟨x, hx, by simpa using hname⟩
  obtain ⟨hfa, pre, post, hl, hpre⟩ := List.find?_eq_some_iff_append.mp ha
  exact ⟨pre, a, post, hl, by simpa using hfa, fun x hx => by simpa using hpre x hx, ha⟩

theorem mem_map_middle {y : GoString} :
    y ∈ (pre ++ a :: post).map f ↔ y = f a ∨ y ∈ (pre ++ post).map f := by
  simp only [List.map_append, List.map_cons, List.mem_append, List.mem_cons]
  exact or_left_comm

theorem nodup_map_middle : ((pre ++ a :: post).map f).Nodup ↔
    f a ∉ (pre ++ post).map f ∧ ((pre ++ post).map f).Nodup := by
  rw [List.map_append, List.map_cons, List.nodup_middle, List.nodup_cons, ← List.map_append]

theorem nodup_map_snoc (h : (l.map f).Nodup) (hnew : f a ∉ l.map f) : ((l ++ [a]).map f).Nodup := by
  rw [nodup_map_middle, List.append_nil]
  exact ⟨hnew, h⟩

theorem removeSwap_perm (ha : f a = name) (hpre : ∀ x ∈ pre, f x ≠ name) :
    (removeSwap (fun x => f x = name) (pre ++ a :: post)).Perm (pre ++ post) := by
  have hidx : (pre ++ a :: post).findIdx? (fun x => f x = name) = some pre.length := by
    induction pre with
    | nil => simp [List.findIdx?_cons, ha]
    | cons x pre ih =>
      have hih := ih fun y hy => hpre y (.tail _ hy)
      simp [List.findIdx?_cons, hpre x (.head _), hih]
  unfold removeSwap
  rw [hidx]
  rcases List.eq_nil_or_concat post with rfl | ⟨post, last, rfl⟩
  · simp
  · rw [List.concat_eq_append]
    have hlast : (pre ++ a :: (post ++ [last])).getLast? = some last := by
      rw [← List.cons_append, ← List.append_assoc, List.getLast?_concat]
    rw [hlast]
    dsimp only
    have hset : (pre ++ a :: (post ++ [last])).set pre.length last =
        (pre ++ last :: post) ++ [last] := by
      simp
    rw [hset, List.dropLast_concat]
    exact (List.perm_append_left_iff pre).mpr (List.perm_append_singleton last post).symm

theorem removeSwap_snoc (hnodup : (l.map f).Nodup) :
    (removeSwap (fun x => f x = f a) (l ++ [a])).Perm l ↔ ∀ x ∈ l, f x = f a → x = a := by
  by_cases hmem : f a ∈ l.map f
  · obtain ⟨pre, x, post, rfl, hx, hpre, -⟩ := exists_split hmem
    have hswap : (removeSwap (fun x => f x = f a) (pre ++ x :: post ++ [a])).Perm
        (a :: (pre ++ post)) := by
      rw [List.append_assoc, List.cons_append]
      refine (removeSwap_perm hx hpre).trans ?_
      rw [← List.append_assoc]
      exact List.perm_append_singleton a _
    rw [List.Perm.congr_left hswap, List.Perm.congr_right List.perm_middle, ← Multiset.coe_eq_coe,
      ← Multiset.cons_coe, ← Multiset.cons_coe, Multiset.cons_inj_left]
    rw [nodup_map_middle, hx] at hnodup
    constructor
    · rintro rfl y hy hname
      rcases List.mem_cons.mp (List.perm_middle.mem_iff.mp hy) with rfl | hy
      · rfl
      · exact absurd (hname ▸ List.mem_map_of_mem hy) hnodup.1
    · exact fun h => (h x (by simp) hx).symm
  · have hne : ∀ x ∈ l, f x ≠ f a := fun x hx heq => hmem (heq ▸ List.mem_map_of_mem hx)
    have hswap : (removeSwap (fun x => f x = f a) (l ++ [a])).Perm (l ++ []) :=
      removeSwap_perm rfl hne
    rw [List.append_nil] at hswap
    exact iff_of_true hswap fun x hx heq => absurd heq (hne x hx)

theorem modifyFirst_append (g : α → α) (ha : f a = name) (hpre : ∀ x ∈ pre, f x ≠ name) :
    modifyFirst (fun x => f x = name) g (pre ++ a :: post) = pre ++ g a :: post := by
  induction pre with
  | nil => simp [modifyFirst, ha]
  | cons x pre ih =>
    have hih := ih fun y hy => hpre y (.tail _ hy)
    simp [modifyFirst, hpre x (.head _), hih]

/-- An entry with the name of an element, in a list whose names are those of another list. -/
theorem exists_entry_of_perm {m : List β} {g : β → GoString}
    (h : (m.map g).Perm ((pre ++ a :: post).map f)) :
    ∃ left b right, m = left ++ b :: right ∧ g b = f a ∧ (∀ x ∈ left, g x ≠ f a) ∧
      ((left ++ right).map g).Perm ((pre ++ post).map f) := by
  obtain ⟨left, b, right, rfl, hb, hleft, -⟩ :=
    exists_split (h.mem_iff.mpr (mem_map_middle.mpr (.inl rfl)))
  refine ⟨left, b, right, rfl, hb, hleft, ?_⟩
  have hcons := ((List.perm_middle.map g).symm.trans h).trans (List.perm_middle.map f)
  rw [List.map_cons, List.map_cons, hb] at hcons
  exact hcons.cons_inv

end

section

variable {models : GoMap GoString DeviceModel} {device : Device} {ref : GoString}
  {model : DeviceModel}
  (href : device.deviceModelRef = some ref) (hmodel : models.lookup ref = some model)
  (hname : model.name = ref)
include href hmodel hname

theorem addDeviceProfile_eq (data : Option DeviceProfile) :
    ∃ devInst dm, devInst.name = device.name ∧ devInst.model = ref ∧ dm.name = ref ∧
      devInst.protocol = (buildDeviceProtocol device).name ∧
      addDeviceProfile models device data = .ok (some
        { deviceInstances := (data.getD {}).deviceInstances ++ [devInst]
          protocols := (data.getD {}).protocols ++ [buildDeviceProtocol device]
          deviceModels := if ref ∈ (data.getD {}).deviceModels.map (·.name)
            then (data.getD {}).deviceModels else (data.getD {}).deviceModels ++ [dm] }) := by
  have hvisitors : ∃ v, addPropertyVisitorsToDeviceInstance device = .ok v := by
    unfold addPropertyVisitorsToDeviceInstance
    simp only [href, deref_some, ok_bind]
    exact ⟨_, List.mapM_pure⟩
  obtain ⟨visitors, hvisitors⟩ := hvisitors
  have hlisted : ((data.getD {}).deviceModels.any fun dm => dm.name = model.name) = true ↔
      ref ∈ (data.getD {}).deviceModels.map (·.name) := by
    simp [hname]
  refine ⟨?_, ?_, ?_, ?_, ?_, ?_, ?eq⟩
  case eq =>
    rw [addDeviceProfile, addDeviceInstanceAndProtocol]
    simp only [href, deref_some, ok_bind, hvisitors, hmodel, hlisted]
    split_ifs <;> rfl
  · rfl
  · rfl
  · exact hname
  · rfl

theorem deleteFromDeviceProfile_eq {profile : DeviceProfile} {devInst : DeviceInstance}
    (hfind : profile.deviceInstances.find? (fun x => x.name = device.name) = some devInst)
    {rest : List DeviceInstance}
    (hrest : (removeSwap (fun x => x.name = device.name) profile.deviceInstances).Perm rest) :
    deleteFromDeviceProfile models device (some profile) = .ok (some
      { deviceInstances := removeSwap (fun x => x.name = device.name) profile.deviceInstances
        protocols := removeSwap (fun ptcl => ptcl.name = devInst.protocol) profile.protocols
        deviceModels := if ref ∈ rest.map (·.model) then profile.deviceModels
          else removeSwap (fun dm => dm.name = ref) profile.deviceModels }) := by
  have hused : ((removeSwap (fun x => x.name = device.name) profile.deviceInstances).any
      fun dvc => dvc.model = model.name) = true ↔ ref ∈ rest.map (·.model) := by
    simp [List.any_eq_true, decide_eq_true_eq, hname, hrest.mem_iff, List.mem_map]
  simp only [deleteFromDeviceProfile, deleteDeviceInstanceAndProtocol, href, deref_some, ok_bind,
    hmodel, hfind, Option.elim_some, hused]
  subst hname
  split_ifs <;> rfl

end

abbrev Existing := GoMap (GoString × GoString) Device

def BoundName (existing : Existing) (node name : GoString) : Prop :=
  ∃ ns device, existing.lookup (ns, name) = some device ∧ device.node = some node

/-- The profile lists the devices of the node, where names are unique. -/
structure Lists (existing : Existing) (node : GoString) (profile : DeviceProfile) : Prop where
  nodup : (profile.deviceInstances.map (·.name)).Nodup
  mem : ∀ name, name ∈ profile.deviceInstances.map (·.name) ↔
    BoundName existing node name
  ref : ∀ devInst ∈ profile.deviceInstances, ∀ ns device,
    existing.lookup (ns, devInst.name) = some device → device.deviceModelRef = some devInst.model
  protocols : (profile.protocols.map (·.name)).Perm
    (profile.deviceInstances.map (·.protocol))
  models_nodup : (profile.deviceModels.map (·.name)).Nodup
  models : ∀ model, model ∈ profile.deviceModels.map (·.name) ↔
    model ∈ profile.deviceInstances.map (·.model)

section

variable {existing existing' : Existing} {node ns name ref : GoString}
  {profile profile' : DeviceProfile} {device d : Device} {o : Option Device}
  {models : GoMap GoString DeviceModel} {data' data : Option DeviceProfile} {model : DeviceModel}

/-- The devices before and after a change of one of them, which alone has its name; `o` is what
has become of it. -/
structure Edited (existing existing' : Existing) (device : Device) (o : Option Device) : Prop where
  lookup : ∀ ns name, existing'.lookup (ns, name) =
    if (ns, name) = (device.ns, device.name) then o else existing.lookup (ns, name)
  ns : ∀ ns d, existing.lookup (ns, device.name) = some d → ns = device.ns

section

variable (h : ∀ ns d, existing.lookup (ns, device.name) = some d → ns = device.ns)
include h

theorem edited_insert :
    Edited existing (existing.insert (device.ns, device.name) device) device (some device) :=
  ⟨fun _ _ => GoMap.lookup_insert .., h⟩

theorem edited_erase : Edited existing (existing.erase (device.ns, device.name)) device none :=
  ⟨fun _ _ => GoMap.lookup_erase .., h⟩

end

section

variable (h : Edited existing existing' device o)
include h

theorem Edited.lookup_name :
    existing'.lookup (ns, device.name) = some d ↔ ns = device.ns ∧ o = some d := by
  rw [h.lookup]
  split_ifs with hkey
  · exact (and_iff_right (congrArg Prod.fst hkey)).symm
  · constructor
    · intro hd
      exact absurd (by rw [h.ns ns d hd]) hkey
    · rintro ⟨rfl, -⟩
      exact absurd rfl hkey

theorem Edited.lookup_other (hne : name ≠ device.name) :
    existing'.lookup (ns, name) = existing.lookup (ns, name) := by
  rw [h.lookup, if_neg fun hkey => hne (congrArg Prod.snd hkey)]

theorem Edited.boundName : BoundName existing' node name ↔
    if name = device.name then ∃ d, o = some d ∧ d.node = some node
    else BoundName existing node name := by
  unfold BoundName
  split_ifs with hname
  · subst hname
    simp only [h.lookup_name]
    exact ⟨fun ⟨_, d, ⟨_, hd⟩, hnode⟩ => ⟨d, hd, hnode⟩,
      fun ⟨d, hd, hnode⟩ => ⟨_, d, ⟨rfl, hd⟩, hnode⟩⟩
  · simp [h.lookup_other hname]

theorem Edited.boundName_old {old : Device}
    (hold : existing.lookup (device.ns, device.name) = some old) :
    BoundName existing node device.name ↔ old.node = some node := by
  constructor
  · rintro ⟨ns, d, hd, hnode⟩
    cases h.ns ns d hd
    cases hold.symm.trans hd
    exact hnode
  · exact fun hnode => ⟨device.ns, old, hold, hnode⟩

end

section

variable (h : Lists existing node profile)
include h

theorem Lists.name_ne (hno : ¬ BoundName existing node name) {devInst : DeviceInstance}
    (hmem : devInst ∈ profile.deviceInstances) : devInst.name ≠ name := by
  rintro rfl
  exact hno ((h.mem _).mp (List.mem_map_of_mem hmem))

theorem Lists.frame (he : Edited existing existing' device o)
    (hbefore : ¬ BoundName existing node device.name)
    (hafter : ∀ d, o = some d → d.node ≠ some node) : Lists existing' node profile := by
  refine ⟨h.nodup, ?_, ?_, h.protocols, h.models_nodup, h.models⟩
  · intro name
    rw [h.mem, he.boundName]
    split_ifs with hname
    · subst hname
      exact iff_of_false hbefore fun ⟨d, hd, hnode⟩ => hafter d hd hnode
    · rfl
  · intro devInst hdevInst ns d hd
    rw [he.lookup_other (h.name_ne hbefore hdevInst)] at hd
    exact h.ref devInst hdevInst ns d hd

theorem Lists.of_perm (hinstances : profile'.deviceInstances.Perm profile.deviceInstances)
    (hprotocols : profile'.protocols.Perm profile.protocols)
    (hmodels : profile'.deviceModels.Perm profile.deviceModels) : Lists existing node profile' := by
  refine ⟨(hinstances.map _).nodup_iff.mpr h.nodup, ?_, ?_, ?_,
    (hmodels.map _).nodup_iff.mpr h.models_nodup, ?_⟩
  · intro name
    rw [(hinstances.map _).mem_iff]
    exact h.mem name
  · exact fun devInst hdevInst => h.ref devInst (hinstances.mem_iff.mp hdevInst)
  · exact ((hprotocols.map _).trans h.protocols).trans (hinstances.map _).symm
  · intro model
    rw [(hmodels.map _).mem_iff, (hinstances.map _).mem_iff]
    exact h.models model

end

section

variable {devInst : DeviceInstance} {ptcl : Protocol} {deviceModels : List ProfileModel}
  {pre post : List DeviceInstance} {left right : List Protocol}

theorem Lists.append (h : Lists existing node profile)
    (he : Edited existing existing' device (some device))
    (hnew : ¬ BoundName existing node device.name) (hnode : device.node = some node)
    (hname : devInst.name = device.name) (href : device.deviceModelRef = some devInst.model)
    (hptcl : ptcl.name = devInst.protocol) (hnodup : (deviceModels.map (·.name)).Nodup)
    (hmodels : ∀ m, m ∈ deviceModels.map (·.name) ↔
      m ∈ profile.deviceModels.map (·.name) ∨ m = devInst.model) :
    Lists existing' node
      { deviceInstances := profile.deviceInstances ++ [devInst]
        protocols := profile.protocols ++ [ptcl]
        deviceModels := deviceModels } := by
  refine ⟨nodup_map_snoc h.nodup ?_, ?_, ?_, ?_, hnodup, ?_⟩
  · rw [hname, h.mem]
    exact hnew
  · intro name
    rw [he.boundName, List.map_append, List.mem_append, h.mem]
    split_ifs with hn
    · exact iff_of_true (.inr (by simp [hname, hn])) ⟨device, rfl, hnode⟩
    · simp [hname, hn]
  · intro x hx ns d hd
    rcases List.mem_append.mp hx with hx | hx
    · rw [he.lookup_other (h.name_ne hnew hx)] at hd
      exact h.ref x hx ns d hd
    · obtain rfl := List.mem_singleton.mp hx
      rw [hname, he.lookup_name] at hd
      cases hd.2
      exact href
  · rw [List.map_append, List.map_append]
    exact h.protocols.append (by simp [hptcl])
  · intro m
    rw [hmodels, h.models, List.map_append, List.mem_append]
    simp

theorem Lists.remove (h : Lists existing node profile) (he : Edited existing existing' device none)
    (hinstances : profile.deviceInstances = pre ++ devInst :: post)
    (hname : devInst.name = device.name)
    (hprotocols : ((left ++ right).map (·.name)).Perm
      ((pre ++ post).map (·.protocol)))
    (hnodup : (deviceModels.map (·.name)).Nodup)
    (hmodels : ∀ m, m ∈ deviceModels.map (·.name) ↔
      m ∈ (pre ++ post).map (·.model)) :
    Lists existing' node
      { deviceInstances := pre ++ post, protocols := left ++ right,
        deviceModels := deviceModels } := by
  have hnames := h.nodup
  rw [hinstances, nodup_map_middle, hname] at hnames
  refine ⟨hnames.2, ?_, ?_, hprotocols, hnodup, hmodels⟩
  · intro name
    rw [he.boundName]
    split_ifs with hn
    · subst hn
      exact iff_of_false hnames.1 (by simp)
    · rw [← h.mem, hinstances, mem_map_middle, hname, or_iff_right hn]
  · intro x hx ns d hd
    rw [he.lookup] at hd
    split_ifs at hd
    refine h.ref x ?_ ns d hd
    rw [hinstances]
    exact List.perm_middle.mem_iff.mpr (.tail _ hx)

end

theorem addDeviceProfile_lists (h : Lists existing node (data.getD {}))
    (he : Edited existing existing' device (some device))
    (hnew : ¬ BoundName existing node device.name) (hnode : device.node = some node)
    (href : device.deviceModelRef = some ref) (hmodel : models.lookup ref = some model)
    (hname : model.name = ref) (hadd : addDeviceProfile models device data = .ok data') :
    Lists existing' node (data'.getD {}) := by
  obtain ⟨devInst, dm, hdevice, hdevRef, hdm, hprotocol, heq⟩ :=
    addDeviceProfile_eq href hmodel hname data
  cases hadd.symm.trans heq
  refine h.append he hnew hnode hdevice (hdevRef ▸ href) hprotocol.symm ?_ fun m => ?_
  · split_ifs with hmem
    · exact h.models_nodup
    · exact nodup_map_snoc h.models_nodup (hdm ▸ hmem)
  · rw [hdevRef]
    split_ifs with hmem
    · exact ⟨.inl, fun hm => hm.elim id fun hm => hm ▸ hmem⟩
    · simp [hdm]

theorem Lists.exists_instance (h : Lists existing node profile)
    (hdevice : existing.lookup (device.ns, device.name) = some device)
    (hnode : device.node = some node) :
    ∃ pre devInst post, profile.deviceInstances = pre ++ devInst :: post ∧
      devInst.name = device.name ∧ (∀ x ∈ pre, x.name ≠ device.name) ∧
      device.deviceModelRef = some devInst.model ∧
      profile.deviceInstances.find? (fun x => x.name = device.name) = some devInst := by
  obtain ⟨pre, devInst, post, happend, hsame, hpre, hfind⟩ :=
    exists_split ((h.mem device.name).mpr ⟨device.ns, device, hdevice, hnode⟩)
  refine ⟨pre, devInst, post, happend, hsame, hpre, ?_, hfind⟩
  apply h.ref devInst (by simp [happend]) device.ns
  rw [hsame]
  exact hdevice

theorem deleteFromDeviceProfile_lists (h : Lists existing node (data.getD {}))
    (he : Edited existing existing' device none)
    (hdevice : existing.lookup (device.ns, device.name) = some device)
    (hnode : device.node = some node) (href : device.deviceModelRef = some ref)
    (hmodel : models.lookup ref = some model) (hname : model.name = ref)
    (hdelete : deleteFromDeviceProfile models device data = .ok data') :
    Lists existing' node (data'.getD {}) := by
  obtain ⟨pre, devInst, post, hinstances, hsame, hpre, hdevRef, hfind⟩ :=
    h.exists_instance hdevice hnode
  have hrefModel : devInst.model = ref := Option.some_inj.mp (hdevRef.symm.trans href)
  cases data with
  | none => simp at hinstances
  | some profile =>
    simp only [Option.getD_some] at h hinstances hfind
    have hprotocols := h.protocols
    rw [hinstances] at hprotocols
    obtain ⟨left, ptcl, right, hptcls, hptclname, hleft, hrest⟩ := exists_entry_of_perm hprotocols
    have hswap : (removeSwap (fun x => x.name = device.name) profile.deviceInstances).Perm
        (pre ++ post) := by
      rw [hinstances]
      exact removeSwap_perm hsame hpre
    have hswap' : (removeSwap (fun ptcl => ptcl.name = devInst.protocol) profile.protocols).Perm
        (left ++ right) := by
      rw [hptcls]
      exact removeSwap_perm hptclname hleft
    rw [deleteFromDeviceProfile_eq href hmodel hname hfind hswap] at hdelete
    cases hdelete
    have hmodels := h.models
    simp only [hinstances, mem_map_middle, hrefModel] at hmodels
    split_ifs with hused
    · refine (h.remove he hinstances hsame hrest h.models_nodup fun m => ?_).of_perm hswap hswap'
        (List.Perm.refl _)
      rw [hmodels]
      exact or_iff_right_of_imp fun hm => hm ▸ hused
    · obtain ⟨first, dm, last, hsplit, hdmname, hfirst, -⟩ :=
        exists_split ((hmodels ref).mpr (.inl rfl))
      have hdms := h.models_nodup
      rw [hsplit, nodup_map_middle, hdmname] at hdms
      refine (h.remove he hinstances hsame hrest hdms.2 fun m => ?_).of_perm hswap hswap' ?_
      · have hm := hmodels m
        rw [hsplit, mem_map_middle, hdmname] at hm
        by_cases heq : m = ref
        · subst heq
          exact iff_of_false hdms.1 hused
        · rwa [or_iff_right heq, or_iff_right heq] at hm
      · rw [hsplit]
        exact removeSwap_perm hdmname hfirst

theorem Lists.replace {old : Device} (h : Lists existing node profile)
    (he : Edited existing existing' device (some device))
    (hold : existing.lookup (device.ns, device.name) = some old)
    (hnode : device.node = old.node) (href : device.deviceModelRef = old.deviceModelRef) :
    Lists existing' node profile := by
  refine ⟨h.nodup, ?_, ?_, h.protocols, h.models_nodup, h.models⟩
  · intro name
    rw [h.mem, he.boundName]
    split_ifs with hn
    · subst hn
      rw [he.boundName_old hold, ← hnode]
      exact ⟨fun hd => ⟨device, rfl, hd⟩, fun ⟨d, hd, hdnode⟩ => Option.some_inj.mp hd ▸ hdnode⟩
    · rfl
  · intro devInst hdevInst ns d hd
    by_cases hn : devInst.name = device.name
    · rw [hn, he.lookup_name] at hd
      cases hd.2
      rw [href]
      refine h.ref devInst hdevInst device.ns old ?_
      rw [hn]
      exact hold
    · rw [he.lookup_other hn] at hd
      exact h.ref devInst hdevInst ns d hd

theorem updateProfile_lists (h : Lists existing node profile)
    (hdevice : existing.lookup (device.ns, device.name) = some device)
    (hnode : device.node = some node) (hupdate : updateProfile device profile = .ok profile') :
    Lists existing node profile' := by
  obtain ⟨pre, devInst, post, hinstances, hsame, hpre, -, hfind⟩ := h.exists_instance hdevice hnode
  have hprotocols := h.protocols
  rw [hinstances] at hprotocols
  obtain ⟨left, ptcl, right, hptcls, hptclname, hleft, hrest⟩ := exists_entry_of_perm hprotocols
  unfold updateProfile at hupdate
  simp only [hfind, Option.isNone_some, Bool.false_eq_true, if_false, Option.elim_some] at hupdate
  obtain ⟨visitors, -, hupdate⟩ := ok_of_bind hupdate
  cases hupdate
  have herase : (profile.protocols.eraseP fun ptcl => ptcl.name = devInst.protocol) =
      left ++ right := by
    rw [hptcls, List.eraseP_append_right _ (by simpa using hleft),
      List.eraseP_cons_of_pos (by simpa using hptclname)]
  rw [herase, hinstances, modifyFirst_append _ hsame hpre]
  set devInst' : DeviceInstance := { devInst with
    propertyVisitors := visitors
    twins := device.twins.getD []
    dataProperties := device.data.dataProperties
    dataTopic := device.data.dataTopic
    protocol := (buildDeviceProtocol device).name }
  have hnames : (pre ++ devInst' :: post).map (·.name) =
      profile.deviceInstances.map fun devInst => devInst.name := by
    simp [hinstances, devInst']
  have hmodels : (pre ++ devInst' :: post).map (·.model) =
      profile.deviceInstances.map fun devInst => devInst.model := by
    simp [hinstances, devInst']
  refine ⟨?_, ?_, ?_, ?_, h.models_nodup, ?_⟩
  · rw [hnames]
    exact h.nodup
  · rw [hnames]
    exact h.mem
  · intro x hx
    rcases List.mem_append.mp hx with hx | hx
    · exact h.ref x (by simp [hinstances, hx])
    · rcases List.mem_cons.mp hx with rfl | hx
      · exact h.ref devInst (by simp [hinstances])
      · exact h.ref x (by simp [hinstances, hx])
  · have hexchange : ((left ++ right ++ [buildDeviceProtocol device]).map (·.name)).Perm
        (devInst'.protocol :: (pre ++ post).map (·.protocol)) := by
      rw [List.map_append, List.map_singleton]
      exact (List.perm_append_singleton _ _).trans (hrest.cons _)
    refine hexchange.trans ?_
    rw [List.map_append, List.map_append, List.map_cons]
    exact List.perm_middle.symm
  · rw [hmodels]
    exact h.models

end

structure Inv (s : State) : Prop where
  key : ∀ key device, s.existing.lookup key = some device → key = (device.ns, device.name)
  unique : ∀ ns ns' name device device', s.existing.lookup (ns, name) = some device →
    s.existing.lookup (ns', name) = some device' → ns = ns'
  device : ∀ name device, s.device.lookup name = some device ↔
    ∃ ns, s.existing.lookup (ns, name) = some device
  model : ∀ name model, s.deviceModel.lookup name = some model → model.name = name
  lists : ∀ node, Lists s.existing node (s.profile node)

section

variable {s s' : State} {device : Device} {node : GoString}

theorem profile_insert (s : State) (node node' : GoString) (data : Option DeviceProfile) :
    State.profile { s with configMap := s.configMap.insert node data } node' =
      if node' = node then data.getD {} else s.profile node' := by
  unfold State.profile
  rw [GoMap.lookup_insert]
  split_ifs <;> rfl

theorem profile_erase (s : State) (node node' : GoString) :
    State.profile { s with configMap := s.configMap.erase node } node' =
      if node' = node then {} else s.profile node' := by
  unfold State.profile
  rw [GoMap.lookup_erase]
  split_ifs <;> rfl

theorem node_of_selector {selector : NodeSelector} (h : device.nodeSelector = some selector) :
    device.node = firstValue selector := by
  simp [Device.node, h]

theorem deviceAdded_spec (h : deviceAdded s device = .ok s') :
    (device.node = none ∧ s' = { s with device := s.device.insert device.name device }) ∨
      ∃ node data, device.node = some node ∧
        addDeviceProfile s.deviceModel device (s.configMap.lookup node).join = .ok data ∧
        s' = { s with
          device := s.device.insert device.name device
          configMap := s.configMap.insert node data } := by
  obtain ⟨selector, hselector, h⟩ := ok_of_bind h
  rw [← node_of_selector (deref_eq_ok.mp hselector)] at h
  cases hnode : device.node with
  | none =>
    rw [hnode] at h
    cases h
    exact .inl ⟨rfl, rfl⟩
  | some node =>
    rw [hnode] at h
    obtain ⟨data, hdata, h⟩ := ok_of_bind h
    cases h
    exact .inr ⟨node, data, rfl, hdata, rfl⟩

/-- A device that is bound to a node is taken out of its config map, if there is one. -/
theorem deviceDeleted_spec (h : deviceDeleted s device = .ok s') :
    ((device.node = none ∨ ∃ node, device.node = some node ∧ s.configMap.lookup node = none) ∧
        s' = { s with device := s.device.erase device.name }) ∨
      ∃ node data data', device.node = some node ∧ s.configMap.lookup node = some data ∧
        deleteFromDeviceProfile s.deviceModel device data = .ok data' ∧
        s'.deviceModel = s.deviceModel ∧ s'.device = s.device.erase device.name ∧
        s'.existing = s.existing ∧
        ∀ node', s'.profile node' = if node' = node then data'.getD {} else s.profile node' := by
  obtain ⟨selector, hselector, h⟩ := ok_of_bind h
  rw [← node_of_selector (deref_eq_ok.mp hselector)] at h
  cases hnode : device.node with
  | none =>
    rw [hnode] at h
    cases h
    exact .inl ⟨.inl rfl, rfl⟩
  | some node =>
    rw [hnode] at h
    cases hdata : s.configMap.lookup node with
    | none =>
      simp only [hdata] at h
      cases h
      exact .inl ⟨.inr ⟨node, rfl, hdata⟩, rfl⟩
    | some data =>
      simp only [hdata] at h
      obtain ⟨data', hdata', h⟩ := ok_of_bind h
      refine .inr ⟨node, data, data', rfl, hdata, hdata', ?_⟩
      split_ifs at h with hempty
      · cases h
        refine ⟨rfl, rfl, rfl, ?_⟩
        intro node'
        have hdefault : data'.getD {} = {} := by
          cases data' with
          | none => rfl
          | some profile =>
            obtain ⟨instances, models, protocols⟩ := profile
            simp only [Option.all_some, DeviceProfile.isEmpty, Bool.and_eq_true,
              List.isEmpty_iff] at hempty
            obtain ⟨⟨rfl, rfl⟩, rfl⟩ := hempty
            rfl
        rw [hdefault]
        exact profile_erase { s with device := s.device.erase device.name } node node'
      · cases h
        exact ⟨rfl, rfl, rfl,
          fun node' =>
            profile_insert { s with device := s.device.erase device.name } node node' data'⟩

theorem updateConfigMap_spec (h : updateConfigMap s device = .ok s') :
    s' = s ∨ ∃ node profile profile', device.node = some node ∧ s.profile node = profile ∧
      updateProfile device profile = .ok profile' ∧
      s' = { s with configMap := s.configMap.insert node (some profile') } := by
  obtain ⟨selector, hselector, h⟩ := ok_of_bind h
  rw [← node_of_selector (deref_eq_ok.mp hselector)] at h
  cases hnode : device.node with
  | none =>
    rw [hnode] at h
    cases h
    exact .inl rfl
  | some node =>
    rw [hnode] at h
    cases hprofile : (s.configMap.lookup node).join with
    | none =>
      simp only [hprofile] at h
      cases h
      exact .inl rfl
    | some profile =>
      simp only [hprofile] at h
      split_ifs at h with hempty
      · cases h
        exact .inl rfl
      · obtain ⟨profile', hupdate, h⟩ := ok_of_bind h
        cases h
        refine .inr ⟨node, profile, profile', rfl, ?_, hupdate, rfl⟩
        simp [State.profile, hprofile]

theorem deviceUpdated_spec {old : Device} (hold : s.device.lookup device.name = some old)
    (hsame : old.nodeSelector = device.nodeSelector) (h : deviceUpdated s device = .ok s') :
    s' = { s with device := s.device.insert device.name device } ∨
      updateConfigMap { s with device := s.device.insert device.name device } device = .ok s' := by
  unfold deviceUpdated at h
  simp only [hold] at h
  by_cases hupdated : isDeviceUpdated old device = true
  · rw [if_pos hupdated] at h
    obtain ⟨oldSelector, holdSelector, h⟩ := ok_of_bind h
    obtain ⟨selector, hselector, h⟩ := ok_of_bind h
    rw [deref_eq_ok] at holdSelector hselector
    cases holdSelector.symm.trans (hsame.trans hselector)
    rw [if_neg (by simp [isNodeSelectorUpdated])] at h
    split at h
    · obtain ⟨s₁, hs₁, h⟩ := ok_of_bind h
      split_ifs at h
      cases h
      exact .inr hs₁
    · obtain ⟨s₁, hs₁, h⟩ := ok_of_bind h
      cases hs₁
      split_ifs at h
      cases h
      exact .inl rfl
  · rw [if_neg hupdated] at h
    cases h
    exact .inl rfl

section

variable (h : Inv s)
include h

theorem Inv.edit {existing' : Existing} {o : Option Device} (s₁ : State)
    (he : Edited s.existing existing' device o)
    (ho : ∀ d, o = some d → (device.ns, device.name) = (d.ns, d.name))
    (hmodels : s₁.deviceModel = s.deviceModel)
    (hdevices : ∀ name, s₁.device.lookup name = if name = device.name then o
      else s.device.lookup name)
    (hlists : ∀ node, Lists existing' node (s₁.profile node)) :
    Inv { s₁ with existing := existing' } := by
  refine ⟨?_, ?_, ?_, hmodels ▸ h.model, hlists⟩
  · rintro ⟨ns, name⟩ d hd
    rw [he.lookup] at hd
    split_ifs at hd with hkey
    · exact hkey.trans (ho d hd)
    · exact h.key _ d hd
  · intro ns ns' name d d' hd hd'
    by_cases hname : name = device.name
    · subst hname
      exact (he.lookup_name.mp hd).1.trans (he.lookup_name.mp hd').1.symm
    · rw [he.lookup_other hname] at hd hd'
      exact h.unique ns ns' name d d' hd hd'
  · intro name d
    rw [hdevices]
    split_ifs with hname
    · subst hname
      simp only [he.lookup_name]
      exact ⟨fun hd => ⟨_, rfl, hd⟩, fun ⟨_, _, hd⟩ => hd⟩
    · simp only [he.lookup_other hname]
      exact h.device name d

theorem added_inv (hcalm : calm s (.added device) = true)
    (hstep : step s (.added device) = some s') :
    Inv s' := by
  simp only [step] at hstep
  split_ifs at hstep with hmem
  obtain ⟨s₁, hs₁, rfl⟩ := Option.map_eq_some_iff.mp hstep
  rw [toOption_eq_some] at hs₁
  simp only [calm, Bool.and_eq_true, List.all_eq_true, decide_eq_true_eq] at hcalm
  obtain ⟨hmodel, hname⟩ := hcalm
  have hfresh : ∀ ns d, s.existing.lookup (ns, device.name) ≠ some d := by
    intro ns d hd
    exact hname _ (AList.mem_keys.mp (GoMap.mem_iff_lookup.mpr ⟨d, hd⟩)) rfl
  have he : Edited s.existing _ device _ := edited_insert fun ns d hd => absurd hd (hfresh ns d)
  have hunbound : ∀ node, ¬ BoundName s.existing node device.name :=
    fun node ⟨ns, d, hd, _⟩ => hfresh ns d hd
  have hother : ∀ node, device.node ≠ some node →
      Lists (s.existing.insert (device.ns, device.name) device) node (s.profile node) := by
    intro node hnode
    exact (h.lists node).frame he (hunbound node) fun d hd => Option.some_inj.mp hd ▸ hnode
  rcases deviceAdded_spec hs₁ with ⟨hnode, rfl⟩ | ⟨node, data, hnode, hdata, rfl⟩
  · refine h.edit _ he (by simp) rfl (fun _ => GoMap.lookup_insert ..) fun node => ?_
    apply hother
    simp [hnode]
  · refine h.edit _ he (by simp) rfl (fun _ => GoMap.lookup_insert ..) fun node' => ?_
    rw [profile_insert { s with device := s.device.insert device.name device } node node']
    split_ifs with heq
    · subst heq
      cases href : device.deviceModelRef with
      | none => simp [addDeviceProfile, addDeviceInstanceAndProtocol, href, deref] at hdata
      | some ref =>
        have hknown : ref ∈ s.deviceModel := by
          simpa [modelKnown, hnode, href] using hmodel
        obtain ⟨model, hmodel⟩ := GoMap.mem_iff_lookup.mp hknown
        exact addDeviceProfile_lists (h.lists node') he (hunbound node') hnode href hmodel
          (h.model ref model hmodel) hdata
    · apply hother
      rw [hnode]
      exact fun h => heq (Option.some_inj.mp h).symm

theorem modified_inv (hcalm : calm s (.modified device) = true)
    (hstep : step s (.modified device) = some s') : Inv s' := by
  simp only [step] at hstep
  split_ifs at hstep with hmem
  obtain ⟨s₁, hs₁, rfl⟩ := Option.map_eq_some_iff.mp hstep
  rw [toOption_eq_some] at hs₁
  obtain ⟨old, hold⟩ := GoMap.mem_iff_lookup.mp hmem
  simp only [calm, hold, Option.all_some, Bool.and_eq_true, Bool.or_eq_true, decide_eq_true_eq,
    Option.isNone_iff_eq_none] at hcalm
  obtain ⟨hselector, href⟩ := hcalm
  have hnode : device.node = old.node := by simp [Device.node, hselector]
  have he : Edited s.existing _ device _ :=
    edited_insert fun ns d hd => h.unique ns device.ns device.name d old hd hold
  -- the profiles as they were list the new devices
  have hlists : ∀ node,
      Lists (s.existing.insert (device.ns, device.name) device) node (s.profile node) := by
    intro node
    rcases href with hnone | hsame
    · refine (h.lists node).frame he ?_ fun d hd => ?_
      · simp [he.boundName_old hold, ← hnode, hnone]
      · rw [← Option.some_inj.mp hd, hnone]
        exact (Option.some_ne_none node).symm
    · exact (h.lists node).replace he hold hnode hsame.symm
  have hcached : s.device.lookup device.name = some old := (h.device _ _).mpr ⟨device.ns, hold⟩
  have hedit (configMap : GoMap GoString (Option DeviceProfile)) :=
    h.edit { s with device := s.device.insert device.name device, configMap } he (by simp) rfl
      (fun _ => GoMap.lookup_insert ..)
  rcases deviceUpdated_spec hcached hselector hs₁ with rfl | hupdate
  · exact hedit s.configMap hlists
  · rcases updateConfigMap_spec hupdate with rfl | ⟨node, _, profile', hdnode, rfl, hprofile, rfl⟩
    · exact hedit s.configMap hlists
    · refine hedit _ fun node' => ?_
      rw [profile_insert { s with device := s.device.insert device.name device } node node']
      split_ifs with heq
      · subst heq
        exact updateProfile_lists (hlists node') (AList.lookup_insert _) hdnode hprofile
      · exact hlists node'

theorem deleted_inv {ns name : GoString} (hcalm : calm s (.deleted ns name) = true)
    (hstep : step s (.deleted ns name) = some s') : Inv s' := by
  simp only [step] at hstep
  cases hdevice : s.existing.lookup (ns, name) with
  | none =>
    rw [hdevice] at hstep
    cases hstep
  | some device =>
    rw [hdevice] at hstep
    obtain ⟨s₁, hs₁, rfl⟩ := Option.map_eq_some_iff.mp hstep
    rw [toOption_eq_some] at hs₁
    simp only [calm, hdevice, Option.all_some] at hcalm
    cases h.key _ _ hdevice
    have he : Edited s.existing _ device _ :=
      edited_erase fun ns d hd => h.unique ns device.ns device.name d device hd hdevice
    have hother : ∀ node, device.node ≠ some node →
        Lists (s.existing.erase (device.ns, device.name)) node (s.profile node) := by
      intro node hnode
      refine (h.lists node).frame he ?_ (by simp)
      rw [he.boundName_old hdevice]
      exact hnode
    rcases deviceDeleted_spec hs₁ with ⟨hnode, rfl⟩ | ⟨node, data, data', hnode, hdata, hdelete, hm,
      hd, hexisting, hprofile⟩
    · refine h.edit _ he (by simp) rfl (fun _ => GoMap.lookup_erase ..) fun node => ?_
      rcases hnode with hnode | ⟨node₀, hnode, hnone⟩
      · apply hother
        simp [hnode]
      · -- a device that is bound is listed, and so there is a config map
        have hlisted := ((h.lists node₀).mem device.name).mpr ⟨device.ns, device, hdevice, hnode⟩
        simp [State.profile, hnone] at hlisted
    · rw [hexisting]
      refine h.edit s₁ he (by simp) hm ?_ fun node' => ?_
      · rw [hd]
        exact fun _ => GoMap.lookup_erase ..
      · rw [hprofile]
        split_ifs with heq
        · subst heq
          have hlists := h.lists node'
          simp only [State.profile, hdata, Option.join_some] at hlists
          cases href : device.deviceModelRef with
          | none =>
            obtain ⟨_, devInst, _, -, -, -, hdevRef, -⟩ := hlists.exists_instance hdevice hnode
            rw [href] at hdevRef
            cases hdevRef
          | some ref =>
            have hknown : ref ∈ s.deviceModel := by
              simpa [modelKnown, hnode, href] using hcalm
            obtain ⟨model, hmodel⟩ := GoMap.mem_iff_lookup.mp hknown
            exact deleteFromDeviceProfile_lists hlists he hdevice hnode href hmodel
              (h.model ref model hmodel) hdelete
        · apply hother
          rw [hnode]
          exact fun h => heq (Option.some_inj.mp h).symm

theorem step_inv {e : Event} (hcalm : calm s e = true) (hstep : step s e = some s') : Inv s' := by
  have hmodel : ∀ model : DeviceModel, Inv { s with
      deviceModel := s.deviceModel.insert model.name model } := by
    intro model
    exact ⟨h.key, h.unique, h.device, GoMap.forall_insert h.model rfl, h.lists⟩
  cases e with
  | modelAdded model | modelUpdated model =>
    cases hstep
    exact hmodel model
  | modelDeleted name =>
    cases hstep
    exact ⟨h.key, h.unique, h.device, GoMap.forall_erase h.model name, h.lists⟩
  | added device => exact added_inv h hcalm hstep
  | modified device => exact modified_inv h hcalm hstep
  | deleted ns name => exact deleted_inv h hcalm hstep

theorem Inv.exact : Exact s := by
  have hentry : ∀ e ∈ s.existing.entries, s.existing.lookup e.1 = some e.2 :=
    fun e he => AList.mem_lookup_iff.mpr he
  refine ⟨?_, ?_, fun node => (h.lists node).protocols, fun node => (h.lists node).models_nodup,
    fun node => (h.lists node).models⟩
  · intro device
    constructor
    · rintro ⟨name, hname⟩
      obtain ⟨ns, hns⟩ := (h.device name device).mp hname
      exact ⟨(ns, name), hns⟩
    · rintro ⟨⟨ns, name⟩, hkey⟩
      exact ⟨name, (h.device name device).mpr ⟨ns, hkey⟩⟩
  · intro node
    have hnodup : (s.bound node).Nodup := by
      unfold State.bound List.Nodup
      rw [List.pairwise_filterMap]
      have hkeys : s.existing.entries.Pairwise fun e e' => e.1 ≠ e'.1 :=
        List.pairwise_map.mp s.existing.nodupKeys
      refine hkeys.imp_of_mem ?_
      rintro ⟨key, d⟩ ⟨key', d'⟩ he he' hne name hname name' hname' rfl
      apply hne
      split_ifs at hname hname'
      rw [Option.some_inj] at hname hname'
      have hd := hentry _ he
      have hd' := hentry _ he'
      cases h.key key d hd
      cases h.key key' d' hd'
      rw [← hname'] at hname
      rw [hname] at hd
      rw [hname, h.unique _ _ _ _ _ hd hd']
    rw [List.perm_ext_iff_of_nodup (h.lists node).nodup hnodup]
    intro name
    rw [(h.lists node).mem]
    unfold State.bound
    rw [List.mem_filterMap]
    constructor
    · rintro ⟨ns, d, hd, hdnode⟩
      refine ⟨⟨(ns, name), d⟩, AList.mem_lookup_iff.mp hd, ?_⟩
      have hkey := h.key _ _ hd
      simp only [if_pos hdnode]
      rw [← (Prod.mk.inj hkey).2]
    · rintro ⟨⟨⟨ns, name'⟩, d⟩, he, hname⟩
      split_ifs at hname with hdnode
      have hd := hentry _ he
      have hkey := h.key _ _ hd
      rw [Option.some_inj] at hname
      rw [← hname, ← (Prod.mk.inj hkey).2]
      exact ⟨ns, d, hd, hdnode⟩

end

end

/-- In every calm run, the profiles list exactly the devices that exist, and `Device` has
exactly these. -/
theorem profiles_exact (es : List Event) (hcalm : Along step (fun s e => calm s e = true) {} es) :
    Always step (fun s => Delivered s → Exact s) {} es := by
  have hstart : Inv {} := by
    have hlists (node : GoString) : Lists ∅ node {} := by
      constructor <;> simp [BoundName]
    exact ⟨by simp, by simp, by simp, by simp, hlists⟩
  have hinv : Always step Inv {} es :=
    always_of_along (fun _ _ _ h hcalm hstep => step_inv h hcalm hstep) hstart hcalm
  exact hinv.mono fun s h _ => h.exact

/-- Names are unique, every instance has its protocol, and every model is used. -/
structure WellFormed (profile : DeviceProfile) : Prop where
  instances : (profile.deviceInstances.map (·.name)).Nodup
  protocols : (profile.protocols.map (·.name)).Nodup
  models : (profile.deviceModels.map (·.name)).Nodup
  entries : ∀ devInst ∈ profile.deviceInstances, ∃ ptcl ∈ profile.protocols,
    ptcl.name = devInst.protocol
  used : ∀ dm ∈ profile.deviceModels, ∃ devInst ∈ profile.deviceInstances, devInst.model = dm.name

/-- The device is added and deleted again, and the profile is as before up to order. -/
def Restores (models : GoMap GoString DeviceModel) (device : Device)
    (data : Option DeviceProfile) : Prop :=
  ∃ profile, (do deleteFromDeviceProfile models device (← addDeviceProfile models device data)) =
      .ok (some profile) ∧
    profile.deviceInstances.Perm (data.getD {}).deviceInstances ∧
    profile.protocols.Perm (data.getD {}).protocols ∧
    profile.deviceModels.Perm (data.getD {}).deviceModels

/-- A new device with a known model: exactly if its protocol is not listed already with another
content, and no instance uses its model without the model being listed. -/
theorem restores_iff {models : GoMap GoString DeviceModel} {device : Device}
    {data : Option DeviceProfile} {ref : GoString} {model : DeviceModel}
    (hw : WellFormed (data.getD {}))
    (hnew : ∀ devInst ∈ (data.getD {}).deviceInstances, devInst.name ≠ device.name)
    (href : device.deviceModelRef = some ref) (hmodel : models.lookup ref = some model)
    (hname : model.name = ref) :
    Restores models device data ↔
      (∀ ptcl ∈ (data.getD {}).protocols, ptcl.name = (buildDeviceProtocol device).name →
        ptcl = buildDeviceProtocol device) ∧
      (ref ∈ (data.getD {}).deviceInstances.map (·.model) →
        ref ∈ (data.getD {}).deviceModels.map (·.name)) := by
  obtain ⟨devInst, dm, hdevice, -, hdm, hprotocol, hadd⟩ :=
    addDeviceProfile_eq href hmodel hname data
  unfold Restores
  rw [hadd, ok_bind]
  generalize data.getD {} = profile at *
  have hinstances : (removeSwap (fun x => x.name = device.name)
      (profile.deviceInstances ++ [devInst])).Perm profile.deviceInstances := by
    rw [← hdevice]
    exact (removeSwap_snoc hw.instances).mpr fun x hx heq => absurd (heq.trans hdevice) (hnew x hx)
  have hfind : (profile.deviceInstances ++ [devInst]).find? (fun x => x.name = device.name) =
      some devInst := by
    rw [List.find?_append, List.find?_eq_none.mpr (by simpa using hnew)]
    simp [hdevice]
  rw [deleteFromDeviceProfile_eq href hmodel hname hfind hinstances, hprotocol]
  simp only [Except.ok.injEq, Option.some.injEq, exists_eq_left', hinstances, true_and,
    removeSwap_snoc hw.protocols, and_congr_right_iff]
  intro _
  by_cases hused : ref ∈ profile.deviceInstances.map (·.model) <;>
    by_cases hlisted : ref ∈ profile.deviceModels.map (·.name)
  · simp [hused, hlisted]
  · have hlonger : ¬ (profile.deviceModels ++ [dm]).Perm profile.deviceModels := by
      intro hperm
      simpa using hperm.length_eq
    simp [hused, hlisted, hlonger]
  · obtain ⟨dm', hdm', hname'⟩ := List.mem_map.mp hlisted
    obtain ⟨x, hx, hmodel'⟩ := hw.used dm' hdm'
    exact absurd (List.mem_map.mpr ⟨x, hx, hmodel'.trans hname'⟩) hused
  · have hgone : (removeSwap (fun dm => dm.name = ref) (profile.deviceModels ++ [dm])).Perm
        profile.deviceModels := by
      rw [← hdm]
      refine (removeSwap_snoc hw.models).mpr fun x hx heq => ?_
      exact absurd (List.mem_map.mpr ⟨x, hx, heq.trans hdm⟩) hlisted
    simp [hused, hlisted, hgone]

def lampModel : DeviceModel where
  name := str "lamp"

/-- A device that is bound to a node. -/
def lamp (node : String) (protocol : ProtocolConfig) : Device where
  ns := str "default"
  name := str "l"
  deviceModelRef := some (str "lamp")
  protocol := protocol
  nodeSelector := some ⟨some [{ matchExpressions := some [⟨[], str "In", some [str node]⟩] }]⟩

def lampModels : GoMap GoString DeviceModel := AList.singleton (str "lamp") lampModel

/-- Another device is listed, with the same model. -/
def sharedProfile : DeviceProfile where
  deviceInstances := [⟨str "k", str "k", str "modbus-k", str "lamp", [], [], [], []⟩]
  deviceModels := [⟨str "lamp", []⟩]
  protocols := [{ name := str "modbus-k", protocol := str "modbus", protocolConfig := str "rtu" }]

theorem shared_restored :
    Restores lampModels (lamp "n" { modbus := some (str "tcp") }) (some sharedProfile) := by
  have hw : WellFormed ((some sharedProfile).getD {}) := by
    constructor <;> simp [sharedProfile]
  have hmodel : lampModels.lookup (str "lamp") = some lampModel := rfl
  refine (restores_iff hw ?_ rfl hmodel rfl).mpr ⟨?_, ?_⟩
  · decide
  · simp only [Option.getD_some, sharedProfile, List.mem_singleton, forall_eq]
    exact fun hsame => absurd hsame (by decide)
  · decide

/-- An update of the device, when its model was missing, has left its protocol. -/
def staleProfile : DeviceProfile where
  protocols := [{ name := str "modbus-l", protocol := str "modbus", protocolConfig := str "rtu" }]

theorem stale_protocol_replaced : WellFormed staleProfile ∧
    ¬ Restores lampModels (lamp "n" { modbus := some (str "tcp") }) (some staleProfile) := by
  have hw : WellFormed staleProfile := by
    constructor <;> simp [staleProfile]
  refine ⟨hw, ?_⟩
  rintro ⟨profile, hprofile, -, hprotocols, -⟩
  cases hprofile
  have hsame := List.perm_singleton.mp hprotocols
  exact absurd (congrArg (fun l => l.map (·.protocolConfig)) hsame) (by decide +kernel)

def allDelivered (s : State) : Bool :=
  s.existing.entries.all fun e => e.2.deviceModelRef.all fun model => decide (model ∈ s.deviceModel)

theorem delivered_of_all {s : State} (h : allDelivered s = true) : Delivered s := by
  intro key device hdevice model hmodel
  simp only [allDelivered, List.all_eq_true] at h
  simpa [hmodel] using h ⟨key, device⟩ (AList.mem_lookup_iff.mp hdevice)

/-- The lamp is added and changes its protocol. -/
def changing : List Event :=
  [.modelAdded lampModel, .added (lamp "n" { modbus := some (str "1") }),
    .modified (lamp "n" { bluetooth := some (str "2") })]

theorem profiles_exact_changing : ∃ s, run step {} changing = some s ∧ Delivered s ∧ Exact s ∧
    ((s.profile (str "n")).protocols.map (·.name)) = [str "bluetooth-l"] := by
  have hrun : (run step {} changing).map (fun s =>
      (allDelivered s, (s.profile (str "n")).protocols.map (·.name))) =
        some (true, [str "bluetooth-l"]) := by decide +kernel
  obtain ⟨s, hs, hend⟩ := Option.map_eq_some_iff.mp hrun
  rw [Prod.mk.injEq] at hend
  have hdelivered := delivered_of_all hend.1
  have hcalm : Along step (fun s e => calm s e = true) {} changing := by
    apply along_of_check (p := calm) (by simp)
    decide +kernel
  exact ⟨s, hs, hdelivered, (profiles_exact changing hcalm).last hs hdelivered, hend.2⟩

/-- The lamp goes from one node to another. -/
def moving : List Event :=
  [.modelAdded lampModel, .added (lamp "n" {}), .modified (lamp "m" {})]

/-- A device that is moved is added for the new node and then deleted for the old one, and with it
goes the entry that `Device` has under its name. -/
theorem moved_device_forgotten : ∃ s, run step {} moving = some s ∧ Delivered s ∧ ¬ Exact s := by
  have hrun : (run step {} moving).map (fun s =>
      (allDelivered s, s.device.entries.isEmpty, s.existing.entries.isEmpty)) =
        some (true, true, false) := by decide +kernel
  obtain ⟨s, hs, hend⟩ := Option.map_eq_some_iff.mp hrun
  simp only [Prod.mk.injEq, List.isEmpty_iff] at hend
  obtain ⟨hdelivered, hdevice, hexisting⟩ := hend
  refine ⟨s, hs, delivered_of_all hdelivered, ?_⟩
  intro hexact
  cases hentries : s.existing.entries with
  | nil => simp [hentries] at hexisting
  | cons e entries =>
    have hlookup : s.existing.lookup e.1 = some e.2 :=
      AList.mem_lookup_iff.mpr (by simp [hentries])
    obtain ⟨name, hname⟩ := (hexact.device e.2).mpr ⟨e.1, hlookup⟩
    have hmem := AList.mem_lookup_iff.mp hname
    rw [hdevice] at hmem
    cases hmem

end KubeEdge.DeviceController.Profile
