import Damaru.Verify.LinkAtomicity
import Damaru.Verify.Unlinking

/-!
# Unlinking undoes linking

`linkEmulator` and then `unlinkEmulator` with the same body leave the tables as
they were, but for one ended link of each device. In between, neither touches a
row of another device or another user.
-/

namespace Damaru

open Async Table

/-- The rows of other devices and users are as in `t`, and so is every link,
assignment and connection that is there: what is new are links of the user to
the devices, and assignments to these links. -/
def Tables.Confined (t : Tables) (u : String) (ds : List String) (t' : Tables) : Prop :=
  ∃ es ls as, t' = { t with
      emulators := es
      userEmulators := t.userEmulators ++ ls
      accountEmulators := t.accountEmulators ++ as } ∧
    es.filter (fun e => decide (e.device_id ∉ ds)) =
      t.emulators.filter (fun e => decide (e.device_id ∉ ds)) ∧
    (∀ l ∈ ls, l.user = some u ∧ ∃ d ∈ ds, l.device = some d) ∧
    ∀ a ∈ as, ∃ l ∈ ls, a.userEmulator = some l.id

namespace Tables.Confined

variable {u d : String} {ds : List String} {t t' : Tables}

theorem refl (t : Tables) (u : String) (ds : List String) : t.Confined u ds t := by
  refine ⟨t.emulators, [], [], ?_, rfl, fun l hl => (List.not_mem_nil hl).elim,
    fun a ha => (List.not_mem_nil ha).elim⟩
  rw [List.append_nil, List.append_nil]

theorem append_link (h : t.Confined u ds t') (hd : d ∈ ds) {l : UserEmulators}
    (hu : l.user = some u) (hdev : l.device = some d) :
    t.Confined u ds { t' with userEmulators := t'.userEmulators ++ [l] } := by
  obtain ⟨es, ls, as, rfl, hes, hls, has⟩ := h
  refine ⟨es, ls ++ [l], as, ?_, hes, fun l' hl' => ?_, fun a ha => ?_⟩
  · simp only [List.append_assoc]
  · rcases List.mem_append.1 hl' with hl' | hl'
    · exact hls l' hl'
    · rw [List.mem_singleton.1 hl']
      exact ⟨hu, d, hd, hdev⟩
  · obtain ⟨l', hl', hlink⟩ := has a ha
    exact ⟨l', List.mem_append_left _ hl', hlink⟩

theorem mem_link (h : t.Confined u ds t') {l : UserEmulators} (hl : l ∈ t.userEmulators) :
    l ∈ t'.userEmulators := by
  obtain ⟨es, ls, as, rfl, -, -, -⟩ := h
  exact List.mem_append_left _ hl

/-- A new link is none of those that were there. -/
theorem new_link (h : t.Confined u ds t') {l : UserEmulators} (hl : l ∈ t'.userEmulators)
    (hnew : l ∉ t.userEmulators) (hi : t'.Integrity) :
    l.id ∉ t.userEmulators.map UserEmulators.id := by
  obtain ⟨es, ls, as, rfl, -, -, -⟩ := h
  have hmem := (List.mem_append.1 hl).resolve_left hnew
  have hkeys := hi.userEmulators
  rw [List.map_append, List.nodup_append] at hkeys
  exact fun hid => hkeys.2.2 _ hid _ (List.mem_map_of_mem hmem) rfl

theorem append_assignment (h : t.Confined u ds t') {l : UserEmulators} (hl : l ∈ t'.userEmulators)
    (hnew : l ∉ t.userEmulators) {a : AccountEmulators} (ha : a.userEmulator = some l.id) :
    t.Confined u ds { t' with accountEmulators := t'.accountEmulators ++ [a] } := by
  obtain ⟨es, ls, as, rfl, hes, hls, has⟩ := h
  refine ⟨es, ls, as ++ [a], ?_, hes, hls, fun a' ha' => ?_⟩
  · simp only [List.append_assoc]
  · rcases List.mem_append.1 ha' with ha' | ha'
    · exact has a' ha'
    · rw [List.mem_singleton.1 ha']
      exact ⟨l, (List.mem_append.1 hl).resolve_left hnew, ha⟩

theorem setState (h : t.Confined u ds t') (hd : d ∈ ds) (st : EmulatorState) :
    t.Confined u ds { t' with
      emulators := updateWhere (fun e => decide (e.device_id = d)) (fun e => { e with state := st })
        t'.emulators } := by
  obtain ⟨es, ls, as, rfl, hes, hls, has⟩ := h
  refine ⟨_, ls, as, rfl, ?_, hls, has⟩
  rw [← hes]
  refine (filter_updateWhere ?_).trans (updateWhere_eq_self fun e he hp => ?_)
  · exact fun _ _ => rfl
  · have hnot := of_decide_eq_true (List.mem_filter.1 he).2
    exact absurd hd (of_decide_eq_true hp ▸ hnot)

theorem endLink (h : t.Confined u ds t') {l : String}
    (hnew : l ∉ t.userEmulators.map UserEmulators.id) (now : Date) :
    t.Confined u ds (t'.endLink l now) := by
  obtain ⟨es, ls, as, rfl, hes, hls, has⟩ := h
  have hsplit : updateWhere (fun r => decide (r.id = l)) (fun r => { r with unlinked_at := some now })
      (t.userEmulators ++ ls) = t.userEmulators ++
        updateWhere (fun r => decide (r.id = l)) (fun r => { r with unlinked_at := some now }) ls := by
    rw [updateWhere_append]
    congr 1
    refine updateWhere_eq_self fun r hr hp => ?_
    exact absurd (of_decide_eq_true hp ▸ List.mem_map_of_mem hr) hnew
  refine ⟨es, _, as, by unfold Tables.endLink; rw [hsplit], hes, fun r hr => ?_, fun a ha => ?_⟩
  · rcases mem_updateWhere.1 hr with ⟨r', hr', -, rfl⟩ | ⟨hr, -⟩
    · exact hls r' hr'
    · exact hls r hr
  · obtain ⟨r, hr, hlink⟩ := has a ha
    refine ⟨_, List.mem_map_of_mem hr, ?_⟩
    simp only
    split
    · exact hlink
    · exact hlink

theorem unassign (h : t.Confined u ds t') (hi : t.Integrity) {l : String}
    (hnew : l ∉ t.userEmulators.map UserEmulators.id) : t.Confined u ds (t'.unassign l) := by
  obtain ⟨es, ls, as, rfl, hes, hls, has⟩ := h
  have hsplit : (t.accountEmulators ++ as).filter (fun a => !decide (a.userEmulator = some l)) =
      t.accountEmulators ++ as.filter fun a => !decide (a.userEmulator = some l) := by
    rw [List.filter_append]
    congr 1
    refine List.filter_eq_self.2 fun a ha => ?_
    rw [Bool.not_eq_true', decide_eq_false_iff_not]
    intro hlink
    have href := hi.link a ha
    rw [hlink, refers_some] at href
    exact hnew href
  have hconnections : t.emulatorConnections.filter (fun c => refers
      ((t.accountEmulators ++ as.filter fun a => !decide (a.userEmulator = some l)).map
        AccountEmulators.id) c.accountEmulators) = t.emulatorConnections := by
    refine List.filter_eq_self.2 fun c hc => ?_
    have href := hi.assignment c hc
    cases hk : c.accountEmulators with
    | none => rfl
    | some k =>
      rw [hk, refers_some] at href
      rw [refers_some, List.map_append]
      exact List.mem_append_left _ href
  refine ⟨es, ls, as.filter fun a => !decide (a.userEmulator = some l), ?_, hes, hls,
    fun a ha => has a (List.mem_filter.1 ha).1⟩
  unfold Tables.unassign
  simp only [hsplit, hconnections]

end Tables.Confined

/-! ## At every point -/

section Points

variable {u : String} {ds : List String} {t : Tables}

open Phase EmulatorService in
theorem points_linkRest {rest : List String} (hrest : ∀ d ∈ rest, d ∈ ds) {s : Server}
    (h : t.Confined u ds s.tables) :
    (linkRest u rest).Points s fun s' => t.Confined u ds s'.tables := by
  induction rest generalizing s with
  | nil => exact .pure h
  | cons d rest ih =>
    have hd := hrest d List.mem_cons_self
    rw [linkRest_cons]
    refine Repository.points_findRow_bind h (fun e _ _ => .throw h) ?_
    show (insertLink (some (.str u)) (some (.str d)) >>= _).Points s _
    refine Repository.points_insert_bind h fun x l hl hi => ?_
    have hlink : l = ⟨x.fresh s, some u, some d,
        DateUtils.shift (defaultDays s.platform) x.now, x.now, none⟩ := (Except.ok.inj hl).symm
    have h₁ := h.append_link hd (congrArg UserEmulators.user hlink) (congrArg UserEmulators.device hlink)
    unfold AccountsService.findRootAccount
    refine Repository.points_findRow_bind h₁ (fun a _ _ => ?_) (.throw h₁)
    refine Repository.points_insert_bind h₁ fun y p hp hi' => ?_
    have hnew : l ∉ t.userEmulators := by
      intro hmem
      have hid := Server.mem_used_of_mem_ids (Tables.userEmulator_id_mem (h.mem_link hmem))
      rw [hlink] at hid
      exact x.fresh_not_used s hid
    have hassign : p = ⟨y.fresh _, some a.id, some l.id, .ACTIVE⟩ := (Except.ok.inj hp).symm
    have h₂ := h₁.append_assignment (List.mem_append_right _ (List.mem_singleton.2 rfl)) hnew
      (congrArg AccountEmulators.userEmulator hassign)
    show (setState (some (.str d)) .REGISTERED >>= fun _ => linkRest u rest).Points _ _
    unfold setState
    rw [bind_assoc]
    exact Repository.points_set_bind h₂ fun z hi'' n =>
      ih (fun d' hd' => hrest d' (List.mem_cons_of_mem _ hd')) (h₂.setState hd .REGISTERED)

open Phase in
theorem points_unlinkRest (hi : t.Integrity) (hfree : ∀ d ∈ ds, t.active d = [])
    {rest : List String} (hrest : ∀ d ∈ rest, d ∈ ds) {s : Server} (h : t.Confined u ds s.tables) :
    (unlinkRest u rest).Points s fun s' => t.Confined u ds s'.tables := by
  induction rest generalizing s with
  | nil => exact .pure h
  | cons d rest ih =>
    have hd := hrest d List.mem_cons_self
    have ih := fun {s} => @ih (fun d' hd' => hrest d' (List.mem_cons_of_mem _ hd')) s
    rw [unlinkRest_cons]
    refine Repository.points_findRow_bind h (fun l hl hsel => ?_) (ih h)
    rw [unlink_selects] at hsel
    -- the link that the lookup finds is one of the new ones
    have hnew : l ∉ t.userEmulators := by
      intro hmem
      have hactive := Tables.mem_active_of_joins hmem hsel
      rw [hfree d hd] at hactive
      cases hactive
    have hid := h.new_link hl hnew s.integrity
    have h₁ := h.endLink hid
    refine Repository.points_set_bind h fun x hi₁ n => ?_
    refine Repository.points_delete_bind (h₁ x.now) fun hi₂ => ?_
    have h₂ := (h₁ x.now).unassign hi hid
    have hi₁' : (s.tables.endLink l.id x.now).Integrity := hi₁
    rw [← hi₁'.cascade_unassign] at h₂
    show (unlinkState u d rest).prog.Points _ _
    rw [unlinkState_prog]
    exact Repository.points_set_bind h₂ fun z hi₃ n => ih (h₂.setState hd .AVAILABLE)

end Points

/-! ## There and back -/

/-- Linking the devices to the user and unlinking them again both return. They
leave the tables as they were, with one more link for each device, of the user
and ended, and at every point the rows of other devices and users are as they
were. -/
structure Undoes (s : Server) (u : String) (ds : List String) : Prop where
  returns : ∃ s₁ s₂, (EmulatorService.linkEmulator (LinkRequest.linkDto u ds)).Ends s (.ok ()) s₁ ∧
    (EmulatorService.unlinkEmulator (LinkRequest.linkDto u ds)).Ends s₁ (.ok ()) s₂
  link_returns : ∀ r s₁,
    (EmulatorService.linkEmulator (LinkRequest.linkDto u ds)).Ends s r s₁ → r = .ok ()
  unlink_returns : ∀ s₁ r s₂,
    (EmulatorService.linkEmulator (LinkRequest.linkDto u ds)).Ends s (.ok ()) s₁ →
    (EmulatorService.unlinkEmulator (LinkRequest.linkDto u ds)).Ends s₁ r s₂ → r = .ok ()
  restores : ∀ s₁ s₂,
    (EmulatorService.linkEmulator (LinkRequest.linkDto u ds)).Ends s (.ok ()) s₁ →
    (EmulatorService.unlinkEmulator (LinkRequest.linkDto u ds)).Ends s₁ (.ok ()) s₂ →
    ∃ ls, ls.map UserEmulators.device = ds.map some ∧
      (∀ l ∈ ls, l.user = some u ∧ l.active = false) ∧
      s₂.tables = { s.tables with userEmulators := s.tables.userEmulators ++ ls }
  link_confined : (EmulatorService.linkEmulator (LinkRequest.linkDto u ds)).Points s fun t =>
    s.tables.Confined u ds t.tables
  unlink_confined : ∀ s₁,
    (EmulatorService.linkEmulator (LinkRequest.linkDto u ds)).Ends s (.ok ()) s₁ →
    (EmulatorService.unlinkEmulator (LinkRequest.linkDto u ds)).Points s₁ fun t =>
      s.tables.Confined u ds t.tables

/-- The device exists and is AVAILABLE. -/
def Tables.Available (t : Tables) (d : String) : Prop :=
  ∃ e ∈ t.emulators, e.device_id = d ∧ e.state = .AVAILABLE

theorem Tables.LinkState.active_of_available {t : Tables} (h : t.LinkState) {d : String}
    (hd : t.Available d) : t.active d = [] := by
  obtain ⟨e, he, rfl, hst⟩ := hd
  rcases h e he with ⟨hreg, -⟩ | ⟨-, hnil⟩
  · rw [hst] at hreg
    cases hreg
  · exact hnil

section NewRows

variable {u : String} {ds : List String} {t : Tables} {ls : List UserEmulators} {as : List AccountEmulators}

/-- The links that unlinking looks for are the new ones. -/
theorem joining_new (hstate : t.LinkState) (hds : ∀ d ∈ ds, t.Available d)
    (hdev : ls.map UserEmulators.device = ds.map some) (hls : ∀ l ∈ ls, l.user = some u ∧ l.active = true) :
    (t.userEmulators.filter (UserEmulators.joins u ds) = []) ∧ ls.filter (UserEmulators.joins u ds) = ls := by
  constructor
  · refine List.filter_eq_nil_iff.2 fun l hl hjoins => ?_
    obtain ⟨-, hactive, d, hd, hld⟩ := UserEmulators.joins_iff.1 hjoins
    have hmem := Tables.mem_active.2 ⟨hl, hld, hactive⟩
    rw [hstate.active_of_available (hds d hd)] at hmem
    cases hmem
  · refine List.filter_eq_self.2 fun l hl => ?_
    have hld : l.device ∈ ds.map some := hdev ▸ List.mem_map_of_mem hl
    obtain ⟨d, hd, hdl⟩ := List.mem_map.1 hld
    exact UserEmulators.joins_iff.2 ⟨(hls l hl).1, (hls l hl).2, d, hd, hdl.symm⟩

/-- No old assignment is to a new link, and every new one is. -/
theorem apart_new (hi : t.Integrity) (hkeys : ((t.userEmulators ++ ls).map UserEmulators.id).Nodup)
    (hlink : as.map AccountEmulators.userEmulator = ls.map fun l => some l.id) :
    (t.accountEmulators ++ as).filter (fun a => ls.all fun l => decide (a.userEmulator ≠ some l.id)) =
      t.accountEmulators := by
  rw [List.map_append, List.nodup_append] at hkeys
  rw [List.filter_append, List.filter_eq_self.2, List.filter_eq_nil_iff.2, List.append_nil]
  · intro a ha hall
    have hal : a.userEmulator ∈ ls.map fun l => some l.id := hlink ▸ List.mem_map_of_mem ha
    obtain ⟨l, hl, hlink'⟩ := List.mem_map.1 hal
    exact of_decide_eq_true (List.all_eq_true.1 hall l hl) hlink'.symm
  · intro a ha
    refine List.all_eq_true.2 fun l hl => decide_eq_true fun hal => ?_
    have href := hi.link a ha
    rw [hal, refers_some] at href
    exact hkeys.2.2 _ href _ (List.mem_map_of_mem hl) rfl

/-- The devices of the new links are AVAILABLE again. -/
theorem states_restored (hi : t.Integrity) (hds : ∀ d ∈ ds, t.Available d)
    (hdev : ls.map UserEmulators.device = ds.map some) :
    updateWhere (fun e => ls.any fun l => decide (l.device = some e.device_id)) (fun e => { e with state := .AVAILABLE })
      (updateWhere (fun e => decide (e.device_id ∈ ds)) (fun e => { e with state := .REGISTERED }) t.emulators) =
        t.emulators := by
  have hjoined : ∀ e : Emulator, (ls.any fun l => decide (l.device = some e.device_id)) =
      decide (e.device_id ∈ ds) := fun e => by
    have hdevice : e.device_id ∈ ds ↔ ∃ l ∈ ls, l.device = some e.device_id := by
      rw [← List.mem_map (f := UserEmulators.device), hdev]
      simp
    rw [Bool.eq_iff_iff, List.any_eq_true, decide_eq_true_eq, hdevice]
    simp only [decide_eq_true_eq]
  simp only [hjoined]
  unfold updateWhere
  rw [List.map_map]
  conv_rhs => rw [← List.map_id t.emulators]
  refine List.map_congr_left fun e he => ?_
  by_cases hd : e.device_id ∈ ds
  · obtain ⟨e', he', hid, hst⟩ := hds _ hd
    rw [eq_of_key hi.emulators he' he hid] at hst
    simp [hd, ← hst]
  · simp [hd]

end NewRows

/-- The effect of unlinking on the effect of linking. -/
theorem Linked.unlink {u : String} {ds : List String} {t t₁ : Tables} (h : Linked u t ds t₁)
    (hi : t.Integrity) (hi₁ : t₁.Integrity) (hstate : t.LinkState) (hds : ∀ d ∈ ds, t.Available d)
    (date : UserEmulators → Date) : ∃ ls, ls.map UserEmulators.device = ds.map some ∧
      (∀ l ∈ ls, l.user = some u ∧ l.active = false) ∧
      t₁.unlink date u ds = { t with userEmulators := t.userEmulators ++ ls } := by
  obtain ⟨ls, as, hdev, hls, hlink, -, rfl⟩ := h.rows
  obtain ⟨hold, hnew⟩ := joining_new hstate hds hdev hls
  have hjoining : (t.userEmulators ++ ls).filter (UserEmulators.joins u ds) = ls := by
    rw [List.filter_append, hold, hnew, List.nil_append]
  have hlinks : updateWhere (UserEmulators.joins u ds) (fun l => { l with unlinked_at := some (date l) })
      (t.userEmulators ++ ls) =
      t.userEmulators ++ ls.map fun l => { l with unlinked_at := some (date l) } := by
    rw [updateWhere_append, updateWhere_eq_self fun l hl hp => (List.filter_eq_nil_iff.1 hold l hl hp).elim]
    congr 1
    exact List.map_congr_left fun l hl => if_pos (List.filter_eq_self.1 hnew l hl)
  have hconnections : t.emulatorConnections.filter (fun c =>
      refers (t.accountEmulators.map AccountEmulators.id) c.accountEmulators) = t.emulatorConnections :=
    List.filter_eq_self.2 hi.assignment
  refine ⟨ls.map fun l => { l with unlinked_at := some (date l) }, ?_, fun l hl => ?_, ?_⟩
  · rw [List.map_map, ← hdev]
    rfl
  · obtain ⟨l', hl', rfl⟩ := List.mem_map.1 hl
    exact ⟨(hls l' hl').1, rfl⟩
  · unfold Tables.unlink Tables.apart Tables.joined Tables.joining
    rw [hlinks, hjoining, apart_new hi hi₁.userEmulators hlink, states_restored hi hds hdev, hconnections]

open EmulatorService in
/-- The ORM refuses to make the device with the empty id REGISTERED. -/
theorem linkDevice_empty_post (u : String) (s : Server) :
    (linkDevice (some (.str u)) (some (.str ""))).Post s fun r _ => ∃ e, r = .error e := by
  unfold linkDevice findEmulatorByDeviceId
  refine Repository.post_findRow_bind (fun e _ _ => .throw ⟨_, rfl⟩) fun _ => ?_
  refine Repository.post_insert_bind (fun x l _ _ => ?_) fun x e _ => ⟨e, rfl⟩
  unfold AccountsService.findRootAccount
  refine Repository.post_findRow_bind (fun a _ _ => ?_) fun _ => .throw ⟨_, rfl⟩
  refine Repository.post_insert_bind (fun y p _ _ => ?_) fun y e _ => ⟨e, rfl⟩
  unfold setState
  rw [Repository.set_str]
  refine post_statement_bind (fun z n t hf _ => ?_) fun z e _ => ⟨e, rfl⟩
  rw [if_pos rfl] at hf
  cases hf

open Phase in
theorem linkRest_ok {u : String} {ds : List String} {s s' : Server}
    (h : (linkRest u ds).Ends s (.ok ()) s') : "" ∉ ds := by
  induction ds generalizing s with
  | nil => exact List.not_mem_nil
  | cons d ds ih =>
    unfold linkRest at h
    rw [List.map_cons, List.forM_cons] at h
    obtain ⟨a, t, hd, hrest⟩ := Prog.ends_ok_bind.1 h
    intro hmem
    rcases List.mem_cons.1 hmem with rfl | hmem
    · obtain ⟨e, he⟩ := linkDevice_empty_post u s _ _ hd
      cases he
    · exact ih hrest hmem

/-- The ids of new links are generated, and never empty. -/
def NewIds (s s' : Server) : Prop :=
  ∀ l ∈ s'.tables.userEmulators, l ∈ s.tables.userEmulators ∨ l.id ≠ ""

open EmulatorService in
theorem each_linkEmulator_newIds (u : String) (ds : List String) :
    (linkEmulator (LinkRequest.linkDto u ds)).Each NewIds := by
  have hrefl : ∀ s, NewIds s s := fun _ _ hl => .inl hl
  refine Prog.Each.forM (fun j => ?_) _
  unfold linkDevice findEmulatorByDeviceId
  refine (Repository.each_findRow hrefl).bind fun found => ?_
  split
  · refine (Repository.each_insert hrefl fun x s l hl hi r hr => ?_).bind fun link => ?_
    · rcases List.mem_append.1 hr with hr | hr
      · exact .inl hr
      · rw [List.mem_singleton.1 hr, ← Except.ok.inj hl]
        exact .inr (x.fresh_ne_empty s)
    refine (Repository.each_findRow hrefl).bind fun root => ?_
    cases root with
    | none => exact trivial
    | some a =>
      refine (Repository.each_insert hrefl fun x s a _ hi => ?_).bind fun _ => ?_
      · exact fun r hr => .inl hr
      refine (Repository.each_update hrefl (fun x s f _ hi => ?_) fun s hi => ?_).bind fun _ => trivial
      · exact fun r hr => .inl hr
      · exact fun r hr => .inl hr
  · exact trivial

/-- A linked device is found linked: linking a list of AVAILABLE devices to a
user with a root account returns. -/
theorem linkEmulator_returns {u : String} {ds : List String} {s s₁ : Server}
    {r : Except Rejection Unit} (hroot : s.tables.Rooted u) (hdistinct : ds.Nodup)
    (hds : ∀ d ∈ ds, s.tables.Available d) (hne : "" ∉ ds)
    (h : (EmulatorService.linkEmulator (LinkRequest.linkDto u ds)).Ends s r s₁) :
    r = .ok () ∧ Linked u s.tables ds s₁.tables := by
  rcases linkEmulator_post u ds s r s₁ h with hok | ⟨-, hwhy⟩
  · exact hok
  · obtain ⟨done, d, rest, rfl, hlinked, hrejects⟩ := hwhy hroot hne
    obtain ⟨e, he, hid, hst⟩ := hds d (by simp)
    have hnot : d ∉ done := fun hmem =>
      (List.nodup_append.1 hdistinct).2.2 d hmem d List.mem_cons_self rfl
    obtain ⟨ls, as, -, -, -, -, heq⟩ := hlinked.rows
    have hkept : e ∈ s₁.tables.emulators := by
      rw [heq]
      exact mem_updateWhere.2 (.inr ⟨he, decide_eq_false (hid ▸ hnot)⟩)
    rcases hrejects with ⟨e', he', hid', hst'⟩ | hnone
    · rw [eq_of_key s₁.integrity.emulators he' hkept (hid'.trans hid.symm), hst] at hst'
      cases hst'
    · exact (hnone e hkept hid).elim

open Phase in
/-- **Unlinking undoes linking**, unless the list names the device with the
empty id. -/
theorem EmulatorService.unlink_undoes_link_iff {s : Server} {u : String} {ds : List String}
    (hstate : s.tables.LinkState) (hroot : s.tables.Rooted u) (hdistinct : ds.Nodup)
    (hds : ∀ d ∈ ds, s.tables.Available d) : Undoes s u ds ↔ "" ∉ ds := by
  have hfree : ∀ d ∈ ds, s.tables.active d = [] := fun d hd => hstate.active_of_available (hds d hd)
  constructor
  · intro h
    obtain ⟨s₁, -, hlink, -⟩ := h.returns
    exact linkRest_ok hlink
  · intro hne
    have hlinked := fun r s₁ h => @linkEmulator_returns u ds s s₁ r hroot hdistinct hds hne h
    have hunlink : ∀ s₁ r s₂, (linkEmulator (LinkRequest.linkDto u ds)).Ends s (.ok ()) s₁ →
        (unlinkEmulator (LinkRequest.linkDto u ds)).Ends s₁ r s₂ →
        r = .ok () ∧ ∃ date, s₂.tables = s₁.tables.unlink date u ds := by
      intro s₁ r s₂ hlink hends
      have hstate₁ : s₁.tables.LinkState :=
        LinkRequest.linkState_alone (r := .link u ds) (.of_ends hlink nofun) hstate
      rcases unlinkRest_ends (hstate₁.exclusive s₁.integrity) hends with ⟨hr, -, hdate⟩ | ⟨-, hnot⟩
      · exact ⟨hr, hdate⟩
      · refine (hnot fun l hl => ?_).elim
        obtain ⟨hmem, hjoins⟩ := Tables.mem_joining.1 hl
        obtain ⟨-, hactive, d, hd, hdev⟩ := UserEmulators.joins_iff.1 hjoins
        refine ⟨fun hid => ?_, fun hempty => hne ?_⟩
        · have hold : l ∈ s.tables.userEmulators :=
            (each_linkEmulator_newIds u ds).ends (fun _ _ hl => .inl hl) (fun a b c hab hbc l hl =>
              (hbc l hl).elim (hab l) .inr) hlink l hmem |>.resolve_right fun h => h hid
          have hold' := Tables.mem_active.2 ⟨hold, hdev, hactive⟩
          rw [hfree d hd] at hold'
          cases hold'
        · exact Option.some.inj (hdev.symm.trans hempty) ▸ hd
    refine ⟨?_, fun r s₁ h => (hlinked r s₁ h).1, fun s₁ r s₂ hlink h => (hunlink s₁ r s₂ hlink h).1,
      fun s₁ s₂ hlink h => ?_, ?_, fun s₁ hlink => ?_⟩
    · obtain ⟨r, s₁, hlink⟩ := (LinkRequest.forkFree_link u ds).exists_ends s
      obtain ⟨rfl, -⟩ := hlinked r s₁ hlink
      obtain ⟨r, s₂, hends⟩ := (LinkRequest.forkFree_unlink u ds).exists_ends s₁
      obtain ⟨rfl, -⟩ := hunlink s₁ r s₂ hlink hends
      exact ⟨s₁, s₂, hlink, hends⟩
    · obtain ⟨-, date, hdate⟩ := hunlink s₁ _ s₂ hlink h
      rw [hdate]
      exact (hlinked _ s₁ hlink).2.unlink s.integrity s₁.integrity hstate hds date
    · exact points_linkRest (fun _ hd => hd) (.refl _ u ds)
    · refine points_unlinkRest s.integrity hfree (fun _ hd => hd) ?_
      obtain ⟨xs, hxs⟩ := Prog.ends_iff_stop.1 hlink
      have hpoint := points_linkRest (fun _ hd => hd) (Tables.Confined.refl s.tables u ds) xs
      have hstop : (linkRest u ds).stop xs s = (some (.ok ()), s₁) := hxs
      rwa [hstop] at hpoint

/-- A free device, linked to a user and unlinked again. -/
theorem unlink_undoes_link_free : Undoes Sample.server "u" ["d"] :=
  (EmulatorService.unlink_undoes_link_iff (by decide)
    ⟨⟨"u-root", some "u", "root", true, true, "1", none⟩, by decide, rfl, rfl⟩ (by decide)
    (fun d hd => by
      rw [List.mem_singleton.1 hd]
      exact ⟨⟨"d", some "D", .offline, .AVAILABLE, none, none⟩, by decide, rfl, rfl⟩)).2 (by decide)

open Phase in
/-- A device is created with the empty id. -/
theorem unlink_does_not_undo : ¬ ∀ (s : Server) (u : String) (ds : List String),
    s.tables.LinkState → s.tables.Rooted u → ds.Nodup → (∀ d ∈ ds, s.tables.Available d) →
      Undoes s u ds := by
  intro hall
  let emulator : Json := .obj [("device_id", .str ""), ("device_name", .str "D")]
  have hrun : (playAll (Sample.history ++ [(.http Sample.superAdmin (.emulators_create emulator),
      ["", ""].map Sample.input)]) Sample.seeded).any (fun s =>
        decide s.tables.LinkState &&
          ((s.tables.accounts.any fun a => decide (a.user = some "u" ∧ a.is_admin = true)) &&
            decide (⟨"", some "D", .offline, .AVAILABLE, none, none⟩ ∈ s.tables.emulators))) = true := by
    decide +kernel
  obtain ⟨s, -, hs⟩ := (Option.any_eq_true _ _).1 hrun
  obtain ⟨hstate, hs⟩ := Bool.and_eq_true_iff.1 hs
  obtain ⟨hroot, hdevice⟩ := Bool.and_eq_true_iff.1 hs
  obtain ⟨root, hmem, hroot⟩ := List.any_eq_true.1 hroot
  have hundoes := hall s "u" [""] (of_decide_eq_true hstate)
    ⟨root, hmem, of_decide_eq_true hroot⟩ (List.nodup_singleton _) fun d hd =>
      ⟨_, of_decide_eq_true hdevice, (List.mem_singleton.1 hd).symm, rfl⟩
  obtain ⟨s₁, -, hlink, -⟩ := hundoes.returns
  exact linkRest_ok hlink (List.mem_singleton.2 rfl)

end Damaru
