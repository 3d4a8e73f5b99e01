import Damaru.Async.Ahead
import Damaru.Verify.Attribution
import Damaru.Verify.Privileges

/-!
# The log is written ahead

Whatever is under way at once, a row of a user is deleted or changed only after
the log has got an entry that tells of it: the id of the user who is deleted,
or the values that are written. As long as nobody edits the log, entries are
added to it at its end, and never go.
-/

namespace Damaru

open Async Table

/-- Entries have been added at most. -/
def LogGrows (s s' : Server) : Prop := s.tables.activityLogs <+: s'.tables.activityLogs

/-- The log has an entry with the action and the metadata. -/
def Tells (i : Actions × Json) (s : Server) : Prop :=
  ∃ e ∈ s.tables.activityLogs, e.action = i.1.text ∧ e.metadata = i.2

theorem Tells.grows {i : Actions × Json} {s s' : Server} (h : Tells i s) (hgrows : LogGrows s s') :
    Tells i s' := by
  obtain ⟨e, he, hi⟩ := h
  exact ⟨e, hgrows.subset he, hi⟩

/-- What needs no entry: no user is changed or deleted. -/
structure Unlogged (s s' : Server) : Prop where
  log : LogGrows s s'
  users : s.tables.users ⊆ s'.tables.users

theorem Unlogged.of_eq {s s' : Server} (hlog : s'.tables.activityLogs = s.tables.activityLogs)
    (husers : s'.tables.users = s.tables.users) : Unlogged s s' :=
  ⟨⟨[], (List.append_nil _).trans hlog.symm⟩, fun _ hu => husers ▸ hu⟩

theorem Unlogged.refl (s : Server) : Unlogged s s := .of_eq rfl rfl

/-- The value is as before, or the one in the metadata. -/
def Tracked (metadata : Json) (column : String) (old new : String) : Prop :=
  new = old ∨ (metadata.get? column).bound = some new

/-- What becomes of a user is what the entry says. -/
def Told (i : Actions × Json) (u : Users) (s' : Server) : Prop :=
  (i = (.DELETE_USER, .obj [("id", .str u.id)]) ∧ ∀ v ∈ s'.tables.users, v.id ≠ u.id) ∨
    (i.1 = .UPDATE_USER ∧ ∃ u' ∈ s'.tables.users, u'.id = u.id ∧ u'.role = u.role ∧
      Tracked i.2 "name" u.name u'.name ∧ Tracked i.2 "email" u.email u'.email ∧
      Tracked i.2 "password" u.password u'.password)

/-- What keeps to an entry: no user is changed or deleted but as it says. -/
structure KeepsTo (i : Actions × Json) (s s' : Server) : Prop where
  log : LogGrows s s'
  users : ∀ u ∈ s.tables.users, u ∈ s'.tables.users ∨ Told i u s'

theorem Unlogged.keepsTo {i : Actions × Json} {s s' : Server} (h : Unlogged s s') : KeepsTo i s s' :=
  ⟨h.log, fun _ hu => .inl (h.users hu)⟩

/-- An admitted request that changes or deletes entries of the log. -/
def Event.EditsLog : Event → Prop
  | http user (.activityLogs_update id dto) => HttpRequest.admits (.activityLogs_update id dto) user = true
  | http user (.activityLogs_delete id) => HttpRequest.admits (.activityLogs_delete id) user = true
  | _ => False

/-! ## Code that needs no entry -/

/-- The kinds of writes that touch neither the log nor the users. -/
def Kind.Unlogged : Kind → Prop
  | .activityLogs => False
  | .newUser => False
  | .userFields => False
  | .deleteUser => False
  | _ => True

theorem Writes.unlogged {ks : List Kind} (hks : ∀ k ∈ ks, k.Unlogged) {s s' : Server} (hw : Writes ks s s') :
    Unlogged s s' := by
  rcases hw.tables with ht | ⟨k, hk, hw⟩
  · exact .of_eq (congrArg Tables.activityLogs ht) (congrArg Tables.users ht)
  · have hk := hks k hk
    have hlog : s'.tables.activityLogs = s.tables.activityLogs := by
      refine (hw.same s.integrity .activityLog).resolve_right fun hmem => ?_
      cases k <;> simp [Kind.entities] at hmem
      exact hk
    have husers : s'.tables.users = s.tables.users := by
      refine hw.users ?_ s.integrity
      cases k <;> first | exact trivial | exact hk.elim
    exact .of_eq hlog husers

namespace ActivityLogService

theorem unlogged_log (action metadata : JsVal) : (log action metadata).Each Unlogged := by
  unfold log
  split
  · exact trivial
  · exact trivial
  · exact (Repository.each_insert Unlogged.refl fun _ _ e _ _ =>
      ⟨⟨[e], rfl⟩, List.Subset.refl _⟩).bind fun _ => trivial

end ActivityLogService

namespace UsersService

theorem unlogged_hash (password : JsVal) : (HashUtils.hash password).Each Unlogged := by
  unfold HashUtils.hash
  split
  · exact each_query Unlogged.refl
  · exact trivial

theorem unlogged_createAccount (dto : CreateAccountDto) : (AccountsService.create dto).Each Unlogged := by
  have hcreate : (AccountsService.create dto).Each (Writes [.newAccount]) :=
    AccountsService.each_create List.mem_cons_self
  exact hcreate.mono fun _ _ hw => hw.unlogged (by simp [Kind.Unlogged])

theorem unlogged_create (user : Json) : (create user).Each Unlogged := by
  have hfind : ∀ (id : String) (p : JsVal), (do
      let created ← findOne id
      return (created, p) : Svc (Option (Users × List Account) × JsVal)).Each Unlogged :=
    fun _ _ => (each_query Unlogged.refl).bind fun _ => trivial
  unfold create
  dsimp only
  split
  · refine (Repository.each_findRow Unlogged.refl).bind fun role => ?_
    refine (each_query Unlogged.refl).bind fun draws => (unlogged_hash _).bind fun password => ?_
    cases role with
    | none => exact trivial
    | some role =>
      refine (Repository.each_insert Unlogged.refl fun _ _ _ _ _ =>
        ⟨⟨[], List.append_nil _⟩, List.subset_append_left _ _⟩).bind fun id => ?_
      refine (ActivityLogService.unlogged_log _ _).bind fun _ => ?_
      split
      · refine (each_query Unlogged.refl).bind fun _ => (unlogged_createAccount _).bind fun _ => ?_
        exact (ActivityLogService.unlogged_log _ _).bind fun _ => hfind id _
      · exact hfind id _
  · exact trivial

end UsersService

/-! ## Code that makes its entry first -/

/-- A statement that is committed makes the note. -/
theorem ahead_statement_bind {α β τ : Type} {F : τ → Server → Prop} {R : Server → Server → Prop}
    {S : τ → Server → Server → Prop} {f : Ext → Server → Except Rejection (α × Tables)} {g : α → Svc β}
    (hstep : (statement f).Each R)
    (hnote : ∀ x s a t, f x s = .ok (a, t) → ∀ h : t.Integrity,
      ∃ i, F i (s.commit t h) ∧ (g a).Each (S i)) : (statement f >>= g).Ahead F R S := by
  refine Prog.ahead_op_bind (fun x s => (hstep x s).1) fun x s a ha => ?_
  split at ha
  · cases ha
  · rename_i b t hf
    split at ha
    · rename_i h
      cases ha
      obtain ⟨i, hF, hS⟩ := hnote x s a t hf h
      exact .inr ⟨i, by simp only [dif_pos h]; exact hF, hS⟩
    · cases ha

/-- The entry is made first, and what follows keeps to it. -/
theorem ActivityLogService.ahead_log_bind {α : Type} {i : Actions × Json} {f : Svc α}
    (hf : f.Each (KeepsTo i)) :
    (log (some (.str i.1.text)) (some i.2) >>= fun _ => f).Ahead Tells Unlogged KeepsTo := by
  unfold log
  dsimp only
  rw [bind_assoc]
  refine ahead_statement_bind (Repository.each_insert Unlogged.refl fun _ _ e _ _ =>
    ⟨⟨[e], rfl⟩, List.Subset.refl _⟩) fun x s k t hinsert h => ⟨i, ?_, hf⟩
  split at hinsert
  · cases hinsert
  · rename_i e he
    cases hinsert
    refine ⟨e, List.mem_append_right _ List.mem_cons_self, ?_⟩
    split at he
    · cases he
    · cases he
    · rename_i hmetadata
      cases he
      exact ⟨rfl, (Option.some.inj hmetadata).symm⟩

namespace UsersService

theorem ahead_remove (id : String) : (remove id).Ahead Tells Unlogged KeepsTo := by
  unfold remove
  refine (each_query Unlogged.refl).bind_ahead fun devices => ?_
  refine ActivityLogService.ahead_log_bind (i := (.DELETE_USER, .obj [("id", .str id)])) ?_
  refine (Prog.Each.forM (fun device => Prog.Each.detach ?_) _).bind fun _ => ?_
  · cases device with
    | none => exact trivial
    | some d =>
      have hset : (do
          let _ ← emulatorRepository.set (some (.str d)) fun _ e => { e with state := .AVAILABLE } :
          Svc Unit).Each (Writes [.state]) := EmulatorService.each_setState List.mem_cons_self
      exact hset.mono fun _ _ hw => (hw.unlogged (by simp [Kind.Unlogged])).keepsTo
  · refine Repository.each_deleteById (fun s => Unlogged.keepsTo (.refl s)) fun s hi => ⟨?_, fun u hu => ?_⟩
    · exact ⟨[], List.append_nil _⟩
    · by_cases hid : u.id = id
      · refine .inr (.inl ⟨by rw [hid], fun v hv => ?_⟩)
        have hv := (List.mem_filter.1 ((Tables.cascade_subset _).1 hv)).2
        rw [hid]
        exact of_decide_eq_false (Bool.not_eq_true' _ ▸ hv)
      · have hkept : (!decide (u.id = id)) = true := by rw [decide_eq_false hid]; rfl
        exact .inl (List.mem_filter.2 ⟨List.mem_filter.2 ⟨hu, hkept⟩, s.integrity.role u hu⟩)

/-- The entry of an update holds the columns that are given. -/
theorem get?_given (password name email : JsVal) :
    let given := Json.obj ([("password", password), ("name", name), ("email", email)].filterMap fun p =>
      p.2.map fun v => (p.1, v))
    given.get? "password" = password ∧ given.get? "name" = name ∧ given.get? "email" = email := by
  cases password <;> cases name <;> cases email <;> exact ⟨rfl, rfl, rfl⟩

/-- A column is set to what the entry holds of it, if it holds anything. -/
theorem tracked {metadata : Json} {column : String} {v : JsVal} (h : metadata.get? column = v) (old : String) :
    Tracked metadata column old ((v.bind Json.bound).getD old) := by
  unfold Tracked
  rw [h]
  show _ ∨ v.bind Json.bound = _
  cases v.bind Json.bound with
  | none => exact .inl rfl
  | some new => exact .inr rfl

theorem ahead_writeUpdate (id : String) (user : Json) (password : Option String) :
    (writeUpdate id user password).Ahead Tells Unlogged KeepsTo := by
  refine ActivityLogService.ahead_log_bind (i := (.UPDATE_USER, _)) ?_
  refine (Repository.each_update (fun s => Unlogged.keepsTo (.refl s)) (fun x s f hf hi => ?_)
    fun _ hi => Unlogged.keepsTo (.of_eq rfl rfl)).bind fun _ => trivial
  cases hf
  refine ⟨⟨[], List.append_nil _⟩, fun u hu => ?_⟩
  by_cases hid : u.id = id
  · obtain ⟨hpassword, hname, hemail⟩ := get?_given (password.map .str)
      ((user.get? "name").filter Json.truthy) ((user.get? "email").filter Json.truthy)
    refine .inr (.inr ⟨rfl, _, mem_updateWhere.2 (.inl ⟨u, hu, selected_str.2 hid, rfl⟩), rfl, rfl,
      tracked hname u.name, tracked hemail u.email, ?_⟩)
    have hbound : (password.map Json.str).bind Json.bound = password := by cases password <;> rfl
    have htracked := tracked hpassword u.password
    rw [hbound] at htracked
    exact htracked
  · refine .inl (mem_updateWhere.2 (.inr ⟨hu, ?_⟩))
    exact Bool.eq_false_iff.2 fun hsel => hid (selected_str.1 hsel)

theorem ahead_update (id : String) (user : Json) : (update id user).Ahead Tells Unlogged KeepsTo := by
  rcases update_cases id user with ⟨e, h⟩ | h
  · rw [h]
    exact trivial
  · rw [h]
    exact (each_hashGiven Unlogged.refl user).bind_ahead (ahead_writeUpdate id user)

end UsersService

/-! ## Events -/

/-- The other requests make no entry that something has to wait for. -/
theorem HttpRequest.unlogged_kinds {req : HttpRequest} (h : ∀ k ∈ req.kinds, k.Unlogged) (user : JwtToken) :
    (req.run user).Ahead Tells Unlogged KeepsTo :=
  ((HttpRequest.each_run req user).mono fun _ _ => Writes.unlogged h).ahead

theorem HttpRequest.ahead_run {req : HttpRequest} {user : JwtToken} (hadmits : req.admits user = true)
    (hlog : ¬ (Event.http user req).EditsLog) : (req.run user).Ahead Tells Unlogged KeepsTo := by
  cases req with
  | users_create dto =>
    exact Prog.Each.ahead (each_reading ((UsersService.unlogged_create _).bind fun _ => trivial))
  | users_update id dto =>
    exact (UsersService.ahead_update id dto).bind (fun _ => trivial) fun _ _ => trivial
  | users_delete id => exact (UsersService.ahead_remove id).bind (fun _ => trivial) fun _ _ => trivial
  | activityLogs_create dto =>
    exact Prog.Each.ahead (each_reading ((ActivityLogService.unlogged_log _ _).bind fun _ => trivial))
  | activityLogs_update id dto => exact absurd hadmits hlog
  | activityLogs_delete id => exact absurd hadmits hlog
  | _ => exact unlogged_kinds (by simp [kinds, Kind.Unlogged]) user

namespace Event

theorem unlogged_prog {e : Event} (he : ∀ user req, e ≠ .http user req) : e.prog.Each Unlogged := by
  refine e.each_prog.mono fun _ _ => Writes.unlogged ?_
  cases e with
  | http user req => exact absurd rfl (he user req)
  | message client user event body =>
    cases event <;> simp [kinds, SignalingServerGateway.Event.kinds, Kind.Unlogged]
  | disconnect client => simp [kinds, Kind.Unlogged]
  | login dto => simp [kinds, Kind.Unlogged]

/-- An event makes its entry first. -/
theorem ahead_start {e : Event} (hlog : ¬ e.EditsLog) (x : Ext) (s : Server) :
    Unlogged s (e.start x s).1 ∧ (e.start x s).2.Ahead Tells Unlogged KeepsTo := by
  by_cases hreq : ∃ user req, e = .http user req
  · obtain ⟨user, req, rfl⟩ := hreq
    have hprog : (http user req).prog.Ahead Tells Unlogged KeepsTo := by
      refine Prog.Ahead.bind ?_ (fun _ => trivial) fun _ _ => trivial
      cases hadmits : req.admits user with
      | true =>
        rw [HttpRequest.handle_of_admits hadmits]
        exact HttpRequest.ahead_run hadmits hlog
      | false =>
        rw [HttpRequest.handle_of_not_admits hadmits]
        exact trivial
    have hstart : (http user req).start x s = (s, (http user req).prog.toTask) := by
      unfold start
      split
      · rename_i hatOnce
        cases hatOnce
      · rfl
    rw [hstart]
    exact ⟨.refl s, hprog.toTask⟩
  · have heach := unlogged_prog fun user req h => hreq ⟨user, req, h⟩
    obtain ⟨hs, htask⟩ := Event.each_start Unlogged.refl heach x s
    exact ⟨hs, htask.ahead⟩

end Event

/-- **Written ahead.** However the threads of all events take turns, as long as
nobody edits the log, entries are only added to it, and a move changes or
deletes a user only if the log has an entry that says so. -/
theorem written_ahead {w₀ w : Gateway} {steps : List (Gateway × Live.Move Event Ext Server Rejection × Gateway)}
    (hstart : w₀.threads = []) (hrun : Trace (Live.Step serving) w₀ steps w)
    (hlog : ∀ x ∈ steps, ∀ e, x.2.1.event? = some e → ¬ e.EditsLog) :
    ∀ x ∈ steps, LogGrows x.1.state x.2.2.state ∧ ∀ u ∈ x.1.state.tables.users,
      u ∈ x.2.2.state.tables.users ∨ ∃ i, Tells i x.1.state ∧ Told i u x.2.2.state := by
  have hgrows : ∀ s s', Unlogged s s' ∨ (∃ i, KeepsTo i s s') → LogGrows s s' := by
    rintro s s' (h | ⟨i, h⟩)
    · exact h.log
    · exact h.log
  have haside : ∀ (_ : Event) i s s', serving.aside s s' → Tells i s → Tells i s' := fun _ _ _ _ h => h.elim
  have hnoted := Live.noted_run (C := fun e => ¬ e.EditsLog) (F := fun _ => Tells) (R := fun _ => Unlogged)
    (S := fun _ => KeepsTo) (fun e x s he => Event.ahead_start he x s)
    (fun _ _ _ s s' _ hstep hF => hF.grows (hgrows s s' hstep)) haside hrun hstart hlog
  intro x hx
  obtain ⟨e, he⟩ := exists_author hrun x hx
  rcases (hnoted x hx e he).2 with h | ⟨i, hF, h⟩
  · exact ⟨h.log, fun u hu => .inl (h.users hu)⟩
  · exact ⟨h.log, fun u hu => (h.users u hu).imp_right fun htold => ⟨i, hF, htold⟩⟩

/-- One user is deleted while another one is renamed. -/
def Sample.deleteAndRename : List (Live.Choice Event Ext) :=
  [.arrive (.http superAdmin (.users_delete "u")) (input ""),
    .arrive (.http superAdmin (.users_update "v" (.obj [("name", .str "W")]))) (input ""),
    .turn 0 (input ""), .turn 1 (input "l1"), .turn 0 (input "l2"), .turn 1 (input ""), .turn 0 (input "")]

theorem written_ahead_sample : ∃ steps w, Trace (Live.Step serving) Sample.idle steps w ∧
    w.state.tables.users.map Users.name = ["W"] ∧
    w.state.tables.activityLogs.map ActivityLog.action = ["UPDATE_USER", "DELETE_USER"] ∧
    ∀ x ∈ steps, LogGrows x.1.state x.2.2.state ∧ ∀ u ∈ x.1.state.tables.users,
      u ∈ x.2.2.state.tables.users ∨ ∃ i, Tells i x.1.state ∧ Told i u x.2.2.state := by
  have hplay : (Live.play serving (fun _ _ => true) Sample.deleteAndRename Sample.idle).any (fun w =>
      decide (w.state.tables.users.map Users.name = ["W"] ∧
        w.state.tables.activityLogs.map ActivityLog.action = ["UPDATE_USER", "DELETE_USER"])) = true := by
    decide +kernel
  obtain ⟨w, hw, hboth⟩ := (Option.any_eq_true _ _).1 hplay
  obtain ⟨hnames, hactions⟩ := of_decide_eq_true hboth
  obtain ⟨steps, hrun, hevents, -⟩ := Live.trace_of_play .nil hw
  refine ⟨steps, w, hrun, hnames, hactions, written_ahead rfl hrun fun x hx e he => ?_⟩
  have hmem : e ∈ Sample.deleteAndRename.filterMap Live.Choice.event? :=
    hevents ▸ List.mem_filterMap.2 ⟨x, hx, he⟩
  rcases List.mem_cons.1 hmem with rfl | hmem
  · exact not_false
  · rw [List.mem_singleton.1 hmem]
    exact not_false

end Damaru
