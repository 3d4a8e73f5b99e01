import Damaru.System
import Damaru.Verify.Outcomes
import Damaru.Verify.ServiceWrites

/-!
# The writes of each event
-/

namespace Damaru

open Async Table

namespace HttpRequest

/-- The kinds of statements that a request issues once it is admitted. -/
def kinds : HttpRequest → List Kind
  | users_create _ => [.activityLogs, .newUser, .newAccount]
  | users_update _ _ => [.activityLogs, .userFields]
  | users_delete _ => [.activityLogs, .state, .deleteUser]
  | accounts_create _ => [.newAccount]
  | accounts_update _ _ => [.accountFields]
  | accounts_delete _ => [.deleteAccount]
  | emulators_create _ => [.newEmulator]
  | emulators_uploadFile _ _ => [.saveEmulator]
  | emulators_update _ emulator => [.columns emulator]
  | emulators_delete _ => [.deleteEmulator]
  | emulators_linkEmulator _ => [.newLink, .assignments, .state]
  | emulators_unlinkEmulator _ => [.endLink, .assignments, .state]
  | emulators_extendExpiry _ => [.expiry]
  | emulators_assignEmulator _ => [.assignments]
  | emulators_assignEmulatorsToAccount _ => [.assignments]
  | emulators_unAssignEmulatorsToAccount _ => [.assignments]
  | emulators_unAssignEmulatorFromAccounts _ => [.assignments]
  | activityLogs_create _ => [.activityLogs]
  | activityLogs_update _ _ => [.activityLogs]
  | activityLogs_delete _ => [.activityLogs]
  | users_findAll => []
  | accounts_findAll => []
  | accounts_findOne _ => []
  | emulators_findAll => []
  | emulators_findLinkAccounts _ => []
  | emulators_connectionLog _ _ => []
  | emulators_restartEmulator _ => [.emissions]
  | activityLogs_findAll => []
  | auth_check => []

theorem each_reading {R : Server → Server → Prop} {property : String} {body : Json}
    {k : Svc DamaruResponse} (h : k.Each R) : (reading property body k).Each R := by
  unfold reading
  split
  · exact trivial
  · exact h

/-- An admitted request runs as if there were no guard. -/
theorem handle_of_admits {req : HttpRequest} {user : JwtToken} (h : req.admits user = true) :
    req.handle user = req.run user := by
  unfold handle
  unfold admits at h
  cases hg : req.guard with
  | none => rfl
  | some g =>
    rw [hg] at h
    have hauth : g.isAuthorized user = true := h
    have hpass : g.authorized .http user = pure () := if_pos hauth
    simp only [hpass, pure_bind]

/-- A request that is not admitted does nothing. -/
theorem handle_of_not_admits {req : HttpRequest} {user : JwtToken} (h : req.admits user = false) :
    req.handle user = throw (.http .UNAUTHORIZED "You are not authorized") := by
  unfold handle
  unfold admits at h
  cases hg : req.guard with
  | none => rw [hg] at h; cases h
  | some g =>
    rw [hg] at h
    have hauth : g.isAuthorized user = false := h
    have hstop : g.authorized .http user =
        throw (.http .UNAUTHORIZED "You are not authorized") :=
      if_neg (by rw [hauth]; exact Bool.false_ne_true)
    simp only [hstop]
    rfl

theorem each_run (req : HttpRequest) (user : JwtToken) : (req.run user).Each (Writes req.kinds) := by
  cases req with
  | users_findAll => exact UsersService.each_findAll.bind fun _ => trivial
  | users_create dto =>
    refine each_reading ((UsersService.each_create ?_ ?_ ?_).bind fun _ => trivial) <;> simp [kinds]
  | users_update id dto =>
    exact (UsersService.each_update (by simp [kinds]) (by simp [kinds])).bind fun _ => trivial
  | users_delete id =>
    exact (UsersService.each_remove (by simp [kinds]) (by simp [kinds]) (by simp [kinds])).bind
      fun _ => trivial
  | accounts_findAll => exact AccountsService.each_findAll.bind fun _ => trivial
  | accounts_findOne id => exact AccountsService.each_findOne.bind fun _ => trivial
  | accounts_create dto => exact (AccountsService.each_create (by simp [kinds])).bind fun _ => trivial
  | accounts_update id dto =>
    exact (AccountsService.each_update (by simp [kinds])).bind fun _ => trivial
  | accounts_delete id => exact (AccountsService.each_remove (by simp [kinds])).bind fun _ => trivial
  | emulators_findAll => exact EmulatorService.each_findAll.bind fun _ => trivial
  | emulators_findLinkAccounts d =>
    exact EmulatorService.each_findLinkedDevices.bind fun _ => trivial
  | emulators_create dto =>
    refine (EmulatorService.each_create (by simp [kinds])).bind fun added => ?_
    split <;> exact trivial
  | emulators_uploadFile d file =>
    refine (EmulatorService.each_linkScreenshot (by simp [kinds])).bind fun _ => ?_
    cases file <;> exact trivial
  | emulators_update id dto =>
    refine (EmulatorService.each_update (by simp [kinds])).bind fun updated => ?_
    split <;> exact trivial
  | emulators_delete id => exact (EmulatorService.each_remove (by simp [kinds])).bind fun _ => trivial
  | emulators_linkEmulator dto =>
    exact each_reading ((EmulatorService.each_linkEmulator (by simp [kinds]) (by simp [kinds])
      (by simp [kinds])).bind fun _ => trivial)
  | emulators_unlinkEmulator dto =>
    exact each_reading ((EmulatorService.each_unlinkEmulator (by simp [kinds]) (by simp [kinds])
      (by simp [kinds])).bind fun _ => trivial)
  | emulators_extendExpiry dto =>
    exact each_reading ((EmulatorService.each_extend (by simp [kinds])).bind fun _ => trivial)
  | emulators_connectionLog a d => exact EmulatorService.each_connectionLog.bind fun _ => trivial
  | emulators_assignEmulator dto =>
    exact each_reading ((EmulatorService.each_assignEmulator (by simp [kinds])).bind fun _ => trivial)
  | emulators_assignEmulatorsToAccount dto =>
    exact each_reading ((EmulatorService.each_assignEmulatorsToAccount (by simp [kinds])).bind
      fun _ => trivial)
  | emulators_unAssignEmulatorsToAccount dto =>
    exact each_reading ((EmulatorService.each_unassignEmulatorsToAccount (by simp [kinds])).bind
      fun _ => trivial)
  | emulators_restartEmulator d =>
    exact (EmulatorService.each_restartConnection (by simp [kinds])).bind fun _ => trivial
  | emulators_unAssignEmulatorFromAccounts dto =>
    exact each_reading ((EmulatorService.each_unassignEmulatorFromAccounts (by simp [kinds])).bind
      fun _ => trivial)
  | activityLogs_findAll =>
    exact (Repository.each_find (Writes.refl _)).bind fun _ => trivial
  | activityLogs_create dto =>
    exact each_reading ((ActivityLogService.each_log (by simp [kinds])).bind fun _ => trivial)
  | activityLogs_update id dto =>
    exact (ActivityLogService.each_update (by simp [kinds])).bind fun _ => trivial
  | activityLogs_delete id =>
    exact (ActivityLogService.each_remove (by simp [kinds])).bind fun _ => trivial
  | auth_check => exact trivial

end HttpRequest

namespace SignalingServerGateway

theorem emit_tables (socket : Option Socket) (event : String) (payload : List (String × JsVal))
    (s : Server) : (emit socket event payload s).tables = s.tables := by
  cases socket <;> rfl

theorem emit_connections (socket : Option Socket) (event : String)
    (payload : List (String × JsVal)) (s : Server) :
    (emit socket event payload s).connections = s.connections := by
  cases socket <;> rfl

theorem emit_emitted (socket : Option Socket) (event : String) (payload : List (String × JsVal))
    (s : Server) : (emit socket event payload s).emitted =
      s.emitted ++ socket.toList.map fun k => ⟨.socket k, event, payload⟩ := by
  cases socket with
  | none => exact (List.append_nil _).symm
  | some k => rfl

/-- The kinds of statements, and of effects on the sockets, of each event. -/
def Event.kinds : Event → List Kind
  | StartStreaming => [.sockets, .columns (.obj [("status", .str EmulatorStatus.online.text)])]
  | Offer => [.sockets, .emissions]
  | Answer => [.emissions]
  | IceCandidate => [.emissions]
  | Disconnect => [.emissions]
  | Connect => [.connections]

/-- Emitting on the socket of a key. -/
theorem each_emit {ks : List Kind} (h : Kind.emissions ∈ ks) {key : JsVal} {event : String}
    {payload : List (String × JsVal)} :
    (sync fun s => (.ok (), emit (get s.connections key) event payload s) : Svc Unit).Each
      (Writes ks) :=
  each_sync fun _ => ⟨.inl (emit_tables _ _ _ _), .inl (emit_connections _ _ _ _), _,
    emit_emitted _ _ _ _, .inr h⟩

theorem each_run (client : Socket) (user : JwtToken) (body : Json) (event : Event) :
    (run client user body event).Each (Writes event.kinds) := by
  cases event with
  | StartStreaming =>
    show (handleStartStreaming client (body.get? "deviceId")).Each _
    unfold handleStartStreaming
    split
    · refine (each_sync fun _ => ⟨.inl rfl, .inr ?_, [],
        (List.append_nil _).symm, .inl rfl⟩).bind fun _ =>
        (EmulatorService.each_update ?_).bind fun _ => trivial
      · simp [Event.kinds]
      · simp [Event.kinds]
    · exact trivial
  | Offer =>
    refine each_sync fun s => ?_
    dsimp only
    split
    · exact .refl _ s
    · exact ⟨.inl (emit_tables _ _ _ _), .inr (by simp [Event.kinds]), _, emit_emitted _ _ _ _,
        .inr (by simp [Event.kinds])⟩
  | Answer =>
    show (handleAnswer (body.get? "clientId") (body.get? "sdp")).Each _
    unfold handleAnswer
    split
    · exact each_emit (by simp [Event.kinds])
    · exact trivial
  | IceCandidate => exact each_emit (by simp [Event.kinds])
  | Disconnect => exact each_emit (by simp [Event.kinds])
  | Connect => exact EmulatorService.each_connectEmulator (by simp [Event.kinds])

end SignalingServerGateway

namespace AuthService

/-- A login satisfies in each step what an idle step and the recording of the
date of the login satisfy. -/
theorem each_validateUser_of {R : Server → Server → Prop} (hrefl : ∀ s, R s s)
    (hset : ∀ account : Account, (accountRepository.set (some (.str account.id)) fun x a =>
      { a with last_login := some x.now }).Each R) (loginDto : Json) : (validateUser loginDto).Each R := by
  unfold validateUser
  dsimp only
  split
  · exact trivial
  · refine (each_query hrefl).bind fun user => ?_
    refine Prog.Each.bind ?_ fun valid => ?_
    · unfold passwordMatches HashUtils.compareHash
      split
      · exact trivial
      · split
        · split
          · exact each_query hrefl
          · exact trivial
        · exact trivial
    · split
      · split
        · split
          · split
            · refine (Prog.each_ofExcept _).bind fun matching => ?_
              refine (Prog.Each.forM (fun account => Prog.Each.detach ?_) _).bind fun _ => ?_
              · exact (hset account).bind fun _ => trivial
              · split
                · exact trivial
                · split <;> exact trivial
            · exact trivial
          · exact trivial
        · exact trivial
      · exact trivial

theorem each_validateUser {ks : List Kind} {loginDto : Json} (h : Kind.accountFields ∈ ks) :
    (validateUser loginDto).Each (Writes ks) := by
  refine each_validateUser_of (Writes.refl ks) (fun account => ?_) loginDto
  refine Repository.each_update (Writes.refl ks) (fun x s f hf hi => ?_) fun _ hi => .kept hi
  cases hf
  exact .commit h hi (.accountFields _ _ fun _ => ⟨rfl, rfl, rfl⟩)

end AuthService

namespace Event

/-- The kinds of statements that handling an event issues. -/
def kinds : Event → List Kind
  | http user req => if req.admits user then req.kinds else []
  | message _ _ event _ => event.kinds
  | disconnect _ => [.emulatorFields, .connections, .emissions]
  | login _ => [.accountFields]

/-- Whether admitted or not, a request issues statements of its kinds only. -/
theorem kinds_http {user : JwtToken} {req : HttpRequest} {k : Kind}
    (hk : k ∈ (http user req).kinds) : req.admits user = true ∧ k ∈ req.kinds := by
  have heq : (http user req).kinds = if req.admits user then req.kinds else [] := rfl
  rw [heq] at hk
  split at hk
  · rename_i hadmits
    exact ⟨hadmits, hk⟩
  · exact (List.not_mem_nil hk).elim

theorem each_prog (e : Event) : e.prog.Each (Writes e.kinds) := by
  cases e with
  | http user req =>
    refine Prog.Each.bind ?_ fun _ => trivial
    cases h : req.admits user with
    | true =>
      rw [HttpRequest.handle_of_admits h]
      refine (HttpRequest.each_run req user).mono fun s t => Writes.mono ?_
      rw [kinds, if_pos h]
      exact List.Subset.refl _
    | false =>
      rw [HttpRequest.handle_of_not_admits h]
      exact trivial
  | message client user event body =>
    refine Prog.Each.bind ?_ fun _ => ?_
    · unfold Guard.authorized
      split
      · exact trivial
      · split <;> exact trivial
    · dsimp only
      split
      · exact trivial
      · exact SignalingServerGateway.each_run client user body event
  | disconnect client =>
    refine (each_query (Writes.refl _)).bind fun registered => ?_
    exact Prog.Each.forM (fun _ => (EmulatorService.each_disconnectEmulator (by simp [kinds])
      (by simp [kinds]) (by simp [kinds])).detach) _
  | login dto => exact (AuthService.each_validateUser (by simp [kinds])).bind fun _ => trivial

/-- What the kinds of writes of an event respect, a step respects. -/
theorem respects {R : Tables → Tables → Prop} {e : Event} (hrefl : ∀ t, R t t)
    (htrans : ∀ a b c, R a b → R b c → R a c)
    (hkinds : ∀ k ∈ e.kinds, ∀ t t', t.Integrity → t'.Integrity → Write t k t' → R t t')
    {s s' : Server} (h : Step s e s') : R s.tables s'.tables := by
  have heach : e.prog.Each fun s s' => R s.tables s'.tables := by
    refine e.each_prog.mono fun s s' hw => ?_
    rcases hw.tables with hw | ⟨k, hk, hw⟩
    · rw [hw]
      exact hrefl _
    · exact hkinds k hk _ _ s.integrity s'.integrity hw
  exact h.each (R := fun s s' => R s.tables s'.tables) (fun s => hrefl s.tables)
    (fun _ _ _ => htrans _ _ _) heach

end Event

/-- A step by an admitted request that forks nothing is a run of it alone. -/
theorem Step.of_post {user : JwtToken} {req : HttpRequest} {s s' : Server} {I : Server → Prop}
    (h : Step s (.http user req) s') (hadmits : req.admits user = true)
    (hfree : (req.run user).ForkFree) (hpost : (req.run user).Post s fun _ => I) : I s' := by
  have hprog : (Event.http user req).prog = req.run user >>= fun _ => pure () := by
    show (req.handle user >>= fun _ => pure ()) = _
    rw [HttpRequest.handle_of_admits hadmits]
  unfold Step at h
  rw [hprog] at h
  have hend := (hpost.andThen fun _ => ⟨.ok (), rfl⟩ : (req.run user >>= fun _ => pure ()).Post s
    fun _ => I)
  refine Prog.Post.settles (I := I) ?_ (hfree.bind fun _ => Prog.forkFree_pure) h
  exact hend.mono fun _ _ hi _ => hi

theorem Step.of_ends {user : JwtToken} {req : HttpRequest} {s s' : Server}
    {r : Except Rejection DamaruResponse} (hadmits : req.admits user = true)
    (h : (req.run user).Ends s r s') : Step s (.http user req) s' := by
  rw [← HttpRequest.handle_of_admits hadmits] at h
  cases r with
  | ok a => exact Pool.Settles.of_ends (Prog.ends_bind.2 (.inr ⟨a, s', h, .pure () s'⟩)) fun _ _ => trivial
  | error e => exact Pool.Settles.of_ends (Prog.ends_bind.2 (.inl ⟨e, rfl, h⟩)) fun _ _ => trivial

/-- A request that is not admitted changes nothing. -/
theorem Step.of_not_admits {user : JwtToken} {req : HttpRequest} {s s' : Server}
    (h : Step s (.http user req) s') (hadmits : req.admits user = false) : s'.tables = s.tables := by
  refine Event.respects (R := fun t t' => t' = t) (fun _ => rfl) (fun _ _ _ h h' => h'.trans h) ?_ h
  intro k hk
  rw [(Event.kinds_http hk).1] at hadmits
  cases hadmits

namespace HttpRequest

theorem forkFree_reading {property : String} {body : Json} {k : Svc DamaruResponse}
    (h : k.ForkFree) : (reading property body k).ForkFree := by
  unfold reading
  split
  · exact trivial
  · exact h

/-- A body that has the properties read from it is not null. -/
theorem reading_post {property : String} {body : Json} {k : Svc DamaruResponse} {s : Server}
    {Q : Except Rejection DamaruResponse → Server → Prop} (hnull : ∀ e, Q (.error e) s)
    (h : k.Post s Q) : (reading property body k).Post s Q := by
  unfold reading
  split
  · exact .throw (hnull _)
  · exact h

end HttpRequest

end Damaru
