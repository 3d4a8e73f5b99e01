import Damaru.Verify.Attribution
import Damaru.Verify.TimelessDevices

/-!
# What the clock decides

Nothing but the dates that are stored and shown: all messages and all requests but
one do the same at any two times, on servers that are the same but for dates,
however their threads take turns. No link expires. The request that is left out is
the extension of a link, which fails when the new date is one that a date cannot
hold.
-/

namespace Damaru

open Async Table

/-! ## Messages -/

namespace SignalingServerGateway

theorem timeless_run (client : Socket) (user : JwtToken) (body : Json) (event : Event) :
    Svc.Timeless (run client user body event) (run client user body event) := by
  have hemit : ∀ (s s' : Server) (socket : Option Socket) (name : String) (payload : List (String × JsVal)),
      s.SameButDates s' → (emit socket name payload s).SameButDates (emit socket name payload s') := by
    intro s s' socket name payload hs
    cases socket with
    | none => exact hs
    | some socket =>
      exact ⟨hs.platform, hs.tables, hs.issued, hs.connections, congrArg (fun l => l ++ _) hs.emitted⟩
  cases event with
  | StartStreaming =>
    show Svc.Timeless (handleStartStreaming client _) (handleStartStreaming client _)
    unfold handleStartStreaming
    split
    · refine timeless_bind (timeless_sync fun s s' hs => ⟨rfl, hs.platform, hs.tables, hs.issued, ?_, hs.emitted⟩)
        fun _ => timeless_drop (EmulatorService.timeless_update _ _ _)
      exact congrArg (fun l => set l _ client) hs.connections
    · exact .pure rfl
  | Offer =>
    refine timeless_sync fun s s' hs => ?_
    rw [hs.connections]
    split
    · exact ⟨rfl, hs⟩
    · dsimp only
      exact ⟨rfl, hemit _ _ _ _ _ ⟨hs.platform, hs.tables, hs.issued, rfl, hs.emitted⟩⟩
  | Answer =>
    show Svc.Timeless (handleAnswer _ _) (handleAnswer _ _)
    unfold handleAnswer
    split
    · refine timeless_sync fun s s' hs => ?_
      rw [hs.connections]
      exact ⟨rfl, hemit _ _ _ _ _ hs⟩
    · exact .pure rfl
  | IceCandidate =>
    refine timeless_sync fun s s' hs => ?_
    rw [hs.connections]
    exact ⟨rfl, hemit _ _ _ _ _ hs⟩
  | Disconnect =>
    refine timeless_sync fun s s' hs => ?_
    rw [hs.connections]
    exact ⟨rfl, hemit _ _ _ _ _ hs⟩
  | Connect => exact EmulatorService.timeless_connectEmulator _ _

theorem timeless_handleDisconnect (client : Socket) :
    Svc.Timeless (handleDisconnect client) (handleDisconnect client) := by
  unfold handleDisconnect
  refine Prog.Related.bind (timeless_query (e := fun a => a) fun x now s s' hs => ?_) fun keys keys' h => ?_
  · rw [hs.connections]
  · obtain rfl : keys = keys' := h
    refine Prog.Related.mono (.forM (P := Eq) (List.forall₂_same.2 fun _ _ => rfl) fun k k' hk => ?_)
      fun _ _ _ => rfl
    rw [hk]
    exact (EmulatorService.timeless_disconnectEmulator k').detach

end SignalingServerGateway

/-! ## Requests -/

theorem timeless_authorized (g : Guard) (type : ContextType) (user : JwtToken) :
    Svc.Timeless (g.authorized type user) (g.authorized type user) := by
  unfold Guard.authorized
  split
  · exact .pure rfl
  · split <;> exact .throw _

/-- The data of a response with its dates blanked. The entries of the log of
connections are blanked too, since their texts hold durations. -/
def Data.timeless : Data → Data
  | user u password => user (u.map UsersService.timeless) password
  | accounts l => accounts (l.map Account.timeless)
  | devices l => devices (l.map AccountsService.DeviceItem.timeless)
  | emulators l => emulators (l.map EmulatorService.EmulatorItem.timeless)
  | connectionLog l => connectionLog (l.map fun o => (o.1.timeless, o.2.map fun _ => ⟨"", 0⟩))
  | activityLogs l => activityLogs (l.map ActivityLog.timeless)
  | d => d

def DamaruResponse.timeless (r : DamaruResponse) : DamaruResponse := { r with data := r.data.timeless }

namespace HttpRequest

theorem timeless_reading {property : String} {body : Json} {k : Svc DamaruResponse}
    (h : Svc.TimelessBy DamaruResponse.timeless k k) :
    Svc.TimelessBy DamaruResponse.timeless (reading property body k) (reading property body k) := by
  unfold reading
  split
  · exact .throw _
  · exact h

/-- A call after which something fixed is said. -/
theorem timeless_then {α : Type} {p : Svc α} (h : Svc.Timeless p p) {f : α → DamaruResponse} :
    Svc.TimelessBy DamaruResponse.timeless (do return f (← p)) (do return f (← p)) :=
  timeless_bind h fun _ => .pure rfl

theorem timeless_run {req : HttpRequest} (hreq : ∀ dto, req ≠ .emulators_extendExpiry dto) (user : JwtToken) :
    Svc.TimelessBy DamaruResponse.timeless (req.run user) (req.run user) := by
  cases req with
  | users_findAll => exact timeless_then UsersService.timeless_findAll
  | users_create dto =>
    refine timeless_reading ((UsersService.timeless_create _).bind fun o o' h => .pure ?_)
    obtain ⟨u, password⟩ := o
    obtain ⟨u', password'⟩ := o'
    obtain ⟨hu, hpassword⟩ := Prod.mk.inj h
    exact congrArg₂ (fun u p => DamaruResponse.mk (some "User has been created") (.user u p)) hu hpassword
  | users_update id dto => exact timeless_then (UsersService.timeless_update _ _)
  | users_delete id => exact timeless_then (UsersService.timeless_remove _)
  | accounts_findAll =>
    exact (AccountsService.timeless_findAll _).bind fun _ _ h =>
      .pure (congrArg (fun l => shown (.accounts l)) h)
  | accounts_findOne id =>
    exact (AccountsService.timeless_findOne _ _).bind fun _ _ h =>
      .pure (congrArg (fun l => shown (.devices l)) h)
  | accounts_create dto => exact timeless_then (AccountsService.timeless_create _)
  | accounts_update id dto => exact timeless_then (AccountsService.timeless_update _ _ _)
  | accounts_delete id => exact timeless_then (AccountsService.timeless_remove _ _)
  | emulators_findAll =>
    exact (EmulatorService.timeless_findAll _).bind fun _ _ h =>
      .pure (congrArg (fun l => shown (.emulators l)) h)
  | emulators_findLinkAccounts d => exact timeless_then (EmulatorService.timeless_findLinkedDevices _)
  | emulators_create dto =>
    refine timeless_bind (EmulatorService.timeless_create _) fun added => ?_
    split <;> exact .pure rfl
  | emulators_uploadFile d file =>
    refine timeless_bind (EmulatorService.timeless_linkScreenshot _) fun e => ?_
    cases file with
    | none => exact .throw _
    | some file => exact .pure rfl
  | emulators_update id dto =>
    refine timeless_bind (EmulatorService.timeless_update _ _ _) fun updated => ?_
    split <;> exact .pure rfl
  | emulators_delete id => exact timeless_then emulatorRepository.erases.deleteById
  | emulators_linkEmulator dto =>
    exact timeless_reading (timeless_then (timeless_forOf fun _ => EmulatorService.timeless_linkDevice _ _))
  | emulators_unlinkEmulator dto =>
    exact timeless_reading (timeless_then (timeless_forOf fun _ => EmulatorService.timeless_unlinkDevice _ _))
  | emulators_extendExpiry dto => exact absurd rfl (hreq dto)
  | emulators_connectionLog a d =>
    refine (EmulatorService.timeless_connectionLog _ _).bind fun l l' h => .pure ?_
    have hentries : ∀ l : List (EmulatorService.LoadedConnection × List EmulatorService.Template),
        (l.map fun o => (o.1.timeless, o.2.map fun _ => (⟨"", 0⟩ : EmulatorService.Template))) =
          (l.map fun o => (o.1.timeless, o.2.length)).map fun o => (o.1, List.replicate o.2 ⟨"", 0⟩) := by
      intro l
      rw [List.map_map]
      exact List.map_congr_left fun o _ => Prod.ext rfl List.map_const'
    show shown (.connectionLog _) = shown (.connectionLog _)
    rw [hentries, hentries, h]
  | emulators_assignEmulator dto =>
    exact timeless_reading (timeless_then (EmulatorService.timeless_assignEmulator _ _))
  | emulators_assignEmulatorsToAccount dto =>
    exact timeless_reading (timeless_then (EmulatorService.timeless_assignEmulatorsToAccount _ _))
  | emulators_unAssignEmulatorsToAccount dto =>
    exact timeless_reading (timeless_then (EmulatorService.timeless_unassignEmulatorsToAccount _ _))
  | emulators_restartEmulator d => exact timeless_then (EmulatorService.timeless_restartConnection _)
  | emulators_unAssignEmulatorFromAccounts dto =>
    exact timeless_reading (timeless_then (EmulatorService.timeless_unassignEmulatorFromAccounts _))
  | activityLogs_findAll =>
    exact ActivityLogService.timeless_findAll.bind fun _ _ h =>
      .pure (congrArg (fun l => shown (.activityLogs l)) h)
  | activityLogs_create dto =>
    exact timeless_reading (timeless_then (ActivityLogService.timeless_log _ _))
  | activityLogs_update id dto => exact timeless_then (ActivityLogService.timeless_update _ _)
  | activityLogs_delete id => exact timeless_then activityLogRepository.erases.deleteById
  | auth_check => exact .pure rfl

theorem timeless_handle {req : HttpRequest} (hreq : ∀ dto, req ≠ .emulators_extendExpiry dto)
    (user : JwtToken) : Svc.TimelessBy DamaruResponse.timeless (req.handle user) (req.handle user) := by
  unfold handle
  split
  · exact timeless_bind (timeless_authorized _ _ _) fun _ => timeless_run hreq user
  · exact timeless_run hreq user

/-- **At any time.** A request, unless it extends a link, is answered the same but
for dates, or rejected with the same error, at any two times and on any two servers
that are the same but for dates, and leaves two such servers. -/
theorem answered_at_any_time {req : HttpRequest} (hreq : ∀ dto, req ≠ .emulators_extendExpiry dto)
    (user : JwtToken) {xs xs' : List Ext} (hxs : List.Forall₂ Ext.SameButDate xs xs') {s s' : Server} (hs : s.SameButDates s') :
    Option.Rel (fun o o' => Answers (fun r r' => r.timeless = r'.timeless) o.1 o'.1 ∧
      o.2.SameButDates o'.2) ((req.handle user).run xs s) ((req.handle user).run xs' s') :=
  (timeless_handle hreq user).run hxs hs

end HttpRequest

/-! ## Everything at once -/

/-- A request to extend a link. -/
def Event.Extends : Event → Prop
  | http _ (.emulators_extendExpiry _) => True
  | _ => False

theorem Event.timeless_prog {e : Event} (he : ¬ e.Extends) : Svc.Timeless e.prog e.prog := by
  cases e with
  | http user req =>
    refine timeless_drop (HttpRequest.timeless_handle (fun dto hreq => he ?_) user)
    rw [hreq]
    exact trivial
  | message client user event body =>
    refine timeless_bind (timeless_authorized _ _ _) fun _ => ?_
    split
    · exact .throw _
    · exact SignalingServerGateway.timeless_run client user body event
  | disconnect client => exact SignalingServerGateway.timeless_handleDisconnect client
  | login dto => exact timeless_drop (AuthService.timeless_validateUser dto)

theorem serving_respects :
    Live.Respects serving (fun e => ¬ e.Extends) Ext.SameButDate Server.SameButDates := by
  have hstart : ∀ (e : Event) x x' s s', ¬ e.Extends → Ext.SameButDate x x' → Server.SameButDates s s' →
      (Event.start e x s).1.SameButDates (Event.start e x' s').1 ∧
        (Event.start e x s).2.Related Ext.SameButDate Server.SameButDates (Event.start e x' s').2 := by
    intro e x x' s s' he hx hs
    have htask := (Event.timeless_prog he).toTask
    unfold Event.start
    generalize e.prog.toTask = t at htask
    cases htask with
    | await hu hn =>
      cases e.atOnce with
      | true => exact ⟨hu x x' s s' hx hs, hn x x' s s' hx hs⟩
      | false => exact ⟨hs, .await hu hn⟩
    | done => exact ⟨hs, .done⟩
    | fail e₁ => exact ⟨hs, .fail e₁⟩
    | fork hc hr => exact ⟨hs, .fork hc hr⟩
  refine ⟨fun e x x' s s' he hx hs => (hstart e x x' s s' he hx hs).1,
    fun e x x' s s' he hx hs => (hstart e x x' s s' he hx hs).2, fun h s s' e hs => ?_⟩
  show History.next h s e = History.next h s' e
  have hregistration : SignalingServerGateway.registration s e = SignalingServerGateway.registration s' e := by
    unfold SignalingServerGateway.registration
    rw [hs.connections]
  unfold History.next
  rw [hregistration]

/-- **No date decides anything.** A run in which no link is extended, however its
threads take turns, is what some choices lead to; made at any other times, in a
state with any other dates, these lead to the same but for dates: the same events
have been handled and failed with the same errors, and the same rows are stored and
messages sent. -/
theorem dates_decide_nothing {w₀ w : Gateway}
    {steps : List (Gateway × Live.Move Event Ext Server Rejection × Gateway)}
    (hrun : Trace (Live.Step serving) w₀ steps w)
    (hevents : ∀ x ∈ steps, ∀ e, x.2.1.event? = some e → ¬ e.Extends) :
    ∃ cs, cs.length = steps.length ∧ Live.play serving (fun _ _ => true) cs w₀ = some w ∧
      ∀ w₀' cs', w₀.Related Ext.SameButDate Server.SameButDates w₀' →
        List.Forall₂ (Live.Choice.Related Ext.SameButDate) cs cs' →
        ∃ w', Live.play serving (fun _ _ => true) cs' w₀' = some w' ∧
          w.Related Ext.SameButDate Server.SameButDates w' := by
  obtain ⟨cs, hlength, hsame, hplay⟩ := Live.exists_play (fun _ _ h => h) hrun
  refine ⟨cs, hlength, hplay, fun w₀' cs' hw₀ hcs => ?_⟩
  have hboth := hw₀.play serving_respects hcs fun e he => by
    obtain ⟨x, hx, he⟩ := List.mem_filterMap.1 (hsame ▸ he)
    exact hevents x hx e he
  rw [hplay] at hboth
  generalize Live.play serving (fun _ _ => true) cs' w₀' = o at hboth ⊢
  cases hboth with
  | some h => exact ⟨_, rfl, h⟩

namespace Sample

/-- A connect to a device, while another one is linked. -/
def connectAndLink : List (Live.Choice Event Ext) :=
  [.arrive (.http superAdmin (.emulators_linkEmulator (linkBody "u" ["d"]))) (input ""),
    .arrive (.message ⟨"c"⟩ (androidAccount "v" "v-one") .Connect
      (.obj [("clientId", .str "v-one"), ("deviceId", .str "e")])) (input ""),
    .turn 1 (input ""), .turn 0 (input ""), .turn 0 (input "l1"), .turn 1 (input "c1"), .turn 0 (input "")]

theorem connectAndLink_extends {e : Event} (he : e ∈ connectAndLink.filterMap Live.Choice.event?) :
    ¬ e.Extends := by
  rcases List.mem_cons.1 he with rfl | he
  · exact not_false
  · rw [List.mem_singleton.1 he]
    exact not_false

/-- The link of the device has expired long ago. -/
def expired : Server where
  platform := platform
  db := ⟨{ tables with
    userEmulators := [⟨"link", some "v", some "e", -900000000, -1000000000, none⟩] }, by decide⟩
  issued := []
  connections := []
  emitted := []

theorem expired_same : server.SameButDates expired := ⟨rfl, rfl, rfl, rfl, rfl⟩

end Sample

/-- An account connects to a device by a link that has expired, while another device
is linked. -/
theorem dates_decide_nothing_sample : ∃ steps w, Trace (Live.Step serving) Sample.idle steps w ∧
    (w.state.tables.emulatorConnections.length = 1 ∧ w.state.tables.userEmulators.length = 2) ∧
    ∃ cs w', Live.play serving (fun _ _ => true) cs ⟨[], Sample.expired, ⟨[], []⟩⟩ = some w' ∧
      w.Related Ext.SameButDate Server.SameButDates w' := by
  have hplay : (Live.play serving (fun _ _ => true) Sample.connectAndLink Sample.idle).any (fun w =>
      decide (w.state.tables.emulatorConnections.length = 1 ∧
        w.state.tables.userEmulators.length = 2)) = true := by decide +kernel
  obtain ⟨w, hw, hconnected⟩ := (Option.any_eq_true _ _).1 hplay
  obtain ⟨steps, hrun, hevents, -⟩ := Live.trace_of_play .nil hw
  obtain ⟨cs, -, -, hall⟩ := dates_decide_nothing hrun fun x hx e he =>
    Sample.connectAndLink_extends (hevents ▸ List.mem_filterMap.2 ⟨x, hx, he⟩)
  obtain ⟨w', hw', hrelated⟩ := hall ⟨[], Sample.expired, ⟨[], []⟩⟩ cs ⟨.nil, Sample.expired_same, rfl⟩
    (List.forall₂_same.2 fun c _ => Live.Choice.Related.refl (fun x => ⟨x.now, rfl⟩) c)
  exact ⟨steps, w, hrun, of_decide_eq_true hconnected, cs, w', hw', hrelated⟩

/-- The list of devices, before and after the link of one of them has expired. -/
theorem answered_at_any_time_sample : ∃ o o',
    (HttpRequest.emulators_findAll.handle (Sample.androidAdmin "v" "v-root")).run
      [Sample.input "", Sample.input ""] Sample.server = some o ∧
    (HttpRequest.emulators_findAll.handle (Sample.androidAdmin "v" "v-root")).run
      [Sample.input "", { Sample.input "" with now := 864000000000 }] Sample.expired = some o' ∧
    Answers (fun r r' => r.timeless = r'.timeless) o.1 o'.1 ∧ o.2.SameButDates o'.2 := by
  have hxs : List.Forall₂ Ext.SameButDate [Sample.input "", Sample.input ""]
      [Sample.input "", { Sample.input "" with now := 864000000000 }] :=
    .cons ⟨0, rfl⟩ (.cons ⟨864000000000, rfl⟩ .nil)
  have hreq : ∀ dto, HttpRequest.emulators_findAll ≠ .emulators_extendExpiry dto := nofun
  have hboth := HttpRequest.answered_at_any_time hreq (Sample.androidAdmin "v" "v-root") hxs
    Sample.expired_same
  have hends : ((HttpRequest.emulators_findAll.handle (Sample.androidAdmin "v" "v-root")).run
      [Sample.input "", Sample.input ""] Sample.server).isSome = true := by decide +kernel
  obtain ⟨o, ho⟩ := Option.isSome_iff_exists.1 hends
  rw [ho] at hboth
  generalize (HttpRequest.emulators_findAll.handle (Sample.androidAdmin "v" "v-root")).run
    [Sample.input "", { Sample.input "" with now := 864000000000 }] Sample.expired = r at hboth ⊢
  cases hboth with
  | some h => exact ⟨o, _, ho, rfl, h⟩

end Damaru
