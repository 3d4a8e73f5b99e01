import Damaru.Verify.Login
import Damaru.Verify.Sessions
import Damaru.World

/-!
# Authority comes from logins

Behind its guards the server is the system that runs on events with verified
tokens: what arrives becomes an event or is turned away. As long as nobody
presents a token that verifies and that no login has answered, every event
under a token goes back to a login that has checked the credentials of the
token's user; and where no login is let in, nothing happens.
-/

namespace Damaru

open Async Table

/-- What a login has checked for the payload of its token: the user has the email,
if the body gives one, the password and the role and, if it is an Android user, the
account has the PIN. A body without an email selects any user. -/
def AuthService.Vouches (s : Server) (body : Json) (payload : JwtToken) : Prop :=
  ∃ u ∈ s.tables.users, ∃ k ∈ s.tables.roles, u.role = some k.id ∧
    (body.get? "email").selects (some u.email) = true ∧ Opens s body u ∧
    ((k.name = Roles.AndroidUser.text ∧ ∃ a ∈ s.tables.accounts, a.user = some u.id ∧
        (body.get? "pin").looselyEquals a.pin = true ∧ payload = accountPayload u a) ∨
      (k.name ≠ Roles.AndroidUser.text ∧
        payload = ⟨u.id, u.email, Roles.ofText k.name, none, none, none⟩))

namespace AuthService

theorem answer_ok {u : Users} {l : List Account} {payload : JwtToken} {firstLogin : Bool}
    (h : answer u l = .ok (payload, firstLogin)) : ∃ a ∈ l, payload = accountPayload u a := by
  unfold answer at h
  cases hlast : l.getLast? with
  | none =>
    rw [hlast] at h
    cases h
  | some a =>
    rw [hlast] at h
    refine ⟨a, List.mem_of_getLast? hlast, ?_⟩
    dsimp only at h
    split at h
    · cases h
    · exact (Prod.mk.inj (Except.ok.inj h)).1.symm

theorem entered_ok {body : Json} {u : Users} {l : List Account} {payload : JwtToken} {firstLogin : Bool}
    (h : entered body u l = .ok (payload, firstLogin)) :
    ∃ a ∈ matching body l, payload = accountPayload u a := by
  rcases entered_cases body u l with heq | ⟨e, heq⟩
  · exact answer_ok (heq.symm.trans h)
  · rw [heq] at h
    cases h

/-- Credentials that are accepted have been checked. -/
theorem vouches_of_yields {s s' : Server} {body : Json} {payload : JwtToken} {firstLogin : Bool}
    (h : (validateUser body).Yields [] s (.ok (payload, firstLogin)) s') : Vouches s body payload := by
  rw [← Prog.under_id (validateUser body)] at h
  cases hnull : body.isNull with
  | true =>
    have hstop : validateUser body = throw (cannotRead "email") := by
      unfold validateUser
      rw [hnull]
      rfl
    rw [hstop] at h
    cases (Prog.yields_throw.1 h).1
  | false =>
    obtain ⟨x, h⟩ := (yields_validateUser hnull).1 h
    cases hhead : (usersRepository.scan (fun _ u => (body.get? "email").selects (some u.email))
        (id x) s.tables).head? with
    | none =>
      rw [hhead] at h
      cases (Prog.yields_throw.1 h).1
    | some u =>
      rw [hhead] at h
      obtain ⟨hu, hsel⟩ := Repository.of_scan_head hhead
      by_cases ho : Opens s body u
      · replace h := (yields_signIn ho).1 h
        rcases role_cases s.integrity hu with ⟨-, hrole⟩ | ⟨k, hk, huk, hrole⟩
        · rw [hrole, yields_enter_noRole] at h
          cases h.1
        · rw [hrole] at h
          refine ⟨u, hu, k, hk, huk, hsel, ho, ?_⟩
          by_cases hname : k.name = Roles.AndroidUser.text
          · rw [yields_enter_android hname] at h
            obtain ⟨a, ha, hpayload⟩ := entered_ok h.answer.symm
            obtain ⟨ha, hau, hpin⟩ := (mem_matching (x := x)).1 ha
            exact .inl ⟨hname, a, ha, hau, hpin, hpayload⟩
          · rw [yields_enter_other hname] at h
            exact .inr ⟨hname, (Prod.mk.inj (Except.ok.inj h.1)).1⟩
      · obtain ⟨e, he⟩ := yields_signIn_refused (loaded (id x) s.tables u).2.1
          (loaded (id x) s.tables u).2.2 id ho
        cases ((he _ _).1 h).1

/-- What a login answers, it has validated. -/
theorem yields_login {jwt : JwtService} {now : Date} {body : Json} {s s' : Server}
    {r : Except Rejection LoginData} : (login jwt now body).Yields [] s r s' ↔
      ∃ r₀, (validateUser body).Yields [] s r₀ s' ∧ r = r₀.map fun o => .of jwt now o.1 o.2 :=
  Prog.yields_bind_pure

end AuthService

/-! ## What a login writes -/

/-- The dates of last logins aside, the tables are the same, and so are the
sockets and what has been emitted. -/
structure Server.Stamped (s s' : Server) : Prop where
  tables : ∃ l, s'.tables = { s.tables with accounts := l } ∧
    (l.map fun a => { a with last_login := none }) =
      s.tables.accounts.map fun a => { a with last_login := none }
  connections : s'.connections = s.connections
  emitted : s'.emitted = s.emitted

namespace Server.Stamped

theorem refl (s : Server) : s.Stamped s := ⟨⟨_, rfl, rfl⟩, rfl, rfl⟩

theorem trans {s₁ s₂ s₃ : Server} (h : s₁.Stamped s₂) (h' : s₂.Stamped s₃) : s₁.Stamped s₃ := by
  obtain ⟨⟨l, hl, hsame⟩, hc, he⟩ := h
  obtain ⟨⟨l', hl', hsame'⟩, hc', he'⟩ := h'
  refine ⟨⟨l', ?_, ?_⟩, hc'.trans hc, he'.trans he⟩
  · rw [hl', hl]
  · rw [hsame', hl]
    exact hsame

end Server.Stamped

theorem AuthService.each_stamped (loginDto : Json) : (validateUser loginDto).Each Server.Stamped := by
  refine each_validateUser_of .refl (fun account => ?_) loginDto
  refine Repository.each_update .refl (fun x s f hf hi => ?_) fun s hi => ?_
  · cases hf
    exact ⟨⟨_, rfl, map_updateWhere fun a _ => rfl⟩, rfl, rfl⟩
  · exact ⟨⟨_, rfl, rfl⟩, rfl, rfl⟩

/-- The token that an event is handled under. -/
def Event.actor : Event → Option JwtToken
  | .http user _ => some user
  | .message _ user _ _ => some user
  | _ => none

namespace World

/-- What the guards make of an arrival: an event of the system, or nothing. -/
def event (jwt : JwtService) (w : World) (x : Exchange) : Option Event :=
  match x.arrival with
  | .request authorization req =>
    (JwtAuthGuard.canActivate jwt x.now authorization).toOption.map fun user => .http user req
  | .login loginDto => some (.login loginDto)
  | .connect _ _ => none
  | .message client event body =>
    (w.handshakes.find? fun c => decide (c.1 = client)).bind fun c =>
      (WsJwtGuard.canActivate jwt x.now (some c.2)).toOption.map fun user =>
        .message client user event body
  | .disconnect client => some (.disconnect client)

/-- A socket is connected once, with one handshake, and has not gone. -/
structure Sound (w : World) : Prop where
  clients : (w.handshakes.map Prod.fst).Nodup
  here : ∀ c ∈ w.handshakes, c.1 ∉ w.gone

variable {jwt : JwtService} {w w' : World} {x : Exchange}

theorem Start.sound (h : w.Start) : w.Sound := by
  refine ⟨?_, fun c hc => ?_⟩
  · rw [h.handshakes]
    exact List.nodup_nil
  · rw [h.handshakes] at hc
    cases hc

theorem Step.sound (h : Step jwt w x w') (hw : w.Sound) : w'.Sound := by
  cases h with
  | @connect now client header user hnew =>
    constructor
    · show (List.map Prod.fst (w.handshakes ++ [(client, header)])).Nodup
      rw [List.map_append, List.nodup_append]
      refine ⟨hw.clients, List.nodup_singleton _, fun a ha b hb heq => hnew.1 ?_⟩
      rw [List.map_singleton, List.mem_singleton] at hb
      rw [heq, hb] at ha
      exact ha
    · intro c hc
      rcases List.mem_append.1 hc with hc | hc
      · exact hw.here c hc
      · rw [List.mem_singleton.1 hc]
        exact hnew.2
  | disconnect =>
    constructor
    · exact hw.clients.sublist (List.filter_sublist.map _)
    · intro c hc hgone
      obtain ⟨hc, hne⟩ := List.mem_filter.1 hc
      rcases List.mem_append.1 hgone with hgone | hgone
      · exact hw.here c hc hgone
      · exact of_decide_eq_true hne (List.mem_singleton.1 hgone)
  | _ => exact ⟨hw.clients, hw.here⟩

theorem Sound.find (hw : w.Sound) {client : Socket} {header : String} (hc : (client, header) ∈ w.handshakes) :
    (w.handshakes.find? fun c => decide (c.1 = client)) = some (client, header) :=
  find?_key hw.clients hc

/-! ## Behind the guards -/

/-- A step of the world is a step of the gateway's session under the event that
the guards let through, or it leaves the server alone. -/
theorem Step.refines (h : Step jwt w x w') (hw : w.Sound) :
    (∃ e, w.event jwt x = some e ∧ Damaru.Step w.server e w'.server ∧
      (∀ c, e.client? = some c → c ∉ w.gone) ∧ w'.gone = w.gone ++ e.leaver?.toList) ∨
    (w.event jwt x = none ∧ w'.server = w.server ∧ w'.gone = w.gone) := by
  cases h with
  | request hguard hstep =>
    refine .inl ⟨_, ?_, hstep, nofun, (List.append_nil _).symm⟩
    simp only [event, hguard]
    rfl
  | unauthorized hguard =>
    refine .inr ⟨?_, rfl, rfl⟩
    simp only [event, hguard]
    rfl
  | login hyields =>
    obtain ⟨r₀, h₀, -⟩ := AuthService.yields_login.1 hyields
    refine .inl ⟨_, rfl, ?_, nofun, (List.append_nil _).symm⟩
    exact (Prog.yields_bind_pure.2 ⟨r₀, h₀, rfl⟩ :
      (AuthService.validateUser _ >>= fun _ => .pure ()).Yields [] _ _ _).settles
  | connect => exact .inr ⟨rfl, rfl, rfl⟩
  | refused => exact .inr ⟨rfl, rfl, rfl⟩
  | message hc hguard hstep =>
    refine .inl ⟨_, ?_, hstep, fun c hclient => ?_, (List.append_nil _).symm⟩
    · simp only [event, hw.find hc, Option.bind_some, hguard]
      rfl
    · cases hclient
      exact hw.here _ hc
  | unheard hc hguard =>
    refine .inr ⟨?_, rfl, rfl⟩
    simp only [event, hw.find hc, Option.bind_some, hguard]
    rfl
  | disconnect hc hstep =>
    refine .inl ⟨_, rfl, hstep, fun c hclient => ?_, rfl⟩
    cases hclient
    exact hw.here _ hc

/-- **Refinement.** A run behind the guards is a run of the gateway's session
under the events that the guards let through: each takes the server from the
same state to the same state, in the same order. -/
theorem refines_session {w₀ : World} {steps : List (World × Exchange × World)} (hw₀ : w₀.Sound)
    (hrun : Trace (Step jwt) w₀ steps w) (h₀ : History) (hgone : h₀.gone = w₀.gone) :
    ∃ steps' h, Trace Session.Step ⟨w₀.server, h₀⟩ steps' ⟨w.server, h⟩ ∧ h.gone = w.gone ∧
      (steps'.map fun y => (y.1.server, y.2.1, y.2.2.server)) =
        steps.filterMap fun x => (x.1.event jwt x.2.1).map fun e => (x.1.server, e, x.2.2.server) := by
  suffices hall : w.Sound ∧ ∃ steps' h, Trace Session.Step ⟨w₀.server, h₀⟩ steps' ⟨w.server, h⟩ ∧
      h.gone = w.gone ∧ (steps'.map fun y => (y.1.server, y.2.1, y.2.2.server)) =
        steps.filterMap fun x => (x.1.event jwt x.2.1).map fun e => (x.1.server, e, x.2.2.server) from hall.2
  induction hrun with
  | nil => exact ⟨hw₀, [], h₀, .nil, hgone, rfl⟩
  | @snoc w w' x steps _ hstep ih =>
    obtain ⟨hw, steps', h, hrun', hh, hevents⟩ := ih
    refine ⟨hstep.sound hw, ?_⟩
    rw [List.filterMap_append]
    rcases hstep.refines hw with ⟨e, he, hserver, hclient, hleaver⟩ | ⟨he, hserver, hsame⟩
    · refine ⟨steps' ++ [(⟨w.server, h⟩, e, ⟨w'.server, h.next w.server e⟩)], h.next w.server e,
        hrun'.snoc ⟨fun c hc hmem => hclient c hc (hh ▸ hmem), hserver, rfl⟩, ?_, ?_⟩
      · rw [hleaver, ← hh]
        rfl
      · rw [List.map_append, hevents, List.filterMap_cons, he]
        rfl
    · refine ⟨steps', h, hserver ▸ hrun', hh.trans hsame.symm, ?_⟩
      rw [hevents, List.filterMap_cons, he]
      exact (List.append_nil _).symm

/-! ## Tokens that logins have answered -/

/-- The token that an arrival shows to its guard. -/
def presented (jwt : JwtService) (w : World) (x : Exchange) : Option String :=
  match x.arrival with
  | .request authorization _ => jwt.fromAuthHeaderAsBearerToken authorization
  | .login _ => none
  | .connect _ authorization => authorization.bind secondWord
  | .message client _ _ =>
    (w.handshakes.find? fun c => decide (c.1 = client)).bind fun c =>
      ((some c.2).filter isBearer).bind secondWord
  | .disconnect _ => none

/-- The payload of the token that an arrival shows, if it verifies. -/
def shown (jwt : JwtService) (w : World) (x : Exchange) : Option JwtToken :=
  (w.presented jwt x).bind (jwt.verify x.now)

/-- Nobody forges tokens: one that verifies when it is shown has been answered
to a login before. -/
def Unforged (jwt : JwtService) (steps : List (World × Exchange × World)) : Prop :=
  ∀ l x l', steps = l ++ x :: l' → ∀ token, x.1.presented jwt x.2.1 = some token →
    (jwt.verify x.2.1.now token).isSome → ∃ y ∈ l, y.2.1.answer.map LoginData.accessToken = some token

theorem Unforged.nil : Unforged jwt [] := fun l _ _ h => by cases l <;> cases h

theorem Unforged.snoc {steps : List (World × Exchange × World)} {x : World × Exchange × World}
    (h : Unforged jwt steps) (hx : ∀ token, x.1.presented jwt x.2.1 = some token →
      (jwt.verify x.2.1.now token).isSome →
      ∃ y ∈ steps, y.2.1.answer.map LoginData.accessToken = some token) :
    Unforged jwt (steps ++ [x]) := by
  intro l z l' hl token htoken hverifies
  rcases l'.eq_nil_or_concat with rfl | ⟨l', y, rfl⟩
  · obtain ⟨rfl, heq⟩ := List.append_inj' hl rfl
    cases heq
    exact hx token htoken hverifies
  · rw [List.concat_eq_append, ← List.cons_append, ← List.append_assoc] at hl
    exact h l z l' (List.append_inj_left' hl rfl) token htoken hverifies

theorem shown_of_request {now : Date} {authorization : Option String} {user : JwtToken}
    (h : JwtAuthGuard.canActivate jwt now authorization = .ok user) :
    (jwt.fromAuthHeaderAsBearerToken authorization).bind (jwt.verify now) = some user := by
  unfold JwtAuthGuard.canActivate at h
  split at h
  · rename_i hverify
    cases h
    exact hverify
  · cases h

theorem shown_of_message {now : Date} {authorization : Option String} {user : JwtToken}
    (h : WsJwtGuard.canActivate jwt now authorization = .ok user) :
    ((authorization.filter isBearer).bind secondWord).bind (jwt.verify now) = some user := by
  unfold WsJwtGuard.canActivate at h
  split at h
  · cases h
  · rename_i hheader
    split at h
    · rename_i hverify
      cases h
      rw [hheader]
      exact hverify
    · cases h

theorem shown_of_connect {now : Date} {authorization : Option String} {user : JwtToken}
    (h : SignalingServerGateway.afterInit jwt now authorization = .ok user) :
    (authorization.bind secondWord).bind (jwt.verify now) = some user := by
  unfold SignalingServerGateway.afterInit at h
  split at h
  · rename_i hverify
    cases h
    exact hverify
  · cases h

theorem toOption_eq_some {e : Except Rejection JwtToken} {user : JwtToken} (h : e.toOption = some user) :
    e = .ok user := by
  cases e with
  | error => cases h
  | ok => exact congrArg Except.ok (Option.some.inj h)

/-- An event is handled under the token that has been shown. -/
theorem shown_of_event {e : Event} {user : JwtToken} (h : w.event jwt x = some e)
    (hactor : e.actor = some user) : w.shown jwt x = some user := by
  obtain ⟨now, arrival, answer⟩ := x
  cases arrival with
  | request authorization req =>
    obtain ⟨user', hguard, rfl⟩ := Option.map_eq_some_iff.1 h
    cases hactor
    exact shown_of_request (toOption_eq_some hguard)
  | login dto =>
    cases h
    cases hactor
  | connect client authorization => cases h
  | message client event body =>
    obtain ⟨c, hc, h⟩ := Option.bind_eq_some_iff.1 h
    obtain ⟨user', hguard, rfl⟩ := Option.map_eq_some_iff.1 h
    cases hactor
    have hshown := shown_of_message (toOption_eq_some hguard)
    unfold shown presented
    dsimp only
    rw [hc]
    exact hshown
  | disconnect client =>
    cases h
    cases hactor

theorem Step.vouches (h : Step jwt w x w') {d : LoginData} (hd : x.answer = some d) :
    ∃ loginDto payload, x.arrival = .login loginDto ∧ AuthService.Vouches w.server loginDto payload ∧
      d.accessToken = jwt.sign x.now payload := by
  cases h with
  | @login now loginDto r s hyields =>
    obtain ⟨r₀, h₀, rfl⟩ := AuthService.yields_login.1 hyields
    cases r₀ with
    | error => cases hd
    | ok o =>
      cases hd
      exact ⟨loginDto, o.1, rfl, AuthService.vouches_of_yields h₀, rfl⟩
  | _ => cases hd

/-- A token that is shown goes back to a login that has checked the credentials
of its payload. -/
theorem exists_login {w₀ : World} {steps : List (World × Exchange × World)} (hjwt : jwt.Lawful)
    (hrun : Trace (Step jwt) w₀ steps w) (hunforged : Unforged jwt steps)
    {l l' : List (World × Exchange × World)} {x : World × Exchange × World} (hl : steps = l ++ x :: l')
    {user : JwtToken} (hshown : x.1.shown jwt x.2.1 = some user) :
    ∃ l₁ y l₂ loginDto, l = l₁ ++ y :: l₂ ∧ y.2.1.arrival = .login loginDto ∧
      AuthService.Vouches y.1.server loginDto user := by
  obtain ⟨token, htoken, hverify⟩ := Option.bind_eq_some_iff.1 hshown
  obtain ⟨y, hy, hanswer⟩ := hunforged l x l' hl token htoken (hverify ▸ rfl)
  obtain ⟨d, hd, rfl⟩ := Option.map_eq_some_iff.1 hanswer
  have hstep : Step jwt y.1 y.2.1 y.2.2 := by
    refine hrun.forall_steps (fun _ _ _ h => h) y ?_
    rw [hl]
    exact List.mem_append_left _ hy
  obtain ⟨loginDto, payload, harrival, hvouches, hsign⟩ := hstep.vouches hd
  rw [hsign] at hverify
  obtain rfl := hjwt.verify_sign _ _ _ _ hverify
  obtain ⟨l₁, l₂, rfl⟩ := List.append_of_mem hy
  exact ⟨l₁, y, l₂, loginDto, rfl, harrival, hvouches⟩

/-! ## Without a login -/

/-- The dates of last logins aside, nothing has happened. -/
structure Untouched (w w' : World) : Prop where
  handshakes : w'.handshakes = w.handshakes
  emulatorAdminRoom : w'.emulatorAdminRoom = w.emulatorAdminRoom
  gone : w'.gone = w.gone
  server : w.server.Stamped w'.server

theorem Untouched.refl (w : World) : Untouched w w := ⟨rfl, rfl, rfl, .refl _⟩

theorem Untouched.trans {w₁ w₂ w₃ : World} (h : Untouched w₁ w₂) (h' : Untouched w₂ w₃) : Untouched w₁ w₃ :=
  ⟨h'.handshakes.trans h.handshakes, h'.emulatorAdminRoom.trans h.emulatorAdminRoom, h'.gone.trans h.gone,
    h.server.trans h'.server⟩

/-- While nobody is connected, an arrival that shows no token that verifies
leaves the world untouched. -/
theorem Step.untouched (h : Step jwt w x w') (hshown : w.shown jwt x = none) (hw : w.handshakes = []) :
    Untouched w w' := by
  cases h with
  | request hguard =>
    have hsome := (shown_of_request hguard).symm.trans hshown
    cases hsome
  | unauthorized => exact .refl _
  | login hyields =>
    obtain ⟨r₀, h₀, -⟩ := AuthService.yields_login.1 hyields
    exact ⟨rfl, rfl, rfl, h₀.each .refl (fun _ _ _ => .trans) (AuthService.each_stamped _) nofun⟩
  | connect hnew hguard =>
    have hsome := (shown_of_connect hguard).symm.trans hshown
    cases hsome
  | refused => exact .refl _
  | message hc => exact absurd (hw ▸ hc) List.not_mem_nil
  | unheard hc => exact absurd (hw ▸ hc) List.not_mem_nil
  | disconnect hc => exact absurd (hw ▸ hc) List.not_mem_nil

/-- **No login, no effect.** As long as no login has been answered, no row of
any table changes but in the date of an account's last login, nobody connects
and nothing is emitted, whatever arrives. -/
theorem untouched_without_login {w₀ : World} {steps : List (World × Exchange × World)} (hstart : w₀.Start)
    (hrun : Trace (Step jwt) w₀ steps w) (hunforged : Unforged jwt steps)
    (hnone : ∀ x ∈ steps, x.2.1.answer = none) : Untouched w₀ w := by
  induction hrun with
  | nil => exact .refl _
  | @snoc w w' x steps hprefix hlast ih =>
    have hw := ih (fun l z l' hl => hunforged l z (l' ++ [(w, x, w')]) (by
        rw [hl, List.append_assoc, List.cons_append]))
      fun z hz => hnone z (List.mem_append_left _ hz)
    refine hw.trans (hlast.untouched ?_ (hw.handshakes.trans hstart.handshakes))
    refine Option.eq_none_iff_forall_ne_some.2 fun user hshown => ?_
    obtain ⟨token, htoken, hverify⟩ := Option.bind_eq_some_iff.1 hshown
    obtain ⟨y, hy, hanswer⟩ := hunforged steps (w, x, w') [] rfl token htoken (hverify ▸ rfl)
    rw [hnone y (List.mem_append_left _ hy)] at hanswer
    cases hanswer

/-! ## The room of the emulator admins -/

theorem not_shown_of_refused {now : Date} {authorization : Option String} {e : Rejection}
    (h : SignalingServerGateway.afterInit jwt now authorization = .error e) :
    (authorization.bind secondWord).bind (jwt.verify now) = none := by
  unfold SignalingServerGateway.afterInit at h
  split at h
  · cases h
  · assumption

/-- The socket connects with the token of an emulator admin. -/
def Enters (jwt : JwtService) (client : Socket) (w : World) (x : Exchange) : Prop :=
  (∃ authorization, x.arrival = .connect client authorization) ∧
    ∃ user, w.shown jwt x = some user ∧ user.role = .EmulatorAdmin

/-- The step lemma. -/
theorem Step.mem_emulatorAdminRoom (h : Step jwt w x w') (client : Socket) :
    client ∈ w'.emulatorAdminRoom ↔ Enters jwt client w x ∨
      (client ∈ w.emulatorAdminRoom ∧ x.arrival ≠ .disconnect client) := by
  have hstay : (∀ c a, x.arrival ≠ .connect c a) → (∀ c, x.arrival ≠ .disconnect c) →
      w'.emulatorAdminRoom = w.emulatorAdminRoom → (client ∈ w'.emulatorAdminRoom ↔
        Enters jwt client w x ∨ (client ∈ w.emulatorAdminRoom ∧ x.arrival ≠ .disconnect client)) := by
    intro hconnect hdisconnect hroom
    rw [hroom, or_iff_right fun henters => henters.1.elim fun a ha => hconnect _ a ha]
    exact (and_iff_left (hdisconnect client)).symm
  cases h with
  | @connect now c header user hnew hguard =>
    have hshown := shown_of_connect hguard
    have henters : Enters jwt client w ⟨now, .connect c (some header), none⟩ ↔
        c = client ∧ user.role = .EmulatorAdmin := by
      constructor
      · rintro ⟨⟨a, ha⟩, user', hshown', hrole⟩
        cases ha
        exact ⟨rfl, Option.some.inj (hshown.symm.trans hshown') ▸ hrole⟩
      · rintro ⟨rfl, hrole⟩
        exact ⟨⟨_, rfl⟩, user, hshown, hrole⟩
    rw [henters]
    show client ∈ (if user.role = .EmulatorAdmin then w.emulatorAdminRoom ++ [c] else w.emulatorAdminRoom) ↔ _
    by_cases hrole : user.role = .EmulatorAdmin
    · simp [hrole, or_comm, eq_comm]
    · simp [hrole]
  | @refused now c authorization e hguard =>
    rw [or_iff_right, and_iff_left nofun]
    rintro ⟨-, user, hshown, -⟩
    have hsome := (not_shown_of_refused hguard).symm.trans hshown
    cases hsome
  | @disconnect now c header s hc =>
    rw [or_iff_right fun henters => by cases henters.1.choose_spec]
    show client ∈ w.emulatorAdminRoom.filter _ ↔ _
    rw [List.mem_filter, decide_eq_true_eq]
    refine and_congr_right fun _ => ⟨fun hne heq => ?_, fun hne heq => hne (heq ▸ rfl)⟩
    cases heq
    exact hne rfl
  | _ => exact hstay (fun _ _ => nofun) (fun _ => nofun) rfl

/-- The run lemma. -/
theorem mem_emulatorAdminRoom_run {w₀ : World} {steps : List (World × Exchange × World)} (hstart : w₀.Start)
    (hrun : Trace (Step jwt) w₀ steps w) (client : Socket) : client ∈ w.emulatorAdminRoom ↔
      ∃ l x l', steps = l ++ x :: l' ∧ Enters jwt client x.1 x.2.1 ∧
        ∀ y ∈ l', y.2.1.arrival ≠ .disconnect client := by
  induction hrun with
  | nil =>
    rw [hstart.emulatorAdminRoom]
    refine ⟨fun h => absurd h List.not_mem_nil, fun h => ?_⟩
    obtain ⟨l, x, l', hl, -⟩ := h
    cases l <;> cases hl
  | @snoc w w' x steps _ hlast ih =>
    rw [hlast.mem_emulatorAdminRoom, ih]
    constructor
    · rintro (henters | ⟨⟨l, y, l', rfl, henters, hstays⟩, hlast⟩)
      · exact ⟨steps, (w, x, w'), [], rfl, henters, fun _ hmem => absurd hmem List.not_mem_nil⟩
      · refine ⟨l, y, l' ++ [(w, x, w')], by rw [List.append_assoc, List.cons_append], henters, ?_⟩
        rw [List.forall_mem_append, List.forall_mem_singleton]
        exact ⟨hstays, hlast⟩
    · rintro ⟨l, y, l', hl, henters, hstays⟩
      rcases l'.eq_nil_or_concat with rfl | ⟨l', z, rfl⟩
      · obtain ⟨rfl, heq⟩ := List.append_inj' hl rfl
        cases heq
        exact .inl henters
      · rw [List.concat_eq_append, ← List.cons_append, ← List.append_assoc] at hl
        obtain ⟨hinit, heq⟩ := List.append_inj' hl rfl
        cases heq
        rw [List.concat_eq_append, List.forall_mem_append, List.forall_mem_singleton] at hstays
        exact .inr ⟨⟨l, y, l', hinit, henters, hstays.1⟩, hstays.2⟩

/-- **Who hears of restarts.** The broadcast to the emulator admins reaches the
sockets that have connected with the token of an emulator admin and have not
disconnected since, whether or not the token has expired; each of them goes
back to a login that has checked an emulator admin's credentials. -/
theorem hears_of_restarts {w₀ : World} {steps : List (World × Exchange × World)}
    (hjwt : jwt.Lawful) (hstart : w₀.Start) (hrun : Trace (Step jwt) w₀ steps w)
    (hunforged : Unforged jwt steps) (client : Socket) :
    (client ∈ w.emulatorAdminRoom ↔ ∃ l x l', steps = l ++ x :: l' ∧ Enters jwt client x.1 x.2.1 ∧
      ∀ y ∈ l', y.2.1.arrival ≠ .disconnect client) ∧
    (client ∈ w.emulatorAdminRoom → ∃ y ∈ steps, ∃ loginDto user, y.2.1.arrival = .login loginDto ∧
      AuthService.Vouches y.1.server loginDto user ∧ user.role = .EmulatorAdmin) := by
  have hiff := mem_emulatorAdminRoom_run hstart hrun client
  refine ⟨hiff, fun hmem => ?_⟩
  obtain ⟨l, x, l', hl, ⟨-, user, hshown, hrole⟩, -⟩ := hiff.1 hmem
  obtain ⟨l₁, y, l₂, loginDto, rfl, harrival, hvouches⟩ := exists_login hjwt hrun hunforged hl hshown
  refine ⟨y, ?_, loginDto, user, harrival, hvouches, hrole⟩
  rw [hl, List.append_assoc, List.cons_append]
  exact List.mem_append_right _ List.mem_cons_self

end World

namespace Sample

/-- One token for each administrator. -/
def tokens : JwtService where
  sign _ payload := if payload = superAdmin then "s" else if payload = emulatorAdmin then "m" else ""
  verify _ token := if token = "s" then some superAdmin else if token = "m" then some emulatorAdmin else none
  fromAuthHeaderAsBearerToken authorization := (authorization.filter isBearer).bind secondWord

theorem tokens_lawful : tokens.Lawful := by
  refine ⟨fun t now payload p h => ?_⟩
  by_cases hs : payload = superAdmin
  · subst hs
    exact (Option.some.inj h).symm
  · by_cases hm : payload = emulatorAdmin
    · subst hm
      exact (Option.some.inj h).symm
    · simp [tokens, hs, hm] at h

/-- The seeded server, on which a password is its own hash. -/
def gate : World where
  server := { seeded with platform := { platform with compare := fun p h => p = h } }
  handshakes := []
  emulatorAdminRoom := []
  gone := []

theorem gate_start : gate.Start := ⟨rfl, rfl, rfl⟩

def credentials (user : String) : Json := .obj [("email", .str (user ++ "@x")), ("password", .str "hash")]

def device : Json := .obj [("device_id", .str "d"), ("device_name", .str "D")]

/-- Both administrators log in. One adds a device, the other one connects. -/
theorem admitted : ∃ l x l' w, Trace (World.Step tokens) gate (l ++ x :: l') w ∧
    World.Unforged tokens (l ++ x :: l') ∧
    x.1.event tokens x.2.1 = some (.http superAdmin (.emulators_create device)) ∧
    ⟨"c"⟩ ∈ w.emulatorAdminRoom := by
  have hruns : ((AuthService.login tokens 0 (credentials "s")).run (["", "", ""].map input) gate.server).any
      (fun o => decide (o.1.toOption.map LoginData.accessToken = some "s") &&
        ((AuthService.login tokens 1 (credentials "m")).run (["", "", ""].map input) o.2).any fun o' =>
          decide (o'.1.toOption.map LoginData.accessToken = some "m") &&
          ((Event.http superAdmin (.emulators_create device)).play (["", ""].map input) o'.2).isSome) = true := by
    decide +kernel
  obtain ⟨⟨r, s⟩, ho, hruns⟩ := (Option.any_eq_true _ _).1 hruns
  obtain ⟨hr, hruns⟩ := Bool.and_eq_true_iff.1 hruns
  obtain ⟨⟨r', s'⟩, ho', hruns⟩ := (Option.any_eq_true _ _).1 hruns
  obtain ⟨hr', hplays⟩ := Bool.and_eq_true_iff.1 hruns
  obtain ⟨t, ht⟩ := Option.isSome_iff_exists.1 hplays
  have hfirst : World.Step tokens gate ⟨0, .login (credentials "s"), r.toOption⟩ { gate with server := s } :=
    .login (Prog.ends_of_run ho).yields
  have hsecond : World.Step tokens { gate with server := s } ⟨1, .login (credentials "m"), r'.toOption⟩
      { gate with server := s' } := .login (Prog.ends_of_run ho').yields
  have hadds : World.Step tokens { gate with server := s' }
      ⟨2, .request (some "Bearer s") (.emulators_create device), none⟩ { gate with server := t } :=
    .request (by decide +kernel) (Event.step_of_play ht)
  have hconnects : World.Step tokens { gate with server := t } ⟨3, .connect ⟨"c"⟩ (some "Bearer m"), none⟩
      (World.join { gate with server := t } ⟨"c"⟩ "Bearer m" emulatorAdmin) :=
    .connect ⟨List.not_mem_nil, List.not_mem_nil⟩ (by decide +kernel)
  have hrun := (((Trace.nil.snoc hfirst).snoc hsecond).snoc hadds).snoc hconnects
  refine ⟨[_, _], _, [_], _, hrun, ?_, ?_, List.mem_singleton.2 rfl⟩
  · refine (((World.Unforged.nil.snoc ?_).snoc ?_).snoc ?_).snoc ?_
    · exact fun _ h => by cases h
    · exact fun _ h => by cases h
    · intro token h _
      have hheader : tokens.fromAuthHeaderAsBearerToken (some "Bearer s") = some "s" := by decide +kernel
      have hshows : some "s" = some token := hheader.symm.trans h
      refine ⟨_, List.mem_cons_self, ?_⟩
      rw [← hshows]
      exact of_decide_eq_true hr
    · intro token h _
      have hheader : (some "Bearer m").bind secondWord = some "m" := by decide +kernel
      have hshows : some "m" = some token := hheader.symm.trans h
      refine ⟨_, List.mem_cons_of_mem _ List.mem_cons_self, ?_⟩
      rw [← hshows]
      exact of_decide_eq_true hr'
  · rfl

end Sample

theorem World.refines_session_admitted : ∃ steps w, Trace (Step Sample.tokens) Sample.gate steps w ∧
    (∃ x ∈ steps, x.1.event Sample.tokens x.2.1 = some (.http Sample.superAdmin (.emulators_create Sample.device))) ∧
    ∃ steps' h, Trace Session.Step ⟨Sample.gate.server, ⟨[], []⟩⟩ steps' ⟨w.server, h⟩ ∧ h.gone = w.gone ∧
      (steps'.map fun y => (y.1.server, y.2.1, y.2.2.server)) = steps.filterMap fun x =>
        (x.1.event Sample.tokens x.2.1).map fun e => (x.1.server, e, x.2.2.server) := by
  obtain ⟨l, x, l', w, hrun, -, hevent, -⟩ := Sample.admitted
  exact ⟨_, w, hrun, ⟨x, List.mem_append_right _ List.mem_cons_self, hevent⟩,
    World.refines_session Sample.gate_start.sound hrun ⟨[], []⟩ rfl⟩

/-- A login with a wrong password, and a request with a token that does not
verify. -/
theorem World.untouched_without_login_refused : ∃ steps w, Trace (Step Sample.tokens) Sample.gate steps w ∧
    steps.map (fun x => x.2.1.arrival) =
      [.login (.obj [("email", .str "s@x"), ("password", .str "guess")]),
        .request (some "Bearer x") (.emulators_create Sample.device)] ∧
    Untouched Sample.gate w := by
  have hruns : ((AuthService.login Sample.tokens 0
      (.obj [("email", .str "s@x"), ("password", .str "guess")])).run (["", "", ""].map Sample.input)
      Sample.gate.server).any (fun o => o.1.toOption.isNone) = true := by
    decide +kernel
  obtain ⟨⟨r, s⟩, ho, hrefused⟩ := (Option.any_eq_true _ _).1 hruns
  have hlogin : Step Sample.tokens Sample.gate ⟨0, .login _, r.toOption⟩ { Sample.gate with server := s } :=
    .login (Prog.ends_of_run ho).yields
  have hrequest : Step Sample.tokens { Sample.gate with server := s }
      ⟨1, .request (some "Bearer x") (.emulators_create Sample.device), none⟩ { Sample.gate with server := s } :=
    .unauthorized (e := .http .UNAUTHORIZED "Unauthorized") (by decide +kernel)
  have hrun := (Trace.nil.snoc hlogin).snoc hrequest
  refine ⟨_, _, hrun, rfl, World.untouched_without_login Sample.gate_start hrun ?_ ?_⟩
  · refine (Unforged.nil.snoc ?_).snoc ?_
    · exact fun _ h => by cases h
    · intro token h hverifies
      have hheader : Sample.tokens.fromAuthHeaderAsBearerToken (some "Bearer x") = some "x" := by decide +kernel
      have hshows : some "x" = some token := hheader.symm.trans h
      cases hshows
      cases hverifies
  · rw [List.forall_mem_append, List.forall_mem_singleton]
    refine ⟨?_, rfl⟩
    rw [List.nil_append, List.forall_mem_singleton]
    exact Option.isNone_iff_eq_none.1 hrefused

theorem World.hears_of_restarts_admitted : ∃ steps w, Trace (Step Sample.tokens) Sample.gate steps w ∧
    ⟨"c"⟩ ∈ w.emulatorAdminRoom ∧
    (⟨"c"⟩ ∈ w.emulatorAdminRoom ↔ ∃ l x l', steps = l ++ x :: l' ∧
      Enters Sample.tokens ⟨"c"⟩ x.1 x.2.1 ∧ ∀ y ∈ l', y.2.1.arrival ≠ .disconnect ⟨"c"⟩) ∧
    (⟨"c"⟩ ∈ w.emulatorAdminRoom → ∃ y ∈ steps, ∃ loginDto user, y.2.1.arrival = .login loginDto ∧
      AuthService.Vouches y.1.server loginDto user ∧ user.role = .EmulatorAdmin) := by
  obtain ⟨l, x, l', w, hrun, hunforged, -, hmem⟩ := Sample.admitted
  exact ⟨_, w, hrun, hmem, World.hears_of_restarts Sample.tokens_lawful Sample.gate_start hrun hunforged ⟨"c"⟩⟩

end Damaru
