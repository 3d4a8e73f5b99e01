import Damaru.Verify.Arrivals
import Damaru.Verify.EventWrites

/-!
# Who writes what

All events under way at once: requests, messages, logins and the ends of
sockets come at any time, and their threads take turns in any order. Every
single write is still made by the code of one event, to a table that the event
has something to do with, and under a token that its guard admits.
-/

namespace Damaru

open Async Table SignalingServerGateway

/-! ## Tables -/

inductive Entity where
  | role
  | users
  | account
  | emulator
  | userEmulators
  | accountEmulators
  | emulatorConnections
  | activityLog

/-- The rows of the entity are as before. -/
def Entity.Same (t t' : Tables) : Entity → Prop
  | role => t'.roles = t.roles
  | users => t'.users = t.users
  | account => t'.accounts = t.accounts
  | emulator => t'.emulators = t.emulators
  | userEmulators => t'.userEmulators = t.userEmulators
  | accountEmulators => t'.accountEmulators = t.accountEmulators
  | emulatorConnections => t'.emulatorConnections = t.emulatorConnections
  | activityLog => t'.activityLogs = t.activityLogs

theorem Entity.Same.refl (t : Tables) (n : Entity) : n.Same t t := by cases n <;> rfl

/-- The entities whose rows a request writes. -/
def HttpRequest.entities : HttpRequest → List Entity
  | users_create _ => [.users, .account, .activityLog]
  | users_update _ _ => [.users, .activityLog]
  | users_delete _ => [.users, .account, .emulator, .userEmulators, .accountEmulators,
      .emulatorConnections, .activityLog]
  | accounts_create _ => [.account]
  | accounts_update _ _ => [.account]
  | accounts_delete _ => [.account, .accountEmulators, .emulatorConnections]
  | emulators_create _ => [.emulator]
  | emulators_uploadFile _ _ => [.emulator]
  | emulators_update _ _ => [.emulator]
  | emulators_delete _ => [.emulator, .userEmulators, .accountEmulators, .emulatorConnections]
  | emulators_linkEmulator _ => [.emulator, .userEmulators, .accountEmulators]
  | emulators_unlinkEmulator _ => [.emulator, .userEmulators, .accountEmulators, .emulatorConnections]
  | emulators_extendExpiry _ => [.userEmulators]
  | emulators_assignEmulator _ => [.accountEmulators]
  | emulators_assignEmulatorsToAccount _ => [.accountEmulators]
  | emulators_unAssignEmulatorsToAccount _ => [.accountEmulators, .emulatorConnections]
  | emulators_unAssignEmulatorFromAccounts _ => [.accountEmulators, .emulatorConnections]
  | activityLogs_create _ => [.activityLog]
  | activityLogs_update _ _ => [.activityLog]
  | activityLogs_delete _ => [.activityLog]
  | _ => []

namespace Event

/-- The guard of the event lets it pass. -/
def Admitted : Event → Prop
  | http user req => req.admits user = true
  | message _ user event body => accepts user event body = true
  | _ => True

/-- The entities whose rows an event writes. -/
def entities : Event → List Entity
  | http _ req => req.entities
  | message _ _ .StartStreaming _ => [.emulator]
  | message _ _ .Connect _ => [.emulatorConnections]
  | message _ _ _ _ => []
  | disconnect _ => [.emulator, .emulatorConnections]
  | login _ => [.account]

/-- The event registers its socket. -/
def Registers : Event → Prop
  | message _ _ .StartStreaming _ => True
  | message _ _ .Offer _ => True
  | _ => False

/-- The event emits. -/
def Emits : Event → Prop
  | http _ (.emulators_restartEmulator _) => True
  | message _ _ .StartStreaming _ => False
  | message _ _ .Connect _ => False
  | message _ _ _ _ => True
  | disconnect _ => True
  | _ => False

end Event

/-- What is not as before is what the event has to do with, and the event has
been admitted. What has been emitted stays emitted. -/
structure Attributed (e : Event) (s s' : Server) : Prop where
  tables : ∀ n : Entity, n.Same s.tables s'.tables ∨ (e.Admitted ∧ n ∈ e.entities)
  connections : s'.connections = s.connections ∨ (e.Admitted ∧ e.Registers)
  emitted : ∃ l, s'.emitted = s.emitted ++ l ∧ (l = [] ∨ (e.Admitted ∧ e.Emits))

theorem Attributed.refl (e : Event) (s : Server) : Attributed e s s :=
  ⟨fun n => .inl (.refl _ n), .inl rfl, [], (List.append_nil _).symm, .inl rfl⟩

/-! ## The writes of each kind -/

def Kind.entities : Kind → List Entity
  | activityLogs => [.activityLog]
  | connections => [.emulatorConnections]
  | assignments => [.accountEmulators, .emulatorConnections]
  | expiry => [.userEmulators]
  | newEmulator => [.emulator]
  | columns _ => [.emulator]
  | emulatorFields => [.emulator]
  | saveEmulator => [.emulator]
  | deleteEmulator => [.emulator, .userEmulators, .accountEmulators, .emulatorConnections]
  | newAccount => [.account]
  | accountFields => [.account]
  | deleteAccount => [.account, .accountEmulators, .emulatorConnections]
  | newUser => [.users]
  | userFields => [.users]
  | deleteUser => [.users, .account, .userEmulators, .accountEmulators, .emulatorConnections]
  | newLink => [.userEmulators]
  | endLink => [.userEmulators]
  | state => [.emulator]
  | sockets => []
  | emissions => []

/-- A statement writes rows of the entities of its kind. -/
theorem Write.same {t t' : Tables} {k : Kind} (hw : Write t k t') (hi : t.Integrity) (n : Entity) :
    n.Same t t' ∨ n ∈ k.entities := by
  cases hw with
  | deleteAccount p =>
    obtain ⟨hu, -, hl, -⟩ := hi.toReferences.cascade_accounts (l := t.accounts.filter p)
      fun a ha => (List.mem_filter.1 ha).1
    cases n with
    | users => exact .inl hu
    | userEmulators => exact .inl hl
    | role | emulator | activityLog => exact .inl rfl
    | _ => exact .inr (by simp [Kind.entities])
  | deleteEmulator p =>
    obtain ⟨hu, ha, -⟩ := hi.toReferences.cascade_emulators (t.emulators.filter p)
    cases n with
    | users => exact .inl hu
    | account => exact .inl ha
    | role | activityLog => exact .inl rfl
    | _ => exact .inr (by simp [Kind.entities])
  | deleteUser p =>
    cases n with
    | role | emulator | activityLog => exact .inl rfl
    | _ => exact .inr (by simp [Kind.entities])
  | _ => cases n <;> first | exact .inl rfl | exact .inr (by simp [Kind.entities])

/-- Connections aside, which only some of the writes of assignments delete. -/
theorem HttpRequest.entities_of_kinds (req : HttpRequest) :
    ∀ k ∈ req.kinds, ∀ n ∈ k.entities, n = .emulatorConnections ∨ n ∈ req.entities := by
  cases req <;> simp [kinds, Kind.entities, entities]

namespace Event

/-- The kinds of an admitted event. -/
theorem admitted_of_kinds {e : Event} {k : Kind} (hk : k ∈ e.kinds) (hmessage : ∀ client user event body,
    e = .message client user event body → accepts user event body = true) : e.Admitted := by
  cases e with
  | http user req => exact (kinds_http hk).1
  | message client user event body => exact hmessage _ _ _ _ rfl
  | _ => exact trivial

theorem entities_of_kinds {e : Event} :
    ∀ k ∈ e.kinds, ∀ n ∈ k.entities, n = .emulatorConnections ∨ n ∈ e.entities := by
  cases e with
  | http user req => exact fun k hk => req.entities_of_kinds k (kinds_http hk).2
  | message client user event body =>
    cases event <;> simp [kinds, SignalingServerGateway.Event.kinds, Kind.entities, entities]
  | disconnect client => simp [kinds, Kind.entities, entities]
  | login dto => simp [kinds, Kind.entities, entities]

theorem registers_of_kinds {e : Event} (h : Kind.sockets ∈ e.kinds) : e.Registers := by
  cases e with
  | http user req =>
    have hk := (kinds_http h).2
    cases req <;> simp [HttpRequest.kinds] at hk
  | message client user event body =>
    cases event <;> simp [kinds, SignalingServerGateway.Event.kinds, Registers] at h ⊢
  | disconnect client => simp [kinds] at h
  | login dto => simp [kinds] at h

theorem emits_of_kinds {e : Event} (h : Kind.emissions ∈ e.kinds) : e.Emits := by
  cases e with
  | http user req =>
    have hk := (kinds_http h).2
    cases req <;> simp [HttpRequest.kinds, Emits] at hk ⊢
  | message client user event body =>
    cases event <;> simp [kinds, SignalingServerGateway.Event.kinds, Emits] at h ⊢
  | disconnect client => exact trivial
  | login dto => simp [kinds] at h

end Event

/-! ## Who deletes connections -/

/-- The connections are as before. -/
def KeepsConnections (s s' : Server) : Prop :=
  s'.tables.emulatorConnections = s.tables.emulatorConnections

theorem KeepsConnections.refl (s : Server) : KeepsConnections s s := rfl

theorem Writes.keepsConnections {ks : List Kind} (hks : ∀ k ∈ ks, .emulatorConnections ∉ k.entities)
    {s s' : Server} (hw : Writes ks s s') : KeepsConnections s s' := by
  rcases hw.tables with ht | ⟨k, hk, hw⟩
  · exact congrArg Tables.emulatorConnections ht
  · exact (hw.same s.integrity .emulatorConnections).resolve_right (hks k hk)

namespace EmulatorService

theorem keepsConnections_tryAssign (account : JsVal) (l : UserEmulators) :
    (tryAssign account l).Each KeepsConnections := by
  refine (each_statement KeepsConnections.refl fun x s a t hf ht => ?_ :
    (accountEmulatorRepository.upsert account.bound l.id).Each KeepsConnections).tryCatch fun _ => trivial
  dsimp only at hf
  split at hf
  · cases hf
    rfl
  · cases hf
    rfl

theorem keepsConnections_linkDevice (userId device_id : JsVal) :
    (linkDevice userId device_id).Each KeepsConnections := by
  unfold linkDevice findEmulatorByDeviceId
  refine (Repository.each_findRow KeepsConnections.refl).bind fun found => ?_
  split
  · refine (Repository.each_insert KeepsConnections.refl fun _ _ _ _ _ => rfl :
      (insertLink userId device_id).Each KeepsConnections).bind fun link => ?_
    refine (Repository.each_findRow KeepsConnections.refl).bind fun root => ?_
    cases root with
    | none => exact trivial
    | some a =>
      refine (Repository.each_insert KeepsConnections.refl fun _ _ _ _ _ => rfl :
        (insertAssignment link a.id).Each KeepsConnections).bind fun _ => ?_
      have hset : (setState device_id .REGISTERED).Each (Writes [.state]) := each_setState List.mem_cons_self
      exact hset.mono fun _ _ => Writes.keepsConnections (by simp [Kind.entities])
  · exact trivial

end EmulatorService

/-- A request that assigns a device, or links it, keeps the connections. -/
theorem HttpRequest.keepsConnections {req : HttpRequest} (user : JwtToken)
    (h : Kind.assignments ∈ req.kinds) (hn : .emulatorConnections ∉ req.entities) :
    (req.run user).Each KeepsConnections := by
  cases req with
  | emulators_linkEmulator dto =>
    exact each_reading ((each_forOf fun _ => EmulatorService.keepsConnections_linkDevice _ _).bind
      fun _ => trivial)
  | emulators_assignEmulator dto =>
    refine each_reading (Prog.Each.bind ?_ fun _ => trivial)
    unfold EmulatorService.assignEmulator
    split
    · exact EmulatorService.each_withLink KeepsConnections.refl fun _ => each_forOf fun _ =>
        EmulatorService.keepsConnections_tryAssign _ _
    · exact trivial
  | emulators_assignEmulatorsToAccount dto =>
    refine each_reading (Prog.Each.bind ?_ fun _ => trivial)
    unfold EmulatorService.assignEmulatorsToAccount
    split
    · exact each_forOf fun _ => EmulatorService.each_withLink KeepsConnections.refl fun _ =>
        EmulatorService.keepsConnections_tryAssign _ _
    · exact trivial
  | emulators_unlinkEmulator => simp [entities] at hn
  | emulators_unAssignEmulatorsToAccount => simp [entities] at hn
  | emulators_unAssignEmulatorFromAccounts => simp [entities] at hn
  | _ => simp [kinds] at h

theorem HttpRequest.connections_of_kinds {req : HttpRequest} (hn : .emulatorConnections ∉ req.entities) :
    ∀ k ∈ req.kinds, k ≠ .assignments → .emulatorConnections ∉ k.entities := by
  cases req <;> simp [entities, kinds, Kind.entities] at hn ⊢

theorem Event.each_connections {e : Event} (hn : .emulatorConnections ∉ e.entities) :
    e.prog.Each KeepsConnections := by
  have hkinds : (∀ k ∈ e.kinds, .emulatorConnections ∉ k.entities) → e.prog.Each KeepsConnections :=
    fun hks => e.each_prog.mono fun _ _ => Writes.keepsConnections hks
  cases e with
  | http user req =>
    by_cases ha : req.admits user = true ∧ Kind.assignments ∈ req.kinds
    · refine Prog.Each.bind ?_ fun _ => trivial
      rw [HttpRequest.handle_of_admits ha.1]
      exact HttpRequest.keepsConnections user ha.2 hn
    · refine hkinds fun k hk => ?_
      obtain ⟨hadmits, hk⟩ := kinds_http hk
      exact HttpRequest.connections_of_kinds hn k hk fun heq => ha ⟨hadmits, heq ▸ hk⟩
  | message client user event body =>
    refine hkinds ?_
    cases event <;>
      simp [entities, kinds, SignalingServerGateway.Event.kinds, Kind.entities] at hn ⊢
  | disconnect client => simp [entities] at hn
  | login dto => exact hkinds (by simp [kinds, Kind.entities])

/-! ## What an event is the author of -/

theorem Writes.attributed {e : Event} {s s' : Server} (hw : Writes e.kinds s s')
    (hmessage : ∀ client user event body, e = .message client user event body →
      accepts user event body = true)
    (hconnections : .emulatorConnections ∉ e.entities → KeepsConnections s s') : Attributed e s s' := by
  refine ⟨fun n => ?_, hw.connections.imp_right fun hk => ?_, ?_⟩
  · rcases hw.tables with ht | ⟨k, hk, hw⟩
    · rw [ht]
      exact .inl (.refl _ n)
    · rcases hw.same s.integrity n with hsame | hn
      · exact .inl hsame
      · by_cases hmem : n ∈ e.entities
        · exact .inr ⟨Event.admitted_of_kinds hk hmessage, hmem⟩
        · obtain rfl := (Event.entities_of_kinds k hk n hn).resolve_right hmem
          exact .inl (hconnections hmem)
  · exact ⟨Event.admitted_of_kinds hk hmessage, Event.registers_of_kinds hk⟩
  · obtain ⟨l, hl, hk⟩ := hw.emitted
    exact ⟨l, hl, hk.imp_right fun hk =>
      ⟨Event.admitted_of_kinds hk hmessage, Event.emits_of_kinds hk⟩⟩

/-- Each step of the code of an event is attributed to it. -/
theorem Event.each_attributed (e : Event) : e.prog.Each (Attributed e) := by
  by_cases hrefused : ∃ client user event body, e = .message client user event body ∧
      accepts user event body = false
  · obtain ⟨client, user, event, body, rfl, hacc⟩ := hrefused
    obtain ⟨err, hprog⟩ : ∃ err, (message client user event body).prog = throw err :=
      handle_of_not_accepts hacc
    rw [hprog]
    exact trivial
  · have hmessage : ∀ client user event body, e = .message client user event body →
        accepts user event body = true := by
      intro client user event body he
      exact Bool.not_eq_false _ ▸ fun hacc => hrefused ⟨client, user, event, body, he, hacc⟩
    by_cases hn : .emulatorConnections ∈ e.entities
    · exact e.each_prog.mono fun s s' hw => hw.attributed hmessage fun hn' => absurd hn hn'
    · exact (e.each_prog.and (Event.each_connections hn)).mono fun s s' hw =>
        hw.1.attributed hmessage fun _ => hw.2

/-! ## Everything at once -/

/-- The server with all that is under way. Events of sockets that have gone do
not come any more. -/
def serving : Meeting Event Ext Server Rejection History where
  admits := History.Admits
  start := Event.start
  note := History.next
  aside _ _ := False

theorem Event.each_start {R : Server → Server → Prop} (hrefl : ∀ s, R s s) {e : Event} (he : e.prog.Each R)
    (x : Ext) (s : Server) : R s (e.start x s).1 ∧ (e.start x s).2.Each R := by
  have htask := he.toTask
  unfold start
  split
  · rename_i heq _
    rw [heq] at htask
    exact htask x s
  · exact ⟨hrefl s, htask⟩

/-- Every move is made for an event. -/
theorem exists_author {w₀ w : Gateway}
    {steps : List (Gateway × Live.Move Event Ext Server Rejection × Gateway)}
    (hrun : Trace (Live.Step serving) w₀ steps w) : ∀ x ∈ steps, ∃ e, x.2.1.author = some e := by
  refine hrun.forall_steps (P := fun _ m _ => ∃ e, m.author = some e) fun w m w' h => ?_
  cases h with
  | arrive => exact ⟨_, rfl⟩
  | turn => exact ⟨_, rfl⟩
  | aside haside => exact haside.elim

/-- **Attribution.** However the threads of all events take turns, each move is
made for one event; it writes rows of the entities of that event only, and only
if its guard admits it. -/
theorem attributed_run {w₀ w : Gateway} {steps : List (Gateway × Live.Move Event Ext Server Rejection × Gateway)}
    (hstart : w₀.threads = []) (hrun : Trace (Live.Step serving) w₀ steps w) :
    ∀ x ∈ steps, ∃ e, x.2.1.author = some e ∧ Attributed e x.1.state x.2.2.state := by
  have hall := Live.each_run (C := fun _ => True) (R := Attributed)
    (fun e x s _ => Event.each_start (Attributed.refl e) e.each_attributed x s) hrun
    hstart fun _ _ _ _ => trivial
  intro x hx
  obtain ⟨e, he⟩ := exists_author hrun x hx
  exact ⟨e, he, (hall x hx e he).2⟩

namespace Sample

instance (h : History) (e : Event) : Decidable (serving.admits h e) :=
  inferInstanceAs (Decidable (∀ client ∈ e.client?, h.Connected client))

/-- A device is added while another one is linked. -/
def addAndLink : List (Live.Choice Event Ext) :=
  [.arrive (.http superAdmin (.emulators_linkEmulator (linkBody "u" ["d"]))) (input ""),
    .arrive (.http emulatorAdmin (.emulators_create (.obj [("device_id", .str "f")]))) (input ""),
    .turn 0 (input ""), .turn 1 (input ""), .turn 0 (input "new"), .turn 1 (input ""),
    .turn 0 (input ""), .turn 0 (input "a"), .turn 0 (input "")]

end Sample

theorem attributed_run_sample : ∃ steps w, Trace (Live.Step serving) Sample.idle steps w ∧
    w.state.tables.userEmulators.length = 2 ∧ w.state.tables.emulators.length = 3 ∧
    ∀ x ∈ steps, ∃ e, x.2.1.author = some e ∧ Attributed e x.1.state x.2.2.state := by
  have hplay : (Live.play serving (fun _ _ => true) Sample.addAndLink Sample.idle).any (fun w =>
      decide (w.state.tables.userEmulators.length = 2 ∧ w.state.tables.emulators.length = 3)) = true := by
    decide +kernel
  obtain ⟨w, hw, hboth⟩ := (Option.any_eq_true _ _).1 hplay
  obtain ⟨hlinks, hdevices⟩ := of_decide_eq_true hboth
  obtain ⟨steps, hrun, -⟩ := Live.trace_of_play .nil hw
  exact ⟨steps, w, hrun, hlinks, hdevices, attributed_run rfl hrun⟩

end Damaru
