import Damaru.System
import Damaru.Verify.LinkExclusive
import Damaru.Verify.ServiceWrites

/-!
# Calls of the services

The calls that write devices, links, assignments, accounts or users, as the
operations of a run, and the kinds of statements that each of them issues.
-/

namespace Damaru

open Async Table

inductive Operation where
  | emulators_create (emulator : Json)
  | emulators_update (id : JsVal) (emulator : Json) (user : Option JwtToken)
  | emulators_remove (id : String)
  | emulators_extend (dto : ExtendExpiryDto)
  | emulators_assignEmulatorsToAccount (dto : MultiDevicesAccountLinkDto) (user : JwtToken)
  | emulators_unassignEmulatorsToAccount (dto : MultiDevicesAccountLinkDto) (user : JwtToken)
  | emulators_unassignEmulatorFromAccounts (dto : MultiAccountsLinkDto)
  | emulators_assignEmulator (dto : MultiAccountsLinkDto) (user : JwtToken)
  | accounts_create (dto : CreateAccountDto)
  | accounts_update (id : String) (dto : Json) (jwt : JwtToken)
  | accounts_remove (id : String) (payload : JwtToken)
  | users_create (user : Json)
  | users_update (id : String) (user : Json)
  /-- `linkEmulator`, `unlinkEmulator`, or `remove` of a user. -/
  | link (r : LinkRequest)

namespace Operation

def prog : Operation → Svc Unit
  | emulators_create emulator => do let _ ← EmulatorService.create emulator
  | emulators_update id emulator user => do let _ ← EmulatorService.update id emulator user
  | emulators_remove id => EmulatorService.remove id
  | emulators_extend dto => EmulatorService.extend dto
  | emulators_assignEmulatorsToAccount dto user => EmulatorService.assignEmulatorsToAccount dto user
  | emulators_unassignEmulatorsToAccount dto user =>
    EmulatorService.unassignEmulatorsToAccount dto user
  | emulators_unassignEmulatorFromAccounts dto => EmulatorService.unassignEmulatorFromAccounts dto
  | emulators_assignEmulator dto user => EmulatorService.assignEmulator dto user
  | accounts_create dto => do let _ ← AccountsService.create dto
  | accounts_update id dto jwt => AccountsService.update id dto jwt
  | accounts_remove id payload => AccountsService.remove id payload
  | users_create user => do let _ ← UsersService.create user
  | users_update id user => UsersService.update id user
  | link r => r.prog

/-- The kinds of statements of an operation. -/
def kinds : Operation → List Kind
  | emulators_create _ => [.newEmulator]
  | emulators_update _ emulator _ => [.columns emulator]
  | emulators_remove _ => [.deleteEmulator]
  | emulators_extend _ => [.expiry]
  | emulators_assignEmulatorsToAccount _ _ => [.assignments]
  | emulators_unassignEmulatorsToAccount _ _ => [.assignments]
  | emulators_unassignEmulatorFromAccounts _ => [.assignments]
  | emulators_assignEmulator _ _ => [.assignments]
  | accounts_create _ => [.newAccount]
  | accounts_update _ _ _ => [.accountFields]
  | accounts_remove _ _ => [.deleteAccount]
  | users_create _ => [.activityLogs, .newUser, .newAccount]
  | users_update _ _ => [.activityLogs, .userFields]
  | link (.link _ _) => [.newLink, .assignments, .state]
  | link (.unlink _ _) => [.endLink, .assignments, .state]
  | link (.remove _) => [.activityLogs, .state, .deleteUser]

theorem each_prog (op : Operation) : op.prog.Each (Writes op.kinds) := by
  cases op with
  | emulators_create emulator =>
    exact (EmulatorService.each_create (by simp [kinds])).bind fun _ => trivial
  | emulators_update id emulator user =>
    exact (EmulatorService.each_update (by simp [kinds])).bind fun _ => trivial
  | emulators_remove id => exact EmulatorService.each_remove (by simp [kinds])
  | emulators_extend dto => exact EmulatorService.each_extend (by simp [kinds])
  | emulators_assignEmulatorsToAccount dto user =>
    exact EmulatorService.each_assignEmulatorsToAccount (by simp [kinds])
  | emulators_unassignEmulatorsToAccount dto user =>
    exact EmulatorService.each_unassignEmulatorsToAccount (by simp [kinds])
  | emulators_unassignEmulatorFromAccounts dto =>
    exact EmulatorService.each_unassignEmulatorFromAccounts (by simp [kinds])
  | emulators_assignEmulator dto user =>
    exact EmulatorService.each_assignEmulator (by simp [kinds])
  | accounts_create dto => exact (AccountsService.each_create (by simp [kinds])).bind fun _ => trivial
  | accounts_update id dto jwt => exact AccountsService.each_update (by simp [kinds])
  | accounts_remove id payload => exact AccountsService.each_remove (by simp [kinds])
  | users_create user =>
    exact (UsersService.each_create (by simp [kinds]) (by simp [kinds]) (by simp [kinds])).bind
      fun _ => trivial
  | users_update id user => exact UsersService.each_update (by simp [kinds]) (by simp [kinds])
  | link r =>
    cases r with
    | link u ds =>
      show (EmulatorService.linkEmulator (LinkRequest.linkDto u ds)).Each _
      exact EmulatorService.each_linkEmulator (by simp [kinds]) (by simp [kinds]) (by simp [kinds])
    | unlink u ds =>
      show (EmulatorService.unlinkEmulator (LinkRequest.linkDto u ds)).Each _
      exact EmulatorService.each_unlinkEmulator (by simp [kinds]) (by simp [kinds]) (by simp [kinds])
    | remove u => exact UsersService.each_remove (by simp [kinds]) (by simp [kinds]) (by simp [kinds])

/-- What the kinds of writes of an operation preserve, the operation preserves. -/
theorem preserves {I : Tables → Prop} {op : Operation}
    (hkinds : ∀ k ∈ op.kinds, ∀ t t', t.Integrity → t'.Integrity → Write t k t' → I t → I t')
    {allowed : Rejection → Prop} {s s' : Server} (h : Pool.Settles allowed op.prog s s')
    (hs : I s.tables) : I s'.tables := by
  have heach : op.prog.Each fun s s' => I s.tables → I s'.tables := by
    refine op.each_prog.mono fun s s' hw => ?_
    rcases hw.tables with hw | ⟨k, hk, hw⟩
    · rw [hw]
      exact id
    · exact hkinds k hk _ _ s.integrity s'.integrity hw
  refine h.each (R := fun s s' => I s.tables → I s'.tables) (fun _ => id) ?_ heach hs
  intro a b c hab hbc ha
  exact hbc (hab ha)

/-- The operation is run alone to its end, whatever comes of it. -/
def Runs (s : Server) (op : Operation) (s' : Server) : Prop :=
  Pool.Settles (fun _ => True) op.prog s s'

/-- Runs one operation after another, each on its inputs. -/
def playAll : List (Operation × List Ext) → Server → Option Server
  | [], s => some s
  | (op, xs) :: l, s => (op.prog.run xs s).bind fun o => playAll l o.2

theorem trace_of_playAll {l : List (Operation × List Ext)} {s₀ s s' : Server}
    {steps : List (Server × Operation × Server)} (hs : Trace Runs s₀ steps s)
    (h : playAll l s = some s') :
    ∃ steps', Trace Runs s₀ steps' s' ∧ ∀ x ∈ steps', x ∈ steps ∨ x.2.1 ∈ l.map Prod.fst := by
  induction l generalizing s steps with
  | nil =>
    cases h
    exact ⟨steps, hs, fun x hx => .inl hx⟩
  | cons opxs l ih =>
    obtain ⟨op, xs⟩ := opxs
    obtain ⟨o, ho, h⟩ := Option.bind_eq_some_iff.1 h
    have hruns : Runs s op o.2 := .of_ends (Prog.ends_of_run ho) fun _ _ => trivial
    obtain ⟨steps', hsteps, hmem⟩ := ih (hs.snoc hruns) h
    refine ⟨steps', hsteps, fun x hx => ?_⟩
    rcases hmem x hx with hx | hx
    · rcases List.mem_append.1 hx with hx | hx
      · exact .inl hx
      · rw [List.mem_singleton.1 hx]
        exact .inr List.mem_cons_self
    · exact .inr (List.mem_cons_of_mem _ hx)

end Operation

/-- An Android user is created with its root account. -/
def Sample.createUser : Operation × List Ext :=
  (.users_create ((Sample.userBody "u").spreadWith "role" (.str Roles.AndroidUser.text)),
    ["", "", "", "u", "g1", "", "", "", "u-root", "g2", ""].map Sample.input)

end Damaru
