import Damaru.Verify.EventWrites
import Damaru.Verify.Pins

/-!
# Updating an account

Who may change an account, what of it changes, and which PIN is refused: the
rule that the controller states, and what `update` makes of it. The service
knows no account that updates itself, and it counts the account's own PIN as
one that is in use.
-/

namespace Damaru

open Async Table

/-! ## Every account has a key and a user -/

def Tables.Owned (t : Tables) : Prop := ∀ a ∈ t.accounts, a.id ≠ "" ∧ a.user.isSome = true

/-- The step leaves no account without a key or a user. -/
def KeepsOwned (s s' : Server) : Prop := s.tables.Owned → s'.tables.Owned

theorem KeepsOwned.refl (s : Server) : KeepsOwned s s := id

theorem Write.owned {t t' : Tables} {k : Kind} (hw : Write t k t') (hk : k ≠ .newAccount)
    (h : t.Owned) : t'.Owned := by
  cases hw with
  | newAccount a => exact absurd rfl hk
  | accountFields p f hf =>
    intro a ha
    rcases mem_updateWhere.1 ha with ⟨b, hb, -, rfl⟩ | ⟨ha, -⟩
    · rw [(hf b).1, (hf b).2.1]
      exact h b hb
    · exact h a ha
  | deleteAccount p =>
    exact fun a ha => h a (List.filter_subset_self _ ((Tables.cascade_subset _).2.1 ha))
  | deleteUser p =>
    exact fun a ha => h a ((Tables.cascade_subset { t with users := t.users.filter p }).2.1 ha)
  | deleteEmulator p =>
    exact fun a ha => h a ((Tables.cascade_subset { t with emulators := t.emulators.filter p }).2.1 ha)
  | _ => exact h

theorem Writes.owns {ks : List Kind} (hk : .newAccount ∉ ks) {s s' : Server} (h : Writes ks s s') :
    KeepsOwned s s' := by
  intro hs
  rcases h.tables with htables | ⟨k, hmem, hw⟩
  · rw [htables]
    exact hs
  · exact hw.owned (fun hnew => hk (hnew ▸ hmem)) hs

namespace AccountsService

/-- An account is created with a generated key, for the user that is named. -/
theorem owns_create {dto : CreateAccountDto} (huser : dto.userId.bound.isSome = true) :
    (create dto).Each KeepsOwned := by
  have hinsert : (insertAccount dto).Each KeepsOwned := by
    refine (each_query KeepsOwned.refl).bind fun draws => Prog.Each.bind ?_ fun _ => trivial
    refine Repository.each_insert KeepsOwned.refl fun x s a ha hi hs b hb => ?_
    rcases List.mem_append.1 hb with hb | hb
    · exact hs b hb
    · obtain ⟨hid, hau, -⟩ := row_fields ha
      rw [List.mem_singleton.1 hb, hid, hau]
      exact ⟨x.fresh_ne_empty s, huser⟩
  rw [create_eq]
  split
  · refine (Repository.each_find KeepsOwned.refl).bind fun l => ?_
    split
    · exact trivial
    · exact hinsert
  · exact hinsert

end AccountsService

theorem UsersService.owns_create (user : Json) : (create user).Each KeepsOwned := by
  have hlog : ∀ action metadata, (ActivityLogService.log action metadata).Each KeepsOwned := by
    intro action metadata
    have heach : (ActivityLogService.log action metadata).Each (Writes [.activityLogs]) :=
      ActivityLogService.each_log (List.mem_singleton.2 rfl)
    exact heach.mono fun _ _ h => h.owns (by simp)
  cases hrole : roleText user with
  | none =>
    rw [create_eq_throw hrole]
    exact trivial
  | some roleName =>
    rw [create_eq hrole]
    refine (Repository.each_findRow KeepsOwned.refl).bind fun role => ?_
    refine (each_query KeepsOwned.refl).bind fun draws => Prog.Each.bind ?_ fun password => ?_
    · unfold HashUtils.hash
      split
      · exact each_query KeepsOwned.refl
      · exact trivial
    · cases role with
      | none => exact trivial
      | some role =>
        refine (Repository.each_insert KeepsOwned.refl fun _ _ _ _ _ hs => by exact hs).bind fun id => ?_
        unfold afterInsert
        refine (hlog _ _).bind fun _ => ?_
        dsimp only
        split
        · refine (each_query KeepsOwned.refl).bind fun _ => ?_
          refine (AccountsService.owns_create rfl).bind fun _ => (hlog _ _).bind fun _ => ?_
          exact (each_query KeepsOwned.refl).bind fun _ => trivial
        · exact (each_query KeepsOwned.refl).bind fun _ => trivial

theorem Event.owns_prog (e : Event) : e.prog.Each KeepsOwned := by
  have hkinds : .newAccount ∉ e.kinds → e.prog.Each KeepsOwned := fun hk =>
    e.each_prog.mono fun _ _ h => h.owns hk
  cases e with
  | http user req =>
    cases hadmits : req.admits user with
    | false =>
      refine hkinds fun hmem => ?_
      rw [(Event.kinds_http hmem).1] at hadmits
      cases hadmits
    | true =>
      have hreq : .newAccount ∉ req.kinds → (Event.http user req).prog.Each KeepsOwned := fun hk =>
        hkinds fun hmem => hk (Event.kinds_http hmem).2
      have hrun : (req.run user).Each KeepsOwned → (Event.http user req).prog.Each KeepsOwned := by
        intro h
        show (req.handle user >>= fun _ => pure ()).Each KeepsOwned
        rw [HttpRequest.handle_of_admits hadmits]
        exact h.bind fun _ => trivial
      cases req with
      | users_create dto =>
        refine hrun (HttpRequest.each_reading ?_)
        exact (UsersService.owns_create _).bind fun _ => trivial
      | accounts_create dto => exact hrun ((AccountsService.owns_create rfl).bind fun _ => trivial)
      | _ => exact hreq (by simp [HttpRequest.kinds])
  | message client user event body =>
    refine hkinds ?_
    cases event <;> simp [Event.kinds, SignalingServerGateway.Event.kinds]
  | disconnect client => exact hkinds (by simp [Event.kinds])
  | login dto => exact hkinds (by simp [Event.kinds])

theorem Reachable.owned {s : Server} (h : Reachable s) : s.tables.Owned := by
  obtain ⟨s₀, l, hseeded, -, -, htrace⟩ := h
  refine htrace.invariant (I := fun s => s.tables.Owned) (fun s e s' hstep hs => ?_) fun a ha => ?_
  · have howns := Pool.Settles.each (R := KeepsOwned) KeepsOwned.refl (fun _ _ _ h h' hs => h' (h hs)) hstep e.owns_prog
    exact howns hs
  · rw [hseeded.accounts] at ha
    cases ha

/-! ## What an update comes to -/

namespace AccountsService

/-- The text that a field of the body gives: none where the body does not have
it, or has a value that counts as none. -/
def given (dto : Json) (field : String) : Option String :=
  if (dto.get? field).truthy then (dto.get? field).bound else none

/-- The fields that the body gives, and no first login if a PIN is among them. -/
def updated (dto : Json) (a : Account) : Account :=
  { a with
    account_name := (given dto "account_name").getD a.account_name
    pin := (given dto "pin").getD a.pin
    first_login := a.first_login && (given dto "pin").isNone }

theorem given_of_truthy {dto : Json} {field : String} (h : (dto.get? field).truthy = true) :
    ∃ k, (dto.get? field).bound = some k ∧ given dto field = some k := by
  have hbound : ∃ k, (dto.get? field).bound = some k := by
    cases hj : dto.get? field with
    | none =>
      rw [hj] at h
      cases h
    | some j =>
      rw [hj] at h
      cases j with
      | null => cases h
      | _ => exact ⟨_, rfl⟩
  obtain ⟨k, hk⟩ := hbound
  refine ⟨k, hk, ?_⟩
  unfold given
  rw [if_pos h, hk]

theorem given_of_not_truthy {dto : Json} {field : String} (h : ¬ (dto.get? field).truthy = true) :
    given dto field = none := if_neg h

/-- What the service sets is what the body gives. -/
theorem updated_eq (dto : Json) (a : Account) :
    { a with
      account_name := if (dto.get? "account_name").truthy then
        (dto.get? "account_name").bound.getD a.account_name else a.account_name
      pin := if (dto.get? "pin").truthy then (dto.get? "pin").bound.getD a.pin else a.pin
      first_login := if (dto.get? "pin").truthy then false else a.first_login } = updated dto a := by
  have hgetD : ∀ (field d : String), (if (dto.get? field).truthy then (dto.get? field).bound.getD d
      else d) = (given dto field).getD d := by
    intro field d
    unfold given
    split <;> rfl
  unfold updated
  rw [hgetD, hgetD]
  by_cases hpin : (dto.get? "pin").truthy = true
  · obtain ⟨k, -, hk⟩ := given_of_truthy hpin
    rw [if_pos hpin, hk]
    simp
  · rw [if_neg hpin, given_of_not_truthy hpin]
    simp

end AccountsService

end Damaru
