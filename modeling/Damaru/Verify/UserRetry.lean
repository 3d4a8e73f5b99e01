import Damaru.Verify.Operations
import Damaru.Verify.ServiceWrites
import Damaru.Verify.UserSpecs

/-!
# Retrying a failed `create` of a user

`create` opens no transaction: a write that fails rejects the call, and the
rows that were written before it stay. From the insert of the user on, its
email is taken, and the same call is refused.
-/

namespace Damaru

open Async Table

namespace UsersService

variable {α β : Type} {user : Json} {s : Server} {xs : List Ext}

/-- A call that began in `s` and was rejected in `s₁` has left no row, and
the same call, without failures, yields the user with its root account. -/
structure AllOrNothing (user : Json) (s s₁ : Server) : Prop where
  users : s₁.tables.users = s.tables.users
  accounts : s₁.tables.accounts = s.tables.accounts
  returns : ∃ o s', (create user).Ends s₁ (.ok o) s'
  yields : ∀ r s', (create user).Ends s₁ r s' → (∃ o, r = .ok o) ∧ Joins user s.tables s'.tables

/-- Once the user is there, no table but the accounts and the log is written. -/
theorem each_afterInsert {newPassword : JsVal} {userId : String} :
    (afterInsert user newPassword userId).Each (Writes [.activityLogs, .newAccount]) := by
  have hl : Kind.activityLogs ∈ [Kind.activityLogs, .newAccount] := List.mem_cons_self
  have ha : Kind.newAccount ∈ [Kind.activityLogs, .newAccount] := List.mem_cons_of_mem _ List.mem_cons_self
  have hfind : (do
      let created ← findOne userId
      return (created, newPassword) : Svc (Option (Users × List Account) × JsVal)).Each
        (Writes [.activityLogs, .newAccount]) :=
    (each_query (Writes.refl _)).bind fun _ => trivial
  unfold afterInsert
  refine (ActivityLogService.each_log hl).bind fun _ => ?_
  dsimp only
  split
  · refine (each_query (Writes.refl _)).bind fun _ => ?_
    refine (AccountsService.each_create ha).bind fun _ => ?_
    exact (ActivityLogService.each_log hl).bind fun _ => hfind
  · exact hfind

theorem users_eq_of_writes {s' : Server} (h : Writes [.activityLogs, .newAccount] s s') :
    s'.tables.users = s.tables.users := by
  rcases h.tables with h | ⟨k, hk, hw⟩
  · rw [h]
  · generalize s'.tables = t at hw
    rcases List.mem_cons.1 hk with rfl | hk
    · cases hw
      rfl
    · rw [List.mem_singleton.1 hk] at hw
      cases hw
      rfl

theorem afterInsert_stop_users {newPassword : JsVal} {userId : String} (xs : List Ext) (s : Server) :
    ((afterInsert user newPassword userId).stop xs s).2.tables.users = s.tables.users := by
  have hkeeps : (afterInsert user newPassword userId).Each
      fun s s' => s'.tables.users = s.tables.users :=
    each_afterInsert.mono fun _ _ => users_eq_of_writes
  exact hkeeps.stop (fun _ => rfl) (fun _ _ _ h h' => h'.trans h) xs s

/-- What a program that inserts a user has come to on the inputs `xs`: `n` calls
come before the insert and write nothing, and what follows it keeps the users. -/
inductive Inserts (s : Server) (n : Nat) : List Ext → Option (Except Rejection β) × Server → Prop
  | before {xs : List Ext} : xs.length ≤ n → Inserts s n xs (none, s)
  | refused {xs : List Ext} (e : Rejection) : Inserts s n xs (some (.error e), s)
  | inserted {xs : List Ext} {o : Option (Except Rejection β) × Server} (u : Users) : n < xs.length →
      o.2.tables.users = s.tables.users ++ [u] → Inserts s n xs o

theorem Inserts.cons {n : Nat} {x : Ext} {o : Option (Except Rejection β) × Server}
    (h : Inserts s n xs o) : Inserts s (n + 1) (x :: xs) o := by
  cases h with
  | before hlen => exact .before (Nat.succ_le_succ hlen)
  | refused e => exact .refused e
  | inserted u hlen husers => exact .inserted u (Nat.succ_lt_succ hlen) husers

/-- What a call answers that only reads goes on from the same state. -/
theorem inserts_query_bind {f : Ext → Server → Except Rejection α} {g : α → Svc β} {n : Nat}
    (hok : ∀ a xs, Inserts s n xs ((g a).stop xs s)) (xs : List Ext) :
    Inserts s (n + 1) xs ((query f >>= g).stop xs s) := by
  cases xs with
  | nil => exact .before (Nat.zero_le _)
  | cons x xs =>
    unfold query
    rw [Prog.stop_op_bind]
    cases f x s with
    | ok a => exact (hok a xs).cons
    | error e => exact .refused e

theorem inserts_insert_bind {values : Ext → Server → Except Rejection Users} {g : String → Svc β}
    (hg : ∀ id xs s, ((g id).stop xs s).2.tables.users = s.tables.users) (xs : List Ext) :
    Inserts s 0 xs ((usersRepository.insert values >>= g).stop xs s) := by
  cases xs with
  | nil => exact .before (Nat.zero_le _)
  | cons x xs =>
    unfold Repository.insert statement
    rw [Prog.stop_op_bind]
    cases hv : values x s with
    | error e =>
      simp only [hv]
      exact .refused e
    | ok u =>
      by_cases hi : (usersRepository.put (usersRepository.rows s.tables ++ [u]) s.tables).Integrity
      · simp only [hv, dif_pos hi]
        exact .inserted u (Nat.succ_pos _) (hg _ xs _)
      · simp only [hv, dif_neg hi]
        exact .refused .query

/-- The points of `create`: the lookup of the role, the draw and the hash come
before the insert of the user. -/
theorem create_inserts (user : Json) (xs : List Ext) (s : Server) :
    Inserts s 3 xs ((create user).stop xs s) := by
  cases hrole : roleText user with
  | none =>
    rw [create_eq_throw hrole]
    exact .refused _
  | some roleName =>
    rw [create_eq hrole]
    refine inserts_query_bind (fun role => inserts_query_bind fun draws => ?_) xs
    generalize (user.get? "password").orElse _ = newPassword
    unfold HashUtils.hash
    dsimp only
    split
    · refine inserts_query_bind fun password xs => ?_
      cases role with
      | none => exact .refused _
      | some role => exact inserts_insert_bind (fun id xs s => afterInsert_stop_users xs s) xs
    · exact fun xs => .refused _

/-- **Creating a user, all or nothing.** The call makes some calls of the
database and is rejected at the next. It has left no row, and its retry yields
the user, if and only if it has not come to write anything and the user can be
created. -/
theorem create_retry_iff (h : ((create user).stop xs s).1 = none) :
    AllOrNothing user s ((create user).stop xs s).2 ↔ xs.length ≤ 3 ∧ Creatable s user := by
  have hpoints := create_inserts user xs s
  generalize (create user).stop xs s = o at h hpoints
  cases hpoints with
  | before hlen =>
    constructor
    · intro hall
      obtain ⟨v, s', hends⟩ := hall.returns
      rcases create_post user s _ _ hends with ⟨hc, -⟩ | ⟨-, ⟨e, he⟩, -⟩
      · exact ⟨hlen, hc⟩
      · cases he
    · rintro ⟨-, hc⟩
      have hretry : ∀ r s', (create user).Ends s r s' →
          (∃ o, r = .ok o) ∧ Joins user s.tables s'.tables := by
        intro r s' hends
        rcases create_post user s _ _ hends with ⟨-, hjoins⟩ | ⟨hnot, -⟩
        · exact hjoins
        · exact (hnot hc).elim
      obtain ⟨r, s', hends⟩ := (forkFree_create user).exists_ends s
      obtain ⟨⟨o, rfl⟩, -⟩ := hretry r s' hends
      exact ⟨rfl, rfl, ⟨o, s', hends⟩, hretry⟩
  | refused e => cases h
  | inserted u hlen husers =>
    refine iff_of_false (fun hall => ?_) fun hcond => by omega
    have hlength := congrArg List.length (husers.symm.trans hall.users)
    rw [List.length_append, List.length_singleton] at hlength
    omega

end UsersService

def Sample.androidBody : Json := (Sample.userBody "u").spreadWith "role" (.str Roles.AndroidUser.text)

open UsersService in
/-- The insert of the user fails. -/
theorem create_retry_before : AllOrNothing Sample.androidBody Sample.seeded
    ((create Sample.androidBody).stop (["", "", ""].map Sample.input) Sample.seeded).2 := by
  have hnone : ((create Sample.androidBody).stop (["", "", ""].map Sample.input)
      Sample.seeded).1.isNone = true := by decide +kernel
  have hplay : ((create Sample.androidBody).run Sample.createUser.2 Sample.seeded).any
      (fun o => o.1.isOk) = true := by decide +kernel
  obtain ⟨o, ho, hok⟩ := (Option.any_eq_true _ _).1 hplay
  refine (create_retry_iff (Option.isNone_iff_eq_none.1 hnone)).2 ⟨by decide, ?_⟩
  rcases create_post _ _ _ _ (Prog.ends_of_run ho) with ⟨hc, -⟩ | ⟨-, ⟨e, he⟩, -⟩
  · exact hc
  · rw [he] at hok
    cases hok

open UsersService in
/-- The user is inserted, and the entry in the log is not. -/
theorem create_not_retried : ∃ user s xs, ((create user).stop xs s).1 = none ∧
    ¬ AllOrNothing user s ((create user).stop xs s).2 := by
  have hnone : ((create Sample.androidBody).stop (["", "", "", "u"].map Sample.input)
      Sample.seeded).1.isNone = true := by decide +kernel
  have husers : ((create Sample.androidBody).stop (["", "", "", "u"].map Sample.input)
      Sample.seeded).2.tables.users.length ≠ Sample.seeded.tables.users.length := by decide +kernel
  exact ⟨Sample.androidBody, Sample.seeded, ["", "", "", "u"].map Sample.input,
    Option.isNone_iff_eq_none.1 hnone, fun hall => husers (congrArg List.length hall.users)⟩

end Damaru
