import Damaru.Async.Yields
import Damaru.Services.Auth
import Damaru.Verify.Pins
import Damaru.Verify.UserSpecs

/-!
# Logging in

`validateUser` looks the user up by whatever the body holds as its email, and
compares PINs loosely. On bodies whose fields are texts that is the account of
the credentials; an email that is left out selects every user.
-/

namespace Damaru

open Async Table

/-- The clock shows the time `now`. -/
def Ext.at (now : Date) (x : Ext) : Ext := { x with now }

namespace AuthService

/-- The body holds the credentials of a user and, for an Android user, of one
of its accounts. -/
structure Credentials (s : Server) (body : Json) (u : Users) (o : Option Account) : Prop where
  user : u ∈ s.tables.users
  email : body.get? "email" = some (.str u.email)
  password : ∃ p, body.get? "password" = some (.str p) ∧ s.platform.compare p u.password = true
  android : s.tables.IsAndroid u → ∃ a ∈ s.tables.accounts, o = some a ∧ a.user = some u.id ∧
    body.get? "pin" = some (.str a.pin)
  other : ¬ s.tables.IsAndroid u → o = none

/-- The payload names the user and its account. -/
def Names (payload : JwtToken) (u : Users) (o : Option Account) : Prop :=
  payload.sub = u.id ∧ payload.accountId = o.map Account.id ∧
    (payload.subRole = some .AndroidAdmin ↔ ∃ a, o = some a ∧ a.is_admin = true)

/-- The tables with the login of the account written. -/
def recorded (now : Date) (t : Tables) : Option Account → Tables
  | none => t
  | some account => { t with
      accounts := updateWhere (fun a => decide (a.id = account.id)) (fun a => { a with last_login := some now })
        t.accounts }

/-- Logging in with the body authenticates exactly the account of its
credentials, and else changes nothing. -/
structure Authenticates (s : Server) (body : Json) : Prop where
  succeeds : ∀ now r s', ((validateUser body).under (Ext.at now)).Yields [] s r s' →
    ((∃ o, r = .ok o) ↔ ∃ u o, Credentials s body u o)
  names : ∀ now payload firstLogin s',
    ((validateUser body).under (Ext.at now)).Yields [] s (.ok (payload, firstLogin)) s' →
      ∃ u o, Credentials s body u o ∧ Names payload u o ∧ s'.tables = recorded now s.tables o
  refused : ∀ now e s', ((validateUser body).under (Ext.at now)).Yields [] s (.error e) s' →
    s'.tables = s.tables

/-! ## The parts of `validateUser` -/

/-- Writes the login of an account. -/
def stamp (account : Account) : Svc Unit := do
  let _ ← accountRepository.set (some (.str account.id)) fun x a => { a with last_login := some x.now }

/-- What is answered once the logins are on their way. -/
def answer (user : Users) (matching : List Account) : Except Rejection (JwtToken × Bool) :=
  match matching.getLast? with
  | none => .error (.http .UNAUTHORIZED "Invalid account or pin")
  | some account =>
    if account.account_name = "" then .error (.http .UNAUTHORIZED "Invalid account or pin")
    else .ok (accountPayload user account, account.first_login)

/-- What the PIN of the body comes to. -/
def entered (loginDto : Json) (user : Users) (accounts : List Account) :
    Except Rejection (JwtToken × Bool) :=
  (matchingAccounts (loginDto.get? "pin") accounts).bind (answer user)

/-- What follows a password that matches. -/
def enter (loginDto : Json) (user : Users) (role : Option Role) (accounts : List Account) :
    Svc (JwtToken × Bool) := do
  let some role := role | throw (cannotRead "name")
  if role.name = Roles.AndroidUser.text then
    let matching ← ofResult (matchingAccounts (loginDto.get? "pin") accounts)
    forM matching fun account => (stamp account).detach
    Prog.ofExcept (answer user matching)
  else
    return (⟨user.id, user.email, Roles.ofText role.name, none, none, none⟩, false)

/-- The row of a user as `findOne` loads it. -/
def loaded (x : Ext) (t : Tables) (u : Users) : Users × Option Role × List Account :=
  (u, t.role? u.role, Table.scan x.rank Account.id (t.accounts.filter fun a => a.user = some u.id))

/-- What follows the query for the user. -/
def signIn (loginDto : Json) : Option (Users × Option Role × List Account) → Svc (JwtToken × Bool)
  | none => throw (.http .UNAUTHORIZED "Invalid credentials")
  | some (user, role, accounts) => do
    if ← passwordMatches (loginDto.get? "password") (some user) then enter loginDto user role accounts
    else throw (.http .UNAUTHORIZED "Invalid credentials")

/-- The user that the email selects, if there is one. -/
def findUser (loginDto : Json) : Svc (Option (Users × Option Role × List Account)) :=
  query fun x s => .ok ((usersRepository.scan
    (fun _ u => (loginDto.get? "email").selects (some u.email)) x s.tables).head?.map (loaded x s.tables))

theorem validateUser_eq {loginDto : Json} (h : loginDto.isNull = false) :
    validateUser loginDto = findUser loginDto >>= signIn loginDto := by
  have hanswer : ∀ (user : Users) (matching : List Account), (match matching.getLast? with
      | none => throw (.http .UNAUTHORIZED "Invalid account or pin")
      | some account => (do
          if account.account_name = "" then
            throw (.http .UNAUTHORIZED "Invalid account or pin")
          return (accountPayload user account, account.first_login) : Svc (JwtToken × Bool))) =
      Prog.ofExcept (answer user matching) := by
    intro user matching
    unfold answer
    cases matching.getLast? with
    | none => rfl
    | some account =>
      dsimp only
      split <;> rfl
  unfold validateUser findUser
  rw [h]
  refine congrArg (query _ >>= ·) (funext fun found => ?_)
  cases found with
  | none => rfl
  | some found =>
    obtain ⟨user, role, accounts⟩ := found
    refine congrArg (passwordMatches _ _ >>= ·) (funext fun valid => ?_)
    dsimp only
    split
    · cases role with
      | none => rfl
      | some role =>
        unfold enter
        dsimp only
        split
        · refine congrArg (ofResult _ >>= ·) (funext fun matching => ?_)
          exact congrArg (forM matching (fun account => (stamp account).detach) >>= ·)
            (funext fun _ => hanswer user matching)
        · rfl
    · rfl

/-! ## What the parts come to -/

/-- The write of a login is one statement. The ORM refuses an empty key. -/
theorem stamp_eq (account : Account) : ∃ f : Ext → Server → Except Rejection Unit × Server,
    stamp account = Prog.op f ∧ ∀ x s, (f x s).2.tables =
      if account.id = "" then s.tables else recorded x.now s.tables (some account) := by
  unfold stamp
  rw [Repository.set_str]
  refine ⟨_, Prog.op_bind_pure, fun x s => ?_⟩
  unfold recorded
  by_cases hempty : account.id = ""
  · rw [if_pos hempty]
    simp only [if_pos hempty]
  · rw [if_neg hempty]
    have hi := s.integrity.set_accounts (p := fun a => decide (a.id = account.id))
      (f := fun a => { a with last_login := some x.now }) fun _ => ⟨rfl, rfl⟩
    simp only [if_neg hempty]
    exact congrArg (fun o : Except Rejection Nat × Server => o.2.tables) (dif_pos hi)

/-- The logins are written beside the answer; one of them is on record. -/
theorem yields_stamp {now : Date} {account : Account} {r₀ r : Except Rejection (JwtToken × Bool)}
    {s s' : Server} (h : (Prog.ofExcept r₀).Yields [((stamp account).under (Ext.at now)).toTask] s r s') :
    r = r₀ ∧ s'.tables = if account.id = "" then s.tables else recorded now s.tables (some account) := by
  obtain ⟨f, hf, htables⟩ := stamp_eq account
  rw [hf, Prog.under_op] at h
  obtain ⟨hr, x, rfl⟩ := h.one
  exact ⟨hr, htables _ s⟩

/-- The password of the body is that of the user. -/
def Opens (s : Server) (body : Json) (u : Users) : Prop :=
  ∃ p, body.get? "password" = some (.str p) ∧ p ≠ "" ∧ s.platform.compare p u.password = true

variable {body : Json} {u : Users} {role : Option Role} {accounts : List Account} {s s' : Server}
  {r : Except Rejection (JwtToken × Bool)} {f : Ext → Ext}

theorem yields_query {α : Type} {q : Ext → Server → Except Rejection α} {a : α} {g : α → Svc (JwtToken × Bool)}
    (hq : ∀ x, q (f x) s = .ok a) :
    ((query q >>= g).under f).Yields [] s r s' ↔ ((g a).under f).Yields [] s r s' := by
  unfold query
  rw [Prog.under_bind, Prog.under_op, Prog.yields_op_bind]
  simp only [hq]
  exact exists_const Ext

/-- A password that is not a text, or an empty one, is refused at once. -/
theorem signIn_cases (body : Json) (u : Users) (role : Option Role) (accounts : List Account) :
    (∃ p, body.get? "password" = some (.str p) ∧ p ≠ "" ∧ signIn body (some (u, role, accounts)) =
      (query fun _ s => .ok (s.platform.compare p u.password)) >>= fun valid =>
        if valid then enter body u role accounts else throw (.http .UNAUTHORIZED "Invalid credentials")) ∨
    ((∀ p, body.get? "password" = some (.str p) → p = "") ∧
      ∃ e, signIn body (some (u, role, accounts)) = throw e) := by
  unfold signIn passwordMatches HashUtils.compareHash
  dsimp only
  cases hp : body.get? "password" with
  | none => exact .inr ⟨fun _ h => (by cases h), _, rfl⟩
  | some j =>
    cases j with
    | str p =>
      by_cases hempty : p = ""
      · subst hempty
        exact .inr ⟨fun _ h => (by cases h; rfl), _, rfl⟩
      · refine .inl ⟨p, rfl, hempty, ?_⟩
        rw [if_pos (show JsVal.truthy (some (.str p)) = true from decide_eq_true hempty)]
    | _ =>
      refine .inr ⟨fun _ h => (by cases h), ?_⟩
      split <;> exact ⟨_, rfl⟩

theorem yields_signIn (ho : Opens s body u) :
    ((signIn body (some (u, role, accounts))).under f).Yields [] s r s' ↔
      ((enter body u role accounts).under f).Yields [] s r s' := by
  obtain ⟨p, hp, hne, hcompare⟩ := ho
  rcases signIn_cases body u role accounts with ⟨q, hq, -, heq⟩ | ⟨hempty, -⟩
  · rw [hp] at hq
    cases hq
    rw [heq, yields_query fun _ => congrArg Except.ok hcompare]
    rfl
  · exact absurd (hempty p hp) hne

theorem yields_signIn_refused (role : Option Role) (accounts : List Account) (f : Ext → Ext)
    (ho : ¬ Opens s body u) :
    ∃ e, ∀ r s', ((signIn body (some (u, role, accounts))).under f).Yields [] s r s' ↔
      r = .error e ∧ s' = s := by
  rcases signIn_cases body u role accounts with ⟨p, hp, hne, heq⟩ | ⟨-, e, heq⟩
  · refine ⟨.http .UNAUTHORIZED "Invalid credentials", fun r s' => ?_⟩
    have hcompare : s.platform.compare p u.password = false :=
      Bool.eq_false_iff.2 fun h => ho ⟨p, hp, hne, h⟩
    rw [heq, yields_query fun _ => congrArg Except.ok hcompare]
    exact Prog.yields_throw
  · refine ⟨e, fun r s' => ?_⟩
    rw [heq]
    exact Prog.yields_throw

/-! ### Beyond the password -/

theorem yields_enter_noRole : ((enter body u none accounts).under f).Yields [] s r s' ↔
    r = .error (cannotRead "name") ∧ s' = s := Prog.yields_throw

theorem yields_enter_other {k : Role} (hk : k.name ≠ Roles.AndroidUser.text) :
    ((enter body u (some k) accounts).under f).Yields [] s r s' ↔
      r = .ok (⟨u.id, u.email, Roles.ofText k.name, none, none, none⟩, false) ∧ s' = s := by
  unfold enter
  dsimp only
  rw [if_neg hk]
  exact Prog.yields_pure

/-- The accounts that the PIN of the body picks. -/
def matching (body : Json) (accounts : List Account) : List Account :=
  accounts.filter fun a => (body.get? "pin").looselyEquals a.pin

/-- If the comparison throws, no account would be picked. -/
theorem matchingAccounts_cases (body : Json) (accounts : List Account) :
    matchingAccounts (body.get? "pin") accounts = .ok (matching body accounts) ∨
      (matching body accounts = [] ∧ ∃ e, matchingAccounts (body.get? "pin") accounts = .error e) := by
  unfold matchingAccounts
  split
  · exact .inl rfl
  · rename_i hthrows
    refine .inr ⟨List.filter_eq_nil_iff.2 fun a _ => ?_, _, rfl⟩
    rw [Bool.or_eq_true, not_or] at hthrows
    cases hpin : body.get? "pin" with
    | none => exact Bool.false_ne_true
    | some j =>
      rw [hpin, Option.all_some] at hthrows
      rw [JsVal.looselyEquals_of_not_hasText (Bool.eq_false_iff.2 hthrows.2)]
      exact Bool.false_ne_true

theorem entered_of_mem {a : Account} (h : a ∈ matching body accounts) :
    entered body u accounts = answer u (matching body accounts) := by
  unfold entered
  rcases matchingAccounts_cases body accounts with heq | ⟨hnone, -⟩
  · rw [heq]
    rfl
  · rw [hnone] at h
    cases h

/-- What is answered is an error, or the answer for the accounts that the PIN
picks. -/
theorem entered_cases (body : Json) (u : Users) (accounts : List Account) :
    entered body u accounts = answer u (matching body accounts) ∨ ∃ e, entered body u accounts = .error e := by
  unfold entered
  rcases matchingAccounts_cases body accounts with heq | ⟨-, e, heq⟩
  · exact .inl (by rw [heq]; rfl)
  · exact .inr ⟨e, by rw [heq]; rfl⟩

theorem forkFree_stamp (a : Account) : ((stamp a).under f).ForkFree :=
  (Prog.forkFree_op.bind fun _ => trivial : (stamp a).ForkFree).under

theorem yields_enter_android {k : Role} (hk : k.name = Roles.AndroidUser.text) :
    ((enter body u (some k) accounts).under f).Yields [] s r s' ↔
      (Prog.ofExcept (entered body u accounts)).Yields
        ((matching body accounts).reverse.map fun a => ((stamp a).under f).toTask) s r s' := by
  unfold enter entered
  dsimp only
  rw [if_pos hk]
  rcases matchingAccounts_cases body accounts with heq | ⟨hnone, e, heq⟩
  · rw [heq]
    show ((forM (matching body accounts) (fun a => (stamp a).detach) >>= fun _ =>
      Prog.ofExcept (answer u (matching body accounts))).under f).Yields [] s r s' ↔ _
    rw [Prog.under_bind, Prog.under_forM]
    simp only [Prog.under_detach, Prog.under_ofExcept]
    rw [Prog.yields_forM_detach forkFree_stamp, List.append_nil, List.map_reverse]
    exact Iff.rfl
  · rw [heq, hnone]
    exact Iff.rfl

theorem mem_matching {x : Ext} {a : Account} :
    a ∈ matching body (loaded x s.tables u).2.2 ↔ a ∈ s.tables.accounts ∧ a.user = some u.id ∧
      (body.get? "pin").looselyEquals a.pin = true := by
  unfold matching loaded
  rw [List.mem_filter, mem_scan, List.mem_filter, decide_eq_true_eq, and_assoc]

/-- The user is found before its password is looked at. -/
theorem yields_validateUser (h : body.isNull = false) :
    ((validateUser body).under f).Yields [] s r s' ↔ ∃ x : Ext, ((signIn body ((usersRepository.scan
      (fun _ u => (body.get? "email").selects (some u.email)) (f x) s.tables).head?.map
        (loaded (f x) s.tables))).under f).Yields [] s r s' := by
  rw [validateUser_eq h]
  unfold findUser query
  rw [Prog.under_bind, Prog.under_op, Prog.yields_op_bind]
  exact Iff.rfl

/-- The role of a user as it is loaded. -/
theorem role_cases (hi : s.tables.Integrity) (hu : u ∈ s.tables.users) :
    (u.role = none ∧ s.tables.role? u.role = none) ∨ ∃ k ∈ s.tables.roles,
      u.role = some k.id ∧ s.tables.role? u.role = some k := by
  have href := hi.role u hu
  cases hrole : u.role with
  | none => exact .inl ⟨rfl, rfl⟩
  | some id =>
    rw [hrole, refers_some] at href
    obtain ⟨k, hk, rfl⟩ := List.mem_map.1 href
    exact .inr ⟨k, hk, rfl, find?_key hi.toKeys.roles hk⟩

/-! ## The condition -/

/-- The code lets the body in as the user: the password is the user's, and it
picks an account of an Android user. -/
def Admits (s : Server) (body : Json) (u : Users) : Prop :=
  Opens s body u ∧ u.role ≠ none ∧ (s.tables.IsAndroid u → ∃ a ∈ s.tables.accounts, a.user = some u.id ∧
    (body.get? "pin").looselyEquals a.pin = true ∧ (a.id ≠ "" ∨ a.account_name ≠ ""))

/-- A body that is let in names the user by its email, and an account by a PIN,
as texts; and credentials are not void: the password is not empty, the user has
a role, and the account a key and a name. -/
structure Faithful (s : Server) (body : Json) : Prop where
  texts : ∀ u ∈ s.tables.users, (body.get? "email").selects (some u.email) = true → Admits s body u →
    body.get? "email" = some (.str u.email) ∧
      (s.tables.IsAndroid u → ∃ pin, body.get? "pin" = some (.str pin))
  full : ∀ u o, Credentials s body u o → body.get? "password" ≠ some (.str "") ∧ u.role ≠ none ∧
    ∀ a, o = some a → a.id ≠ "" ∧ a.account_name ≠ ""

theorem Credentials.nonNull {o : Option Account} (h : Credentials s body u o) : body.isNull = false := by
  cases body with
  | null => cases h.email
  | _ => rfl

/-- Credentials are those of one user and one account. -/
theorem Credentials.unique {v : Users} {o o' : Option Account} (hpins : s.tables.PinsDistinct)
    (h : Credentials s body u o) (h' : Credentials s body v o') : v = u ∧ o' = o := by
  have hemail := h'.email
  rw [h.email, Option.some.injEq, Json.str.injEq] at hemail
  obtain rfl : v = u := eq_of_key s.integrity.emails h'.user h.user hemail.symm
  refine ⟨rfl, ?_⟩
  by_cases handroid : s.tables.IsAndroid v
  · obtain ⟨a, ha, rfl, hau, hpin⟩ := h.android handroid
    obtain ⟨b, hb, rfl, hbu, hpin'⟩ := h'.android handroid
    rw [hpin, Option.some.injEq, Json.str.injEq] at hpin'
    rw [hpins v.id a ha b hb hau hbu hpin']
  · rw [h.other handroid, h'.other handroid]

/-- The user of credentials is the one that the email selects. -/
theorem Credentials.eq_of_selects {v : Users} {o : Option Account} (h : Credentials s body v o)
    (hu : u ∈ s.tables.users) (hsel : (body.get? "email").selects (some u.email) = true) : v = u := by
  rw [h.email, JsVal.selects_str, Option.some.injEq] at hsel
  exact eq_of_key s.integrity.emails h.user hu hsel.symm

/-- A PIN that is a text picks one account. -/
theorem matching_text {x : Ext} {pin : String} (hpins : s.tables.PinsDistinct)
    (hpin : body.get? "pin" = some (.str pin)) {a : Account} (ha : a ∈ s.tables.accounts)
    (hau : a.user = some u.id) (hapin : pin = a.pin) :
    matching body (loaded x s.tables u).2.2 = [a] := by
  have hone : ∀ b ∈ matching body (loaded x s.tables u).2.2, b = a := by
    intro b hb
    obtain ⟨hb, hbu, heq⟩ := mem_matching.1 hb
    rw [hpin] at heq
    exact hpins u.id b hb a ha hbu hau ((JsVal.looselyEquals_str.1 heq).symm.trans hapin)
  have hmem : a ∈ matching body (loaded x s.tables u).2.2 := by
    refine mem_matching.2 ⟨ha, hau, ?_⟩
    rw [hpin]
    exact decide_eq_true hapin
  have hnodup : (matching body (loaded x s.tables u).2.2).Nodup := by
    refine List.Nodup.filter _ ((scan_perm _ _ _).nodup_iff.2 (List.Nodup.filter _ ?_))
    exact .of_map Account.id s.integrity.accounts
  exact List.perm_singleton.1 ((List.perm_ext_iff_of_nodup hnodup (List.nodup_singleton a)).2 fun b =>
    ⟨fun hb => List.mem_singleton.2 (hone b hb), fun hb => List.mem_singleton.1 hb ▸ hmem⟩)

/-- What logging in comes to, if the body is faithful. -/
def Outcome (now : Date) (s : Server) (body : Json) (r : Except Rejection (JwtToken × Bool)) (s' : Server) :
    Prop :=
  (∃ u o payload firstLogin, Credentials s body u o ∧ r = .ok (payload, firstLogin) ∧ Names payload u o ∧
    s'.tables = recorded now s.tables o) ∨
  ((¬ ∃ u o, Credentials s body u o) ∧ (∃ e, r = .error e) ∧ s'.tables = s.tables)

/-- Accounts without a key and a name are answered for like none, and the
ORM refuses to write their login. -/
theorem yields_nameless {now : Date} (hl : ∀ a ∈ matching body accounts, a.id = "" ∧ a.account_name = "")
    (h : (Prog.ofExcept (entered body u accounts)).Yields
      ((matching body accounts).reverse.map fun a => ((stamp a).under (Ext.at now)).toTask) s r s') :
    (∃ e, r = .error e) ∧ s'.tables = s.tables := by
  constructor
  · rw [h.answer]
    rcases entered_cases body u accounts with heq | herror
    · rw [heq]
      unfold answer
      cases hlast : (matching body accounts).getLast? with
      | none => exact ⟨_, rfl⟩
      | some a =>
        obtain ⟨-, hname⟩ := hl a (List.mem_of_getLast? hlast)
        exact ⟨_, if_pos hname⟩
    · exact herror
  · refine h.each (R := fun s s' => s'.tables = s.tables) (fun _ => rfl)
      (fun a b c (hab : b.tables = a.tables) (hbc : c.tables = b.tables) => hbc.trans hab)
      (Prog.each_ofExcept _) fun t ht => ?_
    obtain ⟨a, ha, rfl⟩ := List.mem_map.1 ht
    obtain ⟨hid, -⟩ := hl a (List.mem_reverse.1 ha)
    obtain ⟨g, hg, htables⟩ := stamp_eq a
    rw [hg, Prog.under_op]
    exact (Prog.each_op fun x s => by rw [htables, if_pos hid]).toTask

/-- A PIN that picks an account of an Android user. -/
theorem Faithful.outcome_android {now : Date} {x : Ext} (hf : Faithful s body) (hpins : s.tables.PinsDistinct)
    (hu : u ∈ s.tables.users) (hsel : (body.get? "email").selects (some u.email) = true)
    (ho : Opens s body u) (hurole : u.role ≠ none) (handroid : s.tables.IsAndroid u)
    (h : (Prog.ofExcept (entered body u (loaded x s.tables u).2.2)).Yields
      ((matching body (loaded x s.tables u).2.2).reverse.map fun a =>
        ((stamp a).under (Ext.at now)).toTask) s r s') : Outcome now s body r s' := by
  by_cases hmatch : ∃ a ∈ s.tables.accounts, a.user = some u.id ∧
      (body.get? "pin").looselyEquals a.pin = true ∧ (a.id ≠ "" ∨ a.account_name ≠ "")
  · obtain ⟨hemail, hpin⟩ := hf.texts u hu hsel ⟨ho, hurole, fun _ => hmatch⟩
    obtain ⟨pin, hpin⟩ := hpin handroid
    obtain ⟨a, ha, hau, heq, -⟩ := hmatch
    have hmem : a ∈ matching body (loaded x s.tables u).2.2 := mem_matching.2 ⟨ha, hau, heq⟩
    rw [hpin] at heq
    have heq' : pin = a.pin := JsVal.looselyEquals_str.1 heq
    obtain ⟨p, hp, -, hcompare⟩ := ho
    have hc : Credentials s body u (some a) := ⟨hu, hemail, ⟨p, hp, hcompare⟩,
      fun _ => ⟨a, ha, rfl, hau, heq' ▸ hpin⟩, fun hno => absurd handroid hno⟩
    obtain ⟨-, -, hfull⟩ := hf.full u _ hc
    obtain ⟨hid, haname⟩ := hfull a rfl
    rw [entered_of_mem hmem, matching_text hpins hpin ha hau heq'] at h
    obtain ⟨hr, htables⟩ := yields_stamp h
    rw [if_neg hid] at htables
    refine .inl ⟨u, some a, _, _, hc, hr.trans (if_neg haname), ⟨rfl, rfl, ?_⟩, htables⟩
    unfold accountPayload
    cases hadmin : a.is_admin <;> simp [hadmin]
  · have hnameless : ∀ a ∈ matching body (loaded x s.tables u).2.2, a.id = "" ∧ a.account_name = "" := by
      intro a ha
      obtain ⟨ha, hau, heq⟩ := mem_matching.1 ha
      refine ⟨?_, ?_⟩ <;> by_contra hne
      · exact hmatch ⟨a, ha, hau, heq, .inl hne⟩
      · exact hmatch ⟨a, ha, hau, heq, .inr hne⟩
    obtain ⟨herror, htables⟩ := yields_nameless hnameless h
    refine .inr ⟨?_, herror, htables⟩
    rintro ⟨v, o, hc⟩
    obtain rfl := hc.eq_of_selects hu hsel
    obtain ⟨a, ha, rfl, hau, hpin⟩ := hc.android handroid
    refine hmatch ⟨a, ha, hau, ?_, .inl ((hf.full v _ hc).2.2 a rfl).1⟩
    rw [hpin]
    exact decide_eq_true rfl

/-- Beyond the password, a faithful body comes to the account of its
credentials. -/
theorem Faithful.outcome_enter {now : Date} {x : Ext} (hf : Faithful s body) (hpins : s.tables.PinsDistinct)
    (hu : u ∈ s.tables.users) (hsel : (body.get? "email").selects (some u.email) = true)
    (ho : Opens s body u) (h : ((enter body u (loaded x s.tables u).2.1 (loaded x s.tables u).2.2).under
      (Ext.at now)).Yields [] s r s') : Outcome now s body r s' := by
  rcases role_cases s.integrity hu with ⟨hnone, hrole⟩ | ⟨k, hk, huk, hrole⟩
  · have hloaded : (loaded x s.tables u).2.1 = none := hrole
    rw [hloaded, yields_enter_noRole] at h
    refine .inr ⟨?_, ⟨_, h.1⟩, by rw [h.2]⟩
    rintro ⟨v, o, hc⟩
    exact (hf.full v o hc).2.1 (hc.eq_of_selects hu hsel ▸ hnone)
  · have hloaded : (loaded x s.tables u).2.1 = some k := hrole
    have hiff := s.integrity.isAndroid_iff hk huk
    have hurole : u.role ≠ none := by
      rw [huk]
      exact Option.some_ne_none _
    rw [hloaded] at h
    by_cases hname : k.name = Roles.AndroidUser.text
    · rw [yields_enter_android hname] at h
      exact hf.outcome_android hpins hu hsel ho hurole (hiff.2 hname) h
    · rw [yields_enter_other hname] at h
      have hno : ¬ s.tables.IsAndroid u := fun ha => hname (hiff.1 ha)
      obtain ⟨hemail, -⟩ := hf.texts u hu hsel ⟨ho, hurole, fun ha => absurd ha hno⟩
      obtain ⟨p, hp, -, hcompare⟩ := ho
      refine .inl ⟨u, none, _, _, ⟨hu, hemail, ⟨p, hp, hcompare⟩, fun ha => absurd ha hno, fun _ => rfl⟩,
        h.1, ⟨rfl, rfl, ?_⟩, by rw [h.2]; rfl⟩
      simp

theorem Faithful.outcome {now : Date} (hf : Faithful s body) (hpins : s.tables.PinsDistinct)
    (h : ((validateUser body).under (Ext.at now)).Yields [] s r s') : Outcome now s body r s' := by
  cases hnull : body.isNull with
  | true =>
    have heq : validateUser body = throw (cannotRead "email") := by
      unfold validateUser
      rw [hnull]
      rfl
    rw [heq] at h
    obtain ⟨hr, rfl⟩ := Prog.yields_throw.1 h
    refine .inr ⟨?_, ⟨_, hr⟩, rfl⟩
    rintro ⟨u, o, hc⟩
    have hnonnull := hc.nonNull
    rw [hnull] at hnonnull
    cases hnonnull
  | false =>
    obtain ⟨x, h⟩ := (yields_validateUser hnull).1 h
    cases hhead : (usersRepository.scan (fun _ u => (body.get? "email").selects (some u.email))
        (Ext.at now x) s.tables).head? with
    | none =>
      rw [hhead] at h
      obtain ⟨hr, rfl⟩ := Prog.yields_throw.1 h
      refine .inr ⟨?_, ⟨_, hr⟩, rfl⟩
      rintro ⟨u, o, hc⟩
      have hsel := Repository.scan_head_none hhead hc.user
      rw [hc.email] at hsel
      exact Bool.false_ne_true (hsel.symm.trans (JsVal.selects_str.2 rfl))
    | some u =>
      obtain ⟨hu, hsel⟩ := Repository.of_scan_head hhead
      rw [hhead] at h
      by_cases ho : Opens s body u
      · exact hf.outcome_enter hpins hu hsel ho ((yields_signIn ho).1 h)
      · obtain ⟨e, hiff⟩ := yields_signIn_refused (loaded (Ext.at now x) s.tables u).2.1
          (loaded (Ext.at now x) s.tables u).2.2 (Ext.at now) ho
        obtain ⟨hr, rfl⟩ := (hiff r s').1 h
        refine .inr ⟨?_, ⟨_, hr⟩, rfl⟩
        rintro ⟨v, o, hc⟩
        obtain rfl := hc.eq_of_selects hu hsel
        obtain ⟨p, hp, hcompare⟩ := hc.password
        exact ho ⟨p, hp, fun hempty => (hf.full v o hc).1 (hempty ▸ hp), hcompare⟩

/-- A faithful body authenticates exactly one account. -/
theorem Faithful.authenticates (hf : Faithful s body) (hpins : s.tables.PinsDistinct) :
    Authenticates s body where
  succeeds now r s' h := by
    rcases hf.outcome hpins h with ⟨u, o, payload, first, hc, rfl, -⟩ | ⟨hno, ⟨e, rfl⟩, -⟩
    · exact iff_of_true ⟨_, rfl⟩ ⟨u, o, hc⟩
    · exact iff_of_false (fun ⟨_, h⟩ => by cases h) hno
  names now payload firstLogin s' h := by
    rcases hf.outcome hpins h with ⟨u, o, payload', first, hc, hr, hnames⟩ | ⟨-, ⟨e, hr⟩, -⟩
    · cases hr
      exact ⟨u, o, hc, hnames⟩
    · cases hr
  refused now e s' h := by
    rcases hf.outcome hpins h with ⟨u, o, payload, first, hc, hr, -⟩ | ⟨-, -, htables⟩
    · cases hr
    · exact htables

/-- The query can find any user that the email selects. -/
theorem exists_found (hnull : body.isNull = false) (hu : u ∈ s.tables.users)
    (hsel : (body.get? "email").selects (some u.email) = true) : ∃ x : Ext, ∀ now r s',
      ((signIn body (some (loaded x s.tables u))).under (Ext.at now)).Yields [] s r s' →
        ((validateUser body).under (Ext.at now)).Yields [] s r s' := by
  obtain ⟨rank, hhead⟩ := @Repository.exists_scan_head _ usersRepository
    (fun _ u => (body.get? "email").selects (some u.email)) s.tables s.integrity.users u hu hsel default
  refine ⟨{ (default : Ext) with rank := rank }, fun now r s' h => ?_⟩
  refine (yields_validateUser hnull).2 ⟨{ (default : Ext) with rank := rank }, ?_⟩
  have hfound : (usersRepository.scan (fun _ u => (body.get? "email").selects (some u.email))
      (Ext.at now { (default : Ext) with rank := rank }) s.tables).head? = some u := hhead
  rw [hfound]
  exact h

/-- If the password is that of a user whom the email selects, the user can be
entered with its role. -/
theorem exists_entered {k : Option Role} (hu : u ∈ s.tables.users)
    (hsel : (body.get? "email").selects (some u.email) = true) (ho : Opens s body u)
    (hrole : s.tables.role? u.role = k) : ∃ x : Ext, ∀ now r s',
      ((enter body u k (loaded x s.tables u).2.2).under (Ext.at now)).Yields [] s r s' →
        ((validateUser body).under (Ext.at now)).Yields [] s r s' := by
  have hnull : body.isNull = false := by
    obtain ⟨p, hp, -⟩ := ho
    cases body with
    | null => cases hp
    | _ => rfl
  obtain ⟨x, hx⟩ := exists_found hnull hu hsel
  refine ⟨x, fun now r s' h => hx now r s' ((yields_signIn ho).2 ?_)⟩
  rw [← hrole] at h
  exact h

/-- The logins are written, that of a given account last. -/
theorem exists_yields_stamp (now : Date) (s : Server) {l : List Account} {a : Account} (ha : a ∈ l)
    (r₀ : Except Rejection (JwtToken × Bool)) : ∃ s₁ s' : Server, (Prog.ofExcept r₀).Yields
      (l.reverse.map fun a => ((stamp a).under (Ext.at now)).toTask) s r₀ s' ∧
      s'.tables = if a.id = "" then s₁.tables else recorded now s₁.tables (some a) := by
  have hfork : ∀ p ∈ l.reverse.map (fun a => (stamp a).under (Ext.at now)), p.ForkFree := by
    intro p hp
    obtain ⟨b, -, rfl⟩ := List.mem_map.1 hp
    exact forkFree_stamp b
  obtain ⟨s₁, hrun⟩ := Prog.exists_yields_last r₀ hfork
    (List.mem_map.2 ⟨a, List.mem_reverse.2 ha, rfl⟩) s
  obtain ⟨g, hg, htables⟩ := stamp_eq a
  have hend : ((stamp a).under (Ext.at now)).Ends s₁ (g (Ext.at now default) s₁).1
      (g (Ext.at now default) s₁).2 := by
    rw [hg, Prog.under_op]
    exact Prog.ends_op.2 ⟨default, rfl⟩
  have hyields := hrun _ _ hend
  rw [List.map_map] at hyields
  exact ⟨s₁, _, hyields, htables _ _⟩

/-- A time at which the account has not been logged in. -/
theorem exists_time (a : Account) : ∃ now, a.last_login ≠ some now := by
  cases hlast : a.last_login with
  | none => exact ⟨0, by simp⟩
  | some d =>
    refine ⟨d + 1, fun h => ?_⟩
    exact absurd (Option.some.inj h) (Int.ne_of_lt (Int.lt_succ d))

theorem recorded_ne {now : Date} {t t' : Tables} {a : Account} (ha : a ∈ t.accounts)
    (hnow : a.last_login ≠ some now) : recorded now t' (some a) ≠ t := by
  rintro rfl
  rcases mem_updateWhere.1 ha with ⟨b, -, -, hb⟩ | ⟨-, hid⟩
  · rw [← hb] at hnow
    exact hnow rfl
  · exact of_decide_eq_false hid rfl

theorem answer_sub {l : List Account} {o : JwtToken × Bool} (h : answer u l = .ok o) : o.1.sub = u.id := by
  unfold answer at h
  split at h
  · cases h
  · split at h
    · cases h
    · cases h
      rfl

/-- If the login of an account that has a name is refused, an account with a
key comes after it. -/
theorem exists_keyed {l : List Account} {a : Account} {e : Rejection} (ha : a ∈ l)
    (hkeys : ∀ b ∈ l, b.id = a.id → b = a) (hne : a.id ≠ "" ∨ a.account_name ≠ "")
    (h : answer u l = .error e) : ∃ b ∈ l, b.id ≠ "" := by
  by_cases hid : a.id = ""
  · unfold answer at h
    split at h
    · rename_i hlast
      rw [List.getLast?_eq_none_iff.1 hlast] at ha
      cases ha
    · rename_i b hlast
      have hb := List.mem_of_getLast? hlast
      split at h
      · rename_i hname
        refine ⟨b, hb, fun hbid => ?_⟩
        rw [hkeys b hb (hbid.trans hid.symm)] at hname
        exact hne.elim (fun hne => hne hid) fun hne => hne hname
      · cases h
  · exact ⟨a, ha, hid⟩

/-- Whoever is let in gave its email and its PIN as texts. -/
theorem Authenticates.texts (h : Authenticates s body) (hu : u ∈ s.tables.users)
    (hsel : (body.get? "email").selects (some u.email) = true) (hadmits : Admits s body u) :
    body.get? "email" = some (.str u.email) ∧
      (s.tables.IsAndroid u → ∃ pin, body.get? "pin" = some (.str pin)) := by
  obtain ⟨ho, hurole, hpicks⟩ := hadmits
  obtain ⟨k, hk, huk, hrole⟩ := (role_cases s.integrity hu).resolve_left fun hnone => hurole hnone.1
  have hiff := s.integrity.isAndroid_iff hk huk
  obtain ⟨x, hx⟩ := exists_entered hu hsel ho hrole
  -- a login that returns names `u`, so the credentials are those of `u`
  have hnamed : ∀ now payload first s', payload.sub = u.id →
      ((validateUser body).under (Ext.at now)).Yields [] s (.ok (payload, first)) s' →
      body.get? "email" = some (.str u.email) ∧
        (s.tables.IsAndroid u → ∃ pin, body.get? "pin" = some (.str pin)) := by
    intro now payload first s' hsub hend
    obtain ⟨v, o, hc, ⟨hsub', -⟩, -⟩ := h.names now payload first s' hend
    obtain rfl : v = u := eq_of_key s.integrity.users hc.user hu (hsub'.symm.trans hsub)
    refine ⟨hc.email, fun handroid => ?_⟩
    obtain ⟨a, -, -, -, hpin⟩ := hc.android handroid
    exact ⟨_, hpin⟩
  by_cases hname : k.name = Roles.AndroidUser.text
  · obtain ⟨a, ha, hau, heq, hne⟩ := hpicks (hiff.2 hname)
    have hmem : a ∈ matching body (loaded x s.tables u).2.2 := mem_matching.2 ⟨ha, hau, heq⟩
    cases hanswer : answer u (matching body (loaded x s.tables u).2.2) with
    | ok o =>
      obtain ⟨s₁, s', hrun, -⟩ := exists_yields_stamp 0 s hmem (.ok o)
      refine hnamed 0 o.1 o.2 s' (answer_sub hanswer) (hx 0 _ _ ((yields_enter_android hname).2 ?_))
      rw [entered_of_mem hmem, hanswer]
      exact hrun
    | error e =>
      -- the login is refused, but that of an account with a key is written
      obtain ⟨b, hb, hbid⟩ := exists_keyed hmem
        (fun b hb => eq_of_key s.integrity.accounts (mem_matching.1 hb).1 ha) hne hanswer
      obtain ⟨now, hnow⟩ := exists_time b
      obtain ⟨s₁, s', hrun, htables⟩ := exists_yields_stamp now s hb (.error e)
      rw [if_neg hbid] at htables
      have hend := hx now (.error e) s' ((yields_enter_android hname).2
        (by rw [entered_of_mem hmem, hanswer]; exact hrun))
      rw [h.refused now e s' hend] at htables
      exact absurd htables.symm (recorded_ne (mem_matching.1 hb).1 hnow)
  · exact hnamed 0 _ _ s rfl (hx 0 _ _ ((yields_enter_other hname).2 ⟨rfl, rfl⟩))

/-- Credentials are not void. -/
theorem Authenticates.full {o : Option Account} (h : Authenticates s body) (hpins : s.tables.PinsDistinct)
    (hc : Credentials s body u o) : body.get? "password" ≠ some (.str "") ∧ u.role ≠ none ∧
      ∀ a, o = some a → a.id ≠ "" ∧ a.account_name ≠ "" := by
  have hsel : (body.get? "email").selects (some u.email) = true := by
    rw [hc.email]
    exact JsVal.selects_str.2 rfl
  have hnever : ∀ now e s', ¬ ((validateUser body).under (Ext.at now)).Yields [] s (.error e) s' := by
    intro now e s' hend
    obtain ⟨o, ho⟩ := (h.succeeds now _ s' hend).2 ⟨u, _, hc⟩
    cases ho
  have ho : Opens s body u := by
    by_contra hno
    obtain ⟨x, hx⟩ := exists_found hc.nonNull hc.user hsel
    obtain ⟨e, hiff⟩ := yields_signIn_refused (loaded x s.tables u).2.1 (loaded x s.tables u).2.2 (Ext.at 0) hno
    exact hnever 0 e s (hx 0 _ _ ((hiff _ _).2 ⟨rfl, rfl⟩))
  have hpassword : body.get? "password" ≠ some (.str "") := by
    obtain ⟨p, hp, hne, -⟩ := ho
    rw [hp]
    intro heq
    exact hne (by simpa using heq)
  rcases role_cases s.integrity hc.user with ⟨-, hrole⟩ | ⟨k, hk, huk, hrole⟩
  · obtain ⟨x, hx⟩ := exists_entered hc.user hsel ho hrole
    exact (hnever 0 _ s (hx 0 _ _ (yields_enter_noRole.2 ⟨rfl, rfl⟩))).elim
  refine ⟨hpassword, by rw [huk]; exact Option.some_ne_none _, ?_⟩
  rintro a rfl
  have handroid : s.tables.IsAndroid u := by
    by_contra hno
    cases hc.other hno
  obtain ⟨b, ha, hab, hau, hpin⟩ := hc.android handroid
  cases hab
  have hone : ∀ x : Ext, matching body (loaded x s.tables u).2.2 = [a] := fun x =>
    matching_text hpins hpin ha hau rfl
  obtain ⟨x, hx⟩ := exists_entered hc.user hsel ho hrole
  have hname := (s.integrity.isAndroid_iff hk huk).1 handroid
  have hrun : ∀ now, ∃ s', ((validateUser body).under (Ext.at now)).Yields [] s (answer u [a]) s' ∧
      s'.tables = if a.id = "" then s.tables else recorded now s.tables (some a) := by
    intro now
    obtain ⟨s₁, s', hrun, -⟩ := exists_yields_stamp now s (List.mem_singleton.2 rfl) (answer u [a])
    refine ⟨s', hx now _ _ ((yields_enter_android hname).2 ?_), (yields_stamp hrun).2⟩
    rw [entered_of_mem (by rw [hone x]; exact List.mem_singleton.2 rfl), hone x]
    exact hrun
  by_cases haname : a.account_name = ""
  · obtain ⟨s', hend, -⟩ := hrun 0
    have hanswer : answer u [a] = .error (.http .UNAUTHORIZED "Invalid account or pin") := if_pos haname
    rw [hanswer] at hend
    exact (hnever 0 _ s' hend).elim
  · refine ⟨fun hid => ?_, haname⟩
    obtain ⟨now, hnow⟩ := exists_time a
    obtain ⟨s', hend, htables⟩ := hrun now
    have hanswer : answer u [a] = .ok (accountPayload u a, a.first_login) := if_neg haname
    rw [hanswer] at hend
    obtain ⟨v, o, hc', -, hrecorded⟩ := h.names now _ _ s' hend
    rw [htables, if_pos hid, (hc.unique hpins hc').2] at hrecorded
    exact recorded_ne ha hnow hrecorded.symm

/-- **Login.** In a database in which the PINs of the accounts of every user
are distinct, logging in with a body authenticates exactly the account of its
credentials, and changes nothing without them, if and only if the body names
whom it opens by texts and credentials are not void. -/
theorem authenticates_iff (hpins : s.tables.PinsDistinct) : Authenticates s body ↔ Faithful s body :=
  ⟨fun h => ⟨fun _ hu hsel hadmits => h.texts hu hsel hadmits, fun _ _ hc => h.full hpins hc⟩,
    fun h => h.authenticates hpins⟩

end AuthService

namespace Sample

/-- The deployment, with a password for both users. -/
def door : Server := { server with platform := { platform with compare := fun p h => p = h } }

theorem door_pins : door.tables.PinsDistinct := by
  intro u a ha b hb hau hbu hpin
  have hall : ∀ a ∈ tables.accounts, ∀ b ∈ tables.accounts, a.pin = b.pin → a.id = b.id := by decide
  exact eq_of_key door.integrity.accounts ha hb (hall a ha b hb hpin)

end Sample

theorem authenticates_sample : AuthService.Authenticates Sample.door
      (.obj [("email", .str "u@x"), ("password", .str "hash"), ("pin", .str "1")]) ↔
    AuthService.Faithful Sample.door
      (.obj [("email", .str "u@x"), ("password", .str "hash"), ("pin", .str "1")]) :=
  AuthService.authenticates_iff Sample.door_pins

/-- A body without an email logs an account of some user in. -/
theorem not_authenticates : Sample.door.tables.PinsDistinct ∧ ¬ AuthService.Authenticates Sample.door
    (.obj [("password", .str "hash"), ("pin", .str "1")]) := by
  refine ⟨Sample.door_pins, fun h => ?_⟩
  obtain ⟨hemail, -⟩ := h.texts (u := ⟨"u", "u@x", "U", "hash", some "r3"⟩) (by decide) rfl
    ⟨⟨"hash", rfl, by decide, by decide⟩, by decide, fun _ =>
      ⟨⟨"u-root", some "u", "root", true, true, "1", none⟩, by decide, rfl, by decide, .inl (by decide)⟩⟩
  cases hemail

end Damaru
