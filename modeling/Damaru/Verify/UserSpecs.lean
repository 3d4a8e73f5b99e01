import Damaru.Services.Users
import Damaru.Verify.AccountSpecs

/-!
# What the calls on users come to

A user whose row the database takes is created with an entry in the log, and an
Android user with its root account; a call that is refused has changed nothing.
-/

namespace Damaru

open Async Table

def Tables.IsAndroid (t : Tables) (u : Users) : Prop :=
  ∃ r ∈ t.roles, u.role = some r.id ∧ r.name = Roles.AndroidUser.text

theorem Tables.Integrity.isAndroid_iff {t : Tables} (h : t.Integrity) {u : Users} {r : Role}
    (hr : r ∈ t.roles) (hu : u.role = some r.id) : t.IsAndroid u ↔ r.name = Roles.AndroidUser.text := by
  constructor
  · rintro ⟨r', hr', hu', hname⟩
    rw [hu] at hu'
    rwa [eq_of_key h.roles hr hr' (Option.some.inj hu')]
  · exact fun hname => ⟨r, hr, hu, hname⟩

/-- A user with a key and an email of its own can be inserted. -/
theorem Tables.Integrity.insert_user {t : Tables} (h : t.Integrity) {u : Users}
    (hid : ∀ v ∈ t.users, v.id ≠ u.id) (hemail : ∀ v ∈ t.users, v.email ≠ u.email)
    (hrole : refers (t.roles.map Role.id) u.role = true) :
    ({ t with users := t.users ++ [u] } : Tables).Integrity where
  toKeys := { h.toKeys with
    users := nodup_append_of_new h.users hid
    emails := nodup_append_of_new h.emails hemail }
  toReferences :=
    have hgrow : ∀ k, refers (t.users.map Users.id) k = true →
        refers ((t.users ++ [u]).map Users.id) k = true := by
      intro k hk
      cases k with
      | none => rfl
      | some k =>
        rw [refers_some, List.map_append]
        exact List.mem_append_left _ (refers_some.1 hk)
    { h.toReferences with
      role := fun v hv => by
        rcases List.mem_append.1 hv with hv | hv
        · exact h.role v hv
        · rw [List.mem_singleton.1 hv]
          exact hrole
      account_user := fun a ha => hgrow _ (h.account_user a ha)
      link_user := fun l hl => hgrow _ (h.link_user l hl) }

/-- A user that can be inserted has no account yet. -/
theorem Tables.Integrity.no_account {t : Tables} (h : t.Integrity) {u : String}
    (hnew : ∀ v ∈ t.users, v.id ≠ u) : ∀ b ∈ t.accounts, b.user ≠ some u := by
  intro b hb huser
  have href := h.account_user b hb
  rw [huser, refers_some] at href
  obtain ⟨v, hv, hid⟩ := List.mem_map.1 href
  exact hnew v hv hid

namespace ActivityLogService

/-- The log gets one entry more. -/
def Logged (action : String) (metadata : Json) (t t' : Tables) : Prop :=
  ∃ e : ActivityLog, e.action = action ∧ e.metadata = metadata ∧
    t' = { t with activityLogs := t.activityLogs ++ [e] }

theorem log_post {action : String} {metadata : Json} (hmetadata : metadata.isNull = false) (s : Server) :
    (log (some (.str action)) (some metadata)).Post s fun r s' =>
      r = .ok () ∧ Logged action metadata s.tables s'.tables := by
  have hentry : ∀ x : Ext, ({ s.tables with
      activityLogs := s.tables.activityLogs ++ [⟨x.fresh s, action, x.now, metadata⟩] } :
        Tables).Integrity := by
    intro x
    refine ⟨{ s.integrity.toKeys with activityLogs := ?_ }, { s.integrity.toReferences with }⟩
    refine nodup_append_of_new s.integrity.activityLogs fun e he hid => ?_
    refine x.fresh_not_used s (Server.mem_used_of_mem_ids ?_)
    simp only [Tables.ids, List.mem_append]
    exact .inr (.inr (.inr (.inr (.inr (List.mem_map.2 ⟨e, he, hid⟩)))))
  unfold log
  refine Repository.post_insert_bind (fun x e he hi => .pure ⟨rfl, e, ?_⟩) fun x e he => ?_
  · cases metadata with
    | null => cases hmetadata
    | _ =>
      cases he
      exact ⟨rfl, rfl, rfl⟩
  · cases metadata with
    | null => cases hmetadata
    | _ =>
      rcases he with he | ⟨-, e', he', hnot⟩
      · cases he
      · cases he'
        exact (hnot (hentry x)).elim

theorem forkFree_log (action metadata : JsVal) : (log action metadata).ForkFree := by
  unfold log
  split
  · exact trivial
  · exact trivial
  · exact Prog.forkFree_op.bind fun _ => trivial

end ActivityLogService

namespace AccountsService

/-- The first account of a user is always created. -/
theorem create_first_post {name : JsVal} {u pin : String} {s : Server} (hname : name.bound.isSome = true)
    (hu : u ∈ s.tables.users.map Users.id) (hnone : ∀ b ∈ s.tables.accounts, b.user ≠ some u) :
    (create ⟨name, some (.str u), some (.str pin), some (.bool true)⟩).Post s fun r s' =>
      (∃ o, r = .ok o) ∧ ∃ a : Account, a.user = some u ∧ a.is_admin = true ∧
        s'.tables = { s.tables with accounts := s.tables.accounts ++ [a] } := by
  obtain ⟨text, htext⟩ := Option.isSome_iff_exists.1 hname
  have hrow : ∀ id, row id name (some (.str pin)) (some (.str u)) (some (.bool true))
      (some (.bool true)) = .ok ⟨id, some u, text, true, true, pin, none⟩ := by
    intro id
    unfold row
    rw [htext]
    rfl
  unfold create
  dsimp only
  refine Repository.post_find_bind fun l hl => ?_
  split
  · rename_i hlen
    rw [List.length_map] at hlen
    obtain ⟨b, hb⟩ := List.exists_mem_of_length_pos hlen
    obtain ⟨hmem, hsel⟩ := (hl b).1 hb
    rw [Bool.and_eq_true, JsVal.selects_str] at hsel
    exact absurd hsel.2 (hnone b hmem)
  · refine post_read_bind fun x => ?_
    refine Repository.post_insert_bind (fun y a ha hi => .pure ⟨⟨_, rfl⟩, a, ?_⟩) fun y e he => ?_
    · rw [show JsVal.orElse (some (.str pin)) _ = some (.str pin) from rfl, hrow] at ha
      cases ha
      exact ⟨rfl, rfl, rfl⟩
    · rw [show JsVal.orElse (some (.str pin)) _ = some (.str pin) from rfl, hrow] at he
      rcases he with he | ⟨-, a, ha, hnot⟩
      · cases he
      · cases ha
        refine (hnot (append_account s.integrity ?_ (refers_some.2 hu))).elim
        exact fun hmem => y.fresh_not_used s (Server.mem_used_of_mem_ids hmem)

end AccountsService

namespace UsersService

/-- The role that the body names. -/
def roleText (user : Json) : Option String :=
  (user.get? "role").bind fun j => if j.isNull then none else some j.toText

/-- The user can be created: its role is one of the table, its password is a
text if there is one, its columns are not null and hold what the database can
read, and its key and its email are not taken. -/
structure Creatable (s : Server) (user : Json) : Prop where
  role : ∃ r ∈ s.tables.roles, roleText user = some r.name
  password : ∀ j, user.get? "password" = some j → j.isNull = false → ∃ p, j = .str p
  id : ∀ j, user.get? "id" = some j →
    ∃ k, JsVal.uuid (some j) = some k ∧ ∀ v ∈ s.tables.users, v.id ≠ k
  email : ∃ k, (user.get? "email").bound = some k ∧ storable k = true ∧
    ∀ v ∈ s.tables.users, v.email ≠ k
  name : ∃ k, (user.get? "name").bound = some k ∧ storable k = true
  dates : s.platform.refusesDates user = false

/-- The user that `create` adds, with the account it gives an Android user. -/
def Joins (user : Json) (t t' : Tables) : Prop :=
  ∃ u : Users, ∃ r ∈ t.roles, u.role = some r.id ∧ roleText user = some r.name ∧
    (∀ v ∈ t.users, v.id ≠ u.id) ∧ ∃ as l,
      t' = { t with users := t.users ++ [u], accounts := t.accounts ++ as, activityLogs := l } ∧
      if (user.get? "role").isStr Roles.AndroidUser.text then
        ∃ a : Account, as = [a] ∧ a.user = some u.id ∧ a.is_admin = true
      else as = []

/-- What `create` does once the user is there. -/
def afterInsert (user : Json) (newPassword : JsVal) (userId : String) :
    Svc (Option (Users × List Account) × JsVal) := do
  ActivityLogService.log (some (.str Actions.CREATE_USER.text)) (some user)
  if (user.get? "role").isStr Roles.AndroidUser.text then
    let draws ← random
    let pin := StringUtils.generateRandomNumeric 5 draws
    let _ ← AccountsService.create
      { account_name := user.get? "name", userId := some (.str userId), pin := some (.str pin)
        is_admin := some (.bool true) }
    ActivityLogService.log (some (.str Actions.CREATE_ACCOUNT.text)) (some (.obj
      [("userId", .str userId), ("account_name", (user.get? "name").getD .null),
        ("pin", .str pin), ("is_admin", .bool true), ("last_login", .null)]))
  let created ← findOne userId
  return (created, newPassword)

/-- What `create` does once it has found the role. -/
def insertUser (user : Json) (roleEntity : Option Role) : Svc (Option (Users × List Account) × JsVal) := do
  let draws ← random
  let newPassword := (user.get? "password").orElse
    (some (.str (StringUtils.generateRandomAlphaNumeric 8 draws)))
  let password ← HashUtils.hash newPassword
  let some roleEntity := roleEntity | throw (cannotRead "id")
  let userId ← usersRepository.insert fun x s =>
    row s.platform (x.fresh s) user password roleEntity.id
  afterInsert user newPassword userId

theorem create_eq {user : Json} {roleName : String} (h : roleText user = some roleName) :
    create user = (roleRepository.findRow fun _ r => r.name = roleName) >>= insertUser user := by
  unfold roleText at h
  unfold create insertUser afterInsert
  dsimp only
  rewrite [h]
  rfl

theorem create_eq_throw {user : Json} (h : roleText user = none) :
    create user = throw (cannotRead "toString") := by
  unfold roleText at h
  unfold create
  dsimp only
  rw [h]

theorem afterInsert_post {user : Json} {newPassword : JsVal} {u : Users} {s : Server}
    (huser : user.isNull = false) (hname : (user.get? "name").bound.isSome = true)
    (hu : u ∈ s.tables.users) (hnone : ∀ b ∈ s.tables.accounts, b.user ≠ some u.id) :
    (afterInsert user newPassword u.id).Post s fun r s' => (∃ o, r = .ok o) ∧ ∃ as l,
      s'.tables = { s.tables with accounts := s.tables.accounts ++ as, activityLogs := l } ∧
        if (user.get? "role").isStr Roles.AndroidUser.text then
          ∃ a : Account, as = [a] ∧ a.user = some u.id ∧ a.is_admin = true
        else as = [] := by
  unfold afterInsert
  refine .bind ((ActivityLogService.log_post huser s).mono fun r s₁ h₁ => ?_)
  obtain ⟨rfl, e, -, -, hlog⟩ := h₁
  have haccounts : s₁.tables.accounts = s.tables.accounts := by rw [hlog]
  have husers : s₁.tables.users = s.tables.users := by rw [hlog]
  dsimp only
  split
  · refine post_read_bind fun x => .bind ((AccountsService.create_first_post hname ?_ ?_).mono
      fun r s₂ h₂ => ?_)
    · rw [husers]
      exact List.mem_map_of_mem hu
    · rw [haccounts]
      exact hnone
    · obtain ⟨⟨o, rfl⟩, a, hauser, hadmin, hcreated⟩ := h₂
      refine .bind ((ActivityLogService.log_post rfl s₂).mono fun r s₃ h₃ => ?_)
      obtain ⟨rfl, e', -, -, hlog'⟩ := h₃
      refine post_read_bind fun y => .pure ⟨⟨_, rfl⟩, [a], s₃.tables.activityLogs, ?_, a, rfl, hauser, hadmin⟩
      rw [hlog', hcreated, hlog]
  · refine post_read_bind fun y => .pure ⟨⟨_, rfl⟩, [], s₁.tables.activityLogs, ?_, rfl⟩
    rw [hlog, List.append_nil]

theorem givenId_isSome {id : String} {user : Json} : (givenId user id).isSome = true ↔
    ∀ j, user.get? "id" = some j → ∃ k, JsVal.uuid (some j) = some k := by
  unfold givenId
  cases user.get? "id" with
  | none => simp
  | some given => simp [Option.isSome_iff_exists]

theorem givenId_eq {id k : String} {user : Json} (h : givenId user id = some k) :
    k = (user.get? "id").uuid.getD id := by
  unfold givenId at h
  cases hgiven : user.get? "id" with
  | none =>
    rw [hgiven] at h
    exact (Option.some.inj h).symm
  | some given =>
    rw [hgiven] at h
    rw [show JsVal.uuid (some given) = some k from h, Option.getD_some]

/-- The row of a body is one that the database can store. -/
theorem row_ok_iff {p : Platform} {id : String} {user : Json} {password role : String} :
    (∃ u, row p id user password role = .ok u) ↔ p.refusesDates user = false ∧
      (givenId user id).isSome = true ∧ (∃ k, (user.get? "email").bound = some k ∧ storable k = true) ∧
      ∃ k, (user.get? "name").bound = some k ∧ storable k = true := by
  have hcolumn : ∀ o : Option String,
      (∃ k, o = some k ∧ storable k = true) ↔ (o.filter storable).isSome = true := fun o => by
    simp only [Option.isSome_iff_exists, Option.filter_eq_some_iff]
  rw [hcolumn, hcolumn]
  unfold row
  cases p.refusesDates user with
  | true => simp
  | false =>
    cases givenId user id with
    | none => simp
    | some k =>
      cases (user.get? "email").bound.filter storable with
      | none => simp
      | some email => cases (user.get? "name").bound.filter storable <;> simp

theorem row_fields {p : Platform} {id : String} {user : Json} {password role : String} {u : Users}
    (h : row p id user password role = .ok u) : givenId user id = some u.id ∧
      (user.get? "email").bound = some u.email ∧ u.password = password ∧ u.role = some role := by
  unfold row at h
  split at h
  · cases h
  · split at h
    · rename_i hid hemail hname
      cases h
      exact ⟨hid, (Option.filter_eq_some_iff.1 hemail).1, rfl, rfl⟩
    · cases h

/-- The text that is hashed: the password of the body, or a drawn one. -/
theorem hash_post {password : JsVal} {drawn : String} (s : Server) :
    (HashUtils.hash (password.orElse (some (.str drawn)))).Post s fun r s' => s' = s ∧
      ((∃ h, r = .ok h) ↔ ∀ j, password = some j → j.isNull = false → ∃ p, j = .str p) := by
  unfold HashUtils.hash
  split
  · rename_i p hp
    refine .op fun x => ⟨rfl, iff_of_true ⟨_, rfl⟩ fun j hj hnull => ⟨p, ?_⟩⟩
    rw [hj] at hp
    cases j with
    | null => cases hnull
    | _ => exact Option.some.inj hp
  · rename_i hne
    refine .throw ⟨rfl, iff_of_false (fun ⟨_, h⟩ => by cases h) fun hall => ?_⟩
    cases password with
    | none => exact hne _ rfl
    | some j =>
      cases j with
      | null => exact hne _ rfl
      | _ =>
        obtain ⟨p, hp⟩ := hall _ rfl rfl
        exact hne p (congrArg some hp)

/-- The database takes the row of a user exactly if the user can be created. -/
theorem creatable_iff {s : Server} {id password : String} {user : Json}
    {role : Role} (hmem : role ∈ s.tables.roles) (hrole : roleText user = some role.name)
    (hfresh : id ∉ s.tables.ids)
    (hpassword : ∀ j, user.get? "password" = some j → j.isNull = false → ∃ p, j = .str p) :
    Creatable s user ↔ ∃ u, row s.platform id user password role.id = .ok u ∧
      ({ s.tables with users := s.tables.users ++ [u] } : Tables).Integrity := by
  constructor
  · intro hc
    obtain ⟨k, hk, hstorable, hfree⟩ := hc.email
    have hgiven : (givenId user id).isSome = true :=
      givenId_isSome.2 fun j hj => (hc.id j hj).imp fun _ h => h.1
    obtain ⟨u, hu⟩ := (@row_ok_iff s.platform id user password role.id).2
      ⟨hc.dates, hgiven, ⟨k, hk, hstorable⟩, hc.name⟩
    obtain ⟨hid, hemail, -, hurole⟩ := row_fields hu
    refine ⟨u, hu, s.integrity.insert_user (fun v hv heq => ?_) (fun v hv heq => ?_) ?_⟩
    · rw [givenId_eq hid] at heq
      cases hgiven : user.get? "id" with
      | none =>
        rw [hgiven, JsVal.uuid_none, Option.getD_none] at heq
        exact hfresh (heq ▸ List.mem_append_left _ (List.mem_map_of_mem hv))
      | some j =>
        obtain ⟨k, hk, hnew⟩ := hc.id j hgiven
        rw [hgiven, hk, Option.getD_some] at heq
        exact hnew v hv heq
    · rw [hk] at hemail
      exact hfree v hv (heq.trans (Option.some.inj hemail).symm)
    · rw [hurole, refers_some]
      exact List.mem_map_of_mem hmem
  · rintro ⟨u, hu, hi'⟩
    obtain ⟨hid, hemail, -, -⟩ := row_fields hu
    obtain ⟨hdates, hgiven, ⟨k, hk, hstorable⟩, hname⟩ := row_ok_iff.1 ⟨u, hu⟩
    rw [hk, Option.some.injEq] at hemail
    refine ⟨⟨role, hmem, hrole⟩, hpassword, fun j hj => ?_,
      ⟨k, hk, hstorable, fun v hv => hemail ▸ new_of_nodup hi'.emails hv⟩, hname, hdates⟩
    obtain ⟨k', hk'⟩ := givenId_isSome.1 hgiven j hj
    refine ⟨k', hk', fun v hv heq => new_of_nodup hi'.users hv (heq.trans ?_)⟩
    rw [givenId_eq hid, hj, hk', Option.getD_some]

/-- Creating a user adds the user, or is refused and changes nothing. -/
theorem create_post (user : Json) (s : Server) :
    (create user).Post s fun r s' =>
      (Creatable s user ∧ (∃ o, r = .ok o) ∧ Joins user s.tables s'.tables) ∨
        (¬ Creatable s user ∧ (∃ e, r = .error e) ∧ s' = s) := by
  cases hrole : roleText user with
  | none =>
    rw [create_eq_throw hrole]
    refine .throw (.inr ⟨fun hc => ?_, ⟨_, rfl⟩, rfl⟩)
    obtain ⟨r, -, hr⟩ := hc.role
    rw [hrole] at hr
    cases hr
  | some roleName =>
    have huser : user.isNull = false := by
      cases user with
      | null => cases hrole
      | _ => rfl
    rw [create_eq hrole]
    unfold insertUser
    refine Repository.post_findRow_bind (fun role hmem hname => ?_) fun hnone => ?_
    · obtain rfl : role.name = roleName := of_decide_eq_true hname
      refine post_read_bind fun x => .bind ((hash_post s).mono fun r s₁ hr => ?_)
      obtain ⟨rfl, hhash⟩ := hr
      cases r with
      | error e =>
        refine .inr ⟨fun hc => ?_, ⟨_, rfl⟩, rfl⟩
        obtain ⟨h, hh⟩ := hhash.2 hc.password
        cases hh
      | ok password =>
        have hpassword := hhash.1 ⟨_, rfl⟩
        have hfresh : ∀ y : Ext, y.fresh s₁ ∉ s₁.tables.ids := fun y hmem =>
          y.fresh_not_used s₁ (Server.mem_used_of_mem_ids hmem)
        have hiff := fun y : Ext =>
          @creatable_iff s₁ _ password _ _ hmem hrole (hfresh y) hpassword
        refine Repository.post_insert_bind (fun y u hu hi => ?_) fun y e he => ?_
        · have hnew : ∀ v ∈ s₁.tables.users, v.id ≠ u.id := fun v hv => new_of_nodup hi.users hv
          obtain ⟨-, -, -, hurole⟩ := row_fields hu
          obtain ⟨-, -, -, k, hk, -⟩ := row_ok_iff.1 ⟨u, hu⟩
          have hname : (user.get? "name").bound.isSome = true := by rw [hk]; rfl
          refine (afterInsert_post huser hname ?_ ?_).mono fun r s' h => ?_
          · exact List.mem_append_right _ (List.mem_singleton.2 rfl)
          · exact s₁.integrity.no_account hnew
          · obtain ⟨hok, as, l, htables, has⟩ := h
            exact .inl ⟨(hiff y).2 ⟨u, hu, hi⟩, hok, u, role, hmem, hurole, hrole, hnew, as, l, htables, has⟩
        · refine .inr ⟨fun hc => ?_, ⟨_, rfl⟩, rfl⟩
          obtain ⟨u, hu, hi⟩ := (hiff y).1 hc
          rcases he with he | ⟨-, u', hu', hnot⟩
          · rw [hu] at he
            cases he
          · rw [hu] at hu'
            cases hu'
            exact hnot hi
    · have hno : ¬ Creatable s user := by
        intro hc
        obtain ⟨r, hr, hname⟩ := hc.role
        rw [hrole] at hname
        exact of_decide_eq_false (hnone r hr) (Option.some.inj hname).symm
      refine post_read_bind fun x => .bind ((hash_post s).mono fun r s₁ hr => ?_)
      obtain ⟨rfl, -⟩ := hr
      cases r with
      | error e => exact .inr ⟨hno, ⟨_, rfl⟩, rfl⟩
      | ok password => exact .throw (.inr ⟨hno, ⟨_, rfl⟩, rfl⟩)

theorem forkFree_hash (password : JsVal) : (HashUtils.hash password).ForkFree := by
  unfold HashUtils.hash
  split
  · exact Prog.forkFree_op
  · exact trivial

theorem forkFree_create (user : Json) : (create user).ForkFree := by
  have hfind : ∀ (id : String) (p : JsVal), (do
      let created ← findOne id
      return (created, p) : Svc (Option (Users × List Account) × JsVal)).ForkFree :=
    fun _ _ => Prog.forkFree_op.bind fun _ => trivial
  cases hrole : roleText user with
  | none =>
    rw [create_eq_throw hrole]
    exact trivial
  | some roleName =>
    rw [create_eq hrole]
    refine Prog.forkFree_op.bind fun role => Prog.forkFree_op.bind fun draws => ?_
    refine (forkFree_hash _).bind fun password => ?_
    cases role with
    | none => exact trivial
    | some role =>
      refine Prog.forkFree_op.bind fun id => (ActivityLogService.forkFree_log _ _).bind fun _ => ?_
      dsimp only
      split
      · refine Prog.forkFree_op.bind fun _ => (AccountsService.forkFree_create _).bind fun _ => ?_
        exact (ActivityLogService.forkFree_log _ _).bind fun _ => hfind id _
      · exact hfind id _

/-! ## Updates -/

/-- What `update` does once the password, if there is one, is hashed. -/
def writeUpdate (id : String) (user : Json) (password : Option String) : Svc Unit := do
  ActivityLogService.log (some (.str Actions.UPDATE_USER.text))
    (some (.obj ([("password", password.map Json.str),
      ("name", (user.get? "name").filter Json.truthy),
      ("email", (user.get? "email").filter Json.truthy)].filterMap fun p =>
        p.2.map fun v => (p.1, v))))
  let _ ← usersRepository.set (some (.str id)) fun _ u =>
    { u with
      password := password.getD u.password
      name := (((user.get? "name").filter Json.truthy).bind Json.bound).getD u.name
      email := (((user.get? "email").filter Json.truthy).bind Json.bound).getD u.email }

/-- The hash of the password of the body, if it has one. -/
def hashGiven (user : Json) : Svc (Option String) :=
  match (user.get? "password").filter Json.truthy with
  | none => pure none
  | some password => some <$> HashUtils.hash (some password)

theorem update_cases (id : String) (user : Json) :
    (∃ e, update id user = throw e) ∨ update id user = hashGiven user >>= writeUpdate id user := by
  unfold update
  dsimp only
  split
  · exact .inl ⟨_, rfl⟩
  · split
    · exact .inl ⟨_, rfl⟩
    · refine .inr ?_
      unfold hashGiven
      cases (user.get? "password").filter Json.truthy with
      | none => rfl
      | some password => rfl

theorem each_hashGiven {R : Server → Server → Prop} (hrefl : ∀ s, R s s) (user : Json) :
    (hashGiven user).Each R := by
  unfold hashGiven HashUtils.hash
  split
  · exact trivial
  · split
    · exact each_query hrefl
    · exact trivial

end UsersService

end Damaru
