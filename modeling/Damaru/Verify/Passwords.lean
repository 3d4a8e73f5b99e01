import Damaru.Async.Lockstep
import Damaru.Verify.Operations
import Damaru.Verify.UserSpecs
import Mathlib.Data.List.Forall2

/-!
# What is stored of a password

Two runs of the calls on users, on the same inputs and with bodies that differ
in the passwords only, store the same rows but for hashes of these passwords,
unless a call that is accepted writes the body it was given to the log.
-/

namespace Damaru

open Async Table

/-! ## The same but for passwords -/

/-- The two texts are one, or the hashes of two passwords under one salt. -/
inductive HashesOf (X : Ext → Prop) (P : String → String → Prop) : String → String → Prop
  | same (h : String) : HashesOf X P h h
  | hashed {x : Ext} {p p' : String} : X x → P p p' → HashesOf X P (x.hash p) (x.hash p')

theorem HashesOf.of_ne {X : Ext → Prop} {P : String → String → Prop} {k k' : String}
    (h : HashesOf X P k k') (hne : k ≠ k') : ∃ x p, X x ∧ k = x.hash p := by
  cases h with
  | same => exact absurd rfl hne
  | @hashed x p p' hx hp => exact ⟨x, p, hx, rfl⟩

/-- The two values are one, or objects that differ in what a member `password`
holds: two texts that `K` relates. -/
def Json.Alike (K : String → String → Prop) (j j' : Json) : Prop :=
  j = j' ∨ ∃ ms ms', j = .obj ms ∧ j' = .obj ms' ∧ List.Forall₂ (fun m m' =>
    m = m' ∨ ∃ h h', m = ("password", .str h) ∧ m' = ("password", .str h') ∧ K h h') ms ms'

/-- The tables store the same rows but for the passwords of users, and for
passwords in the metadata of logs; `K` relates both. -/
structure Tables.Alike (K : String → String → Prop) (t t' : Tables) : Prop where
  users : List.Forall₂ (fun u u' : Users =>
    u' = { u with password := u'.password } ∧ K u.password u'.password) t.users t'.users
  activityLogs : List.Forall₂ (fun e e' : ActivityLog =>
    e' = { e with metadata := e'.metadata } ∧ e.metadata.Alike K e'.metadata)
    t.activityLogs t'.activityLogs
  rest : t' = { t with users := t'.users, activityLogs := t'.activityLogs }

structure Server.Alike (K : String → String → Prop) (s s' : Server) : Prop where
  tables : s.tables.Alike K s'.tables
  issued : s'.issued = s.issued
  platform : s'.platform = s.platform

namespace Tables

variable {K : String → String → Prop} {t t' : Tables}

theorem Alike.refl (hK : ∀ h, K h h) (t : Tables) : t.Alike K t where
  users := List.forall₂_same.2 fun _ _ => ⟨rfl, hK _⟩
  activityLogs := List.forall₂_same.2 fun _ _ => ⟨rfl, .inl rfl⟩
  rest := rfl

/-- A column of the users other than the password. -/
theorem Alike.map_users {β : Type} (h : t.Alike K t') {f : Users → β}
    (hf : ∀ u p, f { u with password := p } = f u) : t'.users.map f = t.users.map f := by
  have hall := h.users
  generalize t.users = us at hall
  generalize t'.users = us' at hall
  induction hall with
  | nil => rfl
  | cons hu _ ih => rw [List.map_cons, List.map_cons, ih, hu.1, hf]

theorem Alike.map_logs (h : t.Alike K t') :
    t'.activityLogs.map ActivityLog.id = t.activityLogs.map ActivityLog.id := by
  have hall := h.activityLogs
  generalize t.activityLogs = es at hall
  generalize t'.activityLogs = es' at hall
  induction hall with
  | nil => rfl
  | cons he _ ih => rw [List.map_cons, List.map_cons, ih, he.1]

theorem Alike.ids_eq (h : t.Alike K t') : t'.ids = t.ids := by
  have husers := h.map_users (f := Users.id) fun _ _ => rfl
  have hlogs := h.map_logs
  unfold Tables.ids
  rw [husers, hlogs, h.rest]

/-- The constraints do not depend on passwords and metadata. -/
theorem integrity_of_columns (hids : t'.users.map Users.id = t.users.map Users.id)
    (hemails : t'.users.map Users.email = t.users.map Users.email)
    (hroles : t'.users.map Users.role = t.users.map Users.role)
    (hlogs : t'.activityLogs.map ActivityLog.id = t.activityLogs.map ActivityLog.id)
    (hrest : t' = { t with users := t'.users, activityLogs := t'.activityLogs })
    (h : t.Integrity) : t'.Integrity := by
  have hrole : ∀ u ∈ t'.users, refers (t.roles.map Role.id) u.role = true := by
    have hall : ∀ k ∈ t.users.map Users.role, refers (t.roles.map Role.id) k = true :=
      List.forall_mem_map.2 h.role
    rw [← hroles] at hall
    exact List.forall_mem_map.1 hall
  generalize t'.users = us at *
  generalize t'.activityLogs = es at *
  subst hrest
  exact ⟨{ h.toKeys with
      users := by rw [hids]; exact h.users
      emails := by rw [hemails]; exact h.emails
      activityLogs := by rw [hlogs]; exact h.activityLogs },
    { h.toReferences with
      role := hrole
      account_user := fun a ha => by rw [hids]; exact h.account_user a ha
      link_user := fun l hl => by rw [hids]; exact h.link_user l hl }⟩

theorem Alike.integrity_iff (h : t.Alike K t') : t'.Integrity ↔ t.Integrity := by
  have hids := h.map_users (f := Users.id) fun _ _ => rfl
  have hemails := h.map_users (f := Users.email) fun _ _ => rfl
  have hroles := h.map_users (f := Users.role) fun _ _ => rfl
  have hlogs := h.map_logs
  refine ⟨integrity_of_columns hids.symm hemails.symm hroles.symm hlogs.symm ?_,
    integrity_of_columns hids hemails hroles hlogs h.rest⟩
  rw [h.rest]

end Tables

theorem Server.Alike.fresh_eq {K : String → String → Prop} {s s' : Server} (h : s.Alike K s')
    (x : Ext) : x.fresh s' = x.fresh s := by
  have hused : s'.used = s.used := by
    unfold Server.used
    rw [h.issued, h.tables.ids_eq]
  unfold Ext.fresh
  rw [hused]

/-! ## Calls in lockstep -/

/-- How two calls are to leave the server. -/
def Leaves {α : Type} (K : String → String → Prop) (_ : Except Rejection α) (t : Server)
    (_ : Except Rejection α) (t' : Server) : Prop := t.Alike K t'

theorem leaves_error {α : Type} {K : String → String → Prop} (e e' : Rejection) (t t' : Server)
    (h : t.Alike K t') : @Leaves α K (.error e) t (.error e') t' := h

section Calls

variable {α β : Type} {X : Ext → Prop} {P K : String → String → Prop} {s s' : Server}
variable {Q : Except Rejection β → Server → Except Rejection β → Server → Prop}

theorem lockstep_statement_bind {f f' : Ext → Server → Except Rejection (α × Tables)}
    {g g' : α → Svc β} (hQ : ∀ e e' t t', t.Alike K t' → Q (.error e) t (.error e') t')
    (h : s.Alike K s')
    (hf : ∀ x, X x → (∃ e e', f x s = .error e ∧ f' x s' = .error e') ∨
      ∃ a t t', f x s = .ok (a, t) ∧ f' x s' = .ok (a, t') ∧ t.Alike K t')
    (hg : ∀ a t t', t.Alike K t' → Prog.Lockstep X Q (g a) t (g' a) t') :
    Prog.Lockstep X Q (statement f >>= g) s (statement f' >>= g') s' := by
  refine .op_bind fun x hx => ?_
  rcases hf x hx with ⟨e, e', he, he'⟩ | ⟨a, t, t', ht, ht', halike⟩
  · rw [he, he']
    exact hQ _ _ _ _ h
  · rw [ht, ht']
    dsimp only
    by_cases hi : t.Integrity
    · have hi' := halike.integrity_iff.2 hi
      rw [dif_pos hi, dif_pos hi']
      refine hg a _ _ ⟨halike, ?_, h.platform⟩
      show s'.used = s.used
      unfold Server.used
      rw [h.issued, h.tables.ids_eq]
    · have hi' := mt halike.integrity_iff.1 hi
      rw [dif_neg hi, dif_neg hi']
      exact hQ _ _ _ _ h

theorem Repository.lockstep_insert_bind {γ : Type} {repo : Repository γ}
    {values values' : Ext → Server → Except Rejection γ} {g g' : String → Svc β}
    (hQ : ∀ e e' t t', t.Alike K t' → Q (.error e) t (.error e') t') (h : s.Alike K s')
    (hvalues : ∀ x, X x → (∃ e e', values x s = .error e ∧ values' x s' = .error e') ∨
      ∃ a a', values x s = .ok a ∧ values' x s' = .ok a' ∧ repo.key a' = repo.key a ∧
        (repo.put (repo.rows s.tables ++ [a]) s.tables).Alike K
          (repo.put (repo.rows s'.tables ++ [a']) s'.tables))
    (hg : ∀ k t t', t.Alike K t' → Prog.Lockstep X Q (g k) t (g' k) t') :
    Prog.Lockstep X Q (repo.insert values >>= g) s (repo.insert values' >>= g') s' := by
  refine lockstep_statement_bind hQ h (fun x hx => ?_) hg
  rcases hvalues x hx with ⟨e, e', he, he'⟩ | ⟨a, a', ha, ha', hkey, halike⟩
  · exact .inl ⟨e, e', by rw [he], by rw [he']⟩
  · exact .inr ⟨repo.key a', _, _, by rw [ha, hkey], by rw [ha'], halike⟩

theorem Repository.scan_congr {γ : Type} {repo : Repository γ} {t t' : Tables}
    (h : repo.rows t' = repo.rows t) (p : γ → Bool) (x : Ext) :
    repo.scan (fun _ => p) x t' = repo.scan (fun _ => p) x t := by
  unfold Repository.scan
  rw [h]

/-- A query of a table that both servers have. -/
theorem Repository.lockstep_find_bind {γ δ : Type} {repo : Repository γ} {p : γ → Bool} {r : γ → δ}
    {g g' : List δ → Svc β} (h : repo.rows s'.tables = repo.rows s.tables)
    (hg : ∀ l, Prog.Lockstep X Q (g l) s (g' l) s') :
    Prog.Lockstep X Q (repo.find (fun _ => p) (fun _ => r) >>= g) s
      (repo.find (fun _ => p) (fun _ => r) >>= g') s' := by
  refine .op_bind fun x _ => ?_
  show Prog.Lockstep X Q (g ((repo.scan (fun _ => p) x s.tables).map r)) s
    (g' ((repo.scan (fun _ => p) x s'.tables).map r)) s'
  rw [Repository.scan_congr h]
  exact hg _

theorem Repository.lockstep_findRow_bind {γ : Type} {repo : Repository γ} {p : γ → Bool}
    {g g' : Option γ → Svc β} (h : repo.rows s'.tables = repo.rows s.tables)
    (hg : ∀ o, Prog.Lockstep X Q (g o) s (g' o) s') :
    Prog.Lockstep X Q (repo.findRow (fun _ => p) >>= g) s
      (repo.findRow (fun _ => p) >>= g') s' := by
  refine .op_bind fun x _ => ?_
  show Prog.Lockstep X Q (g ((repo.scan (fun _ => p) x s.tables).head?.map fun a => a)) s
    (g' ((repo.scan (fun _ => p) x s'.tables).head?.map fun a => a)) s'
  rw [Repository.scan_congr h]
  exact hg _

theorem ActivityLogService.lockstep_log_bind {action : String} {metadata metadata' : Json}
    {g g' : Unit → Svc β} (hQ : ∀ e e' t t', t.Alike K t' → Q (.error e) t (.error e') t')
    (h : s.Alike K s') (hm : metadata.Alike K metadata')
    (hg : ∀ t t', t.Alike K t' → Prog.Lockstep X Q (g ()) t (g' ()) t') :
    Prog.Lockstep X Q (log (some (.str action)) (some metadata) >>= g) s
      (log (some (.str action)) (some metadata') >>= g') s' := by
  have hput : ∀ (x : Ext) (m m' : Json), m.Alike K m' →
      ({ s.tables with activityLogs := s.tables.activityLogs ++ [⟨x.fresh s, action, x.now, m⟩] } :
        Tables).Alike K { s'.tables with
          activityLogs := s'.tables.activityLogs ++ [⟨x.fresh s', action, x.now, m'⟩] } := by
    intro x m m' hm
    refine ⟨h.tables.users, List.rel_append h.tables.activityLogs (.cons ⟨?_, hm⟩ .nil), ?_⟩
    · rw [h.fresh_eq]
    · rw [h.tables.rest]
  refine .bind (Repository.lockstep_insert_bind (fun e e' t t' ht => hQ e e' t t' ht) h
    (fun x _ => ?_) fun _ t t' ht => .pure (hg t t' ht))
  rcases hm with rfl | ⟨ms, ms', rfl, rfl, hms⟩
  · cases metadata with
    | null => exact .inl ⟨_, _, rfl, rfl⟩
    | _ => exact .inr ⟨_, _, rfl, rfl, h.fresh_eq x, hput _ _ _ (.inl rfl)⟩
  · exact .inr ⟨_, _, rfl, rfl, h.fresh_eq x, hput _ _ _ (.inr ⟨ms, ms', rfl, rfl, hms⟩)⟩

theorem HashUtils.lockstep_hash_bind {v v' : JsVal} {g g' : String → Svc β}
    {Q : Except Rejection β → Server → Except Rejection β → Server → Prop}
    (hQ : ∀ e, Q (.error e) s (.error e) s')
    (hv : v = v' ∨ ∃ p p', v = some (.str p) ∧ v' = some (.str p') ∧ P p p')
    (hg : ∀ k k', HashesOf X P k k' → Prog.Lockstep X Q (g k) s (g' k') s') :
    Prog.Lockstep X Q (hash v >>= g) s (hash v' >>= g') s' := by
  rcases hv with rfl | ⟨p, p', rfl, rfl, hp⟩
  · unfold hash
    split
    · exact .op_bind fun x _ => hg _ _ (.same _)
    · exact .throw (hQ _)
  · exact .op_bind fun x hx => hg _ _ (.hashed hx hp)

theorem AccountsService.lockstep_create_bind {dto : CreateAccountDto}
    {g g' : String × CreateAccountDto → Svc β}
    (hQ : ∀ e e' t t', t.Alike K t' → Q (.error e) t (.error e') t') (h : s.Alike K s')
    (hg : ∀ o t t', t.Alike K t' → Prog.Lockstep X Q (g o) t (g' o) t') :
    Prog.Lockstep X Q (create dto >>= g) s (create dto >>= g') s' := by
  have haccounts : s'.tables.accounts = s.tables.accounts := by rw [h.tables.rest]
  have hQ' : ∀ e e' t t', t.Alike K t' → Prog.Continues X Q g g' (.error e) t (.error e') t' := hQ
  have hrow : ∀ (x : Ext) (name pin user admin : JsVal),
      (∃ e e', row (x.fresh s) name pin user admin admin = .error e ∧
        row (x.fresh s') name pin user admin admin = .error e') ∨
      ∃ a a', row (x.fresh s) name pin user admin admin = .ok a ∧
        row (x.fresh s') name pin user admin admin = .ok a' ∧ a'.id = a.id ∧
        ({ s.tables with accounts := s.tables.accounts ++ [a] } : Tables).Alike K
          { s'.tables with accounts := s'.tables.accounts ++ [a'] } := by
    intro x name pin user admin
    rw [h.fresh_eq]
    cases row (x.fresh s) name pin user admin admin with
    | error e => exact .inl ⟨e, e, rfl, rfl⟩
    | ok a =>
      refine .inr ⟨a, a, rfl, rfl, rfl, h.tables.users, h.tables.activityLogs, ?_⟩
      rw [haccounts, h.tables.rest]
  refine .bind ?_
  unfold create
  dsimp only
  split
  · refine Repository.lockstep_find_bind haccounts fun l => ?_
    split
    · exact .throw (hQ' _ _ _ _ h)
    · exact .op_bind fun _ _ => Repository.lockstep_insert_bind hQ' h (fun x _ => hrow x _ _ _ _)
        fun _ _ _ ht => .pure (hg _ _ _ ht)
  · exact .op_bind fun _ _ => Repository.lockstep_insert_bind hQ' h (fun x _ => hrow x _ _ _ _)
      fun _ _ _ ht => .pure (hg _ _ _ ht)

end Calls

theorem Json.Alike.password {K : String → String → Prop} {j j' : Json} (h : j.Alike K j')
    {p p' : String} (hp : j.get? "password" = some (.str p))
    (hp' : j'.get? "password" = some (.str p')) : p = p' ∨ K p p' := by
  rcases h with rfl | ⟨ms, ms', rfl, rfl, h⟩
  · rw [hp] at hp'
    exact .inl (Json.str.inj (Option.some.inj hp'))
  · change ms.lookup "password" = _ at hp
    change ms'.lookup "password" = _ at hp'
    induction h with
    | nil => cases hp
    | @cons m m' ms ms' hm _ ih =>
      obtain ⟨k, v⟩ := m
      rcases hm with rfl | ⟨h, h', hm, rfl, hK⟩
      · rw [List.lookup_cons] at hp hp'
        split at hp
        · rename_i hk
          rw [hk, hp] at hp'
          exact .inl (Json.str.inj (Option.some.inj hp'))
        · rename_i hk
          rw [hk] at hp'
          exact ih hp hp'
      · rw [hm, List.lookup_cons_self] at hp
        rw [List.lookup_cons_self] at hp'
        cases hp
        cases hp'
        exact .inr hK

/-! ## Bodies that differ in the password -/

/-- The two values are one, or objects with the same members but for those
called `password`. -/
def Json.SameButPassword (j j' : Json) : Prop :=
  j = j' ∨ ∃ ms ms', j = .obj ms ∧ j' = .obj ms' ∧
    ms.filter (fun m => m.1 ≠ "password") = ms'.filter fun m => m.1 ≠ "password"

theorem Json.SameButPassword.get?_eq {j j' : Json} (h : j.SameButPassword j') {k : String}
    (hk : k ≠ "password") : j'.get? k = j.get? k := by
  have hfilter : ∀ ms : List (String × Json),
      (ms.filter fun m => m.1 ≠ "password").lookup k = ms.lookup k := by
    intro ms
    induction ms with
    | nil => rfl
    | cons m ms ih =>
      obtain ⟨k₁, v⟩ := m
      rw [List.filter_cons, List.lookup_cons]
      split
      · rw [List.lookup_cons, ih]
      · rename_i hpassword
        have heq : k₁ = "password" := by simpa using hpassword
        rw [ih, heq, beq_eq_false_iff_ne.2 hk]
  rcases h with rfl | ⟨ms, ms', rfl, rfl, h⟩
  · rfl
  · show ms'.lookup k = ms.lookup k
    rw [← hfilter ms, ← hfilter ms', h]

namespace UsersService

variable {X : Ext → Prop} {P K : String → String → Prop} {s s' : Server}

/-- What `update` makes of the password of a body: nothing, a hash, or an
error. -/
def passwordUse (user : Json) : Option Bool :=
  ((user.get? "password").filter Json.truthy).map fun j => match j with
    | .str _ => true
    | _ => false

theorem row_alike {platform : Platform} {id : String} {user : Json} {p p' role : String} :
    (∃ e e', row platform id user p role = .error e ∧ row platform id user p' role = .error e') ∨
      ∃ u, row platform id user p role = .ok u ∧ u.password = p ∧
        row platform id user p' role = .ok { u with password := p' } := by
  unfold row
  split
  · exact .inl ⟨_, _, rfl, rfl⟩
  · split
    · exact .inr ⟨_, rfl, rfl, rfl⟩
    · exact .inl ⟨_, _, rfl, rfl⟩

theorem lockstep_afterInsert {user : Json} {newPassword newPassword' : JsVal} {userId : String}
    (h : s.Alike K s') : Prog.Lockstep X (Leaves K) (afterInsert user newPassword userId) s
      (afterInsert user newPassword' userId) s' := by
  have hfind : ∀ t t', t.Alike K t' → Prog.Lockstep X (Leaves K) (do
      let created ← findOne userId
      return (created, newPassword) : Svc (Option (Users × List Account) × JsVal)) t (do
      let created ← findOne userId
      return (created, newPassword')) t' := fun t t' ht => .op_bind fun x _ => .pure ht
  unfold afterInsert
  refine ActivityLogService.lockstep_log_bind leaves_error h (.inl rfl) fun t t' ht => ?_
  dsimp only
  split
  · refine .op_bind fun x _ => AccountsService.lockstep_create_bind leaves_error ht
      fun o t t' ht => ?_
    exact ActivityLogService.lockstep_log_bind leaves_error ht (.inl rfl) hfind
  · exact hfind _ _ ht

/-- The same body twice. -/
theorem lockstep_create {user : Json} (h : s.Alike (HashesOf X P) s') :
    Prog.Lockstep X (Leaves (HashesOf X P)) (create user) s (create user) s' := by
  cases hrole : roleText user with
  | none =>
    rw [create_eq_throw hrole]
    exact .throw h
  | some roleName =>
    rw [create_eq hrole]
    have hroles : s'.tables.roles = s.tables.roles := by rw [h.tables.rest]
    refine Repository.lockstep_findRow_bind hroles fun role => ?_
    unfold insertUser
    refine .op_bind fun x _ => HashUtils.lockstep_hash_bind (P := P) (fun _ => h) (.inl rfl)
      fun p p' hp => ?_
    cases role with
    | none => exact .throw h
    | some role =>
      refine Repository.lockstep_insert_bind leaves_error h (fun y _ => ?_)
        fun k t t' ht => lockstep_afterInsert ht
      rw [h.fresh_eq, h.platform]
      rcases @row_alike s.platform (y.fresh s) user p p' role.id with ⟨e, e', he, he'⟩ | ⟨u, hu, rfl, hu'⟩
      · exact .inl ⟨e, e', he, he'⟩
      · refine .inr ⟨u, _, hu, hu', rfl, List.rel_append h.tables.users (.cons ⟨rfl, hp⟩ .nil),
          h.tables.activityLogs, ?_⟩
        show ({ s'.tables with users := s'.tables.users ++ [{ u with password := p' }] } : Tables) = _
        rewrite [h.tables.rest]
        rfl

/-- What `update` stores once it has the hash of the password, if any. -/
theorem lockstep_stores {id : String} {name email : JsVal} {o o' : Option String}
    (h : s.Alike K s') (ho : Option.Rel K o o') :
    Prog.Lockstep X (Leaves K) (do
      ActivityLogService.log (some (.str Actions.UPDATE_USER.text)) (some (.obj
        ([("password", o.map Json.str), ("name", name), ("email", email)].filterMap fun p =>
          p.2.map fun v => (p.1, v))))
      let _ ← usersRepository.set (some (.str id)) fun _ u =>
        { u with
          password := o.getD u.password
          name := (name.bind Json.bound).getD u.name
          email := (email.bind Json.bound).getD u.email } : Svc Unit) s (do
      ActivityLogService.log (some (.str Actions.UPDATE_USER.text)) (some (.obj
        ([("password", o'.map Json.str), ("name", name), ("email", email)].filterMap fun p =>
          p.2.map fun v => (p.1, v))))
      let _ ← usersRepository.set (some (.str id)) fun _ u =>
        { u with
          password := o'.getD u.password
          name := (name.bind Json.bound).getD u.name
          email := (email.bind Json.bound).getD u.email }) s' := by
  have hrest : ∀ ms : List (String × Json), List.Forall₂ (fun m m' : String × Json =>
      m = m' ∨ ∃ h h', m = ("password", .str h) ∧ m' = ("password", .str h') ∧ K h h') ms ms :=
    fun ms => List.forall₂_same.2 fun _ _ => .inl rfl
  refine ActivityLogService.lockstep_log_bind leaves_error h (.inr ⟨_, _, rfl, rfl, ?_⟩)
    fun t t' ht => ?_
  · cases ho with
    | none => exact hrest _
    | some hk => exact .cons (.inr ⟨_, _, rfl, rfl, hk⟩) (hrest _)
  · rw [usersRepository.set_str, usersRepository.set_str]
    refine lockstep_statement_bind leaves_error ht (fun x _ => ?_) fun _ _ _ ht => .pure ht
    by_cases hid : id = ""
    · rw [if_pos hid, if_pos hid]
      exact .inl ⟨_, _, rfl, rfl⟩
    · rw [if_neg hid, if_neg hid]
      have hcount : (t'.tables.users.countP fun u => decide (u.id = id)) =
          t.tables.users.countP fun u => decide (u.id = id) := by
        have hids := ht.tables.map_users (f := Users.id) fun _ _ => rfl
        have hmap : ∀ us : List Users, (us.countP fun u => decide (u.id = id)) =
            (us.map Users.id).countP fun k => decide (k = id) := fun us => by
          rw [List.countP_map]
          rfl
        rw [hmap, hids, ← hmap]
      refine .inr ⟨_, _, _, rfl, congrArg (fun n => Except.ok (n, _)) hcount, ?_⟩
      refine ⟨?_, ht.tables.activityLogs, ?_⟩
      · refine forall₂_updateWhere ht.tables.users (fun u u' hu => ?_) fun u u' hu _ => ?_
        · rewrite [hu.1]
          rfl
        · obtain ⟨hu, hpassword⟩ := hu
          rw [hu]
          refine ⟨rfl, ?_⟩
          cases ho with
          | none => exact hpassword
          | some hk => exact hk
      · show ({ t'.tables with users := _ } : Tables) = _
        rewrite [ht.tables.rest]
        rfl

theorem create_refused {user : Json} {s t : Server} {xs : List Ext}
    {r : Except Rejection (Option (Users × List Account) × JsVal)} (hno : ¬ Creatable s user)
    (hrun : (create user).run xs s = some (r, t)) : t = s := by
  rcases create_post user s _ _ (Prog.ends_of_run hrun) with ⟨hc, -⟩ | ⟨-, -, h⟩
  · exact (hno hc).elim
  · exact h

/-- Two bodies whose passwords are put to one use. -/
theorem lockstep_update {id : String} {user user' : Json} (h : s.Alike (HashesOf X P) s')
    (hsame : user.SameButPassword user')
    (huse : (user.get? "role").truthy = true ∨ passwordUse user' = passwordUse user)
    (hP : ∀ p p', user.get? "password" = some (.str p) →
      user'.get? "password" = some (.str p') → P p p') :
    Prog.Lockstep X (Leaves (HashesOf X P)) (update id user) s (update id user') s' := by
  have hnull : user'.isNull = user.isNull := by
    rcases hsame with rfl | ⟨ms, ms', rfl, rfl, -⟩
    · rfl
    · rfl
  unfold update
  dsimp only
  rw [hnull, hsame.get?_eq (k := "role") (by decide), hsame.get?_eq (k := "name") (by decide),
    hsame.get?_eq (k := "email") (by decide)]
  split
  · exact .throw h
  · split
    · exact .throw h
    · rename_i hrole
      have huse := huse.resolve_left hrole
      have hgiven : ∀ p p', (user.get? "password").filter Json.truthy = some (.str p) →
          (user'.get? "password").filter Json.truthy = some (.str p') → P p p' := fun p p' hp hp' =>
        hP p p' (Option.filter_eq_some_iff.1 hp).1 (Option.filter_eq_some_iff.1 hp').1
      unfold passwordUse at huse
      generalize (user.get? "password").filter Json.truthy = v at huse hgiven
      generalize (user'.get? "password").filter Json.truthy = v' at huse hgiven
      cases v with
      | none =>
        cases v' with
        | none => exact lockstep_stores h .none
        | some j' => cases huse
      | some j =>
        cases v' with
        | none => cases huse
        | some j' =>
          cases j with
          | str p =>
            cases j' with
            | str p' =>
              refine .bind (HashUtils.lockstep_hash_bind (fun _ => h)
                (.inr ⟨p, p', rfl, rfl, hgiven p p' rfl rfl⟩) fun k k' hk => ?_)
              exact .pure (lockstep_stores h (.some hk))
            | _ => cases huse
          | _ =>
            cases j' with
            | str p' => cases huse
            | _ => exact .throw h

end UsersService

/-! ## Runs -/

inductive UserCall where
  | create
  | update (id : String)

/-- The server that the call leaves, alone and on the inputs. -/
def UserCall.after (user : Json) (xs : List Ext) (s : Server) : UserCall → Option Server
  | create => ((UsersService.create user).run xs s).map Prod.snd
  | update id => ((UsersService.update id user).run xs s).map Prod.snd

/-- A call as two runs make it, on the same inputs and with bodies that differ in
the password. -/
structure Twin where
  call : UserCall
  body : Json
  body' : Json
  inputs : List Ext
  same : body.SameButPassword body'

namespace Twin

/-- Both runs take the call to its end, alone. -/
def Plays (s : Server × Server) (w : Twin) (t : Server × Server) : Prop :=
  w.call.after w.body w.inputs s.1 = some t.1 ∧ w.call.after w.body' w.inputs s.2 = some t.2

/-- The two passwords are texts that the two runs supply. -/
def Supplies (w : Twin) (p p' : String) : Prop :=
  w.body.get? "password" = some (.str p) ∧ w.body'.get? "password" = some (.str p')

/-- A user with one of the two passwords is refused in both runs, or it is the
one body; and an update is rejected for its role, or hashes both passwords or
neither. -/
def Conceals (w : Twin) (s : Server × Server) : Prop :=
  match w.call with
  | .create => w.body = w.body' ∨
      (¬ UsersService.Creatable s.1 w.body ∧ ¬ UsersService.Creatable s.2 w.body')
  | .update _ => (w.body.get? "role").truthy = true ∨
      UsersService.passwordUse w.body' = UsersService.passwordUse w.body

theorem exists_plays (w : Twin) (s : Server)
    (h : ((w.call.after w.body w.inputs s).isSome && (w.call.after w.body' w.inputs s).isSome) = true) :
    ∃ t t', w.Plays (s, s) (t, t') := by
  obtain ⟨h, h'⟩ := Bool.and_eq_true_iff.1 h
  obtain ⟨t, ht⟩ := Option.isSome_iff_exists.1 h
  obtain ⟨t', ht'⟩ := Option.isSome_iff_exists.1 h'
  exact ⟨t, t', ht, ht'⟩

/-- The step lemma. -/
theorem Plays.alike {X : Ext → Prop} {P : String → String → Prop} {w : Twin} {s t : Server × Server}
    (h : w.Plays s t) (hX : ∀ x ∈ w.inputs, X x) (hP : ∀ p p', w.Supplies p p' → P p p')
    (hw : w.Conceals s) (hs : s.1.Alike (HashesOf X P) s.2) : t.1.Alike (HashesOf X P) t.2 := by
  obtain ⟨call, body, body', inputs, same⟩ := w
  obtain ⟨h, h'⟩ := h
  cases call with
  | create =>
    obtain ⟨⟨r, t₁⟩, hrun, rfl⟩ := Option.map_eq_some_iff.1 h
    obtain ⟨⟨r', t₂⟩, hrun', rfl⟩ := Option.map_eq_some_iff.1 h'
    rcases hw with heq | ⟨hno, hno'⟩
    · obtain rfl : body = body' := heq
      exact (UsersService.lockstep_create hs).run hX hrun hrun'
    · rw [UsersService.create_refused hno hrun, UsersService.create_refused hno' hrun']
      exact hs
  | update id =>
    obtain ⟨⟨r, t₁⟩, hrun, rfl⟩ := Option.map_eq_some_iff.1 h
    obtain ⟨⟨r', t₂⟩, hrun', rfl⟩ := Option.map_eq_some_iff.1 h'
    exact (UsersService.lockstep_update hs same hw fun p p' hp hp' => hP p p' ⟨hp, hp'⟩).run
      hX hrun hrun'

/-- The two states store the same, but for hashes of the passwords that a call
of the run supplies, under its salts. -/
def Concealed (steps : List ((Server × Server) × Twin × Server × Server)) (s : Server × Server) :
    Prop :=
  s.1.tables.Alike (HashesOf (fun y => ∃ x ∈ steps, y ∈ x.2.1.inputs)
    fun p p' => ∃ x ∈ steps, x.2.1.Supplies p p') s.2.tables

/-- **No password is stored.** Two runs of calls that differ in the passwords,
from one state, store the same rows but for hashes of the passwords, in all
states they reach, if every call conceals its password. -/
theorem passwords_concealed {s : Server} {t : Server × Server}
    {steps : List ((Server × Server) × Twin × Server × Server)}
    (hrun : Trace (fun s w t => w.Plays s t) (s, s) steps t)
    (hsteps : ∀ x ∈ steps, x.2.1.Conceals x.1) : ∀ x ∈ steps, Concealed steps x.2.2 := by
  have hstart : s.Alike (HashesOf (fun y => ∃ x ∈ steps, y ∈ x.2.1.inputs)
      fun p p' => ∃ x ∈ steps, x.2.1.Supplies p p') s := ⟨Tables.Alike.refl .same _, rfl, rfl⟩
  have hall := hrun.forall_states_of_mem (I := fun s : Server × Server => s.1.Alike _ s.2)
    (fun y hy hplays hs => hplays.alike (fun z hz => ⟨y, hy, hz⟩) (fun p p' hp => ⟨y, hy, hp⟩)
      (hsteps y hy) hs) hstart
  exact fun x hx => (hall x hx).tables

end Twin

namespace Sample

/-- A user with a password, as two runs create or update it. -/
def secret (fields : List (String × Json)) (password : String) : Json :=
  .obj (fields ++ [("password", .str password)])

def android : List (String × Json) :=
  [("email", .str "u@x"), ("name", .str "u"), ("role", .str Roles.AndroidUser.text)]

def twin (call : UserCall) (fields : List (String × Json)) (ids : List String) : Twin where
  call := call
  body := secret fields "p"
  body' := secret fields "q"
  inputs := ids.map fun id => { input id with hash := fun p => "##" ++ p }
  same := .inr ⟨_, _, rfl, rfl, by rw [List.filter_append, List.filter_append]; rfl⟩

/-- A user is created with one of two passwords. -/
def leak : Twin :=
  twin .create android ["", "", "", "u", "g1", "", "", "", "u-root", "g2", ""]

end Sample

/-- The password in the first entry of the log. -/
def Tables.loggedPassword (t : Tables) : JsVal :=
  t.activityLogs.head?.bind fun e => e.metadata.get? "password"

theorem Tables.Alike.loggedPassword {K : String → String → Prop} {t t' : Tables} (h : t.Alike K t')
    {p p' : String} (hp : t.loggedPassword = some (.str p))
    (hp' : t'.loggedPassword = some (.str p')) : p = p' ∨ K p p' := by
  have hlogs := h.activityLogs
  unfold Tables.loggedPassword at hp hp'
  cases hlogs' : t.activityLogs with
  | nil =>
    rw [hlogs'] at hp
    cases hp
  | cons e es =>
    rw [hlogs'] at hp hlogs
    cases hlogs'' : t'.activityLogs with
    | nil =>
      rw [hlogs''] at hp'
      cases hp'
    | cons e' es' =>
      rw [hlogs''] at hp' hlogs
      exact (List.forall₂_cons.1 hlogs).1.2.password hp hp'

open Twin in
/-- Two passwords of a user who is updated. -/
theorem passwords_concealed_sample : ∃ steps t,
    Trace (fun s w t => w.Plays s t) (Sample.server, Sample.server) steps t ∧
    (∃ x ∈ steps, x.2.1 = Sample.twin (.update "u") [] ["", "g", ""]) ∧
    ∀ x ∈ steps, Concealed steps x.2.2 := by
  obtain ⟨t, t', hplays⟩ := (Sample.twin (.update "u") [] ["", "g", ""]).exists_plays Sample.server
    (by decide +kernel)
  have hrun := Trace.snoc (s := (Sample.server, Sample.server)) .nil hplays
  refine ⟨_, _, hrun, ⟨_, List.mem_singleton.2 rfl, rfl⟩, passwords_concealed hrun fun x hx => ?_⟩
  rw [List.mem_singleton.1 hx]
  exact .inr rfl

open Twin in
/-- A user is created with one of two passwords, and the log stores it. -/
theorem password_stored : ¬ ∀ (s : Server) (t : Server × Server)
    (steps : List ((Server × Server) × Twin × Server × Server)),
    Trace (fun s w t => w.Plays s t) (s, s) steps t → ∀ x ∈ steps, Concealed steps x.2.2 := by
  intro hall
  have hlogged : ((Sample.leak.call.after Sample.leak.body Sample.leak.inputs Sample.seeded).any
      (fun t => t.tables.loggedPassword.isStr "p") &&
      (Sample.leak.call.after Sample.leak.body' Sample.leak.inputs Sample.seeded).any
        fun t => t.tables.loggedPassword.isStr "q") = true := by decide +kernel
  obtain ⟨h, h'⟩ := Bool.and_eq_true_iff.1 hlogged
  obtain ⟨t, ht, hp⟩ := (Option.any_eq_true _ _).1 h
  obtain ⟨t', ht', hq⟩ := (Option.any_eq_true _ _).1 h'
  have hconcealed := hall Sample.seeded (t, t') _ (.snoc .nil ⟨ht, ht'⟩) _ (List.mem_singleton.2 rfl)
  rcases hconcealed.loggedPassword (JsVal.isStr_iff.1 hp) (JsVal.isStr_iff.1 hq) with heq | hK
  · exact absurd heq (by decide)
  · obtain ⟨x, p, ⟨y, hy, hx⟩, hpq⟩ := hK.of_ne (by decide)
    rw [List.mem_singleton.1 hy] at hx
    obtain ⟨i, -, rfl⟩ := List.mem_map.1 hx
    have hlength : 1 = 2 + p.length :=
      (congrArg String.length hpq).trans (String.length_append "##" p)
    omega

end Damaru
