import Damaru.Verify.Attribution
import Damaru.Verify.Pins
import Damaru.Verify.UserSpecs

/-!
# Keys

Keys that the database generates are not generated twice, and few requests may
give a key themselves: that of a user or a device that they add, of a device or
an entry of the log that they update, and of a device whose screenshot they
upload. So it is in each step of every call.
-/

namespace Damaru

open Async Table

/-! ## Keys -/

/-- The keys of the rows of an entity. -/
def Entity.ids (t : Tables) : Entity → List String
  | role => t.roles.map Role.id
  | users => t.users.map Users.id
  | account => t.accounts.map Account.id
  | emulator => t.emulators.map Emulator.device_id
  | userEmulators => t.userEmulators.map UserEmulators.id
  | accountEmulators => t.accountEmulators.map AccountEmulators.id
  | emulatorConnections => t.emulatorConnections.map EmulatorConnections.id
  | activityLog => t.activityLogs.map ActivityLog.id

/-- The database generates the key of a row that gives none. Roles are added
when the server starts, and devices have the ids they are given. -/
def Entity.Generated : Entity → Prop
  | role => False
  | emulator => False
  | _ => True

theorem Entity.mem_used {s : Server} {n : Entity} (hn : n.Generated) {k : String}
    (hk : k ∈ n.ids s.tables) : k ∈ s.used := by
  refine Server.mem_used_of_mem_ids ?_
  cases n with
  | role => exact hn.elim
  | emulator => exact hn.elim
  | _ =>
    simp only [ids] at hk
    simp only [Tables.ids, List.mem_append, hk, true_or, or_true]

/-- The key that an event gives for a row of an entity. -/
def Event.Names : Event → Entity → String → Prop
  | .http _ (.users_create dto), .users, k => (dto.get? "id").uuid = some k
  | .http _ (.emulators_create dto), .emulator, k => (dto.get? "device_id").bound = some k
  | .http _ (.emulators_uploadFile deviceId _), .emulator, k => deviceId = k
  | .http _ (.emulators_update _ dto), .emulator, k => (dto.get? "device_id").bound = some k
  | .http _ (.activityLogs_update _ dto), .activityLog, k => (dto.get? "id").bound = some k
  | _, _, _ => False

/-- Only users, devices and entries of the log get keys that are given. -/
theorem Event.entity_of_names {e : Event} {n : Entity} {k : String} (h : e.Names n k) :
    n = .users ∨ n = .emulator ∨ n = .activityLog := by
  unfold Names at h
  split at h
  · exact .inl rfl
  · exact .inr (.inl rfl)
  · exact .inr (.inl rfl)
  · exact .inr (.inl rfl)
  · exact .inr (.inr rfl)
  · exact h.elim

/-- Every key was there before, is a new one, or is given. -/
structure Renews (N : Entity → String → Prop) (s s' : Server) : Prop where
  used : s.used ⊆ s'.used
  ids : ∀ n : Entity, ∀ k ∈ n.ids s'.tables,
    k ∈ n.ids s.tables ∨ (n.Generated ∧ k ∉ s.used) ∨ N n k

variable {N : Entity → String → Prop} {s s' : Server}

theorem Renews.refl (N : Entity → String → Prop) (s : Server) : Renews N s s :=
  ⟨List.Subset.refl _, fun _ _ hk => .inl hk⟩

/-- A key that has been used is that of an older row. -/
theorem Renews.old {e : Event} (h : Renews e.Names s s') {n : Entity} (hn : n ≠ .users)
    (hn' : n ≠ .emulator) (hn'' : n ≠ .activityLog) {k : String} (hused : k ∈ s.used)
    (hk : k ∈ n.ids s'.tables) : k ∈ n.ids s.tables := by
  rcases h.ids n k hk with hold | ⟨-, hnew⟩ | hnames
  · exact hold
  · exact absurd hused hnew
  · rcases Event.entity_of_names hnames with heq | heq | heq
    · exact absurd heq hn
    · exact absurd heq hn'
    · exact absurd heq hn''

/-- A commit to one entity. -/
theorem Renews.commit {t : Tables} (hi : t.Integrity) (n : Entity)
    (hn : ∀ k ∈ n.ids t, k ∈ n.ids s.tables ∨ (n.Generated ∧ k ∉ s.used) ∨ N n k)
    (hothers : ∀ m, m ≠ n → m.ids t ⊆ m.ids s.tables) : Renews N s (s.commit t hi) := by
  refine ⟨List.subset_append_left _ _, fun m k hk => ?_⟩
  by_cases hm : m = n
  · subst hm
    exact hn k hk
  · exact .inl (hothers m hm hk)

theorem Entity.ids_cascade (n : Entity) (t : Tables) : n.ids t.cascade ⊆ n.ids t := by
  cases n with
  | role => exact List.Subset.refl _
  | emulator => exact List.Subset.refl _
  | activityLog => exact List.Subset.refl _
  | users => exact List.map_subset _ (List.filter_subset_self _)
  | account => exact List.map_subset _ (List.filter_subset_self _)
  | userEmulators => exact List.map_subset _ (List.filter_subset_self _)
  | accountEmulators => exact List.map_subset _ (List.filter_subset_self _)
  | emulatorConnections => exact List.map_subset _ (List.filter_subset_self _)

/-! ## Repositories -/

/-- The repository has the rows of the entity. -/
structure Repository.Stores {α : Type} (repo : Repository α) (n : Entity) : Prop where
  rows : ∀ t, n.ids t = (repo.rows t).map repo.key
  put : ∀ l t, n.ids (repo.put l t) = l.map repo.key
  others : ∀ l t m, m ≠ n → m.ids (repo.put l t) = m.ids t

theorem usersRepository_stores : usersRepository.Stores .users := by
  refine ⟨fun _ => rfl, fun _ _ => rfl, fun l t m hm => ?_⟩
  cases m with
  | users => exact absurd rfl hm
  | _ => rfl

theorem accountRepository_stores : accountRepository.Stores .account := by
  refine ⟨fun _ => rfl, fun _ _ => rfl, fun l t m hm => ?_⟩
  cases m with
  | account => exact absurd rfl hm
  | _ => rfl

theorem emulatorRepository_stores : emulatorRepository.Stores .emulator := by
  refine ⟨fun _ => rfl, fun _ _ => rfl, fun l t m hm => ?_⟩
  cases m with
  | emulator => exact absurd rfl hm
  | _ => rfl

theorem userEmulatorRepository_stores : userEmulatorRepository.Stores .userEmulators := by
  refine ⟨fun _ => rfl, fun _ _ => rfl, fun l t m hm => ?_⟩
  cases m with
  | userEmulators => exact absurd rfl hm
  | _ => rfl

theorem accountEmulatorRepository_stores : accountEmulatorRepository.Stores .accountEmulators := by
  refine ⟨fun _ => rfl, fun _ _ => rfl, fun l t m hm => ?_⟩
  cases m with
  | accountEmulators => exact absurd rfl hm
  | _ => rfl

theorem emulatorConnectionsRepository_stores :
    emulatorConnectionsRepository.Stores .emulatorConnections := by
  refine ⟨fun _ => rfl, fun _ _ => rfl, fun l t m hm => ?_⟩
  cases m with
  | emulatorConnections => exact absurd rfl hm
  | _ => rfl

theorem activityLogRepository_stores : activityLogRepository.Stores .activityLog := by
  refine ⟨fun _ => rfl, fun _ _ => rfl, fun l t m hm => ?_⟩
  cases m with
  | activityLog => exact absurd rfl hm
  | _ => rfl

section Repositories

variable {α β : Type} {repo : Repository α} {n : Entity}

theorem renews_query {f : Ext → Server → Except Rejection α} : (query f).Each (Renews N) :=
  each_query (Renews.refl N)

/-- What follows a query may rely on what the query answered. -/
theorem renews_query_bind {f : Ext → Server → Except Rejection α} {g : α → Svc β}
    (h : ∀ x s a, f x s = .ok a → (g a).Each (Renews N)) : (query f >>= g).Each (Renews N) := by
  intro x s
  refine ⟨Renews.refl N s, ?_⟩
  show ((Prog.ofExcept (f x s)).bind g).Each (Renews N)
  cases hf : f x s with
  | error e => exact trivial
  | ok a => exact h x s a hf

namespace Repository.Stores

variable (h : repo.Stores n)

include h

/-- The tables with other rows in this one. -/
theorem renews_put {s : Server} {l : List α} (hi : (repo.put l s.tables).Integrity)
    (hl : ∀ a ∈ l, repo.key a ∈ n.ids s.tables ∨ (n.Generated ∧ repo.key a ∉ s.used) ∨ N n (repo.key a)) :
    Renews N s (s.commit _ hi) := by
  refine .commit hi n (fun k hk => ?_) fun m hm => ?_
  · rw [h.put] at hk
    obtain ⟨a, ha, rfl⟩ := List.mem_map.1 hk
    exact hl a ha
  · rw [h.others _ _ m hm]
    exact List.Subset.refl _

theorem key_mem {t : Tables} {a : α} (ha : a ∈ repo.rows t) : repo.key a ∈ n.ids t := by
  rw [h.rows]
  exact List.mem_map_of_mem ha

theorem renews_insert {values : Ext → Server → Except Rejection α}
    (hkey : ∀ x s a, values x s = .ok a → (n.Generated ∧ repo.key a ∉ s.used) ∨ N n (repo.key a)) :
    (repo.insert values).Each (Renews N) := by
  refine Repository.each_insert (Renews.refl N) fun x s a ha hi => h.renews_put hi fun b hb => ?_
  rcases List.mem_append.1 hb with hb | hb
  · exact .inl (h.key_mem hb)
  · obtain rfl := List.mem_singleton.1 hb
    exact .inr (hkey x s b ha)

theorem renews_update {criterion : JsVal} {fields : Ext → Server → Except Rejection (Option (α → α))}
    (hkey : ∀ x s f, fields x s = .ok (some f) → ∀ a, repo.key (f a) = repo.key a ∨ N n (repo.key (f a))) :
    (repo.update criterion fields).Each (Renews N) := by
  have hkept : ∀ (s : Server) (hi : s.tables.Integrity), Renews N s (s.commit s.tables hi) :=
    fun s hi => .commit hi n (fun k hk => .inl hk) fun m _ => List.Subset.refl _
  refine Repository.each_update (Renews.refl N) (fun x s f hf hi => h.renews_put hi fun b hb => ?_) hkept
  rcases mem_updateWhere.1 hb with ⟨a, ha, -, rfl⟩ | ⟨hb, -⟩
  · rcases hkey x s f hf a with heq | hn
    · rw [heq]
      exact .inl (h.key_mem ha)
    · exact .inr (.inr hn)
  · exact .inl (h.key_mem hb)

theorem renews_set {criterion : JsVal} {f : Ext → α → α} (hkey : ∀ x a, repo.key (f x a) = repo.key a) :
    (repo.set criterion f).Each (Renews N) := by
  refine h.renews_update fun x s g hg a => ?_
  cases hg
  exact .inl (hkey x a)

theorem renews_write {k : String} {f : α → α} (hkey : ∀ a, repo.key (f a) = repo.key a) :
    (repo.write k f).Each (Renews N) := by
  refine Repository.each_write (Renews.refl N) fun s hi => h.renews_put hi fun b hb => .inl ?_
  rcases mem_updateWhere.1 hb with ⟨a, ha, -, rfl⟩ | ⟨hb, -⟩
  · exact (hkey a).symm ▸ h.key_mem ha
  · exact h.key_mem hb

theorem renews_delete {p : α → Bool} : (repo.delete p).Each (Renews N) := by
  refine Repository.each_delete (Renews.refl N) fun s hi => .commit hi n (fun k hk => .inl ?_) fun m hm => ?_
  · have hk := n.ids_cascade _ hk
    rw [h.put] at hk
    rw [h.rows]
    exact List.map_subset _ (List.filter_subset_self _) hk
  · refine List.Subset.trans (m.ids_cascade _) ?_
    rw [h.others _ _ m hm]
    exact List.Subset.refl _

theorem renews_deleteById {id : String} : (repo.deleteById id).Each (Renews N) := by
  unfold Repository.deleteById
  split
  · exact trivial
  · exact h.renews_delete

end Repository.Stores

end Repositories

/-! ## AccountsService -/

namespace AccountsService

theorem renews_insertAccount (dto : CreateAccountDto) : (insertAccount dto).Each (Renews N) := by
  refine renews_query.bind fun draws => Prog.Each.bind ?_ fun _ => trivial
  refine accountRepository_stores.renews_insert fun x s a ha => .inl ⟨trivial, ?_⟩
  show a.id ∉ s.used
  rw [(row_fields ha).1]
  exact x.fresh_not_used s

theorem renews_create (dto : CreateAccountDto) : (create dto).Each (Renews N) := by
  rw [create_eq]
  split
  · refine renews_query.bind fun l => ?_
    split
    · exact trivial
    · exact renews_insertAccount dto
  · exact renews_insertAccount dto

theorem renews_update (id : String) (dto : Json) (jwt : JwtToken) : (update id dto jwt).Each (Renews N) := by
  have hset : ∀ f : Ext → Account → Account, (∀ x a, (f x a).id = a.id) →
      (accountRepository.set (some (.str id)) f >>= fun _ => pure () : Svc Unit).Each (Renews N) :=
    fun f hf => (accountRepository_stores.renews_set hf).bind fun _ => trivial
  unfold update findUserByAccount
  refine renews_query.bind fun found => ?_
  cases found with
  | none => exact trivial
  | some a =>
    dsimp only
    split
    · split
      · exact trivial
      · split
        · refine renews_query.bind fun taken => ?_
          split
          · exact trivial
          · exact hset _ fun _ _ => rfl
        · exact hset _ fun _ _ => rfl
    · exact trivial

theorem renews_remove (id : String) (payload : JwtToken) : (remove id payload).Each (Renews N) := by
  unfold remove findUserByAccount
  refine renews_query.bind fun found => ?_
  cases found with
  | none => exact trivial
  | some a =>
    dsimp only
    split
    · exact accountRepository_stores.renews_deleteById
    · exact trivial

theorem renews_findAll (jwt : JwtToken) : (findAll jwt).Each (Renews N) := by
  unfold findAll
  split
  · exact renews_query
  · split
    · exact renews_query
    · exact renews_query

theorem renews_findOne (id : String) (token : JwtToken) : (findOne id token).Each (Renews N) := by
  unfold findOne
  refine renews_query.bind fun details => ?_
  cases details with
  | none => exact trivial
  | some details =>
    dsimp only
    split
    · split
      · exact trivial
      · split
        · exact trivial
        · exact renews_query.bind fun _ => trivial
    · exact renews_query.bind fun _ => trivial

end AccountsService

/-! ## ActivityLogService -/

namespace ActivityLogService

theorem renews_log (action metadata : JsVal) : (log action metadata).Each (Renews N) := by
  unfold log
  split
  · exact trivial
  · exact trivial
  · refine Prog.Each.bind ?_ fun _ => trivial
    refine activityLogRepository_stores.renews_insert fun x s a ha => .inl ⟨trivial, ?_⟩
    split at ha
    · cases ha
    · cases ha
    · cases ha
      exact x.fresh_not_used s

theorem renews_update {log : Json} (id : String)
    (hN : ∀ k, (log.get? "id").bound = some k → N .activityLog k) : (update id log).Each (Renews N) := by
  refine Prog.Each.bind ?_ fun _ => trivial
  refine activityLogRepository_stores.renews_update fun x s f hf a => ?_
  show (f a).id = a.id ∨ N .activityLog (f a).id
  have hid : (f a).id = (log.get? "id").bound.getD a.id := by
    unfold columns at hf
    split at hf
    · cases hf
    · split at hf
      · split at hf
        · cases hf
        · split at hf
          · cases hf
          · cases hf
            rfl
      · cases hf
  rw [hid]
  cases hgiven : (log.get? "id").bound with
  | none => exact .inl rfl
  | some k => exact .inr (hN k hgiven)

end ActivityLogService

/-! ## UsersService -/

theorem HashUtils.renews_hash (v : JsVal) : (HashUtils.hash v).Each (Renews N) := by
  unfold HashUtils.hash
  split
  · exact renews_query
  · exact trivial

namespace UsersService

open ActivityLogService (renews_log)

theorem renews_afterInsert (user : Json) (newPassword : JsVal) (userId : String) :
    (afterInsert user newPassword userId).Each (Renews N) := by
  unfold afterInsert
  refine (renews_log _ _).bind fun _ => ?_
  dsimp only
  split
  · refine renews_query.bind fun draws => (AccountsService.renews_create _).bind fun _ => ?_
    exact (renews_log _ _).bind fun _ => renews_query.bind fun _ => trivial
  · exact renews_query.bind fun _ => trivial

theorem renews_insertUser {user : Json} (role : Option Role)
    (hN : ∀ k, (user.get? "id").uuid = some k → N .users k) : (insertUser user role).Each (Renews N) := by
  unfold insertUser
  refine renews_query.bind fun draws => (HashUtils.renews_hash _).bind fun password => ?_
  cases role with
  | none => exact trivial
  | some role =>
    refine Prog.Each.bind ?_ fun _ => renews_afterInsert _ _ _
    refine usersRepository_stores.renews_insert fun x s u hu => ?_
    show (_ ∧ u.id ∉ s.used) ∨ N .users u.id
    rw [givenId_eq (row_fields hu).1]
    cases hgiven : (user.get? "id").uuid with
    | none => exact .inl ⟨trivial, x.fresh_not_used s⟩
    | some k => exact .inr (hN k hgiven)

theorem renews_create {user : Json} (hN : ∀ k, (user.get? "id").uuid = some k → N .users k) :
    (create user).Each (Renews N) := by
  cases hrole : roleText user with
  | none =>
    rw [create_eq_throw hrole]
    exact trivial
  | some roleName =>
    rw [create_eq hrole]
    exact renews_query.bind fun role => renews_insertUser role hN

theorem renews_update (id : String) (user : Json) : (update id user).Each (Renews N) := by
  unfold update
  dsimp only
  split
  · exact trivial
  · split
    · exact trivial
    · split
      · refine (renews_log _ _).bind fun _ => Prog.Each.bind ?_ fun _ => trivial
        exact usersRepository_stores.renews_set fun _ _ => rfl
      · refine Prog.Each.bind ((HashUtils.renews_hash _).bind fun _ => trivial) fun password => ?_
        refine (renews_log _ _).bind fun _ => Prog.Each.bind ?_ fun _ => trivial
        exact usersRepository_stores.renews_set fun _ _ => rfl

theorem renews_remove (id : String) : (remove id).Each (Renews N) := by
  unfold remove
  refine renews_query.bind fun devices => (renews_log _ _).bind fun _ => ?_
  refine (Prog.Each.forM (fun device => Prog.Each.detach ?_) _).bind fun _ =>
    usersRepository_stores.renews_deleteById
  cases device with
  | none => exact trivial
  | some d =>
    refine Prog.Each.bind ?_ fun _ => trivial
    exact emulatorRepository_stores.renews_set fun _ _ => rfl

end UsersService

/-! ## EmulatorService -/

namespace EmulatorService

theorem renews_create {emulator : Json}
    (hN : ∀ k, (emulator.get? "device_id").bound = some k → N .emulator k) :
    (create emulator).Each (Renews N) := by
  unfold create
  dsimp only
  split
  · exact trivial
  · refine renews_query.bind fun exist => ?_
    split
    · exact trivial
    · refine Prog.Each.bind ?_ fun _ => trivial
      refine emulatorRepository_stores.renews_insert fun x s e he => .inr ?_
      exact hN e.device_id (row_fields he).1

theorem renews_update {emulator : Json} (id : JsVal) (user : Option JwtToken)
    (hN : ∀ k, (emulator.get? "device_id").bound = some k → N .emulator k) :
    (update id emulator user).Each (Renews N) := by
  have hset : (do
      let affected ← emulatorRepository.update id fun _ s => values s.platform emulator
      return decide (affected > 0) : Svc Bool).Each (Renews N) := by
    refine Prog.Each.bind ?_ fun _ => trivial
    refine emulatorRepository_stores.renews_update fun x s f hf e => ?_
    show (f e).device_id = e.device_id ∨ N .emulator (f e).device_id
    have hid : (f e).device_id = (emulator.get? "device_id").bound.getD e.device_id := by
      unfold values at hf
      split at hf
      · cases hf
      · split at hf
        · split at hf
          · cases hf
          · split at hf
            · cases hf
            · cases hf
              rfl
        · cases hf
    rw [hid]
    cases hgiven : (emulator.get? "device_id").bound with
    | none => exact .inl rfl
    | some k => exact .inr (hN k hgiven)
  unfold update
  dsimp only
  split
  · split
    · refine renews_query.bind fun link => ?_
      split
      · exact trivial
      · exact hset
    · exact hset
  · exact hset

/-- The row that has gone since it was read is inserted again. -/
theorem renews_save {emulator : Emulator} (hN : N .emulator emulator.device_id) :
    (save emulator).Each (Renews N) := by
  unfold save
  refine renews_query.bind fun reloaded => ?_
  cases reloaded with
  | none =>
    refine Prog.Each.bind ?_ fun _ => trivial
    refine emulatorRepository_stores.renews_insert fun x s e he => .inr ?_
    cases he
    exact hN
  | some old =>
    dsimp only
    split
    · exact emulatorRepository_stores.renews_write fun _ => rfl
    · exact trivial

theorem renews_linkScreenshot {deviceId : String} (hN : N .emulator deviceId) :
    (linkScreenshot deviceId).Each (Renews N) := by
  unfold linkScreenshot
  refine renews_query_bind fun x s found hfound => ?_
  cases found with
  | none => exact trivial
  | some e =>
    obtain ⟨old, hold, rfl⟩ := Option.map_eq_some_iff.1 (Except.ok.inj hfound)
    refine (renews_save ?_).bind fun _ => trivial
    show N .emulator old.device_id
    rw [of_decide_eq_true (Repository.of_scan_head hold).2]
    exact hN

theorem renews_setState (device_id : JsVal) (st : EmulatorState) :
    (setState device_id st).Each (Renews N) := by
  refine Prog.Each.bind ?_ fun _ => trivial
  exact emulatorRepository_stores.renews_set fun _ _ => rfl

theorem renews_extend (dto : ExtendExpiryDto) : (extend dto).Each (Renews N) := by
  refine each_withLink (Renews.refl N) fun l => Prog.Each.bind ?_ fun _ => trivial
  refine userEmulatorRepository_stores.renews_update fun x s f hf l => .inl ?_
  split at hf
  · cases hf
  · cases hf
    rfl

theorem renews_tryAssign (account : JsVal) (l : UserEmulators) : (tryAssign account l).Each (Renews N) := by
  refine (each_statement (Renews.refl N) fun x s a t hf hi => ?_ :
    (accountEmulatorRepository.upsert account.bound l.id).Each (Renews N)).tryCatch fun _ => trivial
  dsimp only at hf
  split at hf
  · cases hf
    refine accountEmulatorRepository_stores.renews_put hi fun b hb => .inl ?_
    rcases mem_updateWhere.1 hb with ⟨a, ha, -, rfl⟩ | ⟨hb, -⟩
    · exact accountEmulatorRepository_stores.key_mem (a := a) ha
    · exact accountEmulatorRepository_stores.key_mem hb
  · cases hf
    refine accountEmulatorRepository_stores.renews_put hi fun b hb => ?_
    rcases List.mem_append.1 hb with hb | hb
    · exact .inl (accountEmulatorRepository_stores.key_mem hb)
    · obtain rfl := List.mem_singleton.1 hb
      exact .inr (.inl ⟨trivial, x.fresh_not_used s⟩)

theorem renews_tryUnassign (account : JsVal) (l : UserEmulators) (p : AccountEmulators → Bool) :
    (tryUnassign account l p).Each (Renews N) := by
  refine Prog.Each.tryCatch ?_ fun _ => trivial
  split
  · exact accountEmulatorRepository_stores.renews_delete
  · exact trivial

theorem renews_linkDevice (userId device_id : JsVal) : (linkDevice userId device_id).Each (Renews N) := by
  unfold linkDevice findEmulatorByDeviceId AccountsService.findRootAccount
  refine renews_query.bind fun found => ?_
  split
  · refine Prog.Each.bind ?_ fun link => renews_query.bind fun root => ?_
    · refine userEmulatorRepository_stores.renews_insert fun x s l hl => .inl ⟨trivial, ?_⟩
      cases hl
      exact x.fresh_not_used s
    · cases root with
      | none => exact trivial
      | some a =>
        refine Prog.Each.bind ?_ fun _ => renews_setState _ _
        refine accountEmulatorRepository_stores.renews_insert fun x s b hb => .inl ⟨trivial, ?_⟩
        cases hb
        exact x.fresh_not_used s
  · exact trivial

theorem renews_unlinkDevice (userId device_id : JsVal) : (unlinkDevice userId device_id).Each (Renews N) := by
  unfold unlinkDevice
  refine renews_query.bind fun found => ?_
  cases found with
  | none => exact trivial
  | some l =>
    refine Prog.Each.bind ?_ fun _ => ?_
    · exact userEmulatorRepository_stores.renews_set fun _ _ => rfl
    · exact accountEmulatorRepository_stores.renews_delete.bind fun _ => renews_setState _ _

theorem renews_connectEmulator (clientId deviceId : JsVal) :
    (connectEmulator clientId deviceId).Each (Renews N) := by
  refine renews_query.bind fun found => ?_
  cases found with
  | none => exact trivial
  | some a =>
    refine Prog.Each.bind ?_ fun _ => trivial
    refine emulatorConnectionsRepository_stores.renews_insert fun x s c hc => .inl ⟨trivial, ?_⟩
    cases hc
    exact x.fresh_not_used s

/-- The sockets and what has been emitted have no keys. -/
theorem renews_sync {f : Server → Except Rejection Unit × Server}
    (hf : ∀ s, (f s).2.db = s.db ∧ (f s).2.issued = s.issued) : (sync f).Each (Renews N) := by
  refine each_sync fun s => ?_
  obtain ⟨hdb, hissued⟩ := hf s
  constructor
  · unfold Server.used Server.tables
    rw [hdb, hissued]
    exact List.Subset.refl _
  · intro n k hk
    unfold Server.tables at hk
    rw [hdb] at hk
    exact .inl hk

theorem renews_disconnectEmulator (clientId : JsVal) : (disconnectEmulator clientId).Each (Renews N) := by
  refine renews_query.bind fun found => ?_
  cases found with
  | some e =>
    refine Prog.Each.bind ?_ fun _ => renews_sync fun _ => ⟨rfl, rfl⟩
    exact emulatorRepository_stores.renews_set fun _ _ => rfl
  | none =>
    refine renews_query.bind fun connection => ?_
    cases connection with
    | none => exact trivial
    | some c =>
      refine Prog.Each.bind ?_ fun _ => trivial
      exact emulatorConnectionsRepository_stores.renews_set fun _ _ => rfl

end EmulatorService

end Damaru
