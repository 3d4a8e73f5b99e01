import Damaru.Verify.AssignmentSpecs
import Damaru.Verify.Operations

/-!
# Assignments within one user

A row of `AccountEmulators` joins an account and a link of one user. Of all
calls only the two that assign can break this: they take the user and the
accounts from the request and do not compare them.
-/

namespace Damaru

open Async Table

/-- Every assignment joins an account and a link of one user. -/
def Tables.OneUser (t : Tables) : Prop :=
  ∀ x ∈ t.accountEmulators, ∃ a ∈ t.accounts, ∃ l ∈ t.userEmulators,
    x.account = some a.id ∧ x.userEmulator = some l.id ∧ a.user = l.user

/-- Accounts and links that both tables have are of the same users. -/
structure OwnersAgree (t t' : Tables) : Prop where
  accounts : ∀ a ∈ t.accounts, ∀ a' ∈ t'.accounts, a.id = a'.id → a.user = a'.user
  links : ∀ l ∈ t.userEmulators, ∀ l' ∈ t'.userEmulators, l.id = l'.id → l.user = l'.user

namespace OwnersAgree

variable {t t' : Tables}

/-- The rows of `t'` come from rows of `t`, with their keys and users. -/
theorem of_subset (hi : t.Integrity)
    (haccounts : ∀ a' ∈ t'.accounts, ∃ a ∈ t.accounts, a.id = a'.id ∧ a.user = a'.user)
    (hlinks : ∀ l' ∈ t'.userEmulators, ∃ l ∈ t.userEmulators, l.id = l'.id ∧ l.user = l'.user) :
    OwnersAgree t t' :=
  ⟨fun _ ha _ ha' => agree_of_subset hi.accounts haccounts ha ha',
    fun _ hl _ hl' => agree_of_subset hi.userEmulators hlinks hl hl'⟩

theorem symm (h : OwnersAgree t t') : OwnersAgree t' t :=
  ⟨fun a ha a' ha' hid => (h.accounts a' ha' a ha hid.symm).symm,
    fun l hl l' hl' hid => (h.links l' hl' l hl hid.symm).symm⟩

theorem of_eq (hi : t.Integrity) (ha : t'.accounts = t.accounts)
    (hl : t'.userEmulators = t.userEmulators) : OwnersAgree t t' :=
  of_subset hi (fun a h => ⟨a, ha ▸ h, rfl, rfl⟩) fun l h => ⟨l, hl ▸ h, rfl, rfl⟩

/-- A cascade deletes at most. -/
theorem cascade (hi : t.Integrity) {t₀ : Tables} (ha : ∀ a ∈ t₀.accounts, a ∈ t.accounts)
    (hl : t₀.userEmulators = t.userEmulators) : OwnersAgree t t₀.cascade :=
  of_subset hi (fun a h => ⟨a, ha a (t₀.cascade_subset.2.1 h), rfl, rfl⟩)
    fun l h => ⟨l, hl ▸ t₀.cascade_subset.2.2.1 h, rfl, rfl⟩

end OwnersAgree

/-- A step that adds no assignment, and keeps the users of accounts and links,
keeps every assignment within one user. -/
theorem Tables.OneUser.of_agree {t t' : Tables} (h : t.OneUser) (hi' : t'.Integrity)
    (hagree : OwnersAgree t t') (hsub : ∀ x ∈ t'.accountEmulators, x ∈ t.accountEmulators) :
    t'.OneUser := by
  intro x hx
  obtain ⟨a, ha, l, hl, hxa, hxl, huser⟩ := h x (hsub x hx)
  have haccount := hi'.account x hx
  have hlink := hi'.link x hx
  rw [hxa, refers_some] at haccount
  rw [hxl, refers_some] at hlink
  obtain ⟨a', ha', haid⟩ := List.mem_map.1 haccount
  obtain ⟨l', hl', hlid⟩ := List.mem_map.1 hlink
  refine ⟨a', ha', l', hl', by rw [hxa, haid], by rw [hxl, hlid], ?_⟩
  rw [← hagree.accounts a ha a' ha' haid.symm, ← hagree.links l hl l' hl' hlid.symm, huser]

theorem Tables.cascade_assignments (t : Tables) :
    ∀ x ∈ t.cascade.accountEmulators, x ∈ t.accountEmulators := fun _ hx => t.cascade_subset.2.2.2 hx

/-- The kinds of writes that add no assignment. -/
def Kind.NoAssignment : Kind → Prop
  | .assignments => False
  | _ => True

theorem Write.oneUser {t t' : Tables} {k : Kind} (hw : Write t k t') (hk : k.NoAssignment)
    (hi : t.Integrity) (hi' : t'.Integrity) (h : t.OneUser) : t'.OneUser := by
  cases hw with
  | assignments l c => exact hk.elim
  | newAccount a =>
    refine h.of_agree hi' (OwnersAgree.of_subset hi' (fun b hb => ?_) fun l hl => ?_).symm
      fun _ hx => hx
    · exact ⟨b, List.mem_append_left _ hb, rfl, rfl⟩
    · exact ⟨l, hl, rfl, rfl⟩
  | newLink l =>
    refine h.of_agree hi' (OwnersAgree.of_subset hi' (fun b hb => ?_) fun l hl => ?_).symm
      fun _ hx => hx
    · exact ⟨b, hb, rfl, rfl⟩
    · exact ⟨l, List.mem_append_left _ hl, rfl, rfl⟩
  | accountFields p f hf =>
    refine h.of_agree hi' (.of_subset hi (fun b hb => ?_) fun l hl => ⟨l, hl, rfl, rfl⟩)
      fun _ hx => hx
    rcases mem_updateWhere.1 hb with ⟨a, ha, -, rfl⟩ | ⟨hb, -⟩
    · exact ⟨a, ha, (hf a).1.symm, (hf a).2.1.symm⟩
    · exact ⟨b, hb, rfl, rfl⟩
  | expiry p date =>
    refine h.of_agree hi' (.of_subset hi (fun b hb => ⟨b, hb, rfl, rfl⟩) fun l hl => ?_)
      fun _ hx => hx
    rcases mem_updateWhere.1 hl with ⟨l₀, hl₀, -, rfl⟩ | ⟨hl, -⟩
    · exact ⟨l₀, hl₀, rfl, rfl⟩
    · exact ⟨l, hl, rfl, rfl⟩
  | endLink p date =>
    refine h.of_agree hi' (.of_subset hi (fun b hb => ⟨b, hb, rfl, rfl⟩) fun l hl => ?_)
      fun _ hx => hx
    rcases mem_updateWhere.1 hl with ⟨l₀, hl₀, -, rfl⟩ | ⟨hl, -⟩
    · exact ⟨l₀, hl₀, rfl, rfl⟩
    · exact ⟨l, hl, rfl, rfl⟩
  | deleteAccount p =>
    exact h.of_agree hi' (.cascade hi (fun a ha => (List.mem_filter.1 ha).1) rfl)
      (Tables.cascade_assignments _)
  | deleteUser p =>
    exact h.of_agree hi' (.cascade hi (fun _ ha => ha) rfl) (Tables.cascade_assignments _)
  | deleteEmulator p =>
    exact h.of_agree hi' (.cascade hi (fun _ ha => ha) rfl) (Tables.cascade_assignments _)
  | _ => exact h.of_agree hi' (.of_eq hi rfl rfl) fun _ hx => hx

/-- Ending assignments keeps the others within one user. -/
theorem each_deleteAssignments_oneUser (p : AccountEmulators → Bool) :
    (accountEmulatorRepository.delete p).Each fun s s' => s.tables.OneUser → s'.tables.OneUser := by
  refine Repository.each_delete (fun _ => id) fun s hi h => ?_
  refine h.of_agree hi (.cascade s.integrity (fun _ ha => ha) rfl) fun x hx => ?_
  exact (List.mem_filter.1 (Tables.cascade_assignments _ x hx)).1

/-- Statements of other kinds do, too. -/
theorem each_oneUser {α : Type} {p : Svc α} (ks : List Kind) (h : p.Each (Writes ks))
    (hks : ∀ k ∈ ks, k.NoAssignment) :
    p.Each fun s s' => s.tables.OneUser → s'.tables.OneUser := by
  refine h.mono fun s s' hw hs => ?_
  rcases hw.tables with hsame | ⟨k, hk, hw⟩
  · rw [hsame]
    exact hs
  · exact hw.oneUser (hks k hk) s.integrity s'.integrity hs

namespace EmulatorService

theorem each_tryUnassign_oneUser (account : JsVal) (l : UserEmulators) (p : AccountEmulators → Bool) :
    (tryUnassign account l p).Each fun s s' => s.tables.OneUser → s'.tables.OneUser := by
  refine Prog.Each.tryCatch ?_ fun _ => trivial
  split
  · exact each_deleteAssignments_oneUser _
  · exact trivial

theorem each_unlinkDevice_oneUser (userId device_id : JsVal) :
    (unlinkDevice userId device_id).Each fun s s' => s.tables.OneUser → s'.tables.OneUser := by
  refine (Repository.each_findRow fun _ => id).bind fun found => ?_
  cases found with
  | none => exact trivial
  | some l =>
    refine Prog.Each.bind ?_ fun _ => (each_deleteAssignments_oneUser _).bind fun _ => ?_
    · refine each_oneUser [.endLink] ?_ (by simp [Kind.NoAssignment])
      exact Repository.each_update (Writes.refl _)
        (fun x s f hf hi => .commit List.mem_cons_self hi (by cases hf; exact .endLink _ x.now))
        fun _ hi => .kept hi
    · exact each_oneUser [.state] (each_setState List.mem_cons_self)
        (by simp [Kind.NoAssignment])

/-- The root account that a link is assigned to is the user's. -/
theorem linkDevice_oneUser (u : String) (device_id : JsVal) {s : Server} (hs : s.tables.OneUser) :
    (linkDevice (some (.str u)) device_id).Post s fun _ s' => s'.tables.OneUser := by
  unfold linkDevice findEmulatorByDeviceId
  refine Repository.post_findRow_bind (fun _ _ _ => .throw hs) fun _ => ?_
  refine Repository.post_insert_bind (fun x l hl hi => ?_) fun _ _ _ => hs
  have hlink : l.user = some u := by
    cases hl
    rfl
  have hs₁ : ({ s.tables with userEmulators := s.tables.userEmulators ++ [l] } : Tables).OneUser :=
    (Write.newLink l).oneUser trivial s.integrity hi hs
  unfold AccountsService.findRootAccount
  refine Repository.post_findRow_bind (fun a ha hp => ?_) fun _ => .throw hs₁
  rw [Bool.and_eq_true, JsVal.selects_str] at hp
  refine Repository.post_insert_bind (fun y p hp' hi' => ?_) fun _ _ _ => hs₁
  have hassign : p = ⟨y.fresh _, some a.id, some l.id, .ACTIVE⟩ := (Except.ok.inj hp').symm
  have hs₂ : ({ s.tables with
      userEmulators := s.tables.userEmulators ++ [l]
      accountEmulators := s.tables.accountEmulators ++ [p] } : Tables).OneUser := by
    intro q hq
    rcases List.mem_append.1 hq with hq | hq
    · exact hs₁ q hq
    · rw [List.mem_singleton.1 hq, hassign]
      refine ⟨a, ha, l, List.mem_append_right _ (List.mem_singleton.2 rfl), rfl, rfl, ?_⟩
      rw [hp.1, hlink]
  have hstate : (setState device_id .REGISTERED).Each
      fun s s' => s.tables.OneUser → s'.tables.OneUser :=
    each_oneUser [.state] (each_setState List.mem_cons_self) (by simp [Kind.NoAssignment])
  exact (hstate.post (fun _ => id) fun _ _ _ h h' ha => h' (h ha)).mono fun _ _ h => h hs₂

/-! ## The calls that assign -/

/-- The value names accounts of the user of the link only. -/
def NamesOwn (t : Tables) (account : JsVal) (l : UserEmulators) : Prop :=
  ∃ i, account.bound = some i ∧ ∀ a ∈ t.accounts, a.id = i → a.user = l.user

/-- The tables are within one user, and have the accounts and links of `t₀`. -/
def OneUserSince (t₀ t : Tables) : Prop :=
  t.OneUser ∧ t.accounts = t₀.accounts ∧ t.userEmulators = t₀.userEmulators

theorem tryAssign_oneUser {t₀ : Tables} {account : JsVal} {l : UserEmulators}
    (hl : l ∈ t₀.userEmulators) (hown : NamesOwn t₀ account l) {s : Server}
    (hs : OneUserSince t₀ s.tables) :
    (tryAssign account l).Post s fun _ s' => OneUserSince t₀ s'.tables := by
  refine (tryAssign_post account l s).mono fun r s' h => ?_
  rcases h.2 with h | ⟨rfl, -⟩
  · obtain ⟨i, hi, hown⟩ := hown
    obtain ⟨hs, haccounts, hlinks⟩ := hs
    obtain ⟨-, haccounts', hlinks', -⟩ := h.others
    refine ⟨fun x hx => ?_, haccounts'.trans haccounts, hlinks'.trans hlinks⟩
    rcases h.origin hx with hx | ⟨hxa, hxl⟩
    · obtain ⟨a, ha, l', hl', hrow⟩ := hs x hx
      exact ⟨a, haccounts' ▸ ha, l', hlinks' ▸ hl', hrow⟩
    · have href := s'.integrity.account x hx
      rw [hxa, hi, refers_some] at href
      obtain ⟨a, ha, hid⟩ := List.mem_map.1 href
      refine ⟨a, ha, l, ?_, ?_, hxl, ?_⟩
      · rw [hlinks', hlinks]
        exact hl
      · rw [hxa, hi, hid]
      · refine hown a ?_ hid
        rw [← haccounts, ← haccounts']
        exact ha
  · exact hs

end EmulatorService

namespace Operation

/-- An authorised call that assigns names accounts of the user of every link
that it can find only. -/
def NamesOwn (t : Tables) : Operation → Prop
  | emulators_assignEmulatorsToAccount dto user =>
    EmulatorService.checkSuperAdminOrSelf dto.userId user = true →
    ∀ items, dto.deviceIds.iterate = some items → ∀ d ∈ items, ∀ l ∈ t.userEmulators,
      JsVal.selects (some d) l.device = true → dto.userId.selects l.user = true →
      EmulatorService.NamesOwn t dto.accountId l
  | emulators_assignEmulator dto user =>
    EmulatorService.checkSuperAdminOrSelf dto.userId user = true →
    ∀ l ∈ t.userEmulators, dto.deviceId.selects l.device = true → dto.userId.selects l.user = true →
      ∀ items, dto.accountIds.iterate = some items → ∀ a ∈ items,
        EmulatorService.NamesOwn t (some a) l
  | _ => True

open EmulatorService in
theorem assignEmulatorsToAccount_oneUser {s : Server} {dto : MultiDevicesAccountLinkDto} {user : JwtToken}
    (hown : (emulators_assignEmulatorsToAccount dto user).NamesOwn s.tables) (hs : s.tables.OneUser) :
    (assignEmulatorsToAccount dto user).Post s fun _ s' => s'.tables.OneUser := by
  unfold assignEmulatorsToAccount
  split
  · rename_i hcheck
    refine (forOf_post (I := fun s' : Server => OneUserSince s.tables s'.tables)
      (fun items hitems d hd s₁ hs₁ => ?_) ⟨hs, rfl, rfl⟩).mono fun _ _ h => h.1
    refine withLink_post (fun l hl hdevice huser => ?_) fun _ => hs₁
    rw [hs₁.2.2] at hl
    exact tryAssign_oneUser hl (hown hcheck items hitems d hd l hl hdevice huser) hs₁
  · exact .pure hs

open EmulatorService in
theorem assignEmulator_oneUser {s : Server} {dto : MultiAccountsLinkDto} {user : JwtToken}
    (hown : (emulators_assignEmulator dto user).NamesOwn s.tables) (hs : s.tables.OneUser) :
    (assignEmulator dto user).Post s fun _ s' => s'.tables.OneUser := by
  unfold assignEmulator
  split
  · rename_i hcheck
    refine withLink_post (fun l hl hdevice huser => ?_) fun _ => hs
    refine (forOf_post (I := fun s' : Server => OneUserSince s.tables s'.tables)
      (fun items hitems a ha s₁ hs₁ => ?_) ⟨hs, rfl, rfl⟩).mono fun _ _ h => h.1
    exact tryAssign_oneUser hl (hown hcheck l hl hdevice huser items hitems a ha) hs₁
  · exact .pure hs

open EmulatorService in
/-- The step lemma. -/
theorem Runs.oneUser {s s' : Server} {op : Operation} (h : Runs s op s')
    (hown : op.NamesOwn s.tables) (hs : s.tables.OneUser) : s'.tables.OneUser := by
  have hkinds : (∀ k ∈ op.kinds, k.NoAssignment) → s'.tables.OneUser := fun hk =>
    preserves (I := Tables.OneUser)
      (fun k hmem t t' hi hi' hw ht => hw.oneUser (hk k hmem) hi hi' ht) h hs
  have heach : (op.prog.Each fun s s' => s.tables.OneUser → s'.tables.OneUser) →
      s'.tables.OneUser := fun heach =>
    h.each (R := fun s s' => s.tables.OneUser → s'.tables.OneUser) (fun _ => id)
      (fun _ _ _ hab hbc ha => hbc (hab ha)) heach hs
  have hpost : op.prog.ForkFree → op.prog.Post s (fun _ s' => s'.tables.OneUser) → s'.tables.OneUser :=
    fun hfork hpost => Prog.Post.settles (I := fun s' : Server => s'.tables.OneUser)
      (hpost.mono fun _ _ h _ => h) hfork h
  cases op with
  | emulators_assignEmulatorsToAccount dto user =>
    exact hpost (forkFree_assignEmulatorsToAccount dto user) (assignEmulatorsToAccount_oneUser hown hs)
  | emulators_assignEmulator dto user =>
    exact hpost (forkFree_assignEmulator dto user) (assignEmulator_oneUser hown hs)
  | emulators_unassignEmulatorsToAccount dto user =>
    refine heach ?_
    show (unassignEmulatorsToAccount dto user).Each _
    unfold unassignEmulatorsToAccount
    split
    · refine each_forOf fun d => (Repository.each_findRow fun _ => id).bind fun found => ?_
      cases found with
      | none => exact trivial
      | some l => exact each_tryUnassign_oneUser _ l _
    · exact trivial
  | emulators_unassignEmulatorFromAccounts dto =>
    refine heach ((Repository.each_findRow fun _ => id).bind fun found => ?_)
    cases found with
    | none => exact trivial
    | some l => exact each_forOf fun a => each_tryUnassign_oneUser a l _
  | link r =>
    cases r with
    | link u ds =>
      refine hpost (forkFree_linkEmulator (LinkRequest.linkDto u ds)) ?_
      show (linkEmulator (LinkRequest.linkDto u ds)).Post s _
      exact forOf_post (I := fun s' : Server => s'.tables.OneUser)
        (fun _ _ d _ _ hs₁ => linkDevice_oneUser u (some d) hs₁) hs
    | unlink u ds =>
      refine heach ?_
      show (unlinkEmulator (LinkRequest.linkDto u ds)).Each _
      exact each_forOf fun d => each_unlinkDevice_oneUser _ d
    | remove u => exact hkinds (by simp [kinds, Kind.NoAssignment])
  | _ => exact hkinds (by simp [kinds, Kind.NoAssignment])

end Operation

/-- **Assignment ownership.** In a run from a seeded database in which every
call that assigns names accounts of the links' users only, every assignment
joins an account and a link of one user. -/
theorem assignments_of_one_user {s s' : Server} {steps : List (Server × Operation × Server)}
    (hseeded : Seeded s.tables) (hrun : Trace Operation.Runs s steps s')
    (hown : ∀ x ∈ steps, x.2.1.NamesOwn x.1.tables) : s'.tables.OneUser := by
  refine hrun.invariant_of_mem (I := fun s => s.tables.OneUser)
    (fun x hx h hs => h.oneUser (hown x hx) hs) ?_
  intro x hx
  rw [hseeded.accountEmulators] at hx
  cases hx

instance (t : Tables) : Decidable t.OneUser :=
  inferInstanceAs (Decidable (∀ x ∈ t.accountEmulators, ∃ a ∈ t.accounts, ∃ l ∈ t.userEmulators,
    x.account = some a.id ∧ x.userEmulator = some l.id ∧ a.user = l.user))

/-- A user gets a device, and another of the user's accounts is assigned to it. -/
theorem assignments_of_one_user_linked : ∃ steps s, Trace Operation.Runs Sample.seeded steps s ∧
    s.tables.accountEmulators.length = 2 ∧ s.tables.OneUser := by
  let dto : MultiAccountsLinkDto :=
    { deviceId := some (.str "e")
      accountIds := some (.arr [.str "v-one"])
      userId := some (.str "v") }
  let assign : Operation := .emulators_assignEmulator dto (Sample.androidAdmin "v" "v-root")
  have hrun : (Operation.playAll
      [(.users_create ((Sample.userBody "v").spreadWith "role" (.str "AndroidUser")),
          ["", "", "", "v", "g1", "", "", "", "v-root", "g2", ""].map Sample.input),
        (.accounts_create ⟨some (.str "one"), some (.str "v"), none, none⟩,
          ["", "v-one"].map Sample.input),
        (.emulators_create (.obj [("device_id", .str "e"), ("device_name", .str "E")]),
          ["", ""].map Sample.input),
        (.link (.link "v" ["e"]), ["", "link", "", "a1", ""].map Sample.input)] Sample.seeded).any
      (fun s => decide (∀ l ∈ s.tables.userEmulators, ∀ a ∈ s.tables.accounts, a.user = l.user) &&
        (assign.prog.run (["", "a2"].map Sample.input) s).any fun o =>
          decide (o.2.tables.accountEmulators.length = 2)) = true := by
    decide +kernel
  obtain ⟨s, hs, hrun⟩ := (Option.any_eq_true _ _).1 hrun
  obtain ⟨hown, hrun⟩ := Bool.and_eq_true_iff.1 hrun
  obtain ⟨o, ho, htwo⟩ := (Option.any_eq_true _ _).1 hrun
  obtain ⟨steps, hsteps, hops⟩ := Operation.trace_of_playAll .nil hs
  have hassign : assign.Runs s o.2 := .of_ends (Prog.ends_of_run ho) fun _ _ => trivial
  refine ⟨_, o.2, hsteps.snoc hassign, of_decide_eq_true htwo,
    assignments_of_one_user Sample.seeded_tables (hsteps.snoc hassign) fun x hx => ?_⟩
  rcases List.mem_append.1 hx with hx | hx
  · have hop := (hops x hx).resolve_left fun h => nomatch h
    simp only [List.map_cons, List.map_nil, List.mem_cons, List.not_mem_nil, or_false] at hop
    rcases hop with hop | hop | hop | hop <;> rw [hop] <;> exact trivial
  · rw [List.mem_singleton.1 hx]
    intro _ l hl _ _ items hitems a ha
    cases hitems
    rw [List.mem_singleton.1 ha]
    exact ⟨"v-one", rfl, fun b hb _ => of_decide_eq_true hown l hl b hb⟩

/-- A user's own admin assigns the user's device to an account of another. -/
theorem assignments_of_two_users : ¬ ∀ s, Reachable s → s.tables.OneUser := by
  intro hall
  have hrun : (playAll (Sample.history ++ [(.http (Sample.androidAdmin "v" "v-root")
      (.emulators_assignEmulator (Sample.assignBody "v" "e" ["u-root"])),
        ["", "a3"].map Sample.input)]) Sample.seeded).any
      (fun s => decide (¬ s.tables.OneUser)) = true := by
    decide +kernel
  obtain ⟨s, hs, hnot⟩ := (Option.any_eq_true _ _).1 hrun
  exact of_decide_eq_true hnot (hall s (Sample.reachable hs))

end Damaru
