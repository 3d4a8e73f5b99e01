import Damaru.Verify.AccountSpecs
import Damaru.Verify.AssignmentSpecs
import Damaru.Verify.EventWrites

/-!
# Who writes whose rows

Of the requests that an Android user's token admits, one can touch the rows of
another user: the endpoint that unassigns a device from several accounts does
not compare the user of its body with the token. It does so exactly when the
link it looks up is another user's and has an ACTIVE assignment to a listed
account of that user.
-/

namespace Damaru

open Async Table

/-- The assignment joins an account and a link of the user. -/
def Tables.Owns (t : Tables) (v : String) (a : AccountEmulators) : Prop :=
  (∃ x ∈ t.accounts, a.account = some x.id ∧ x.user = some v) ∧
    ∃ l ∈ t.userEmulators, a.userEmulator = some l.id ∧ l.user = some v

/-- No row that belongs to the user is modified or deleted. -/
structure KeepsRowsOf (v : String) (t t' : Tables) : Prop where
  user : ∀ r ∈ t.users, r.id = v → r ∈ t'.users
  accounts : ∀ a ∈ t.accounts, a.user = some v → a ∈ t'.accounts
  links : ∀ l ∈ t.userEmulators, l.user = some v → l ∈ t'.userEmulators
  assignments : ∀ a ∈ t.accountEmulators, t.Owns v a → a ∈ t'.accountEmulators

namespace KeepsRowsOf

variable {u v : String} {t t' : Tables}

theorem of_eq (hu : t'.users = t.users) (ha : t'.accounts = t.accounts)
    (hl : t'.userEmulators = t.userEmulators) (hae : t'.accountEmulators = t.accountEmulators) :
    KeepsRowsOf v t t' :=
  ⟨fun _ hr _ => hu ▸ hr, fun _ hm _ => ha ▸ hm, fun _ hm _ => hl ▸ hm, fun _ hm _ => hae ▸ hm⟩

theorem refl (v : String) (t : Tables) : KeepsRowsOf v t t := of_eq rfl rfl rfl rfl

/-- An assignment that a user owns is not one of another user's link. -/
theorem owns_ne (hi : t.Integrity) {a : AccountEmulators} (h : t.Owns v a) {l : UserEmulators}
    (hl : l ∈ t.userEmulators) (hu : l.user = some u) (hne : v ≠ u) : a.userEmulator ≠ some l.id := by
  obtain ⟨-, l', hl', hid, hv⟩ := h
  intro heq
  have hsame : l' = l := eq_of_key hi.userEmulators hl' hl (Option.some.inj (hid.symm.trans heq))
  rw [hsame, hu] at hv
  exact hne (Option.some.inj hv).symm

theorem updateAccount (hi : t.Integrity) {b : Account} (hb : b ∈ t.accounts) (hu : b.user = some u)
    (hne : v ≠ u) (f : Account → Account) : KeepsRowsOf v t
      { t with accounts := updateWhere (fun a => decide (a.id = b.id)) f t.accounts } where
  user r hr _ := hr
  accounts a ha hv := by
    refine mem_updateWhere.2 (.inr ⟨ha, decide_eq_false fun hid => ?_⟩)
    rw [eq_of_key hi.accounts ha hb hid, hu] at hv
    exact hne (Option.some.inj hv).symm
  links l hl _ := hl
  assignments a ha _ := ha

theorem deleteAccount (hi : t.Integrity) {b : Account} (hb : b ∈ t.accounts) (hu : b.user = some u)
    (hne : v ≠ u) : KeepsRowsOf v t ({ t with
      accounts := t.accounts.filter fun a => !decide (a.id = b.id) } : Tables).cascade := by
  obtain ⟨husers, haccounts, hlinks, hassignments⟩ := hi.toReferences.cascade_accounts
    (l := t.accounts.filter fun a => !decide (a.id = b.id)) fun a ha => (List.mem_filter.1 ha).1
  have hkept : ∀ a ∈ t.accounts, a.user = some v →
      a ∈ t.accounts.filter fun a => !decide (a.id = b.id) := by
    intro a ha hv
    refine List.mem_filter.2 ⟨ha, ?_⟩
    rw [Bool.not_eq_true', decide_eq_false_iff_not]
    intro hid
    rw [eq_of_key hi.accounts ha hb hid, hu] at hv
    exact hne (Option.some.inj hv).symm
  refine ⟨fun r hr _ => ?_, fun a ha hv => ?_, fun l hl _ => ?_, fun a ha ho => ?_⟩
  · rw [husers]
    exact hr
  · rw [haccounts]
    exact hkept a ha hv
  · rw [hlinks]
    exact hl
  · obtain ⟨⟨x, hx, hax, hxv⟩, -⟩ := ho
    rw [hassignments, List.mem_filter, hax, refers_some]
    exact ⟨ha, List.mem_map_of_mem (hkept x hx hxv)⟩

end KeepsRowsOf

/-! ## The assignment endpoints -/

namespace EmulatorService

variable {v : String} {user : JwtToken}

/-- Rows of `v` are kept, and links are not touched. -/
def KeepsAssignments (v : String) (s s' : Server) : Prop :=
  KeepsRowsOf v s.tables s'.tables ∧ s'.tables.userEmulators = s.tables.userEmulators

theorem tryAssign_keeps {s s₁ : Server} (hs : KeepsAssignments v s s₁) {account : JsVal}
    {l : UserEmulators} (hl : l ∈ s.tables.userEmulators) (hu : l.user = some user.sub)
    (hne : v ≠ user.sub) :
    (tryAssign account l).Post s₁ fun _ s' => KeepsAssignments v s s' := by
  refine (tryAssign_post account l s₁).mono fun r s' h => ?_
  rcases h.2 with h | ⟨rfl, -⟩
  · obtain ⟨hk, hlinks⟩ := hs
    obtain ⟨husers, haccounts, hlinks', -⟩ := h.others
    refine ⟨⟨fun r hr hv => husers ▸ hk.user r hr hv, fun a ha hv => haccounts ▸ hk.accounts a ha hv,
      fun l hl hv => hlinks' ▸ hk.links l hl hv, fun a ha ho => ?_⟩, hlinks'.trans hlinks⟩
    exact h.keeps (hk.assignments a ha ho) (KeepsRowsOf.owns_ne s.integrity ho hl hu hne)
  · exact hs

theorem tryUnassign_keeps {s s₁ : Server} (hs : KeepsAssignments v s s₁) {account : JsVal}
    {l : UserEmulators} {p : AccountEmulators → Bool}
    (hne : ∀ a ∈ s.tables.accountEmulators, s.tables.Owns v a → a.userEmulator = some l.id →
      ¬ (account.truthy = true ∧ a.account = account.bound ∧ p a = true)) :
    (tryUnassign account l p).Post s₁ fun _ s' => KeepsAssignments v s s' := by
  refine (tryUnassign_post account l p s₁).mono fun r s' ⟨_, c, h⟩ => ?_
  obtain ⟨hk, hlinks⟩ := hs
  refine ⟨?_, by rw [h]; exact hlinks⟩
  rw [h]
  refine ⟨hk.user, hk.accounts, hk.links, fun a ha ho => List.mem_filter.2 ⟨hk.assignments a ha ho, ?_⟩⟩
  have hstays := hne a ha ho
  rw [Bool.not_eq_true']
  by_cases hlink : a.userEmulator = some l.id
  · refine Bool.eq_false_iff.2 fun hsel => hstays hlink ?_
    simp only [Bool.and_eq_true, decide_eq_true_eq] at hsel
    exact ⟨hsel.1, hsel.2.1.2, hsel.2.2⟩
  · simp [hlink]

/-- A token that is not a super admin's assigns links of its own user only. -/
theorem assignEmulatorsToAccount_keeps (hrole : user.role ≠ .SuperAdmin) (hne : v ≠ user.sub)
    (dto : MultiDevicesAccountLinkDto) (s : Server) :
    (assignEmulatorsToAccount dto user).Post s fun _ s' => KeepsRowsOf v s.tables s'.tables := by
  unfold assignEmulatorsToAccount
  split
  · rename_i hcheck
    have hself := check_self hcheck hrole
    refine (forOf_post (I := KeepsAssignments v s) (fun _ _ j _ s₁ hs₁ => ?_)
      ⟨.refl v _, rfl⟩).mono fun _ _ h => h.1
    refine withLink_post (fun l hl _ hu => ?_) fun _ => hs₁
    rw [hself, JsVal.selects_str] at hu
    exact tryAssign_keeps hs₁ (hs₁.2 ▸ hl) hu hne
  · exact .pure (.refl v _)

theorem assignEmulator_keeps (hrole : user.role ≠ .SuperAdmin) (hne : v ≠ user.sub)
    (dto : MultiAccountsLinkDto) (s : Server) :
    (assignEmulator dto user).Post s fun _ s' => KeepsRowsOf v s.tables s'.tables := by
  unfold assignEmulator
  split
  · rename_i hcheck
    have hself := check_self hcheck hrole
    refine withLink_post (fun l hl _ hu => ?_) fun _ => .refl v _
    rw [hself, JsVal.selects_str] at hu
    exact (forOf_post (I := KeepsAssignments v s)
      (fun _ _ j _ s₁ hs₁ => tryAssign_keeps hs₁ hl hu hne) ⟨.refl v _, rfl⟩).mono fun _ _ h => h.1
  · exact .pure (.refl v _)

theorem unassignEmulatorsToAccount_keeps (hrole : user.role ≠ .SuperAdmin) (hne : v ≠ user.sub)
    (dto : MultiDevicesAccountLinkDto) (s : Server) :
    (unassignEmulatorsToAccount dto user).Post s fun _ s' => KeepsRowsOf v s.tables s'.tables := by
  unfold unassignEmulatorsToAccount
  split
  · rename_i hcheck
    have hself := check_self hcheck hrole
    refine (forOf_post (I := KeepsAssignments v s) (fun _ _ j _ s₁ hs₁ => ?_)
      ⟨.refl v _, rfl⟩).mono fun _ _ h => h.1
    refine withLink_post (fun l hl _ hu => ?_) fun _ => hs₁
    rw [hself, JsVal.selects_str] at hu
    exact tryUnassign_keeps hs₁ fun a _ ho hlink =>
      absurd hlink (KeepsRowsOf.owns_ne s.integrity ho (hs₁.2 ▸ hl) hu hne)
  · exact .pure (.refl v _)

/-- Unassigning keeps the rows of `v`, unless a listed account of an ACTIVE
assignment that `v` owns is among those whose link is looked up. -/
theorem unassignEmulatorFromAccounts_keeps (dto : MultiAccountsLinkDto) (s : Server)
    (hne : ∀ l ∈ s.tables.userEmulators, dto.deviceId.selects l.device = true →
      dto.userId.selects l.user = true → ∀ items, dto.accountIds.iterate = some items →
        ∀ a ∈ s.tables.accountEmulators, s.tables.Owns v a → a.userEmulator = some l.id →
          a.status = .ACTIVE → ∀ j ∈ items, j.truthy = true → a.account ≠ j.bound) :
    (unassignEmulatorFromAccounts dto).Post s fun _ s' => KeepsRowsOf v s.tables s'.tables := by
  unfold unassignEmulatorFromAccounts
  refine withLink_post (fun l hl hd hu => ?_) fun _ => .refl v _
  refine (forOf_post (I := KeepsAssignments v s) (fun items hitems j hj s₁ hs₁ => ?_)
    ⟨.refl v _, rfl⟩).mono fun _ _ h => h.1
  refine tryUnassign_keeps hs₁ fun a ha ho hlink hsel => ?_
  exact hne l hl hd hu items hitems a ha ho hlink (of_decide_eq_true hsel.2.2) j hj hsel.1 hsel.2.1

/-- It can unassign any ACTIVE assignment of a link that it can look up. -/
theorem unassignEmulatorFromAccounts_removes {dto : MultiAccountsLinkDto} {s : Server}
    {l : UserEmulators} (hl : l ∈ s.tables.userEmulators) (hd : dto.deviceId.selects l.device = true)
    (hu : dto.userId.selects l.user = true) {items : List Json}
    (hitems : dto.accountIds.iterate = some items) {a : AccountEmulators}
    (hlink : a.userEmulator = some l.id) (hactive : a.status = .ACTIVE) {j : Json} (hj : j ∈ items)
    (htruthy : j.truthy = true) (haccount : a.account = j.bound) :
    ∃ s', (unassignEmulatorFromAccounts dto).Ends s (.ok ()) s' ∧ a ∉ s'.tables.accountEmulators := by
  obtain ⟨rank, hrank⟩ := userEmulatorRepository.exists_scan_head
    (p := fun _ l => dto.deviceId.selects l.device && dto.userId.selects l.user)
    s.integrity.userEmulators hl (by rw [hd, hu]; rfl) default
  have hfound : (findUserEmulator dto.deviceId dto.userId).Ends s (.ok (some l)) s :=
    ends_query.2 ⟨rfl, _, by rw [hrank]; rfl⟩
  have hloop := unassignAll_post items l (fun a => a.status = .ACTIVE) s
  obtain ⟨r, s', hend⟩ := (Prog.ForkFree.forM (fun j : Json => forkFree_tryUnassign (some j) l
    fun a => a.status = .ACTIVE) items).exists_ends s
  obtain ⟨rfl, c, htables⟩ := hloop r s' hend
  refine ⟨s', Prog.ends_bind.2 (.inr ⟨some l, s, hfound, ?_⟩), ?_⟩
  · show (forOf "emulatorAssignedDto.accountIds" dto.accountIds _).Ends s _ s'
    unfold forOf
    rw [hitems]
    exact hend
  · rw [htables]
    intro hmem
    have hkept := (List.mem_filter.1 hmem).2
    rw [Bool.not_eq_true', List.any_eq_false] at hkept
    exact hkept j hj (by simp [htruthy, hlink, haccount, hactive])

end EmulatorService

/-! ## The requests of an Android user -/

/-- Kinds of writes that touch no row of another user. -/
def Kind.Harmless : Kind → Prop
  | .newAccount => True
  | .columns _ => True
  | .emissions => True
  | _ => False

theorem Write.keepsRowsOf {v : String} {t t' : Tables} {k : Kind} (hw : Write t k t')
    (hk : k.Harmless) : KeepsRowsOf v t t' := by
  cases hw with
  | newAccount a =>
    exact ⟨fun _ h _ => h, fun _ h _ => List.mem_append_left _ h, fun _ h _ => h, fun _ h _ => h⟩
  | columns _ p => exact .of_eq rfl rfl rfl rfl
  | _ => exact hk.elim

theorem KeepsRowsOf.trans {v : String} {t₁ t₂ t₃ : Tables} (h : KeepsRowsOf v t₁ t₂)
    (h' : KeepsRowsOf v t₂ t₃) : KeepsRowsOf v t₁ t₃ := by
  refine ⟨fun r hr hv => h'.user r (h.user r hr hv) hv,
    fun a ha hv => h'.accounts a (h.accounts a ha hv) hv,
    fun l hl hv => h'.links l (h.links l hl hv) hv, fun a ha ho => ?_⟩
  have hkept := h.assignments a ha ho
  obtain ⟨⟨x, hx, hax, hxv⟩, l, hl, hal, hlv⟩ := ho
  exact h'.assignments a hkept ⟨⟨x, h.accounts x hx hxv, hax, hxv⟩, l, h.links l hl hlv, hal, hlv⟩

namespace HttpRequest

/-- The request unassigns a device from an account of a user other than `u`:
its body selects a link of that user, and lists the account of an ACTIVE
assignment of the link. -/
def UnassignsOther (t : Tables) (u : String) : HttpRequest → Prop
  | emulators_unAssignEmulatorFromAccounts dto =>
    ∃ v ≠ u, ∃ l ∈ t.userEmulators, (dto.get? "deviceId").selects l.device = true ∧
      (dto.get? "userId").selects l.user = true ∧
      ∃ items, (dto.get? "accountIds").iterate = some items ∧
        ∃ a ∈ t.accountEmulators, t.Owns v a ∧ a.userEmulator = some l.id ∧ a.status = .ACTIVE ∧
          ∃ j ∈ items, j.truthy = true ∧ a.account = j.bound
  | _ => False

theorem keepsRowsOf_of_kinds {user : JwtToken} {req : HttpRequest} {v : String} {s s' : Server}
    (hkinds : ∀ k ∈ req.kinds, k.Harmless)
    (h : Step s (.http user req) s') : KeepsRowsOf v s.tables s'.tables := by
  refine Event.respects (R := KeepsRowsOf v) (.refl v) (fun _ _ _ => .trans) ?_ h
  intro k hk t t' _ _ hw
  exact hw.keepsRowsOf (hkinds k (Event.kinds_http hk).2)

theorem keepsRowsOf {user : JwtToken} {req : HttpRequest} {v : String} {s s' : Server}
    (hrole : user.role = .AndroidUser) (hadmits : req.admits user = true)
    (hnot : ¬ req.UnassignsOther s.tables user.sub) (hv : v ≠ user.sub)
    (h : Step s (.http user req) s') : KeepsRowsOf v s.tables s'.tables := by
  have hsuper : user.role ≠ .SuperAdmin := by simp [hrole]
  have hpost : ∀ {α : Type} {p : Svc α} {f : α → Svc DamaruResponse},
      p.Post s (fun _ (s' : Server) => KeepsRowsOf v s.tables s'.tables) → (∀ a, ∃ r, f a = .pure r) →
      (p >>= f).Post s fun _ (s' : Server) => KeepsRowsOf v s.tables s'.tables := by
    intro α p f hp hf
    refine hp.andThen (I := fun (s' : Server) => KeepsRowsOf v s.tables s'.tables) fun a => ?_
    obtain ⟨r, hr⟩ := hf a
    exact ⟨.ok r, hr⟩
  cases req with
  | accounts_update id dto =>
    refine h.of_post (I := fun s' => KeepsRowsOf v s.tables s'.tables) hadmits
      ((AccountsService.forkFree_update id dto user).bind fun _ => trivial)
      (hpost ((AccountsService.update_post id dto user s).mono fun r s' h => ?_) fun _ => ⟨_, rfl⟩)
    rcases h with h | ⟨b, hb, rfl, hauth, f, h⟩
    · rw [h]
      exact .refl v _
    · rw [h]
      exact .updateAccount s.integrity hb (hauth.resolve_left hsuper).1 hv f
  | accounts_delete id =>
    refine h.of_post (I := fun s' => KeepsRowsOf v s.tables s'.tables) hadmits
      ((AccountsService.forkFree_remove id user).bind fun _ => trivial)
      (hpost ((AccountsService.remove_post id user s).mono fun r s' h => ?_) fun _ => ⟨_, rfl⟩)
    rcases h with ⟨⟨-, b, hb, rfl, hauth⟩, h⟩ | ⟨-, h⟩
    · rw [h]
      exact .deleteAccount s.integrity hb (hauth.resolve_left hsuper).1 hv
    · rw [h]
      exact .refl v _
  | emulators_assignEmulator dto =>
    exact h.of_post (I := fun s' => KeepsRowsOf v s.tables s'.tables) hadmits
      (forkFree_reading ((EmulatorService.forkFree_assignEmulator _ user).bind fun _ => trivial))
      (reading_post (fun _ => .refl v _)
        (hpost (EmulatorService.assignEmulator_keeps hsuper hv _ s) fun _ => ⟨_, rfl⟩))
  | emulators_assignEmulatorsToAccount dto =>
    exact h.of_post (I := fun s' => KeepsRowsOf v s.tables s'.tables) hadmits
      (forkFree_reading
        ((EmulatorService.forkFree_assignEmulatorsToAccount _ user).bind fun _ => trivial))
      (reading_post (fun _ => .refl v _)
        (hpost (EmulatorService.assignEmulatorsToAccount_keeps hsuper hv _ s) fun _ => ⟨_, rfl⟩))
  | emulators_unAssignEmulatorsToAccount dto =>
    exact h.of_post (I := fun s' => KeepsRowsOf v s.tables s'.tables) hadmits
      (forkFree_reading
        ((EmulatorService.forkFree_unassignEmulatorsToAccount _ user).bind fun _ => trivial))
      (reading_post (fun _ => .refl v _)
        (hpost (EmulatorService.unassignEmulatorsToAccount_keeps hsuper hv _ s) fun _ => ⟨_, rfl⟩))
  | emulators_unAssignEmulatorFromAccounts dto =>
    refine h.of_post (I := fun s' => KeepsRowsOf v s.tables s'.tables) hadmits
      (forkFree_reading
        ((EmulatorService.forkFree_unassignEmulatorFromAccounts _).bind fun _ => trivial))
      (reading_post (fun _ => .refl v _) (hpost ?_ fun _ => ⟨_, rfl⟩))
    refine EmulatorService.unassignEmulatorFromAccounts_keeps _ s ?_
    intro l hl hd hu items hitems a ha ho hlink hactive j hj htruthy haccount
    exact hnot ⟨v, hv, l, hl, hd, hu, items, hitems, a, ha, ho, hlink, hactive, j, hj, htruthy,
      haccount⟩
  | _ =>
    first
      | (simp [admits, guard, Guard.isAuthorized, SuperAdmin, EmulatorAdmin, hrole] at hadmits; done)
      | (refine keepsRowsOf_of_kinds ?_ h; simp [kinds, Kind.Harmless])

end HttpRequest

/-- **Write isolation.** A request of an Android user leaves the rows of every
other user alone, in every execution, exactly if it does not unassign one of
their devices. -/
theorem write_isolation_iff {s : Server} {user : JwtToken} {req : HttpRequest}
    (hrole : user.role = .AndroidUser) (hadmits : req.admits user = true) :
    (∀ s', Step s (.http user req) s' → ∀ v ≠ user.sub, KeepsRowsOf v s.tables s'.tables) ↔
      ¬ req.UnassignsOther s.tables user.sub := by
  constructor
  · intro hall hother
    cases req with
    | emulators_unAssignEmulatorFromAccounts dto =>
      obtain ⟨v, hv, l, hl, hd, hu, items, hitems, a, ha, ho, hlink, hactive, j, hj, htruthy,
        haccount⟩ := hother
      obtain ⟨s', hend, hgone⟩ := @EmulatorService.unassignEmulatorFromAccounts_removes
        (HttpRequest.multiAccountsLinkDto dto) _ _ hl hd hu _ hitems _ hlink hactive _ hj htruthy
        haccount
      have hnull : dto.isNull = false := by
        cases dto with
        | null => cases hitems
        | _ => rfl
      have hrun : ((HttpRequest.emulators_unAssignEmulatorFromAccounts dto).run user).Ends s
          (.ok (HttpRequest.said "Device have been unassigned from accounts")) s' := by
        show (HttpRequest.reading "deviceId" dto _).Ends s _ s'
        unfold HttpRequest.reading
        rw [if_neg (by rw [hnull]; exact Bool.false_ne_true)]
        exact Prog.ends_bind.2 (.inr ⟨(), s', hend, .pure _ _⟩)
      exact hgone ((hall s' (.of_ends hadmits hrun) v hv).assignments a ha ho)
    | _ => exact hother.elim
  · intro hnot s' h v hv
    exact req.keepsRowsOf hrole hadmits hnot hv h

/-- An admin that unassigns a device of its own user. -/
theorem write_isolation_own :
    ¬ (HttpRequest.emulators_unAssignEmulatorFromAccounts
        (Sample.assignBody "v" "e" ["v-one"])).UnassignsOther Sample.server.tables "v" ∧
      ∀ s', Step Sample.server (.http (Sample.androidAdmin "v" "v-root")
        (.emulators_unAssignEmulatorFromAccounts (Sample.assignBody "v" "e" ["v-one"]))) s' →
        ∀ w ≠ "v", KeepsRowsOf w Sample.server.tables s'.tables := by
  have hnot : ¬ (HttpRequest.emulators_unAssignEmulatorFromAccounts
      (Sample.assignBody "v" "e" ["v-one"])).UnassignsOther Sample.server.tables "v" := by
    rintro ⟨v, hv, l, hl, -, hu, -, -, a, -, ⟨-, l', hl', hid, huser⟩, hlink, -⟩
    have hself : l.user = some "v" := JsVal.selects_str.1 hu
    have hsame : l' = l :=
      eq_of_key Sample.server.integrity.userEmulators hl' hl (Option.some.inj (hid.symm.trans hlink))
    rw [hsame, hself] at huser
    exact hv (Option.some.inj huser).symm
  exact ⟨hnot, (write_isolation_iff rfl (by decide)).2 hnot⟩

instance (t : Tables) (v : String) (a : AccountEmulators) : Decidable (t.Owns v a) :=
  inferInstanceAs (Decidable (_ ∧ _))

/-- One user's admin unassigns another user's device from its account. -/
theorem write_not_isolated :
    ¬ ∀ (s s' : Server) (user : JwtToken) (req : HttpRequest), Reachable s →
      user.role = .AndroidUser → req.admits user = true → Step s (.http user req) s' →
      ∀ v ≠ user.sub, KeepsRowsOf v s.tables s'.tables := by
  intro hall
  let event : Event := .http (Sample.androidAdmin "u" "u-root")
    (.emulators_unAssignEmulatorFromAccounts (Sample.assignBody "v" "e" ["v-one"]))
  let row : AccountEmulators := ⟨"a2", some "v-one", some "link", .ACTIVE⟩
  have hrun : ((playAll (Sample.history ++ []) Sample.seeded).any fun s =>
      decide (row ∈ s.tables.accountEmulators ∧ s.tables.Owns "v" row) &&
        (event.play (["", ""].map Sample.input) s).any fun s' =>
          decide (row ∉ s'.tables.accountEmulators)) = true := by
    decide +kernel
  obtain ⟨s, hs, hrun⟩ := (Option.any_eq_true _ _).1 hrun
  obtain ⟨hrow, hrun⟩ := Bool.and_eq_true_iff.1 hrun
  obtain ⟨s', hs', hgone⟩ := (Option.any_eq_true _ _).1 hrun
  obtain ⟨hmem, howns⟩ := of_decide_eq_true hrow
  have hkeeps := hall s s' _ _ (Sample.reachable hs) rfl (by decide) (Event.step_of_play hs') "v"
    (by decide)
  exact of_decide_eq_true hgone (hkeeps.assignments row hmem howns)

end Damaru
