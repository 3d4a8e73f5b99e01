import Damaru.Services.Accounts
import Damaru.Verify.Outcomes

/-!
# What the calls on accounts come to
-/

namespace Damaru

open Async Table

namespace AccountsService

/-- The account that `create` adds. -/
def Created (dto : CreateAccountDto) (t t' : Tables) : Prop :=
  ∃ a : Account, t' = { t with accounts := t.accounts ++ [a] } ∧
    a.user = dto.userId.bound ∧ dto.is_admin.booleanOr false = some a.is_admin

theorem row_eq {id : String} {name pin user admin first : JsVal} {a : Account}
    (h : row id name pin user admin first = .ok a) :
    a.user = user.bound ∧ admin.booleanOr false = some a.is_admin := by
  unfold row at h
  split at h
  · cases h
    exact ⟨rfl, by assumption⟩
  · cases h

/-- What a boolean column takes as true, JavaScript takes as true. -/
theorem truthy_of_boolean {v : JsVal} (h : v.booleanOr false = some true) : v.truthy = true := by
  rw [JsVal.booleanOr_eq_true.1 h]
  rfl

theorem append_account {t : Tables} (h : t.Integrity) {a : Account} (hid : a.id ∉ t.ids)
    (hu : refers (t.users.map Users.id) a.user = true) :
    ({ t with accounts := t.accounts ++ [a] } : Tables).Integrity where
  toKeys := { h.toKeys with
    accounts := by
      rw [List.map_append, List.nodup_append]
      refine ⟨h.accounts, List.nodup_singleton _, fun k hk k' hk' heq => ?_⟩
      obtain ⟨r, hr, rfl⟩ := List.mem_map.1 hk
      rw [List.map_singleton, List.mem_singleton] at hk'
      exact hid (hk' ▸ heq ▸ Tables.account_id_mem hr) }
  toReferences := { h.toReferences with
    account_user := fun r hr => by
      rcases List.mem_append.1 hr with hr | hr
      · exact h.account_user r hr
      · rw [List.mem_singleton.1 hr]
        exact hu
    account := fun r hr => by
      have href := h.account r hr
      cases hk : r.account with
      | none => rfl
      | some k =>
        rw [hk, refers_some] at href
        rw [refers_some, List.map_append]
        exact List.mem_append_left _ href }

/-- An admin account is added only for a user who has none. -/
theorem create_post (dto : CreateAccountDto) (s : Server) :
    (create dto).Post s fun _ s' => s'.tables = s.tables ∨
      (Created dto s.tables s'.tables ∧ (dto.is_admin.booleanOr false = some true →
        ∀ b ∈ s.tables.accounts, b.is_admin = true → dto.userId.selects b.user = false)) := by
  have hrest : (dto.is_admin.booleanOr false = some true →
      ∀ b ∈ s.tables.accounts, b.is_admin = true → dto.userId.selects b.user = false) →
      (do
        let draws ← random
        let account := { dto with
          pin := dto.pin.orElse (some (.str (StringUtils.generateRandomNumeric 5 draws))) }
        let id ← accountRepository.insert fun x s =>
          row (x.fresh s) account.account_name account.pin
            account.userId account.is_admin account.is_admin
        return (id, account) : Svc (String × CreateAccountDto)).Post s fun _ s' =>
          s'.tables = s.tables ∨ (Created dto s.tables s'.tables ∧ (dto.is_admin.booleanOr false = some true →
            ∀ b ∈ s.tables.accounts, b.is_admin = true → dto.userId.selects b.user = false)) := by
    intro hnone
    refine post_read_bind fun x => ?_
    refine Repository.post_insert_bind (fun y a ha hi => ?_) fun _ _ _ => .inl rfl
    exact .pure (.inr ⟨⟨a, rfl, row_eq ha⟩, hnone⟩)
  unfold create
  dsimp only
  split
  · refine Repository.post_find_bind fun l hl => ?_
    split
    · exact .throw (.inl rfl)
    · rename_i hlen
      refine hrest fun _ b hb hadmin => Bool.eq_false_iff.2 fun hsel => hlen ?_
      rw [List.length_map]
      exact List.length_pos_of_mem ((hl b).2 ⟨hb, by rw [hadmin, hsel]; rfl⟩)
  · rename_i hfalsy
    exact hrest fun htrue => absurd (truthy_of_boolean htrue) hfalsy

/-- Only a super admin, or the user's own admin, changes an account: its name,
its PIN and its first login. -/
theorem update_post (id : String) (dto : Json) (jwt : JwtToken) (s : Server) :
    (update id dto jwt).Post s fun _ s' => s'.tables = s.tables ∨
      ∃ b ∈ s.tables.accounts, b.id = id ∧
        (jwt.role = .SuperAdmin ∨ (b.user = some jwt.sub ∧ jwt.subRole = some .AndroidAdmin)) ∧
        ∃ f : Account → Account, s'.tables = { s.tables with
          accounts := updateWhere (fun a => decide (a.id = id)) f s.tables.accounts } := by
  unfold update findUserByAccount
  refine Repository.post_findRow_bind (fun b hb hid => ?_) fun _ => .throw (.inl rfl)
  have hid' : b.id = id := of_decide_eq_true hid
  dsimp only
  split
  · rename_i hauth
    have hset : ∀ f : Account → Account,
        (do let _ ← accountRepository.set (some (.str id)) fun _ a => f a : Svc Unit).Post s
          fun _ s' => s'.tables = s.tables ∨
            ∃ b ∈ s.tables.accounts, b.id = id ∧
              (jwt.role = .SuperAdmin ∨ (b.user = some jwt.sub ∧ jwt.subRole = some .AndroidAdmin)) ∧
              ∃ f : Account → Account, s'.tables = { s.tables with
                accounts := updateWhere (fun a => decide (a.id = id)) f s.tables.accounts } := fun f =>
      Repository.post_set_bind (fun _ hi _ => .pure (.inr ⟨b, hb, hid', hauth, f, rfl⟩))
        fun _ _ _ _ => .inl rfl
    split
    · exact .throw (.inl rfl)
    · split
      · refine Repository.post_findRow_bind (fun _ _ _ => .throw (.inl rfl)) fun _ => ?_
        exact hset _
      · exact hset _
  · exact .throw (.inl rfl)

/-- The account can be deleted: by a super admin, the user's own admin, or the
account itself. -/
def Removable (t : Tables) (id : String) (payload : JwtToken) : Prop :=
  id ≠ "" ∧ ∃ b ∈ t.accounts, b.id = id ∧
    (payload.role = .SuperAdmin ∨ (b.user = some payload.sub ∧
      (payload.subRole = some .AndroidAdmin ∨ payload.accountId = some id)))

theorem remove_post (id : String) (payload : JwtToken) (s : Server) :
    (remove id payload).Post s fun _ s' =>
      (Removable s.tables id payload ∧ s'.tables = ({ s.tables with
        accounts := s.tables.accounts.filter fun a => !decide (a.id = id) } : Tables).cascade) ∨
      (¬ Removable s.tables id payload ∧ s'.tables = s.tables) := by
  unfold remove findUserByAccount
  refine Repository.post_findRow_bind (fun b hb hid => ?_) fun hnone => ?_
  · have hid' : b.id = id := of_decide_eq_true hid
    dsimp only
    split
    · rename_i hauth
      unfold Repository.deleteById
      split
      · rename_i hempty
        exact .throw (.inr ⟨fun h => h.1 hempty, rfl⟩)
      · rename_i hne
        refine Repository.post_delete (fun _ => .inl ⟨⟨hne, b, hb, hid', hauth⟩, rfl⟩) fun hnot => ?_
        refine (hnot (Tables.Keys.cascade_integrity ?_)).elim
        exact { s.integrity.toKeys with
          accounts := nodup_map_sublist s.integrity.accounts List.filter_sublist }
    · rename_i hauth
      refine .throw (.inr ⟨?_, rfl⟩)
      rintro ⟨-, c, hc, hcid, hcauth⟩
      rw [eq_of_key s.integrity.accounts hc hb (hcid.trans hid'.symm)] at hcauth
      exact hauth hcauth
  · refine .throw (.inr ⟨?_, rfl⟩)
    rintro ⟨-, b, hb, hid, -⟩
    exact of_decide_eq_false (hnone b hb) hid

theorem forkFree_create (dto : CreateAccountDto) : (create dto).ForkFree := by
  unfold create
  dsimp only
  split
  · refine Prog.forkFree_op.bind fun l => ?_
    split
    · exact trivial
    · exact Prog.forkFree_op.bind fun _ => Prog.forkFree_op.bind fun _ => trivial
  · exact Prog.forkFree_op.bind fun _ => Prog.forkFree_op.bind fun _ => trivial

theorem forkFree_update (id : String) (dto : Json) (jwt : JwtToken) :
    (update id dto jwt).ForkFree := by
  unfold update
  refine Prog.forkFree_op.bind fun found => ?_
  cases found with
  | none => exact trivial
  | some b =>
    dsimp only
    split
    · split
      · exact trivial
      · split
        · refine Prog.forkFree_op.bind fun inUse => ?_
          split
          · exact trivial
          · exact Prog.forkFree_op.bind fun _ => trivial
        · exact Prog.forkFree_op.bind fun _ => trivial
    · exact trivial

theorem forkFree_deleteById {α : Type} {repo : Repository α} {id : String} :
    (repo.deleteById id).ForkFree := by
  unfold Repository.deleteById
  split
  · exact trivial
  · exact Prog.forkFree_op

theorem forkFree_remove (id : String) (payload : JwtToken) : (remove id payload).ForkFree := by
  unfold remove
  refine Prog.forkFree_op.bind fun found => ?_
  cases found with
  | none => exact trivial
  | some b =>
    dsimp only
    split
    · exact forkFree_deleteById
    · exact trivial

end AccountsService

end Damaru
