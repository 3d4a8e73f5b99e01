import Damaru.Verify.Confirmation
import Damaru.Verify.Deletions
import Damaru.Verify.Lasting

/-!
# Revoked for good

A token is not revoked by a list of tokens but by deleting the user or the
account that its payload names. That lasts: no account is ever created under
the key of another one, so what the tables no longer confirm of an Android
user's payload they never confirm again.
-/

namespace Damaru

open Async Table

instance (t : Tables) (p : JwtToken) : Decidable (t.Confirms p) :=
  decidable_of_iff
    ((∃ u ∈ t.users, u.id = p.sub ∧ ∃ k ∈ t.roles, u.role = some k.id ∧ Roles.ofText k.name = p.role) ∧
      (p.role = .AndroidUser → ∃ a ∈ t.accounts, p.accountId = some a.id ∧ a.user = some p.sub ∧
        p.subRole = some (if a.is_admin then .AndroidAdmin else .AndroidAccount)))
    ⟨fun h => ⟨h.1, h.2⟩, fun h => ⟨h.role, h.account⟩⟩

/-- The keys of the payload have been used. -/
def Server.Knows (s : Server) (p : JwtToken) : Prop :=
  p.sub ∈ s.used ∧ (p.role = .AndroidUser → ∃ k, p.accountId = some k ∧ k ∈ s.used)

theorem Tables.Confirms.knows {s : Server} {p : JwtToken} (h : s.tables.Confirms p) : s.Knows p := by
  constructor
  · obtain ⟨u, hu, hid, -⟩ := h.role
    refine Entity.mem_used (n := .users) trivial ?_
    exact hid ▸ List.mem_map_of_mem hu
  · intro hrole
    obtain ⟨a, ha, hid, -⟩ := h.account hrole
    exact ⟨a.id, hid, Entity.mem_used (n := .account) trivial (List.mem_map_of_mem ha)⟩

theorem Server.Knows.mono {s s' : Server} {p : JwtToken} (h : s.Knows p) (hused : s.used ⊆ s'.used) :
    s'.Knows p :=
  ⟨hused h.1, fun hrole => by
    obtain ⟨k, hk, hmem⟩ := h.2 hrole
    exact ⟨k, hk, hused hmem⟩⟩

theorem Event.creates_of_names {e : Event} {k : String} (h : e.Names .users k) (hadmitted : e.Admitted) :
    ∃ user dto, e = .http user (.users_create dto) ∧ user.role = .SuperAdmin ∧
      (dto.get? "id").uuid = some k := by
  cases e with
  | http user req =>
    cases req with
    | users_create dto => exact ⟨user, dto, rfl, SuperAdmin_isAuthorized hadmitted, h⟩
    | _ => exact h.elim
  | message => exact h.elim
  | disconnect => exact h.elim
  | login => exact h.elim

/-- The step lemma: a step that makes the tables confirm a payload whose keys
have been used adds its user, and the payload is not an Android user's. -/
theorem Tables.Confirms.restored {s s' : Server} {e : Event} {p : JwtToken} (hrenews : Renews e.Names s s')
    (hlasts : Lasts s.tables s'.tables) (hknows : s.Knows p) (hbefore : ¬ s.tables.Confirms p)
    (hafter : s'.tables.Confirms p) :
    p.role ≠ .AndroidUser ∧ p.sub ∉ Entity.users.ids s.tables ∧ e.Names .users p.sub := by
  obtain ⟨v, hv, hvid, k, hk, hvk, hname⟩ := hafter.role
  -- Where the user was there before, it had its role.
  have hrole : ∀ u ∈ s.tables.users, u.id = p.sub → ∃ u ∈ s.tables.users, u.id = p.sub ∧
      ∃ k ∈ s.tables.roles, u.role = some k.id ∧ Roles.ofText k.name = p.role := by
    intro u hu hid
    have hsame : v.role = u.role := hlasts.users u hu v hv (hvid.trans hid.symm)
    exact ⟨u, hu, hid, k, hlasts.roles ▸ hk, hsame ▸ hvk, hname⟩
  by_cases hwho : p.role = .AndroidUser
  · obtain ⟨b, hb, hbid, hbu, hsub⟩ := hafter.account hwho
    obtain ⟨i, hi, hused⟩ := hknows.2 hwho
    obtain rfl := Option.some.inj (hi.symm.trans hbid)
    have hold := hrenews.old (n := .account) nofun nofun nofun hused (List.mem_map_of_mem hb)
    obtain ⟨a, ha, hid⟩ := List.mem_map.1 hold
    obtain ⟨hau, hadmin⟩ : b.user = a.user ∧ b.is_admin = a.is_admin := hlasts.accounts a ha b hb hid.symm
    have huser := s.integrity.account_user a ha
    rw [← hau, hbu] at huser
    obtain ⟨u, hu, huid⟩ := List.mem_map.1 (of_decide_eq_true huser)
    refine absurd ⟨hrole u hu huid, fun _ => ⟨a, ha, hid ▸ hbid, hau ▸ hbu, ?_⟩⟩ hbefore
    rw [hsub, hadmin]
  · have hgone : p.sub ∉ Entity.users.ids s.tables := by
      intro hold
      obtain ⟨u, hu, hid⟩ := List.mem_map.1 hold
      exact hbefore ⟨hrole u hu hid, fun heq => absurd heq hwho⟩
    refine ⟨hwho, hgone, ?_⟩
    rcases hrenews.ids .users p.sub (hvid ▸ List.mem_map_of_mem hv) with hold | ⟨-, hnew⟩ | hnames
    · exact absurd hold hgone
    · exact absurd hknows.1 hnew
    · exact hnames

/-- **Revoked for good.** However the threads of all events take turns: what the
tables have confirmed of a payload, and do not any more, they never confirm
again if the payload is an Android user's; and of another payload only after a
super admin has created a user under the very key of the payload. -/
theorem revoked_for_good {w₀ w₁ w₂ w₃ : Gateway}
    {l₁ l₂ l₃ : List (Gateway × Live.Move Event Ext Server Rejection × Gateway)} (hstart : w₀.threads = [])
    (hrun₁ : Trace (Live.Step serving) w₀ l₁ w₁) (hrun₂ : Trace (Live.Step serving) w₁ l₂ w₂)
    (hrun₃ : Trace (Live.Step serving) w₂ l₃ w₃) {p : JwtToken} (hvalid : w₁.state.tables.Confirms p)
    (hrevoked : ¬ w₂.state.tables.Confirms p) (hback : w₃.state.tables.Confirms p) :
    p.role ≠ .AndroidUser ∧ ∃ x ∈ l₃, p.sub ∉ Entity.users.ids x.1.state.tables ∧
      x.2.2.state.tables.Confirms p ∧ ∃ user dto, x.2.1.author = some (.http user (.users_create dto)) ∧
        user.role = .SuperAdmin ∧ (dto.get? "id").uuid = some p.sub := by
  have hrun := (hrun₁.append hrun₂).append hrun₃
  have hmoves := renews_moves hstart hrun
  have hrecords := Live.each_run (C := fun _ => True) (R := Records)
    (fun e x s _ => Event.each_start (Records.refl e) e.each_records x s) hrun
    hstart fun _ _ _ _ => trivial
  have hknows : ∀ x ∈ l₂ ++ l₃, x.1.state.Knows p := by
    refine (hrun₂.append hrun₃).forall_mem_of_invariant (I := fun w => w.state.Knows p)
      (fun x hx _ hknows => ⟨hknows.mono ?_, hknows⟩) hvalid.knows
    obtain ⟨e, -, hrenews, -⟩ := hmoves x (List.append_assoc l₁ l₂ l₃ ▸ List.mem_append_right _ hx)
    exact hrenews.used
  obtain ⟨x, hx, -, hbefore, hafter⟩ := hrun₃.origin (P := fun w => w.state.tables.Confirms p) hrevoked hback
  obtain ⟨e, he, hrenews, hattributed⟩ := hmoves x (List.mem_append_right _ hx)
  have hlasts := (hrecords x (List.mem_append_right _ hx) e he).2.lasts
  obtain ⟨hwho, hgone, hnames⟩ := Tables.Confirms.restored hrenews hlasts
    (hknows x (List.mem_append_right _ hx)) hbefore hafter
  have hadmitted : e.Admitted := by
    rcases hattributed.tables .users with hsame | ⟨hadmitted, -⟩
    · obtain ⟨v, hv, hvid, -⟩ := hafter.role
      have hv : v.id ∈ Entity.users.ids x.2.2.state.tables := List.mem_map_of_mem hv
      rw [hsame.ids, hvid] at hv
      exact absurd hv hgone
    · exact hadmitted
  obtain ⟨user, dto, rfl, hsuper, hid⟩ := Event.creates_of_names hnames hadmitted
  exact ⟨hwho, x, hx, hgone, hafter, user, dto, he, hsuper, hid⟩

namespace Sample

/-- The id of a super admin, and its token. -/
def adminId : String := "a0eebc99-9c0b-4ef8-bb6d-6bb9bd380a11"

def admin : JwtToken := ⟨adminId, "s@x", .SuperAdmin, none, none, none⟩

def administered : Gateway where
  threads := []
  state := { seeded with db := ⟨{ seeded.tables with
    users := [⟨adminId, "s@x", "S", "hash", some "r1"⟩] }, by decide +kernel⟩ }
  note := ⟨[], []⟩

/-- The super admin deletes itself. -/
def resignation : List (Live.Choice Event Ext) :=
  [.arrive (.http admin (.users_delete adminId)) (input ""), .turn 0 (input ""), .turn 0 (input "g1"),
    .turn 0 (input "")]

/-- Its token still creates users, and so it creates itself. -/
def readmission : List (Live.Choice Event Ext) :=
  [.arrive (.http admin (.users_create (.obj [("id", .str adminId), ("email", .str "s@x"),
      ("name", .str "S"), ("password", .str "p"), ("role", .str "SuperAdmin")]))) (input ""),
    .turn 1 (input ""), .turn 1 (input ""), .turn 1 (input ""), .turn 1 (input "")]

end Sample

theorem revoked_for_good_sample : ∃ l₂ l₃ w₂ w₃, Trace (Live.Step serving) Sample.administered l₂ w₂ ∧
    Trace (Live.Step serving) w₂ l₃ w₃ ∧ ¬ w₂.state.tables.Confirms Sample.admin ∧
    ∃ x ∈ l₃, Sample.adminId ∉ Entity.users.ids x.1.state.tables ∧ x.2.2.state.tables.Confirms Sample.admin ∧
      ∃ user dto, x.2.1.author = some (.http user (.users_create dto)) ∧ user.role = .SuperAdmin ∧
        (dto.get? "id").uuid = some Sample.adminId := by
  have hplay : (Live.play serving (fun _ _ => true) Sample.resignation Sample.administered).any (fun w₂ =>
      decide (¬ w₂.state.tables.Confirms Sample.admin) &&
      (Live.play serving (fun _ _ => true) Sample.readmission w₂).any fun w₃ =>
        decide (w₃.state.tables.Confirms Sample.admin)) = true := by
    decide +kernel
  obtain ⟨w₂, hw₂, hboth⟩ := (Option.any_eq_true _ _).1 hplay
  obtain ⟨hrevoked, hlater⟩ := Bool.and_eq_true_iff.1 hboth
  obtain ⟨w₃, hw₃, hback⟩ := (Option.any_eq_true _ _).1 hlater
  obtain ⟨l₂, hrun₂, -⟩ := Live.trace_of_play .nil hw₂
  obtain ⟨l₃, hrun₃, -⟩ := Live.trace_of_play .nil hw₃
  exact ⟨l₂, l₃, w₂, w₃, hrun₂, hrun₃, of_decide_eq_true hrevoked,
    (revoked_for_good rfl .nil hrun₂ hrun₃ (by decide +kernel) (of_decide_eq_true hrevoked)
      (of_decide_eq_true hback)).2⟩

end Damaru
