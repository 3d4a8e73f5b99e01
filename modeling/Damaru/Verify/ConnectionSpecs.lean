import Damaru.Verify.Outcomes
import Damaru.Services.Emulators

/-!
# What connecting and disconnecting do

A connection is opened for an assignment of an account to a link of a device,
in force or not.
-/

namespace Damaru

open Async Table

/-- The account of a connection. -/
def Tables.accountOf (t : Tables) (c : EmulatorConnections) : Option String :=
  (t.accountEmulator? c.accountEmulators).bind AccountEmulators.account

theorem Tables.accountOf_congr {t t' : Tables} (h : t'.accountEmulators = t.accountEmulators)
    {c c' : EmulatorConnections} (hrow : c'.accountEmulators = c.accountEmulators) :
    t'.accountOf c' = t.accountOf c := by
  unfold accountOf accountEmulator?
  rw [h, hrow]

namespace Server

variable {s : Server}

/-- A key that is the id of a row is read by every column. -/
theorem reads_of_used {key : JsVal} (h : ∀ k, key.bound = some k → k ∈ s.used) :
    key.bound.all s.takesText = true ∧ key.bound.all s.readsId = true := by
  cases hk : key.bound with
  | none => exact ⟨rfl, rfl⟩
  | some k =>
    have hused := h k hk
    simp only [Option.all_some, takesText, readsId, hused, decide_true, Bool.or_true, Bool.true_or, and_self]

theorem accountOf_used {c : EmulatorConnections} {a : String} (h : s.tables.accountOf c = some a) :
    a ∈ s.used := by
  obtain ⟨row, hrow, ha⟩ := Option.bind_eq_some_iff.1 h
  obtain ⟨k, -, hfound⟩ := Option.bind_eq_some_iff.1 hrow
  have href := s.integrity.account row (List.mem_of_find?_eq_some hfound)
  rw [ha, refers_some] at href
  obtain ⟨account, haccount, rfl⟩ := List.mem_map.1 href
  exact mem_used_of_mem_ids (Tables.account_id_mem haccount)

/-- A key that finds a connection is one that the database reads. -/
theorem reads_of_selects {key : JsVal} {c : EmulatorConnections}
    (h : key.selects (s.tables.accountOf c) = true) :
    key.bound.all s.takesText = true ∧ key.bound.all s.readsId = true := by
  refine reads_of_used fun k hk => ?_
  unfold JsVal.selects at h
  rw [hk] at h
  exact accountOf_used (of_decide_eq_true h)

end Server

namespace EmulatorService

/-- The assignments that the lookup of `connectEmulator` can return. -/
def Matches (t : Tables) (clientId deviceId : JsVal) (a : AccountEmulators) : Prop :=
  a ∈ t.accountEmulators ∧
    deviceId.selects ((t.userEmulator? a.userEmulator).bind UserEmulators.device) = true ∧
    clientId.selects a.account = true

/-- The tables with one connection more, of the assignment, which has not
ended. -/
def Opens (s : Server) (a : AccountEmulators) (c : EmulatorConnections) (t : Tables) : Prop :=
  c.id ∉ s.used ∧ c.id ≠ "" ∧ c.accountEmulators = some a.id ∧ c.disconnected_at = none ∧
    t = { s.tables with emulatorConnections := s.tables.emulatorConnections ++ [c] }

theorem Opens.integrity {s : Server} {a : AccountEmulators} {c : EmulatorConnections} {t : Tables}
    (ha : a ∈ s.tables.accountEmulators) (h : Opens s a c t) : t.Integrity := by
  obtain ⟨hid, -, hc, -, rfl⟩ := h
  apply s.integrity.append_connection
  · exact fun hmem => hid (Server.mem_used_of_mem_ids hmem)
  · rw [hc, refers_some]
    exact List.mem_map_of_mem ha

theorem connectEmulator_post (clientId deviceId : JsVal) (s : Server) :
    (connectEmulator clientId deviceId).Post s fun r s' =>
      ((∃ e, r = .error e) ∧ s' = s ∧ ∀ a, ¬ Matches s.tables clientId deviceId a) ∨
        (r = .ok () ∧ ∃ a c, Matches s.tables clientId deviceId a ∧ Opens s a c s'.tables ∧
          s'.connections = s.connections ∧ s'.emitted = s.emitted) := by
  refine Repository.post_findRow_bind (fun a ha hp => ?_) fun hnone => .throw (.inl ⟨⟨_, rfl⟩, rfl, ?_⟩)
  · obtain ⟨hd, hc⟩ := Bool.and_eq_true_iff.1 hp
    refine Repository.post_insert_bind (fun x c hvalues hi => .pure (.inr ?_)) fun x e he => ?_
    · cases hvalues
      exact ⟨rfl, a, _, ⟨ha, hd, hc⟩, ⟨x.fresh_not_used s, x.fresh_ne_empty s, rfl, rfl, rfl⟩, rfl, rfl⟩
    · rcases he with he | ⟨-, c, hvalues, hnot⟩
      · cases he
      · cases hvalues
        exact absurd (Opens.integrity ha ⟨x.fresh_not_used s, x.fresh_ne_empty s, rfl, rfl, rfl⟩) hnot
  · intro a ha
    have hfalse := hnone a ha.1
    rw [ha.2.1, ha.2.2] at hfalse
    cases hfalse

/-- It can open one for any assignment that matches. -/
theorem connectEmulator_ends {clientId deviceId : JsVal} {s : Server} {a : AccountEmulators}
    (ha : Matches s.tables clientId deviceId a) :
    ∃ s' c, (connectEmulator clientId deviceId).Ends s (.ok ()) s' ∧ Opens s a c s'.tables := by
  obtain ⟨hmem, hd, hc⟩ := ha
  obtain ⟨rank, hrank⟩ := accountEmulatorRepository.exists_scan_head
    (p := fun t a => deviceId.selects ((t.userEmulator? a.userEmulator).bind UserEmulators.device) &&
      clientId.selects a.account)
    s.integrity.accountEmulators hmem (by rw [hd, hc]; rfl) default
  let c : EmulatorConnections := ⟨(default : Ext).fresh s, some a.id, (default : Ext).now, none⟩
  have hopens : Opens s a c
      { s.tables with emulatorConnections := s.tables.emulatorConnections ++ [c] } :=
    ⟨Ext.fresh_not_used default s, Ext.fresh_ne_empty default s, rfl, rfl, rfl⟩
  refine ⟨s.commit _ (hopens.integrity hmem), c, ?_, hopens⟩
  refine Prog.ends_bind.2 (.inr ⟨some a, s, ends_query.2 ⟨rfl, _, by rw [hrank]; rfl⟩, ?_⟩)
  refine Prog.ends_bind.2 (.inr ⟨c.id, _, ?_, .pure () _⟩)
  exact ends_statement_ok (x := default) rfl (hopens.integrity hmem)

theorem forkFree_connectEmulator (clientId deviceId : JsVal) :
    (connectEmulator clientId deviceId).ForkFree := by
  apply Prog.forkFree_op.bind
  intro found
  cases found with
  | none => exact trivial
  | some a => exact Prog.forkFree_op.bind fun _ => trivial

/-- The account of the connection that is opened. -/
theorem Opens.accountOf {s : Server} {a : AccountEmulators} {c : EmulatorConnections} {t : Tables}
    (ha : a ∈ s.tables.accountEmulators) (h : Opens s a c t) : t.accountOf c = a.account := by
  obtain ⟨-, -, hc, -, rfl⟩ := h
  unfold Tables.accountOf
  rw [hc]
  show (s.tables.accountEmulator? (some a.id)).bind _ = _
  rw [s.integrity.accountEmulator?_eq ha]
  rfl

end EmulatorService

end Damaru
