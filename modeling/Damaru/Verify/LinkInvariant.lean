import Damaru.Verify.Operations

/-!
# The link-state invariant

In every state that operations lead to from a database without devices, a
device is REGISTERED with exactly one link in force, or AVAILABLE with none.
-/

namespace Damaru

open Async Table

namespace Tables

/-- Devices that keep their states keep the law, whatever key the selected
ones are given: a device that links refer to keeps its own. -/
theorem LinkState.setColumns {t t' : Tables} (h : t.LinkState) (hi : t.Integrity)
    (hi' : t'.Integrity) {p : Emulator → Bool} {f : Emulator → Emulator}
    (hstate : ∀ e, (f e).state = e.state)
    (hid : (∀ e, (f e).device_id = e.device_id) ∨ ∃ d, ∀ e, (f e).device_id = d)
    (he : t'.emulators = updateWhere p f t.emulators) (hl : t'.userEmulators = t.userEmulators) :
    t'.LinkState := by
  have hactive := active_congr hl
  have hmem : ∀ e ∈ t.emulators, (if p e then f e else e) ∈ t'.emulators := by
    intro e hmem
    rw [he]
    exact List.mem_map_of_mem hmem
  intro e' he'
  rw [he] at he'
  rcases mem_updateWhere.1 he' with ⟨e, hmem', hp, rfl⟩ | ⟨hmem', -⟩
  · rw [hactive, hstate]
    by_cases hsame : (f e).device_id = e.device_id
    · rw [hsame]
      exact h e hmem'
    · obtain ⟨d, hd⟩ := hid.resolve_left fun hkeep => hsame (hkeep e)
      -- a link of the device would dangle once the device has another key
      have hold : t.active e.device_id = [] := by
        refine List.eq_nil_iff_forall_not_mem.2 fun l hl' => ?_
        rw [← hactive] at hl'
        obtain ⟨e₁', he₁', hid₁⟩ := hi'.device_exists hl'
        rw [he] at he₁'
        rcases mem_updateWhere.1 he₁' with ⟨e₁, -, -, rfl⟩ | ⟨hmem₁, hp₁⟩
        · exact hsame ((hd e).trans ((hd e₁).symm.trans hid₁))
        · rw [eq_of_key hi.emulators hmem₁ hmem' hid₁, hp] at hp₁
          cases hp₁
      -- a device that had the key before would collide with it
      have hnew : t.active (f e).device_id = [] := by
        refine List.eq_nil_iff_forall_not_mem.2 fun l hl' => ?_
        obtain ⟨e₁, he₁, hid₁⟩ := hi.device_exists hl'
        have hcollide : (if p e then f e else e) = if p e₁ then f e₁ else e₁ := by
          refine eq_of_key hi'.emulators (hmem e hmem') (hmem e₁ he₁) ?_
          rw [if_pos hp]
          split
          · rw [hd, hd]
          · exact hid₁.symm
        have hkeys := hi'.emulators
        rw [he] at hkeys
        unfold updateWhere at hkeys
        rw [List.map_map] at hkeys
        have heq := List.inj_on_of_nodup_map hkeys hmem' he₁ (congrArg Emulator.device_id hcollide)
        exact hsame (hid₁.symm.trans (congrArg Emulator.device_id heq.symm))
      rcases h e hmem' with ⟨-, hlen⟩ | ⟨hst, -⟩
      · rw [hold] at hlen
        cases hlen
      · exact .inr ⟨hst, hnew⟩
  · rw [hactive]
    exact h e' hmem'

/-- A device is added AVAILABLE, and no link can refer to it yet. -/
theorem LinkState.newEmulator {t t' : Tables} (h : t.LinkState) (hi : t.Integrity)
    (hi' : t'.Integrity) {e : Emulator} (hst : e.state = .AVAILABLE)
    (he : t'.emulators = t.emulators ++ [e]) (hl : t'.userEmulators = t.userEmulators) :
    t'.LinkState := by
  intro e' he'
  rw [active_congr hl]
  rw [he] at he'
  rcases List.mem_append.1 he' with he' | he'
  · exact h e' he'
  · rw [List.mem_singleton.1 he']
    refine .inr ⟨hst, List.eq_nil_iff_forall_not_mem.2 fun l hl' => ?_⟩
    obtain ⟨e₀, he₀, hid⟩ := hi.device_exists hl'
    have hkeys := hi'.emulators
    rw [he, List.map_append] at hkeys
    exact (List.nodup_append.1 hkeys).2.2 _ (List.mem_map_of_mem he₀) _
      (List.mem_singleton.2 rfl) hid

/-- Devices that are not deleted keep their links. -/
theorem LinkState.deleteEmulator {t : Tables} (h : t.LinkState) (hi : t.Integrity)
    (p : Emulator → Bool) :
    ({ t with emulators := t.emulators.filter p } : Tables).cascade.LinkState := by
  intro e he
  have hmem : e ∈ t.emulators.filter p := he
  rw [active_filter (hi.toReferences.cascade_emulators (t.emulators.filter p)).2.2]
  have hkept : (t.active e.device_id).filter
      (fun r => refers ((t.emulators.filter p).map Emulator.device_id) r.device) =
      t.active e.device_id := by
    refine List.filter_eq_self.2 fun l hl => ?_
    rw [(mem_active.1 hl).2.1, refers_some]
    exact List.mem_map_of_mem hmem
  rw [hkept]
  exact h e (List.mem_filter.1 hmem).1

theorem LinkState.congr {t t' : Tables} (h : t.LinkState) (he : t'.emulators = t.emulators)
    (hl : t'.userEmulators = t.userEmulators) : t'.LinkState := by
  intro e he'
  rw [active_congr hl]
  exact h e (he ▸ he')

end Tables

/-- The kinds of writes that leave states and links in agreement by
themselves. -/
def Kind.KeepsLinkState : Kind → Prop
  | .columns emulator => emulator.get? "state" = none
  | .saveEmulator => False
  | .deleteUser => False
  | .newLink => False
  | .endLink => False
  | .state => False
  | _ => True

/-- The step lemma of the invariant. -/
theorem Write.linkState {t t' : Tables} {k : Kind} (hw : Write t k t') (hk : k.KeepsLinkState)
    (hi : t.Integrity) (hi' : t'.Integrity) (h : t.LinkState) : t'.LinkState := by
  cases hw with
  | expiry p date =>
    intro e he
    rw [Tables.active_updateWhere (f := fun l => { l with expires_at := date })
      (fun _ => ⟨rfl, rfl⟩) rfl]
    refine (h e he).imp (fun hr => ⟨hr.1, ?_⟩) fun ha => ⟨ha.1, ?_⟩
    · unfold updateWhere
      rw [List.length_map]
      exact hr.2
    · rw [ha.2, updateWhere_nil]
  | newEmulator e hst => exact h.newEmulator hi hi' hst rfl rfl
  | columns emulator p =>
    exact h.setColumns hi hi' (EmulatorService.columns_state hk)
      (EmulatorService.columns_device_id emulator) rfl rfl
  | emulatorFields p f hf =>
    exact h.setColumns hi hi' (fun e => (hf e).2) (.inl fun e => (hf e).1) rfl rfl
  | deleteEmulator p => exact h.deleteEmulator hi p
  | deleteAccount p =>
    have hcascade := hi.toReferences.cascade_accounts (l := t.accounts.filter p)
      fun a ha => (List.mem_filter.1 ha).1
    exact h.congr rfl hcascade.2.2.1
  | saveEmulator l => exact hk.elim
  | deleteUser p => exact hk.elim
  | newLink l => exact hk.elim
  | endLink p date => exact hk.elim
  | state p st => exact hk.elim
  | _ => exact h.congr rfl rfl

/-- The body of an update is restricted to the fields of `EmulatorDto`. -/
def Operation.FromDto : Operation → Prop
  | .emulators_update _ emulator _ =>
    ∀ k ∈ emulator.keys, k ∈ ["device_id", "device_name", "details", "status"]
  | _ => True

/-- An operation runs alone and completes, or is rejected by an exception of
the services' own. -/
def Operation.Completes (s : Server) (op : Operation) (s' : Server) : Prop :=
  op.FromDto ∧ Pool.Settles Rejection.Explicit op.prog s s'

/-- An operation keeps states and links in agreement. -/
theorem Operation.Completes.linkState {op : Operation} {s s' : Server} (h : Operation.Completes s op s')
    (hs : s.tables.LinkState) : s'.tables.LinkState := by
  obtain ⟨hdto, h⟩ := h
  have hkinds : (∀ k ∈ op.kinds, k.KeepsLinkState) → s'.tables.LinkState := fun hk =>
    op.preserves (fun k hmem t t' hi hi' hw => hw.linkState (hk k hmem) hi hi') h hs
  cases op with
  | link r => exact LinkRequest.linkState_alone h hs
  | emulators_update id emulator user =>
    refine hkinds fun k hk => ?_
    rw [List.mem_singleton.1 hk]
    exact Json.get?_eq_none fun hmem => by simpa using hdto _ hmem
  | _ =>
    refine hkinds fun k hk => ?_
    simp only [kinds, List.mem_cons, List.not_mem_nil, or_false] at hk
    first
      | (subst hk; trivial)
      | (rcases hk with rfl | rfl <;> trivial)
      | (rcases hk with rfl | rfl | rfl <;> trivial)

/-- **The link-state invariant.** -/
theorem link_state_invariant {s s' : Server} {steps : List (Server × Operation × Server)}
    (hempty : s.tables.emulators = [])
    (hrun : Trace Operation.Completes s steps s') :
    ∀ e ∈ s'.tables.emulators,
      (e.state = .REGISTERED ↔ (s'.tables.active e.device_id).length = 1) ∧
        (e.state = .AVAILABLE ↔ s'.tables.active e.device_id = []) := by
  have hstart : s.tables.LinkState := by
    intro e he
    rw [hempty] at he
    cases he
  have hend := hrun.invariant (I := fun s => s.tables.LinkState)
    (fun _ _ _ hstep => hstep.linkState) hstart
  intro e he
  rcases hend e he with ⟨hst, hlen⟩ | ⟨hst, hnil⟩
  · have hne : s'.tables.active e.device_id ≠ [] := fun hnil => by rw [hnil] at hlen; cases hlen
    simp [hst, hlen, hne]
  · simp [hst, hnil]

/-- The deployment before it has a device. -/
def Sample.vacant : Server where
  platform := platform
  db := ⟨{ tables with emulators := [], userEmulators := [], accountEmulators := [] }, by decide⟩
  issued := []
  connections := []
  emitted := []

theorem link_state_invariant_linked :
    ∃ steps s', Trace Operation.Completes Sample.vacant steps s' ∧
      s'.tables.emulators.map Emulator.state = [.REGISTERED] ∧
      ∀ e ∈ s'.tables.emulators,
        (e.state = .REGISTERED ↔ (s'.tables.active e.device_id).length = 1) ∧
          (e.state = .AVAILABLE ↔ s'.tables.active e.device_id = []) := by
  let emulator : Json := .obj [("device_id", .str "d"), ("device_name", .str "D")]
  have hrun : (((Operation.emulators_create emulator).prog.run [Sample.input "", Sample.input ""]
      Sample.vacant).any fun o => o.1.toBool &&
        ((Operation.link (.link "u" ["d"])).prog.run [Sample.input "", Sample.input "l",
          Sample.input "", Sample.input "p", Sample.input ""] o.2).any fun o =>
            o.1.toBool && decide (o.2.tables.emulators.map Emulator.state = [.REGISTERED])) = true := by
    decide +kernel
  obtain ⟨⟨_ | a, s₁⟩, ho, hrun⟩ := (Option.any_eq_true _ _).1 hrun
  · cases hrun
  · obtain ⟨⟨_ | b, s₂⟩, ho', hst⟩ := (Option.any_eq_true _ _).1 hrun
    · cases hst
    · have hdto : (Operation.emulators_create emulator).FromDto := by
        unfold Operation.FromDto
        decide
      have hcreate : Operation.Completes Sample.vacant (.emulators_create emulator) s₁ :=
        ⟨trivial, .of_run ho⟩
      have hlink : Operation.Completes s₁ (.link (.link "u" ["d"])) s₂ := ⟨trivial, .of_run ho'⟩
      have htrace := (Trace.nil.snoc hcreate).snoc hlink
      exact ⟨_, _, htrace, of_decide_eq_true hst, link_state_invariant rfl htrace⟩

end Damaru
