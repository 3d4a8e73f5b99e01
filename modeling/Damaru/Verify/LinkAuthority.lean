import Damaru.Verify.EventWrites

/-!
# Who writes devices and links

The one writer of devices that is open to Android users passes the body of the
request to the repository as it came. The device is linked to the user then,
so no other key can be given to it, but its state can be set.
-/

namespace Damaru

open Async Table

/-- The devices keep their ids and states, and the links are untouched. -/
structure LinksKept (t t' : Tables) : Prop where
  states : t'.emulators.map (fun e => (e.device_id, e.state)) =
    t.emulators.map fun e => (e.device_id, e.state)
  links : t'.userEmulators = t.userEmulators

namespace LinksKept

theorem refl (t : Tables) : LinksKept t t := ⟨rfl, rfl⟩

theorem trans {t₁ t₂ t₃ : Tables} (h : LinksKept t₁ t₂) (h' : LinksKept t₂ t₃) : LinksKept t₁ t₃ :=
  ⟨h'.states.trans h.states, h'.links.trans h.links⟩

end LinksKept

/-- The kinds of writes that keep devices and links. -/
def Kind.KeepsLinks : Kind → Prop
  | .newAccount => True
  | .accountFields => True
  | .deleteAccount => True
  | .assignments => True
  | .emissions => True
  | _ => False

theorem Write.linksKept {t t' : Tables} {k : Kind} (hw : Write t k t') (hk : k.KeepsLinks)
    (hi : t.Integrity) : LinksKept t t' := by
  cases hw with
  | newAccount a => exact ⟨rfl, rfl⟩
  | accountFields p f hf => exact ⟨rfl, rfl⟩
  | assignments l c => exact ⟨rfl, rfl⟩
  | deleteAccount p =>
    have hcascade := hi.toReferences.cascade_accounts (l := t.accounts.filter p)
      fun a ha => (List.mem_filter.1 ha).1
    exact ⟨rfl, hcascade.2.2.1⟩
  | _ => exact hk.elim

/-- The event sets the state of a device: it is an admin's update, accepted by
the ORM, of a device that is linked to the user, and its body leaves the key of
the device and gives it another state. -/
def SetsState (s : Server) : Event → Prop
  | .http user (.emulators_update id emulator) =>
    user.subRole = some .AndroidAdmin ∧ id ≠ "" ∧
    (∃ l ∈ s.tables.userEmulators, l.device = some id ∧ l.user = some user.sub ∧ l.active = true) ∧
    EmulatorService.values s.platform emulator = .ok (some (EmulatorService.columns emulator)) ∧
    ∃ e ∈ s.tables.emulators, e.device_id = id ∧
      (EmulatorService.columns emulator e).device_id = e.device_id ∧
      (EmulatorService.columns emulator e).state ≠ e.state
  | _ => False

namespace EmulatorService

/-- An accepted update of a linked device leaves its key. -/
theorem columns_keep_key {t : Tables} {id : String} {emulator : Json} {l : UserEmulators}
    (hl : l ∈ t.userEmulators) (hdevice : l.device = some id)
    (hi : ({ t with
      emulators := updateWhere (fun e => decide (e.device_id = id)) (columns emulator) t.emulators } :
        Tables).Integrity) :
    ∀ e, e.device_id = id → (columns emulator e).device_id = e.device_id := by
  intro e he
  have href := hi.link_device l hl
  rw [hdevice, refers_some] at href
  obtain ⟨e', he', hid'⟩ := List.mem_map.1 href
  rcases mem_updateWhere.1 he' with ⟨e₀, -, hp, rfl⟩ | ⟨-, hp⟩
  · rcases columns_device_id emulator with hkeep | ⟨d, hd⟩
    · exact hkeep e
    · rw [hd, he, ← hid', hd]
  · exact absurd hid' (of_decide_eq_false hp)

theorem update_post {id : String} {emulator : Json} {user : JwtToken} (s : Server)
    (hrole : user.role = .AndroidUser) (hsub : user.subRole = some .AndroidAdmin)
    (hnot : ¬ SetsState s (.http user (.emulators_update id emulator))) :
    (update (some (.str id)) emulator (some user)).Post s fun _ s' =>
      LinksKept s.tables s'.tables := by
  unfold update
  simp only [hrole, hsub, and_self, if_true]
  refine Repository.post_findRow_bind (fun l hl hp => ?_) fun _ => .throw (.refl _)
  simp only [Bool.and_eq_true, JsVal.selects_str, decide_eq_true_eq] at hp
  refine Repository.post_update_bind (fun x f hf hcriterion hi n => .pure ⟨?_, rfl⟩)
    (fun _ => .pure (.refl _)) fun _ => .refl _
  have hcolumns := values_columns hf
  subst hcolumns
  have hkey := columns_keep_key hl hp.1.1 hi
  show (updateWhere (fun e => decide (e.device_id = id)) (columns emulator) s.tables.emulators).map
    (fun e => (e.device_id, e.state)) = _
  refine map_updateWhere_of_mem fun e he hsel => ?_
  have hid : e.device_id = id := of_decide_eq_true hsel
  rw [hkey e hid]
  by_contra hstate
  refine hnot ⟨hsub, ?_, ⟨l, hl, hp.1.1, hp.1.2, hp.2⟩, hf, e, he, hid, hkey e hid, fun heq => ?_⟩
  · exact fun hempty => Bool.eq_false_iff.1 hcriterion (decide_eq_true hempty)
  · exact hstate (by rw [heq])

theorem update_sets_state {id : String} {emulator : Json} {user : JwtToken} (s : Server)
    (hrole : user.role = .AndroidUser)
    (h : SetsState s (.http user (.emulators_update id emulator))) :
    (update (some (.str id)) emulator (some user)).Post s fun _ s' =>
      ¬ LinksKept s.tables s'.tables := by
  obtain ⟨hsub, hid, ⟨l, hl, hdevice, huser, hactive⟩, hvalues, e, he, heid, hkey, hstate⟩ := h
  have hkeys : ∀ e', e'.device_id = id → (columns emulator e').device_id = e'.device_id := by
    intro e' he'
    rcases columns_device_id emulator with hkeep | ⟨d, hd⟩
    · exact hkeep e'
    · rw [hd, he', ← heid, ← hkey, hd]
  have hi : ({ s.tables with
      emulators := updateWhere (fun e => decide (e.device_id = id)) (columns emulator)
        s.tables.emulators } : Tables).Integrity :=
    s.integrity.set_emulators_of_mem fun e' _ hsel => hkeys e' (of_decide_eq_true hsel)
  unfold update
  simp only [hrole, hsub, and_self, if_true]
  refine Repository.post_findRow_bind (fun l' _ _ => ?_) fun hnone => ?_
  · refine Repository.post_update_ok_bind (fun _ => hvalues) (decide_eq_false hid) (fun _ => hi)
      fun x n => .pure fun hkept => hstate ?_
    -- the device keeps its key, so its state shows
    have hmem : ((columns emulator e).device_id, (columns emulator e).state) ∈
        s.tables.emulators.map fun e => (e.device_id, e.state) := by
      rw [← hkept.states]
      refine List.mem_map.2 ⟨columns emulator e, ?_, rfl⟩
      exact mem_updateWhere.2 (.inl ⟨e, he, decide_eq_true heid, rfl⟩)
    obtain ⟨e', he', heq⟩ := List.mem_map.1 hmem
    obtain ⟨hid', hst'⟩ := Prod.mk.inj heq
    rw [← hst', eq_of_key s.integrity.emulators he' he (hid'.trans hkey)]
  · have hfound := hnone l hl
    simp [hdevice, huser, hactive, JsVal.selects] at hfound

end EmulatorService

/-- A request of an Android user. -/
def AndroidRequest (s : Server) (e : Event) (s' : Server) : Prop :=
  (∃ user req, e = .http user req ∧ user.role = .AndroidUser) ∧ Step s e s'

/-- The step lemma: a request keeps devices and links exactly if it does not
set a state. -/
theorem AndroidRequest.linksKept_iff {s s' : Server} {e : Event} (h : AndroidRequest s e s') :
    LinksKept s.tables s'.tables ↔ ¬ SetsState s e := by
  obtain ⟨⟨user, req, rfl, hrole⟩, h⟩ := h
  have hkinds : (∀ k ∈ req.kinds, k.KeepsLinks) → LinksKept s.tables s'.tables := fun hk =>
    Event.respects .refl (fun _ _ _ => .trans)
      (fun k hmem _ _ hi _ hw => hw.linksKept (hk k (Event.kinds_http hmem).2) hi) h
  cases req with
  | emulators_update id emulator =>
    by_cases hsub : user.subRole = some .AndroidAdmin
    · have hadmits : (HttpRequest.emulators_update id emulator).admits user = true := by
        simp [HttpRequest.admits, HttpRequest.guard, Guard.isAuthorized, AndroidAdmin, hrole, hsub]
      have hfree : ((HttpRequest.emulators_update id emulator).run user).ForkFree :=
        (EmulatorService.forkFree_update _ _ _).bind fun updated => by
          split <;> exact Prog.forkFree_pure
      have hpost : ∀ {I : Server → Prop},
          (EmulatorService.update (some (.str id)) emulator (some user)).Post s (fun _ => I) → I s' :=
        fun hp => h.of_post hadmits hfree (hp.andThen fun updated => by
          split <;> exact ⟨.ok _, rfl⟩)
      constructor
      · intro hkept hsets
        exact hpost (EmulatorService.update_sets_state s hrole hsets) hkept
      · intro hnot
        exact hpost (EmulatorService.update_post s hrole hsub hnot)
    · have hadmits : (HttpRequest.emulators_update id emulator).admits user = false := by
        simp [HttpRequest.admits, HttpRequest.guard, Guard.isAuthorized, AndroidAdmin, hrole, hsub]
      rw [h.of_not_admits hadmits]
      exact iff_of_true (.refl _) fun hsets => hsub hsets.1
  | _ =>
    refine iff_of_true ?_ not_false
    first
      | (refine hkinds ?_
         simp [HttpRequest.kinds, Kind.KeepsLinks]
         done)
      | (rw [h.of_not_admits (by simp [HttpRequest.admits, HttpRequest.guard, Guard.isAuthorized,
           SuperAdmin, EmulatorAdmin, hrole])]
         exact .refl _)

/-- **Link authority.** In a run of Android users' requests, every step keeps
devices and links exactly if no request sets the state of a device. -/
theorem links_kept_iff {s s' : Server} {steps : List (Server × Event × Server)}
    (hrun : Trace AndroidRequest s steps s') :
    (∀ x ∈ steps, LinksKept x.1.tables x.2.2.tables) ↔ ∀ x ∈ steps, ¬ SetsState x.1 x.2.1 := by
  have hstep := hrun.forall_steps (P := fun s e s' =>
    LinksKept s.tables s'.tables ↔ ¬ SetsState s e) fun _ _ _ h => h.linksKept_iff
  exact forall₂_congr hstep

/-- A user's own admin renames a device: the body holds no state. -/
theorem links_kept_renamed : ∃ s', Trace AndroidRequest Sample.server
      [(Sample.server, .http (Sample.androidAdmin "v" "v-root")
        (.emulators_update "e" (.obj [("device_name", .str "mine")])), s')] s' ∧
    LinksKept Sample.server.tables s'.tables := by
  have hplay : ((Event.http (Sample.androidAdmin "v" "v-root")
      (.emulators_update "e" (.obj [("device_name", .str "mine")]))).play
        (["", ""].map Sample.input) Sample.server).isSome = true := by
    decide +kernel
  obtain ⟨s', hs'⟩ := Option.isSome_iff_exists.1 hplay
  have hrun : Trace AndroidRequest Sample.server [(Sample.server, _, s')] s' :=
    .snoc .nil ⟨⟨_, _, rfl, rfl⟩, Event.step_of_play hs'⟩
  refine ⟨s', hrun, (links_kept_iff hrun).2 (fun x hx => ?_) _ (List.mem_singleton.2 rfl)⟩
  rw [List.mem_singleton.1 hx]
  rintro ⟨-, -, -, -, e, -, -, -, hstate⟩
  exact hstate rfl

/-- A user's own admin frees the device that is linked to the user. -/
theorem links_not_kept : ¬ ∀ (s s' : Server) (steps : List (Server × Event × Server)), Reachable s →
    Trace AndroidRequest s steps s' → LinksKept s.tables s'.tables := by
  intro hall
  let update : Event := .http (Sample.androidAdmin "v" "v-root")
    (.emulators_update "e" (.obj [("state", .str "AVAILABLE")]))
  have hrun : (playAll (Sample.history ++ []) Sample.seeded).any (fun s =>
      (update.play (["", ""].map Sample.input) s).any fun s' =>
        decide (s'.tables.emulators.map (fun e => (e.device_id, e.state)) ≠
          s.tables.emulators.map fun e => (e.device_id, e.state))) = true := by
    decide +kernel
  obtain ⟨s, hs, hupdate⟩ := (Option.any_eq_true _ _).1 hrun
  obtain ⟨s', hs', hstates⟩ := (Option.any_eq_true _ _).1 hupdate
  refine of_decide_eq_true hstates (hall s s' [(s, update, s')] (Sample.reachable hs) ?_).states
  exact .snoc .nil ⟨⟨_, _, rfl, rfl⟩, Event.step_of_play hs'⟩

end Damaru
