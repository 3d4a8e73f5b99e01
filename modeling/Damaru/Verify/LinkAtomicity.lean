import Damaru.Verify.Operations
import Damaru.Verify.Outcomes

/-!
# How far `linkEmulator` gets

`linkEmulator` opens no transaction: what it has written for the devices of
the list before the one that it rejects stays. For a user with a root account
that is a prefix of the list, each device of it wholly linked, and nothing
else has changed.
-/

namespace Damaru

open Async Table

/-! ## Linking a list of devices -/

/-- The tables differ by links of the devices to the user: one new link in
force for each, assigned to an admin account of the user, and the devices are
REGISTERED. -/
structure Linked (u : String) (t : Tables) (ds : List String) (t' : Tables) : Prop where
  distinct : ds.Nodup
  free : ∀ d ∈ ds, ∃ e ∈ t.emulators, e.device_id = d ∧ e.state ≠ .REGISTERED
  rows : ∃ ls as, ls.map UserEmulators.device = ds.map some ∧
    (∀ l ∈ ls, l.user = some u ∧ l.active = true) ∧
    as.map AccountEmulators.userEmulator = ls.map (fun l => some l.id) ∧
    (∀ a ∈ as, ∃ root ∈ t.accounts, a.account = some root.id ∧ root.user = some u ∧
      root.is_admin = true) ∧
    t' = { t with
      emulators := updateWhere (fun e => decide (e.device_id ∈ ds))
        (fun e => { e with state := .REGISTERED }) t.emulators
      userEmulators := t.userEmulators ++ ls
      accountEmulators := t.accountEmulators ++ as }

namespace Linked

variable {u d : String} {t t₁ t' : Tables} {ds : List String}

theorem nil (u : String) (t : Tables) : Linked u t [] t := by
  refine ⟨List.nodup_nil, fun d hd => (List.not_mem_nil hd).elim, [], [], rfl, ?_, rfl, ?_, ?_⟩
  · exact fun l hl => (List.not_mem_nil hl).elim
  · exact fun a ha => (List.not_mem_nil ha).elim
  · rw [List.append_nil, List.append_nil, updateWhere_eq_self]
    intro e _ hp
    exact (List.not_mem_nil (of_decide_eq_true hp)).elim

theorem accounts (h : Linked u t ds t') : t'.accounts = t.accounts := by
  obtain ⟨ls, as, -, -, -, -, rfl⟩ := h.rows
  rfl

/-- A device that has been linked is REGISTERED. -/
theorem registered (h : Linked u t ds t') (hd : d ∈ ds) :
    ∀ e ∈ t'.emulators, e.device_id = d → e.state = .REGISTERED := by
  obtain ⟨ls, as, -, -, -, -, rfl⟩ := h.rows
  intro e he hid
  rcases mem_updateWhere.1 he with ⟨e₀, -, -, rfl⟩ | ⟨-, hp⟩
  · rfl
  · exact absurd (hid ▸ hd) (of_decide_eq_false hp)

/-- Linking one device and then the others. -/
theorem cons (h : Linked u t [d] t₁) (hrest : Linked u t₁ ds t') : Linked u t (d :: ds) t' := by
  have hnot : d ∉ ds := by
    intro hd
    obtain ⟨e, he, hid, hst⟩ := hrest.free d hd
    exact hst (h.registered List.mem_cons_self e he hid)
  obtain ⟨ls, as, hdev, hls, hlink, has, rfl⟩ := h.rows
  obtain ⟨ls', as', hdev', hls', hlink', has', rfl⟩ := hrest.rows
  refine ⟨List.nodup_cons.2 ⟨hnot, hrest.distinct⟩, ?_, ls ++ ls', as ++ as', ?_, ?_, ?_, ?_, ?_⟩
  · intro d' hd'
    rcases List.mem_cons.1 hd' with rfl | hd'
    · exact h.free d' List.mem_cons_self
    · obtain ⟨e, he, hid, hst⟩ := hrest.free d' hd'
      rcases mem_updateWhere.1 he with ⟨e₀, -, -, rfl⟩ | ⟨he, -⟩
      · exact absurd rfl hst
      · exact ⟨e, he, hid, hst⟩
  · rw [List.map_append, hdev, hdev']
    rfl
  · intro l hl
    exact (List.mem_append.1 hl).elim (hls l) (hls' l)
  · rw [List.map_append, List.map_append, hlink, hlink']
  · intro a ha
    exact (List.mem_append.1 ha).elim (has a) (has' a)
  · have hstates : updateWhere (fun e => decide (e.device_id ∈ ds))
        (fun e => { e with state := .REGISTERED })
        (updateWhere (fun e => decide (e.device_id ∈ [d])) (fun e => { e with state := .REGISTERED })
          t.emulators) =
        updateWhere (fun e => decide (e.device_id ∈ d :: ds))
          (fun e => { e with state := .REGISTERED }) t.emulators := by
      unfold updateWhere
      rw [List.map_map]
      refine List.map_congr_left fun e _ => ?_
      by_cases hd : e.device_id = d
      · by_cases hds : d ∈ ds <;> simp [hd, hds]
      · by_cases hds : e.device_id ∈ ds <;> simp [hd, hds]
    simp only [hstates, List.append_assoc]

/-- One device, its link and the assignment of it. -/
theorem single {e : Emulator} (he : e ∈ t.emulators) (hid : e.device_id = d) (hst : e.state ≠ .REGISTERED)
    {l : UserEmulators} (huser : l.user = some u) (hactive : l.active = true) (hdevice : l.device = some d)
    {root : Account} (hroot : root ∈ t.accounts) (hrootUser : root.user = some u) (hadmin : root.is_admin = true)
    {a : AccountEmulators} (haccount : a.account = some root.id) (hlink : a.userEmulator = some l.id) :
    Linked u t [d] { t with
      emulators := updateWhere (fun e => decide (e.device_id ∈ [d])) (fun e => { e with state := .REGISTERED })
        t.emulators
      userEmulators := t.userEmulators ++ [l]
      accountEmulators := t.accountEmulators ++ [a] } := by
  refine ⟨List.nodup_singleton d, ?_, [l], [a], ?_, ?_, ?_, ?_, rfl⟩
  · intro d' hd'
    rw [List.mem_singleton.1 hd']
    exact ⟨e, he, hid, hst⟩
  · rw [List.map_singleton, List.map_singleton, hdevice]
  · intro l' hl'
    rw [List.mem_singleton.1 hl']
    exact ⟨huser, hactive⟩
  · rw [List.map_singleton, List.map_singleton, hlink]
  · intro a' ha'
    rw [List.mem_singleton.1 ha']
    exact ⟨root, hroot, haccount, hrootUser, hadmin⟩

end Linked

/-- A new link can be assigned to any account. -/
theorem integrity_new_assignment {t : Tables} {l : UserEmulators} {a : AccountEmulators} (h : t.Integrity)
    (hi : ({ t with userEmulators := t.userEmulators ++ [l] } : Tables).Integrity) (hfresh : l.id ∉ t.ids)
    (hid : a.id ∉ ({ t with userEmulators := t.userEmulators ++ [l] } : Tables).ids) {root : Account}
    (hroot : root ∈ t.accounts) (haccount : a.account = some root.id) (hlink : a.userEmulator = some l.id) :
    ({ t with
      userEmulators := t.userEmulators ++ [l]
      accountEmulators := t.accountEmulators ++ [a] } : Tables).Integrity := by
  refine hi.append_assignment hid ?_ ?_ ?_
  · rw [haccount, refers_some]
    exact List.mem_map_of_mem hroot
  · rw [hlink, refers_some]
    exact List.mem_map_of_mem (List.mem_append_right _ (List.mem_singleton.2 rfl))
  · intro k hk hmem
    obtain ⟨b, hb, hbk⟩ := List.mem_filterMap.1 hmem
    have href := h.link b hb
    rw [AccountEmulators.pair_link hbk, refers_some] at href
    have hkl : l.id = k.2 := Option.some.inj (hlink.symm.trans (AccountEmulators.pair_link hk))
    obtain ⟨l', hl', hid'⟩ := List.mem_map.1 href
    exact hfresh (hkl ▸ hid' ▸ Tables.userEmulator_id_mem hl')

/-- Why a device is rejected: it is REGISTERED, or there is no such device. -/
def Tables.Rejects (t : Tables) (d : String) : Prop :=
  (∃ e ∈ t.emulators, e.device_id = d ∧ e.state = .REGISTERED) ∨ ∀ e ∈ t.emulators, e.device_id ≠ d

/-- The user has a root account. -/
def Tables.Rooted (t : Tables) (u : String) : Prop :=
  ∃ a ∈ t.accounts, a.user = some u ∧ a.is_admin = true

open EmulatorService in
/-- One turn of the loop links the device, or is rejected; for a user with a
root account it is rejected before anything is written for the device. -/
theorem linkDevice_post (u d : String) (s : Server) :
    (linkDevice (some (.str u)) (some (.str d))).Post s fun r s' =>
      (r = .ok () ∧ Linked u s.tables [d] s'.tables) ∨
        ((∃ e, r = .error e) ∧ (s.tables.Rooted u → d ≠ "" →
          s'.tables = s.tables ∧ s.tables.Rejects d)) := by
  unfold linkDevice findEmulatorByDeviceId
  refine Repository.post_findRow_bind (fun e he hp => ?_) fun hfree => ?_
  · simp only [Bool.and_eq_true, JsVal.selects_str, decide_eq_true_eq] at hp
    exact .throw (.inr ⟨⟨_, rfl⟩, fun _ _ => ⟨rfl, .inl ⟨e, he, Option.some.inj hp.1, hp.2⟩⟩⟩)
  · refine Repository.post_insert_bind (fun x l hl hi => ?_) fun x e he => ?_
    · have hlink : l = ⟨x.fresh s, some u, some d,
          DateUtils.shift (defaultDays s.platform) x.now, x.now, none⟩ := (Except.ok.inj hl).symm
      have hfresh : l.id ∉ s.tables.ids := by
        rw [hlink]
        exact fun hmem => x.fresh_not_used s (Server.mem_used_of_mem_ids hmem)
      obtain ⟨e₀, he₀, hid₀⟩ : ∃ e ∈ s.tables.emulators, e.device_id = d := by
        have href := hi.link_device l (List.mem_append_right _ (List.mem_singleton.2 rfl))
        rw [hlink, refers_some] at href
        exact List.mem_map.1 href
      unfold AccountsService.findRootAccount
      refine Repository.post_findRow_bind (fun a ha hp => ?_) fun hnone => ?_
      · simp only [Bool.and_eq_true, JsVal.selects_str] at hp
        refine Repository.post_insert_bind (fun y p hp' hi' => ?_) fun y e he => ?_
        · have hassign : p = ⟨y.fresh _, some a.id, some l.id, .ACTIVE⟩ := (Except.ok.inj hp').symm
          refine Repository.post_set_bind (fun z hi'' n => .pure (.inl ⟨rfl, ?_⟩))
            fun z e _ he => .inr ⟨⟨e, rfl⟩, fun _ hd => ?_⟩
          · have hst : e₀.state ≠ .REGISTERED := fun hst =>
              Bool.eq_false_iff.1 (hfree e₀ he₀) (by simp [hid₀, hst])
            have hlinked := @Linked.single u d s.tables e₀ he₀ hid₀ hst l (by rw [hlink]) (by rw [hlink]; rfl)
              (by rw [hlink]) a ha hp.1 hp.2 p (by rw [hassign]) (by rw [hassign])
            simp only [List.mem_singleton] at hlinked
            exact hlinked
          · exact he.elim (fun h => absurd h hd) fun h =>
              (h (Tables.Integrity.set_emulators hi' fun _ => rfl)).elim
        -- the assignment refers to rows that are there, and to a link that is new
        · rcases he with he | ⟨-, p, hp', hnot⟩
          · cases he
          · have hassign : p = ⟨y.fresh _, some a.id, some l.id, .ACTIVE⟩ := (Except.ok.inj hp').symm
            refine (hnot (integrity_new_assignment s.integrity hi hfresh ?_ ha ?_ ?_)).elim
            · rw [hassign]
              exact fun hmem => y.fresh_not_used _ (Server.mem_used_of_mem_ids hmem)
            · rw [hassign]
            · rw [hassign]
      · refine .throw (.inr ⟨⟨_, rfl⟩, fun hroot _ => ?_⟩)
        obtain ⟨root, hmem, huser, hadmin⟩ := hroot
        have hsel : (JsVal.selects (some (.str u)) root.user && root.is_admin) = true := by
          rw [huser, hadmin, Bool.and_true, JsVal.selects_str]
        exact absurd hsel (Bool.eq_false_iff.1 (hnone root hmem))
    -- the link would be accepted if there were such a device
    · refine .inr ⟨⟨e, rfl⟩, fun hroot _ => ⟨rfl, .inr fun e₀ he₀ hid₀ => ?_⟩⟩
      obtain ⟨root, hmem, huser, -⟩ := hroot
      rcases he with he | ⟨-, l, hl, hnot⟩
      · cases he
      · have hlink : l = ⟨x.fresh s, some u, some d,
            DateUtils.shift (defaultDays s.platform) x.now, x.now, none⟩ := (Except.ok.inj hl).symm
        refine hnot (s.integrity.append_link ?_ ?_ ?_)
        · rw [hlink]
          exact fun hmem => x.fresh_not_used s (Server.mem_used_of_mem_ids hmem)
        · have href := s.integrity.account_user root hmem
          rw [hlink]
          rwa [huser] at href
        · rw [hlink, refers_some]
          exact hid₀ ▸ List.mem_map_of_mem he₀

open EmulatorService in
/-- The loop links the whole list, or is rejected after a prefix of it. -/
theorem linkEmulator_post (u : String) (ds : List String) (s : Server) :
    (linkEmulator (LinkRequest.linkDto u ds)).Post s fun r s' =>
      (r = .ok () ∧ Linked u s.tables ds s'.tables) ∨
        ((∃ e, r = .error e) ∧ (s.tables.Rooted u → "" ∉ ds → ∃ done d rest,
          ds = done ++ d :: rest ∧ Linked u s.tables done s'.tables ∧ s'.tables.Rejects d)) := by
  have hloop : linkEmulator (LinkRequest.linkDto u ds) =
      forM (ds.map Json.str) fun j => linkDevice (some (.str u)) (some j) := rfl
  rw [hloop]
  clear hloop
  induction ds generalizing s with
  | nil =>
    rw [List.map_nil, List.forM_nil]
    exact .pure (.inl ⟨rfl, .nil u _⟩)
  | cons d ds ih =>
    rw [List.map_cons, List.forM_cons]
    refine .bind ((linkDevice_post u d s).mono fun r s₁ h => ?_)
    rcases h with ⟨rfl, hlinked⟩ | ⟨⟨e, rfl⟩, hwhy⟩
    · refine (ih s₁).mono fun r s' hrest => ?_
      rcases hrest with ⟨hr, hrest⟩ | ⟨hr, hrest⟩
      · exact .inl ⟨hr, hlinked.cons hrest⟩
      · refine .inr ⟨hr, fun hroot hne => ?_⟩
        have hroot' : s₁.tables.Rooted u := by
          unfold Tables.Rooted
          rw [hlinked.accounts]
          exact hroot
        obtain ⟨done, d', rest, hsplit, hdone, hstop⟩ :=
          hrest hroot' fun h => hne (List.mem_cons_of_mem _ h)
        exact ⟨d :: done, d', rest, by rw [hsplit]; rfl, hlinked.cons hdone, hstop⟩
    · refine .inr ⟨⟨e, rfl⟩, fun hroot hne => ?_⟩
      obtain ⟨hsame, hstop⟩ := hwhy hroot fun hd => hne (hd ▸ List.mem_cons_self)
      refine ⟨[], d, ds, rfl, ?_, ?_⟩
      · rw [hsame]
        exact .nil u _
      · rw [hsame]
        exact hstop

/-- **Linking is a sequence of whole links.** If `linkEmulator` returns, every
device of the list has been linked. If it throws, then, for a user with a root
account and ids that are not empty, a prefix of the list has been linked, the
next device is REGISTERED or unknown, and nothing else has changed. -/
theorem linked_in_order {u : String} {ds : List String} {s s' : Server} {r : Except Rejection Unit}
    (h : (EmulatorService.linkEmulator (LinkRequest.linkDto u ds)).Ends s r s') :
    (r = .ok () → Linked u s.tables ds s'.tables) ∧
      (s.tables.Rooted u → "" ∉ ds → ∀ e, r = .error e → ∃ done d rest,
        ds = done ++ d :: rest ∧ Linked u s.tables done s'.tables ∧ s'.tables.Rejects d) := by
  rcases linkEmulator_post u ds s r s' h with ⟨hr, hlinked⟩ | ⟨⟨e, hr⟩, hstop⟩
  · refine ⟨fun _ => hlinked, fun _ _ e he => ?_⟩
    rw [hr] at he
    cases he
  · refine ⟨fun hok => ?_, fun hroot hne _ _ => hstop hroot hne⟩
    rw [hr] at hok
    cases hok

/-- A free device and then one that is linked already. -/
theorem linked_in_order_two :
    ∃ s', (∃ e, (EmulatorService.linkEmulator (LinkRequest.linkDto "u" ["d", "e"])).Ends
        Sample.server (.error e) s') ∧
      ∃ done d rest, ["d", "e"] = done ++ d :: rest ∧ Linked "u" Sample.server.tables done s'.tables ∧
        s'.tables.Rejects d := by
  have hrun : ((EmulatorService.linkEmulator (LinkRequest.linkDto "u" ["d", "e"])).run
      (["", "l", "", "p", "", ""].map Sample.input) Sample.server).any (fun o => !o.1.toBool) = true := by
    decide +kernel
  obtain ⟨⟨r, s'⟩, ho, hthrows⟩ := (Option.any_eq_true _ _).1 hrun
  cases r with
  | ok a => cases hthrows
  | error e =>
    have hends := Prog.ends_of_run ho
    have hroot : Sample.server.tables.Rooted "u" :=
      ⟨⟨"u-root", some "u", "root", true, true, "1", none⟩, by decide, rfl, rfl⟩
    exact ⟨s', ⟨e, hends⟩, (linked_in_order hends).2 hroot (by decide) e rfl⟩

/-- A request for a free device and one that is linked already throws, and
leaves the first one linked. -/
theorem link_not_atomic :
    ¬ ∀ (s s' : Server) (u : String) (ds : List String) (r : Except Rejection Unit), Reachable s →
      (∃ user ∈ s.tables.users, user.id = u) →
      (EmulatorService.linkEmulator (LinkRequest.linkDto u ds)).Ends s r s' →
      (∀ e, r = .error e → s'.tables.emulators = s.tables.emulators ∧
        s'.tables.userEmulators = s.tables.userEmulators ∧
        s'.tables.accountEmulators = s.tables.accountEmulators) ∧
      (r = .ok () → ∀ d ∈ ds, (∃ e ∈ s'.tables.emulators, e.device_id = d ∧ e.state = .REGISTERED) ∧
        ∃ l ∈ s'.tables.active d, l ∉ s.tables.userEmulators ∧ l.user = some u ∧
          ∃ a ∈ s'.tables.accountEmulators, a.userEmulator = some l.id ∧
            ∃ root ∈ s'.tables.accounts, a.account = some root.id ∧ root.user = some u ∧
              root.is_admin = true) := by
  intro hall
  have hrun : ((playAll (Sample.history ++ []) Sample.seeded).any fun s =>
      decide ("u" ∈ s.tables.users.map Users.id) &&
        ((EmulatorService.linkEmulator (LinkRequest.linkDto "u" ["d", "e"])).run
          (["", "l", "", "p", "", ""].map Sample.input) s).any fun o =>
            !o.1.toBool && decide (o.2.tables.userEmulators ≠ s.tables.userEmulators)) = true := by
    decide +kernel
  obtain ⟨s, hs, hrun⟩ := (Option.any_eq_true _ _).1 hrun
  obtain ⟨huser, hrun⟩ := (Bool.and_eq_true_iff.1 hrun)
  obtain ⟨⟨r, s'⟩, ho, hend⟩ := (Option.any_eq_true _ _).1 hrun
  obtain ⟨hthrows, hchanged⟩ := (Bool.and_eq_true_iff.1 hend)
  cases r with
  | ok a => cases hthrows
  | error e =>
    have hsame := (hall s s' "u" ["d", "e"] (.error e) (Sample.reachable hs)
      (List.mem_map.1 (of_decide_eq_true huser)) (Prog.ends_of_run ho)).1 e rfl
    exact of_decide_eq_true hchanged hsame.2.1

end Damaru
