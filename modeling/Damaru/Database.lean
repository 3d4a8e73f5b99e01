import Damaru.Entities
import Damaru.Table.Rows
import Mathlib.Data.List.Nodup

/-!
# The database

The tables, the constraints that the entities declare on them, and what
`ON DELETE CASCADE` leaves. `Database` carries its constraints, so a state
that violates one cannot be built.
-/

namespace Damaru

structure Tables where
  roles : List Role
  users : List Users
  accounts : List Account
  emulators : List Emulator
  userEmulators : List UserEmulators
  accountEmulators : List AccountEmulators
  emulatorConnections : List EmulatorConnections
  activityLogs : List ActivityLog

/-- A foreign key: null, or one of the keys. -/
def refers (keys : List String) (k : Option String) : Bool := k.all (· ∈ keys)

@[simp] theorem refers_none (keys : List String) : refers keys none = true := rfl

@[simp] theorem refers_some {keys : List String} {k : String} :
    refers keys (some k) = true ↔ k ∈ keys := by simp [refers]

namespace Tables

/-- Primary keys and unique columns. -/
structure Keys (t : Tables) : Prop where
  roles : (t.roles.map Role.id).Nodup
  roleNames : (t.roles.map Role.name).Nodup
  users : (t.users.map Users.id).Nodup
  emails : (t.users.map Users.email).Nodup
  accounts : (t.accounts.map Account.id).Nodup
  emulators : (t.emulators.map Emulator.device_id).Nodup
  userEmulators : (t.userEmulators.map UserEmulators.id).Nodup
  accountEmulators : (t.accountEmulators.map AccountEmulators.id).Nodup
  pairs : (t.accountEmulators.filterMap AccountEmulators.pair).Nodup
  emulatorConnections : (t.emulatorConnections.map EmulatorConnections.id).Nodup
  activityLogs : (t.activityLogs.map ActivityLog.id).Nodup

/-- Foreign keys. -/
structure References (t : Tables) : Prop where
  role : ∀ u ∈ t.users, refers (t.roles.map Role.id) u.role = true
  account_user : ∀ a ∈ t.accounts, refers (t.users.map Users.id) a.user = true
  link_user : ∀ l ∈ t.userEmulators, refers (t.users.map Users.id) l.user = true
  link_device : ∀ l ∈ t.userEmulators, refers (t.emulators.map Emulator.device_id) l.device = true
  account : ∀ a ∈ t.accountEmulators, refers (t.accounts.map Account.id) a.account = true
  link : ∀ a ∈ t.accountEmulators, refers (t.userEmulators.map UserEmulators.id) a.userEmulator = true
  assignment : ∀ c ∈ t.emulatorConnections,
    refers (t.accountEmulators.map AccountEmulators.id) c.accountEmulators = true

structure Integrity (t : Tables) : Prop extends Keys t, References t

instance (t : Tables) : Decidable t.Keys :=
  decidable_of_iff
    ((t.roles.map Role.id).Nodup ∧ (t.roles.map Role.name).Nodup ∧
      (t.users.map Users.id).Nodup ∧ (t.users.map Users.email).Nodup ∧
      (t.accounts.map Account.id).Nodup ∧ (t.emulators.map Emulator.device_id).Nodup ∧
      (t.userEmulators.map UserEmulators.id).Nodup ∧
      (t.accountEmulators.map AccountEmulators.id).Nodup ∧
      (t.accountEmulators.filterMap AccountEmulators.pair).Nodup ∧
      (t.emulatorConnections.map EmulatorConnections.id).Nodup ∧
      (t.activityLogs.map ActivityLog.id).Nodup)
    ⟨fun ⟨a, b, c, d, e, f, g, h, i, j, k⟩ => ⟨a, b, c, d, e, f, g, h, i, j, k⟩,
      fun ⟨a, b, c, d, e, f, g, h, i, j, k⟩ => ⟨a, b, c, d, e, f, g, h, i, j, k⟩⟩

instance (t : Tables) : Decidable t.References :=
  decidable_of_iff
    ((∀ u ∈ t.users, refers (t.roles.map Role.id) u.role = true) ∧
      (∀ a ∈ t.accounts, refers (t.users.map Users.id) a.user = true) ∧
      (∀ l ∈ t.userEmulators, refers (t.users.map Users.id) l.user = true) ∧
      (∀ l ∈ t.userEmulators, refers (t.emulators.map Emulator.device_id) l.device = true) ∧
      (∀ a ∈ t.accountEmulators, refers (t.accounts.map Account.id) a.account = true) ∧
      (∀ a ∈ t.accountEmulators,
        refers (t.userEmulators.map UserEmulators.id) a.userEmulator = true) ∧
      (∀ c ∈ t.emulatorConnections,
        refers (t.accountEmulators.map AccountEmulators.id) c.accountEmulators = true))
    ⟨fun ⟨a, b, c, d, e, f, g⟩ => ⟨a, b, c, d, e, f, g⟩,
      fun ⟨a, b, c, d, e, f, g⟩ => ⟨a, b, c, d, e, f, g⟩⟩

instance (t : Tables) : Decidable t.Integrity :=
  decidable_of_iff (t.Keys ∧ t.References) ⟨fun ⟨k, r⟩ => ⟨k, r⟩, fun h => ⟨h.1, h.2⟩⟩

/-- The generated ids of all rows. -/
def ids (t : Tables) : List String :=
  t.users.map Users.id ++ (t.accounts.map Account.id ++ (t.userEmulators.map UserEmulators.id ++
    (t.accountEmulators.map AccountEmulators.id ++
      (t.emulatorConnections.map EmulatorConnections.id ++ t.activityLogs.map ActivityLog.id))))

theorem account_id_mem {t : Tables} {a : Account} (h : a ∈ t.accounts) : a.id ∈ t.ids := by
  simp only [ids, List.mem_append]
  exact .inr (.inl (List.mem_map_of_mem h))

theorem userEmulator_id_mem {t : Tables} {l : UserEmulators} (h : l ∈ t.userEmulators) :
    l.id ∈ t.ids := by
  simp only [ids, List.mem_append]
  exact .inr (.inr (.inl (List.mem_map_of_mem h)))

theorem accountEmulator_id_mem {t : Tables} {a : AccountEmulators} (h : a ∈ t.accountEmulators) :
    a.id ∈ t.ids := by
  simp only [ids, List.mem_append]
  exact .inr (.inr (.inr (.inl (List.mem_map_of_mem h))))

theorem emulatorConnection_id_mem {t : Tables} {c : EmulatorConnections}
    (h : c ∈ t.emulatorConnections) : c.id ∈ t.ids := by
  simp only [ids, List.mem_append]
  exact .inr (.inr (.inr (.inr (.inl (List.mem_map_of_mem h)))))

/-! ## Joins -/

def user? (t : Tables) (k : Option String) : Option Users :=
  k.bind fun k => t.users.find? fun u => u.id = k

def account? (t : Tables) (k : Option String) : Option Account :=
  k.bind fun k => t.accounts.find? fun a => a.id = k

def emulator? (t : Tables) (k : Option String) : Option Emulator :=
  k.bind fun k => t.emulators.find? fun e => e.device_id = k

def userEmulator? (t : Tables) (k : Option String) : Option UserEmulators :=
  k.bind fun k => t.userEmulators.find? fun l => l.id = k

def accountEmulator? (t : Tables) (k : Option String) : Option AccountEmulators :=
  k.bind fun k => t.accountEmulators.find? fun a => a.id = k

def role? (t : Tables) (k : Option String) : Option Role :=
  k.bind fun k => t.roles.find? fun r => r.id = k

theorem Keys.accountEmulator?_eq {t : Tables} (h : t.Keys) {a : AccountEmulators}
    (ha : a ∈ t.accountEmulators) : t.accountEmulator? (some a.id) = some a :=
  Table.find?_key h.accountEmulators ha

theorem Keys.userEmulator?_eq {t : Tables} (h : t.Keys) {l : UserEmulators}
    (hl : l ∈ t.userEmulators) : t.userEmulator? (some l.id) = some l :=
  Table.find?_key h.userEmulators hl

theorem Keys.emulator?_eq {t : Tables} (h : t.Keys) {e : Emulator} (he : e ∈ t.emulators) :
    t.emulator? (some e.device_id) = some e := Table.find?_key h.emulators he

theorem Keys.account?_eq {t : Tables} (h : t.Keys) {a : Account} (ha : a ∈ t.accounts) :
    t.account? (some a.id) = some a := Table.find?_key h.accounts ha

theorem Keys.user?_eq {t : Tables} (h : t.Keys) {u : Users} (hu : u ∈ t.users) :
    t.user? (some u.id) = some u := Table.find?_key h.users hu

/-! ## Cascades -/

/-- The tables less every row whose foreign key dangles. -/
def cascade (t : Tables) : Tables :=
  let users := t.users.filter fun u => refers (t.roles.map Role.id) u.role
  let accounts := t.accounts.filter fun a => refers (users.map Users.id) a.user
  let userEmulators := t.userEmulators.filter fun l =>
    refers (users.map Users.id) l.user && refers (t.emulators.map Emulator.device_id) l.device
  let accountEmulators := t.accountEmulators.filter fun a =>
    refers (accounts.map Account.id) a.account &&
      refers (userEmulators.map UserEmulators.id) a.userEmulator
  let emulatorConnections := t.emulatorConnections.filter fun c =>
    refers (accountEmulators.map AccountEmulators.id) c.accountEmulators
  { t with users, accounts, userEmulators, accountEmulators, emulatorConnections }

theorem cascade_references (t : Tables) : t.cascade.References where
  role _ h := (List.mem_filter.1 h).2
  account_user _ h := (List.mem_filter.1 h).2
  link_user _ h := (Bool.and_eq_true_iff.1 (List.mem_filter.1 h).2).1
  link_device _ h := (Bool.and_eq_true_iff.1 (List.mem_filter.1 h).2).2
  account _ h := (Bool.and_eq_true_iff.1 (List.mem_filter.1 h).2).1
  link _ h := (Bool.and_eq_true_iff.1 (List.mem_filter.1 h).2).2
  assignment _ h := (List.mem_filter.1 h).2

theorem Keys.cascade {t : Tables} (h : t.Keys) : t.cascade.Keys where
  roles := h.roles
  roleNames := h.roleNames
  users := h.users.sublist (List.filter_sublist.map _)
  emails := h.emails.sublist (List.filter_sublist.map _)
  accounts := h.accounts.sublist (List.filter_sublist.map _)
  emulators := h.emulators
  userEmulators := h.userEmulators.sublist (List.filter_sublist.map _)
  accountEmulators := h.accountEmulators.sublist (List.filter_sublist.map _)
  pairs := h.pairs.sublist (List.filter_sublist.filterMap _)
  emulatorConnections := h.emulatorConnections.sublist (List.filter_sublist.map _)
  activityLogs := h.activityLogs

theorem Keys.filter_accountEmulators {t : Tables} (h : t.Keys) (p : AccountEmulators → Bool) :
    ({ t with accountEmulators := t.accountEmulators.filter p } : Tables).Keys :=
  { h with
    accountEmulators := h.accountEmulators.sublist (List.filter_sublist.map _)
    pairs := h.pairs.sublist (List.filter_sublist.filterMap _) }

theorem Keys.cascade_integrity {t : Tables} (h : t.Keys) : t.cascade.Integrity :=
  ⟨h.cascade, t.cascade_references⟩

theorem References.cascade_eq {t : Tables} (h : t.References) : t.cascade = t := by
  have hu : t.users.filter (fun u => refers (t.roles.map Role.id) u.role) = t.users :=
    List.filter_eq_self.2 h.role
  have ha : t.accounts.filter (fun a => refers (t.users.map Users.id) a.user) = t.accounts :=
    List.filter_eq_self.2 h.account_user
  have hl : t.userEmulators.filter (fun l => refers (t.users.map Users.id) l.user &&
      refers (t.emulators.map Emulator.device_id) l.device) = t.userEmulators :=
    List.filter_eq_self.2 fun l hl => by rw [h.link_user l hl, h.link_device l hl]; rfl
  have hae : t.accountEmulators.filter (fun a => refers (t.accounts.map Account.id) a.account &&
      refers (t.userEmulators.map UserEmulators.id) a.userEmulator) = t.accountEmulators :=
    List.filter_eq_self.2 fun a ha => by rw [h.account a ha, h.link a ha]; rfl
  have hc : t.emulatorConnections.filter (fun c =>
      refers (t.accountEmulators.map AccountEmulators.id) c.accountEmulators) =
      t.emulatorConnections := List.filter_eq_self.2 h.assignment
  unfold Tables.cascade
  simp only [hu, ha, hl, hae, hc]

/-- Deleting assignments deletes their connections, and nothing else. -/
theorem References.cascade_accountEmulators {t : Tables} (h : t.References)
    {l : List AccountEmulators} (hl : ∀ a ∈ l, a ∈ t.accountEmulators) :
    ({ t with accountEmulators := l } : Tables).cascade =
      { t with
        accountEmulators := l
        emulatorConnections := t.emulatorConnections.filter fun c =>
          refers (l.map AccountEmulators.id) c.accountEmulators } := by
  have hu : t.users.filter (fun u => refers (t.roles.map Role.id) u.role) = t.users :=
    List.filter_eq_self.2 h.role
  have ha : t.accounts.filter (fun a => refers (t.users.map Users.id) a.user) = t.accounts :=
    List.filter_eq_self.2 h.account_user
  have hue : t.userEmulators.filter (fun l => refers (t.users.map Users.id) l.user &&
      refers (t.emulators.map Emulator.device_id) l.device) = t.userEmulators :=
    List.filter_eq_self.2 fun l hl => by rw [h.link_user l hl, h.link_device l hl]; rfl
  have hae : l.filter (fun a => refers (t.accounts.map Account.id) a.account &&
      refers (t.userEmulators.map UserEmulators.id) a.userEmulator) = l :=
    List.filter_eq_self.2 fun a ha => by rw [h.account a (hl a ha), h.link a (hl a ha)]; rfl
  unfold Tables.cascade
  simp only [hu, ha, hue, hae]

/-- Deleting devices leaves the users and the accounts, and deletes the links
of the devices. -/
theorem References.cascade_emulators {t : Tables} (h : t.References) (l : List Emulator) :
    ({ t with emulators := l } : Tables).cascade.users = t.users ∧
      ({ t with emulators := l } : Tables).cascade.accounts = t.accounts ∧
      ({ t with emulators := l } : Tables).cascade.userEmulators =
        t.userEmulators.filter fun r => refers (l.map Emulator.device_id) r.device := by
  have hu : t.users.filter (fun u => refers (t.roles.map Role.id) u.role) = t.users :=
    List.filter_eq_self.2 h.role
  have ha : t.accounts.filter (fun a => refers (t.users.map Users.id) a.user) = t.accounts :=
    List.filter_eq_self.2 h.account_user
  unfold Tables.cascade
  simp only [hu, ha, true_and]
  exact List.filter_congr fun r hr => by rw [h.link_user r hr, Bool.true_and]

/-- Deleting accounts leaves the users and the links, and deletes the
assignments to the accounts. -/
theorem References.cascade_accounts {t : Tables} (h : t.References) {l : List Account}
    (hl : ∀ a ∈ l, a ∈ t.accounts) :
    ({ t with accounts := l } : Tables).cascade.users = t.users ∧
      ({ t with accounts := l } : Tables).cascade.accounts = l ∧
      ({ t with accounts := l } : Tables).cascade.userEmulators = t.userEmulators ∧
      ({ t with accounts := l } : Tables).cascade.accountEmulators =
        t.accountEmulators.filter fun a => refers (l.map Account.id) a.account := by
  have hu : t.users.filter (fun u => refers (t.roles.map Role.id) u.role) = t.users :=
    List.filter_eq_self.2 h.role
  have ha : l.filter (fun a => refers (t.users.map Users.id) a.user) = l :=
    List.filter_eq_self.2 fun a ha => h.account_user a (hl a ha)
  have hue : t.userEmulators.filter (fun r => refers (t.users.map Users.id) r.user &&
      refers (t.emulators.map Emulator.device_id) r.device) = t.userEmulators :=
    List.filter_eq_self.2 fun r hr => by rw [h.link_user r hr, h.link_device r hr]; rfl
  unfold Tables.cascade
  simp only [hu, ha, hue, true_and]
  exact List.filter_congr fun a ha => by rw [h.link a ha, Bool.and_true]

/-- A deletion adds no row. -/
theorem cascade_subset (t : Tables) :
    t.cascade.users ⊆ t.users ∧ t.cascade.accounts ⊆ t.accounts ∧
      t.cascade.userEmulators ⊆ t.userEmulators ∧
      t.cascade.accountEmulators ⊆ t.accountEmulators :=
  ⟨List.filter_subset_self _, List.filter_subset_self _, List.filter_subset_self _,
    List.filter_subset_self _⟩

/-- Deleting a user deletes its links, and no others. -/
theorem References.cascade_users_userEmulators {t : Tables} (h : t.References) (u : String) :
    ({ t with users := t.users.filter fun a => !decide (a.id = u) } : Tables).cascade.userEmulators =
      t.userEmulators.filter fun l => decide (l.user ≠ some u) := by
  unfold Tables.cascade
  refine List.filter_congr fun l hl => ?_
  have hd := h.link_device l hl
  have hu := h.link_user l hl
  simp only [hd, Bool.and_true]
  cases hk : l.user with
  | none => simp
  | some k =>
    rw [hk, refers_some, List.mem_map] at hu
    obtain ⟨v, hv, rfl⟩ := hu
    rw [Bool.eq_iff_iff, refers_some, List.mem_map, decide_eq_true_eq]
    constructor
    · intro ⟨w, hw, hwv⟩ heq
      have hne := (List.mem_filter.1 (List.mem_filter.1 hw).1).2
      rw [Bool.not_eq_true', decide_eq_false_iff_not] at hne
      exact hne (hwv.trans (Option.some.inj heq))
    · intro hne
      refine ⟨v, List.mem_filter.2 ⟨List.mem_filter.2 ⟨hv, ?_⟩, h.role v hv⟩, rfl⟩
      rw [Bool.not_eq_true', decide_eq_false_iff_not]
      exact fun e => hne (by rw [e])

/-! ## Rows that the database accepts -/

open Table

namespace Integrity

theorem append_link {t : Tables} (h : t.Integrity) {l : UserEmulators} (hid : l.id ∉ t.ids)
    (hu : refers (t.users.map Users.id) l.user = true)
    (hd : refers (t.emulators.map Emulator.device_id) l.device = true) :
    ({ t with userEmulators := t.userEmulators ++ [l] } : Tables).Integrity where
  toKeys := { h.toKeys with
    userEmulators := by
      rw [List.map_append, List.nodup_append]
      refine ⟨h.userEmulators, List.nodup_singleton _, fun k hk k' hk' heq => ?_⟩
      obtain ⟨r, hr, rfl⟩ := List.mem_map.1 hk
      rw [List.map_singleton, List.mem_singleton] at hk'
      exact hid (hk' ▸ heq ▸ userEmulator_id_mem hr) }
  toReferences := { h.toReferences with
    link_user := fun r hr => by
      rcases List.mem_append.1 hr with hr | hr
      · exact h.link_user r hr
      · rw [List.mem_singleton.1 hr]
        exact hu
    link_device := fun r hr => by
      rcases List.mem_append.1 hr with hr | hr
      · exact h.link_device r hr
      · rw [List.mem_singleton.1 hr]
        exact hd
    link := fun a ha => by
      have href := h.link a ha
      cases hk : a.userEmulator with
      | none => rfl
      | some k =>
        rw [hk, refers_some] at href
        rw [refers_some, List.map_append]
        exact List.mem_append_left _ href }

theorem append_assignment {t : Tables} (h : t.Integrity) {a : AccountEmulators}
    (hid : a.id ∉ t.ids) (ha : refers (t.accounts.map Account.id) a.account = true)
    (hl : refers (t.userEmulators.map UserEmulators.id) a.userEmulator = true)
    (hpair : ∀ k, a.pair = some k → k ∉ t.accountEmulators.filterMap AccountEmulators.pair) :
    ({ t with accountEmulators := t.accountEmulators ++ [a] } : Tables).Integrity where
  toKeys := { h.toKeys with
    accountEmulators := by
      rw [List.map_append, List.nodup_append]
      refine ⟨h.accountEmulators, List.nodup_singleton _, fun k hk k' hk' heq => ?_⟩
      obtain ⟨r, hr, rfl⟩ := List.mem_map.1 hk
      rw [List.map_singleton, List.mem_singleton] at hk'
      exact hid (hk' ▸ heq ▸ accountEmulator_id_mem hr)
    pairs := by
      rw [List.filterMap_append, List.nodup_append]
      refine ⟨h.pairs, ?_, fun k hk k' hk' heq => ?_⟩
      · cases hp : a.pair <;> simp [hp]
      · obtain ⟨a', ha', hak⟩ := List.mem_filterMap.1 hk'
        rw [List.mem_singleton.1 ha'] at hak
        exact hpair k' hak (heq ▸ hk) }
  toReferences := { h.toReferences with
    account := fun b hb => by
      rcases List.mem_append.1 hb with hb | hb
      · exact h.account b hb
      · rw [List.mem_singleton.1 hb]
        exact ha
    link := fun b hb => by
      rcases List.mem_append.1 hb with hb | hb
      · exact h.link b hb
      · rw [List.mem_singleton.1 hb]
        exact hl
    assignment := fun c hc => by
      have href := h.assignment c hc
      cases hk : c.accountEmulators with
      | none => rfl
      | some k =>
        rw [hk, refers_some] at href
        rw [refers_some, List.map_append]
        exact List.mem_append_left _ href }

theorem append_connection {t : Tables} (h : t.Integrity) {c : EmulatorConnections}
    (hid : c.id ∉ t.ids)
    (hc : refers (t.accountEmulators.map AccountEmulators.id) c.accountEmulators = true) :
    ({ t with emulatorConnections := t.emulatorConnections ++ [c] } : Tables).Integrity where
  toKeys := { h.toKeys with
    emulatorConnections := by
      rw [List.map_append, List.nodup_append]
      refine ⟨h.emulatorConnections, List.nodup_singleton _, fun k hk k' hk' heq => ?_⟩
      obtain ⟨r, hr, rfl⟩ := List.mem_map.1 hk
      rw [List.map_singleton, List.mem_singleton] at hk'
      exact hid (hk' ▸ heq ▸ emulatorConnection_id_mem hr) }
  toReferences := { h.toReferences with
    assignment := fun r hr => by
      rcases List.mem_append.1 hr with hr | hr
      · exact h.assignment r hr
      · rw [List.mem_singleton.1 hr]
        exact hc }

/-- Setting columns of connections that keep their keys. -/
theorem set_connections {t : Tables} (h : t.Integrity) {p : EmulatorConnections → Bool}
    {f : EmulatorConnections → EmulatorConnections}
    (hf : ∀ c, (f c).id = c.id ∧ (f c).accountEmulators = c.accountEmulators) :
    ({ t with emulatorConnections := updateWhere p f t.emulatorConnections } : Tables).Integrity where
  toKeys := { h.toKeys with
    emulatorConnections := by
      rw [map_updateWhere fun c _ => (hf c).1]
      exact h.emulatorConnections }
  toReferences := { h.toReferences with
    assignment := fun c hc => by
      rcases mem_updateWhere.1 hc with ⟨b, hb, -, rfl⟩ | ⟨hc, -⟩
      · rw [(hf b).2]
        exact h.assignment b hb
      · exact h.assignment c hc }

/-- A device with a new key. -/
theorem insert_emulator {t : Tables} (h : t.Integrity) {e : Emulator}
    (hid : ∀ r ∈ t.emulators, r.device_id ≠ e.device_id) :
    ({ t with emulators := t.emulators ++ [e] } : Tables).Integrity where
  toKeys := { h.toKeys with
    emulators := by
      rw [List.map_append, List.nodup_append]
      refine ⟨h.emulators, List.nodup_singleton _, fun k hk k' hk' heq => ?_⟩
      obtain ⟨r, hr, rfl⟩ := List.mem_map.1 hk
      rw [List.map_singleton, List.mem_singleton] at hk'
      exact hid r hr (heq.trans hk') }
  toReferences := { h.toReferences with
    link_device := fun l hl => by
      have hbefore := h.link_device l hl
      cases hdevice : l.device with
      | none => rfl
      | some k =>
        rw [hdevice, refers_some] at hbefore
        rw [refers_some, List.map_append]
        exact List.mem_append_left _ hbefore }

/-- Setting columns of devices that keep their keys. -/
theorem set_emulators_of_mem {t : Tables} (h : t.Integrity) {p : Emulator → Bool}
    {f : Emulator → Emulator} (hf : ∀ e ∈ t.emulators, p e = true → (f e).device_id = e.device_id) :
    ({ t with emulators := updateWhere p f t.emulators } : Tables).Integrity where
  toKeys := { h.toKeys with
    emulators := by
      rw [map_updateWhere_of_mem hf]
      exact h.emulators }
  toReferences := { h.toReferences with
    link_device := fun l hl => by
      rw [map_updateWhere_of_mem hf]
      exact h.link_device l hl }

theorem set_emulators {t : Tables} (h : t.Integrity) {p : Emulator → Bool} {f : Emulator → Emulator}
    (hf : ∀ e, (f e).device_id = e.device_id) :
    ({ t with emulators := updateWhere p f t.emulators } : Tables).Integrity :=
  h.set_emulators_of_mem fun e _ _ => hf e

/-- Setting columns of accounts that keep their keys. -/
theorem set_accounts {t : Tables} (h : t.Integrity) {p : Account → Bool} {f : Account → Account}
    (hf : ∀ a, (f a).id = a.id ∧ (f a).user = a.user) :
    ({ t with accounts := updateWhere p f t.accounts } : Tables).Integrity := by
  have hid : (updateWhere p f t.accounts).map Account.id = t.accounts.map Account.id :=
    map_updateWhere fun a _ => (hf a).1
  refine ⟨{ h.toKeys with accounts := hid ▸ h.accounts },
    { h.toReferences with account_user := fun a ha => ?_, account := fun d hd => hid ▸ h.account d hd }⟩
  rcases mem_updateWhere.1 ha with ⟨b, hb, -, rfl⟩ | ⟨ha, -⟩
  · rw [(hf b).2]
    exact h.account_user b hb
  · exact h.account_user a ha

/-- Setting columns of links that keep their keys. -/
theorem set_links {t : Tables} (h : t.Integrity) {p : UserEmulators → Bool}
    {f : UserEmulators → UserEmulators}
    (hf : ∀ l, (f l).id = l.id ∧ (f l).user = l.user ∧ (f l).device = l.device) :
    ({ t with userEmulators := updateWhere p f t.userEmulators } : Tables).Integrity := by
  have hid : (updateWhere p f t.userEmulators).map UserEmulators.id =
      t.userEmulators.map UserEmulators.id := map_updateWhere fun l _ => (hf l).1
  refine ⟨{ h.toKeys with userEmulators := hid ▸ h.userEmulators },
    { h.toReferences with
      link_user := fun l hl => ?_, link_device := fun l hl => ?_, link := fun a ha => ?_ }⟩
  · rcases mem_updateWhere.1 hl with ⟨b, hb, -, rfl⟩ | ⟨hl, -⟩
    · rw [(hf b).2.1]
      exact h.link_user b hb
    · exact h.link_user l hl
  · rcases mem_updateWhere.1 hl with ⟨b, hb, -, rfl⟩ | ⟨hl, -⟩
    · rw [(hf b).2.2]
      exact h.link_device b hb
    · exact h.link_device l hl
  · exact hid ▸ h.link a ha

/-- Making assignments ACTIVE. -/
theorem set_status {t : Tables} (h : t.Integrity) (p : AccountEmulators → Bool) :
    ({ t with accountEmulators :=
      updateWhere p (fun a => { a with status := .ACTIVE }) t.accountEmulators } : Tables).Integrity := by
  have hid : (updateWhere p (fun a => { a with status := .ACTIVE }) t.accountEmulators).map
      AccountEmulators.id = t.accountEmulators.map AccountEmulators.id := map_updateWhere fun _ _ => rfl
  have hpair : (updateWhere p (fun a => { a with status := .ACTIVE }) t.accountEmulators).filterMap
      AccountEmulators.pair = t.accountEmulators.filterMap AccountEmulators.pair :=
    filterMap_updateWhere fun _ _ => rfl
  refine ⟨{ h.toKeys with accountEmulators := hid ▸ h.accountEmulators, pairs := hpair ▸ h.pairs },
    { h.toReferences with account := fun a ha => ?_, link := fun a ha => ?_, assignment := fun c hc => ?_ }⟩
  · rcases mem_updateWhere.1 ha with ⟨b, hb, -, rfl⟩ | ⟨ha, -⟩
    · exact h.account b hb
    · exact h.account a ha
  · rcases mem_updateWhere.1 ha with ⟨b, hb, -, rfl⟩ | ⟨ha, -⟩
    · exact h.link b hb
    · exact h.link a ha
  · exact hid ▸ h.assignment c hc

end Integrity

end Tables

/-- Tables that satisfy their constraints. -/
structure Database extends Tables where
  integrity : toTables.Integrity

@[ext] theorem Database.ext' {d d' : Database} (h : d.toTables = d'.toTables) : d = d' := by
  cases d
  cases d'
  cases h
  rfl

end Damaru
