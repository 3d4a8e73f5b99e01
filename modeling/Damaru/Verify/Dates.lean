import Damaru.Async.Related
import Damaru.Common.Utils
import Damaru.Repository

/-!
# The same but for dates

Two servers store the same but for dates if their rows are the same once every
date is blanked; of the end of a link and of a connection only whether there is
one stays. The calls of the repositories on two such servers, at any two times,
have answers that are the same but for dates, and leave two such servers.
-/

namespace Damaru

open Async Table

/-- Selecting by what `e` leaves. -/
theorem filter_map_eq {α β : Type} {e : α → β} {q : β → Bool} {p : α → Bool} (h : ∀ a, q (e a) = p a)
    {l : List α} : (l.map e).filter q = (l.filter p).map e := by
  rw [List.filter_map]
  exact congrArg _ (List.filter_congr fun a _ => h a)

theorem scan_map_eq {α : Type} {rank : String → Nat} {key : α → String} {e : α → α}
    (h : ∀ a, key (e a) = key a) {l : List α} :
    Table.scan rank key (l.map e) = (Table.scan rank key l).map e := by
  unfold Table.scan
  refine (List.map_insertionSort _ _ e _ fun a _ b _ => ?_).symm
  rw [h, h]

theorem forall₂_of_map_eq {α β : Type} {e : α → β} {l l' : List α} (h : l.map e = l'.map e) :
    List.Forall₂ (fun a a' => e a = e a') l l' := by
  rw [← List.forall₂_map_left_iff (f := e) (R := fun b a' => b = e a'),
    ← List.forall₂_map_right_iff (f := e) (R := Eq)]
  exact List.forall₂_eq_eq_eq ▸ h

theorem map_eq_of_forall₂ {α β : Type} {e : α → β} {l l' : List α}
    (h : List.Forall₂ (fun a a' => e a = e a') l l') : l.map e = l'.map e := by
  rw [← List.forall₂_map_left_iff (f := e) (R := fun b a' => b = e a'),
    ← List.forall₂_map_right_iff (f := e) (R := Eq)] at h
  exact List.forall₂_eq_eq_eq ▸ h

/-- Computing with each of two lists that `e` finds no difference between. -/
theorem mapM_map_eq {α β γ δ ε : Type} {e : α → γ} {g : β → δ} {f f' : α → Except ε β}
    (hf : ∀ a a', e a = e a' → (f a).map g = (f' a').map g) {l l' : List α} (h : l.map e = l'.map e) :
    (l.mapM f).map (List.map g) = (l'.mapM f').map (List.map g) := by
  induction forall₂_of_map_eq h with
  | nil => rfl
  | @cons a a' l l' ha hl ih =>
    have hhead := hf a a' ha
    have htail := ih (map_eq_of_forall₂ hl)
    rw [List.mapM_cons, List.mapM_cons]
    cases hfa : f a <;> cases hfa' : f' a' <;> rw [hfa, hfa'] at hhead
    · exact congrArg Except.error (Except.error.inj hhead)
    · cases hhead
    · cases hhead
    · cases hfl : l.mapM f <;> cases hfl' : l'.mapM f' <;> rw [hfl, hfl'] at htail
      · exact congrArg Except.error (Except.error.inj htail)
      · cases htail
      · cases htail
      · exact congrArg Except.ok (congrArg₂ List.cons (Except.ok.inj hhead) (Except.ok.inj htail))

/-! ## Rows -/

def Account.timeless (a : Account) : Account := { a with last_login := none }

def UserEmulators.timeless (l : UserEmulators) : UserEmulators :=
  { l with expires_at := 0, linked_at := 0, unlinked_at := l.unlinked_at.map fun _ => 0 }

def EmulatorConnections.timeless (c : EmulatorConnections) : EmulatorConnections :=
  { c with connected_at := 0, disconnected_at := c.disconnected_at.map fun _ => 0 }

def ActivityLog.timeless (e : ActivityLog) : ActivityLog := { e with timestamp := 0 }

@[simp] theorem UserEmulators.timeless_active (l : UserEmulators) : l.timeless.active = l.active := by
  unfold active timeless
  cases l.unlinked_at <;> rfl

@[simp] theorem UserEmulators.timeless_timeless (l : UserEmulators) : l.timeless.timeless = l.timeless := by
  unfold timeless
  cases l.unlinked_at <;> rfl

@[simp] theorem EmulatorConnections.timeless_timeless (c : EmulatorConnections) :
    c.timeless.timeless = c.timeless := by
  unfold timeless
  cases c.disconnected_at <;> rfl

@[simp] theorem EmulatorConnections.timeless_open (c : EmulatorConnections) :
    c.timeless.disconnected_at.isNone = c.disconnected_at.isNone := by
  unfold timeless
  cases c.disconnected_at <;> rfl

namespace Tables

def timeless (t : Tables) : Tables where
  roles := t.roles
  users := t.users
  accounts := t.accounts.map Account.timeless
  emulators := t.emulators
  userEmulators := t.userEmulators.map UserEmulators.timeless
  accountEmulators := t.accountEmulators
  emulatorConnections := t.emulatorConnections.map EmulatorConnections.timeless
  activityLogs := t.activityLogs.map ActivityLog.timeless

variable (t : Tables)

@[simp] theorem timeless_accountIds : t.timeless.accounts.map Account.id = t.accounts.map Account.id := by
  show (t.accounts.map Account.timeless).map Account.id = _
  rw [List.map_map]
  rfl

@[simp] theorem timeless_userEmulatorIds :
    t.timeless.userEmulators.map UserEmulators.id = t.userEmulators.map UserEmulators.id := by
  show (t.userEmulators.map UserEmulators.timeless).map UserEmulators.id = _
  rw [List.map_map]
  rfl

@[simp] theorem timeless_emulatorConnectionIds : t.timeless.emulatorConnections.map EmulatorConnections.id =
    t.emulatorConnections.map EmulatorConnections.id := by
  show (t.emulatorConnections.map EmulatorConnections.timeless).map EmulatorConnections.id = _
  rw [List.map_map]
  rfl

@[simp] theorem timeless_activityLogIds :
    t.timeless.activityLogs.map ActivityLog.id = t.activityLogs.map ActivityLog.id := by
  show (t.activityLogs.map ActivityLog.timeless).map ActivityLog.id = _
  rw [List.map_map]
  rfl

@[simp] theorem timeless_ids : t.timeless.ids = t.ids := by
  unfold ids
  rw [timeless_accountIds, timeless_userEmulatorIds, timeless_emulatorConnectionIds,
    timeless_activityLogIds]
  rfl

/-- No constraint is on a date. -/
theorem timeless_integrity : t.timeless.Integrity ↔ t.Integrity := by
  have hkeys : t.timeless.Keys ↔ t.Keys := by
    constructor
    · intro h
      exact { h with
        accounts := t.timeless_accountIds ▸ h.accounts
        userEmulators := t.timeless_userEmulatorIds ▸ h.userEmulators
        emulatorConnections := t.timeless_emulatorConnectionIds ▸ h.emulatorConnections
        activityLogs := t.timeless_activityLogIds ▸ h.activityLogs }
    · intro h
      exact { h with
        accounts := t.timeless_accountIds.symm ▸ h.accounts
        userEmulators := t.timeless_userEmulatorIds.symm ▸ h.userEmulators
        emulatorConnections := t.timeless_emulatorConnectionIds.symm ▸ h.emulatorConnections
        activityLogs := t.timeless_activityLogIds.symm ▸ h.activityLogs }
  have hreferences : t.timeless.References ↔ t.References := by
    constructor
    · intro h
      exact { h with
        account_user := fun a ha => h.account_user a.timeless (List.mem_map_of_mem ha)
        link_user := fun l hl => h.link_user l.timeless (List.mem_map_of_mem hl)
        link_device := fun l hl => h.link_device l.timeless (List.mem_map_of_mem hl)
        account := t.timeless_accountIds ▸ h.account
        link := t.timeless_userEmulatorIds ▸ h.link
        assignment := fun c hc => h.assignment c.timeless (List.mem_map_of_mem hc) }
    · intro h
      exact { h with
        account_user := List.forall_mem_map.2 h.account_user
        link_user := List.forall_mem_map.2 h.link_user
        link_device := List.forall_mem_map.2 h.link_device
        account := t.timeless_accountIds.symm ▸ h.account
        link := t.timeless_userEmulatorIds.symm ▸ h.link
        assignment := List.forall_mem_map.2 h.assignment }
  exact ⟨fun h => ⟨hkeys.1 h.toKeys, hreferences.1 h.toReferences⟩,
    fun h => ⟨hkeys.2 h.toKeys, hreferences.2 h.toReferences⟩⟩

/-- What a deletion takes along does not depend on dates. -/
theorem timeless_cascade : t.cascade.timeless = t.timeless.cascade := by
  have hids : ∀ l : List Account, (l.map Account.timeless).map Account.id = l.map Account.id := fun l => by
    rw [List.map_map]
    rfl
  have hlinkIds : ∀ l : List UserEmulators,
      (l.map UserEmulators.timeless).map UserEmulators.id = l.map UserEmulators.id := fun l => by
    rw [List.map_map]
    rfl
  unfold Tables.cascade timeless
  dsimp only
  rw [filter_map_eq fun _ => rfl, filter_map_eq fun _ => rfl, hids, hlinkIds, filter_map_eq fun _ => rfl]
  rfl

/-! ## Joins -/

@[simp] theorem timeless_account? (k : Option String) :
    t.timeless.account? k = (t.account? k).map Account.timeless := by
  cases k with
  | none => rfl
  | some k => exact List.find?_map

@[simp] theorem timeless_userEmulator? (k : Option String) :
    t.timeless.userEmulator? k = (t.userEmulator? k).map UserEmulators.timeless := by
  cases k with
  | none => rfl
  | some k => exact List.find?_map

end Tables

/-! ## Servers -/

/-- The same input at another time. -/
def Ext.SameButDate (x x' : Ext) : Prop := ∃ now, x' = { x with now }

structure Server.SameButDates (s s' : Server) : Prop where
  platform : s'.platform = s.platform
  tables : s'.tables.timeless = s.tables.timeless
  issued : s'.issued = s.issued
  connections : s'.connections = s.connections
  emitted : s'.emitted = s.emitted

section Servers

variable {s s' : Server}

theorem Server.SameButDates.used (h : s.SameButDates s') : s'.used = s.used := by
  unfold Server.used
  rw [h.issued, ← s'.tables.timeless_ids, h.tables, Tables.timeless_ids]

theorem Server.SameButDates.fresh (h : s.SameButDates s') (x : Ext) (now : Date) :
    Ext.fresh { x with now } s' = x.fresh s := by
  unfold Ext.fresh
  rw [h.used]

theorem Server.SameButDates.commit (h : s.SameButDates s') {t t' : Tables} (ht : t'.timeless = t.timeless)
    (hi : t.Integrity) (hi' : t'.Integrity) : (s.commit t hi).SameButDates (s'.commit t' hi') :=
  ⟨h.platform, ht, h.used, h.connections, h.emitted⟩

end Servers

/-! ## Calls -/

/-- The two calls do the same but for dates at any two times, and `e` finds no
difference between their answers. -/
abbrev Svc.TimelessBy {α γ : Type} (e : α → γ) (p p' : Svc α) : Prop :=
  p.Related Ext.SameButDate Server.SameButDates (fun a a' => e a = e a') p'

/-- They have the same answer. -/
abbrev Svc.Timeless {α : Type} (p p' : Svc α) : Prop := p.Related Ext.SameButDate Server.SameButDates Eq p'

section Calls

variable {α β γ : Type}

theorem timeless_query {f f' : Ext → Server → Except Rejection α} {e : α → γ}
    (h : ∀ x now s s', s.SameButDates s' → (f x s).map e = (f' { x with now } s').map e) :
    Svc.TimelessBy e (query f) (query f') := by
  refine Prog.related_op fun x x' s s' hx hs => ?_
  obtain ⟨now, rfl⟩ := hx
  exact ⟨answers_of_map (h x now s s' hs), hs⟩

theorem timeless_sync {f : Server → Except Rejection α × Server} {e : α → γ}
    (h : ∀ s s', s.SameButDates s' → (f s).1.map e = (f s').1.map e ∧ (f s).2.SameButDates (f s').2) :
    Svc.TimelessBy e (sync f) (sync f) :=
  Prog.related_op fun _ _ s s' _ hs => ⟨answers_of_map (h s s' hs).1, (h s s' hs).2⟩

theorem timeless_statement {f f' : Ext → Server → Except Rejection (α × Tables)}
    (h : ∀ x now s s', s.SameButDates s' →
      (f x s).map (Prod.map id Tables.timeless) =
        (f' { x with now } s').map (Prod.map id Tables.timeless)) :
    Svc.Timeless (statement f) (statement f') := by
  refine Prog.related_op fun x x' s s' hx hs => ?_
  obtain ⟨now, rfl⟩ := hx
  have hsame := answers_of_map (h x now s s' hs)
  rcases hf : f x s with e₁ | ⟨a, t⟩ <;> rcases hf' : f' { x with now } s' with e₂ | ⟨a', t'⟩ <;>
    rw [hf, hf'] at hsame
  · exact ⟨hsame, hs⟩
  · exact hsame.elim
  · exact hsame.elim
  · obtain ⟨ha, ht⟩ : a = a' ∧ t.timeless = t'.timeless := Prod.mk.inj hsame
    dsimp only
    have hintegrity : t.Integrity ↔ t'.Integrity := by
      rw [← t.timeless_integrity, ht, Tables.timeless_integrity]
    by_cases hi : t.Integrity
    · rw [dif_pos hi, dif_pos (hintegrity.1 hi)]
      exact ⟨ha, hs.commit ht.symm hi (hintegrity.1 hi)⟩
    · rw [dif_neg hi, dif_neg (mt hintegrity.2 hi)]
      exact ⟨rfl, hs⟩

theorem timeless_ofExcept {r r' : Except Rejection α} {e : α → γ} (h : r.map e = r'.map e) :
    Svc.TimelessBy e (ofResult r) (ofResult r') :=
  Prog.related_ofExcept (answers_of_map h)

/-- Equal answers, and the same to follow. -/
theorem timeless_bind {p p' : Svc α} {f f' : α → Svc β} {R : β → β → Prop} (hp : Svc.Timeless p p')
    (hf : ∀ a, (f a).Related Ext.SameButDate Server.SameButDates R (f' a)) :
    (p >>= f).Related Ext.SameButDate Server.SameButDates R (p' >>= f') :=
  hp.bind fun a _ ha => ha ▸ hf a

/-- What was answered is dropped. -/
theorem timeless_drop {p p' : Svc α} {R : α → α → Prop}
    (hp : p.Related Ext.SameButDate Server.SameButDates R p') {b : β} :
    Svc.Timeless (do let _ ← p; return b) (do let _ ← p'; return b) :=
  hp.bind fun _ _ _ => .pure rfl

end Calls

/-! ## Repositories -/

namespace Repository

variable {α γ : Type}

/-- Blanking the dates of the tables is blanking those of the rows by `e`. -/
structure Erases (repo : Repository α) (e : α → α) : Prop where
  rows : ∀ t, repo.rows t.timeless = (repo.rows t).map e
  key : ∀ a, repo.key (e a) = repo.key a
  put : ∀ l t, (repo.put l t).timeless = repo.put (l.map e) t.timeless

variable {repo : Repository α} {e : α → α} {p : Tables → α → Bool}

theorem Erases.scan (h : repo.Erases e) (hp : ∀ t a, p t.timeless (e a) = p t a) (x : Ext) (t : Tables) :
    repo.scan p x t.timeless = (repo.scan p x t).map e := by
  unfold Repository.scan
  rw [h.rows, filter_map_eq (hp t), scan_map_eq h.key]

theorem Erases.scan_eq (h : repo.Erases e) (hp : ∀ t a, p t.timeless (e a) = p t a) {s s' : Server}
    (hs : s.SameButDates s') (x : Ext) (now : Date) :
    (repo.scan p { x with now } s'.tables).map e = (repo.scan p x s.tables).map e := by
  rw [← h.scan hp, ← h.scan hp, hs.tables]
  rfl

variable {β : Type} {r : Tables → α → β} {g : β → γ}

/-- What is returned for the rows of a scan. -/
theorem Erases.map_scan (h : repo.Erases e) (hp : ∀ t a, p t.timeless (e a) = p t a)
    (hr : ∀ t a, g (r t.timeless (e a)) = g (r t a)) {s s' : Server} (hs : s.SameButDates s') (x : Ext)
    (now : Date) : ((repo.scan p x s.tables).map (r s.tables)).map g =
      ((repo.scan p { x with now } s'.tables).map (r s'.tables)).map g := by
  have hall : ∀ (s : Server) (l : List α), (l.map (r s.tables)).map g =
      (l.map e).map fun a => g (r s.tables.timeless a) := by
    intro s l
    rw [List.map_map, List.map_map]
    exact List.map_congr_left fun a _ => (hr _ a).symm
  rw [hall, hall, h.scan_eq hp hs, hs.tables]

theorem Erases.head_scan (h : repo.Erases e) (hp : ∀ t a, p t.timeless (e a) = p t a)
    (hr : ∀ t a, g (r t.timeless (e a)) = g (r t a)) {s s' : Server} (hs : s.SameButDates s') (x : Ext)
    (now : Date) : ((repo.scan p x s.tables).head?.map (r s.tables)).map g =
      ((repo.scan p { x with now } s'.tables).head?.map (r s'.tables)).map g := by
  have hmap := congrArg List.head? (h.map_scan hp hr hs x now)
  rw [List.head?_map, List.head?_map, List.head?_map, List.head?_map] at hmap
  exact hmap

theorem Erases.find (h : repo.Erases e) (hp : ∀ t a, p t.timeless (e a) = p t a)
    (hr : ∀ t a, g (r t.timeless (e a)) = g (r t a)) :
    Svc.TimelessBy (List.map g) (repo.find p r) (repo.find p r) :=
  timeless_query fun x now _ _ hs => congrArg Except.ok (h.map_scan hp hr hs x now)

theorem Erases.findOne (h : repo.Erases e) (hp : ∀ t a, p t.timeless (e a) = p t a)
    (hr : ∀ t a, g (r t.timeless (e a)) = g (r t a)) :
    Svc.TimelessBy (Option.map g) (repo.findOne p r) (repo.findOne p r) :=
  timeless_query fun x now _ _ hs => congrArg Except.ok (h.head_scan hp hr hs x now)

theorem Erases.findRow {g : α → γ} (h : repo.Erases e) (hp : ∀ t a, p t.timeless (e a) = p t a)
    (hg : ∀ a, g (e a) = g a) :
    Svc.TimelessBy (Option.map g) (repo.findRow p) (repo.findRow p) :=
  h.findOne (r := fun _ a => a) hp fun _ a => hg a

theorem Erases.findReadable {g : α → γ} {readable : Server → Bool} (h : repo.Erases e)
    (hreads : ∀ s s' : Server, s.SameButDates s' → readable s' = readable s)
    (hp : ∀ t a, p t.timeless (e a) = p t a) (hg : ∀ a, g (e a) = g a) :
    Svc.TimelessBy (Option.map g) (repo.findReadable readable p) (repo.findReadable readable p) := by
  refine timeless_query fun x now s s' hs => ?_
  rw [hreads s s' hs]
  split
  · have hhead := h.head_scan (r := fun _ a => a) hp (fun _ a => hg a) hs x now
    rw [Option.map_id', Option.map_id'] at hhead
    exact congrArg Except.ok hhead
  · rfl

theorem Erases.insert (h : repo.Erases e) {values values' : Ext → Server → Except Rejection α}
    (hvalues : ∀ x now s s', s.SameButDates s' →
      (values x s).map e = (values' { x with now } s').map e) :
    Svc.Timeless (repo.insert values) (repo.insert values') := by
  refine timeless_statement fun x now s s' hs => ?_
  have hsame := answers_of_map (hvalues x now s s' hs)
  rcases hv : values x s with e₁ | a <;> rcases hv' : values' { x with now } s' with e₂ | a' <;>
    rw [hv, hv'] at hsame
  · exact congrArg Except.error hsame
  · exact hsame.elim
  · exact hsame.elim
  · have ha : e a = e a' := hsame
    show Except.ok (repo.key a, (repo.put (repo.rows s.tables ++ [a]) s.tables).timeless) =
      Except.ok (repo.key a', (repo.put (repo.rows s'.tables ++ [a']) s'.tables).timeless)
    rw [h.put, h.put, List.map_append, List.map_append, ← h.rows, ← h.rows, hs.tables, List.map_singleton,
      List.map_singleton, ← h.key a, ← h.key a', ha]

/-- Values that are related: both errors are one, or both updates do the same
but for dates. -/
inductive SameValues (e : α → α) : Except Rejection (Option (α → α)) → Except Rejection (Option (α → α)) → Prop
  | error (e₁ : Rejection) : SameValues e (.error e₁) (.error e₁)
  | null : SameValues e (.ok none) (.ok none)
  | set {f f' : α → α} : (∀ a a', e a = e a' → e (f a) = e (f' a')) → SameValues e (.ok (some f)) (.ok (some f'))

/-- Selecting and changing rows that are the same but for dates. -/
theorem map_updateWhere_eq {rows rows' : List α} {q : α → Bool} {f f' : α → α}
    (hrows : rows.map e = rows'.map e) (hq : ∀ a, q (e a) = q a)
    (hf : ∀ a a', e a = e a' → e (f a) = e (f' a')) :
    (updateWhere q f rows).map e = (updateWhere q f' rows').map e :=
  map_eq_of_forall₂ (forall₂_updateWhere (forall₂_of_map_eq hrows)
    (fun a a' ha => by rw [← hq a, ha, hq]) fun a a' ha _ => hf a a' ha)

theorem Erases.update (h : repo.Erases e) {criterion : JsVal}
    {fields fields' : Ext → Server → Except Rejection (Option (α → α))}
    (hfields : ∀ x now s s', s.SameButDates s' →
      SameValues e (fields x s) (fields' { x with now } s')) :
    Svc.Timeless (repo.update criterion fields) (repo.update criterion fields') := by
  refine timeless_statement fun x now s s' hs => ?_
  dsimp only
  split
  · rfl
  · have hrows : (repo.rows s.tables).map e = (repo.rows s'.tables).map e := by
      rw [← h.rows, ← h.rows, hs.tables]
    have hselected : ∀ a, selected x criterion (repo.key (e a)) = selected x criterion (repo.key a) :=
      fun a => by rw [h.key]
    have hcount : (repo.rows s'.tables).countP (fun a => selected x criterion (repo.key a)) =
        (repo.rows s.tables).countP fun a => selected x criterion (repo.key a) := by
      have hmap : ∀ l : List α, l.countP (fun a => selected x criterion (repo.key a)) =
          (l.map e).countP fun a => selected x criterion (repo.key a) := fun l => by
        rw [List.countP_map]
        exact List.countP_congr fun a _ => by rw [Function.comp_apply, hselected]
      rw [hmap, ← hrows, ← hmap]
    have hfields := hfields x now s s' hs
    have hnow : selected { x with now } criterion = selected x criterion := rfl
    rw [hnow, hcount]
    generalize fields x s = v at hfields
    generalize fields' { x with now } s' = v' at hfields
    cases hfields with
    | error e₁ => rfl
    | null =>
      dsimp only
      split
      · show Except.ok (0, s.tables.timeless) = Except.ok (0, s'.tables.timeless)
        rw [hs.tables]
      · rfl
    | set hf =>
      refine congrArg Except.ok (Prod.ext rfl ?_)
      show (repo.put _ s.tables).timeless = (repo.put _ s'.tables).timeless
      rw [h.put, h.put, hs.tables, map_updateWhere_eq hrows hselected hf]

/-- An update that does the same to a row and to what `e` leaves of it. -/
theorem SameValues.self {f f' : α → α} (hf : ∀ a, e (f a) = e (f' (e a))) (hf' : ∀ a, e (f' a) = e (f' (e a))) :
    SameValues e (.ok (some f)) (.ok (some f')) :=
  .set fun a a' ha => by rw [hf, ha, ← hf']

theorem Erases.set (h : repo.Erases e) {criterion : JsVal} {f : Ext → α → α}
    (hf : ∀ x now a, e (f x a) = e (f { x with now } (e a))) :
    Svc.Timeless (repo.set criterion f) (repo.set criterion f) :=
  h.update fun x now _ _ _ => .self (hf x now) (hf { x with now } now)

theorem Erases.write (h : repo.Erases e) {k : String} {f : α → α} (hf : ∀ a, e (f a) = e (f (e a))) :
    Svc.Timeless (repo.write k f) (repo.write k f) := by
  refine timeless_statement fun x now s s' hs => congrArg Except.ok (Prod.ext rfl ?_)
  have hrows : (repo.rows s.tables).map e = (repo.rows s'.tables).map e := by
    rw [← h.rows, ← h.rows, hs.tables]
  have hsame : ∀ a a', e a = e a' → e (f a) = e (f a') := fun a a' ha => by rw [hf, ha, ← hf]
  show (repo.put _ s.tables).timeless = (repo.put _ s'.tables).timeless
  rw [h.put, h.put, hs.tables, map_updateWhere_eq hrows (fun a => by rw [h.key]) hsame]

theorem Erases.delete (h : repo.Erases e) {q : α → Bool} (hq : ∀ a, q (e a) = q a) :
    Svc.Timeless (repo.delete q) (repo.delete q) := by
  refine timeless_statement fun x now s s' hs => congrArg Except.ok (Prod.ext rfl ?_)
  have hfilter : ∀ l : List α, (l.filter fun a => !q a).map e = (l.map e).filter fun a => !q a :=
    fun _ => (filter_map_eq fun a => by rw [hq]).symm
  show (repo.put _ s.tables).cascade.timeless = (repo.put _ s'.tables).cascade.timeless
  rw [Tables.timeless_cascade, Tables.timeless_cascade, h.put, h.put, hfilter, hfilter, ← h.rows, ← h.rows,
    hs.tables]

theorem Erases.deleteById (h : repo.Erases e) {id : String} :
    Svc.Timeless (repo.deleteById id) (repo.deleteById id) := by
  unfold Repository.deleteById
  split
  · exact .throw _
  · refine h.delete fun a => ?_
    rw [h.key]

end Repository

theorem roleRepository.erases : roleRepository.Erases id := ⟨fun _ => (List.map_id _).symm, fun _ => rfl,
  fun l t => by rw [List.map_id]; rfl⟩

theorem usersRepository.erases : usersRepository.Erases id := ⟨fun _ => (List.map_id _).symm, fun _ => rfl,
  fun l t => by rw [List.map_id]; rfl⟩

theorem accountRepository.erases : accountRepository.Erases Account.timeless :=
  ⟨fun _ => rfl, fun _ => rfl, fun _ _ => rfl⟩

theorem emulatorRepository.erases : emulatorRepository.Erases id :=
  ⟨fun _ => (List.map_id _).symm, fun _ => rfl, fun l t => by rw [List.map_id]; rfl⟩

theorem userEmulatorRepository.erases : userEmulatorRepository.Erases UserEmulators.timeless :=
  ⟨fun _ => rfl, fun _ => rfl, fun _ _ => rfl⟩

theorem accountEmulatorRepository.erases : accountEmulatorRepository.Erases id :=
  ⟨fun _ => (List.map_id _).symm, fun _ => rfl, fun l t => by rw [List.map_id]; rfl⟩

theorem emulatorConnectionsRepository.erases :
    emulatorConnectionsRepository.Erases EmulatorConnections.timeless :=
  ⟨fun _ => rfl, fun _ => rfl, fun _ _ => rfl⟩

theorem activityLogRepository.erases : activityLogRepository.Erases ActivityLog.timeless :=
  ⟨fun _ => rfl, fun _ => rfl, fun _ _ => rfl⟩

end Damaru
