import Damaru.Controllers

/-!
# Kinds of writes

Every statement that the services issue is of one of a few kinds, and every
service call issues statements of the kinds listed for it, in whatever state
each of them falls; two more kinds stand for registering a socket and for
emitting. A property that the kinds of a call respect needs no look into the
call.
-/

namespace Damaru

open Async Table

inductive Kind where
  | activityLogs
  | connections
  /-- Assignments are inserted, made ACTIVE again or deleted. -/
  | assignments
  | expiry
  | newEmulator
  /-- The columns of devices are set to the values of a body. -/
  | columns (emulator : Json)
  /-- Columns other than the key and the state are set. -/
  | emulatorFields
  /-- The ORM's `save` of a device. -/
  | saveEmulator
  | deleteEmulator
  | newAccount
  | accountFields
  | deleteAccount
  | newUser
  | userFields
  | deleteUser
  | newLink
  | endLink
  | state
  /-- A socket is registered. -/
  | sockets
  /-- Something is emitted. -/
  | emissions

/-- The statements of a kind. -/
inductive Write (t : Tables) : Kind → Tables → Prop
  | activityLogs (l : List ActivityLog) : Write t .activityLogs { t with activityLogs := l }
  | connections (l : List EmulatorConnections) :
      Write t .connections { t with emulatorConnections := l }
  | assignments (l : List AccountEmulators) (c : List EmulatorConnections) :
      Write t .assignments { t with accountEmulators := l, emulatorConnections := c }
  | expiry (p : UserEmulators → Bool) (date : Date) : Write t .expiry
      { t with userEmulators := updateWhere p (fun l => { l with expires_at := date }) t.userEmulators }
  | newEmulator (e : Emulator) : e.state = .AVAILABLE →
      Write t .newEmulator { t with emulators := t.emulators ++ [e] }
  | columns (emulator : Json) (p : Emulator → Bool) : Write t (.columns emulator)
      { t with emulators := updateWhere p (EmulatorService.columns emulator) t.emulators }
  | emulatorFields (p : Emulator → Bool) (f : Emulator → Emulator) :
      (∀ e, (f e).device_id = e.device_id ∧ (f e).state = e.state) →
      Write t .emulatorFields { t with emulators := updateWhere p f t.emulators }
  | saveEmulator (l : List Emulator) : Write t .saveEmulator { t with emulators := l }
  | deleteEmulator (p : Emulator → Bool) :
      Write t .deleteEmulator ({ t with emulators := t.emulators.filter p } : Tables).cascade
  | newAccount (a : Account) : Write t .newAccount { t with accounts := t.accounts ++ [a] }
  | accountFields (p : Account → Bool) (f : Account → Account) :
      (∀ a, (f a).id = a.id ∧ (f a).user = a.user ∧ (f a).is_admin = a.is_admin) →
      Write t .accountFields { t with accounts := updateWhere p f t.accounts }
  | deleteAccount (p : Account → Bool) :
      Write t .deleteAccount ({ t with accounts := t.accounts.filter p } : Tables).cascade
  | newUser (u : Users) : Write t .newUser { t with users := t.users ++ [u] }
  | userFields (p : Users → Bool) (f : Users → Users) :
      (∀ u, (f u).id = u.id ∧ (f u).role = u.role) →
      Write t .userFields { t with users := updateWhere p f t.users }
  | deleteUser (p : Users → Bool) :
      Write t .deleteUser ({ t with users := t.users.filter p } : Tables).cascade
  | newLink (l : UserEmulators) : Write t .newLink { t with userEmulators := t.userEmulators ++ [l] }
  | endLink (p : UserEmulators → Bool) (date : Date) : Write t .endLink
      { t with userEmulators :=
          updateWhere p (fun l => { l with unlinked_at := some date }) t.userEmulators }
  | state (p : Emulator → Bool) (st : EmulatorState) : Write t .state
      { t with emulators := updateWhere p (fun e => { e with state := st }) t.emulators }

/-- A step that leaves the tables, or is a statement of one of the kinds. It
leaves the sockets and what has been emitted, unless that is among them. -/
structure Writes (ks : List Kind) (s s' : Server) : Prop where
  tables : s'.tables = s.tables ∨ ∃ k ∈ ks, Write s.tables k s'.tables
  connections : s'.connections = s.connections ∨ .sockets ∈ ks
  emitted : ∃ l, s'.emitted = s.emitted ++ l ∧ (l = [] ∨ .emissions ∈ ks)

theorem Writes.refl (ks : List Kind) (s : Server) : Writes ks s s :=
  ⟨.inl rfl, .inl rfl, [], (List.append_nil _).symm, .inl rfl⟩

/-- A statement that changes no row. -/
theorem Writes.kept {ks : List Kind} {s : Server} (h : s.tables.Integrity) :
    Writes ks s (s.commit s.tables h) :=
  ⟨.inl rfl, .inl rfl, [], (List.append_nil _).symm, .inl rfl⟩

theorem Writes.mono {ks ks' : List Kind} (h : ks ⊆ ks') {s s' : Server} (hw : Writes ks s s') :
    Writes ks' s s' where
  tables := hw.tables.imp_right fun ⟨k, hk, hkw⟩ => ⟨k, h hk, hkw⟩
  connections := hw.connections.imp_right fun hk => h hk
  emitted := by
    obtain ⟨l, hl, hk⟩ := hw.emitted
    exact ⟨l, hl, hk.imp_right fun hk => h hk⟩

variable {α β : Type}

section Each

variable {R : Server → Server → Prop} (hrefl : ∀ s, R s s)

include hrefl

namespace Repository

variable {repo : Repository α}

theorem each_findRow {p : Tables → α → Bool} : (repo.findRow p).Each R := each_query hrefl

theorem each_findReadable {readable : Server → Bool} {p : Tables → α → Bool} :
    (repo.findReadable readable p).Each R := each_query hrefl

theorem each_find {p : Tables → α → Bool} {relations : Tables → α → β} :
    (repo.find p relations).Each R := each_query hrefl

theorem each_insert {values : Ext → Server → Except Rejection α}
    (h : ∀ x s a, values x s = .ok a →
      ∀ hi : (repo.put (repo.rows s.tables ++ [a]) s.tables).Integrity, R s (s.commit _ hi)) :
    (repo.insert values).Each R := by
  refine each_statement hrefl fun x s k t hf ht => ?_
  cases hv : values x s with
  | error e => rw [hv] at hf; cases hf
  | ok a =>
    rw [hv] at hf
    cases hf
    exact h x s a hv ht

theorem each_update {criterion : JsVal} {fields : Ext → Server → Except Rejection (Option (α → α))}
    (h : ∀ x s f, fields x s = .ok (some f) →
      ∀ hi : (repo.put (updateWhere (fun a => selected x criterion (repo.key a)) f
        (repo.rows s.tables)) s.tables).Integrity, R s (s.commit _ hi))
    (hnone : ∀ s (hi : s.tables.Integrity), R s (s.commit s.tables hi)) :
    (repo.update criterion fields).Each R := by
  refine each_statement hrefl fun x s c t hf ht => ?_
  split at hf
  · cases hf
  · cases hv : fields x s with
    | error e => rw [hv] at hf; cases hf
    | ok o =>
      rw [hv] at hf
      cases o with
      | some f =>
        cases hf
        exact h x s f hv ht
      | none =>
        simp only at hf
        split at hf
        · cases hf
          exact hnone s ht
        · cases hf

theorem each_write {k : String} {f : α → α}
    (h : ∀ s (hi : (repo.put (updateWhere (fun a => decide (repo.key a = k)) f
      (repo.rows s.tables)) s.tables).Integrity), R s (s.commit _ hi)) : (repo.write k f).Each R := by
  refine each_statement hrefl fun x s a t hf ht => ?_
  cases hf
  exact h s ht

theorem each_delete {p : α → Bool}
    (h : ∀ s (hi : (repo.put ((repo.rows s.tables).filter fun a => !p a) s.tables).cascade.Integrity),
      R s (s.commit _ hi)) : (repo.delete p).Each R := by
  refine each_statement hrefl fun x s c t hf ht => ?_
  cases hf
  exact h s ht

theorem each_deleteById {id : String}
    (h : ∀ s (hi : (repo.put ((repo.rows s.tables).filter fun a => !decide (repo.key a = id))
      s.tables).cascade.Integrity), R s (s.commit _ hi)) : (repo.deleteById id).Each R := by
  unfold deleteById
  split
  · exact trivial
  · exact each_delete hrefl h

end Repository

omit hrefl in
theorem each_forOf {what : String} {v : JsVal} {body : JsVal → Svc Unit}
    (h : ∀ j, (body j).Each R) : (forOf what v body).Each R := by
  unfold forOf
  split
  · exact trivial
  · exact Prog.Each.forM (fun j => h (some j)) _

end Each

/-- A statement of a kind. -/
theorem Writes.commit {ks : List Kind} {k : Kind} (hk : k ∈ ks) {s : Server} {t : Tables}
    (h : t.Integrity) (hw : Write s.tables k t) : Writes ks s (s.commit t h) :=
  ⟨.inr ⟨k, hk, hw⟩, .inl rfl, [], (List.append_nil _).symm, .inl rfl⟩

end Damaru
