import Damaru.Verify.LinkExclusive
import Damaru.Verify.Outcomes

/-!
# What `unlinkEmulator` does to the tables

Ending the links of a user with a list of devices is one function of the
tables, up to the dates that it writes. It depends on the list as a set, and
ending more links adds to what it has done. `unlinkEmulator` computes it one
device at a time, by a lookup and three writes.
-/

namespace Damaru

open Async Table

/-- The link is in force between the user and one of the devices. -/
def UserEmulators.joins (u : String) (ds : List String) (l : UserEmulators) : Bool :=
  decide (l.user = some u) && l.active && ds.any fun d => decide (l.device = some d)

theorem UserEmulators.joins_iff {u : String} {ds : List String} {l : UserEmulators} :
    l.joins u ds = true ↔ l.user = some u ∧ l.active = true ∧ ∃ d ∈ ds, l.device = some d := by
  unfold joins
  simp only [Bool.and_eq_true, decide_eq_true_eq, List.any_eq_true, and_assoc]

theorem UserEmulators.joins_append {u : String} {ds ds' : List String} {l : UserEmulators} :
    l.joins u (ds ++ ds') = (l.joins u ds || l.joins u ds') := by
  unfold joins
  rw [List.any_append, Bool.and_or_distrib_left]

theorem UserEmulators.joins_congr {u : String} {ds ds' : List String} (h : ∀ d, d ∈ ds ↔ d ∈ ds') :
    joins u ds = joins u ds' := by
  funext l
  rw [Bool.eq_iff_iff, joins_iff, joins_iff]
  simp only [h]

theorem UserEmulators.joins_unlinked {u : String} {ds : List String} {l : UserEmulators} {now : Date} :
    ({ l with unlinked_at := some now } : UserEmulators).joins u ds = false := by
  unfold joins active
  simp

namespace Tables

/-- A device has at most one link in force. -/
def Exclusive (t : Tables) : Prop := ∀ d, ∀ l ∈ t.active d, ∀ l' ∈ t.active d, l = l'

theorem LinkState.exclusive {t : Tables} (h : t.LinkState) (hi : t.Integrity) : t.Exclusive := by
  intro d l hl l' hl'
  obtain ⟨e, he, rfl⟩ := hi.device_exists hl
  rcases h e he with ⟨-, hlen⟩ | ⟨-, hnil⟩
  · obtain ⟨r, hr⟩ := List.length_eq_one_iff.1 hlen
    rw [hr, List.mem_singleton] at hl hl'
    rw [hl, hl']
  · rw [hnil] at hl
    exact (List.not_mem_nil hl).elim

theorem mem_active_of_joins {t : Tables} {u d : String} {l : UserEmulators}
    (hl : l ∈ t.userEmulators) (h : l.joins u [d] = true) : l ∈ t.active d := by
  obtain ⟨-, hactive, d', hd', hdev⟩ := UserEmulators.joins_iff.1 h
  rw [List.mem_singleton.1 hd'] at hdev
  exact mem_active.2 ⟨hl, hdev, hactive⟩

/-! ## The whole effect -/

/-- The links in force between the user and the devices. -/
def joining (t : Tables) (u : String) (ds : List String) : List UserEmulators :=
  t.userEmulators.filter (UserEmulators.joins u ds)

/-- The assignments to other links. -/
def apart (t : Tables) (u : String) (ds : List String) : List AccountEmulators :=
  t.accountEmulators.filter fun a => (t.joining u ds).all fun l => decide (a.userEmulator ≠ some l.id)

/-- The device is one that such a link joins. -/
def joined (t : Tables) (u : String) (ds : List String) (e : Emulator) : Bool :=
  (t.joining u ds).any fun l => decide (l.device = some e.device_id)

/-- The links of the user with the devices are ended, at the given dates; their
assignments are gone, and the connections of these; the devices are AVAILABLE. -/
def unlink (t : Tables) (date : UserEmulators → Date) (u : String) (ds : List String) : Tables :=
  { t with
    userEmulators := updateWhere (UserEmulators.joins u ds)
      (fun l => { l with unlinked_at := some (date l) }) t.userEmulators
    accountEmulators := t.apart u ds
    emulatorConnections := t.emulatorConnections.filter fun c =>
      refers ((t.apart u ds).map AccountEmulators.id) c.accountEmulators
    emulators := updateWhere (t.joined u ds) (fun e => { e with state := .AVAILABLE }) t.emulators }

variable {t : Tables} {date date' : UserEmulators → Date} {u : String} {ds ds' : List String}

theorem mem_joining {l : UserEmulators} :
    l ∈ t.joining u ds ↔ l ∈ t.userEmulators ∧ l.joins u ds = true := List.mem_filter

theorem unlink_congr (h : ∀ d, d ∈ ds ↔ d ∈ ds') : t.unlink date u ds = t.unlink date u ds' := by
  unfold unlink apart joined joining
  rw [UserEmulators.joins_congr h]

/-- Where no link is in force nothing changes. -/
theorem unlink_of_none (hi : t.Integrity) (h : t.joining u ds = []) (date : UserEmulators → Date) :
    t.unlink date u ds = t := by
  have happart : t.apart u ds = t.accountEmulators := by
    unfold apart
    rw [h]
    exact List.filter_eq_self.2 fun _ _ => rfl
  have hlinks : updateWhere (UserEmulators.joins u ds)
      (fun l => { l with unlinked_at := some (date l) }) t.userEmulators = t.userEmulators :=
    updateWhere_eq_self fun l hl hp => absurd hp (List.filter_eq_nil_iff.1 h l hl)
  have hdevices : updateWhere (t.joined u ds) (fun e => { e with state := .AVAILABLE }) t.emulators =
      t.emulators := updateWhere_eq_self fun e _ hp => by
    unfold joined at hp
    rw [h] at hp
    cases hp
  have hconnections : t.emulatorConnections.filter (fun c =>
      refers (t.accountEmulators.map AccountEmulators.id) c.accountEmulators) = t.emulatorConnections :=
    List.filter_eq_self.2 hi.assignment
  unfold unlink
  rw [happart, hlinks, hdevices, hconnections]

/-- The links that are still in force are those that have not been ended. -/
theorem joining_unlink : (t.unlink date u ds).joining u ds' =
    t.userEmulators.filter fun l => !l.joins u ds && l.joins u ds' :=
  filter_updateWhere_of_false fun _ _ => UserEmulators.joins_unlinked

theorem mem_joining_append (date : UserEmulators → Date) {l : UserEmulators} : l ∈ t.joining u (ds ++ ds') ↔
    l ∈ t.joining u ds ∨ l ∈ (t.unlink date u ds).joining u ds' := by
  rw [joining_unlink, List.mem_filter, mem_joining, mem_joining, UserEmulators.joins_append]
  cases l.joins u ds <;> simp

theorem apart_unlink (date : UserEmulators → Date) : (t.unlink date u ds).apart u ds' = t.apart u (ds ++ ds') := by
  show List.filter _ (t.apart u ds) = _
  unfold apart
  rw [List.filter_filter]
  refine List.filter_congr fun a _ => ?_
  rw [Bool.eq_iff_iff, Bool.and_eq_true, List.all_eq_true, List.all_eq_true, List.all_eq_true]
  simp only [mem_joining_append date]
  exact ⟨fun ⟨h', h⟩ l hl => hl.elim (h l) (h' l),
    fun h => ⟨fun l hl => h l (.inr hl), fun l hl => h l (.inl hl)⟩⟩

theorem joined_append (date : UserEmulators → Date) : t.joined u (ds ++ ds') =
    fun e => t.joined u ds e || (t.unlink date u ds).joined u ds' e := by
  funext e
  unfold joined
  rw [Bool.eq_iff_iff, Bool.or_eq_true, List.any_eq_true, List.any_eq_true, List.any_eq_true]
  simp only [mem_joining_append date, or_and_right, exists_or]

/-- Ending links and then more links is ending them all. -/
theorem unlink_unlink : (t.unlink date u ds).unlink date' u ds' =
    t.unlink (fun l => if l.joins u ds then date l else date' l) u (ds ++ ds') := by
  have hlinks : updateWhere (UserEmulators.joins u ds')
      (fun l => { l with unlinked_at := some (date' l) }) (t.unlink date u ds).userEmulators =
      updateWhere (UserEmulators.joins u (ds ++ ds')) (fun l => { l with
        unlinked_at := some (if l.joins u ds then date l else date' l) }) t.userEmulators := by
    unfold unlink updateWhere
    rw [List.map_map]
    refine List.map_congr_left fun l _ => ?_
    by_cases hl : l.joins u ds = true
    · simp [hl, UserEmulators.joins_append, UserEmulators.joins_unlinked]
    · simp [hl, UserEmulators.joins_append]
  have hdevices : updateWhere ((t.unlink date u ds).joined u ds')
      (fun e => { e with state := .AVAILABLE }) (t.unlink date u ds).emulators =
      updateWhere (t.joined u (ds ++ ds')) (fun e => { e with state := .AVAILABLE }) t.emulators := by
    rw [joined_append date]
    exact updateWhere_updateWhere (fun _ => rfl) fun _ => rfl
  have hconnections : (t.unlink date u ds).emulatorConnections.filter (fun c =>
      refers ((t.apart u (ds ++ ds')).map AccountEmulators.id) c.accountEmulators) =
      t.emulatorConnections.filter fun c =>
        refers ((t.apart u (ds ++ ds')).map AccountEmulators.id) c.accountEmulators := by
    show List.filter _ (List.filter _ t.emulatorConnections) = _
    rw [List.filter_filter]
    refine List.filter_congr fun c _ => ?_
    rw [Bool.and_eq_left_iff_imp]
    cases c.accountEmulators with
    | none => exact fun _ => rfl
    | some k =>
      rw [refers_some, refers_some, ← apart_unlink date]
      exact fun hk => (List.filter_sublist.map _).subset hk
  show ({ t.unlink date u ds with
    userEmulators := updateWhere _ _ (t.unlink date u ds).userEmulators
    accountEmulators := (t.unlink date u ds).apart u ds'
    emulatorConnections := (t.unlink date u ds).emulatorConnections.filter fun c =>
      refers (((t.unlink date u ds).apart u ds').map AccountEmulators.id) c.accountEmulators
    emulators := updateWhere _ _ (t.unlink date u ds).emulators } : Tables) = _
  rw [apart_unlink, hlinks, hdevices, hconnections]
  rfl

/-! ## The three writes -/

def endLink (t : Tables) (l : String) (now : Date) : Tables :=
  { t with
    userEmulators := updateWhere (fun r => decide (r.id = l))
      (fun r => { r with unlinked_at := some now }) t.userEmulators }

def unassign (t : Tables) (l : String) : Tables :=
  let kept := t.accountEmulators.filter fun a => !decide (a.userEmulator = some l)
  { t with
    accountEmulators := kept
    emulatorConnections := t.emulatorConnections.filter fun c =>
      refers (kept.map AccountEmulators.id) c.accountEmulators }

def makeAvailable (t : Tables) (d : String) : Tables :=
  { t with
    emulators := updateWhere (fun e => decide (e.device_id = d))
      (fun e => { e with state := .AVAILABLE }) t.emulators }

theorem Integrity.endLink (h : t.Integrity) (l : String) (now : Date) : (t.endLink l now).Integrity :=
  h.set_links fun _ => ⟨rfl, rfl, rfl⟩

theorem Integrity.cascade_unassign (h : t.Integrity) (l : String) :
    ({ t with
      accountEmulators := t.accountEmulators.filter fun a => !decide (a.userEmulator = some l) } :
        Tables).cascade = t.unassign l :=
  h.toReferences.cascade_accountEmulators fun _ ha => (List.mem_filter.1 ha).1

theorem Integrity.unassign (h : t.Integrity) (l : String) : (t.unassign l).Integrity := by
  rw [← h.cascade_unassign]
  exact (h.toKeys.filter_accountEmulators _).cascade_integrity

theorem Integrity.makeAvailable (h : t.Integrity) (d : String) : (t.makeAvailable d).Integrity :=
  h.set_emulators fun _ => rfl

/-- The link in force of a device is the only row that joins it. -/
theorem Exclusive.joining_eq (h : t.Exclusive) (hi : t.Integrity) {d : String} {l : UserEmulators}
    (hl : l ∈ t.joining u [d]) {r : UserEmulators} (hr : r ∈ t.userEmulators) :
    r.joins u [d] = decide (r.id = l.id) := by
  obtain ⟨hmem, hjoins⟩ := mem_joining.1 hl
  rw [Bool.eq_iff_iff, decide_eq_true_eq]
  constructor
  · intro hr'
    rw [h d r (mem_active_of_joins hr hr') l (mem_active_of_joins hmem hjoins)]
  · intro hid
    rw [eq_of_key hi.userEmulators hr hmem hid]
    exact hjoins

/-- The three writes for one link in force are the whole effect for its device. -/
theorem unlink_singleton (hi : t.Integrity) (h : t.Exclusive) {d : String} {l : UserEmulators}
    (hl : l ∈ t.joining u [d]) (now : Date) :
    ((t.endLink l.id now).unassign l.id).makeAvailable d = t.unlink (fun _ => now) u [d] := by
  have hjoining : ∀ r, r ∈ t.joining u [d] ↔ r = l := by
    intro r
    refine ⟨fun hr => ?_, fun hr => hr ▸ hl⟩
    have hid := h.joining_eq hi hl (mem_joining.1 hr).1
    rw [(mem_joining.1 hr).2] at hid
    exact eq_of_key hi.userEmulators (mem_joining.1 hr).1 (mem_joining.1 hl).1
      (of_decide_eq_true hid.symm)
  have hlinks : updateWhere (fun r => decide (r.id = l.id))
      (fun r => { r with unlinked_at := some now }) t.userEmulators =
      updateWhere (UserEmulators.joins u [d]) (fun r => { r with unlinked_at := some now })
        t.userEmulators := by
    unfold updateWhere
    exact List.map_congr_left fun r hr => by rw [h.joining_eq hi hl hr]
  have happart : t.accountEmulators.filter (fun a => !decide (a.userEmulator = some l.id)) =
      t.apart u [d] := by
    refine List.filter_congr fun a _ => ?_
    rw [Bool.eq_iff_iff, List.all_eq_true]
    simp [hjoining]
  have hjoined : (fun e : Emulator => decide (e.device_id = d)) = t.joined u [d] := by
    funext e
    obtain ⟨-, -, d', hd', hdev⟩ := UserEmulators.joins_iff.1 (mem_joining.1 hl).2
    rw [List.mem_singleton.1 hd'] at hdev
    unfold joined
    rw [Bool.eq_iff_iff, List.any_eq_true]
    simp [hjoining, hdev, eq_comm]
  unfold makeAvailable unassign endLink unlink
  simp only [hlinks, happart, hjoined]

/-! ## What is kept -/

/-- The links in force of a device are those that have not been ended. -/
theorem active_unlink {d : String} :
    (t.unlink date u ds).active d = (t.active d).filter fun l => !l.joins u ds := by
  unfold active
  rw [List.filter_filter]
  exact filter_updateWhere_of_false fun _ _ => by simp [UserEmulators.active]

/-- Unlinking begins no link. -/
theorem Exclusive.of_subset {t' : Tables} (h : t.Exclusive)
    (hsub : ∀ l ∈ t'.userEmulators, l.active = true → l ∈ t.userEmulators) : t'.Exclusive := by
  have hactive : ∀ d, ∀ l ∈ t'.active d, l ∈ t.active d := by
    intro d l hl
    obtain ⟨hmem, hdev, hact⟩ := mem_active.1 hl
    exact mem_active.2 ⟨hsub l hmem hact, hdev, hact⟩
  exact fun d l hl l' hl' => h d l (hactive d l hl) l' (hactive d l' hl')

theorem mem_of_mem_unlink {l : UserEmulators} (hl : l ∈ (t.unlink date u ds).userEmulators)
    (hactive : l.active = true) : l ∈ t.userEmulators := by
  rcases mem_updateWhere.1 hl with ⟨r, -, -, rfl⟩ | ⟨hmem, -⟩
  · cases hactive
  · exact hmem

theorem Exclusive.unlink (h : t.Exclusive) : (t.unlink date u ds).Exclusive :=
  h.of_subset fun _ hl hactive => mem_of_mem_unlink hl hactive

/-- Unlinking keeps states and links in agreement. -/
theorem LinkState.unlink (h : t.LinkState) (hi : t.Integrity) : (t.unlink date u ds).LinkState := by
  intro e' he'
  rw [active_unlink]
  rcases mem_updateWhere.1 he' with ⟨e, he, hjoined, rfl⟩ | ⟨he, hjoined⟩
  · obtain ⟨l, hl, hdev⟩ := List.any_eq_true.1 hjoined
    obtain ⟨hmem, hjoins⟩ := mem_joining.1 hl
    have hl' : l ∈ t.active e.device_id :=
      mem_active.2 ⟨hmem, of_decide_eq_true hdev, (UserEmulators.joins_iff.1 hjoins).2.1⟩
    refine .inr ⟨rfl, List.filter_eq_nil_iff.2 fun r hr => ?_⟩
    rw [h.exclusive hi _ r hr l hl', hjoins]
    exact Bool.false_ne_true
  · have hkept : (t.active e'.device_id).filter (fun l => !l.joins u ds) = t.active e'.device_id := by
      refine List.filter_eq_self.2 fun l hl => ?_
      obtain ⟨hmem, hdev, -⟩ := mem_active.1 hl
      rw [Bool.not_eq_true', ← Bool.not_eq_true]
      intro hjoins
      have hnone := List.any_eq_false.1 hjoined l (mem_joining.2 ⟨hmem, hjoins⟩)
      exact hnone (decide_eq_true hdev)
    rw [hkept]
    exact h e' he

end Tables

/-! ## One turn of the loop -/

namespace Phase

variable {u d l : String} {ds : List String} {s : Server} {x : Ext} {xs : List Ext}

/-- The lookup selects the links that join the device. -/
theorem unlink_selects {r : UserEmulators} :
    (JsVal.selects (some (.str u)) r.user && JsVal.selects (some (.str d)) r.device && r.active) =
      r.joins u [d] := by
  rw [Bool.eq_iff_iff, UserEmulators.joins_iff]
  simp only [Bool.and_eq_true, JsVal.selects_str, List.mem_singleton, exists_eq_left, and_assoc]
  rw [and_comm (a := r.device = some d)]

/-- The lookup finds the link in force. -/
theorem stop_unlinkFind (h : s.tables.Exclusive) {r : UserEmulators}
    (hr : r ∈ s.tables.joining u [d]) :
    (unlinkRest u (d :: ds)).stop (x :: xs) s = (unlinkMark u d ds r.id).prog.stop xs s := by
  rw [unlinkRest_cons]
  refine stop_query_bind (a := some r) (congrArg Except.ok ?_)
  rw [Option.map_id']
  obtain ⟨hmem, hjoins⟩ := Tables.mem_joining.1 hr
  cases hf : (userEmulatorRepository.scan (fun _ l => JsVal.selects (some (.str u)) l.user &&
      JsVal.selects (some (.str d)) l.device && l.active) x s.tables).head? with
  | none =>
    have hnone := Repository.scan_head_none hf hmem
    rw [unlink_selects, hjoins] at hnone
    cases hnone
  | some r' =>
    obtain ⟨hmem', hsel⟩ := Repository.of_scan_head hf
    rw [unlink_selects] at hsel
    rw [h d r' (Tables.mem_active_of_joins hmem' hsel) r (Tables.mem_active_of_joins hmem hjoins)]

theorem stop_unlinkFind_none (h : s.tables.joining u [d] = []) :
    (unlinkRest u (d :: ds)).stop (x :: xs) s = (unlinkRest u ds).stop xs s := by
  rw [unlinkRest_cons]
  refine stop_query_bind (a := none) (congrArg Except.ok ?_)
  rw [Option.map_id']
  refine Table.scan_head_eq_none.2 (List.filter_eq_nil_iff.2 fun r hr => ?_)
  simp only [unlink_selects]
  exact List.filter_eq_nil_iff.1 h r hr

theorem stop_unlinkMark (hl : l ≠ "") : (unlinkMark u d ds l).prog.stop (x :: xs) s =
    (unlinkAssign u d ds l).prog.stop xs
      (s.commit (s.tables.endLink l x.now) (s.integrity.endLink l x.now)) := by
  show (userEmulatorRepository.set (some (.str l)) _ >>= fun _ => (unlinkAssign u d ds l).prog).stop
    (x :: xs) s = _
  rw [Repository.set_str]
  exact stop_statement_bind (if_neg hl) (s.integrity.endLink l x.now)

theorem stop_unlinkAssign : (unlinkAssign u d ds l).prog.stop (x :: xs) s =
    (unlinkState u d ds).prog.stop xs
      (s.commit (s.tables.unassign l) (s.integrity.unassign l)) := by
  show ((accountEmulatorRepository.delete fun a => decide (a.userEmulator = some l)) >>= fun _ =>
    (unlinkState u d ds).prog).stop (x :: xs) s = _
  refine stop_statement_bind (a := ()) ?_ (s.integrity.unassign l)
  rw [← s.integrity.cascade_unassign]
  rfl

open EmulatorService in
theorem unlinkState_prog : (unlinkState u d ds).prog =
    emulatorRepository.set (some (.str d)) (fun _ e => { e with state := .AVAILABLE }) >>= fun _ =>
      unlinkRest u ds := by
  show setState (some (.str d)) .AVAILABLE >>= (fun _ => unlinkRest u ds) = _
  unfold setState
  rw [bind_assoc]
  rfl

theorem stop_unlinkState (hd : d ≠ "") : (unlinkState u d ds).prog.stop (x :: xs) s =
    (unlinkRest u ds).stop xs
      (s.commit (s.tables.makeAvailable d) (s.integrity.makeAvailable d)) := by
  rw [unlinkState_prog, Repository.set_str]
  exact stop_statement_bind (if_neg hd) (s.integrity.makeAvailable d)

theorem stop_unlinkMark_empty :
    ∃ e, (unlinkMark u d ds "").prog.stop (x :: xs) s = (some (.error e), s) := by
  show ∃ e, (userEmulatorRepository.set (some (.str "")) _ >>= fun _ =>
    (unlinkAssign u d ds "").prog).stop (x :: xs) s = (some (.error e), s)
  rw [Repository.set_str]
  exact ⟨_, stop_statement_bind_error (if_pos rfl)⟩

theorem stop_unlinkState_empty :
    ∃ e, (unlinkState u "" ds).prog.stop (x :: xs) s = (some (.error e), s) := by
  rw [unlinkState_prog, Repository.set_str]
  exact ⟨_, stop_statement_bind_error (if_pos rfl)⟩

end Phase

/-- The links to end can be ended: the ORM takes their ids and the ids of their
devices as criteria. -/
def Tables.Endable (t : Tables) (u : String) (ds : List String) : Prop :=
  ∀ l ∈ t.joining u ds, l.id ≠ "" ∧ l.device ≠ some ""

theorem Tables.endable_cons {t : Tables} (date : UserEmulators → Date) {u d : String}
    {ds : List String} :
    t.Endable u (d :: ds) ↔ t.Endable u [d] ∧ (t.unlink date u [d]).Endable u ds := by
  unfold Endable
  have hmem : ∀ l, l ∈ t.joining u ([d] ++ ds) ↔ _ := fun l => mem_joining_append date
  constructor
  · exact fun h => ⟨fun l hl => h l ((hmem l).2 (.inl hl)), fun l hl => h l ((hmem l).2 (.inr hl))⟩
  · exact fun ⟨h, hrest⟩ l hl => ((hmem l).1 hl).elim (h l) (hrest l)

/-- Where a turn of the loop can be stopped: before it writes anything, in an
update that the ORM refuses, with the link ended and the device REGISTERED, or
after it. -/
inductive UnlinkTurn (u d : String) (ds : List String) (s : Server) :
    List Ext → Option (Except Rejection Unit) × Server → Prop
  | before {xs : List Ext} : xs.length < 2 → (s.tables.joining u [d] = [] → xs = []) →
      UnlinkTurn u d ds s xs (none, s)
  | refused {xs : List Ext} {r : UserEmulators} {e : Rejection} : r ∈ s.tables.joining u [d] →
      r.id = "" → UnlinkTurn u d ds s xs (some (.error e), s)
  | within {xs : List Ext} {r : UserEmulators} {now : Date} {s' : Server}
      {o : Option (Except Rejection Unit)} : r ∈ s.tables.joining u [d] → r.id ≠ "" →
      (o = none ∧ (xs.length = 2 ∨ xs.length = 3)) ∨ (d = "" ∧ ∃ e, o = some (.error e)) →
      s'.tables.emulators = s.tables.emulators →
      s'.tables.userEmulators = (s.tables.endLink r.id now).userEmulators →
      UnlinkTurn u d ds s xs (o, s')
  | after {xs xs' : List Ext} {now : Date} {s' : Server} : s.tables.Endable u [d] →
      s'.tables = s.tables.unlink (fun _ => now) u [d] →
      xs.length = xs'.length + (if s.tables.joining u [d] = [] then 1 else 4) →
      UnlinkTurn u d ds s xs ((Phase.unlinkRest u ds).stop xs' s')

open Phase in
theorem unlinkTurn (u d : String) (ds : List String) {s : Server} (h : s.tables.Exclusive)
    (xs : List Ext) : UnlinkTurn u d ds s xs ((unlinkRest u (d :: ds)).stop xs s) := by
  cases hr : s.tables.joining u [d] with
  | nil =>
    rcases xs with _ | ⟨x, xs⟩
    · exact .before (by simp) fun _ => rfl
    · rw [stop_unlinkFind_none hr]
      refine .after (fun l hl => ?_) (Tables.unlink_of_none s.integrity hr fun _ => 0).symm ?_
      · rw [hr] at hl
        cases hl
      · rw [if_pos hr, List.length_cons]
  | cons r rest =>
    have hmem : r ∈ s.tables.joining u [d] := hr ▸ List.mem_cons_self
    have hne : s.tables.joining u [d] ≠ [] := fun hnil => List.ne_nil_of_mem hmem hnil
    rcases xs with _ | ⟨x₁, _ | ⟨x₂, xs⟩⟩
    · exact .before (by simp) fun _ => rfl
    · rw [stop_unlinkFind h hmem]
      exact .before (by simp) fun hnil => (hne hnil).elim
    · rw [stop_unlinkFind h hmem]
      by_cases hid : r.id = ""
      · rw [hid]
        obtain ⟨e, he⟩ : ∃ e, (unlinkMark u d ds "").prog.stop (x₂ :: xs) s = (some (.error e), s) :=
          stop_unlinkMark_empty
        rw [he]
        exact .refused hmem hid
      rw [stop_unlinkMark hid]
      rcases xs with _ | ⟨x₃, xs⟩
      · exact .within hmem hid (.inl ⟨rfl, .inl rfl⟩) rfl rfl
      rw [stop_unlinkAssign]
      rcases xs with _ | ⟨x₄, xs⟩
      · exact .within hmem hid (.inl ⟨rfl, .inr rfl⟩) rfl rfl
      by_cases hd : d = ""
      · subst hd
        obtain ⟨e, he⟩ := @stop_unlinkState_empty u ds _ x₄ xs
        rw [he]
        exact .within hmem hid (.inr ⟨rfl, e, rfl⟩) rfl rfl
      rw [stop_unlinkState hd]
      refine .after (fun l hl => ?_) (Tables.unlink_singleton s.integrity h hmem x₂.now) ?_
      · obtain ⟨hmem', hjoins⟩ := Tables.mem_joining.1 hl
        obtain ⟨hr', hjoins'⟩ := Tables.mem_joining.1 hmem
        rw [h d l (Tables.mem_active_of_joins hmem' hjoins) r (Tables.mem_active_of_joins hr' hjoins')]
        have hdev := (Tables.mem_active.1 (Tables.mem_active_of_joins hr' hjoins')).2.1
        exact ⟨hid, fun hempty => hd (Option.some.inj (hdev.symm.trans hempty))⟩
      · rw [if_neg hne]
        rfl

open Phase in
/-- The call returns if and only if the links can be ended, and then has ended
them. -/
theorem unlinkRest_ends {u : String} {ds : List String} {s s' : Server} {r : Except Rejection Unit}
    (h : s.tables.Exclusive) (hends : (unlinkRest u ds).Ends s r s') :
    (r = .ok () ∧ s.tables.Endable u ds ∧ ∃ date, s'.tables = s.tables.unlink date u ds) ∨
      ((∃ e, r = .error e) ∧ ¬ s.tables.Endable u ds) := by
  obtain ⟨xs, hxs⟩ := Prog.ends_iff_stop.1 hends
  clear hends
  induction ds generalizing s xs with
  | nil =>
    have hnone : s.tables.joining u [] = [] :=
      List.filter_eq_nil_iff.2 fun l _ => by simp [UserEmulators.joins]
    obtain ⟨hr, rfl⟩ := Prod.mk.inj (hxs : (some (Except.ok ()), s) = _)
    refine .inl ⟨(Option.some.inj hr).symm, fun l hl => ?_, fun _ => 0, ?_⟩
    · rw [hnone] at hl
      cases hl
    · exact (Tables.unlink_of_none s.integrity hnone _).symm
  | cons d ds ih =>
    have hturn := unlinkTurn u d ds h xs
    rw [hxs] at hturn
    generalize ho : (some r, s') = o at hturn
    cases hturn with
    | before _ _ => cases (Prod.mk.inj ho).1
    | refused hmem hid =>
      refine .inr ⟨⟨_, Option.some.inj (Prod.mk.inj ho).1⟩, fun hend => ?_⟩
      exact ((Tables.endable_cons fun _ => 0).1 hend).1 _ hmem |>.1 hid
    | within hmem hid hwhere _ _ =>
      rcases hwhere with ⟨rfl, -⟩ | ⟨rfl, e, rfl⟩
      · cases (Prod.mk.inj ho).1
      · refine .inr ⟨⟨e, Option.some.inj (Prod.mk.inj ho).1⟩, fun hend => ?_⟩
        obtain ⟨-, -, d', hd', hdev⟩ := UserEmulators.joins_iff.1 (Tables.mem_joining.1 hmem).2
        rw [List.mem_singleton.1 hd'] at hdev
        exact ((Tables.endable_cons fun _ => 0).1 hend).1 _ hmem |>.2 hdev
    | @after xs' now s₁ hend htables _ =>
      rw [Tables.endable_cons fun _ => now, ← htables]
      rcases ih (htables ▸ h.unlink) xs' ho.symm with ⟨hr, hrest, date, hdate⟩ | ⟨hr, hrest⟩
      · refine .inl ⟨hr, ⟨hend, hrest⟩, fun l => if l.joins u [d] then now else date l, ?_⟩
        rw [hdate, htables, Tables.unlink_unlink]
        rfl
      · exact .inr ⟨hr, fun hall => hrest hall.2⟩

end Damaru
