import Damaru.Async.Pool
import Damaru.Database
import Damaru.Table.Rows

/-!
# The server

The state that request handlers share, how their calls fail, and the three
kinds of atomic steps they take: a query, a statement, and the code between
two awaits that touches the sockets. A statement commits only if the tables it
leaves satisfy their constraints.
-/

namespace Damaru

open Async

inductive HttpStatus where
  | FOUND
  | BAD_REQUEST
  | UNAUTHORIZED
  | NOT_FOUND
  | NOT_ACCEPTABLE
  deriving DecidableEq, Repr

/-- How a call fails: by an exception of the code's own (`http`, `ws`), by one
of the language, by a library that refuses its arguments, or because the
database rejects the statement. -/
inductive Rejection where
  | http (status : HttpStatus) (message : String)
  | ws (message : String)
  | typeError (message : String)
  | library (message : String)
  | query
  deriving DecidableEq, Repr

/-- The exceptions that the services throw themselves. -/
def Rejection.Explicit : Rejection → Prop
  | .http _ _ => True
  | .ws _ => True
  | _ => False

structure Socket where
  id : String
  deriving DecidableEq, Repr

inductive Recipient where
  | socket (s : Socket)
  | room (name : String)
  deriving DecidableEq, Repr

structure Emission where
  recipient : Recipient
  event : String
  payload : List (String × JsVal)

/-- What a deployment fixes: the configuration, and the libraries' readings of
values that are not what their types say. -/
structure Platform where
  /-- `none` where it is not set. -/
  DEFAULT_DAYS : Option Int
  SCREENSHOT_URL : Option String
  /-- `bcrypt.compare` on two strings. -/
  compare : String → String → Bool
  /-- How many days `moment` adds for a value that is not a whole number;
  `none` makes the date invalid. -/
  amount : Json → Option Int
  /-- The date that the database reads a text as. -/
  date : String → Option Date

/-- Whether a body gives a row a date of its creation or of its last change that
is null or that the database cannot read. -/
def Platform.refusesDates (p : Platform) (body : Json) : Bool :=
  ["created_at", "updated_at"].any fun k => (body.get? k).any fun j => (j.bound.bind p.date).isNone

structure Server where
  platform : Platform
  db : Database
  /-- The ids of all rows there have been before the last statement. -/
  issued : List String
  connections : List (JsVal × Socket)
  emitted : List Emission

/-- What the environment supplies to one atomic step. -/
structure Ext where
  now : Date
  uuid : String
  /-- The order in which a table is scanned, by key. -/
  rank : String → Nat
  /-- `Math.floor(Math.random() * n)` in the i-th draw, before it is brought
  below `n`. -/
  draws : Nat → Nat
  /-- `bcrypt.hash` under the salt it drew. -/
  hash : String → String
  /-- The rows that an update criterion selects which is neither a string nor
  a number. -/
  criterion : String → Bool

instance : Inhabited Ext := ⟨⟨0, "", fun _ => 0, fun _ => 0, id, fun _ => false⟩⟩

abbrev Svc := Prog Ext Server Rejection

namespace Server

def tables (s : Server) : Tables := s.db.toTables

theorem integrity (s : Server) : s.tables.Integrity := s.db.integrity

/-- The ids of all rows there have ever been. -/
def used (s : Server) : List String := s.issued ++ s.tables.ids

/-- Whether the database takes the text. It takes those that it holds: the ids of
rows are uuids, whatever texts stand for them. -/
def takesText (s : Server) (k : String) : Bool :=
  storable k || k ∈ s.used || k ∈ s.tables.emulators.map Emulator.device_id

/-- Whether the database reads the text as an id. -/
def readsId (s : Server) (k : String) : Bool := isUuid k || k ∈ s.used

/-- The server after a committed statement. -/
def commit (s : Server) (t : Tables) (h : t.Integrity) : Server :=
  { s with db := ⟨t, h⟩, issued := s.used }

@[simp] theorem commit_tables (s : Server) (t : Tables) (h : t.Integrity) :
    (s.commit t h).tables = t := rfl

@[simp] theorem commit_platform (s : Server) (t : Tables) (h : t.Integrity) :
    (s.commit t h).platform = s.platform := rfl

@[simp] theorem commit_connections (s : Server) (t : Tables) (h : t.Integrity) :
    (s.commit t h).connections = s.connections := rfl

@[simp] theorem commit_emitted (s : Server) (t : Tables) (h : t.Integrity) :
    (s.commit t h).emitted = s.emitted := rfl

/-- No id is forgotten. -/
theorem used_commit (s : Server) (t : Tables) (h : t.Integrity) :
    (s.commit t h).used = s.used ++ t.ids := rfl

theorem mem_used_of_mem_ids {s : Server} {k : String} (h : k ∈ s.tables.ids) : k ∈ s.used :=
  List.mem_append_right _ h

end Server

/-- A generated id: no row has had it before. -/
def Ext.fresh (x : Ext) (s : Server) : String := Table.fresh x.uuid s.used

theorem Ext.fresh_not_used (x : Ext) (s : Server) : x.fresh s ∉ s.used := Table.fresh_not_mem _ _

theorem Ext.fresh_ne_empty (x : Ext) (s : Server) : x.fresh s ≠ "" := Table.fresh_ne_empty _ _

/-- Reads the tables. -/
def query {α : Type} (f : Ext → Server → Except Rejection α) : Svc α := Prog.op fun x s => (f x s, s)

/-- Changes the tables, within their constraints. -/
def statement {α : Type} (f : Ext → Server → Except Rejection (α × Tables)) : Svc α :=
  Prog.op fun x s =>
    match f x s with
    | .error e => (.error e, s)
    | .ok (a, t) => if h : t.Integrity then (.ok a, s.commit t h) else (.error .query, s)

/-- Runs code that awaits nothing. -/
def sync {α : Type} (f : Server → Except Rejection α × Server) : Svc α := Prog.op fun _ s => f s

section Steps

variable {α : Type} {s s' : Server} {r : Except Rejection α}

theorem run_query {f : Ext → Server → Except Rejection α} {x : Ext} :
    (query f).run [x] s = some (f x s, s) := by
  show (Prog.ofExcept (f x s) : Svc α).run [] s = _
  cases f x s <;> rfl

theorem run_query_bind {β : Type} {f : Ext → Server → Except Rejection α} {g : α → Svc β} {x : Ext}
    {xs : List Ext} {a : α} (h : f x s = .ok a) : (query f >>= g).run (x :: xs) s = (g a).run xs s := by
  unfold query
  rw [Prog.run_op_bind, h]

theorem ends_query {f : Ext → Server → Except Rejection α} :
    Prog.Ends (query f) s r s' ↔ s' = s ∧ ∃ x, f x s = r := by
  unfold query
  rw [Prog.ends_op]
  constructor
  · intro ⟨x, h⟩
    exact ⟨(Prod.mk.inj h).2.symm, x, (Prod.mk.inj h).1⟩
  · intro ⟨hs, x, h⟩
    exact ⟨x, by rw [h, hs]⟩

theorem ends_statement {f : Ext → Server → Except Rejection (α × Tables)} :
    Prog.Ends (statement f) s r s' ↔
      ∃ x, (∃ e, f x s = .error e ∧ r = .error e ∧ s' = s) ∨
        ∃ a t, f x s = .ok (a, t) ∧
          ((∃ h : t.Integrity, r = .ok a ∧ s' = s.commit t h) ∨
            (¬ t.Integrity ∧ r = .error .query ∧ s' = s)) := by
  unfold statement
  rw [Prog.ends_op]
  refine exists_congr fun x => ?_
  cases hf : f x s with
  | error e => simp [eq_comm]
  | ok o =>
    obtain ⟨a, t⟩ := o
    by_cases h : t.Integrity
    · simp [h, eq_comm]
    · simp [h, eq_comm]

theorem ends_sync {f : Server → Except Rejection α × Server} :
    Prog.Ends (sync f) s r s' ↔ f s = (r, s') := by
  unfold sync
  rw [Prog.ends_op]
  exact ⟨fun ⟨_, h⟩ => h, fun h => ⟨default, h⟩⟩

/-- A statement that the database accepts. -/
theorem ends_statement_ok {f : Ext → Server → Except Rejection (α × Tables)} {x : Ext} {a : α}
    {t : Tables} (hf : f x s = .ok (a, t)) (h : t.Integrity) :
    Prog.Ends (statement f) s (.ok a) (s.commit t h) :=
  ends_statement.2 ⟨x, .inr ⟨a, t, hf, .inl ⟨h, rfl, rfl⟩⟩⟩

variable {R : Server → Server → Prop}

theorem each_query (hrefl : ∀ s, R s s) {f : Ext → Server → Except Rejection α} :
    (query f).Each R := Prog.each_op fun _ s => hrefl s

theorem each_statement (hrefl : ∀ s, R s s) {f : Ext → Server → Except Rejection (α × Tables)}
    (hstep : ∀ x s a t, f x s = .ok (a, t) → ∀ h : t.Integrity, R s (s.commit t h)) :
    (statement f).Each R := by
  refine Prog.each_op fun x s => ?_
  split
  · exact hrefl s
  · rename_i a t hf
    split
    · rename_i h
      exact hstep x s a t hf h
    · exact hrefl s

theorem each_sync {f : Server → Except Rejection α × Server} (h : ∀ s, R s (f s).2) :
    (sync f).Each R := Prog.each_op fun _ s => h s

@[simp] theorem forkFree_query {f : Ext → Server → Except Rejection α} : (query f).ForkFree :=
  Prog.forkFree_op

@[simp] theorem forkFree_statement {f : Ext → Server → Except Rejection (α × Tables)} :
    (statement f).ForkFree := Prog.forkFree_op

@[simp] theorem forkFree_sync {f : Server → Except Rejection α × Server} : (sync f).ForkFree :=
  Prog.forkFree_op

end Steps

end Damaru
