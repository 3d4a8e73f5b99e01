import Mathlib.Data.List.Basic

/-!
# Observables

A cold observable as what one subscription brings: the calls that it makes, the
values that it emits, and the error that it ends with, if any.
-/

namespace Async

structure Observable (κ ε α : Type) where
  calls : List κ
  values : List α
  error : Option ε

namespace Observable

variable {κ ε α β : Type}

def of (a : α) : Observable κ ε α := ⟨[], [a], none⟩

def failing (e : ε) : Observable κ ε α := ⟨[], [], some e⟩

/-- A call `k` that is answered with a value or fails. -/
def call (k : κ) : Except ε α → Observable κ ε α
  | .ok a => ⟨[k], [a], none⟩
  | .error e => ⟨[k], [], some e⟩

/-- The values of `f` up to the first that it throws for. -/
def mapValues (f : α → Except ε β) : List α → List β × Option ε
  | [] => ([], none)
  | a :: as =>
    match f a with
    | .ok b => (b :: (mapValues f as).1, (mapValues f as).2)
    | .error e => ([], some e)

def map (f : α → Except ε β) (o : Observable κ ε α) : Observable κ ε β :=
  ⟨o.calls, (mapValues f o.values).1, (mapValues f o.values).2.or o.error⟩

/-- In place of an error, the observable that `h` gives for it. -/
def catchError (h : ε → Observable κ ε α) (o : Observable κ ε α) : Observable κ ε α :=
  match o.error with
  | none => o
  | some e => ⟨o.calls ++ (h e).calls, o.values ++ (h e).values, (h e).error⟩

/-- The promise of the last value; `empty` is the error that there is none. -/
def lastValue (empty : ε) (o : Observable κ ε α) : Except ε α :=
  match o.error with
  | some e => .error e
  | none =>
    match o.values.getLast? with
    | some a => .ok a
    | none => .error empty

/-- An observable that settles as one value or one error. -/
def settled (calls : List κ) : Except ε α → Observable κ ε α
  | .ok a => ⟨calls, [a], none⟩
  | .error e => ⟨calls, [], some e⟩

theorem call_eq (k : κ) (r : Except ε α) : call k r = settled [k] r := by
  cases r <;> rfl

@[simp] theorem map_settled (f : α → Except ε β) (calls : List κ) (r : Except ε α) :
    (settled calls r).map f = settled calls (r.bind f) := by
  cases r with
  | error e => rfl
  | ok a =>
    unfold settled map mapValues Except.bind
    dsimp only
    cases f a <;> rfl

/-- The value in place of an error. -/
def recover (h : ε → α) : Except ε α → α
  | .ok a => a
  | .error e => h e

@[simp] theorem catchError_settled (h : ε → α) (calls : List κ) (r : Except ε α) :
    (settled calls r).catchError (fun e => of (h e)) = settled calls (.ok (recover h r)) := by
  cases r with
  | ok a => rfl
  | error e => exact congrArg (fun calls => Observable.mk calls [h e] none) (List.append_nil calls)

@[simp] theorem lastValue_settled (empty : ε) (calls : List κ) (r : Except ε α) :
    (settled calls r).lastValue empty = r := by
  cases r <;> rfl

end Observable

end Async
