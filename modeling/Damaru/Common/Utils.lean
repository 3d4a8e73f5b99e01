import Damaru.Server

/-!
# Utilities

Dates, random strings and password hashes, as the services call them.
-/

namespace Damaru

open Async

namespace DateUtils

/-- A day of `moment`, daylight saving aside. -/
def day : Int := 86400000

/-- `today`, read between two awaits. -/
def today : Svc Date := query fun x _ => .ok x.now

/-- The date that many days later, whether or not there is such a date. -/
def shift (days : Int) (date : Date) : Date := date + days * day

/-- The dates that both the language and the database have: those of the
language end a hundred million days after its epoch, those of the database
begin with the Julian period. -/
def isDate (date : Date) : Bool := -2440588 * day ≤ date && date ≤ 100000000 * day

/-- `add(days, 'days', date)`; `none` where there is no such date. -/
def add (days : Int) (date : Date) : Option Date :=
  if isDate (shift days date) then some (shift days date) else none

theorem add_of_isDate {days : Int} {date : Date} (h : isDate (shift days date) = true) :
    add days date = some (shift days date) := if_pos h

/-- `diffInDays`: whole days, towards zero. -/
def diffInDays (date1 date2 : Date) : Int := (date1 - date2).tdiv day

/-- `diffInDays` in seconds. -/
def diffInSeconds (date1 date2 : Date) : Int := (date1 - date2).tdiv 1000

/-- The number of days that `moment` takes a value for. -/
def amount (p : Platform) : JsVal → Option Int
  | none => some 0
  | some .null => some 0
  | some (.int n) => some n
  | some j => p.amount j

end DateUtils

namespace StringUtils

def generate (charSet : List Char) (length : Nat) (draws : Nat → Nat) : String :=
  String.ofList ((List.range length).map fun i => charSet.getD (draws i % charSet.length) '0')

def generateRandomAlphaNumeric (length : Nat) (draws : Nat → Nat) : String :=
  generate "ABCDEFGHIJKLMNOPQRSTUVWXYZabcdefghijklmnopqrstuvwxyz0123456789".toList length draws

def generateRandomNumeric (length : Nat) (draws : Nat → Nat) : String :=
  generate "0123456789".toList length draws

end StringUtils

/-- Draws from `Math.random`. -/
def random : Svc (Nat → Nat) := query fun x _ => .ok x.draws

namespace HashUtils

def hash : JsVal → Svc String
  | some (.str plainText) => query fun x _ => .ok (x.hash plainText)
  | _ => throw (.library "data must be a string or Buffer")

def compareHash (nonHashed : JsVal) (hashed : String) : Svc Bool :=
  match nonHashed with
  | some (.str plainText) => query fun _ s => .ok (s.platform.compare plainText hashed)
  | _ => throw (.library "data and hash must be strings")

end HashUtils

def Utils.getDefaultScreenShot (screenShotUrl : Option String) (name : String) : String :=
  screenShotUrl.getD "undefined" ++ "/" ++ name

/-- `for (const x of v)`; `what` names `v` in the error. -/
def forOf (what : String) (v : JsVal) (body : JsVal → Svc Unit) : Svc Unit :=
  match v.iterate with
  | none => throw (.typeError (what ++ " is not iterable"))
  | some items => forM items fun j => body (some j)

/-- Goes on with what code between two awaits computed, or failed with. -/
def ofResult {α : Type} : Except Rejection α → Svc α := Prog.ofExcept

/-- Reading a property of `null` or `undefined`. -/
def cannotRead (property : String) : Rejection :=
  .typeError ("Cannot read properties of null (reading '" ++ property ++ "')")

end Damaru
