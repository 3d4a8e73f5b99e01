import Damaru.Common.Js
import Damaru.Text.Number

/-!
# Loose equality

`==` between a value of a body and a text. Two texts are compared as they are,
an array or an object by the text that it turns into, and any other value by
the numbers that it and the text stand for.
-/

namespace Damaru

open Text

/-- The number of the digits of a whole number in another radix. -/
def nonDecimal (radix : Nat) (cs : List Char) : Option Number :=
  if cs ≠ [] ∧ cs.all fun c => (digitValue radix c).isSome then
    some (Number.ofDecimal false (ofDigits radix (cs.filterMap (digitValue radix))) 0)
  else none

/-- The number of a decimal without a sign. There need not be digits on both
sides of the point. -/
def unsignedDecimal (negative : Bool) (cs : List Char) : Option Number :=
  if cs = "Infinity".toList then some (Number.ofDecimal negative 1 400)
  else
    let whole := cs.takeWhile Char.isDigit
    let rest := cs.dropWhile Char.isDigit
    let point := rest.head? = some '.'
    let fraction := if point then rest.tail.takeWhile Char.isDigit else []
    if whole = [] ∧ fraction = [] then none
    else (Number.exponent (if point then rest.tail.dropWhile Char.isDigit else rest)).map fun e =>
      Number.ofDecimal negative (Nat.ofDigitChars 10 (whole ++ fraction) 0) (e - fraction.length)

/-- `Number(t)`, with `none` for `NaN`. -/
def toNumber (t : String) : Option Number :=
  let cs := ((t.toList.dropWhile isStrWhiteSpace).reverse.dropWhile isStrWhiteSpace).reverse
  match cs with
  | [] => some (Number.ofDecimal false 0 0)
  | '0' :: 'x' :: ds => nonDecimal 16 ds
  | '0' :: 'X' :: ds => nonDecimal 16 ds
  | '0' :: 'o' :: ds => nonDecimal 8 ds
  | '0' :: 'O' :: ds => nonDecimal 8 ds
  | '0' :: 'b' :: ds => nonDecimal 2 ds
  | '0' :: 'B' :: ds => nonDecimal 2 ds
  | '-' :: ds => unsignedDecimal true ds
  | '+' :: ds => unsignedDecimal false ds
  | ds => unsignedDecimal false ds

/-- The number of a value that is neither a text nor an array nor an object. -/
def Json.number : Json → Option Number
  | .bool b => some (Number.ofDecimal false b.toNat 0)
  | .int n => some (Number.ofDecimal (n < 0) n.natAbs 0)
  | .frac t => toNumber t
  | _ => none

namespace JsVal

/-- `v == t`. A value that cannot be turned into a text equals none. -/
def looselyEquals : JsVal → String → Bool
  | none, _ => false
  | some (.str s), t => s = t
  | some (.arr l), t => (Json.arr l).hasText && (Json.arr l).toText = t
  | some (.obj ms), t => (Json.obj ms).hasText && (Json.obj ms).toText = t
  | some j, t => j.number.any fun x => (toNumber t).any fun y => x == y

@[simp] theorem looselyEquals_str {s t : String} :
    looselyEquals (some (.str s)) t = true ↔ s = t := decide_eq_true_iff

/-- A value without a text equals no text. -/
theorem looselyEquals_of_not_hasText {j : Json} (h : j.hasText = false) (t : String) :
    looselyEquals (some j) t = false := by
  cases j with
  | arr l => exact Bool.and_eq_false_imp.2 fun htext => absurd (h.symm.trans htext) Bool.false_ne_true
  | obj ms => exact Bool.and_eq_false_imp.2 fun htext => absurd (h.symm.trans htext) Bool.false_ne_true
  | _ => cases h

example : ["01", " 1.0e0\n", "0x1", "1.", "", "1a"].map (looselyEquals (some (.int 1))) =
    [true, true, true, true, false, false] := by decide +kernel

end JsVal

end Damaru
