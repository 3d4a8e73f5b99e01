import Damaru.Text.Utf

/-!
# Base64

How `Buffer` writes bytes in base64 and reads them back: what follows the first
`=` is not read, a unit is read by its low byte, and one outside the alphabet is
passed over.
-/

namespace Text.Base64

def alphabet : List Char := "ABCDEFGHIJKLMNOPQRSTUVWXYZabcdefghijklmnopqrstuvwxyz0123456789+/".toList

/-- The symbol of six bits. -/
def symbol (n : Nat) : UInt16 := UInt16.ofNat (alphabet.getD n '=').toNat

def pad : UInt16 := 61

/-- Three bytes are four symbols. -/
def encode : List UInt8 → Units
  | [] => []
  | [a] => [symbol (a.toNat / 4), symbol (a.toNat % 4 * 16), pad, pad]
  | [a, b] =>
    [symbol (a.toNat / 4), symbol (a.toNat % 4 * 16 + b.toNat / 16), symbol (b.toNat % 16 * 4), pad]
  | a :: b :: c :: bs =>
    symbol (a.toNat / 4) :: symbol (a.toNat % 4 * 16 + b.toNat / 16) ::
      symbol (b.toNat % 16 * 4 + c.toNat / 64) :: symbol (c.toNat % 64) :: encode bs

/-- The six bits of a symbol, of this alphabet or of the one for URLs. -/
def value (u : UInt16) : Option Nat :=
  let n := u.toNat % 256
  if 65 ≤ n ∧ n ≤ 90 then some (n - 65)
  else if 97 ≤ n ∧ n ≤ 122 then some (n - 71)
  else if 48 ≤ n ∧ n ≤ 57 then some (n + 4)
  else if n = 43 ∨ n = 45 then some 62
  else if n = 47 ∨ n = 95 then some 63
  else none

/-- The bytes of groups of four times six bits. A group that ends early has the
bytes that are whole. -/
def bytes : List Nat → List UInt8
  | a :: b :: c :: d :: s =>
    UInt8.ofNat (a * 4 + b / 16) :: UInt8.ofNat (b % 16 * 16 + c / 4) ::
      UInt8.ofNat (c % 4 * 64 + d) :: bytes s
  | [a, b, c] => [UInt8.ofNat (a * 4 + b / 16), UInt8.ofNat (b % 16 * 16 + c / 4)]
  | [a, b] => [UInt8.ofNat (a * 4 + b / 16)]
  | _ => []

def sextets (s : Units) : List Nat := (s.takeWhile (· ≠ pad)).filterMap value

def decode (s : Units) : List UInt8 := bytes (sextets s)

theorem symbol_spec : ∀ n : Fin 64, symbol n ≠ pad ∧ value (symbol n) = some n.val := by decide +kernel

theorem sextets_symbol {n : Nat} (h : n < 64) (s : Units) :
    sextets (symbol n :: s) = n :: sextets s := by
  obtain ⟨hpad, hvalue⟩ := symbol_spec ⟨n, h⟩
  show ((symbol n :: s).takeWhile (· ≠ pad)).filterMap value = _
  rw [List.takeWhile_cons, if_pos (decide_eq_true hpad)]
  exact List.filterMap_cons_some hvalue

theorem sextets_pad (s : Units) : sextets (pad :: s) = [] := rfl

theorem ofNat_eq {n : Nat} {a : UInt8} (h : n = a.toNat) : UInt8.ofNat n = a := by
  rw [h, UInt8.ofNat_toNat]

/-- **Round trip.** Bytes come back from their base64. -/
theorem decode_encode (bs : List UInt8) : decode (encode bs) = bs := by
  unfold decode
  fun_induction encode bs with
  | case1 => rfl
  | case2 a =>
    have ha := a.toNat_lt
    rw [sextets_symbol (by omega), sextets_symbol (by omega), sextets_pad]
    show [UInt8.ofNat _] = _
    rw [@ofNat_eq _ a (by omega)]
  | case3 a b =>
    have ha := a.toNat_lt
    have hb := b.toNat_lt
    rw [sextets_symbol (by omega), sextets_symbol (by omega), sextets_symbol (by omega), sextets_pad]
    show [UInt8.ofNat _, UInt8.ofNat _] = _
    rw [@ofNat_eq _ a (by omega), @ofNat_eq _ b (by omega)]
  | case4 a b c bs ih =>
    have ha := a.toNat_lt
    have hb := b.toNat_lt
    have hc := c.toNat_lt
    rw [sextets_symbol (by omega), sextets_symbol (by omega), sextets_symbol (by omega),
      sextets_symbol (by omega)]
    unfold bytes
    rw [@ofNat_eq _ a (by omega), @ofNat_eq _ b (by omega), @ofNat_eq _ c (by omega), ih]

/-- Every three bytes, and what is left of them, take four symbols. -/
theorem length_encode (bs : List UInt8) : (encode bs).length = (bs.length + 2) / 3 * 4 := by
  fun_induction encode bs with
  | case1 => rfl
  | case2 a => simp only [List.length_cons, List.length_nil]
  | case3 a b => simp only [List.length_cons, List.length_nil]
  | case4 a b c bs ih =>
    simp only [List.length_cons, ih]
    omega

end Text.Base64
