import Mathlib

/-!
# Numbers in decimal

How JavaScript reads a number and writes one: a decimal stands for the double
nearest to it, and a double is written with the fewest digits that stand for
it. Doubles are the language's own model of `binary64`.
-/

namespace Text

abbrev Number := Float.Model

namespace Number

open Float.Model Float.Model.UnpackedFloat

/-! ## Reading -/

/-- The number nearest to `d * 10 ^ e`, or to its opposite. -/
def ofDecimal (negative : Bool) (d : Nat) (e : Int) : Number :=
  let u := UnpackedFloat.ofScientific Format.binary64 d e
  .pack (if negative then u.neg else u)

def digits (s : List Char) : Option Nat :=
  if s ≠ [] ∧ s.all Char.isDigit then some (Nat.ofDigitChars 10 s 0) else none

def signed : List Char → Option Int
  | '-' :: s => (digits s).map fun d : Nat => -(d : Int)
  | '+' :: s => (digits s).map Int.ofNat
  | s => (digits s).map Int.ofNat

/-- The exponent that the rest of a literal gives. -/
def exponent : List Char → Option Int
  | [] => some 0
  | c :: s => if c = 'e' ∨ c = 'E' then signed s else none

/-- The digits behind the point, and what follows them. -/
def fraction : List Char → Option (List Char × List Char)
  | '.' :: s =>
    if s.takeWhile Char.isDigit = [] then none
    else some (s.takeWhile Char.isDigit, s.dropWhile Char.isDigit)
  | s => some ([], s)

def unsigned (negative : Bool) (s : List Char) : Option Number :=
  let whole := s.takeWhile Char.isDigit
  if whole = [] ∨ (1 < whole.length ∧ whole.head? = some '0') then none
  else
    (fraction (s.dropWhile Char.isDigit)).bind fun f =>
      (exponent f.2).map fun e =>
        ofDecimal negative (Nat.ofDigitChars 10 (whole ++ f.1) 0) (e - f.1.length)

/-- The number that a literal stands for. -/
def read : List Char → Option Number
  | '-' :: s => unsigned true s
  | s => unsigned false s

/-! ## Writing -/

/-- The decimal that `m * 2 ^ e` is. -/
def exact (m : Nat) (e : Int) : Nat × Int :=
  if 0 ≤ e then (m * 2 ^ e.toNat, 0) else (m * 5 ^ (-e).toNat, e)

/-- The decimals of `k` digits on both sides of `m * 2 ^ e`, the nearer one
first, and the even one of two equally near ones. -/
def neighbours (m : Nat) (e : Int) (k : Nat) : List (Nat × Int) :=
  let num := if 0 ≤ e then m * 2 ^ e.toNat else m
  let den := if 0 ≤ e then 1 else 2 ^ (-e).toNat
  let n : Int :=
    if den ≤ num then (Nat.toDigits 10 (num / den)).length
    else 1 - (Nat.toDigits 10 ((den - 1) / num)).length
  let q := n - k
  let a := num * 10 ^ (-q).toNat
  let b := den * 10 ^ q.toNat
  let lower := (a / b, q)
  let upper := if a / b + 1 = 10 ^ k then (1, n) else (a / b + 1, q)
  if 2 * (a % b) < b ∨ (2 * (a % b) = b ∧ a / b % 2 = 0) then [lower, upper] else [upper, lower]

/-- A decimal of the fewest digits that stands for the number `x`, which is
`m * 2 ^ e` or its opposite. Seventeen digits always do. -/
def shortest (x : Number) (negative : Bool) (m : Nat) (e : Int) : Nat × Int :=
  (((List.range 17).flatMap fun k => neighbours m e (k + 1)).find? fun c =>
    ofDecimal negative c.1 c.2 = x).getD (exact m e)

/-- `s * 10 ^ q` as `Number.prototype.toString` writes it. -/
def decimal (s : Nat) (q : Int) : List Char :=
  let ds := Nat.toDigits 10 s
  let n : Int := ds.length + q
  if ds.length ≤ n ∧ n ≤ 21 then ds ++ List.replicate q.toNat '0'
  else if 0 < n ∧ n ≤ 21 then ds.take n.toNat ++ '.' :: ds.drop n.toNat
  else if -6 < n ∧ n ≤ 0 then '0' :: '.' :: (List.replicate (-n).toNat '0' ++ ds)
  else
    let mantissa := if ds.length = 1 then ds else ds.take 1 ++ '.' :: ds.drop 1
    mantissa ++ 'e' :: (if n - 1 < 0 then '-' else '+') :: Nat.toDigits 10 (n - 1).natAbs

/-- The text of a finite number. -/
def text (x : Number) : Option (List Char) :=
  match x.unpack with
  | .finite .positive m e _ =>
    let c := shortest x false m e
    some (decimal c.1 c.2)
  | .finite .negative m e _ =>
    let c := shortest x true m e
    some ('-' :: decimal c.1 c.2)
  | .zero _ => some ['0']
  | _ => none

/-- The number that the text of a number stands for: the zeros have one text. -/
def copy (x : Number) : Option Number :=
  match x.unpack with
  | .finite .. => some x
  | .zero _ => some (ofDecimal false 0 0)
  | _ => none

theorem copy_of_copy {x y : Number} (h : copy x = some y) : copy y = some y := by
  unfold copy at h
  split at h
  · rename_i hx
    obtain rfl := Option.some.inj h
    unfold copy
    rw [hx]
  · obtain rfl := Option.some.inj h
    decide +kernel
  · cases h

example : read "-1.50e+2".toList = (some (ofDecimal true 15 1)) := by decide +kernel

example : (read "0.1".toList).bind text = some "0.1".toList := by decide +kernel

/-! ## Rounding what needs none -/

theorem shiftRight_mul_two_pow (m k : Nat) :
    (ExtendedMantissa.mk (m * 2 ^ k) false false) >>> k = ⟨m, false, false⟩ := by
  show Nat.repeat ExtendedMantissa.shiftRightOne k _ = _
  induction k generalizing m with
  | zero => simp [Nat.repeat]
  | succ k ih =>
    show ExtendedMantissa.shiftRightOne (Nat.repeat ExtendedMantissa.shiftRightOne k _) = _
    have h : m * 2 ^ (k + 1) = (m * 2) * 2 ^ k := by ring
    rw [h, ih]
    simp [ExtendedMantissa.shiftRightOne]

/-- The exponent is the one that the format has for the mantissa. -/
def Canonical (m : Nat) (e : Int) : Prop :=
  Format.binary64.targetExponent (totalExponent m e) = e

theorem log2_mul_two_pow {m : Nat} (hm : 0 < m) (k : Nat) : (m * 2 ^ k).log2 = m.log2 + k := by
  induction k with
  | zero => simp
  | succ k ih =>
    have h : m * 2 ^ (k + 1) = 2 * (m * 2 ^ k) := by ring
    have hne : m * 2 ^ k ≠ 0 := Nat.ne_of_gt (Nat.mul_pos hm (Nat.two_pow_pos k))
    rw [h, Nat.log2_two_mul hne, ih, Nat.add_assoc]

theorem shiftToTargetExponent_mul {m k : Nat} {e : Int} (hm : 0 < m) (h : Canonical m e) :
    shiftToTargetExponent Format.binary64 (m * 2 ^ k) (e - k) .exact = (⟨m, false, false⟩, e) := by
  have htotal : totalExponent (m * 2 ^ k) (e - k) = totalExponent m e := by
    unfold totalExponent
    rw [log2_mul_two_pow hm]
    push_cast
    ring
  unfold shiftToTargetExponent shiftToExponent
  dsimp only
  rw [htotal, h]
  have hshift : (e - (e - k)).toNat = k := by omega
  rw [hshift]
  show (ExtendedMantissa.mk (m * 2 ^ k) false false >>> k, _) = _
  rw [shiftRight_mul_two_pow]
  congr 1
  omega

/-- Rounding shifts twice: the first shift loses bits, the second only the carry
of rounding them. -/
theorem roundWithAccuracy_eq {m : Nat} {e : Int} {s : Sign} {accuracy : Accuracy}
    {first second : ExtendedMantissa × Int}
    (hfirst : shiftToTargetExponent Format.binary64 m e accuracy = first)
    (hsecond : shiftToTargetExponent Format.binary64 first.1.roundedMantissa first.2 .exact = second)
    (hpos : 0 < second.1.mantissa) :
    roundWithAccuracy Format.binary64 s m e accuracy =
      .finite s second.1.mantissa second.2 hpos := by
  subst hfirst
  subst hsecond
  exact dif_neg (Nat.ne_of_gt hpos)

/-- A number of the format is rounded to itself. -/
theorem roundWithAccuracy_mul {m k : Nat} {e : Int} (s : Sign) (hm : 0 < m) (h : Canonical m e) :
    roundWithAccuracy Format.binary64 s (m * 2 ^ k) (e - k) .exact = .finite s m e hm := by
  have hself := @shiftToTargetExponent_mul m 0 e hm h
  simp only [Nat.pow_zero, Nat.mul_one, Nat.cast_zero, Int.sub_zero] at hself
  exact roundWithAccuracy_eq (shiftToTargetExponent_mul hm h) hself hm

theorem Canonical.ge {m : Nat} {e : Int} (h : Canonical m e) : -1074 ≤ e := by
  rw [← h]
  exact Int.le_max_right _ _

theorem Canonical.log2_le {m : Nat} {e : Int} (h : Canonical m e) : m.log2 ≤ 52 := by
  have hle : totalExponent m e - 53 ≤ e := by
    conv_rhs => rw [← h]
    exact Int.le_max_left _ _
  unfold totalExponent at hle
  omega

theorem mul_finite {s₁ s₂ : Sign} {m₁ m₂ : Nat} {e₁ e₂ : Int} {h₁ : 0 < m₁} {h₂ : 0 < m₂} :
    mul Format.binary64 (.finite s₁ m₁ e₁ h₁) (.finite s₂ m₂ e₂ h₂) =
      roundWithAccuracy Format.binary64 (s₁ * s₂) (m₁ * m₂) (e₁ + e₂) .exact := rfl

/-- A product that is a number of the format. -/
theorem ofScientific_nonneg {m z : Nat} (hm : 0 < m) (hz : z ≤ 2048) :
    UnpackedFloat.ofScientific Format.binary64 m z =
      roundWithAccuracy Format.binary64 .positive (m * 2 ^ 53 * 10 ^ z) (-53) .exact := by
  have hbits : (2 : Int) ^ Format.binary64.exponentBits = 2048 := by decide
  unfold UnpackedFloat.ofScientific
  rw [dif_neg (Nat.ne_of_gt hm), hbits, if_neg (by omega), if_neg (by omega), if_pos (by omega),
    mul_finite, Nat.shiftLeft_eq]
  rfl

theorem ofScientific_integer {m k : Nat} (hm : 0 < m) (h : Canonical m k) :
    UnpackedFloat.ofScientific Format.binary64 (m * 2 ^ k) (0 : Nat) = .finite .positive m k hm := by
  rw [ofScientific_nonneg (Nat.mul_pos hm (Nat.two_pow_pos k)) (by omega)]
  have hmantissa : m * 2 ^ k * 2 ^ 53 * 10 ^ 0 = m * 2 ^ (k + 53) := by ring
  have hexponent : (-53 : Int) = (k : Int) - (k + 53 : Nat) := by omega
  rw [hmantissa, hexponent]
  exact roundWithAccuracy_mul _ hm h

theorem log2_mul_le {a b : Nat} (ha : 0 < a) (hb : 0 < b) :
    (a * b).log2 ≤ a.log2 + b.log2 + 1 := by
  have hlt : a * b < 2 ^ (a.log2 + 1) * 2 ^ (b.log2 + 1) :=
    Nat.mul_lt_mul'' Nat.lt_log2_self Nat.lt_log2_self
  rw [← Nat.pow_add] at hlt
  have hlog := (Nat.log2_lt (Nat.ne_of_gt (Nat.mul_pos ha hb))).2 hlt
  omega

/-- Enough bits of the quotient are computed for a fraction to be exact. -/
theorem targetExponent_fraction_le {m j : Nat} (hm : 0 < m) (h : Canonical m (-j)) :
    Format.binary64.targetExponent (totalExponent (m * 5 ^ j) 0 - totalExponent (10 ^ j) 0) ≤ -j := by
  have hfive : 0 < 5 ^ j := Nat.pow_pos (by decide)
  have hnum := log2_mul_le hm hfive
  have hden : (10 ^ j).log2 = (5 ^ j).log2 + j := by
    rw [← log2_mul_two_pow hfive, ← Nat.mul_pow]
  have hge := h.ge
  have hlog := h.log2_le
  refine Int.max_le.2 ⟨?_, hge⟩
  show totalExponent (m * 5 ^ j) 0 - totalExponent (10 ^ j) 0 - 53 ≤ -j
  unfold totalExponent
  omega

theorem ofScientific_fraction {m j : Nat} (hm : 0 < m) (hj : 0 < j) (h : Canonical m (-j)) :
    UnpackedFloat.ofScientific Format.binary64 (m * 5 ^ j) (-j) = .finite .positive m (-j) hm := by
  have hpos : 0 < m * 5 ^ j := Nat.mul_pos hm (Nat.pow_pos (by decide))
  have hge := h.ge
  have hbits : (2 : Int) ^ Format.binary64.exponentBits = 2048 := by decide
  unfold UnpackedFloat.ofScientific
  rw [dif_neg (Nat.ne_of_gt hpos), hbits, if_neg (by omega), if_neg (by omega), if_neg (by omega)]
  have hneg : (-(-(j : Int))).toNat = j := by omega
  unfold UnpackedFloat.div divCore
  dsimp only
  rw [hneg]
  have hle := targetExponent_fraction_le hm h
  generalize Format.binary64.targetExponent _ = t at hle
  obtain ⟨i, rfl⟩ : ∃ i : Nat, t = -(j : Int) - i := ⟨(-(j : Int) - t).toNat, by omega⟩
  have hmin : min ((0 : Int) - 0) (-(j : Int) - i) = -(j : Int) - i := by omega
  have hshift : ((0 : Int) - 0 - (-(j : Int) - i)).toNat = j + i := by omega
  have hmantissa : (m * 5 ^ j) <<< (j + i) = m * 2 ^ i * 10 ^ j := by
    rw [Nat.shiftLeft_eq, show (10 : Nat) = 5 * 2 from rfl, Nat.mul_pow, Nat.pow_add]
    ring
  have hten : 0 < 10 ^ j := Nat.pow_pos (by decide)
  rw [hmin, hshift, hmantissa, Nat.mul_div_cancel _ hten, Nat.mul_mod_left]
  exact roundWithAccuracy_mul _ hm h


/-! ## Bits -/

theorem packComponents_unpack (b : BitVec 64) :
    packComponents Format.binary64 (Sign.ofBitVec (@unpackSign Format.binary64 b))
      (@unpackExponent Format.binary64 b) (@unpackMantissa Format.binary64 b) = b := by
  have hsign : (Sign.ofBitVec (@unpackSign Format.binary64 b)).toBitVec =
      @unpackSign Format.binary64 b := by
    generalize @unpackSign Format.binary64 b = s
    unfold Sign.ofBitVec
    have hs : s = 0#1 ∨ s = 1#1 := by
      revert s; decide
    rcases hs with rfl | rfl <;> rfl
  unfold packComponents
  rw [hsign]
  unfold unpackSign unpackExponent unpackMantissa
  refine BitVec.eq_of_toNat_eq ?_
  have hlt := b.isLt
  simp only [BitVec.toNat_append, BitVec.toNat_cast, BitVec.extractLsb_toNat, Nat.shiftRight_eq_div_pow]
  rw [← Nat.shiftLeft_add_eq_or_of_lt (Nat.mod_lt _ (Nat.two_pow_pos _)),
    ← Nat.shiftLeft_add_eq_or_of_lt (Nat.mod_lt _ (Nat.two_pow_pos _)), Nat.shiftLeft_eq,
    Nat.shiftLeft_eq]
  simp only [Nat.reducePow, Nat.reduceAdd, Nat.reduceSub] at hlt ⊢
  omega

theorem canonical_subnormal {m : Nat} (hm : 0 < m) (h : m < 2 ^ 52) : Canonical m (-1074) := by
  have hlog := (Nat.log2_lt (Nat.ne_of_gt hm)).2 h
  refine Int.max_eq_right ?_
  show totalExponent m (-1074) - 53 ≤ -1074
  unfold totalExponent
  omega

theorem canonical_normal {m : Nat} {e : Int} (hm : m.log2 = 52) (he : -1074 ≤ e) : Canonical m e := by
  have htarget : totalExponent m e - 53 = e := by
    unfold totalExponent
    omega
  show max (totalExponent m e - 53) (-1074) = e
  rw [htarget]
  exact Int.max_eq_left he

/-- What a finite number of the format unpacks to. -/
structure IsUnpacked (m : Nat) (e : Int) : Prop where
  canonical : Canonical m e
  le : e ≤ 971

theorem toNat_implicit (mv : BitVec 52) : (1#1 ++ mv).toNat = 2 ^ 52 + mv.toNat := by
  rw [BitVec.toNat_append, ← Nat.shiftLeft_add_eq_or_of_lt mv.isLt, Nat.shiftLeft_eq]
  rfl

theorem log2_implicit (mv : BitVec 52) : (1#1 ++ mv).toNat.log2 = 52 := by
  rw [toNat_implicit, Nat.log2_eq_iff (by omega)]
  have hlt := mv.isLt
  omega

theorem ofNat_toNat_self {w : Nat} (b : BitVec w) : BitVec.ofNat w b.toNat = b := by
  rw [BitVec.ofNat_toNat, BitVec.setWidth_eq]

theorem pack_normal {sg : Sign} {ev : BitVec 11} {mv : BitVec 52} {e : Int}
    {hm : 0 < (1#1 ++ mv).toNat} (hinf : ev ≠ -1#11) (he : e = ev.toNat - 1075) :
    UnpackedFloat.pack Format.binary64 (.finite sg (1#1 ++ mv).toNat e hm) =
      packComponents Format.binary64 sg ev mv := by
  have hev : ev.toNat + 1 < 2048 := by
    have hlt := ev.isLt
    have hne : ev.toNat ≠ 2047 := fun h => hinf (BitVec.eq_of_toNat_eq h)
    omega
  have hbiased : (e + (Format.binary64.exponentBias : Int) + (52 : Nat)).toNat = ev.toNat := by
    have hbias : (Format.binary64.exponentBias : Int) = 1023 := by decide
    omega
  unfold UnpackedFloat.pack
  dsimp only
  rw [hbiased, if_neg (by simp only [Nat.reducePow]; omega), if_pos (by rw [log2_implicit]; rfl)]
  congr 1
  · exact ofNat_toNat_self ev
  · refine BitVec.eq_of_toNat_eq ?_
    rw [BitVec.toNat_ofNat, toNat_implicit]
    exact Nat.add_mod_left _ _ |>.trans (Nat.mod_eq_of_lt mv.isLt)

theorem pack_subnormal {sg : Sign} {mv : BitVec 52} {hm : 0 < mv.toNat} :
    UnpackedFloat.pack Format.binary64 (.finite sg mv.toNat (-1074) hm) =
      packComponents Format.binary64 sg 0#11 mv := by
  have hlog := (Nat.log2_lt (Nat.ne_of_gt hm)).2 mv.isLt
  unfold UnpackedFloat.pack
  dsimp only
  rw [if_neg (by decide), if_neg (by show mv.toNat.log2 + 1 ≠ 53; omega)]
  congr 1
  exact ofNat_toNat_self mv

theorem unpack_finite {x : Float.Model} {s : Sign} {m : Nat} {e : Int} {hm : 0 < m}
    (h : x.unpack = .finite s m e hm) : IsUnpacked m e ∧
      x.toBits.toBitVec = UnpackedFloat.pack Format.binary64 (.finite s m e hm) := by
  have hb := packComponents_unpack x.toBits.toBitVec
  unfold Float.Model.unpack UnpackedFloat.unpack at h
  generalize x.toBits.toBitVec = b at h hb
  dsimp only at h
  split at h
  · split at h <;> cases h
  · rename_i hinf
    split at h
    · rename_i hzero
      split at h
      · cases h
      · rw [UnpackedFloat.finite.injEq] at h
        obtain ⟨rfl, rfl, rfl⟩ := h
        generalize @unpackExponent Format.binary64 b = ev at *
        generalize @unpackMantissa Format.binary64 b = mv at *
        generalize Sign.ofBitVec (@unpackSign Format.binary64 b) = sg at *
        subst hzero
        exact ⟨⟨canonical_subnormal hm mv.isLt, by decide⟩, hb.symm.trans pack_subnormal.symm⟩
    · rename_i hzero
      rw [UnpackedFloat.finite.injEq] at h
      obtain ⟨rfl, rfl, rfl⟩ := h
      generalize @unpackExponent Format.binary64 b = ev at *
      generalize @unpackMantissa Format.binary64 b = mv at *
      generalize Sign.ofBitVec (@unpackSign Format.binary64 b) = sg at *
      have hexponent : (ev.toNat : Int) - (Format.binary64.exponentBias + (52 : Nat)) = ev.toNat - 1075 := by
        have hbias : (Format.binary64.exponentBias : Int) = 1023 := by decide
        omega
      have hlt : ev.toNat < 2048 := ev.isLt
      have hpos : 0 < ev.toNat := Nat.pos_of_ne_zero fun h => hzero (BitVec.eq_of_toNat_eq h)
      have hmax : ev.toNat ≠ 2047 := fun h => hinf (BitVec.eq_of_toNat_eq h)
      refine ⟨⟨canonical_normal (log2_implicit mv) ?_, ?_⟩, hb.symm.trans (pack_normal hinf hexponent).symm⟩
      · rw [hexponent]
        omega
      · rw [hexponent]
        omega

/-- A finite number is what its mantissa and its exponent pack to. -/
theorem eq_pack {x : Number} {s : Sign} {m : Nat} {e : Int} {hm : 0 < m}
    (h : x.unpack = .finite s m e hm) : x = .pack (.finite s m e hm) := by
  obtain ⟨-, hbits⟩ := unpack_finite h
  obtain ⟨⟨b⟩, hvalid⟩ := x
  congr 1
  exact congrArg UInt64.ofBitVec hbits

/-! ## What is written is read -/

theorem ofScientific_exact {m : Nat} {e : Int} (hm : 0 < m) (h : Canonical m e) :
    UnpackedFloat.ofScientific Format.binary64 (exact m e).1 (exact m e).2 =
      .finite .positive m e hm := by
  unfold exact
  by_cases he : 0 ≤ e
  · obtain ⟨k, rfl⟩ := Int.eq_ofNat_of_zero_le he
    rw [if_pos he]
    exact ofScientific_integer hm h
  · obtain ⟨j, rfl⟩ : ∃ j : Nat, e = -(j : Int) := ⟨(-e).toNat, by omega⟩
    rw [if_neg he]
    have hj : (-(-(j : Int))).toNat = j := by omega
    rw [hj]
    exact ofScientific_fraction hm (by omega) h

theorem ofDecimal_shortest {x : Number} {s : Sign} {m : Nat} {e : Int} {hm : 0 < m} {negative : Bool}
    (h : x.unpack = .finite s m e hm) (hs : s = if negative then .negative else .positive) :
    ofDecimal negative (shortest x negative m e).1 (shortest x negative m e).2 = x := by
  unfold shortest
  cases hfind : ((List.range 17).flatMap fun k => neighbours m e (k + 1)).find? fun c =>
      decide (ofDecimal negative c.1 c.2 = x) with
  | some c =>
    exact of_decide_eq_true
      (@List.find?_some (Nat × Int) (fun c => decide (ofDecimal negative c.1 c.2 = x)) _ _ hfind)
  | none =>
    have hexact := ofScientific_exact hm (unpack_finite h).1.canonical
    unfold ofDecimal
    dsimp only [Option.getD_none]
    rw [hexact]
    conv_rhs => rw [eq_pack h, hs]
    cases negative <;> rfl

/-- Zeros behind a decimal are an exponent of ten. -/
theorem ofDecimal_mul_pow {negative : Bool} {s z : Nat} (hs : 0 < s) (hz : z ≤ 2048) :
    ofDecimal negative (10 ^ z * s) 0 = ofDecimal negative s z := by
  have hpos : 0 < 10 ^ z * s := Nat.mul_pos (Nat.pow_pos (by decide)) hs
  unfold ofDecimal
  rw [show (0 : Int) = ((0 : Nat) : Int) from rfl, ofScientific_nonneg hpos (by omega),
    ofScientific_nonneg hs hz]
  have hmantissa : 10 ^ z * s * 2 ^ 53 * 10 ^ 0 = s * 2 ^ 53 * 10 ^ z := by ring
  rw [hmantissa]

section Digits

variable {s : Nat} {q : Int} {negative : Bool}

theorem all_isDigit (s : Nat) : ∀ c ∈ Nat.toDigits 10 s, c.isDigit = true :=
  fun _ hc => Nat.isDigit_of_mem_toDigits (by decide) (by decide) hc

/-- The digits of a positive number do not begin with a zero. -/
theorem head_toDigits_ne (hs : 0 < s) : (Nat.toDigits 10 s).head? ≠ some '0' := by
  induction s using Nat.strong_induction_on with
  | _ s ih =>
    rw [Nat.toDigits_eq_if (by decide)]
    split
    · rename_i hlt
      have hsmall : ∀ n < 10, 0 < n → [n.digitChar].head? ≠ some '0' := by decide
      exact hsmall s hlt hs
    · cases hds : Nat.toDigits 10 (s / 10) with
      | nil => exact absurd hds Nat.toDigits_ne_nil
      | cons c ds =>
        have hhead := ih (s / 10) (by omega) (by omega)
        rw [hds] at hhead
        exact hhead

theorem takeWhile_digits {ds r : List Char} (hds : ∀ c ∈ ds, c.isDigit = true)
    (hr : ∀ c ∈ r.head?, c.isDigit = false) : (ds ++ r).takeWhile Char.isDigit = ds ∧
      (ds ++ r).dropWhile Char.isDigit = r := by
  rw [List.takeWhile_append_of_pos hds, List.dropWhile_append_of_pos hds]
  cases r with
  | nil => exact ⟨List.append_nil _, rfl⟩
  | cons c r =>
    have hc := hr c rfl
    rw [List.takeWhile_cons, List.dropWhile_cons, hc]
    exact ⟨List.append_nil _, rfl⟩

theorem digits_toDigits (n : Nat) : digits (Nat.toDigits 10 n) = some n := by
  unfold digits
  rw [if_pos ⟨Nat.toDigits_ne_nil, List.all_eq_true.2 (all_isDigit n)⟩, Nat.ofDigitChars_ten_toDigits]

/-- Reading a literal by its parts. -/
theorem unsigned_eq {whole frac rest r : List Char} {e : Int} (hwhole : ∀ c ∈ whole, c.isDigit = true)
    (hne : whole ≠ []) (hzero : whole.length = 1 ∨ whole.head? ≠ some '0')
    (hrest : ∀ c ∈ rest.head?, c.isDigit = false) (hfrac : fraction rest = some (frac, r))
    (he : exponent r = some e) : unsigned negative (whole ++ rest) =
      some (ofDecimal negative (Nat.ofDigitChars 10 (whole ++ frac) 0) (e - frac.length)) := by
  obtain ⟨htake, hdrop⟩ := takeWhile_digits hwhole hrest
  unfold unsigned
  dsimp only
  rw [htake, hdrop, hfrac, if_neg]
  · rw [Option.bind_some, he]
    rfl
  · rintro (h | ⟨hlen, hhead⟩)
    · exact hne h
    · rcases hzero with h | h
      · omega
      · exact h hhead

theorem fraction_point {frac r : List Char} (hfrac : ∀ c ∈ frac, c.isDigit = true) (hne : frac ≠ [])
    (hr : ∀ c ∈ r.head?, c.isDigit = false) : fraction ('.' :: (frac ++ r)) = some (frac, r) := by
  obtain ⟨htake, hdrop⟩ := takeWhile_digits hfrac hr
  show (if (frac ++ r).takeWhile Char.isDigit = [] then none
    else some ((frac ++ r).takeWhile Char.isDigit, (frac ++ r).dropWhile Char.isDigit)) = _
  rw [htake, hdrop, if_neg hne]

theorem exponent_toDigits (t : Int) :
    exponent ('e' :: (if t < 0 then '-' else '+') :: Nat.toDigits 10 t.natAbs) = some t := by
  show (if 'e' = 'e' ∨ 'e' = 'E' then signed _ else none) = _
  rw [if_pos (Or.inl rfl)]
  by_cases ht : t < 0
  · rw [if_pos ht]
    show (digits _).map (fun d : Nat => -(d : Int)) = _
    rw [digits_toDigits, Option.map_some]
    congr 1
    omega
  · rw [if_neg ht]
    show (digits _).map Int.ofNat = _
    rw [digits_toDigits, Option.map_some]
    congr 1
    show (t.natAbs : Int) = t
    omega

/-- The digits that a positive number is written with. -/
structure Digits (s : Nat) (ds : List Char) : Prop where
  isDigit : ∀ c ∈ ds, c.isDigit = true
  ne : ds ≠ []
  head : ds.head? ≠ some '0'
  value : Nat.ofDigitChars 10 ds 0 = s

theorem digits_of_pos (hs : 0 < s) : Digits s (Nat.toDigits 10 s) where
  isDigit := all_isDigit s
  ne := Nat.toDigits_ne_nil
  head := head_toDigits_ne hs
  value := Nat.ofDigitChars_ten_toDigits

theorem isDigit_zeros {z : Nat} {c : Char} (hc : c ∈ List.replicate z '0') : c.isDigit = true := by
  rw [List.eq_of_mem_replicate hc]
  rfl

/-- Digits and zeros. -/
theorem unsigned_whole {ds : List Char} (h : Digits s ds) (hs : 0 < s) {z : Nat} (hz : z ≤ 21) :
    unsigned negative (ds ++ List.replicate z '0') = some (ofDecimal negative s z) := by
  have hall : ∀ c ∈ ds ++ List.replicate z '0', c.isDigit = true := by
    intro c hc
    rcases List.mem_append.1 hc with hc | hc
    · exact h.isDigit c hc
    · exact isDigit_zeros hc
  have hhead : (ds ++ List.replicate z '0').head? ≠ some '0' := by
    have hne := h.ne
    have hhead := h.head
    cases ds with
    | nil => exact absurd rfl hne
    | cons c ds => exact hhead
  have hread := @unsigned_eq negative (ds ++ List.replicate z '0') [] [] [] 0 hall (by simp [h.ne])
    (.inr hhead) (by simp) rfl rfl
  rw [List.append_nil, Nat.ofDigitChars_append, h.value, Nat.ofDigitChars_replicate_zero] at hread
  refine hread.trans (congrArg some ?_)
  exact ofDecimal_mul_pow hs (by omega)

/-- Digits with a point among them, and an exponent. -/
theorem unsigned_point {ds r : List Char} {i : Nat} {e : Int} (h : Digits s ds) (hi : 0 < i) (hlt : i < ds.length)
    (hr : ∀ c ∈ r.head?, c.isDigit = false) (he : exponent r = some e) :
    unsigned negative (ds.take i ++ '.' :: (ds.drop i ++ r)) =
      some (ofDecimal negative s (e - (ds.length - i : Nat))) := by
  have hhead : (ds.take i).head? ≠ some '0' := by
    rw [List.head?_take, if_neg (by omega)]
    exact h.head
  have htake : ds.take i ≠ [] := by
    intro hnil
    rcases List.take_eq_nil_iff.1 hnil with hnil | hnil
    · omega
    · exact h.ne hnil
  have hdrop : ds.drop i ≠ [] := by
    rw [ne_eq, List.drop_eq_nil_iff]
    omega
  have hpoint : ∀ c ∈ ('.' :: (ds.drop i ++ r)).head?, c.isDigit = false := by
    rintro c ⟨⟩
    rfl
  have hread := @unsigned_eq negative (ds.take i) (ds.drop i) ('.' :: (ds.drop i ++ r)) r e
    (fun c hc => h.isDigit c (List.mem_of_mem_take hc)) htake (.inr hhead) hpoint
    (fraction_point (fun c hc => h.isDigit c (List.mem_of_mem_drop hc)) hdrop hr) he
  rw [List.take_append_drop, h.value, List.length_drop] at hread
  exact hread

/-- Digits behind a point and zeros. -/
theorem unsigned_leading {ds : List Char} (h : Digits s ds) (z : Nat) :
    unsigned negative ('0' :: '.' :: (List.replicate z '0' ++ ds)) =
      some (ofDecimal negative s (0 - (z + ds.length : Nat))) := by
  have hall : ∀ c ∈ List.replicate z '0' ++ ds, c.isDigit = true := by
    intro c hc
    rcases List.mem_append.1 hc with hc | hc
    · exact isDigit_zeros hc
    · exact h.isDigit c hc
  have hpoint : ∀ c ∈ ('.' :: ((List.replicate z '0' ++ ds) ++ [])).head?, c.isDigit = false := by
    rintro c ⟨⟩
    rfl
  have hread := @unsigned_eq negative ['0'] (List.replicate z '0' ++ ds)
    ('.' :: ((List.replicate z '0' ++ ds) ++ [])) [] 0 (List.forall_mem_singleton.2 (by decide)) (by decide)
    (.inl rfl) hpoint (fraction_point hall (by simp [h.ne]) (by simp)) rfl
  have hzero : Nat.ofDigitChars 10 ['0'] 0 = 0 := rfl
  rw [List.append_nil, Nat.ofDigitChars_append, Nat.ofDigitChars_append, hzero, Nat.ofDigitChars_replicate_zero,
    Nat.mul_zero, h.value, List.length_append, List.length_replicate] at hread
  exact hread

/-- One digit and an exponent. -/
theorem unsigned_single {ds r : List Char} {e : Int} (h : Digits s ds) (hone : ds.length = 1)
    (hr : ∀ c ∈ r.head?, c.isDigit = false) (hfraction : fraction r = some ([], r)) (he : exponent r = some e) :
    unsigned negative (ds ++ r) = some (ofDecimal negative s e) := by
  have hread := @unsigned_eq negative ds [] r r e h.isDigit h.ne (.inl hone) hr hfraction he
  rw [List.append_nil, h.value, List.length_nil] at hread
  rw [hread]
  congr 2
  omega

/-- What is written for a positive decimal stands for the decimal. -/
theorem unsigned_decimal (hs : 0 < s) : unsigned negative (decimal s q) = some (ofDecimal negative s q) := by
  have h := digits_of_pos hs
  unfold decimal
  generalize Nat.toDigits 10 s = ds at h
  dsimp only
  have hlen : 0 < ds.length := List.length_pos_iff.2 h.ne
  split
  · rename_i hn
    obtain ⟨z, rfl⟩ := Int.eq_ofNat_of_zero_le (show 0 ≤ q by omega)
    exact unsigned_whole h hs (by omega)
  · split
    · obtain ⟨i, hi⟩ := Int.eq_ofNat_of_zero_le (show 0 ≤ (ds.length : Int) + q by omega)
      have hread := @unsigned_point s negative ds [] i 0 h (by omega) (by omega) (by simp) rfl
      have hq : (0 : Int) - (ds.length - i : Nat) = q := by omega
      rw [List.append_nil, hq] at hread
      rw [hi]
      exact hread
    · split
      · have hread := @unsigned_leading s negative ds h (-((ds.length : Int) + q)).toNat
        have hq : (0 : Int) - ((-((ds.length : Int) + q)).toNat + ds.length : Nat) = q := by omega
        rw [hq] at hread
        exact hread
      · have hexp := exponent_toDigits ((ds.length : Int) + q - 1)
        by_cases hone : ds.length = 1
        · rw [if_pos hone]
          have hread := @unsigned_single s negative ds ('e' :: _) _ h hone ?_ rfl hexp
          · have hq : (ds.length : Int) + q - 1 = q := by omega
            rw [hq] at hread ⊢
            exact hread
          · rintro c ⟨⟩
            rfl
        · rw [if_neg hone]
          have hread := @unsigned_point s negative ds ('e' :: _) 1 _ h (by decide) (by omega) ?_ hexp
          · have hq : (ds.length : Int) + q - 1 - (ds.length - 1 : Nat) = q := by omega
            rw [hq] at hread
            rw [List.append_assoc]
            exact hread
          · rintro c ⟨⟩
            rfl

end Digits

theorem unpack_ofDecimal_zero (negative : Bool) (q : Int) :
    ∃ s, (ofDecimal negative 0 q).unpack = .zero s := by
  have hzero : UnpackedFloat.ofScientific Format.binary64 0 q = .zero .positive := dif_pos rfl
  unfold ofDecimal
  rw [hzero]
  cases negative
  · exact ⟨.positive, rfl⟩
  · exact ⟨.negative, rfl⟩

theorem shortest_pos {x : Number} {s : Sign} {m : Nat} {e : Int} {hm : 0 < m} {negative : Bool}
    (h : x.unpack = .finite s m e hm) (hs : s = if negative then .negative else .positive) :
    0 < (shortest x negative m e).1 := by
  have hread := ofDecimal_shortest h hs
  rcases Nat.eq_zero_or_pos (shortest x negative m e).1 with hzero | hpos
  · obtain ⟨s', hs'⟩ := unpack_ofDecimal_zero negative (shortest x negative m e).2
    rw [← hzero, hread, h] at hs'
    cases hs'
  · exact hpos

theorem read_of_unsigned {t : List Char} {x : Number} (h : unsigned false t = some x) :
    read t = some x := by
  cases t with
  | nil => exact h
  | cons c t =>
    by_cases hc : c = '-'
    · rw [hc] at h
      cases h
    · unfold read
      split
      · rename_i heq
        exact absurd (List.cons.inj heq).1 hc
      · exact h

theorem read_zero : read ['0'] = some (ofDecimal false 0 0) := by decide +kernel

/-- **Round trip of numbers.** The text of a number stands for the number. -/
theorem bind_read_text (x : Number) : (text x).bind read = copy x := by
  unfold text copy
  cases hx : x.unpack with
  | infinity s => rfl
  | notANumber => rfl
  | zero s => exact read_zero
  | finite s m e hm =>
    cases s with
    | positive =>
      have hdecimal := @unsigned_decimal _ (shortest x false m e).2 false (@shortest_pos _ _ _ _ _ false hx rfl)
      rw [@ofDecimal_shortest _ _ _ _ _ false hx rfl] at hdecimal
      exact read_of_unsigned hdecimal
    | negative =>
      have hdecimal := @unsigned_decimal _ (shortest x true m e).2 true (@shortest_pos _ _ _ _ _ true hx rfl)
      rw [@ofDecimal_shortest _ _ _ _ _ true hx rfl] at hdecimal
      exact hdecimal

/-! ## The characters of a number -/

def isLiteral (c : Char) : Bool := c.isDigit || c ∈ ['.', 'e', '+', '-']

theorem isLiteral_of_isDigit {c : Char} (h : c.isDigit = true) : isLiteral c = true := by
  unfold isLiteral
  rw [h]
  rfl

theorem isLiteral_decimal (s : Nat) (q : Int) : ∀ c ∈ decimal s q, isLiteral c = true := by
  have hdigits : ∀ n, ∀ c ∈ Nat.toDigits 10 n, isLiteral c = true :=
    fun n c hc => isLiteral_of_isDigit (all_isDigit n c hc)
  have hzeros : ∀ n, ∀ c ∈ List.replicate n '0', isLiteral c = true := fun n c hc => by
    rw [(List.mem_replicate.1 hc).2]
    decide
  have htake : ∀ n, ∀ c ∈ (Nat.toDigits 10 s).take n, isLiteral c = true :=
    fun n c hc => hdigits s c (List.mem_of_mem_take hc)
  have hdrop : ∀ n, ∀ c ∈ (Nat.toDigits 10 s).drop n, isLiteral c = true :=
    fun n c hc => hdigits s c (List.mem_of_mem_drop hc)
  have hpoint : ∀ n, ∀ c ∈ '.' :: (Nat.toDigits 10 s).drop n, isLiteral c = true :=
    fun n => List.forall_mem_cons.2 ⟨by decide, hdrop n⟩
  unfold decimal
  dsimp only
  split
  · exact List.forall_mem_append.2 ⟨hdigits s, hzeros _⟩
  · split
    · exact List.forall_mem_append.2 ⟨htake _, hpoint _⟩
    · split
      · refine List.forall_mem_cons.2 ⟨by decide, List.forall_mem_cons.2 ⟨by decide, ?_⟩⟩
        exact List.forall_mem_append.2 ⟨hzeros _, hdigits s⟩
      · refine List.forall_mem_append.2 ⟨?_, List.forall_mem_cons.2 ⟨by decide, ?_⟩⟩
        · split
          · exact hdigits s
          · exact List.forall_mem_append.2 ⟨htake 1, hpoint 1⟩
        · exact List.forall_mem_cons.2 ⟨by split <;> decide, hdigits _⟩

theorem isLiteral_text {x : Number} {t : List Char} (h : text x = some t) :
    ∀ c ∈ t, isLiteral c = true := by
  unfold text at h
  split at h
  · rw [← Option.some.inj h]
    exact isLiteral_decimal _ _
  · rw [← Option.some.inj h]
    exact List.forall_mem_cons.2 ⟨by decide, isLiteral_decimal _ _⟩
  · rw [← Option.some.inj h]
    exact List.forall_mem_singleton.2 (by decide)
  · cases h

theorem copy_eq_none {x : Number} (h : text x = none) : copy x = none := by
  rw [← bind_read_text, h]
  rfl

theorem text_copy {x y : Number} (h : copy x = some y) : text y = text x := by
  unfold copy at h
  split at h
  · rw [Option.some.inj h]
  · rename_i hx
    obtain rfl := Option.some.inj h
    have hzero : text (ofDecimal false 0 0) = some ['0'] := by decide +kernel
    rw [hzero]
    unfold text
    rw [hx]
  · cases h

theorem text_eq_none {x : Number} (h : copy x = none) : text x = none := by
  unfold copy at h
  unfold text
  cases hx : x.unpack with
  | infinity s => rfl
  | notANumber => rfl
  | zero s =>
    rw [hx] at h
    cases h
  | finite s m e hm =>
    rw [hx] at h
    cases h

theorem read_text {x : Number} {t : List Char} (h : text x = some t) : ∃ y, copy x = some y ∧ read t = some y := by
  have hread : read t = copy x := by
    rw [← bind_read_text, h]
    rfl
  rw [hread]
  unfold text at h
  unfold copy
  split at h
  · rename_i hx
    rw [hx]
    exact ⟨x, rfl, rfl⟩
  · rename_i hx
    rw [hx]
    exact ⟨x, rfl, rfl⟩
  · rename_i hx
    rw [hx]
    exact ⟨_, rfl, rfl⟩
  · cases h

end Number

end Text
