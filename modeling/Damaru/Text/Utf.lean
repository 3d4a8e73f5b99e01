import Mathlib.Data.List.Basic

/-!
# UTF-16 and UTF-8

A JavaScript string is a list of 16-bit code units, in which a surrogate need
not have its pair. It crosses into bytes and back as UTF-8, where a surrogate
alone and bytes that are no UTF-8 become U+FFFD.
-/

namespace Text

/-- A string, as its code units. -/
abbrev Units := List UInt16

def replacement : Char := '\uFFFD'

namespace Utf16

def isHigh (u : UInt16) : Bool := 0xD800 ≤ u.toNat && u.toNat < 0xDC00

def isLow (u : UInt16) : Bool := 0xDC00 ≤ u.toNat && u.toNat < 0xE000

/-- The character of a unit alone. -/
def single (u : UInt16) : Char := if isHigh u || isLow u then replacement else Char.ofNat u.toNat

/-- The character of a surrogate pair. -/
def pair (u v : UInt16) : Char :=
  Char.ofNat (0x10000 + (u.toNat - 0xD800) * 0x400 + (v.toNat - 0xDC00))

/-- The characters that a string has. -/
def chars : Units → List Char
  | [] => []
  | [u] => [single u]
  | u :: v :: s =>
    if isHigh u && isLow v then pair u v :: chars s else single u :: chars (v :: s)

/-- The units of a character. -/
def units (c : Char) : Units :=
  if c.toNat < 0x10000 then [UInt16.ofNat c.toNat]
  else [UInt16.ofNat (0xD800 + (c.toNat - 0x10000) / 0x400),
    UInt16.ofNat (0xDC00 + (c.toNat - 0x10000) % 0x400)]

def ofChars (cs : List Char) : Units := cs.flatMap units

/-- No surrogate is without its pair. -/
def wellFormed : Units → Bool
  | [] => true
  | [u] => !(isHigh u || isLow u)
  | u :: v :: s =>
    if isHigh u && isLow v then wellFormed s else !(isHigh u || isLow u) && wellFormed (v :: s)

theorem isHigh_iff {u : UInt16} : isHigh u = true ↔ 0xD800 ≤ u.toNat ∧ u.toNat < 0xDC00 := by
  unfold isHigh
  rw [Bool.and_eq_true, decide_eq_true_eq, decide_eq_true_eq]

theorem isLow_iff {u : UInt16} : isLow u = true ↔ 0xDC00 ≤ u.toNat ∧ u.toNat < 0xE000 := by
  unfold isLow
  rw [Bool.and_eq_true, decide_eq_true_eq, decide_eq_true_eq]

theorem char_cases (c : Char) :
    c.toNat < 0xD800 ∨ (0xE000 ≤ c.toNat ∧ c.toNat < 0x10000) ∨
      (0x10000 ≤ c.toNat ∧ c.toNat < 0x110000) := by
  have hvalid := c.valid
  unfold UInt32.isValidChar Nat.isValidChar at hvalid
  unfold Char.toNat
  omega

theorem toNat_ofNat {n : Nat} (h : n < 0xD800 ∨ (0xE000 ≤ n ∧ n < 0x110000)) :
    (Char.ofNat n).toNat = n := by
  have hvalid : n.isValidChar := by
    unfold Nat.isValidChar
    omega
  unfold Char.ofNat
  rw [dif_pos hvalid]
  rfl

theorem toNat_unit {n : Nat} (h : n < 0x10000) : (UInt16.ofNat n).toNat = n := by
  rw [UInt16.toNat_ofNat']
  exact Nat.mod_eq_of_lt h

/-- A character is one unit that is no surrogate, or a pair. -/
theorem units_cases (c : Char) :
    (∃ u, units c = [u] ∧ single u = c ∧ (isHigh u || isLow u) = false) ∨
      ∃ u v, units c = [u, v] ∧ pair u v = c ∧ isHigh u = true ∧ isLow v = true := by
  have hcases := char_cases c
  by_cases hc : c.toNat < 0x10000
  · have hunit := toNat_unit hc
    have hsurrogate : (isHigh (UInt16.ofNat c.toNat) || isLow (UInt16.ofNat c.toNat)) = false := by
      rw [Bool.or_eq_false_iff, Bool.eq_false_iff, Bool.eq_false_iff, ne_eq, ne_eq, isHigh_iff, isLow_iff,
        hunit]
      omega
    refine .inl ⟨UInt16.ofNat c.toNat, if_pos hc, ?_, hsurrogate⟩
    unfold single
    rw [hsurrogate, hunit]
    exact Char.ofNat_toNat c
  · have hu := @toNat_unit (0xD800 + (c.toNat - 0x10000) / 0x400) (by omega)
    have hv := @toNat_unit (0xDC00 + (c.toNat - 0x10000) % 0x400) (by omega)
    refine .inr ⟨_, _, if_neg hc, ?_, ?_, ?_⟩
    · unfold pair
      rw [hu, hv]
      have hvalue : 0x10000 + (0xD800 + (c.toNat - 0x10000) / 0x400 - 0xD800) * 0x400 +
          (0xDC00 + (c.toNat - 0x10000) % 0x400 - 0xDC00) = c.toNat := by omega
      rw [hvalue]
      exact Char.ofNat_toNat c
    · rw [isHigh_iff, hu]
      omega
    · rw [isLow_iff, hv]
      omega

theorem chars_append (c : Char) (s : Units) : chars (units c ++ s) = c :: chars s := by
  rcases units_cases c with ⟨u, hunits, hc, hu⟩ | ⟨u, v, hunits, hc, hu, hv⟩
  · rw [hunits, ← hc]
    cases s with
    | nil => rfl
    | cons v s =>
      show (if isHigh u && isLow v then _ else _) = _
      rw [(Bool.or_eq_false_iff.1 hu).1]
      rfl
  · rw [hunits, ← hc]
    show (if isHigh u && isLow v then _ else _) = _
    rw [hu, hv]
    rfl

theorem wellFormed_cons {u : UInt16} (hu : (isHigh u || isLow u) = false) (s : Units) :
    wellFormed (u :: s) = wellFormed s := by
  cases s with
  | nil =>
    show (!(isHigh u || isLow u)) = _
    rw [hu]
    rfl
  | cons v s =>
    show (if isHigh u && isLow v then _ else !(isHigh u || isLow u) && wellFormed (v :: s)) = _
    rw [hu, (Bool.or_eq_false_iff.1 hu).1]
    rfl

theorem wellFormed_cons_cons {u v : UInt16} (hu : isHigh u = true) (hv : isLow v = true) (s : Units) :
    wellFormed (u :: v :: s) = wellFormed s := by
  show (if isHigh u && isLow v then _ else _) = _
  rw [hu, hv]
  rfl

theorem not_surrogate {u : UInt16} (h : u.toNat < 0xD800) : (isHigh u || isLow u) = false := by
  rw [Bool.or_eq_false_iff, Bool.eq_false_iff, Bool.eq_false_iff, ne_eq, ne_eq, isHigh_iff, isLow_iff]
  omega

/-- Characters are what their units say. -/
theorem chars_ofChars (cs : List Char) : chars (ofChars cs) = cs := by
  induction cs with
  | nil => rfl
  | cons c cs ih =>
    show chars (units c ++ ofChars cs) = _
    rw [chars_append, ih]

theorem units_single {u : UInt16} (hu : (isHigh u || isLow u) = false) : units (single u) = [u] := by
  obtain ⟨hhigh, hlow⟩ := Bool.or_eq_false_iff.1 hu
  have hnot := mt isHigh_iff.2 (Bool.eq_false_iff.1 hhigh)
  have hnot' := mt isLow_iff.2 (Bool.eq_false_iff.1 hlow)
  have hlt : u.toNat < 65536 := u.toNat_lt
  have hchar : (single u).toNat = u.toNat := by
    unfold single
    rw [hu]
    exact toNat_ofNat (by omega)
  unfold units
  rw [hchar, if_pos hlt, UInt16.ofNat_toNat]

theorem units_pair {u v : UInt16} (hu : isHigh u = true) (hv : isLow v = true) :
    units (pair u v) = [u, v] := by
  have hu := isHigh_iff.1 hu
  have hv := isLow_iff.1 hv
  have hchar : (pair u v).toNat = 0x10000 + (u.toNat - 0xD800) * 0x400 + (v.toNat - 0xDC00) :=
    toNat_ofNat (by omega)
  have hfirst : 0xD800 + ((pair u v).toNat - 0x10000) / 0x400 = u.toNat := by omega
  have hsecond : 0xDC00 + ((pair u v).toNat - 0x10000) % 0x400 = v.toNat := by omega
  unfold units
  rw [if_neg (by omega), hfirst, hsecond, UInt16.ofNat_toNat, UInt16.ofNat_toNat]

/-- A well-formed string is what its characters say. -/
theorem ofChars_chars {s : Units} (h : wellFormed s = true) : ofChars (chars s) = s := by
  fun_induction wellFormed s with
  | case1 => rfl
  | case2 u => exact (List.append_nil _).trans (units_single (Bool.not_eq_true' _ ▸ h))
  | case3 u v s hpair ih =>
    obtain ⟨hu, hv⟩ := Bool.and_eq_true_iff.1 hpair
    unfold chars
    rw [if_pos hpair]
    show units (pair u v) ++ ofChars (chars s) = _
    rw [units_pair hu hv, ih h]
    rfl
  | case4 u v s hpair ih =>
    obtain ⟨hu, hs⟩ := Bool.and_eq_true_iff.1 h
    unfold chars
    rw [if_neg hpair]
    show units (single u) ++ ofChars (chars (v :: s)) = _
    rw [units_single (Bool.not_eq_true' _ ▸ hu), ih hs]
    rfl

end Utf16

namespace Utf8

/-- The bytes of a string. -/
def encode (s : Units) : List UInt8 := (Utf16.chars s).flatMap String.utf8EncodeChar

/-- A character of which some bytes are still to come, the next one between two
bounds. -/
structure Pending where
  needed : Nat
  value : Nat
  lower : Nat
  upper : Nat

/-- What a byte between two characters comes to. -/
def start (b : Nat) : List Char × Option Pending :=
  if b < 0x80 then ([Char.ofNat b], none)
  else if 0xC2 ≤ b ∧ b ≤ 0xDF then ([], some ⟨1, b - 0xC0, 0x80, 0xBF⟩)
  else if 0xE0 ≤ b ∧ b ≤ 0xEF then
    ([], some ⟨2, b - 0xE0, if b = 0xE0 then 0xA0 else 0x80, if b = 0xED then 0x9F else 0xBF⟩)
  else if 0xF0 ≤ b ∧ b ≤ 0xF4 then
    ([], some ⟨3, b - 0xF0, if b = 0xF0 then 0x90 else 0x80, if b = 0xF4 then 0x8F else 0xBF⟩)
  else ([replacement], none)

/-- A byte that cannot go on with a character replaces it and starts anew. -/
def next (p : Option Pending) (b : Nat) : List Char × Option Pending :=
  match p with
  | none => start b
  | some p =>
    if p.lower ≤ b ∧ b ≤ p.upper then
      if p.needed = 1 then ([Char.ofNat (p.value * 64 + (b - 0x80))], none)
      else ([], some ⟨p.needed - 1, p.value * 64 + (b - 0x80), 0x80, 0xBF⟩)
    else (replacement :: (start b).1, (start b).2)

def chars : Option Pending → List UInt8 → List Char
  | none, [] => []
  | some _, [] => [replacement]
  | p, b :: bs => (next p b.toNat).1 ++ chars (next p b.toNat).2 bs

/-- The string of bytes. -/
def decode (bs : List UInt8) : Units := Utf16.ofChars (chars none bs)

example : decode [0x61, 0xF0, 0x9F, 0x98, 0x80, 0xE2, 0x82, 0x41] =
    [0x61, 0xD83D, 0xDE00, 0xFFFD, 0x41] := by decide +kernel

theorem chars_cons {p : Option Pending} {b : Nat} (hb : b < 256) (bs : List UInt8) :
    chars p (UInt8.ofNat b :: bs) = (next p b).1 ++ chars (next p b).2 bs := by
  have hbyte : (UInt8.ofNat b).toNat = b := by
    rw [UInt8.toNat_ofNat']
    exact Nat.mod_eq_of_lt hb
  cases p <;> rw [chars, hbyte]

theorem chars_last {value lower upper b : Nat} (hlower : lower ≤ b) (hupper : b ≤ upper) (hb : b < 256)
    (bs : List UInt8) :
    chars (some ⟨1, value, lower, upper⟩) (UInt8.ofNat b :: bs) =
      Char.ofNat (value * 64 + (b - 0x80)) :: chars none bs := by
  rw [chars_cons hb]
  unfold next
  dsimp only
  rw [if_pos ⟨hlower, hupper⟩, if_pos rfl]
  rfl

theorem chars_more {k value lower upper b : Nat} (hlower : lower ≤ b) (hupper : b ≤ upper) (hb : b < 256)
    (bs : List UInt8) :
    chars (some ⟨k + 2, value, lower, upper⟩) (UInt8.ofNat b :: bs) =
      chars (some ⟨k + 1, value * 64 + (b - 0x80), 0x80, 0xBF⟩) bs := by
  rw [chars_cons hb]
  unfold next
  dsimp only
  rw [if_pos ⟨hlower, hupper⟩, if_neg (by omega)]
  rfl

/-- The bytes of a character give the character: one case for each length. -/
theorem chars_encodeChar_append (c : Char) (bs : List UInt8) :
    chars none (String.utf8EncodeChar c ++ bs) = c :: chars none bs := by
  have hcases := Utf16.char_cases c
  have hchar := Char.ofNat_toNat c
  unfold String.utf8EncodeChar
  dsimp only
  rw [show c.val.toNat = c.toNat from rfl]
  generalize c.toNat = n at hcases hchar
  split
  · show chars none (UInt8.ofNat n :: bs) = _
    rw [chars_cons (by omega)]
    unfold next start
    rw [if_pos (by omega), hchar]
    rfl
  · split
    · show chars none (UInt8.ofNat _ :: UInt8.ofNat _ :: bs) = _
      have hvalue : (n / 64 % 32 + 192 - 0xC0) * 64 + (n % 64 + 128 - 0x80) = n := by omega
      rw [chars_cons (by omega)]
      unfold next start
      rw [if_neg (by omega), if_pos (by omega)]
      dsimp only
      rw [chars_last (by omega) (by omega) (by omega), hvalue, hchar]
      rfl
    · split
      · show chars none (UInt8.ofNat _ :: UInt8.ofNat _ :: UInt8.ofNat _ :: bs) = _
        have hvalue : ((n / 4096 % 16 + 224 - 0xE0) * 64 + (n / 64 % 64 + 128 - 0x80)) * 64 +
            (n % 64 + 128 - 0x80) = n := by omega
        rw [chars_cons (by omega)]
        unfold next start
        rw [if_neg (by omega), if_neg (by omega), if_pos (by omega)]
        dsimp only
        rw [chars_more (by split <;> omega) (by split <;> omega) (by omega),
          chars_last (by omega) (by omega) (by omega), hvalue, hchar]
        rfl
      · show chars none (UInt8.ofNat _ :: UInt8.ofNat _ :: UInt8.ofNat _ :: UInt8.ofNat _ :: bs) = _
        have hvalue : (((n / 262144 % 8 + 240 - 0xF0) * 64 + (n / 4096 % 64 + 128 - 0x80)) * 64 +
            (n / 64 % 64 + 128 - 0x80)) * 64 + (n % 64 + 128 - 0x80) = n := by omega
        rw [chars_cons (by omega)]
        unfold next start
        rw [if_neg (by omega), if_neg (by omega), if_neg (by omega), if_pos (by omega)]
        dsimp only
        rw [chars_more (by split <;> omega) (by split <;> omega) (by omega),
          chars_more (by omega) (by omega) (by omega),
          chars_last (by omega) (by omega) (by omega), hvalue, hchar]
        rfl

theorem chars_encode (s : Units) : chars none (encode s) = Utf16.chars s := by
  unfold encode
  induction Utf16.chars s with
  | nil => rfl
  | cons c cs ih => rw [List.flatMap_cons, chars_encodeChar_append, ih]

/-- **Round trip.** A string comes back from its bytes with every surrogate
alone replaced. -/
theorem decode_encode (s : Units) : decode (encode s) = Utf16.ofChars (Utf16.chars s) := by
  unfold decode
  rw [chars_encode]

theorem decode_encode_of_wellFormed {s : Units} (h : Utf16.wellFormed s = true) :
    decode (encode s) = s := by
  rw [decode_encode, Utf16.ofChars_chars h]

/-- A string that has come back has the bytes that it was sent as. -/
theorem encode_decode_encode (s : Units) : encode (decode (encode s)) = encode s := by
  unfold decode
  rw [chars_encode]
  unfold encode
  rw [Utf16.chars_ofChars]

end Utf8

end Text
