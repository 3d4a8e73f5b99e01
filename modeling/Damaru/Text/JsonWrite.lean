import Damaru.Text.Json

/-!
# Writing JSON

`JSON.stringify` as the tokens of a value and the text of each token. A
surrogate without its pair is written as an escape, so that every text is
well-formed UTF-16.
-/

namespace Text

inductive Token where
  | beginArray
  | endArray
  | beginObject
  | endObject
  | comma
  | colon
  /-- A number or a name, in the units of a literal. -/
  | word (w : Units)
  | str (s : Units)
  deriving DecidableEq

namespace Token

def hexDigit (n : Nat) : UInt16 := UInt16.ofNat (if n < 10 then 48 + n else 87 + n)

/-- A unit as its number. -/
def unicode (u : UInt16) : Units :=
  [92, 117, hexDigit (u.toNat / 4096), hexDigit (u.toNat / 256 % 16), hexDigit (u.toNat / 16 % 16),
    hexDigit (u.toNat % 16)]

/-- The letter of the escapes that have one. -/
def shortEscape (u : UInt16) : Option UInt16 :=
  if u = 34 then some 34
  else if u = 92 then some 92
  else if u = 8 then some 98
  else if u = 9 then some 116
  else if u = 10 then some 110
  else if u = 12 then some 102
  else if u = 13 then some 114
  else none

/-- How a unit is written that is no part of a surrogate pair. -/
def escapeUnit (u : UInt16) : Units :=
  match shortEscape u with
  | some e => [92, e]
  | none => if u.toNat < 32 ∨ Utf16.isHigh u ∨ Utf16.isLow u then unicode u else [u]

def escape : Units → Units
  | [] => []
  | [u] => escapeUnit u
  | u :: v :: s =>
    if Utf16.isHigh u && Utf16.isLow v then u :: v :: escape s else escapeUnit u ++ escape (v :: s)

def text : Token → Units
  | beginArray => [91]
  | endArray => [93]
  | beginObject => [123]
  | endObject => [125]
  | comma => [44]
  | colon => [58]
  | word w => w
  | str s => 34 :: (escape s ++ [34])

end Token

namespace Json

/-- Lists of tokens with commas between them. -/
def separated : List (List Token) → List Token
  | [] => []
  | ts :: tss => ts ++ tss.flatMap (Token.comma :: ·)

mutual

def tokens : Json → List Token
  | .null => [.word (ofString "null")]
  | .bool b => [.word (if b then ofString "true" else ofString "false")]
  | .number x => [.word (((Number.text x).map Utf16.ofChars).getD (ofString "null"))]
  | .str s => [.str s]
  | .arr items => .beginArray :: (separated (itemTokens items) ++ [.endArray])
  | .obj members => .beginObject :: (separated (memberTokens members) ++ [.endObject])

def itemTokens : List Json → List (List Token)
  | [] => []
  | v :: vs => tokens v :: itemTokens vs

def memberTokens : List (Units × Json) → List (List Token)
  | [] => []
  | (k, v) :: ms => (.str k :: .colon :: tokens v) :: memberTokens ms

end

/-- `JSON.stringify`. -/
def stringify (v : Json) : Units := (tokens v).flatMap Token.text

example : stringify (.obj [(ofString "a", .arr [.number (Number.ofDecimal true 15 (-1)), .null]), ([0xD800], .str [34])]) =
    ofString "\x7b\"a\":[-1.5,null],\"\\ud800\":\"\\\"\"\x7d" := by decide +kernel

theorem itemTokens_eq (items : List Json) : itemTokens items = items.map tokens := by
  induction items with
  | nil => rfl
  | cons v vs ih => exact congrArg (tokens v :: ·) ih

theorem memberTokens_eq (members : List (Units × Json)) :
    memberTokens members = members.map fun m => Token.str m.1 :: Token.colon :: tokens m.2 := by
  induction members with
  | nil => rfl
  | cons m ms ih => exact congrArg ((Token.str m.1 :: Token.colon :: tokens m.2) :: ·) ih

@[simp] theorem tokens_arr (items : List Json) :
    tokens (.arr items) = .beginArray :: (separated (items.map tokens) ++ [.endArray]) := by
  rw [← itemTokens_eq]
  rfl

@[simp] theorem tokens_obj (members : List (Units × Json)) :
    tokens (.obj members) =
      .beginObject :: (separated (members.map fun m => Token.str m.1 :: Token.colon :: tokens m.2) ++
        [.endObject]) := by
  rw [← memberTokens_eq]
  rfl

end Json

namespace Token

def isWord (u : UInt16) : Bool :=
  (48 ≤ u.toNat && u.toNat ≤ 57) || (65 ≤ u.toNat && u.toNat ≤ 90) || (97 ≤ u.toNat && u.toNat ≤ 122) ||
    u = 43 || u = 45 || u = 46

def startsWord : List Token → Bool
  | .word _ :: _ => true
  | _ => false

/-- The words are of the units of words, and no word follows another. -/
def Spaced : List Token → Prop
  | [] => True
  | .word w :: ts => (w ≠ [] ∧ ∀ u ∈ w, isWord u = true) ∧ startsWord ts = false ∧ Spaced ts
  | _ :: ts => Spaced ts

theorem isWord_lt {u : UInt16} (h : isWord u = true) : u.toNat < 128 := by
  unfold isWord at h
  simp only [Bool.or_eq_true, Bool.and_eq_true, decide_eq_true_eq] at h
  rcases h with ((((h | h) | h) | rfl) | rfl) | rfl
  · omega
  · omega
  · omega
  · decide
  · decide
  · decide

theorem hexDigit_lt {n : Nat} (h : n < 16) : (hexDigit n).toNat < 128 := by
  unfold hexDigit
  rw [Utf16.toNat_unit (by split <;> omega)]
  split <;> omega

/-- A unit is written with the letter of its escape, as its number, or as it is. -/
theorem escapeUnit_cases (u : UInt16) :
    (∃ e, shortEscape u = some e ∧ escapeUnit u = [92, e]) ∨ escapeUnit u = unicode u ∨
      (escapeUnit u = [u] ∧ u ≠ 34 ∧ u ≠ 92 ∧ ¬ u.toNat < 32 ∧ (Utf16.isHigh u || Utf16.isLow u) = false) := by
  unfold escapeUnit
  cases he : shortEscape u with
  | some e => exact .inl ⟨e, rfl, rfl⟩
  | none =>
    dsimp only
    split
    · exact .inr (.inl rfl)
    · rename_i hu
      obtain ⟨hcontrol, hhigh, hlow⟩ := not_or.1 hu |>.imp id not_or.1
      refine .inr (.inr ⟨rfl, ?_, ?_, hcontrol, ?_⟩)
      · rintro rfl
        exact absurd he (by decide)
      · rintro rfl
        exact absurd he (by decide)
      · rw [Bool.or_eq_false_iff]
        exact ⟨Bool.eq_false_iff.2 hhigh, Bool.eq_false_iff.2 hlow⟩

theorem shortEscape_lt {u e : UInt16} (h : shortEscape u = some e) : e.toNat < 128 := by
  unfold shortEscape at h
  split_ifs at h <;> cases h <;> decide

theorem wellFormed_ascii {u : UInt16} (h : u.toNat < 128) (s : Units) :
    Utf16.wellFormed (u :: s) = Utf16.wellFormed s :=
  Utf16.wellFormed_cons (Utf16.not_surrogate (by omega)) s

theorem wellFormed_escapeUnit (u : UInt16) (s : Units) :
    Utf16.wellFormed (escapeUnit u ++ s) = Utf16.wellFormed s := by
  rcases escapeUnit_cases u with ⟨e, he, hu⟩ | hu | ⟨hu, -, -, -, hplain⟩
  · rw [hu]
    show Utf16.wellFormed (92 :: e :: s) = _
    rw [wellFormed_ascii (by decide), wellFormed_ascii (shortEscape_lt he)]
  · have hlt := u.toNat_lt
    rw [hu]
    show Utf16.wellFormed (92 :: 117 :: hexDigit _ :: hexDigit _ :: hexDigit _ :: hexDigit _ :: s) = _
    rw [wellFormed_ascii (by decide), wellFormed_ascii (by decide), wellFormed_ascii (hexDigit_lt (by omega)),
      wellFormed_ascii (hexDigit_lt (by omega)), wellFormed_ascii (hexDigit_lt (by omega)),
      wellFormed_ascii (hexDigit_lt (by omega))]
  · rw [hu]
    exact Utf16.wellFormed_cons hplain s

theorem wellFormed_escape (s r : Units) : Utf16.wellFormed (escape s ++ r) = Utf16.wellFormed r := by
  fun_induction escape s with
  | case1 => rfl
  | case2 u => exact wellFormed_escapeUnit u r
  | case3 u v s hpair ih =>
    obtain ⟨hu, hv⟩ := Bool.and_eq_true_iff.1 hpair
    exact (Utf16.wellFormed_cons_cons hu hv _).trans ih
  | case4 u v s hpair ih =>
    rw [List.append_assoc, wellFormed_escapeUnit, ih]

theorem wellFormed_word {w : Units} (h : ∀ u ∈ w, isWord u = true) (r : Units) :
    Utf16.wellFormed (w ++ r) = Utf16.wellFormed r := by
  induction w with
  | nil => rfl
  | cons u w ih =>
    obtain ⟨hu, hw⟩ := List.forall_mem_cons.1 h
    exact (wellFormed_ascii (isWord_lt hu) _).trans (ih hw)

theorem wellFormed_flatMap_text {ts : List Token} (h : Spaced ts) :
    Utf16.wellFormed (ts.flatMap text) = true := by
  induction ts with
  | nil => rfl
  | cons t ts ih =>
    rw [List.flatMap_cons]
    cases t with
    | word w => exact (wellFormed_word h.1.2 _).trans (ih h.2.2)
    | str s =>
      show Utf16.wellFormed (34 :: (escape s ++ [34] ++ _)) = true
      rw [wellFormed_ascii (by decide), List.append_assoc, wellFormed_escape]
      exact (wellFormed_ascii (by decide) _).trans (ih h)
    | beginArray | endArray | beginObject | endObject | comma | colon =>
      exact (wellFormed_ascii (by decide) _).trans (ih h)

end Token

namespace Json

open Token

theorem isWord_of_isLiteral {c : Char} (h : Number.isLiteral c = true) :
    ∀ u ∈ Utf16.units c, isWord u = true := by
  unfold Number.isLiteral at h
  rcases Bool.or_eq_true_iff.1 h with h | h
  · unfold Char.isDigit at h
    obtain ⟨hge, hle⟩ := Bool.and_eq_true_iff.1 h
    have hge : 48 ≤ c.toNat := of_decide_eq_true hge
    have hle : c.toNat ≤ 57 := of_decide_eq_true hle
    unfold Utf16.units
    rw [if_pos (by omega)]
    refine List.forall_mem_singleton.2 ?_
    unfold isWord
    rw [Utf16.toNat_unit (by omega)]
    simp [hge, hle]
  · have hall : ['.', 'e', '+', '-'].all (fun c => (Utf16.units c).all isWord) = true := by decide
    exact List.all_eq_true.1 (List.all_eq_true.1 hall c (of_decide_eq_true h))

theorem isWord_text {x : Number} {t : List Char} (h : Number.text x = some t) :
    Utf16.ofChars t ≠ [] ∧ ∀ u ∈ Utf16.ofChars t, isWord u = true := by
  refine ⟨fun hnil => ?_, fun u hu => ?_⟩
  · obtain ⟨y, -, hread⟩ := Number.read_text h
    rw [← Utf16.chars_ofChars t, hnil] at hread
    cases hread
  · obtain ⟨c, hc, hu⟩ := List.mem_flatMap.1 hu
    exact isWord_of_isLiteral (Number.isLiteral_text h c hc) u hu

theorem isWord_of_all {w : Units} (hne : w ≠ []) (h : w.all isWord = true) :
    w ≠ [] ∧ ∀ u ∈ w, isWord u = true :=
  ⟨hne, List.all_eq_true.1 h⟩

theorem isWord_null : ofString "null" ≠ [] ∧ ∀ u ∈ ofString "null", isWord u = true :=
  isWord_of_all (by decide) (by decide)

theorem isWord_bool (b : Bool) :
    let w := if b then ofString "true" else ofString "false"
    w ≠ [] ∧ ∀ u ∈ w, isWord u = true := by
  cases b with
  | false => exact isWord_of_all (by decide) (by decide)
  | true => exact isWord_of_all (by decide) (by decide)

theorem isWord_number (x : Number) :
    let w := ((Number.text x).map Utf16.ofChars).getD (ofString "null")
    w ≠ [] ∧ ∀ u ∈ w, isWord u = true := by
  cases h : Number.text x with
  | none => exact isWord_null
  | some t => exact isWord_text h

/-- The tokens of lists with commas between them, in front of more. -/
theorem spaced_separated {tss : List (List Token)}
    (h : ∀ ts ∈ tss, ∀ r, startsWord r = false → Spaced r → Spaced (ts ++ r)) {r : List Token}
    (hstart : startsWord r = false) (hr : Spaced r) : Spaced (separated tss ++ r) := by
  cases tss with
  | nil => exact hr
  | cons ts tss =>
    obtain ⟨hts, htss⟩ := List.forall_mem_cons.1 h
    have hrest : Spaced (tss.flatMap (Token.comma :: ·) ++ r) ∧
        startsWord (tss.flatMap (Token.comma :: ·) ++ r) = false := by
      clear h hts
      induction tss with
      | nil => exact ⟨hr, hstart⟩
      | cons ts' tss ih =>
        obtain ⟨hts', htss⟩ := List.forall_mem_cons.1 htss
        rw [List.flatMap_cons, List.append_assoc]
        exact ⟨hts' _ (ih htss).2 (ih htss).1, rfl⟩
    show Spaced (ts ++ _ ++ r)
    rw [List.append_assoc]
    exact hts _ hrest.2 hrest.1

theorem spaced_tokens_append (v : Json) :
    ∀ r, startsWord r = false → Spaced r → Spaced (tokens v ++ r) := by
  induction v with
  | null => exact fun r hstart hr => ⟨isWord_null, hstart, hr⟩
  | bool b => exact fun r hstart hr => ⟨isWord_bool b, hstart, hr⟩
  | number x => exact fun r hstart hr => ⟨isWord_number x, hstart, hr⟩
  | str s => exact fun r _ hr => hr
  | arr items ih =>
    intro r _ hr
    rw [tokens_arr]
    show Spaced (separated _ ++ [Token.endArray] ++ r)
    rw [List.append_assoc]
    exact spaced_separated (List.forall_mem_map.2 ih) rfl hr
  | obj members ih =>
    intro r _ hr
    rw [tokens_obj]
    show Spaced (separated _ ++ [Token.endObject] ++ r)
    rw [List.append_assoc]
    refine spaced_separated (List.forall_mem_map.2 fun m hm => ?_) rfl hr
    exact ih m hm

theorem spaced_tokens (v : Json) : Spaced (tokens v) := by
  rw [← List.append_nil (tokens v)]
  exact spaced_tokens_append v [] rfl trivial

/-- The text of a value is a well-formed string, whatever the strings in it are. -/
theorem wellFormed_stringify (v : Json) : Utf16.wellFormed (stringify v) = true :=
  wellFormed_flatMap_text (spaced_tokens v)

/-- A copy has the tokens of its original. -/
theorem tokens_copy (v : Json) : tokens (copy v) = tokens v := by
  induction v with
  | null | bool | str => rfl
  | number x =>
    rcases copy_number x with ⟨y, hy, hcopy⟩ | ⟨hnone, hcopy⟩
    · rw [hcopy]
      unfold tokens
      rw [Number.text_copy hy]
    · rw [hcopy]
      unfold tokens
      rw [Number.text_eq_none hnone]
      rfl
  | arr items ih =>
    have hitems : items.map (tokens ∘ copy) = items.map tokens := List.map_congr_left ih
    rw [copy_arr, tokens_arr, tokens_arr, List.map_map, hitems]
  | obj members ih =>
    have hmembers : members.map ((fun m => Token.str m.1 :: Token.colon :: tokens m.2) ∘ fun m => (m.1, copy m.2)) =
        members.map fun m => Token.str m.1 :: Token.colon :: tokens m.2 :=
      List.map_congr_left fun m hm => congrArg (Token.str m.1 :: Token.colon :: ·) (ih m hm)
    rw [copy_obj, tokens_obj, tokens_obj, List.map_map, hmembers]

theorem stringify_copy (v : Json) : stringify (copy v) = stringify v :=
  congrArg (List.flatMap Token.text) (tokens_copy v)

end Json

end Text
