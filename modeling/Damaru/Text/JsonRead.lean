import Damaru.Text.JsonWrite

/-!
# Reading JSON

`JSON.parse` in two passes, both of them machines that take one unit or one
token at a time: the units are read into tokens, and the tokens into a value
with a stack of what is still open. Reading what was written gives the copy of
the value.
-/

namespace Text

namespace Token

/-! ## Tokens from units -/

/-- What the reader is inside of. -/
inductive Mode where
  | between
  | word (w : Units)
  | string (s : Units)
  /-- Behind a backslash. -/
  | escape (s : Units)
  /-- Behind `\u` and `k` digits. -/
  | hex (s : Units) (n k : Nat)

def isSpace (u : UInt16) : Bool := u = 32 || u = 9 || u = 10 || u = 13

def punctuation (u : UInt16) : Option Token :=
  if u = 91 then some beginArray
  else if u = 93 then some endArray
  else if u = 123 then some beginObject
  else if u = 125 then some endObject
  else if u = 44 then some comma
  else if u = 58 then some colon
  else none

def unescape (e : UInt16) : Option UInt16 :=
  if e = 34 ∨ e = 92 ∨ e = 47 then some e
  else if e = 98 then some 8
  else if e = 116 then some 9
  else if e = 110 then some 10
  else if e = 102 then some 12
  else if e = 114 then some 13
  else none

def hexValue (u : UInt16) : Option Nat :=
  let n := u.toNat
  if 48 ≤ n ∧ n ≤ 57 then some (n - 48)
  else if 97 ≤ n ∧ n ≤ 102 then some (n - 87)
  else if 65 ≤ n ∧ n ≤ 70 then some (n - 55)
  else none

/-- A unit that is no part of a word or a string. -/
def outside (u : UInt16) : Option (List Token × Mode) :=
  if isSpace u then some ([], .between)
  else if u = 34 then some ([], .string [])
  else if isWord u then some ([], .word [u])
  else (punctuation u).map fun t => ([t], .between)

/-- The tokens that a unit completes, and what the reader is inside of then. -/
def next : Mode → UInt16 → Option (List Token × Mode)
  | .between, u => outside u
  | .word w, u =>
    if isWord u then some ([], .word (w ++ [u]))
    else (outside u).map fun r => (word w :: r.1, r.2)
  | .string s, u =>
    if u = 34 then some ([str s], .between)
    else if u = 92 then some ([], .escape s)
    else if u.toNat < 32 then none
    else some ([], .string (s ++ [u]))
  | .escape s, u =>
    if u = 117 then some ([], .hex s 0 0)
    else (unescape u).map fun v => ([], .string (s ++ [v]))
  | .hex s n k, u =>
    (hexValue u).map fun d =>
      if k = 3 then ([], .string (s ++ [UInt16.ofNat (n * 16 + d)])) else ([], .hex s (n * 16 + d) (k + 1))

/-- What is left when the text ends. -/
def last : Mode → Option (List Token)
  | .between => some []
  | .word w => some [word w]
  | .string _ | .escape _ | .hex .. => none

/-- The tokens of a text. -/
def lex : Mode → Units → Option (List Token)
  | m, [] => last m
  | m, u :: s => (next m u).bind fun r => (lex r.2 s).map (r.1 ++ ·)

theorem lex_cons {m m' : Mode} {u : UInt16} {ts : List Token} (h : next m u = some (ts, m')) (s : Units) :
    lex m (u :: s) = (lex m' s).map (ts ++ ·) := by
  show (next m u).bind _ = _
  rw [h]
  rfl

theorem lex_cons_nil {m m' : Mode} {u : UInt16} (h : next m u = some ([], m')) (s : Units) :
    lex m (u :: s) = lex m' s := by
  rw [lex_cons h]
  cases lex m' s <;> rfl

theorem outside_word {u : UInt16} (h : isWord u = true) : outside u = some ([], .word [u]) := by
  have hspace : isSpace u = false := by
    rw [Bool.eq_false_iff]
    intro hspace
    unfold isSpace at hspace
    simp only [Bool.or_eq_true, decide_eq_true_eq] at hspace
    rcases hspace with ((rfl | rfl) | rfl) | rfl <;> exact absurd h (by decide)
  have hquote : u ≠ 34 := by
    rintro rfl
    exact absurd h (by decide)
  unfold outside
  rw [hspace, if_neg hquote, h]
  rfl

theorem lex_word {w : Units} (h : ∀ u ∈ w, isWord u = true) (acc r : Units) :
    lex (.word acc) (w ++ r) = lex (.word (acc ++ w)) r := by
  induction w generalizing acc with
  | nil => rw [List.append_nil]; rfl
  | cons u w ih =>
    obtain ⟨hu, hw⟩ := List.forall_mem_cons.1 h
    have hnext : next (.word acc) u = some ([], .word (acc ++ [u])) := if_pos hu
    rw [List.cons_append, lex_cons_nil hnext, ih hw, List.append_assoc]
    rfl

/-- A word ends where no unit of a word follows. -/
theorem lex_word_end {w r : Units} (h : ∀ u ∈ r.head?, isWord u = false) :
    lex (.word w) r = (lex .between r).map (word w :: ·) := by
  cases r with
  | nil => rfl
  | cons u r =>
    have hu := h u rfl
    have hnext : next (.word w) u = (outside u).map fun r => (word w :: r.1, r.2) := by
      show (if isWord u = true then _ else _) = _
      rw [hu]
      rfl
    cases houtside : outside u with
    | none =>
      show (next (.word w) u).bind _ = ((outside u).bind _).map _
      rw [hnext, houtside]
      rfl
    | some p =>
      rw [houtside] at hnext
      rw [lex_cons hnext, @lex_cons .between p.2 u p.1 houtside, Option.map_map]
      rfl

theorem unescape_of_shortEscape {u e : UInt16} (h : shortEscape u = some e) :
    e ≠ 117 ∧ unescape e = some u := by
  unfold shortEscape at h
  split_ifs at h with hu hu hu hu hu hu hu <;> cases h <;> rw [hu] <;> decide

theorem hexValue_hexDigit : ∀ n : Fin 16, hexValue (hexDigit n) = some n.val := by decide

theorem lex_hexDigit {n k d : Nat} (hd : d < 16) (hk : k ≠ 3) (s r : Units) :
    lex (.hex s n k) (hexDigit d :: r) = lex (.hex s (n * 16 + d) (k + 1)) r := by
  have hvalue : hexValue (hexDigit d) = some d := hexValue_hexDigit ⟨d, hd⟩
  refine lex_cons_nil ?_ r
  unfold next
  dsimp only
  rw [hvalue, Option.map_some, if_neg hk]

theorem lex_hexDigit_last {n d : Nat} (hd : d < 16) (s r : Units) :
    lex (.hex s n 3) (hexDigit d :: r) = lex (.string (s ++ [UInt16.ofNat (n * 16 + d)])) r := by
  have hvalue : hexValue (hexDigit d) = some d := hexValue_hexDigit ⟨d, hd⟩
  refine lex_cons_nil ?_ r
  unfold next
  dsimp only
  rw [hvalue]
  rfl

theorem lex_plain {u : UInt16} (hquote : u ≠ 34) (hbackslash : u ≠ 92) (hcontrol : ¬ u.toNat < 32)
    (s r : Units) : lex (.string s) (u :: r) = lex (.string (s ++ [u])) r := by
  refine lex_cons_nil ?_ r
  unfold next
  dsimp only
  rw [if_neg hquote, if_neg hbackslash, if_neg hcontrol]

theorem lex_unicode (u : UInt16) (s r : Units) :
    lex (.string s) (unicode u ++ r) = lex (.string (s ++ [u])) r := by
  have hlt := u.toNat_lt
  have hvalue : (((0 * 16 + u.toNat / 4096) * 16 + u.toNat / 256 % 16) * 16 + u.toNat / 16 % 16) * 16 +
      u.toNat % 16 = u.toNat := by omega
  show lex _ (92 :: 117 :: hexDigit _ :: hexDigit _ :: hexDigit _ :: hexDigit _ :: r) = _
  rw [@lex_cons_nil (.string s) (.escape s) _ rfl, @lex_cons_nil (.escape s) (.hex s 0 0) _ rfl,
    lex_hexDigit (by omega) (by decide), lex_hexDigit (by omega) (by decide),
    lex_hexDigit (by omega) (by decide), lex_hexDigit_last (by omega), hvalue, UInt16.ofNat_toNat]

theorem lex_escapeUnit (u : UInt16) (s r : Units) :
    lex (.string s) (escapeUnit u ++ r) = lex (.string (s ++ [u])) r := by
  rcases escapeUnit_cases u with ⟨e, he, hu⟩ | hu | ⟨hu, hquote, hbackslash, hcontrol, -⟩
  · obtain ⟨hne, hvalue⟩ := unescape_of_shortEscape he
    have hnext : next (.escape s) e = some ([], .string (s ++ [u])) := by
      unfold next
      dsimp only
      rw [if_neg hne, hvalue]
      rfl
    rw [hu]
    show lex _ (92 :: e :: r) = _
    rw [@lex_cons_nil (.string s) (.escape s) _ rfl, lex_cons_nil hnext]
  · rw [hu, lex_unicode]
  · rw [hu]
    exact lex_plain hquote hbackslash hcontrol s r

theorem lex_escape (s acc r : Units) : lex (.string acc) (escape s ++ r) = lex (.string (acc ++ s)) r := by
  fun_induction escape s generalizing acc with
  | case1 => rw [List.append_nil]; rfl
  | case2 u => exact lex_escapeUnit u acc r
  | case3 u v s hpair ih =>
    obtain ⟨hu, hv⟩ := Bool.and_eq_true_iff.1 hpair
    have hu := Utf16.isHigh_iff.1 hu
    have hv := Utf16.isLow_iff.1 hv
    have hplain : ∀ {w : UInt16} (acc r : Units), 0xD800 ≤ w.toNat →
        lex (.string acc) (w :: r) = lex (.string (acc ++ [w])) r := fun {w} acc r hw => by
      refine lex_plain ?_ ?_ (by omega) acc r
      · rintro rfl
        exact absurd hw (by decide)
      · rintro rfl
        exact absurd hw (by decide)
    show lex _ (u :: v :: (escape s ++ r)) = _
    rw [hplain _ _ hu.1, hplain _ _ (by omega), ih, List.append_assoc, List.append_assoc]
    rfl
  | case4 u v s hpair ih =>
    rw [List.append_assoc, lex_escapeUnit, ih, List.append_assoc]
    rfl

theorem head_flatMap_text {ts : List Token} (h : startsWord ts = false) :
    ∀ u ∈ (ts.flatMap text).head?, isWord u = false := by
  cases ts with
  | nil => nofun
  | cons t ts =>
    cases t with
    | word w => cases h
    | str s =>
      rintro u ⟨⟩
      decide
    | beginArray | endArray | beginObject | endObject | comma | colon =>
      rintro u ⟨⟩
      decide

/-- The tokens of a text made of tokens. -/
theorem lex_flatMap_text {ts : List Token} (h : Spaced ts) : lex .between (ts.flatMap text) = some ts := by
  induction ts with
  | nil => rfl
  | cons t ts ih =>
    rw [List.flatMap_cons]
    cases t with
    | word w =>
      obtain ⟨⟨hne, hw⟩, hstart, hts⟩ := h
      obtain ⟨u, w, rfl⟩ := List.exists_cons_of_ne_nil hne
      obtain ⟨hu, hw⟩ := List.forall_mem_cons.1 hw
      show lex .between (u :: (w ++ ts.flatMap text)) = _
      rw [@lex_cons_nil .between _ u (outside_word hu), lex_word hw, lex_word_end (head_flatMap_text hstart),
        ih hts]
      rfl
    | str s =>
      show lex .between (34 :: (escape s ++ [34] ++ _)) = _
      rw [@lex_cons_nil .between (.string []) _ rfl, List.append_assoc, lex_escape]
      show lex (.string s) (34 :: ts.flatMap text) = _
      rw [@lex_cons (.string s) .between _ [str s] rfl, ih h]
      rfl
    | beginArray | endArray | beginObject | endObject | comma | colon =>
      exact (lex_cons rfl _).trans (congrArg (Option.map _) (ih h))

end Token

namespace Json

/-! ## A value from tokens -/

/-- An array or an object that is still open: what it has so far. -/
inductive Frame where
  | items (vs : List Json)
  | members (ms : List (Units × Json)) (k : Units)

/-- What may come next, in what is open. -/
inductive Phase where
  | value (stack : List Frame)
  /-- A value, or the end of an array without items. -/
  | first (stack : List Frame)
  | name (ms : List (Units × Json)) (stack : List Frame)
  /-- A name, or the end of an object without members. -/
  | firstName (stack : List Frame)
  | colon (ms : List (Units × Json)) (k : Units) (stack : List Frame)
  | done (v : Json) (stack : List Frame)

def ofWord (w : Units) : Option Json :=
  if w = ofString "null" then some .null
  else if w = ofString "true" then some (.bool true)
  else if w = ofString "false" then some (.bool false)
  else (Number.read (Utf16.chars w)).map .number

/-- A value begins. -/
def begins (stack : List Frame) : Token → Option Phase
  | .word w => (ofWord w).map fun v => .done v stack
  | .str s => some (.done (.str s) stack)
  | .beginArray => some (.first stack)
  | .beginObject => some (.firstName stack)
  | _ => none

def step : Phase → Token → Option Phase
  | .value stack, t => begins stack t
  | .first stack, .endArray => some (.done (.arr []) stack)
  | .first stack, t => begins (.items [] :: stack) t
  | .firstName stack, .endObject => some (.done (.obj []) stack)
  | .firstName stack, .str k => some (.colon [] k stack)
  | .name ms stack, .str k => some (.colon ms k stack)
  | .colon ms k stack, .colon => some (.value (.members ms k :: stack))
  | .done v (.items vs :: stack), .comma => some (.value (.items (vs ++ [v]) :: stack))
  | .done v (.items vs :: stack), .endArray => some (.done (.arr (vs ++ [v])) stack)
  | .done v (.members ms k :: stack), .comma => some (.name (insert ms k v) stack)
  | .done v (.members ms k :: stack), .endObject => some (.done (.obj (insert ms k v)) stack)
  | _, _ => none

def run (p : Phase) : List Token → Option Phase
  | [] => some p
  | t :: ts => (step p t).bind fun p => run p ts

def finish : Phase → Option Json
  | .done v [] => some v
  | _ => none

/-- `JSON.parse`. -/
def parse (s : Units) : Option Json :=
  (Token.lex .between s).bind fun ts => (run (.value []) ts).bind finish

example : (parse (ofString "\x7b\"b\": [1, 2.50], \"7\":null,\"b\" :\"\\u0041\"\x7d")).map stringify =
    some (ofString "\x7b\"7\":null,\"b\":\"A\"\x7d") := by decide +kernel

example : parse (ofString "[1,]") = none ∧ parse (ofString "01") = none := by decide +kernel

theorem ofWord_literal {y : Number} {t : List Char} (hread : Number.read t = some y) : ofWord (Utf16.ofChars t) = some (.number y) := by
  have hne : ∀ {s : String}, Number.read s.toList = none → Utf16.ofChars t ≠ ofString s := fun hs heq => by
    have hchars := congrArg Utf16.chars heq
    unfold ofString at hchars
    rw [Utf16.chars_ofChars, Utf16.chars_ofChars] at hchars
    rw [hchars, hs] at hread
    cases hread
  unfold ofWord
  rw [if_neg (hne (by decide +kernel)), if_neg (hne (by decide +kernel)), if_neg (hne (by decide +kernel)),
    Utf16.chars_ofChars, hread]
  rfl

/-- The word of a number stands for the number's copy. -/
theorem ofWord_number (x : Number) :
    ofWord (((Number.text x).map Utf16.ofChars).getD (ofString "null")) = some (copy (.number x)) := by
  show _ = some (((Number.copy x).map Json.number).getD .null)
  cases h : Number.text x with
  | none =>
    rw [Number.copy_eq_none h]
    exact if_pos rfl
  | some t =>
    obtain ⟨y, hcopy, hread⟩ := Number.read_text h
    rw [hcopy]
    exact ofWord_literal hread

theorem run_cons {p p' : Phase} {t : Token} (h : step p t = some p') (ts : List Token) :
    run p (t :: ts) = run p' ts := by
  show (step p t).bind _ = _
  rw [h]
  rfl

theorem run_word {w : Units} {v : Json} (h : ofWord w = some v) (stack : List Frame) (r : List Token) :
    run (.value stack) (.word w :: r) = run (.done v stack) r := by
  refine run_cons ?_ r
  show (ofWord w).map _ = _
  rw [h]
  rfl

/-- The first item of an array is read as a value. -/
theorem run_first (v : Json) (stack : List Frame) (r : List Token) :
    run (.first stack) (tokens v ++ r) = run (.value (.items [] :: stack)) (tokens v ++ r) := by
  cases v with
  | null | bool | number | str => rfl
  | arr items => rw [tokens_arr]; rfl
  | obj members => rw [tokens_obj]; rfl

/-- Items behind an item, up to the end of the array. -/
theorem run_items {items : List Json}
    (h : ∀ v ∈ items, ∀ stack r, run (.value stack) (tokens v ++ r) = run (.done (copy v) stack) r)
    (v : Json) (vs : List Json) (stack : List Frame) (r : List Token) :
    run (.done v (.items vs :: stack)) ((items.map tokens).flatMap (Token.comma :: ·) ++ .endArray :: r) =
      run (.done (.arr (vs ++ v :: items.map copy)) stack) r := by
  induction items generalizing v vs with
  | nil => rfl
  | cons v' items ih =>
    obtain ⟨hv', hitems⟩ := List.forall_mem_cons.1 h
    rw [List.map_cons, List.flatMap_cons, List.append_assoc, List.cons_append]
    rw [@run_cons _ (.value (.items (vs ++ [v]) :: stack)) .comma rfl, hv', ih hitems, List.append_assoc]
    rfl

/-- Members behind a member, up to the end of the object. -/
theorem run_members {members : List (Units × Json)}
    (h : ∀ m ∈ members, ∀ stack r, run (.value stack) (tokens m.2 ++ r) = run (.done (copy m.2) stack) r)
    {ms : List (Units × Json)} {k : Units} {v : Json} (hordered : Ordered (ms ++ (k, v) :: members))
    (stack : List Frame) (r : List Token) :
    run (.done v (.members ms k :: stack))
        ((members.map fun m => Token.str m.1 :: Token.colon :: tokens m.2).flatMap (Token.comma :: ·) ++
          .endObject :: r) =
      run (.done (.obj (ms ++ (k, v) :: members.map fun m => (m.1, copy m.2))) stack) r := by
  induction members generalizing ms k v with
  | nil =>
    have hlast : ∀ m ∈ ms, precedes m.1 k = true :=
      fun m hm => (List.pairwise_append.1 hordered).2.2 m hm _ List.mem_cons_self
    refine (@run_cons _ (.done (.obj (insert ms k v)) stack) .endObject rfl r).trans ?_
    rw [insert_append v hlast]
    rfl
  | cons m members ih =>
    obtain ⟨hm, hmembers⟩ := List.forall_mem_cons.1 h
    have hlast : ∀ m ∈ ms, precedes m.1 k = true :=
      fun m hm => (List.pairwise_append.1 hordered).2.2 m hm _ List.mem_cons_self
    have hcopied : Ordered ((ms ++ [(k, v)]) ++ (m.1, copy m.2) :: members) := by
      refine hordered.of_names ?_
      simp only [List.map_append, List.map_cons, List.append_assoc, List.cons_append, List.nil_append]
    rw [List.map_cons, List.flatMap_cons, List.append_assoc, List.cons_append, List.cons_append, List.cons_append]
    rw [@run_cons _ (.name (insert ms k v) stack) .comma rfl,
      @run_cons _ (.colon (insert ms k v) m.1 stack) (.str m.1) rfl,
      @run_cons _ (.value (.members (insert ms k v) m.1 :: stack)) .colon rfl, hm, insert_append v hlast,
      ih hmembers hcopied, List.append_assoc]
    rfl

/-- A value is read from its tokens: the induction is on the value, and the
tokens behind it and what is open around it are any. -/
theorem run_tokens {v : Json} (hv : WellFormed v) (stack : List Frame) (r : List Token) :
    run (.value stack) (tokens v ++ r) = run (.done (copy v) stack) r := by
  induction v generalizing stack r with
  | null => exact run_word (if_pos rfl) stack r
  | bool b =>
    cases b with
    | false => exact run_word rfl stack r
    | true => exact run_word rfl stack r
  | number x => exact run_word (ofWord_number x) stack r
  | str s => rfl
  | arr items ih =>
    cases hv with
    | arr h =>
      rw [tokens_arr, copy_arr, List.cons_append, @run_cons _ (.first stack) .beginArray rfl]
      cases items with
      | nil => rfl
      | cons v items =>
        obtain ⟨hv, hitems⟩ := List.forall_mem_cons.1 h
        obtain ⟨ihv, ihitems⟩ := List.forall_mem_cons.1 ih
        show run _ (tokens v ++ _ ++ [Token.endArray] ++ r) = _
        rw [List.append_assoc, List.append_assoc, run_first, ihv hv]
        exact run_items (fun v hm stack r => ihitems v hm (hitems v hm) stack r) (copy v) [] stack r
  | obj members ih =>
    cases hv with
    | obj ordered h =>
      rw [tokens_obj, copy_obj, List.cons_append, @run_cons _ (.firstName stack) .beginObject rfl]
      cases members with
      | nil => rfl
      | cons m members =>
        obtain ⟨hm, hmembers⟩ := List.forall_mem_cons.1 h
        obtain ⟨ihm, ihmembers⟩ := List.forall_mem_cons.1 ih
        show run _ (Token.str m.1 :: Token.colon :: (tokens m.2 ++ _ ++ [Token.endObject] ++ r)) = _
        rw [@run_cons _ (.colon [] m.1 stack) (.str m.1) rfl,
          @run_cons _ (.value (.members [] m.1 :: stack)) .colon rfl, List.append_assoc, List.append_assoc,
          ihm hm]
        exact run_members (fun m hm stack r => ihmembers m hm (hmembers m hm) stack r)
          (@Ordered.of_names _ ([] ++ (m.1, copy m.2) :: members) ordered rfl) stack r

/-- **Round trip of JSON.** The text of a value stands for the value's copy. -/
theorem parse_stringify {v : Json} (h : WellFormed v) : parse (stringify v) = some (copy v) := by
  have htokens := run_tokens h [] []
  rw [List.append_nil] at htokens
  unfold parse stringify
  rw [Token.lex_flatMap_text (spaced_tokens v), Option.bind_some, htokens]
  rfl

theorem parse_word {w : Units} {v : Json} (hlex : Token.lex .between w = some [.word w]) (h : ofWord w = some v) :
    parse w = some v := by
  unfold parse
  rw [hlex, Option.bind_some, run_word h]
  rfl

/-! ## What is read is well-formed -/

def Frame.WellFormed : Frame → Prop
  | .items vs => ∀ v ∈ vs, Json.WellFormed v
  | .members ms _ => Ordered ms ∧ ∀ m ∈ ms, Json.WellFormed m.2

def Phase.WellFormed : Phase → Prop
  | .value stack | .first stack | .firstName stack => ∀ f ∈ stack, f.WellFormed
  | .name ms stack | .colon ms _ stack =>
    (Ordered ms ∧ ∀ m ∈ ms, Json.WellFormed m.2) ∧ ∀ f ∈ stack, f.WellFormed
  | .done v stack => Json.WellFormed v ∧ ∀ f ∈ stack, f.WellFormed

theorem wellFormed_ofWord {w : Units} {v : Json} (h : ofWord w = some v) : WellFormed v := by
  unfold ofWord at h
  split at h
  · exact Option.some.inj h ▸ .null
  · split at h
    · exact Option.some.inj h ▸ .bool true
    · split at h
      · exact Option.some.inj h ▸ .bool false
      · obtain ⟨x, -, rfl⟩ := Option.map_eq_some_iff.1 h
        exact .number x

theorem wellFormed_insert {ms : List (Units × Json)} (h : Ordered ms ∧ ∀ m ∈ ms, WellFormed m.2) (k : Units)
    {v : Json} (hv : WellFormed v) : Ordered (insert ms k v) ∧ ∀ m ∈ insert ms k v, WellFormed m.2 :=
  ⟨h.1.insert k v, fun m hm => (mem_insert hm).elim (fun heq => heq ▸ hv) (h.2 m)⟩

theorem wellFormed_begins {stack : List Frame} (h : ∀ f ∈ stack, f.WellFormed) {t : Token} {p : Phase}
    (hp : begins stack t = some p) : p.WellFormed := by
  cases t with
  | word w =>
    obtain ⟨v, hv, rfl⟩ := Option.map_eq_some_iff.1 hp
    exact ⟨wellFormed_ofWord hv, h⟩
  | str s =>
    obtain rfl := Option.some.inj hp
    exact ⟨.str s, h⟩
  | beginArray =>
    obtain rfl := Option.some.inj hp
    exact h
  | beginObject =>
    obtain rfl := Option.some.inj hp
    exact h
  | endArray | endObject | comma | colon => cases hp

theorem Phase.WellFormed.step {p p' : Phase} (h : p.WellFormed) {t : Token} (hp : step p t = some p') :
    p'.WellFormed := by
  have hempty : Frame.WellFormed (.items []) := nofun
  unfold Json.step at hp
  split at hp
  · exact wellFormed_begins h hp
  · obtain rfl := Option.some.inj hp
    exact ⟨.arr nofun, h⟩
  · exact wellFormed_begins (List.forall_mem_cons.2 ⟨hempty, h⟩) hp
  · obtain rfl := Option.some.inj hp
    exact ⟨.obj .nil nofun, h⟩
  · obtain rfl := Option.some.inj hp
    exact ⟨⟨.nil, nofun⟩, h⟩
  · obtain rfl := Option.some.inj hp
    exact h
  · obtain rfl := Option.some.inj hp
    exact List.forall_mem_cons.2 ⟨h.1, h.2⟩
  · obtain rfl := Option.some.inj hp
    obtain ⟨hv, hstack⟩ := h
    obtain ⟨hvs, hstack⟩ := List.forall_mem_cons.1 hstack
    exact List.forall_mem_cons.2 ⟨List.forall_mem_append.2 ⟨hvs, List.forall_mem_singleton.2 hv⟩, hstack⟩
  · obtain rfl := Option.some.inj hp
    obtain ⟨hv, hstack⟩ := h
    obtain ⟨hvs, hstack⟩ := List.forall_mem_cons.1 hstack
    exact ⟨.arr (List.forall_mem_append.2 ⟨hvs, List.forall_mem_singleton.2 hv⟩), hstack⟩
  · obtain rfl := Option.some.inj hp
    obtain ⟨hv, hstack⟩ := h
    obtain ⟨hms, hstack⟩ := List.forall_mem_cons.1 hstack
    exact ⟨wellFormed_insert hms _ hv, hstack⟩
  · obtain rfl := Option.some.inj hp
    obtain ⟨hv, hstack⟩ := h
    obtain ⟨hms, hstack⟩ := List.forall_mem_cons.1 hstack
    obtain ⟨hordered, hmembers⟩ := wellFormed_insert hms _ hv
    exact ⟨.obj hordered hmembers, hstack⟩
  · cases hp

theorem Phase.WellFormed.run {p p' : Phase} (h : p.WellFormed) {ts : List Token} (hp : run p ts = some p') :
    p'.WellFormed := by
  induction ts generalizing p with
  | nil => exact Option.some.inj hp ▸ h
  | cons t ts ih =>
    obtain ⟨q, hq, hrest⟩ := Option.bind_eq_some_iff.1 hp
    exact ih (h.step hq) hrest

theorem wellFormed_of_parse {s : Units} {v : Json} (h : parse s = some v) : WellFormed v := by
  obtain ⟨ts, -, h⟩ := Option.bind_eq_some_iff.1 h
  obtain ⟨p, hrun, hfinish⟩ := Option.bind_eq_some_iff.1 h
  have hstart : Phase.WellFormed (.value []) := List.forall_mem_nil _
  have hp := hstart.run hrun
  unfold finish at hfinish
  split at hfinish
  · exact Option.some.inj hfinish ▸ hp.1
  · cases hfinish

end Json

end Text
