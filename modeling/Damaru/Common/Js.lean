/-!
# JavaScript values

What a request body can hold, and what the language, the PostgreSQL driver and
the ORM make of it. No validation pipe is installed, so every field that a
handler reads may be absent or of any JSON type.
-/

namespace Damaru

/-- A parsed JSON value. Numbers that are not whole, or too large to be rendered
without an exponent, keep the text JavaScript renders them as. -/
inductive Json where
  | null
  | bool (b : Bool)
  | int (n : Int)
  | frac (text : String)
  | str (s : String)
  | arr (items : List Json)
  | obj (members : List (String × Json))

/-- A value read from a body; `none` is `undefined`. -/
abbrev JsVal := Option Json

namespace Json

/-- Property access. -/
def get? : Json → String → JsVal
  | .obj ms, k => ms.lookup k
  | _, _ => none

/-- The length in UTF-16 code units. -/
def utf16Length (s : String) : Nat :=
  s.toList.foldl (fun n c => n + if c.toNat < 65536 then 1 else 2) 0

/-- `Object.keys`, and the names that spreading the value yields. -/
def keys : Json → List String
  | .obj ms => ms.map Prod.fst
  | .arr l => (List.range l.length).map toString
  | .str s => (List.range (utf16Length s)).map toString
  | _ => []

/-- The members that spreading the value into an object yields. -/
def spread : Json → List (String × Json)
  | .obj ms => ms
  | .arr l => l.zipIdx.map fun p => (toString p.2, p.1)
  | .str s => s.toList.zipIdx.map fun p => (toString p.2, .str (String.singleton p.1))
  | _ => []

/-- `{...v, [k]: j}`. -/
def spreadWith (v : Json) (k : String) (j : Json) : Json :=
  if (v.spread.lookup k).isSome then
    .obj (v.spread.map fun m => if m.1 = k then (k, j) else m)
  else .obj (v.spread ++ [(k, j)])

def isNull : Json → Bool
  | .null => true
  | _ => false

def truthy : Json → Bool
  | .null => false
  | .bool b => b
  | .int n => n ≠ 0
  | .frac _ => true
  | .str s => s ≠ ""
  | .arr _ => true
  | .obj _ => true

/-- The characters of a JSON string literal. -/
def escape (c : Char) : String :=
  if c = '"' then "\\\""
  else if c = '\\' then "\\\\"
  else if c = '\n' then "\\n"
  else if c = '\r' then "\\r"
  else if c = '\t' then "\\t"
  else if c.toNat = 8 then "\\b"
  else if c.toNat = 12 then "\\f"
  else if c.toNat < 16 then "\\u000" ++ String.singleton (Nat.digitChar c.toNat)
  else if c.toNat < 32 then "\\u001" ++ String.singleton (Nat.digitChar (c.toNat - 16))
  else String.singleton c

def quote (s : String) : String := "\"" ++ String.join (s.toList.map escape) ++ "\""

mutual

/-- `JSON.stringify`. -/
def stringify : Json → String
  | .null => "null"
  | .bool b => toString b
  | .int n => toString n
  | .frac t => t
  | .str s => quote s
  | .arr l => "[" ++ ",".intercalate (stringifyItems l) ++ "]"
  | .obj ms => "\x7b" ++ ",".intercalate (stringifyMembers ms) ++ "\x7d"

def stringifyItems : List Json → List String
  | [] => []
  | v :: l => stringify v :: stringifyItems l

def stringifyMembers : List (String × Json) → List String
  | [] => []
  | (k, v) :: ms => (quote k ++ ":" ++ stringify v) :: stringifyMembers ms

end

/-- An element of a PostgreSQL array literal. -/
def arrayElement (s : String) : String :=
  "\"" ++ String.join (s.toList.map fun c =>
    if c = '\\' then "\\\\" else if c = '"' then "\\\"" else String.singleton c) ++ "\""

mutual

/-- The text the driver sends for a query parameter; `null` is not text. -/
def bound : Json → Option String
  | .null => none
  | .bool b => some (toString b)
  | .int n => some (toString n)
  | .frac t => some t
  | .str s => some s
  | .arr l => some ("\x7b" ++ ",".intercalate (boundItems l) ++ "\x7d")
  | .obj ms => some (stringify (.obj ms))

def boundItems : List Json → List String
  | [] => []
  | .null :: l => "NULL" :: boundItems l
  | .arr l' :: l => ((bound (.arr l')).getD "NULL") :: boundItems l
  | v :: l => arrayElement ((bound v).getD "") :: boundItems l

end

mutual

/-- `toString()`. -/
def toText : Json → String
  | .null => "null"
  | .bool b => toString b
  | .int n => toString n
  | .frac t => t
  | .str s => s
  | .arr l => ",".intercalate (itemTexts l)
  | .obj _ => "[object Object]"

def itemTexts : List Json → List String
  | [] => []
  | .null :: l => "" :: itemTexts l
  | v :: l => toText v :: itemTexts l

end

mutual

/-- A member `toString` hides the method of an object: then it has no text, and
neither has an array that holds it. -/
def hasText : Json → Bool
  | .arr l => itemsHaveText l
  | .obj ms => (ms.lookup "toString").isNone
  | _ => true

def itemsHaveText : List Json → Bool
  | [] => true
  | v :: l => hasText v && itemsHaveText l

end

@[simp] theorem bound_str (s : String) : (Json.str s).bound = some s := rfl

/-- A value has no property but those among its keys. -/
theorem get?_eq_none {j : Json} {k : String} (h : k ∉ j.keys) : j.get? k = none := by
  cases j with
  | obj ms =>
    refine List.lookup_eq_none_iff.2 fun m hm => ?_
    rw [bne_iff_ne]
    intro heq
    exact h (List.mem_map.2 ⟨m, hm, heq.symm⟩)
  | _ => rfl

end Json

/-- The white space that the language skips before a number. -/
def isStrWhiteSpace (c : Char) : Bool :=
  c.toNat ∈ [9, 10, 11, 12, 13, 32, 0xA0, 0x1680, 0x2028, 0x2029, 0x202F, 0x205F, 0x3000, 0xFEFF] ||
    (0x2000 ≤ c.toNat && c.toNat ≤ 0x200A)

/-- The value of a digit. -/
def digitValue (radix : Nat) (c : Char) : Option Nat :=
  let value :=
    if '0' ≤ c ∧ c ≤ '9' then c.toNat - '0'.toNat
    else if 'a' ≤ c ∧ c ≤ 'f' then c.toNat - 'a'.toNat + 10
    else if 'A' ≤ c ∧ c ≤ 'F' then c.toNat - 'A'.toNat + 10
    else radix
  if value < radix then some value else none

/-- The digits that a text begins with. -/
def leadingDigits (radix : Nat) (cs : List Char) : List Nat :=
  (cs.takeWhile fun c => (digitValue radix c).isSome).filterMap (digitValue radix)

/-- The number whose digits these are. -/
def ofDigits (radix : Nat) (digits : List Nat) : Nat := digits.foldl (fun n d => n * radix + d) 0

/-- Groups of four hexadecimal digits, with or without a hyphen between two of
them, in lower case, and what is left of the text behind them. -/
def hexGroups : Nat → List Char → Option (List (List Char) × List Char)
  | 0, cs => some ([], cs)
  | n + 1, cs =>
    if (cs.take 4).length = 4 ∧ (cs.take 4).all fun c => (digitValue 16 c).isSome then
      let rest := cs.drop 4
      (hexGroups n (if n ≠ 0 ∧ rest.head? = some '-' then rest.tail else rest)).map fun o =>
        ((cs.take 4).map Char.toLower :: o.1, o.2)
    else none

/-- The uuid that PostgreSQL reads a text as, written its own way. -/
def readUuid (t : String) : Option String :=
  let braced := t.toList.head? = some '\x7b'
  match hexGroups 8 (if braced then t.toList.tail else t.toList) with
  | some ([a, b, c, d, e, f, g, h], rest) =>
    if rest = (if braced then ['\x7d'] else []) then
      some (String.ofList (a ++ b ++ '-' :: c ++ '-' :: d ++ '-' :: e ++ '-' :: (f ++ g ++ h)))
    else none
  | _ => none

def isUuid (t : String) : Bool := (readUuid t).isSome

example : ["a0eebc99-9c0b-4ef8-bb6d-6bb9bd380a11", "\x7bA0EEBC999C0B4EF8BB6D6BB9BD380A11\x7d",
    "a0eebc99-9c0b-4ef8-bb6d-6bb9bd380a1", "ghost"].map readUuid =
    [some "a0eebc99-9c0b-4ef8-bb6d-6bb9bd380a11", some "a0eebc99-9c0b-4ef8-bb6d-6bb9bd380a11", none, none] := by
  decide +kernel

/-- Whether PostgreSQL takes the text: it has no character for U+0000. -/
def storable (t : String) : Bool := t.toList.all fun c => c.toNat ≠ 0

/-- `parseInt(t)`, with `none` for `NaN`. Beyond 2^53 the language rounds the
number, and beyond all bounds it is infinite. -/
def parseInt (t : String) : Option Int :=
  let cs := t.toList.dropWhile isStrWhiteSpace
  let negative := cs.head? = some '-'
  let unsigned := if cs.head? = some '-' ∨ cs.head? = some '+' then cs.tail else cs
  let hexadecimal := unsigned.take 2 = ['0', 'x'] ∨ unsigned.take 2 = ['0', 'X']
  let digits := if hexadecimal then leadingDigits 16 (unsigned.drop 2) else leadingDigits 10 unsigned
  if digits = [] then none
  else
    let n : Int := ofDigits (if hexadecimal then 16 else 10) digits
    some (if negative then -n else n)

example : [" 42", "-7.9", "0x1F", "1e3", "v2", ""].map parseInt =
    [some 42, some (-7), some 31, some 1, none, none] := by decide +kernel

namespace JsVal

def truthy (v : JsVal) : Bool := v.any Json.truthy

/-- The text bound for the value; `none` for `undefined` and `null`. -/
def bound (v : JsVal) : Option String := v.bind Json.bound

/-- The uuid that the database reads the value as. -/
def uuid (v : JsVal) : Option String := v.bound.bind readUuid

/-- Strict equality with a string. -/
def isStr (v : JsVal) (s : String) : Bool :=
  match v with
  | some (.str t) => t = s
  | _ => false

/-- The value of a boolean column: `dflt` where the column is absent and `none`
for a null. The ORM stores anything else but `true` as false. -/
def booleanOr (dflt : Bool) : JsVal → Option Bool
  | none => some dflt
  | some .null => none
  | some (.bool true) => some true
  | some _ => some false

/-- `a ?? b`. -/
def orElse (v w : JsVal) : JsVal :=
  match v with
  | none => w
  | some .null => w
  | some j => some j

/-- The items `for (const x of v)` visits; `none` if `v` is not iterable. -/
def iterate : JsVal → Option (List Json)
  | some (.arr l) => some l
  | some (.str s) => some (s.toList.map fun c => .str (String.singleton c))
  | _ => none

/-- A find condition `column: v` on a column or on the key of a relation. A
condition whose value is `undefined` or `null` is ignored. -/
def selects (v : JsVal) (column : Option String) : Bool :=
  match v.bound with
  | none => true
  | some t => column = some t

/-- Equality of `Map` keys; two objects parsed from two messages never are the
same key. -/
def sameKey : JsVal → JsVal → Bool
  | none, none => true
  | some .null, some .null => true
  | some (.bool a), some (.bool b) => a = b
  | some (.int a), some (.int b) => a = b
  | some (.frac a), some (.frac b) => a = b
  | some (.str a), some (.str b) => a = b
  | _, _ => false

@[simp] theorem bound_none : bound none = none := rfl

@[simp] theorem uuid_none : uuid none = none := rfl

@[simp] theorem bound_str (s : String) : bound (some (.str s)) = some s := rfl

theorem booleanOr_eq_true {v : JsVal} : booleanOr false v = some true ↔ v = some (.bool true) := by
  unfold booleanOr
  split <;> simp_all

/-- The default is that of an absent value only. -/
theorem booleanOr_some (dflt dflt' : Bool) (j : Json) :
    booleanOr dflt (some j) = booleanOr dflt' (some j) := by
  cases j with
  | bool b => cases b <;> rfl
  | _ => rfl

/-- Only a null is refused. -/
theorem booleanOr_isSome {dflt : Bool} {v : JsVal} :
    (booleanOr dflt v).isSome = true ↔ v ≠ some .null := by
  unfold booleanOr
  split <;> simp_all

@[simp] theorem isStr_iff {v : JsVal} {s : String} : v.isStr s = true ↔ v = some (.str s) := by
  unfold isStr
  split <;> simp_all

@[simp] theorem selects_str {s : String} {column : Option String} :
    selects (some (.str s)) column = true ↔ column = some s := by
  simp [selects]

end JsVal

end Damaru
