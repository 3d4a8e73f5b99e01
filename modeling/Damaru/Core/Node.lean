import Damaru.Text.Base64
import Damaru.Text.JsonRead

/-!
# The runtime

What the encryption layer takes from Node: the functions of `crypto`, as they
are with the server's keys, and the texts of errors. What is relied on is
`Node.Lawful`.
-/

namespace Damaru

open Text

/-- An error that was thrown. -/
structure Thrown where
  message : Units
  stack : Units

/-- A JavaScript value that JSON has a text for. -/
structure Value where
  json : Text.Json
  wellFormed : json.WellFormed

structure Node where
  sha256 : List UInt8 → List UInt8
  /-- AES-256-ECB of data under a key, padding included. -/
  cipher : List UInt8 → List UInt8 → List UInt8
  decipher : List UInt8 → List UInt8 → Except Thrown (List UInt8)
  /-- RSA with the public key and a random padding. -/
  publicEncrypt : Nat → List UInt8 → Except Thrown (List UInt8)
  privateDecrypt : List UInt8 → Except Thrown (List UInt8)
  /-- The stack of an error with this message. -/
  stack : Units → Units
  /-- What `JSON.parse` says of a text that it cannot read. -/
  syntaxMessage : Units → Units
  /-- What `crypto` says of a key that is no string. -/
  keyMessage : Text.Json → Units

namespace Node

/-- The ciphers are undone by their inverses; an RSA block of 2048 bits holds
245 bytes. -/
structure Lawful (node : Node) : Prop where
  length_sha256 : ∀ data, (node.sha256 data).length = 32
  decipher_cipher : ∀ key data, key.length = 32 → node.decipher key (node.cipher key data) = .ok data
  decrypt_encrypt : ∀ draw data, data.length ≤ 245 →
    ∃ block, node.publicEncrypt draw data = .ok block ∧ block.length = 256 ∧ node.privateDecrypt block = .ok data

/-- `new Error(message)`, of whatever class. -/
def error (node : Node) (message : String) : Thrown := ⟨ofString message, node.stack (ofString message)⟩

/-- `JSON.parse`. -/
def parse (node : Node) (s : Units) : Except Thrown Text.Json :=
  match Text.Json.parse s with
  | some v => .ok v
  | none => .error ⟨node.syntaxMessage s, node.stack (node.syntaxMessage s)⟩

/-! ## A runtime with the paddings and no ciphers -/

/-- PKCS#7 padding to blocks of 16 bytes. -/
def pad (data : List UInt8) : List UInt8 :=
  data ++ List.replicate (16 - data.length % 16) (UInt8.ofNat (16 - data.length % 16))

def unpad (data : List UInt8) : Option (List UInt8) :=
  let n := (data.getLast?.getD 0).toNat
  if 1 ≤ n ∧ n ≤ 16 ∧ n ≤ data.length ∧ data.drop (data.length - n) = List.replicate n (UInt8.ofNat n) then
    some (data.take (data.length - n))
  else none

/-- Every byte with a byte of the key. -/
def mask (key data : List UInt8) : List UInt8 := data.mapIdx fun i b => b ^^^ key.getD (i % 32) 0

/-- A PKCS#1 block of 256 bytes. -/
def block (data : List UInt8) : List UInt8 := 0 :: 2 :: (List.replicate (253 - data.length) 255 ++ 0 :: data)

def unblock : List UInt8 → Option (List UInt8)
  | 0 :: 2 :: data => if data.length = 254 then (data.dropWhile (· ≠ 0)).tail? else none
  | _ => none

def padded : Node where
  sha256 data := (data ++ List.replicate 32 0).take 32
  cipher key data := mask key (pad data)
  decipher key data :=
    match unpad (mask key data) with
    | some data => .ok data
    | none => .error ⟨ofString "bad decrypt", []⟩
  publicEncrypt _ data :=
    if data.length ≤ 245 then .ok (block data) else .error ⟨ofString "data too large for key size", []⟩
  privateDecrypt data :=
    match unblock data with
    | some data => .ok data
    | none => .error ⟨ofString "padding check failed", []⟩
  stack _ := []
  syntaxMessage _ := ofString "Unexpected token"
  keyMessage _ := ofString "The argument must be of type string"

theorem unpad_pad (data : List UInt8) : unpad (pad data) = some data := by
  have hmod := Nat.mod_lt data.length (show 0 < 16 by decide)
  have hlength : (pad data).length = data.length + (16 - data.length % 16) := by
    unfold pad
    rw [List.length_append, List.length_replicate]
  have hlast : ((pad data).getLast?.getD 0).toNat = 16 - data.length % 16 := by
    unfold pad
    rw [List.getLast?_append_of_ne_nil _ (by rw [ne_eq, List.replicate_eq_nil_iff]; omega),
      List.getLast?_replicate, if_neg (by omega), Option.getD_some, UInt8.toNat_ofNat']
    omega
  have hstart : (pad data).length - (16 - data.length % 16) = data.length := by omega
  unfold unpad
  dsimp only
  rw [hlast, hstart, if_pos]
  · unfold pad
    rw [List.take_left]
  · refine ⟨by omega, by omega, by omega, ?_⟩
    unfold pad
    rw [List.drop_left]

theorem mask_mask (key data : List UInt8) : mask key (mask key data) = data := by
  unfold mask
  rw [List.mapIdx_mapIdx]
  refine List.ext_getElem (by rw [List.length_mapIdx]) fun i h h' => ?_
  rw [List.getElem_mapIdx, Function.comp_apply, UInt8.xor_assoc, UInt8.xor_self, UInt8.xor_zero]

theorem unblock_block {data : List UInt8} (h : data.length ≤ 245) : unblock (block data) = some data := by
  have hlength : (List.replicate (253 - data.length) 255 ++ 0 :: data).length = 254 := by
    rw [List.length_append, List.length_replicate, List.length_cons]
    omega
  have hfill : ∀ b ∈ List.replicate (253 - data.length) (255 : UInt8), decide (b ≠ 0) = true := fun b hb => by
    rw [(List.mem_replicate.1 hb).2]
    decide
  refine (if_pos hlength).trans ?_
  rw [List.dropWhile_append_of_pos hfill]
  rfl

theorem lawful_padded : padded.Lawful where
  length_sha256 data := by
    show (List.take 32 _).length = 32
    rw [List.length_take, List.length_append, List.length_replicate]
    omega
  decipher_cipher key data _ := by
    show (match unpad (mask key (mask key (pad data))) with | some data => Except.ok data | none => _) = _
    rw [mask_mask, unpad_pad]
  decrypt_encrypt draw data h := by
    refine ⟨block data, if_pos h, ?_, ?_⟩
    · unfold block
      simp only [List.length_cons, List.length_append, List.length_replicate]
      omega
    · show (match unblock (block data) with | some data => Except.ok data | none => _) = _
      rw [unblock_block h]

end Node

end Damaru
