import Damaru.Async.Prog
import Damaru.Core.Node

/-!
# Encryption

The encryption service, the flag that it keeps in the database, and the
endpoints of the application that encrypt and decrypt for an administrator.
-/

namespace Damaru

open Async Text

/-- A row of the table with the flag. -/
structure Encryption where
  id : String
  enabled : Bool

/-- Code that awaits the table with the flag. -/
abbrev Flagged := Prog Unit (List Encryption) Thrown

/-- `JSON.stringify` of what may be `undefined`. -/
def stringify (v : Option Text.Json) : Option Units := v.map Text.Json.stringify

def HashUtils.sha256Hash (node : Node) (input : Units) : List UInt8 := node.sha256 (Utf8.encode input)

structure DecryptedPayload where
  data : Text.Json
  aesKey : Units
  rsaKey : Units

namespace EncryptionService

variable (node : Node)

def aesEncrypt (data aesKey : Units) : Units :=
  Base64.encode (node.cipher (HashUtils.sha256Hash node aesKey) (Utf8.encode data))

def aesDecrypt (data aesKey : Units) : Except Thrown Units := do
  let decrypted ← node.decipher (HashUtils.sha256Hash node aesKey) (Base64.decode data)
  return Utf8.decode decrypted

def rsaEncrypt (draw : Nat) (key : Units) : Except Thrown Units := do
  let encrypted ← node.publicEncrypt draw (Utf8.encode key)
  return Base64.encode encrypted

def rsaDecrypt (data : Units) : Except Thrown Units := do
  let decrypted ← node.privateDecrypt (Base64.decode data)
  return Utf8.decode decrypted

/-- The length in base64 of an RSA block of 2048 bits. -/
def rsaEncryptedKeyLength : Nat := 344

def hybridDecrypt (encryptedPayload : Units) : Except Thrown DecryptedPayload := do
  let rsaEncryptedKey := encryptedPayload.take rsaEncryptedKeyLength
  let aesEncryptedData := encryptedPayload.drop rsaEncryptedKeyLength
  let decryptedAesKey ← rsaDecrypt node rsaEncryptedKey
  let text ← aesDecrypt node aesEncryptedData decryptedAesKey
  let data ← node.parse text
  return { data, aesKey := decryptedAesKey, rsaKey := rsaEncryptedKey }

def toggleEncryption (enabled : Bool) : Flagged String := do
  Prog.op fun _ rows => (.ok (), rows.map fun r => if r.id = "1" then { r with enabled } else r)
  return "Encryption has been set to: " ++ toString enabled

def getEncryption : Flagged (Option Encryption) :=
  Prog.op fun _ rows => (.ok (rows.find? fun r => r.id = "1"), rows)

end EncryptionService

namespace AppController

open EncryptionService

variable (node : Node)

/-- `jsonToEncrypt.key ?? DEFAULT_AES_KEY`. -/
def keyOf (defaultAesKey : Units) (jsonToEncrypt : Text.Json) : Except Thrown Units :=
  match jsonToEncrypt with
  | .null => .error (node.error "Cannot read properties of null (reading 'key')")
  | _ =>
    match jsonToEncrypt.get? (ofString "key") with
    | none | some .null => .ok defaultAesKey
    | some (.str key) => .ok key
    | some v => .error ⟨node.keyMessage v, node.stack (node.keyMessage v)⟩

def encrypt (defaultAesKey : Units) (draw : Nat) (jsonToEncrypt : Text.Json) : Except Thrown Units := do
  let key ← keyOf node defaultAesKey jsonToEncrypt
  let rsaEncryptedKey ← rsaEncrypt node draw key
  return rsaEncryptedKey ++ aesEncrypt node jsonToEncrypt.stringify key

/-- The members of the decrypted payload as an object. -/
def payload (json : DecryptedPayload) : Text.Json :=
  .obj [(ofString "data", json.data), (ofString "aesKey", .str json.aesKey), (ofString "rsaKey", .str json.rsaKey)]

def decrypt (encryptedText : Units) : Except Thrown (Option Text.Json) := do
  let json ← hybridDecrypt node encryptedText
  let copy ← node.parse (payload json).stringify
  return copy.get? (ofString "data")

end AppController

end Damaru
