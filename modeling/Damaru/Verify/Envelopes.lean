import Damaru.Core.Encryption

/-!
# Envelopes

An envelope is an RSA block in base64 and, right behind it, data encrypted
under the AES key that the block carries. It is taken apart by length alone.
What comes out is what went in, up to what the conversions to bytes and back
do to a string that is no well-formed UTF-16; the AES key is the same either
way, for it is a digest of the bytes.
-/

namespace Damaru

open Text EncryptionService AppController

variable {node : Node}

/-! ## The service's functions undo one another -/

theorem aesDecrypt_aesEncrypt (hnode : node.Lawful) {aesKey aesKey' : Units}
    (h : HashUtils.sha256Hash node aesKey' = HashUtils.sha256Hash node aesKey) (data : Units) :
    aesDecrypt node (aesEncrypt node data aesKey) aesKey' = .ok (Utf8.decode (Utf8.encode data)) := by
  have hlength : (HashUtils.sha256Hash node aesKey).length = 32 := hnode.length_sha256 _
  unfold aesDecrypt aesEncrypt
  rw [Base64.decode_encode, h, hnode.decipher_cipher _ _ hlength]
  rfl

/-- The text of a value comes back as it is. -/
theorem aesDecrypt_stringify (hnode : node.Lawful) {aesKey aesKey' : Units}
    (h : HashUtils.sha256Hash node aesKey' = HashUtils.sha256Hash node aesKey) (v : Text.Json) :
    aesDecrypt node (aesEncrypt node v.stringify aesKey) aesKey' = .ok v.stringify := by
  rw [aesDecrypt_aesEncrypt hnode h, Utf8.decode_encode_of_wellFormed (Text.Json.wellFormed_stringify v)]

/-- The base64 of a block of 256 bytes has 344 characters. -/
theorem rsaDecrypt_rsaEncrypt (hnode : node.Lawful) (draw : Nat) {key : Units}
    (hkey : (Utf8.encode key).length ≤ 245) :
    ∃ rsaKey, rsaEncrypt node draw key = .ok rsaKey ∧ rsaKey.length = rsaEncryptedKeyLength ∧
      rsaDecrypt node rsaKey = .ok (Utf8.decode (Utf8.encode key)) := by
  obtain ⟨block, hencrypt, hlength, hdecrypt⟩ := hnode.decrypt_encrypt draw _ hkey
  refine ⟨Base64.encode block, ?_, ?_, ?_⟩
  · unfold rsaEncrypt
    rw [hencrypt]
    rfl
  · rw [Base64.length_encode, hlength]
    rfl
  · unfold rsaDecrypt
    rw [Base64.decode_encode, hdecrypt]
    rfl

theorem sha256Hash_decode (key : Units) :
    HashUtils.sha256Hash node (Utf8.decode (Utf8.encode key)) = HashUtils.sha256Hash node key :=
  congrArg node.sha256 (Utf8.encode_decode_encode key)

theorem Node.parse_stringify (v : Value) : node.parse v.json.stringify = .ok v.json.copy := by
  unfold Node.parse
  rw [Text.Json.parse_stringify v.wellFormed]

/-- What the service takes out of an envelope. -/
theorem hybridDecrypt_append (hnode : node.Lawful) {draw : Nat} {key rsaKey : Units}
    (hkey : (Utf8.encode key).length ≤ 245) (hrsa : rsaEncrypt node draw key = .ok rsaKey) (v : Value) :
    hybridDecrypt node (rsaKey ++ aesEncrypt node v.json.stringify key) =
      .ok ⟨v.json.copy, Utf8.decode (Utf8.encode key), rsaKey⟩ := by
  obtain ⟨rsaKey', hencrypt, hlength, hdecrypt⟩ := rsaDecrypt_rsaEncrypt hnode draw hkey
  obtain rfl : rsaKey = rsaKey' := Except.ok.inj (hrsa.symm.trans hencrypt)
  unfold hybridDecrypt
  dsimp only
  rw [List.take_left' hlength, List.drop_left' hlength, hdecrypt]
  show (do
    let text ← aesDecrypt node (aesEncrypt node v.json.stringify key) (Utf8.decode (Utf8.encode key))
    let data ← node.parse text
    return DecryptedPayload.mk data _ rsaKey : Except Thrown DecryptedPayload) = _
  rw [aesDecrypt_stringify hnode (sha256Hash_decode key)]
  show (do
    let data ← node.parse v.json.stringify
    return DecryptedPayload.mk data _ rsaKey : Except Thrown DecryptedPayload) = _
  rw [Node.parse_stringify]
  rfl

/-- What the endpoint gives of an envelope. -/
theorem decrypt_of_hybridDecrypt {encryptedText : Units} {json : DecryptedPayload}
    (h : hybridDecrypt node encryptedText = .ok json) (hdata : json.data.WellFormed) :
    decrypt node encryptedText = .ok (some json.data.copy) := by
  have hpayload : (payload json).WellFormed := by
    have hnames : [ofString "data", ofString "aesKey", ofString "rsaKey"].Pairwise
        fun k k' => Text.Json.precedes k k' = true := by decide +kernel
    refine .obj (Text.Json.ordered_of_names hnames) ?_
    exact List.forall_mem_cons.2 ⟨hdata, List.forall_mem_cons.2 ⟨.str _, List.forall_mem_singleton.2 (.str _)⟩⟩
  unfold decrypt
  rw [h]
  show (do
    let copy ← node.parse (payload json).stringify
    return copy.get? (ofString "data") : Except Thrown (Option Text.Json)) = _
  rw [Node.parse_stringify ⟨_, hpayload⟩]
  show Except.ok ((payload json).copy.get? (ofString "data")) = _
  rw [Text.Json.get?_copy]
  rfl

/-- **An envelope comes back.** For every value and every key whose bytes fit
an RSA block, the envelope is opened: the value is the one that its text stands
for, the RSA part is split off whole, and the key that comes out is the same
AES key, so that what is encrypted under it the sender can decrypt. The two
endpoints are these steps. -/
theorem envelope_opens (hnode : node.Lawful) (draw : Nat) (dto : Value) (key : Units)
    (hkey : (Utf8.encode key).length ≤ 245) :
    ∃ rsaKey json,
      rsaEncrypt node draw key = .ok rsaKey ∧
      hybridDecrypt node (rsaKey ++ aesEncrypt node dto.json.stringify key) = .ok json ∧
      Text.Json.parse dto.json.stringify = some json.data ∧
      json.rsaKey = rsaKey ∧
      HashUtils.sha256Hash node json.aesKey = HashUtils.sha256Hash node key ∧
      (Utf16.wellFormed key = true → json.aesKey = key) ∧
      (∀ response : Text.Json,
        aesDecrypt node (aesEncrypt node response.stringify json.aesKey) key = .ok response.stringify) ∧
      (∀ defaultAesKey, keyOf node defaultAesKey dto.json = .ok key →
        encrypt node defaultAesKey draw dto.json = .ok (rsaKey ++ aesEncrypt node dto.json.stringify key)) ∧
      decrypt node (rsaKey ++ aesEncrypt node dto.json.stringify key) = .ok (some json.data) := by
  obtain ⟨rsaKey, hencrypt, -, -⟩ := rsaDecrypt_rsaEncrypt hnode draw hkey
  have hopened := hybridDecrypt_append hnode hkey hencrypt dto
  refine ⟨rsaKey, _, hencrypt, hopened, Text.Json.parse_stringify dto.wellFormed, rfl, sha256Hash_decode key,
    Utf8.decode_encode_of_wellFormed, fun response => ?_, fun defaultAesKey hkeyOf => ?_, ?_⟩
  · exact aesDecrypt_stringify hnode (sha256Hash_decode key).symm response
  · unfold encrypt
    rw [hkeyOf]
    show (do
      let rsaEncryptedKey ← rsaEncrypt node draw key
      return rsaEncryptedKey ++ aesEncrypt node dto.json.stringify key : Except Thrown Units) = _
    rw [hencrypt]
    rfl
  · rw [decrypt_of_hybridDecrypt hopened dto.wellFormed.copy, Text.Json.copy_copy]

/-- An object with a name and text outside ASCII. -/
def Sample.dto : Value where
  json := .obj [(ofString "é", .arr [.number (Number.ofDecimal true 15 (-1)), .str [0xDC00]])]
  wellFormed := .obj (List.pairwise_singleton _ _) (List.forall_mem_singleton.2
    (.arr (List.forall_mem_cons.2 ⟨.number _, List.forall_mem_singleton.2 (.str _)⟩)))

theorem envelope_opens_sample :
    ∃ rsaKey json,
      rsaEncrypt Node.padded 7 [0xD83D, 0xDE00, 0xD800] = .ok rsaKey ∧
      hybridDecrypt Node.padded
        (rsaKey ++ aesEncrypt Node.padded Sample.dto.json.stringify [0xD83D, 0xDE00, 0xD800]) = .ok json ∧
      Text.Json.parse Sample.dto.json.stringify = some json.data ∧ json.rsaKey = rsaKey := by
  obtain ⟨rsaKey, json, hrsa, hopened, hdata, hrsaKey, -⟩ :=
    envelope_opens Node.lawful_padded 7 Sample.dto [0xD83D, 0xDE00, 0xD800] (by decide +kernel)
  exact ⟨rsaKey, json, hrsa, hopened, hdata, hrsaKey⟩

end Damaru
