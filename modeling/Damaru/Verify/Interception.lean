import Damaru.Core.Middlewares
import Damaru.Verify.Envelopes

/-!
# Interception

What a request becomes behind `EncryptionInterceptor` while encryption is
enabled. A request delivers an AES key and a body, or it does not; the handler
is called with that body once, or never.
-/

namespace Damaru

open Async Text EncryptionService

/-- The row of the flag. -/
def flag (rows : List Encryption) : Option Encryption := rows.find? fun r => r.id = "1"

def Enabled (rows : List Encryption) : Prop := ∃ encryption, flag rows = some encryption ∧ encryption.enabled = true

def Disabled (rows : List Encryption) : Prop := ∃ encryption, flag rows = some encryption ∧ encryption.enabled = false

namespace EncryptionInterceptor

variable {node : Node} {isDev : Bool} {route : Route} {request : Incoming}

/-- The request delivers the key and the body: the key by its header, beside a
body without members, or both in an envelope. A number too large for a double
and the negative zero do not survive the way into the body. -/
inductive Delivers (node : Node) (request : Incoming) : Units → Option Text.Json → Prop where
  | metadata {xMetadata key : Units} (hbody : keysLength node request.body = .ok 0)
    (hmetadata : request.xMetadata = some xMetadata) (hne : xMetadata ≠ [])
    (hkey : rsaDecrypt node (xMetadata.drop 5) = .ok key) : Delivers node request key request.body
  | envelope {payload key text : Units} {data : Text.Json} (hbody : request.body = some (.str payload))
    (hne : payload ≠ []) (hkey : rsaDecrypt node (payload.take rsaEncryptedKeyLength) = .ok key)
    (htext : aesDecrypt node (payload.drop rsaEncryptedKeyLength) key = .ok text)
    (hdata : Text.Json.parse text = some data) (hnull : data.copy ≠ .null) :
    Delivers node request key (some data.copy)

theorem parse_eq_ok {s : Units} {v : Text.Json} : node.parse s = .ok v ↔ Text.Json.parse s = some v := by
  unfold Node.parse
  cases Text.Json.parse s with
  | none => exact ⟨nofun, nofun⟩
  | some w => rw [Except.ok.injEq, Option.some.injEq]

theorem bind_eq_ok {α β : Type} {r : Except Thrown α} {f : α → Except Thrown β} {b : β} :
    r >>= f = .ok b ↔ ∃ a, r = .ok a ∧ f a = .ok b := by
  cases r with
  | error e => exact ⟨nofun, nofun⟩
  | ok a => exact ⟨fun h => ⟨a, rfl, h⟩, fun ⟨_, ha, h⟩ => Except.ok.inj ha ▸ h⟩

theorem hybridDecrypt_eq_ok {encryptedPayload : Units} {json : DecryptedPayload} :
    hybridDecrypt node encryptedPayload = .ok json ↔
      ∃ text, rsaDecrypt node (encryptedPayload.take rsaEncryptedKeyLength) = .ok json.aesKey ∧
        aesDecrypt node (encryptedPayload.drop rsaEncryptedKeyLength) json.aesKey = .ok text ∧
        Text.Json.parse text = some json.data ∧ json.rsaKey = encryptedPayload.take rsaEncryptedKeyLength := by
  unfold hybridDecrypt
  dsimp only
  rw [bind_eq_ok]
  constructor
  · rintro ⟨key, hkey, h⟩
    obtain ⟨text, htext, h⟩ := bind_eq_ok.1 h
    obtain ⟨data, hdata, h⟩ := bind_eq_ok.1 h
    obtain rfl := Except.ok.inj h
    exact ⟨text, hkey, htext, parse_eq_ok.1 hdata, rfl⟩
  · rintro ⟨text, hkey, htext, hdata, hrsaKey⟩
    refine ⟨json.aesKey, hkey, bind_eq_ok.2 ⟨text, htext, bind_eq_ok.2 ⟨json.data, parse_eq_ok.2 hdata, ?_⟩⟩⟩
    rw [← hrsaKey]
    rfl

/-- A body with members is decrypted as an envelope. -/
theorem decryptRequest_of_ne_zero {n : Nat} (hbody : keysLength node request.body = .ok n) (hn : n ≠ 0) :
    decryptRequest node request = (do
      let decryptedData ← hybridDecryptBody node request.body
      let body ← node.parse decryptedData.data.stringify
      match body with
      | .null => throw (node.error "Cannot read properties of null (reading 'password')")
      | body => return (decryptedData.aesKey, some body)) := by
  unfold decryptRequest
  rw [hbody]
  exact if_neg hn

theorem decryptRequest_of_zero (hbody : keysLength node request.body = .ok 0) {xMetadata : Units}
    (hmetadata : request.xMetadata = some xMetadata) (hne : xMetadata ≠ []) :
    decryptRequest node request = (do
      let aesKey ← rsaDecrypt node (xMetadata.drop 5)
      return (aesKey, request.body)) := by
  unfold decryptRequest
  rw [hbody, hmetadata]
  cases xMetadata with
  | nil => exact absurd rfl hne
  | cons u s => rfl

theorem decryptRequest_of_delivers {key : Units} {body : Option Text.Json} (h : Delivers node request key body) :
    decryptRequest node request = .ok (key, body) := by
  cases h with
  | metadata hbody hmetadata hne hkey =>
    rw [decryptRequest_of_zero hbody hmetadata hne, hkey]
    rfl
  | @envelope payload _ text data hbody hne hkey htext hdata hnull =>
    have hlength : keysLength node request.body = .ok payload.length := by rw [hbody]; rfl
    have hopened : hybridDecrypt node payload = .ok ⟨data, key, payload.take rsaEncryptedKeyLength⟩ :=
      hybridDecrypt_eq_ok.2 ⟨text, hkey, htext, hdata, rfl⟩
    rw [decryptRequest_of_ne_zero hlength (fun h => hne (List.length_eq_zero_iff.1 h)), hbody]
    show (hybridDecrypt node payload >>= _) = _
    rw [hopened]
    show (node.parse data.stringify >>= _) = _
    rw [Node.parse_stringify ⟨data, Text.Json.wellFormed_of_parse hdata⟩]
    show (match data.copy with | .null => _ | body => _) = _
    cases hcopy : data.copy with
    | null => exact absurd hcopy hnull
    | _ => rfl

theorem delivers_of_decryptRequest {key : Units} {body : Option Text.Json}
    (h : decryptRequest node request = .ok (key, body)) : Delivers node request key body := by
  cases hbody : keysLength node request.body with
  | error e =>
    unfold decryptRequest at h
    rw [hbody] at h
    cases h
  | ok n =>
    by_cases hn : n = 0
    · subst hn
      cases hmetadata : request.xMetadata with
      | none =>
        unfold decryptRequest at h
        rw [hbody, hmetadata] at h
        cases h
      | some xMetadata =>
        cases xMetadata with
        | nil =>
          unfold decryptRequest at h
          rw [hbody, hmetadata] at h
          cases h
        | cons u s =>
          rw [decryptRequest_of_zero hbody hmetadata (List.cons_ne_nil u s)] at h
          obtain ⟨aesKey, hkey, h⟩ := bind_eq_ok.1 h
          obtain ⟨rfl, rfl⟩ := Prod.mk.inj (Except.ok.inj h)
          exact .metadata hbody hmetadata (List.cons_ne_nil u s) hkey
    · rw [decryptRequest_of_ne_zero hbody hn] at h
      obtain ⟨json, hopened, h⟩ := bind_eq_ok.1 h
      obtain ⟨copy, hcopy, h⟩ := bind_eq_ok.1 h
      unfold hybridDecryptBody at hopened
      split at hopened
      · rename_i payload hpayload
        obtain ⟨text, hkey, htext, hdata, -⟩ := hybridDecrypt_eq_ok.1 hopened
        rw [Node.parse_stringify ⟨json.data, Text.Json.wellFormed_of_parse hdata⟩] at hcopy
        obtain rfl := Except.ok.inj hcopy
        have hne : payload ≠ [] := by
          rintro rfl
          rw [hpayload] at hbody
          exact hn (Except.ok.inj hbody).symm
        split at h
        · cases h
        · rename_i hnull
          obtain ⟨rfl, rfl⟩ := Prod.mk.inj (Except.ok.inj h)
          exact .envelope hpayload hne hkey htext hdata hnull
      · cases hopened

/-- What the interceptor makes of the flag. -/
def given (node : Node) (isDev : Bool) (route : Route) (request : Incoming) :
    Option Encryption → Except Thrown Handled
  | none => .error (node.error "Cannot read properties of null (reading 'enabled')")
  | some encryption =>
    .ok <|
      if encryption.enabled && !route.excluded then
        match decryptRequest node request with
        | .ok (aesKey, body) =>
          .settled [body] (encryptData node aesKey (Observable.recover
            (fun error => some (exception isDev error.message error.stack))
            ((route.handler body).map fun v => v.map Value.json)))
        | .error error =>
          .of (some (exception isDev (ofString "Failed to decrypt request parameters") error.stack))
      else route.handle request.body

/-- The handler's outcome in the pipe: an error becomes a value first, and the
value is encrypted then. -/
theorem pipe_handle (aesKey : Units) (body : Option Text.Json) :
    ((route.handle body).catchError fun error =>
        .of (some (exception isDev error.message error.stack))).map (encryptData node aesKey) =
      .settled [body] (encryptData node aesKey (Observable.recover
        (fun error => some (exception isDev error.message error.stack))
        ((route.handler body).map fun v => v.map Value.json))) := by
  unfold Route.handle
  rw [Observable.call_eq]
  exact (congrArg (Observable.map _) (Observable.catchError_settled _ _ _)).trans (Observable.map_settled _ _ _)

theorem intercept_eq :
    intercept node isDev route request =
      getEncryption >>= fun encryption => Prog.ofExcept (given node isDev route request encryption) := by
  unfold intercept
  refine congrArg (getEncryption >>= ·) (funext fun encryption => ?_)
  cases encryption with
  | none => rfl
  | some encryption =>
    unfold given
    dsimp only
    cases encryption.enabled with
    | false => rfl
    | true =>
      cases route.excluded with
      | true => rfl
      | false =>
        cases decryptRequest node request with
        | error e => rfl
        | ok r =>
          exact congrArg Pure.pure (pipe_handle r.1 r.2)

theorem ends_getEncryption {rows rows' : List Encryption} {r : Except Thrown (Option Encryption)} :
    getEncryption.Ends rows r rows' ↔ r = .ok (flag rows) ∧ rows' = rows := by
  unfold getEncryption
  rw [Prog.ends_op]
  exact ⟨fun ⟨_, h⟩ => ⟨(Prod.mk.inj h).1.symm, (Prod.mk.inj h).2.symm⟩, fun ⟨hr, hs⟩ => ⟨(), hr ▸ hs ▸ rfl⟩⟩

theorem ends_intercept {rows rows' : List Encryption} {r : Except Thrown Handled} :
    (intercept node isDev route request).Ends rows r rows' ↔
      r = given node isDev route request (flag rows) ∧ rows' = rows := by
  rw [intercept_eq, Prog.ends_bind]
  constructor
  · rintro (⟨e, -, hflag⟩ | ⟨encryption, t, hflag, hgiven⟩)
    · cases (ends_getEncryption.1 hflag).1
    · obtain ⟨hencryption, rfl⟩ := ends_getEncryption.1 hflag
      obtain rfl := Except.ok.inj hencryption
      cases hcase : given node isDev route request (flag t) <;> rw [hcase] at hgiven
      · exact Prog.ends_throw.1 hgiven
      · exact Prog.ends_pure.1 hgiven
  · rintro ⟨rfl, rfl⟩
    refine .inr ⟨flag rows', rows', ends_getEncryption.2 ⟨rfl, rfl⟩, ?_⟩
    cases given node isDev route request (flag rows')
    · exact Prog.ends_throw.2 ⟨rfl, rfl⟩
    · exact Prog.ends_pure.2 ⟨rfl, rfl⟩

/-- The text that answers a handler's outcome. -/
def textOf : Except Thrown Value → Units
  | .ok v => v.json.stringify
  | .error error =>
    Text.Json.stringify (.obj [(ofString "status", .bool false), (ofString "message", .str error.message)])

/-- A route whose handler gives a value or throws. -/
def defined (httpCode : Nat) (handler : Option Text.Json → Except Thrown Value) : Route :=
  ⟨false, httpCode, fun body => (handler body).map some⟩

/-- The reply to a request that delivers nothing. -/
def failure : Option Text.Json :=
  some (.obj [(ofString "status", .bool false),
    (ofString "message", .str (ofString "Failed to decrypt request parameters"))])

theorem given_of_delivers {httpCode : Nat} {handler : Option Text.Json → Except Thrown Value} {key : Units}
    {body : Option Text.Json} {encryption : Encryption} (henabled : encryption.enabled = true)
    (h : Delivers node request key body) :
    given node false (defined httpCode handler) request (some encryption) =
      .ok (.settled [body] (.ok (some (.str (aesEncrypt node (textOf (handler body)) key))))) := by
  unfold given
  dsimp only
  rw [henabled, decryptRequest_of_delivers h]
  show Except.ok (Observable.settled [body] (encryptData node key (Observable.recover _
    (((handler body).map some).map fun v => v.map Value.json)))) = _
  cases handler body with
  | ok v => rfl
  | error e => rfl

theorem given_of_not_delivers {encryption : Encryption} (henabled : encryption.enabled = true)
    (hexcluded : route.excluded = false) (h : ∀ key body, ¬ Delivers node request key body) :
    given node false route request (some encryption) = .ok (.of failure) := by
  unfold given
  dsimp only
  rw [henabled, hexcluded]
  cases hrequest : decryptRequest node request with
  | error e => rfl
  | ok r => exact absurd (delivers_of_decryptRequest hrequest) (h r.1 r.2)

/-- **What the interceptor does to a request.** With encryption enabled and
outside development, for every request and every handler that gives a value or
throws: the interceptor returns an observable, leaves the table as it is and
never throws. If the request delivers a key and a body, the handler is called
with that body, once, and the one value emitted is what its outcome says,
encrypted under that key. If it delivers none, the handler is not called and
the one value is the plain failure. -/
theorem interceptor_law (hnode : node.Lawful) (httpCode : Nat)
    (handler : Option Text.Json → Except Thrown Value) (request : Incoming) (rows : List Encryption)
    (hrows : Enabled rows) :
    ∃ handled : Handled,
      (∀ r rows', (intercept node false (defined httpCode handler) request).Ends rows r rows' ↔
        r = .ok handled ∧ rows' = rows) ∧
      handled.calls.length ≤ 1 ∧ handled.error = none ∧
      (∀ key body, Delivers node request key body →
        handled.calls = [body] ∧
          ∃ text, handled.values = [some (.str text)] ∧ aesDecrypt node text key = .ok (textOf (handler body))) ∧
      ((∀ key body, ¬ Delivers node request key body) → handled.calls = [] ∧ handled.values = [failure]) := by
  obtain ⟨encryption, hflag, henabled⟩ := hrows
  have hends : ∀ {handled : Handled},
      given node false (defined httpCode handler) request (some encryption) = .ok handled → ∀ r rows',
        (intercept node false (defined httpCode handler) request).Ends rows r rows' ↔
          r = .ok handled ∧ rows' = rows := fun hgiven r rows' => by
    rw [ends_intercept, hflag, hgiven]
  by_cases hdelivers : ∃ key body, Delivers node request key body
  · obtain ⟨key, body, hdelivers⟩ := hdelivers
    refine ⟨_, hends (given_of_delivers henabled hdelivers), Nat.le_refl 1, rfl, fun key' body' h => ?_,
      fun hnone => absurd hdelivers (hnone key body)⟩
    obtain ⟨rfl, rfl⟩ := Prod.mk.inj (Except.ok.inj
      ((decryptRequest_of_delivers h).symm.trans (decryptRequest_of_delivers hdelivers)))
    refine ⟨rfl, _, rfl, ?_⟩
    cases handler body' with
    | ok v => exact aesDecrypt_stringify hnode rfl v.json
    | error error => exact aesDecrypt_stringify hnode rfl _
  · have hnone : ∀ key body, ¬ Delivers node request key body :=
      fun key body h => hdelivers ⟨key, body, h⟩
    exact ⟨_, hends (given_of_not_delivers henabled rfl hnone), Nat.zero_le 1, rfl,
      fun key body h => absurd h (hnone key body), fun _ => ⟨rfl, rfl⟩⟩

def acknowledge (_ : Option Text.Json) : Except Thrown Value := .ok ⟨.bool true, .bool true⟩

theorem interceptor_law_sample :
    ∃ rsaKey handled,
      rsaEncrypt Node.padded 0 (ofString "key") = .ok rsaKey ∧
      (intercept Node.padded false (defined 200 acknowledge)
        ⟨some (.obj []), some (ofString "meta:" ++ rsaKey)⟩).Ends [⟨"1", true⟩] (.ok handled) [⟨"1", true⟩] ∧
      handled.calls = [some (.obj [])] ∧
      ∃ text, handled.values = [some (.str text)] ∧
        aesDecrypt Node.padded text (ofString "key") = .ok (ofString "true") := by
  obtain ⟨rsaKey, hencrypt, hlength, hdecrypt⟩ :=
    @rsaDecrypt_rsaEncrypt _ Node.lawful_padded 0 (ofString "key") (by decide +kernel)
  obtain ⟨handled, hends, -, -, hdelivered, -⟩ := interceptor_law Node.lawful_padded 200 acknowledge
    ⟨some (.obj []), some (ofString "meta:" ++ rsaKey)⟩ [⟨"1", true⟩] ⟨⟨"1", true⟩, rfl, rfl⟩
  have hkey : rsaDecrypt Node.padded ((ofString "meta:" ++ rsaKey).drop 5) = .ok (ofString "key") := by
    rw [List.drop_left' (show (ofString "meta:").length = 5 by decide +kernel), hdecrypt,
      Utf8.decode_encode_of_wellFormed (by decide +kernel)]
  have hne : ofString "meta:" ++ rsaKey ≠ [] := List.append_ne_nil_of_left_ne_nil (by decide +kernel) rsaKey
  obtain ⟨hcalls, text, hvalues, htext⟩ :=
    hdelivered (ofString "key") (some (.obj [])) (.metadata rfl rfl hne hkey)
  exact ⟨rsaKey, handled, hencrypt, (hends _ _).2 ⟨rfl, rfl⟩, hcalls, text, hvalues, htext⟩

theorem copy_overflow : ∃ x, Number.read "1e400".toList = some x ∧ Number.copy x = none := by
  obtain ⟨x, hx⟩ := Option.isSome_iff_exists.1
    (show (Number.read "1e400".toList).isSome = true by decide +kernel)
  have hcopy : (Number.read "1e400".toList).bind Number.copy = none := by decide +kernel
  rw [hx] at hcopy
  exact ⟨x, hx, hcopy⟩

/-- The text of a number that no double is large enough for is JSON, and is not
null. Its copy is, and the handler is not called. -/
theorem overflow_not_delivered :
    ∃ (payload : Units) (data : Text.Json) (handled : Handled),
      payload ≠ [] ∧
      rsaDecrypt Node.padded (payload.take rsaEncryptedKeyLength) = .ok (ofString "key") ∧
      aesDecrypt Node.padded (payload.drop rsaEncryptedKeyLength) (ofString "key") = .ok (ofString "1e400") ∧
      Text.Json.parse (ofString "1e400") = some data ∧ data ≠ .null ∧
      (intercept Node.padded false (defined 200 acknowledge) ⟨some (.str payload), none⟩).Ends [⟨"1", true⟩]
        (.ok handled) [⟨"1", true⟩] ∧
      handled.calls = [] := by
  obtain ⟨rsaKey, hencrypt, hlength, hdecrypt⟩ :=
    @rsaDecrypt_rsaEncrypt _ Node.lawful_padded 0 (ofString "key") (by decide +kernel)
  rw [Utf8.decode_encode_of_wellFormed (by decide +kernel)] at hdecrypt
  obtain ⟨x, hread, hcopy⟩ := copy_overflow
  have hdata : Text.Json.parse (ofString "1e400") = some (.number x) :=
    Text.Json.parse_word (by decide +kernel) (Text.Json.ofWord_literal hread)
  have hcopied : (Text.Json.number x).copy = .null := by
    show ((Number.copy x).map Text.Json.number).getD .null = .null
    rw [hcopy]
    rfl
  have htext : aesDecrypt Node.padded (aesEncrypt Node.padded (ofString "1e400") (ofString "key")) (ofString "key") =
      .ok (ofString "1e400") := by
    rw [aesDecrypt_aesEncrypt Node.lawful_padded rfl, Utf8.decode_encode_of_wellFormed (by decide +kernel)]
  have htake : (rsaKey ++ aesEncrypt Node.padded (ofString "1e400") (ofString "key")).take
      rsaEncryptedKeyLength = rsaKey := List.take_left' hlength
  have hdrop : (rsaKey ++ aesEncrypt Node.padded (ofString "1e400") (ofString "key")).drop
      rsaEncryptedKeyLength = aesEncrypt Node.padded (ofString "1e400") (ofString "key") := List.drop_left' hlength
  have hnone : ∀ key body, ¬ Delivers Node.padded
      ⟨some (.str (rsaKey ++ aesEncrypt Node.padded (ofString "1e400") (ofString "key"))), none⟩ key body := by
    intro key body h
    cases h with
    | metadata hbody hmetadata => cases hmetadata
    | envelope hbody hne hkey' htext' hdata' hnull =>
      obtain rfl := Text.Json.str.inj (Option.some.inj hbody)
      rw [htake, hdecrypt] at hkey'
      obtain rfl := Except.ok.inj hkey'
      rw [hdrop, htext] at htext'
      obtain rfl := Except.ok.inj htext'
      rw [hdata] at hdata'
      obtain rfl := Option.some.inj hdata'
      exact hnull hcopied
  refine ⟨rsaKey ++ aesEncrypt Node.padded (ofString "1e400") (ofString "key"), .number x, .of failure, ?_, ?_, ?_,
    hdata, nofun, ?_, rfl⟩
  · intro hnil
    have hlength' := congrArg List.length htake
    rw [hnil, hlength] at hlength'
    cases hlength'
  · rw [htake]
    exact hdecrypt
  · rw [hdrop]
    exact htext
  · exact ends_intercept.2 ⟨(@given_of_not_delivers _ _ _ ⟨"1", true⟩ rfl rfl hnone).symm, rfl⟩

end EncryptionInterceptor

end Damaru
