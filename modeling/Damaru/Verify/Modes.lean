import Damaru.Verify.Interception

/-!
# Replies in the two modes

A request reads the flag twice: the outer interceptor on the way in, and the
inner one behind it. What it is answered is a function of the two. With
encryption disabled the outer interceptor puts the handler's value into an
envelope; with encryption enabled no one does.
-/

namespace Damaru

open Async Text EncryptionService EncryptionInterceptor ResponseInterceptor

variable {node : Node} {isDev : Bool} {route : Route} {request : Incoming}

/-! ## The reply to a request -/

/-- What the inner interceptor emits, or fails with. -/
def emitted (node : Node) (isDev : Bool) (route : Route) (request : Incoming) :
    Option Encryption → Except Thrown (Option Text.Json)
  | none => .error (node.error "Cannot read properties of null (reading 'enabled')")
  | some encryption =>
    if encryption.enabled && !route.excluded then
      match decryptRequest node request with
      | .ok (aesKey, body) =>
        encryptData node aesKey (Observable.recover (fun error => some (exception isDev error.message error.stack))
          ((route.handler body).map fun v => v.map Value.json))
      | .error error =>
        .ok (some (exception isDev (ofString "Failed to decrypt request parameters") error.stack))
    else (route.handler request.body).map fun v => v.map Value.json

/-- What is sent where the outer interceptor has found the one row, and the
inner one the other. -/
def replyTo (node : Node) (isDev : Bool) (route : Route) (request : Incoming) (outer inner : Option Encryption) :
    Reply :=
  match (emitted node isDev route request inner).bind (transform node outer) with
  | .ok body => route.reply body
  | .error error => ExceptionHandler.catch error

theorem replyTo_of_ok {outer inner : Option Encryption} {data body : Option Text.Json}
    (hdata : emitted node isDev route request inner = .ok data) (hbody : transform node outer data = .ok body) :
    replyTo node isDev route request outer inner = route.reply body := by
  unfold replyTo
  rw [hdata]
  show (match transform node outer data with
    | .ok body => route.reply body | .error error => ExceptionHandler.catch error) = _
  rw [hbody]

theorem replyTo_of_transform_error {outer inner : Option Encryption} {data : Option Text.Json} {error : Thrown}
    (hdata : emitted node isDev route request inner = .ok data) (herror : transform node outer data = .error error) :
    replyTo node isDev route request outer inner = ExceptionHandler.catch error := by
  unfold replyTo
  rw [hdata]
  show (match transform node outer data with
    | .ok body => route.reply body | .error error => ExceptionHandler.catch error) = _
  rw [herror]

theorem replyTo_of_error {inner : Option Encryption} {error : Thrown}
    (h : emitted node isDev route request inner = .error error) (outer : Option Encryption) :
    replyTo node isDev route request outer inner = ExceptionHandler.catch error := by
  unfold replyTo
  rw [h]
  rfl

/-- The observable that the outer interceptor gets settles. -/
theorem settles (inner : Option Encryption) :
    ∃ calls, (match given node isDev route request inner with
      | .ok handled => handled
      | .error error => .failing error) = Observable.settled calls (emitted node isDev route request inner) := by
  cases inner with
  | none => exact ⟨[], rfl⟩
  | some encryption =>
    unfold given emitted
    dsimp only
    split
    · cases decryptRequest node request with
      | error e => exact ⟨[], rfl⟩
      | ok r => exact ⟨[r.2], rfl⟩
    · exact ⟨[request.body], Observable.call_eq _ _⟩

theorem pipe_reply (outer inner : Option Encryption) :
    ((do
      let handled ← (Prog.ofExcept (given node isDev route request inner)).tryCatch fun error =>
        return .failing error
      match (handled.map (transform node outer)).lastValue (node.error "no elements in sequence") with
      | .ok body => return route.reply body
      | .error error => throw error : Flagged Reply).tryCatch fun error =>
        return ExceptionHandler.catch error) =
      return replyTo node isDev route request outer inner := by
  obtain ⟨calls, hsettles⟩ := @settles node isDev route request inner
  have hhandled : (Prog.ofExcept (given node isDev route request inner)).tryCatch
      (fun error => return .failing error) =
        (return Observable.settled calls (emitted node isDev route request inner) : Flagged Handled) := by
    rw [← hsettles]
    cases given node isDev route request inner with
    | ok handled => rfl
    | error e => rfl
  rw [hhandled, pure_bind, Observable.map_settled, Observable.lastValue_settled]
  unfold replyTo
  cases (emitted node isDev route request inner).bind (transform node outer) with
  | ok body => rfl
  | error e => rfl

/-- A request reads the flag, reads it again, and is answered. -/
theorem handleRequest_eq :
    handleRequest node isDev route request = (do
      let outer ← getEncryption
      let inner ← getEncryption
      return replyTo node isDev route request outer inner) := by
  have hnext : tryCatch (EncryptionInterceptor.intercept node isDev route request)
      (fun error => return .failing error) = (do
        let inner ← getEncryption
        (Prog.ofExcept (given node isDev route request inner)).tryCatch fun error => return .failing error) := by
    rw [intercept_eq]
    rfl
  unfold handleRequest ResponseInterceptor.intercept
  dsimp only
  rw [hnext]
  simp only [bind_assoc, pure_bind]
  exact congrArg (getEncryption >>= ·) (funext fun outer =>
    congrArg (getEncryption >>= ·) (funext fun inner => pipe_reply outer inner))

theorem ends_handleRequest {rows rows' : List Encryption} {r : Except Thrown Reply} :
    (handleRequest node isDev route request).Ends rows r rows' ↔
      r = .ok (replyTo node isDev route request (flag rows) (flag rows)) ∧ rows' = rows := by
  rw [handleRequest_eq]
  constructor
  · intro h
    rcases Prog.ends_bind.1 h with ⟨e, -, hflag⟩ | ⟨outer, t, hflag, h⟩
    · cases (ends_getEncryption.1 hflag).1
    · obtain ⟨houter, rfl⟩ := ends_getEncryption.1 hflag
      obtain rfl := Except.ok.inj houter
      rcases Prog.ends_bind.1 h with ⟨e, -, hflag'⟩ | ⟨inner, t', hflag', h⟩
      · cases (ends_getEncryption.1 hflag').1
      · obtain ⟨hinner, rfl⟩ := ends_getEncryption.1 hflag'
        obtain rfl := Except.ok.inj hinner
        exact Prog.ends_pure.1 h
  · rintro ⟨rfl, rfl⟩
    exact Prog.ends_bind.2 (.inr ⟨_, rows', ends_getEncryption.2 ⟨rfl, rfl⟩,
      Prog.ends_bind.2 (.inr ⟨_, rows', ends_getEncryption.2 ⟨rfl, rfl⟩, Prog.ends_pure.2 ⟨rfl, rfl⟩⟩)⟩)

/-! ## Envelopes of values -/

/-- The envelope of a value that is not null. -/
def enveloped (v : Text.Json) : Text.Json :=
  .obj ([(ofString "status", .bool true), (ofString "message", messageOf v)] ++
    (v.get? (ofString "data")).toList.map fun data => (ofString "data", data))

theorem envelope_some {v : Text.Json} (h : v ≠ .null) : envelope node (some v) = .ok (enveloped v) := by
  cases v with
  | null => exact absurd rfl h
  | _ => rfl

theorem get?_enveloped (v : Text.Json) (k : Units) :
    (enveloped v).get? k =
      if k = ofString "status" then some (.bool true)
      else if k = ofString "message" then some (messageOf v)
      else if k = ofString "data" then v.get? (ofString "data")
      else none := by
  show List.lookup k ((ofString "status", .bool true) :: (ofString "message", messageOf v) ::
    (v.get? (ofString "data")).toList.map fun data => (ofString "data", data)) = _
  rw [List.lookup_cons, List.lookup_cons]
  by_cases hstatus : k = ofString "status"
  · rw [if_pos hstatus, beq_iff_eq.2 hstatus]
  · rw [if_neg hstatus, beq_eq_false_iff_ne.2 hstatus]
    by_cases hmessage : k = ofString "message"
    · rw [if_pos hmessage, beq_iff_eq.2 hmessage]
    · rw [if_neg hmessage, beq_eq_false_iff_ne.2 hmessage]
      cases v.get? (ofString "data") with
      | none => exact (ite_self none).symm
      | some data =>
        show List.lookup k [(_, data)] = _
        rw [List.lookup_cons]
        by_cases hdata : k = ofString "data"
        · rw [if_pos hdata, beq_iff_eq.2 hdata]
        · rw [if_neg hdata, beq_eq_false_iff_ne.2 hdata]
          rfl

theorem wellFormed_get? {v w : Text.Json} {k : Units} (h : v.WellFormed) (hget : v.get? k = some w) :
    w.WellFormed := by
  cases h with
  | obj _ h => exact h (k, w) (Text.Json.mem_of_get? hget)
  | _ => cases hget

theorem wellFormed_messageOf {v : Text.Json} (h : v.WellFormed) : (messageOf v).WellFormed := by
  unfold messageOf
  split
  · exact .str _
  · exact .str _
  · rename_i message hmessage
    exact wellFormed_get? h hmessage

/-- The order of the members of a reply. -/
theorem reply_names : [ofString "status", ofString "message", ofString "stack"].Pairwise
    (fun k k' => Text.Json.precedes k k' = true) ∧
    [ofString "status", ofString "message", ofString "data"].Pairwise
      fun k k' => Text.Json.precedes k k' = true := by decide +kernel

theorem wellFormed_enveloped {v : Text.Json} (h : v.WellFormed) : (enveloped v).WellFormed := by
  have hordered : Text.Json.Ordered ([(ofString "status", .bool true), (ofString "message", messageOf v)] ++
      (v.get? (ofString "data")).toList.map fun data => (ofString "data", data)) := by
    refine Text.Json.ordered_of_names (List.Pairwise.sublist ?_ reply_names.2)
    cases v.get? (ofString "data") with
    | none => exact ((List.nil_sublist _).cons_cons _).cons_cons _
    | some data => exact List.Sublist.refl _
  refine .obj hordered (List.forall_mem_append.2 ⟨?_, ?_⟩)
  · exact List.forall_mem_cons.2 ⟨.bool true, List.forall_mem_singleton.2 (wellFormed_messageOf h)⟩
  · intro m hm
    obtain ⟨data, hdata, rfl⟩ := List.mem_map.1 hm
    exact wellFormed_get? h (Option.mem_toList.1 hdata)

/-- The reply to an error. -/
def thrown (error : Thrown) : Text.Json :=
  .obj [(ofString "status", .bool false), (ofString "message", .str error.message),
    (ofString "stack", .str error.stack)]

theorem wellFormed_thrown (error : Thrown) : (thrown error).WellFormed :=
  .obj (Text.Json.ordered_of_names reply_names.1)
    (List.forall_mem_cons.2 ⟨.bool _, List.forall_mem_cons.2 ⟨.str _, List.forall_mem_singleton.2 (.str _)⟩⟩)

theorem wellFormed_exception (message stack : Units) : (exception isDev message stack).WellFormed := by
  cases isDev with
  | true => exact wellFormed_thrown ⟨message, stack⟩
  | false =>
    refine .obj (Text.Json.ordered_of_names (List.Pairwise.sublist ?_ reply_names.1)) ?_
    · exact ((List.nil_sublist _).cons_cons _).cons_cons _
    · exact List.forall_mem_cons.2 ⟨.bool _, List.forall_mem_singleton.2 (.str _)⟩

/-! ## What a client gets -/

/-- A client that decrypts the reply gets the value. -/
def Decrypts (node : Node) (aesKey : Units) (reply : Reply) (json : Text.Json) : Prop :=
  ∃ text decrypted, reply.sent = .text text ∧ aesDecrypt node text aesKey = .ok decrypted ∧
    Text.Json.parse decrypted = some json

/-- The reply is sent as the value. -/
def Says (reply : Reply) (json : Text.Json) : Prop :=
  ∃ text, reply.sent = .json text ∧ Text.Json.parse text = some json

/-- The two have the same members, the stack apart. -/
def SameButStack (json json' : Text.Json) : Prop := ∀ k, k ≠ ofString "stack" → json.get? k = json'.get? k

/-- The outcome of a handler that is an error, or has a status and a message of
its own and nothing that an envelope has no place for. -/
inductive Enveloped : Except Thrown (Option Value) → Prop where
  | thrown (error : Thrown) : Enveloped (.error error)
  | value {v : Value} {message : Text.Json} (status : v.json.get? (ofString "status") = some (.bool true))
    (hmessage : v.json.get? (ofString "message") = some message) (hne : message ≠ .null)
    (members : ∀ k, v.json.get? k ≠ none →
      k ∈ [ofString "status", ofString "message", ofString "data", ofString "stack"]) : Enveloped (.ok (some v))

/-- The value is an object with no member that its envelope loses or replaces. -/
structure Enclosed (v : Text.Json) : Prop where
  object : ∃ members, v = .obj members
  members : ∀ k w, v.get? k = some w →
    (k = ofString "status" ∧ w = .bool true) ∨ (k = ofString "message" ∧ w ≠ .null) ∨ k = ofString "data"

/-- The value is in the reply: it is what is sent, or the data of what is sent,
or each of its members is one of what is sent. -/
def Carries (route : Route) (reply : Reply) (v : Text.Json) : Prop :=
  reply.sent = (route.reply (some v.copy)).sent ∨
    ∃ json, Says reply json ∧
      (json.get? (ofString "data") = some v.copy ∨
        (∃ members, v = .obj members) ∧ ∀ k w, v.copy.get? k = some w → json.get? k = some w)

section

variable {outer inner : Encryption} {key : Units} {body : Option Text.Json}

theorem says_stringify (httpCode : Nat) (v : Value) {json : Text.Json} :
    Says ⟨httpCode, .json v.json.stringify⟩ json ↔ json = v.json.copy := by
  constructor
  · rintro ⟨text, hsent, hparse⟩
    obtain rfl := Sent.json.inj hsent
    exact Option.some.inj (hparse.symm.trans (Text.Json.parse_stringify v.wellFormed))
  · rintro rfl
    exact ⟨_, rfl, Text.Json.parse_stringify v.wellFormed⟩

theorem copy_thrown (error : Thrown) : (thrown error).copy = thrown error := Text.Json.copy_obj _

theorem says_catch (error : Thrown) {json : Text.Json} :
    Says (ExceptionHandler.catch error) json ↔ json = thrown error := by
  rw [← copy_thrown]
  exact says_stringify 200 ⟨thrown error, wellFormed_thrown error⟩

theorem decrypts_stringify (hnode : node.Lawful) (httpCode : Nat) (v : Value) {json : Text.Json} :
    Decrypts node key ⟨httpCode, .text (aesEncrypt node v.json.stringify key)⟩ json ↔ json = v.json.copy := by
  have htext : aesDecrypt node (aesEncrypt node v.json.stringify key) key = .ok v.json.stringify :=
    aesDecrypt_stringify hnode rfl v.json
  constructor
  · rintro ⟨text, decrypted, hsent, hdecrypt, hparse⟩
    obtain rfl := Sent.text.inj hsent
    obtain rfl := Except.ok.inj (hdecrypt.symm.trans htext)
    exact Option.some.inj (hparse.symm.trans (Text.Json.parse_stringify v.wellFormed))
  · rintro rfl
    exact ⟨_, _, rfl, htext, Text.Json.parse_stringify v.wellFormed⟩

theorem transform_enabled (houter : outer.enabled = true) (v : Value) :
    transform node (some outer) (some v.json) = .ok (some v.json.copy) := by
  show some <$> (if outer.enabled then copyOf node (some v.json) else envelope node (some v.json)) = _
  rw [if_pos houter]
  show some <$> node.parse v.json.stringify = _
  rw [Node.parse_stringify]
  rfl

theorem transform_disabled (houter : outer.enabled = false) (data : Option Text.Json) :
    transform node (some outer) data = some <$> envelope node data := by
  show some <$> (if outer.enabled then copyOf node data else envelope node data) = _
  rw [houter]
  rfl

theorem emitted_of_delivers (hinner : inner.enabled = true) (hexcluded : route.excluded = false)
    (h : Delivers node request key body) :
    emitted node isDev route request (some inner) =
      encryptData node key (Observable.recover (fun error => some (exception isDev error.message error.stack))
        ((route.handler body).map fun v => v.map Value.json)) := by
  unfold emitted
  dsimp only
  rw [hinner, hexcluded, decryptRequest_of_delivers h]
  rfl

/-- With encryption disabled, and for an excluded handler, the handler's value
is passed on. -/
theorem emitted_plain (hinner : inner.enabled = false ∨ route.excluded = true) :
    emitted node isDev route request (some inner) = (route.handler request.body).map fun v => v.map Value.json := by
  have hplain : (inner.enabled && !route.excluded) = false := by
    rcases hinner with h | h
    · rw [h, Bool.false_and]
    · rw [h, Bool.not_true, Bool.and_false]
  unfold emitted
  dsimp only
  rw [hplain]
  rfl

/-- With encryption enabled, a handler's value or error is encrypted as it is. -/
theorem replyTo_encrypted (houter : outer.enabled = true) (hinner : inner.enabled = true)
    (hexcluded : route.excluded = false) (h : Delivers node request key body) {v : Text.Json}
    (hv : Observable.recover (fun error => some (exception isDev error.message error.stack))
      ((route.handler body).map fun v => v.map Value.json) = some v) :
    replyTo node isDev route request (some outer) (some inner) =
      ⟨route.httpCode, .text (aesEncrypt node v.stringify key)⟩ := by
  have hemitted : emitted node isDev route request (some inner) =
      .ok (some (.str (aesEncrypt node v.stringify key))) := by
    rw [emitted_of_delivers hinner hexcluded h, hv]
    rfl
  rw [replyTo_of_ok hemitted (transform_enabled houter ⟨.str _, .str _⟩)]
  rfl

/-- With encryption enabled, there is nothing to encrypt for a handler that
returns nothing. -/
theorem emitted_undefined (hinner : inner.enabled = true) (hexcluded : route.excluded = false)
    (h : Delivers node request key body) (hv : route.handler body = .ok none) :
    ∃ error, emitted node isDev route request (some inner) = .error error := by
  rw [emitted_of_delivers hinner hexcluded h, hv]
  exact ⟨_, rfl⟩

/-- Without encryption, a handler's value is put into an envelope. -/
theorem replyTo_enveloped (houter : outer.enabled = false) (hinner : inner.enabled = false ∨ route.excluded = true)
    {v : Value} (hv : route.handler request.body = .ok (some v)) (hnull : v.json ≠ .null) :
    replyTo node isDev route request (some outer) (some inner) =
      ⟨route.httpCode, .json (enveloped v.json).stringify⟩ := by
  have hemitted : emitted node isDev route request (some inner) = .ok (some v.json) := by
    rw [emitted_plain hinner, hv]
    rfl
  have htransform : transform node (some outer) (some v.json) = .ok (some (enveloped v.json)) := by
    rw [transform_disabled houter, envelope_some hnull]
    rfl
  rw [replyTo_of_ok hemitted htransform]
  rfl

/-- Without encryption, no value and a null have no envelope. -/
theorem replyTo_not_enveloped (houter : outer.enabled = false)
    (hinner : inner.enabled = false ∨ route.excluded = true) {data : Option Value}
    (hv : route.handler request.body = .ok data) (hnull : ∀ v, data = some v → v.json = .null) :
    ∃ error, replyTo node isDev route request (some outer) (some inner) = ExceptionHandler.catch error := by
  have hemitted : emitted node isDev route request (some inner) = .ok (data.map Value.json) := by
    rw [emitted_plain hinner, hv]
    rfl
  have hfails : ∃ error, transform node (some outer) (data.map Value.json) = .error error := by
    rw [transform_disabled houter]
    cases data with
    | none => exact ⟨_, rfl⟩
    | some v =>
      show ∃ error, some <$> envelope node (some v.json) = _
      rw [hnull v rfl]
      exact ⟨_, rfl⟩
  obtain ⟨error, hfails⟩ := hfails
  exact ⟨error, replyTo_of_transform_error hemitted hfails⟩

/-! ## When the two modes agree -/

theorem sameButStack_exception (error : Thrown) :
    SameButStack (exception isDev error.message error.stack).copy (thrown error) := by
  cases isDev with
  | true =>
    intro k hk
    exact congrArg (Text.Json.get? · k) (copy_thrown error)
  | false =>
    intro k hk
    show List.lookup k [(_, _), (_, _)] = List.lookup k [(_, _), (_, _), (_, _)]
    rw [List.lookup_cons, List.lookup_cons, List.lookup_cons, List.lookup_cons, List.lookup_cons,
      beq_eq_false_iff_ne.2 hk]
    rfl

theorem messageOf_eq {v message : Text.Json} (h : v.get? (ofString "message") = some message)
    (hne : message ≠ .null) : messageOf v = message := by
  unfold messageOf
  rw [h]
  cases message with
  | null => exact absurd rfl hne
  | _ => rfl

theorem names_ne : ofString "status" ≠ ofString "stack" ∧ ofString "message" ≠ ofString "stack" ∧
    ofString "message" ≠ ofString "status" ∧ ofString "data" ≠ ofString "status" ∧
    ofString "data" ≠ ofString "message" := by decide +kernel

/-- An envelope changes nothing of a value that has all its members. -/
theorem get?_enveloped_eq {v : Value} (h : Enveloped (.ok (some v))) {k : Units} (hk : k ≠ ofString "stack") :
    (enveloped v.json).get? k = v.json.get? k := by
  cases h with
  | value hstatus hmessage hne members =>
    rw [get?_enveloped]
    by_cases hks : k = ofString "status"
    · rw [if_pos hks, hks, hstatus]
    rw [if_neg hks]
    by_cases hkm : k = ofString "message"
    · rw [if_pos hkm, hkm, messageOf_eq hmessage hne, hmessage]
    rw [if_neg hkm]
    by_cases hkd : k = ofString "data"
    · rw [if_pos hkd, hkd]
    rw [if_neg hkd]
    by_contra hsome
    have hmem := members k (Ne.symm hsome)
    simp only [List.mem_cons, List.not_mem_nil, or_false] at hmem
    rcases hmem with h | h | h | h
    · exact hks h
    · exact hkm h
    · exact hkd h
    · exact hk h

/-- A copy and an envelope agree just if the envelope changes nothing. -/
theorem sameButStack_enveloped {v : Value} :
    SameButStack v.json.copy (enveloped v.json).copy ↔ Enveloped (.ok (some v)) := by
  obtain ⟨hstatus, hmessage, hmessage', -, -⟩ := names_ne
  constructor
  · intro h
    have hget : ∀ k, k ≠ ofString "stack" →
        (v.json.get? k).map Text.Json.copy = ((enveloped v.json).get? k).map Text.Json.copy := fun k hk => by
      rw [← Text.Json.get?_copy, ← Text.Json.get?_copy]
      exact h k hk
    have hstatus := hget _ hstatus
    rw [get?_enveloped, if_pos rfl] at hstatus
    obtain ⟨status, hgetStatus, hcopy⟩ := Option.map_eq_some_iff.1 hstatus
    obtain rfl := Text.Json.copy_eq_bool hcopy
    have hmessage := hget _ hmessage
    rw [get?_enveloped, if_neg hmessage', if_pos rfl] at hmessage
    obtain ⟨message, hgetMessage, hcopyMessage⟩ := Option.map_eq_some_iff.1 hmessage
    refine .value hgetStatus hgetMessage ?_ fun k hk => ?_
    · rintro rfl
      unfold messageOf at hcopyMessage
      rw [hgetMessage] at hcopyMessage
      cases hcopyMessage
    · by_contra hmem
      simp only [List.mem_cons, List.not_mem_nil, or_false, not_or] at hmem
      have hnone := hget k hmem.2.2.2
      rw [get?_enveloped, if_neg hmem.1, if_neg hmem.2.1, if_neg hmem.2.2.1] at hnone
      exact hk (Option.map_eq_none_iff.1 hnone)
  · intro h k hk
    rw [Text.Json.get?_copy, Text.Json.get?_copy, get?_enveloped_eq h hk]

/-- What a client gets in the two modes agrees just if the outcome needs no
envelope. -/
theorem same_json_iff (hnode : node.Lawful) {plain : Incoming} {on off : Encryption} (hon : on.enabled = true)
    (hoff : off.enabled = false) (hexcluded : route.excluded = false) (h : Delivers node request key body)
    (hplain : plain.body = body) :
    (∃ json json', Decrypts node key (replyTo node isDev route request (some on) (some on)) json ∧
      Says (replyTo node isDev route plain (some off) (some off)) json' ∧ SameButStack json json') ↔
    Enveloped (route.handler body) := by
  cases hv : route.handler body with
  | error error =>
    have hencrypted := @replyTo_encrypted node isDev route request on on key body hon hon hexcluded h
      (exception isDev error.message error.stack) (by rw [hv]; rfl)
    have hsaid : replyTo node isDev route plain (some off) (some off) = ExceptionHandler.catch error := by
      refine replyTo_of_error ?_ (some off)
      rw [emitted_plain (.inl hoff), hplain, hv]
      rfl
    rw [hencrypted, hsaid]
    refine iff_of_true ⟨(exception isDev error.message error.stack).copy, thrown error, ?_,
      (says_catch error).2 rfl, sameButStack_exception error⟩ (.thrown error)
    exact (decrypts_stringify hnode _ ⟨_, wellFormed_exception _ _⟩).2 rfl
  | ok data =>
    cases data with
    | none =>
      obtain ⟨error, hemitted⟩ := @emitted_undefined node isDev route request on key body hon hexcluded h hv
      rw [replyTo_of_error hemitted]
      refine iff_of_false ?_ nofun
      rintro ⟨json, json', ⟨text, decrypted, hsent, -⟩, -⟩
      cases hsent
    | some v =>
      have hencrypted := @replyTo_encrypted node isDev route request on on key body hon hon hexcluded h
        v.json (by rw [hv]; rfl)
      rw [hencrypted]
      by_cases hnull : v.json = .null
      · obtain ⟨error, hsaid⟩ := @replyTo_not_enveloped node isDev route plain off off hoff (.inl hoff)
          (some v) (hplain ▸ hv) fun w hw => Option.some.inj hw ▸ hnull
        rw [hsaid]
        refine iff_of_false ?_ ?_
        · rintro ⟨json, json', hdecrypts, hread, hsame⟩
          rw [(decrypts_stringify hnode _ v).1 hdecrypts, (says_catch error).1 hread, hnull] at hsame
          cases hsame (ofString "status") names_ne.1
        · intro henveloped
          cases henveloped with
          | value hstatus =>
            rw [hnull] at hstatus
            cases hstatus
      · have hsaid := @replyTo_enveloped node isDev route plain off off hoff (.inl hoff) v (hplain ▸ hv) hnull
        rw [hsaid, ← sameButStack_enveloped]
        constructor
        · rintro ⟨json, json', hdecrypts, hread, hsame⟩
          rw [(decrypts_stringify hnode _ v).1 hdecrypts,
            (says_stringify _ ⟨_, wellFormed_enveloped v.wellFormed⟩).1 hread] at hsame
          exact hsame
        · intro hsame
          exact ⟨_, _, (decrypts_stringify hnode _ v).2 rfl,
            (says_stringify _ ⟨_, wellFormed_enveloped v.wellFormed⟩).2 rfl, hsame⟩

/-- With encryption enabled, an excluded handler's value is sent as it is. -/
theorem replyTo_copied (houter : outer.enabled = true) (hinner : inner.enabled = false ∨ route.excluded = true)
    {v : Value} (hv : route.handler request.body = .ok (some v)) :
    replyTo node isDev route request (some outer) (some inner) = route.reply (some v.json.copy) := by
  have hemitted : emitted node isDev route request (some inner) = .ok (some v.json) := by
    rw [emitted_plain hinner, hv]
    rfl
  exact replyTo_of_ok hemitted (transform_enabled houter v)

/-- What Nest sends as JSON is an array or an object. -/
theorem sent_json {w : Text.Json} {text : Units} (h : (route.reply (some w)).sent = .json text) :
    w.stringify = text := by
  cases w with
  | arr | obj => exact Sent.json.inj h
  | _ => cases h

/-- A value whose members are all in its envelope is enclosed. -/
theorem enclosed_of_members {v : Text.Json} (hobject : ∃ members, v = .obj members)
    (h : ∀ k w, v.copy.get? k = some w → (enveloped v).copy.get? k = some w) : Enclosed v := by
  refine ⟨hobject, fun k w hw => ?_⟩
  have hget : ((enveloped v).get? k).map Text.Json.copy = some w.copy := by
    rw [← Text.Json.get?_copy]
    refine h k w.copy ?_
    rw [Text.Json.get?_copy, hw]
    rfl
  rw [get?_enveloped] at hget
  by_cases hks : k = ofString "status"
  · rw [if_pos hks] at hget
    exact .inl ⟨hks, Text.Json.copy_eq_bool (Option.some.inj hget).symm⟩
  rw [if_neg hks] at hget
  by_cases hkm : k = ofString "message"
  · rw [if_pos hkm] at hget
    refine .inr (.inl ⟨hkm, ?_⟩)
    rintro rfl
    unfold messageOf at hget
    rw [← hkm, hw] at hget
    cases hget
  rw [if_neg hkm] at hget
  by_cases hkd : k = ofString "data"
  · exact .inr (.inr hkd)
  rw [if_neg hkd] at hget
  cases hget

/-- An enclosed value's members are all in its envelope. -/
theorem Enclosed.get?_enveloped {v w : Text.Json} {k : Units} (h : Enclosed v) (hw : v.copy.get? k = some w) :
    (enveloped v).copy.get? k = some w := by
  obtain ⟨-, -, hms, hds, hdm⟩ := names_ne
  rw [Text.Json.get?_copy] at hw
  obtain ⟨x, hx, rfl⟩ := Option.map_eq_some_iff.1 hw
  rw [Text.Json.get?_copy, Damaru.get?_enveloped]
  rcases h.members k x hx with ⟨hks, rfl⟩ | ⟨hkm, hne⟩ | hkd
  · rw [if_pos hks]
    rfl
  · rw [if_neg (hkm ▸ hms), if_pos hkm, messageOf_eq (hkm ▸ hx) hne]
    rfl
  · rw [if_neg (hkd ▸ hds), if_neg (hkd ▸ hdm), if_pos hkd, ← hkd, hx]
    rfl

/-- The envelope of a value has the value in it just if the value is enclosed. -/
theorem carries_enveloped {v : Value} {httpCode : Nat} :
    Carries route ⟨httpCode, .json (enveloped v.json).stringify⟩ v.json ↔ Enclosed v.json := by
  have hread : ∀ json, Says ⟨httpCode, .json (enveloped v.json).stringify⟩ json ↔ json = (enveloped v.json).copy :=
    fun json => says_stringify httpCode ⟨_, wellFormed_enveloped v.wellFormed⟩
  constructor
  · rintro (hsent | ⟨json, hjson, hdata | ⟨hobject, hmembers⟩⟩)
    · have hparse := Text.Json.parse_stringify v.wellFormed.copy
      rw [sent_json hsent.symm, Text.Json.parse_stringify (wellFormed_enveloped v.wellFormed),
        Text.Json.copy_copy] at hparse
      have hcopy := Option.some.inj hparse
      refine enclosed_of_members ?_ fun k w hw => hcopy ▸ hw
      exact Text.Json.copy_eq_obj (hcopy.symm.trans (Text.Json.copy_obj _))
    · obtain rfl := (hread json).1 hjson
      have hget : v.json.copy.get? (ofString "data") = some v.json.copy := by
        rw [Text.Json.get?_copy, get?_enveloped, if_neg names_ne.2.2.2.1, if_neg names_ne.2.2.2.2, if_pos rfl,
          ← Text.Json.get?_copy] at hdata
        exact hdata
      exact absurd hget (Text.Json.get?_ne_self _ _)
    · obtain rfl := (hread json).1 hjson
      exact enclosed_of_members hobject hmembers
  · intro h
    exact .inr ⟨_, (hread _).2 rfl, .inr ⟨h.object, fun k w hw => h.get?_enveloped hw⟩⟩

/-- The reply to an error does not have a null in it. -/
theorem not_carries_null (error : Thrown) : ¬ Carries route (ExceptionHandler.catch error) .null := by
  rintro (h | ⟨json, hjson, h | ⟨⟨members, h⟩, -⟩⟩)
  · cases h
  · have hget : (thrown error).get? (ofString "data") = none := rfl
    rw [(says_catch error).1 hjson, hget] at h
    cases h
  · cases h

/-- Without encryption, an excluded handler's value is in the reply just if it
is enclosed. -/
theorem carries_iff (hoff : outer.enabled = false) (hinner : inner.enabled = false ∨ route.excluded = true)
    {v : Value} (hv : route.handler request.body = .ok (some v)) :
    Carries route (replyTo node isDev route request (some outer) (some inner)) v.json ↔ Enclosed v.json := by
  by_cases hnull : v.json = .null
  · obtain ⟨error, hreply⟩ := @replyTo_not_enveloped node isDev route request outer inner hoff hinner
      (some v) hv fun w hw => Option.some.inj hw ▸ hnull
    rw [hreply, hnull]
    refine iff_of_false (not_carries_null error) fun h => ?_
    obtain ⟨members, h⟩ := h.object
    cases h
  · rw [replyTo_enveloped hoff hinner hv hnull]
    exact carries_enveloped

end

/-- **When the two modes deliver the same.** Every request is answered in both
modes. For a handler that is not excluded, what the client decrypts in the one
agrees with what it is sent for the same body in the other, the stack apart,
if and only if the handler throws, or returns an object with `status: true`, a
message, and at most data and a stack besides. For an excluded handler that
returns a value, the value is in both replies if and only if it is an object
with no other members than data, a message that is not null and
`status: true`. -/
theorem modes_agree_iff (hnode : node.Lawful) (isDev : Bool) (route : Route) {rows rows' : List Encryption}
    (hrows : Enabled rows) (hrows' : Disabled rows') :
    (route.excluded = false → ∀ request key body plain, Delivers node request key body → plain.body = body →
      ∃ encrypted reply,
        (∀ r t, (handleRequest node isDev route request).Ends rows r t ↔ r = .ok encrypted ∧ t = rows) ∧
        (∀ r t, (handleRequest node isDev route plain).Ends rows' r t ↔ r = .ok reply ∧ t = rows') ∧
        ((∃ json json', Decrypts node key encrypted json ∧ Says reply json' ∧ SameButStack json json') ↔
          Enveloped (route.handler body))) ∧
    (route.excluded = true → ∀ request v, route.handler request.body = .ok (some v) →
      ∃ encrypted reply,
        (∀ r t, (handleRequest node isDev route request).Ends rows r t ↔ r = .ok encrypted ∧ t = rows) ∧
        (∀ r t, (handleRequest node isDev route request).Ends rows' r t ↔ r = .ok reply ∧ t = rows') ∧
        (Carries route encrypted v.json ∧ Carries route reply v.json ↔ Enclosed v.json)) := by
  obtain ⟨on, hon, henabled⟩ := hrows
  obtain ⟨off, hoff, hdisabled⟩ := hrows'
  constructor
  · intro hexcluded request key body plain hdelivers hplain
    refine ⟨_, _, fun r t => ends_handleRequest, fun r t => ends_handleRequest, ?_⟩
    rw [hon, hoff]
    exact same_json_iff hnode henabled hdisabled hexcluded hdelivers hplain
  · intro hexcluded request v hv
    refine ⟨_, _, fun r t => ends_handleRequest, fun r t => ends_handleRequest, ?_⟩
    rw [hon, hoff, carries_iff hdisabled (.inr hexcluded) hv, and_iff_right_iff_imp]
    intro _
    rw [replyTo_copied henabled (.inr hexcluded) hv]
    exact .inl rfl

/-- What a handler returns that has done something: a message alone, or with
its status. -/
def Sample.done (status : Bool) : Value where
  json := .obj ((if status then [(ofString "status", .bool true)] else []) ++
    [(ofString "message", .str (ofString "Device linked"))])
  wellFormed := by
    cases status with
    | true =>
      refine .obj (Text.Json.ordered_of_names (List.Pairwise.sublist ?_ reply_names.1)) ?_
      · exact ((List.nil_sublist _).cons_cons _).cons_cons _
      · exact List.forall_mem_cons.2 ⟨.bool _, List.forall_mem_singleton.2 (.str _)⟩
    | false => exact .obj (List.pairwise_singleton _ _) (List.forall_mem_singleton.2 (.str _))

def Sample.linking (excluded status : Bool) : Route := ⟨excluded, 201, fun _ => .ok (some (Sample.done status))⟩

/-- A request without a body, with its key in the header. -/
theorem Sample.delivers :
    ∃ rsaKey, rsaEncrypt Node.padded 0 (ofString "key") = .ok rsaKey ∧
      Delivers Node.padded ⟨some (.obj []), some (ofString "meta:" ++ rsaKey)⟩ (ofString "key") (some (.obj [])) := by
  obtain ⟨rsaKey, hencrypt, -, hdecrypt⟩ :=
    @rsaDecrypt_rsaEncrypt _ Node.lawful_padded 0 (ofString "key") (by decide +kernel)
  refine ⟨rsaKey, hencrypt, .metadata rfl rfl ?_ ?_⟩
  · exact List.append_ne_nil_of_left_ne_nil (by decide +kernel) rsaKey
  · rw [List.drop_left' (show (ofString "meta:").length = 5 by decide +kernel), hdecrypt,
      Utf8.decode_encode_of_wellFormed (by decide +kernel)]

theorem modes_agree_sample :
    ∃ request encrypted reply json json',
      (handleRequest Node.padded true (Sample.linking false true) request).Ends [⟨"1", true⟩] (.ok encrypted)
        [⟨"1", true⟩] ∧
      (handleRequest Node.padded true (Sample.linking false true) ⟨some (.obj []), none⟩).Ends [⟨"1", false⟩]
        (.ok reply) [⟨"1", false⟩] ∧
      Decrypts Node.padded (ofString "key") encrypted json ∧ Says reply json' ∧ SameButStack json json' := by
  obtain ⟨rsaKey, -, hdelivers⟩ := Sample.delivers
  have hrows : Enabled [⟨"1", true⟩] := ⟨⟨"1", true⟩, rfl, rfl⟩
  have hrows' : Disabled [⟨"1", false⟩] := ⟨⟨"1", false⟩, rfl, rfl⟩
  obtain ⟨encrypted, reply, hencrypted, hreply, hagree⟩ := (modes_agree_iff Node.lawful_padded true
    (Sample.linking false true) hrows hrows').1 rfl _ _ _ ⟨some (.obj []), none⟩ hdelivers rfl
  have hmembers : ∀ k, (Sample.done true).json.get? k ≠ none →
      k ∈ [ofString "status", ofString "message", ofString "data", ofString "stack"] := fun k hk => by
    by_contra hmem
    simp only [List.mem_cons, List.not_mem_nil, or_false, not_or] at hmem
    refine hk ?_
    show List.lookup k [(_, _), (_, _)] = none
    rw [List.lookup_cons, List.lookup_cons, beq_eq_false_iff_ne.2 hmem.1, beq_eq_false_iff_ne.2 hmem.2.1]
    rfl
  obtain ⟨json, json', hdecrypts, hread, hsame⟩ := hagree.2 (.value rfl rfl nofun hmembers)
  exact ⟨_, encrypted, reply, json, json', (hencrypted _ _).2 ⟨rfl, rfl⟩, (hreply _ _).2 ⟨rfl, rfl⟩, hdecrypts,
    hread, hsame⟩

/-- A handler that returns a message alone: the client that decrypts the reply
misses the status. -/
theorem modes_differ :
    ∃ request encrypted reply,
      Delivers Node.padded request (ofString "key") (some (.obj [])) ∧
      (handleRequest Node.padded true (Sample.linking false false) request).Ends [⟨"1", true⟩] (.ok encrypted)
        [⟨"1", true⟩] ∧
      (handleRequest Node.padded true (Sample.linking false false) ⟨some (.obj []), none⟩).Ends [⟨"1", false⟩]
        (.ok reply) [⟨"1", false⟩] ∧
      ¬ ∃ json json', Decrypts Node.padded (ofString "key") encrypted json ∧ Says reply json' ∧
        SameButStack json json' := by
  obtain ⟨rsaKey, -, hdelivers⟩ := Sample.delivers
  refine ⟨_, _, _, hdelivers, ends_handleRequest.2 ⟨rfl, rfl⟩, ends_handleRequest.2 ⟨rfl, rfl⟩, ?_⟩
  intro hagree
  have henveloped := (@same_json_iff _ true (Sample.linking false false) _ _ _ Node.lawful_padded
    ⟨some (.obj []), none⟩ ⟨"1", true⟩ ⟨"1", false⟩ rfl rfl rfl hdelivers rfl).1 hagree
  cases henveloped with
  | value hstatus =>
    have hnone : (Sample.done false).json.get? (ofString "status") = none :=
      List.lookup_eq_none_iff.2 (List.forall_mem_singleton.2 (bne_iff_ne.2 names_ne.2.2.1.symm))
    rw [hnone] at hstatus
    cases hstatus

end Damaru
