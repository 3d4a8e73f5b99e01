import Damaru.Async.Observable
import Damaru.Core.Encryption

/-!
# Middlewares

The two global interceptors and the exception filter around a request handler.
`ResponseInterceptor` is a provider of the application module and is registered
first, so it wraps `EncryptionInterceptor`, which `main` installs; Nest
subscribes to the inner one when the outer one has returned. Guards have let
the request pass already, and logging is left out.
-/

namespace Damaru

open Async Text

/-- What the interceptors read of a request. -/
structure Incoming where
  body : Option Text.Json
  xMetadata : Option Units

/-- A handler with what its decorators say. Its outcome depends on the body that
it is called with; `none` is `undefined`. -/
structure Route where
  excluded : Bool
  httpCode : Nat
  handler : Option Text.Json → Except Thrown (Option Value)

/-- What a handler and the interceptors around it give: the calls are the bodies
that the handler is called with. -/
abbrev Handled := Observable (Option Text.Json) Thrown (Option Text.Json)

/-- `next.handle()` of the innermost interceptor. -/
def Route.handle (route : Route) (body : Option Text.Json) : Handled :=
  .call body ((route.handler body).map fun v => v.map Value.json)

namespace EncryptionInterceptor

open EncryptionService

variable (node : Node)

/-- `Object.keys(body).length`. -/
def keysLength : Option Text.Json → Except Thrown Nat
  | none | some .null => .error (node.error "Cannot convert undefined or null to object")
  | some (.bool _) | some (.number _) => .ok 0
  | some (.str s) => .ok s.length
  | some (.arr items) => .ok items.length
  | some (.obj members) => .ok members.length

/-- `hybridDecrypt` of whatever the body is. -/
def hybridDecryptBody : Option Text.Json → Except Thrown DecryptedPayload
  | some (.str encryptedPayload) => hybridDecrypt node encryptedPayload
  | _ => .error (node.error "encryptedPayload.substring is not a function")

/-- The AES key of a request, and its body as the handler gets it. -/
def decryptRequest (request : Incoming) : Except Thrown (Units × Option Text.Json) := do
  if (← keysLength node request.body) = 0 then
    match request.xMetadata with
    | none | some [] => throw (node.error "x-metadata header is required")
    | some xMetadata =>
      let aesKey ← rsaDecrypt node (xMetadata.drop 5)
      return (aesKey, request.body)
  else
    let decryptedData ← hybridDecryptBody node request.body
    let body ← node.parse decryptedData.data.stringify
    match body with
    | .null => throw (node.error "Cannot read properties of null (reading 'password')")
    | body => return (decryptedData.aesKey, some body)

/-- The reply to a failure; the stack is for developers. -/
def exception (isDev : Bool) (message stack : Units) : Text.Json :=
  .obj ([(ofString "status", .bool false), (ofString "message", .str message)] ++
    if isDev then [(ofString "stack", .str stack)] else [])

/-- What `map` does with the value of the handler. -/
def encryptData (aesKey : Units) (data : Option Text.Json) : Except Thrown (Option Text.Json) :=
  match stringify data with
  | some text => .ok (some (.str (aesEncrypt node text aesKey)))
  | none =>
    .error (node.error ("The first argument must be of type string or an instance of Buffer, ArrayBuffer, " ++
      "or Array or an Array-like Object. Received undefined"))

def intercept (isDev : Bool) (route : Route) (request : Incoming) : Flagged Handled := do
  match ← getEncryption with
  | none => throw (node.error "Cannot read properties of null (reading 'enabled')")
  | some encryption =>
    if encryption.enabled then
      if route.excluded then
        return route.handle request.body
      else
        match decryptRequest node request with
        | .ok (aesKey, body) =>
          return ((route.handle body).catchError fun error =>
            .of (some (exception isDev error.message error.stack))).map (encryptData node aesKey)
        | .error error =>
          return .of (some (exception isDev (ofString "Failed to decrypt request parameters") error.stack))
    else
      return route.handle request.body

end EncryptionInterceptor

namespace ResponseInterceptor

open EncryptionService

variable (node : Node)

/-- `data.message ?? 'Success'`. -/
def messageOf (v : Text.Json) : Text.Json :=
  match v.get? (ofString "message") with
  | none | some .null => .str (ofString "Success")
  | some message => message

/-- The envelope of a value. Data that is `undefined` is no member of it. -/
def envelope : Option Text.Json → Except Thrown Text.Json
  | none => .error (node.error "Cannot read properties of undefined (reading 'message')")
  | some .null => .error (node.error "Cannot read properties of null (reading 'message')")
  | some v =>
    .ok (.obj ([(ofString "status", .bool true), (ofString "message", messageOf v)] ++
      (v.get? (ofString "data")).toList.map fun data => (ofString "data", data)))

/-- `JSON.parse(JSON.stringify(data))`. -/
def copyOf (data : Option Text.Json) : Except Thrown Text.Json :=
  node.parse ((stringify data).getD (ofString "undefined"))

/-- What `map` does with the value of the inner interceptor. -/
def transform (encryption : Option Encryption) (data : Option Text.Json) : Except Thrown (Option Text.Json) :=
  match encryption with
  | none => .error (node.error "Cannot read properties of null (reading 'enabled')")
  | some encryption => some <$> if encryption.enabled then copyOf node data else envelope node data

def intercept (next : Flagged Handled) : Flagged Handled := do
  let encryption ← getEncryption
  let handled ← next
  return handled.map (transform node encryption)

end ResponseInterceptor

/-- What is sent. -/
inductive Sent where
  | json (text : Units)
  | text (text : Units)
  | empty

structure Reply where
  httpCode : Nat
  sent : Sent

/-- `String(x)`. -/
def numberString (x : Number) : Units :=
  match Number.text x with
  | some t => Utf16.ofChars t
  | none =>
    match x.unpack with
    | .infinity .positive => ofString "Infinity"
    | .infinity .negative => ofString "-Infinity"
    | _ => ofString "NaN"

/-- What Nest's adapter sends for the value of a handler. -/
def Route.reply (route : Route) (body : Option Text.Json) : Reply :=
  ⟨route.httpCode,
    match body with
    | none | some .null => .empty
    | some (.bool b) => .text (ofString (toString b))
    | some (.number x) => .text (numberString x)
    | some (.str s) => .text s
    | some v => .json v.stringify⟩

/-- The exception filter. -/
def ExceptionHandler.catch (exception : Thrown) : Reply :=
  ⟨200, .json (Text.Json.stringify (.obj [(ofString "status", .bool false),
    (ofString "message", .str exception.message), (ofString "stack", .str exception.stack)]))⟩

/-- A request on its way through the interceptors and back. The inner
interceptor runs in a `defer`, where what it throws is an error of the
observable. -/
def handleRequest (node : Node) (isDev : Bool) (route : Route) (request : Incoming) : Flagged Reply :=
  tryCatch
    (do
      let next := tryCatch (EncryptionInterceptor.intercept node isDev route request) fun error =>
        return .failing error
      let handled ← ResponseInterceptor.intercept node next
      match handled.lastValue (node.error "no elements in sequence") with
      | .ok body => return route.reply body
      | .error error => throw error)
    fun error => return ExceptionHandler.catch error

end Damaru
