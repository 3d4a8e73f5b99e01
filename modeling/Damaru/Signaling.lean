import Damaru.Services.Emulators
import Damaru.Guards

/-!
# SignalingServerGateway

Messages between the sockets of devices and of clients. The gateway remembers
in `connections` under which key, a device id or an account id, a socket has
registered. A message is handled once its token is verified.
-/

namespace Damaru

open Async

namespace SignalingServerGateway

/-- `connections.get`. -/
def get (connections : List (JsVal × Socket)) (key : JsVal) : Option Socket :=
  (connections.find? fun c => key.sameKey c.1).map Prod.snd

/-- `connections.set`. -/
def set (connections : List (JsVal × Socket)) (key : JsVal) (client : Socket) :
    List (JsVal × Socket) :=
  if connections.any fun c => key.sameKey c.1 then
    connections.map fun c => if key.sameKey c.1 then (c.1, client) else c
  else connections ++ [(key, client)]

/-- Emits an event on a socket, if there is one. -/
def emit (socket : Option Socket) (event : String) (payload : List (String × JsVal)) (s : Server) :
    Server :=
  match socket with
  | none => s
  | some socket => { s with emitted := s.emitted ++ [⟨.socket socket, event, payload⟩] }

inductive Event where
  | StartStreaming
  | Offer
  | Answer
  | IceCandidate
  | Disconnect
  | Connect
  deriving DecidableEq, Repr

/-- The guard of each event. -/
def Event.guard : Event → Guard
  | StartStreaming => EmulatorAdmin
  | Offer => AndroidUsers
  | Answer => EmulatorAdmin
  | IceCandidate => EmulatorUsers
  | Disconnect => EmulatorUsers
  | Connect => EmulatorUsers

def handleStartStreaming (client : Socket) (deviceId : JsVal) : Svc Unit :=
  if deviceId.truthy then do
    sync fun s => (.ok (), { s with connections := set s.connections deviceId client })
    let _ ← EmulatorService.update deviceId
      (.obj [("status", .str EmulatorStatus.online.text)]) none
  else pure ()

def handleOffer (client : Socket) (user : JwtToken) (deviceId sdp : JsVal) : Svc Unit :=
  sync fun s =>
    match get s.connections deviceId with
    | none => (.error (.ws "Emulator not found"), s)
    | some emulatorSocket =>
      let accountId : JsVal := user.accountId.map Json.str
      (.ok (), emit (some emulatorSocket) "Offer" [("sdp", sdp), ("clientId", accountId)]
        { s with connections := set s.connections accountId client })

def handleAnswer (clientId sdp : JsVal) : Svc Unit :=
  if clientId.truthy then
    sync fun s => (.ok (), emit (get s.connections clientId) "Answer" [("sdp", sdp)] s)
  else pure ()

def handleIceCandidate (isEmulator clientId deviceId iceCandidate : JsVal) : Svc Unit :=
  sync fun s =>
    let id := if isEmulator.truthy then clientId else deviceId
    (.ok (), emit (get s.connections id) "IceCandidate"
      [("iceCandidate", iceCandidate), ("clientId", clientId), ("deviceId", deviceId),
        ("isEmulator", isEmulator)] s)

def disconnect (clientId deviceId : JsVal) : Svc Unit :=
  sync fun s => (.ok (), emit (get s.connections deviceId) "Disconnect" [("clientId", clientId)] s)

def connect (clientId deviceId : JsVal) : Svc Unit :=
  EmulatorService.connectEmulator clientId deviceId

/-- What a message does once its guards have passed. -/
def run (client : Socket) (user : JwtToken) (body : Json) : Event → Svc Unit
  | .StartStreaming => handleStartStreaming client (body.get? "deviceId")
  | .Offer => handleOffer client user (body.get? "deviceId") (body.get? "sdp")
  | .Answer => handleAnswer (body.get? "clientId") (body.get? "sdp")
  | .IceCandidate =>
    handleIceCandidate (body.get? "isEmulator") (body.get? "clientId") (body.get? "deviceId")
      (body.get? "iceCandidate")
  | .Disconnect => disconnect (body.get? "clientId") (body.get? "deviceId")
  | .Connect => connect (body.get? "clientId") (body.get? "deviceId")

/-- Handles one message of a client whose token is verified. -/
def handle (client : Socket) (user : JwtToken) (event : Event) (body : Json) : Svc Unit := do
  event.guard.authorized .ws user
  if body.isNull then throw (.typeError "Cannot destructure 'undefined' or 'null'")
  run client user body event

/-- A client has gone: everything registered on its socket is disconnected, by
calls that nothing awaits. -/
def handleDisconnect (client : Socket) : Svc Unit := do
  let registered ← query fun _ s => .ok
    ((s.connections.filter fun c => c.2.id = client.id).map Prod.fst)
  forM registered fun clientId => Prog.detach (EmulatorService.disconnectEmulator clientId)

end SignalingServerGateway

end Damaru
