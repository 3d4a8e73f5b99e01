import Damaru.Async.Yields
import Damaru.Core.Jwt
import Damaru.System

/-!
# The server behind its guards

What arrives at the server is a request with a header, a login, a socket that
connects with a header, or a message or the end of one that has connected. The
guards make of it an event of the system, or turn it away. One arrival is
handled alone, with everything that it forked, to its end.
-/

namespace Damaru

open Async

/-- The server, the sockets that are connected, each with the header of its
handshake, the room of the emulator admins, and the sockets that have gone. -/
structure World where
  server : Server
  handshakes : List (Socket × String)
  emulatorAdminRoom : List Socket
  gone : List Socket

inductive Arrival where
  | request (authorization : Option String) (req : HttpRequest)
  | login (loginDto : Json)
  | connect (client : Socket) (authorization : Option String)
  | message (client : Socket) (event : SignalingServerGateway.Event) (body : Json)
  | disconnect (client : Socket)

/-- An arrival with its date, and what a login is answered. -/
structure Exchange where
  now : Date
  arrival : Arrival
  answer : Option LoginData

namespace World

/-- The library draws a new id for every socket. -/
def IsNew (w : World) (client : Socket) : Prop := client ∉ w.handshakes.map Prod.fst ∧ client ∉ w.gone

/-- The middleware has let a socket pass. -/
def join (w : World) (client : Socket) (header : String) (user : JwtToken) : World :=
  { w with
    handshakes := w.handshakes ++ [(client, header)]
    emulatorAdminRoom := if user.role = .EmulatorAdmin then w.emulatorAdminRoom ++ [client]
      else w.emulatorAdminRoom }

/-- A socket leaves its rooms before the gateway hears of its end. -/
def leave (w : World) (client : Socket) : World :=
  { w with
    handshakes := w.handshakes.filter fun c => decide (c.1 ≠ client)
    emulatorAdminRoom := w.emulatorAdminRoom.filter fun c => decide (c ≠ client)
    gone := w.gone ++ [client] }

/-- One constructor for each way through the guards. -/
inductive Step (jwt : JwtService) (w : World) : Exchange → World → Prop
  | request {now : Date} {authorization : Option String} {req : HttpRequest} {user : JwtToken} {s : Server} :
      JwtAuthGuard.canActivate jwt now authorization = .ok user →
      Damaru.Step w.server (.http user req) s →
      Step jwt w ⟨now, .request authorization req, none⟩ { w with server := s }
  | unauthorized {now : Date} {authorization : Option String} {req : HttpRequest} {e : Rejection} :
      JwtAuthGuard.canActivate jwt now authorization = .error e →
      Step jwt w ⟨now, .request authorization req, none⟩ w
  | login {now : Date} {loginDto : Json} {r : Except Rejection LoginData} {s : Server} :
      (AuthService.login jwt now loginDto).Yields [] w.server r s →
      Step jwt w ⟨now, .login loginDto, r.toOption⟩ { w with server := s }
  | connect {now : Date} {client : Socket} {header : String} {user : JwtToken} : w.IsNew client →
      SignalingServerGateway.afterInit jwt now (some header) = .ok user →
      Step jwt w ⟨now, .connect client (some header), none⟩ (w.join client header user)
  | refused {now : Date} {client : Socket} {authorization : Option String} {e : Rejection} :
      SignalingServerGateway.afterInit jwt now authorization = .error e →
      Step jwt w ⟨now, .connect client authorization, none⟩ w
  | message {now : Date} {client : Socket} {event : SignalingServerGateway.Event} {body : Json}
      {header : String} {user : JwtToken} {s : Server} : (client, header) ∈ w.handshakes →
      WsJwtGuard.canActivate jwt now (some header) = .ok user →
      Damaru.Step w.server (.message client user event body) s →
      Step jwt w ⟨now, .message client event body, none⟩ { w with server := s }
  | unheard {now : Date} {client : Socket} {event : SignalingServerGateway.Event} {body : Json}
      {header : String} {e : Rejection} : (client, header) ∈ w.handshakes →
      WsJwtGuard.canActivate jwt now (some header) = .error e →
      Step jwt w ⟨now, .message client event body, none⟩ w
  | disconnect {now : Date} {client : Socket} {header : String} {s : Server} :
      (client, header) ∈ w.handshakes → Damaru.Step w.server (.disconnect client) s →
      Step jwt w ⟨now, .disconnect client, none⟩ { w.leave client with server := s }

/-- No socket has connected yet. -/
structure Start (w : World) : Prop where
  handshakes : w.handshakes = []
  emulatorAdminRoom : w.emulatorAdminRoom = []
  gone : w.gone = []

end World

end Damaru
