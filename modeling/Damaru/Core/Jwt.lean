import Damaru.Services.Auth

/-!
# Tokens

How a token is issued and where a request carries it. The libraries that sign
and verify are a parameter, with the secret and the expiry that the
configuration gives them; what is relied on is `JwtService.Lawful`.
-/

namespace Damaru

open Async

structure JwtService where
  /-- `sign(payload)` at a date. -/
  sign : Date → JwtToken → String
  /-- `verify(token)` at a date; `none` if it throws. -/
  verify : Date → String → Option JwtToken
  /-- `ExtractJwt.fromAuthHeaderAsBearerToken()`. -/
  fromAuthHeaderAsBearerToken : Option String → Option String

/-- A token that verifies carries the payload that it was signed with. -/
structure JwtService.Lawful (jwt : JwtService) : Prop where
  verify_sign : ∀ t now payload p, jwt.verify now (jwt.sign t payload) = some p → p = payload

/-- The data that a login answers. -/
structure LoginData where
  accessToken : String
  firstLogin : Bool
  isSuperAdmin : Bool
  isRootUser : Bool
  userId : String
  accountName : Option String
  accountId : Option String

/-- The answer to credentials that have been validated by `now`. -/
def LoginData.of (jwt : JwtService) (now : Date) (jwtPayload : JwtToken) (firstLogin : Bool) : LoginData where
  accessToken := jwt.sign now jwtPayload
  firstLogin := firstLogin
  isSuperAdmin := decide (jwtPayload.role = .SuperAdmin)
  isRootUser := decide (jwtPayload.role = .AndroidUser ∧ jwtPayload.subRole = some .AndroidAdmin)
  userId := jwtPayload.sub
  accountName := jwtPayload.accountName
  accountId := jwtPayload.accountId

def AuthService.login (jwt : JwtService) (now : Date) (loginDto : Json) : Svc LoginData := do
  let (jwtPayload, firstLogin) ← validateUser loginDto
  return .of jwt now jwtPayload firstLogin

/-- `header.split(' ')[1]`. -/
def secondWord (header : String) : Option String := (header.toList.splitOn ' ')[1]?.map String.ofList

/-- `header.startsWith('Bearer ')`. -/
def isBearer (header : String) : Bool := "Bearer ".toList.isPrefixOf header.toList

example : [secondWord "Bearer t", secondWord "Basic t", secondWord "t"] = [some "t", some "t", none] := by
  decide +kernel

/-- The user that a request to a protected method is made for. -/
def JwtAuthGuard.canActivate (jwt : JwtService) (now : Date) (authorization : Option String) :
    Except Rejection JwtToken :=
  match (jwt.fromAuthHeaderAsBearerToken authorization).bind (jwt.verify now) with
  | some user => .ok user
  | none => .error (.http .UNAUTHORIZED "Unauthorized")

/-- The user that a message is sent for. Its client's handshake is verified
again with every message. -/
def WsJwtGuard.canActivate (jwt : JwtService) (now : Date) (authorization : Option String) :
    Except Rejection JwtToken :=
  match authorization.filter isBearer with
  | none => .error (.http .UNAUTHORIZED "Authorization token missing or malformed")
  | some authHeader =>
    match (secondWord authHeader).bind (jwt.verify now) with
    | some user => .ok user
    | none => .error (.ws "Invalid or expired token")

/-- The middleware that lets a socket connect. It does not look at the scheme. -/
def SignalingServerGateway.afterInit (jwt : JwtService) (now : Date) (authorization : Option String) :
    Except Rejection JwtToken :=
  match (authorization.bind secondWord).bind (jwt.verify now) with
  | some user => .ok user
  | none => .error (.ws "Unauthorized")

end Damaru
