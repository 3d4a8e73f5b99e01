import Damaru.Server

/-!
# Guards

Which tokens a controller method or a socket message admits. Every guard
admits a super admin.
-/

namespace Damaru

open Async

inductive ContextType where
  | http
  | ws
  deriving DecidableEq, Repr

/-- The pairs of roles that a guard lists. `BaseAuthorizationGuard` is built
with one pair, `MultiRoleGuard` with several. -/
structure Guard where
  rolePair : List (Roles × Option SubRoles)

namespace Guard

def isAuthorized (g : Guard) (jwtPayload : JwtToken) : Bool :=
  jwtPayload.role = .SuperAdmin ||
    g.rolePair.any fun p => jwtPayload.role = p.1 && jwtPayload.subRole = p.2

def authorized (g : Guard) (type : ContextType) (jwtPayload : JwtToken) : Svc Unit :=
  if g.isAuthorized jwtPayload then pure ()
  else match type with
    | .http => throw (.http .UNAUTHORIZED "You are not authorized")
    | .ws => throw (.ws "You are not authorized")

end Guard

def AndroidAccount : Guard := ⟨[(.AndroidUser, some .AndroidAccount)]⟩

def AndroidAdmin : Guard := ⟨[(.AndroidUser, some .AndroidAdmin)]⟩

def AndroidUsers : Guard :=
  ⟨[(.AndroidUser, some .AndroidAdmin), (.AndroidUser, some .AndroidAccount)]⟩

def EmulatorAdmin : Guard := ⟨[(.EmulatorAdmin, none)]⟩

def EmulatorUsers : Guard :=
  ⟨[(.AndroidUser, some .AndroidAdmin), (.AndroidUser, some .AndroidAccount),
    (.EmulatorAdmin, none)]⟩

def SuperAdmin : Guard := ⟨[(.SuperAdmin, none)]⟩

end Damaru
