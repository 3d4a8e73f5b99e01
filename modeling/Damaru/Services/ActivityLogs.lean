import Damaru.Common.Utils
import Damaru.Repository

/-!
# ActivityLogService
-/

namespace Damaru.ActivityLogService

open Async Table

/-- `log`. Of the DTO only the action and the metadata are stored. -/
def log (action metadata : JsVal) : Svc Unit := do
  match action with
  | none => throw (.typeError "Cannot read properties of undefined (reading 'toString')")
  | some .null => throw (cannotRead "toString")
  | some action =>
    let _ ← activityLogRepository.insert fun x s =>
      match metadata with
      | none => .error .query
      | some .null => .error .query
      | some metadata =>
        .ok ⟨x.fresh s, action.toText, x.now, metadata⟩

/-- The columns that the body of an update sets: `none` for a null, which no
column takes. -/
def columns (p : Platform) (log : Json) : Except Rejection (Option (ActivityLog → ActivityLog)) :=
  if log.keys = [] then
    .error (.library "Cannot perform update query because update values are not defined.")
  else if log.keys.all (· ∈ ["id", "action", "timestamp", "metadata"]) then
    if log.keys.any fun k => (log.get? k).bound.isNone then .ok none
    else
      match (log.get? "timestamp").bound.map p.date with
      | some none => .error .query
      | timestamp => .ok <| some fun a =>
        { a with
          id := (log.get? "id").bound.getD a.id
          action := (log.get? "action").bound.getD a.action
          timestamp := timestamp.join.getD a.timestamp
          metadata := (log.get? "metadata").getD a.metadata }
  else .error (.library "Property was not found in \"ActivityLog\".")

def update (id : String) (log : Json) : Svc Unit := do
  let _ ← activityLogRepository.update (some (.str id)) fun _ s => columns s.platform log

def findAll : Svc (List ActivityLog) := activityLogRepository.find (fun _ _ => true) fun _ a => a

def remove (id : String) : Svc Unit := activityLogRepository.deleteById id

end Damaru.ActivityLogService
