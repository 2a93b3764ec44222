import Mss.Services.Projects

/-!
# App tokens

The tokens with which users act on their projects: `createAppToken`. Deleting a project's tokens is
with the services that do so, in `Mss.Services.Projects`.
-/

namespace Mss

open Atomic Storage Prog

variable (g : Generated)

/-- Create an app token for an active project the user is a member of. -/
def createAppToken (payload : AppTokenCreate) (userId : Id) : Service AppToken := do
  match ← getProjectIfMember payload.projectId userId with
  | none => throw (.forbidden "Forbidden")
  | some project =>
    if !project.isActive then throw (.forbidden "Forbidden")
    else do
      let appToken : AppToken :=
        { payload with id := g.id, token := g.token, userId, createdAt := g.nowMicros }
      ofExcept (← call (.insertAppToken appToken))
      return appToken

end Mss
