import Mss.Services.Projects

/-!
# Runs of calls

A run is a list of calls, each starting after the last one ended.

* `ProjectCall`: creating a project, logging in, and deleting the stored project of an id.
* `runCalls`: the database a run leaves.
* **`runCalls_invariant`**: what every call keeps, a run keeps.
-/

namespace Mss

open Atomic Storage Prog

/-- One call, with what it generates. -/
inductive ProjectCall
  | create (payload : ProjectCreate) (actor : User) (g : Generated)
  | login (user : User) (qpuSeconds : ℚ) (g : Generated)
  | delete (projectId : Id) (isSuperuser : Bool) (g : Generated)

variable (h : Host)

/-- The program of a call. -/
def ProjectCall.service : ProjectCall → Service Unit
  | .create payload actor g => do
    let _ ← createProject h g payload actor
  | .login user qpuSeconds g => do
    let _ ← ensurePersonalProject h g user qpuSeconds
  | .delete projectId isSuperuser g => do
    let project ← getProject projectId
    deleteProject g project isSuperuser

variable {P : Type} [ProjectStore P]

/-- The database after a run. -/
def runCalls (calls : List ProjectCall) (db : Db P) : Db P :=
  calls.foldl (fun db call => ((call.service h).run (exec h) db).2) db

variable {h}

theorem runCalls_invariant {I : Db P → Prop} {calls : List ProjectCall}
    (hcalls : ∀ call ∈ calls, ∀ db : Db P, I db → I ((call.service h).run (exec h) db).2)
    {db : Db P} (hdb : I db) : I (runCalls h calls db) := by
  induction calls generalizing db with
  | nil => exact hdb
  | cons call calls ih =>
    rw [List.forall_mem_cons] at hcalls
    exact ih hcalls.2 (hcalls.1 db hdb)

end Mss
