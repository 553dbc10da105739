import Mathlib.Data.Finset.Sort

/-!
# The sessions of a service

`sessions` is a `std::set` of pointers, and `sessionCount` an `int32` beside it. Each
member function runs under `WRITE_LOCK`. `ASSERT_CRASH` ends the process in the Debug
build when its expression holds; in the Release build the macro is empty, and the
expression is not evaluated.
-/

namespace ServerCore

inductive Build where
  | debug
  | release
  deriving DecidableEq, Repr

/-- The data members of `Service` that count its sessions. -/
structure Service (S : Type) where
  sessions : Finset S := ∅
  sessionCount : Int32 := 0

namespace Service

variable {S Buf : Type} [DecidableEq S]

def addSession (service : Service S) (session : S) : Service S :=
  { sessions := insert session service.sessions, sessionCount := service.sessionCount + 1 }

/-- `none` is the end of the process. The session is erased inside the assertion. -/
def releaseSession (build : Build) (service : Service S) (session : S) : Option (Service S) :=
  match build with
  | .debug =>
      if session ∉ service.sessions then none
      else some
        { sessions := service.sessions.erase session, sessionCount := service.sessionCount - 1 }
  | .release => some { service with sessionCount := service.sessionCount - 1 }

omit [DecidableEq S] in
def getCurrentSessionCount (service : Service S) : Int32 := service.sessionCount

omit [DecidableEq S] in
/-- The calls of `Send` that `BroadCast` makes, in the order of the set. -/
def broadCast [LinearOrder S] (service : Service S) (sendBuffer : Buf) : List (S × Buf) :=
  (service.sessions.sort (· ≤ ·)).map (·, sendBuffer)

end Service

end ServerCore
