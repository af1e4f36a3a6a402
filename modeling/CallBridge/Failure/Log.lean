import CallBridge.Collection.Buffer
import CallBridge.Failure.Basic

/-!
# The error log

Handled errors are kept in a bounded log, the oldest first, and reported to a listener as they come
in. What the listener has heard of does not depend on what the log still holds.
-/

namespace CallBridge

open Collection

structure ErrorLog where
  log : Buffer BridgeError
  /-- Whether a listener is there. -/
  hasListener : Bool
  /-- What listeners have heard of, the oldest first. -/
  reported : List BridgeError
  deriving Repr

namespace ErrorLog

def empty (capacity : Nat) : ErrorLog := ⟨.empty capacity, false, []⟩

/-- The log without a capacity of its own. -/
def standard : ErrorLog := empty 100

def listen (l : ErrorLog) : ErrorLog := { l with hasListener := true }

/-- Reports and logs an error. -/
def handle (l : ErrorLog) (e : BridgeError) : ErrorLog :=
  { l with
    log := (l.log.push e).1
    reported := if l.hasListener then l.reported ++ [e] else l.reported }

/-- Handles the error of a cause and gives it back. -/
def handleCause (l : ErrorLog) (cause : ErrorCause) (context : ErrorContext) :
    ErrorLog × BridgeError :=
  let e := BridgeError.classify cause context
  (l.handle e, e)

def entries (l : ErrorLog) : List BridgeError := l.log.items

def ofKind (l : ErrorLog) (kind : ErrorKind) : List BridgeError :=
  l.entries.filter fun e => e.kind == kind

def userErrors (l : ErrorLog) : List BridgeError := l.entries.filter (·.isUserError)

/-- The newest errors, at most a number of them. -/
def recent (l : ErrorLog) (count : Nat) : List BridgeError :=
  l.entries.drop (l.entries.length - count)

def clear (l : ErrorLog) : ErrorLog := { l with log := l.log.clear }

/-- The log in short. -/
def display (l : ErrorLog) : String :=
  "ErrorHandler \x7b logged: " ++ toString l.entries.length ++ ", has_callback: " ++
    (if l.hasListener then "true" else "false") ++ " \x7d"

end ErrorLog

end CallBridge
