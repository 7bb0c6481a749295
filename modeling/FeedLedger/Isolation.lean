import FeedLedger.Failure

namespace FeedLedger

/-- What the driver answers when it is asked for the level in force. -/
inductive LevelReport
  | level (name : String)
  | driverError
  | failed (f : Failure)

/-- A connection: the level set for it, if any, what its driver reports, and its default level. -/
structure Link where
  option : Option String
  report : LevelReport
  default : String

inductive LinkCall
  | askDriver
  | setLevel (level : String)
  | body
  deriving DecidableEq

/-- How a body ends: whether it leaves its connection unusable, and what it fails with. -/
structure BodyEnd where
  invalidates : Bool
  failure : Option Failure

namespace Link

/-- The level at which every statement is committed by itself. -/
def autocommit : String := "AUTOCOMMIT"

/-- A connection to the store. Its driver does not report the autocommit level. -/
def store (autocommitting : Bool) : Link :=
  ⟨if autocommitting then some autocommit else none, .level "SERIALIZABLE", "SERIALIZABLE"⟩

/-- The driver's answer; an error of its own is a fault of the database. -/
def reported (l : Link) : Except Failure String :=
  match l.report with
  | .level name => .ok name
  | .driverError => .error (.database .operational)
  | .failed f => .error f

/-- The level in force, and the calls made to find it: not every driver reports a level that was set, so
a level set for the connection comes first. -/
def initialLevel (l : Link) : List LinkCall × Except Failure String :=
  match l.option with
  | some level => if level = "" then ([.askDriver], l.reported) else ([], .ok level)
  | none => ([.askDriver], l.reported)

def bodyLevel (l : Link) (initial : String) : String := if initial = autocommit then l.default else initial

/-- Runs a body outside of the autocommit level: the calls made, and the failure that comes out. The level is
put back however the body ends, unless the connection is unusable then. -/
def manualCommit (l : Link) (b : BodyEnd) : List LinkCall × Option Failure :=
  match l.initialLevel with
  | (calls, .error f) => (calls, some f)
  | (calls, .ok level) =>
    let switched := level = autocommit
    (calls ++ (if switched then [.setLevel l.default] else []) ++ [.body] ++
      (if switched ∧ b.invalidates = false then [.setLevel level] else []), b.failure)

/-- The level in force after a row of calls. -/
def levelAfter (level : String) (calls : List LinkCall) : String :=
  calls.foldl (fun level c => match c with | .setLevel l => l | _ => level) level

theorem bodyLevel_ne_autocommit {l : Link} (h : l.default ≠ autocommit) (level : String) :
    l.bodyLevel level ≠ autocommit := by
  unfold bodyLevel
  split
  · exact h
  · assumption

end Link

end FeedLedger
