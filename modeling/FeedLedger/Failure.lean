import FeedLedger.Record
import FeedLedger.Replay

namespace FeedLedger

/-- What the database fails with. Its own words are not kept, but for faults of no particular kind. -/
inductive DatabaseFault
  /-- The connection or the statement cannot be used. -/
  | operational
  /-- A row breaks a constraint of its table. -/
  | integrity
  /-- A parameter is absent, or its column's type does not take it. -/
  | parameter
  /-- The database has no type for a value, or does not read a statement with this character. -/
  | unsupported
  | other (message : String)
  deriving DecidableEq

/-- What a database fault interrupted. -/
inductive StoreAction
  | persistBatch (stream : Value) (offset : Int)
  | storeOffset (stream : Value) (offset : Int)
  | readOffset (stream : Value)
  | listOffsets

namespace StoreAction

def stream? : StoreAction → Option Value
  | persistBatch stream _ | storeOffset stream _ | readOffset stream => some stream
  | listOffsets => none

def offset? : StoreAction → Option Int
  | persistBatch _ offset | storeOffset _ offset => some offset
  | _ => none

/-- The message for an interrupted action, with the database's words at its end. -/
def message (cause : String) : StoreAction → String
  | persistBatch stream offset =>
    "Failed to persist batch for stream " ++ stream.toLiteral ++ " at offset " ++ Text.ofInt offset ++ ": " ++ cause
  | storeOffset stream _ => "Failed to store offset for stream " ++ stream.toLiteral ++ ": " ++ cause
  | readOffset stream => "Failed to read offset for stream " ++ stream.toLiteral ++ ": " ++ cause
  | listOffsets => "Failed to list stream offsets: " ++ cause

end StoreAction

/-- Why a stored cell is no offset. -/
inductive OffsetFault
  /-- A text that spells no integer. -/
  | notInteger (given : String)
  | infinite
  deriving DecidableEq

namespace OffsetFault

def message : OffsetFault → String
  | notInteger given => "invalid literal for int() with base 10: " ++ Text.quoteStart given
  | infinite => "cannot convert float infinity to integer"

end OffsetFault

/-- Kinds of failures that are raised from outside: by the source of the records or by the connection. -/
inductive RaisedKind
  | runtime
  | value
  | key
  | interrupt
  deriving DecidableEq

/-- Everything a call can fail with. -/
inductive Failure
  | emptyStream
  | invalidOffset (given : Value)
  | invalidChunkSize
  | invalidWorkerCount
  | unknownTable (name : String)
  | unknownColumn (name : String)
  | unsupportedDialect (name : String)
  | nothingToUpdate
  /-- A stream that cannot wait for its turn, because values of its kind cannot be looked up. -/
  | noTurn (kind : String)
  | storedOffset (fault : OffsetFault)
  | replay (fault : ReplayFault)
  | invalidRecord (faults : List RecordFault)
  /-- An integer beyond 64 bits; the database driver does not count it among the database's faults. -/
  | integerTooLarge
  | database (fault : DatabaseFault)
  | persistence (action : StoreAction) (cause : DatabaseFault)
  | raised (kind : RaisedKind) (message : String)

namespace Failure

/-- An interrupt stops the program; it says nothing about the batch. -/
def isInterrupt : Failure → Bool
  | raised .interrupt _ => true
  | _ => false

/-- The failure in words, where they are not the database's. `guide` is where record faults are explained. -/
def message? (guide : String) : Failure → Option String
  | emptyStream => some "stream_name must be a non-empty string"
  | invalidOffset given => some ("target_offset must be a non-negative integer, got " ++ given.toLiteral)
  | invalidChunkSize => some "chunk_size must be positive"
  | invalidWorkerCount => some "max_workers must be greater than 0"
  | unknownTable name | unknownColumn name => some (Text.quote name)
  | unsupportedDialect name => some ("Unsupported dialect for conflict-aware inserts: " ++ name)
  | nothingToUpdate => some "set parameter dictionary must not be empty"
  | noTurn kind => some ("unhashable type: '" ++ kind ++ "'")
  | storedOffset fault => some fault.message
  | replay fault => some fault.message
  | invalidRecord faults => some (RecordFault.report guide faults)
  | integerTooLarge => some "Python int too large to convert to SQLite INTEGER"
  | database (.other message) => some message
  | database _ | persistence .. => none
  | raised .key message => some (Text.quote message)
  | raised _ message => some message

/-- A database fault, told as a failure of the action it interrupted; other failures as they are. -/
def during (action : StoreAction) : Failure → Failure
  | database fault => persistence action fault
  | f => f

@[simp] theorem isInterrupt_during (action : StoreAction) (f : Failure) :
    (f.during action).isInterrupt = f.isInterrupt := by
  cases f <;> rfl

end Failure

end FeedLedger
