import FeedLedger.Failure
import FeedLedger.Validation

namespace FeedLedger

/-- What names a batch: its stream and the offset it ends at. A stream is commonly named by a text. -/
structure BatchOrigin where
  stream : Value
  offset : Int

namespace BatchOrigin

def label (o : BatchOrigin) : String := o.stream.toWritten

end BatchOrigin

/-- What a batch was doing when it failed. -/
inductive BatchPhase
  | writing
  | offsetWriting
  deriving DecidableEq

namespace BatchPhase

def name : BatchPhase → String
  | writing => "writing"
  | offsetWriting => "offset_writing"

end BatchPhase

inductive EventLevel
  | debug
  | info
  | warning
  | error
  deriving DecidableEq

namespace EventLevel

def name : EventLevel → String
  | debug => "debug"
  | info => "info"
  | warning => "warning"
  | error => "error"

end EventLevel

inductive Event
  | chunkFlushed (table : String) (rows : Nat)
  | recordMalformed (batch : BatchOrigin) (record : Malformed)
  | recordsMalformed (batch : BatchOrigin) (counts : List (String × Nat))
  | ingestCommitted (batch : BatchOrigin) (rows : Nat) (tables : List String)
  | ingestRolledBack (batch : BatchOrigin) (failedIn : BatchPhase) (cause : Failure)
  | rollbackFailed (batch : BatchOrigin) (fault : DatabaseFault)
  | offsetStored (stream : Value) (offset : Int)
  | offsetLookupFailed (stream : Value) (cause : Failure)
  | resumeFromFirst (stream : Value)
  | resumeFromOffset (stream : Value) (offset : Int)
  | tablesCreated (count : Nat) (dropped : Bool)

namespace Event

def name : Event → String
  | chunkFlushed .. => "chunk_flushed"
  | recordMalformed .. => "record_malformed"
  | recordsMalformed .. => "records_malformed"
  | ingestCommitted .. => "ingest_committed"
  | ingestRolledBack .. => "ingest_rolled_back"
  | rollbackFailed .. => "rollback_failed"
  | offsetStored .. => "offset_stored"
  | offsetLookupFailed .. => "offset_lookup_failed"
  | resumeFromFirst _ => "resume_from_first"
  | resumeFromOffset .. => "resume_from_offset"
  | tablesCreated .. => "tables_created"

def level : Event → EventLevel
  | chunkFlushed .. | recordMalformed .. => .debug
  | recordsMalformed .. | offsetLookupFailed .. => .warning
  | ingestRolledBack .. | rollbackFailed .. => .error
  | ingestCommitted .. | offsetStored .. | resumeFromFirst _ | resumeFromOffset .. | tablesCreated .. => .info

end Event

end FeedLedger
