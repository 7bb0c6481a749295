import FeedLedger.Settings

namespace FeedLedger

inductive ConnectOptions
  /-- Options of the server, in the form of its command line. -/
  | server (options : String)
  /-- Seconds to wait for a locked file, which threads may share. -/
  | file (timeout : Binary64)
  | none
  deriving DecidableEq

/-- Bounds of the connection pool. -/
structure PoolOptions where
  size : Int
  maxOverflow : Int
  timeout : Binary64
  deriving DecidableEq

/-- The options a database is opened with. -/
structure EngineOptions where
  url : String
  echo : Bool
  connect : ConnectOptions
  pool : Option PoolOptions
  deriving DecidableEq

/-- A timeout with no double near it. -/
inductive EngineFault
  | timeoutTooLarge

namespace EngineFault

def message : EngineFault → String
  | timeoutTooLarge => "integer division result too large for a float"

end EngineFault

namespace EngineOptions

/-- Whether an address begins with the name of a kind of database. -/
def isOf (kind url : String) : Bool := kind.toList.isPrefixOf url.toList

def seconds (ms : Int) : Binary64 := Binary64.ofFraction (ms < 0) ms.natAbs 1000

/-- The driver's options for an address. -/
def connectOptions (url : String) (timeout : Int) : Except EngineFault ConnectOptions :=
  if isOf "postgresql" url then .ok (.server ("-c statement_timeout=" ++ Text.ofInt timeout))
  else if isOf "sqlite" url then
    if (seconds timeout).isFinite then .ok (.file (seconds timeout)) else .error .timeoutTooLarge
  else .ok .none

/-- The options for an address. Files are opened without a pool of bounded size. -/
def ofUrl (s : Settings) (url : String) (echo : Bool) : Except EngineFault EngineOptions :=
  (connectOptions url s.statementTimeout).map fun c =>
    ⟨url, echo, c,
      if isOf "sqlite" url then .none else some ⟨s.poolSize, s.maxOverflow, s.poolTimeout⟩⟩

def ofSettings (s : Settings) : Except EngineFault EngineOptions := ofUrl s s.databaseUrl s.databaseEcho

end EngineOptions

end FeedLedger
