import FeedLedger.Keyed
import FeedLedger.Setting

namespace FeedLedger

structure Settings where
  projectName : String
  databaseUrl : String
  databaseEcho : Bool
  poolSize : Int
  maxOverflow : Int
  poolTimeout : Binary64
  statementTimeout : Int
  chunkSize : Int
  workers : Int
  logLevel : String
  logJson : Bool
  apiHost : String
  apiPort : Int
  deriving DecidableEq

namespace Settings

open Setting

abbrev Environment := List (String × String)

def setting {α : Type} (env : Environment) (read : String → Except SettingFault α) (name : String)
    (fallback : α) : Except SettingFault α :=
  match Keyed.get? name env with
  | some s => read s
  | none => .ok fallback

/-- The fault of a setting under its name, if it has one. -/
def fault {α : Type} (name : String) : Except SettingFault α → List (String × SettingFault)
  | .ok _ => []
  | .error f => [(name, f)]

def defaultPoolTimeout : Binary64 := Binary64.ofInt 30

/-- Reads the settings. All faults are reported, in the settings' order; names that are no setting's are
passed over. -/
def read (env : Environment) : Except (List (String × SettingFault)) Settings :=
  let url : Except SettingFault String :=
    match Keyed.get? "DATABASE_URL" env with
    | some s => .ok s
    | none => .error .missing
  let echo := setting env readBool "DB_ECHO" false
  let poolSize := setting env readInt "DB_POOL_SIZE" 5
  let maxOverflow := setting env readInt "DB_MAX_OVERFLOW" 5
  let poolTimeout := setting env readDouble "DB_POOL_TIMEOUT_SECONDS" defaultPoolTimeout
  let statementTimeout := setting env readInt "DB_STATEMENT_TIMEOUT_MS" 30000
  let chunkSize := setting env readInt "INGEST_CHUNK_SIZE" 1000
  let workers := setting env readInt "INGEST_WORKERS" 4
  let logJson := setting env readBool "LOG_JSON" true
  let apiPort := setting env readInt "API_PORT" 8000
  match url, echo, poolSize, maxOverflow, poolTimeout, statementTimeout, chunkSize, workers, logJson, apiPort with
  | .ok url, .ok echo, .ok poolSize, .ok maxOverflow, .ok poolTimeout, .ok statementTimeout, .ok chunkSize,
    .ok workers, .ok logJson, .ok apiPort =>
    .ok
      { projectName := (Keyed.get? "PROJECT_NAME" env).getD "market-ingest"
        databaseUrl := url
        databaseEcho := echo
        poolSize := poolSize
        maxOverflow := maxOverflow
        poolTimeout := poolTimeout
        statementTimeout := statementTimeout
        chunkSize := chunkSize
        workers := workers
        logLevel := (Keyed.get? "LOG_LEVEL" env).getD "INFO"
        logJson := logJson
        apiHost := (Keyed.get? "API_HOST" env).getD "0.0.0.0"
        apiPort := apiPort }
  | url, echo, poolSize, maxOverflow, poolTimeout, statementTimeout, chunkSize, workers, logJson, apiPort =>
    .error (fault "DATABASE_URL" url ++ fault "DB_ECHO" echo ++ fault "DB_POOL_SIZE" poolSize ++
      fault "DB_MAX_OVERFLOW" maxOverflow ++ fault "DB_POOL_TIMEOUT_SECONDS" poolTimeout ++
      fault "DB_STATEMENT_TIMEOUT_MS" statementTimeout ++ fault "INGEST_CHUNK_SIZE" chunkSize ++
      fault "INGEST_WORKERS" workers ++ fault "LOG_JSON" logJson ++ fault "API_PORT" apiPort)

end Settings

end FeedLedger
