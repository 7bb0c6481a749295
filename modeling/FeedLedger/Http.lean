import FeedLedger.Http.Target
import FeedLedger.Ledger.Basic

namespace FeedLedger.Http

open Text

inductive Route
  | health
  | offsets
  | offset (stream : String)
  | metrics
  /-- A page that describes the service. What is on it is not modelled. -/
  | page
  deriving DecidableEq

inductive Body
  | empty
  | detail (message : String)
  /-- Whether the store can be reached, and the number of streams with an offset. -/
  | health (reached : Bool) (streams : Option Nat)
  | offsets (entries : List (String × Int))
  | offset (stream : String) (offset : Int)
  deriving DecidableEq

structure Response where
  status : Nat
  body : Body
  deriving DecidableEq

namespace Route

def offsetsPath : List Char := "/offsets".toList

def pagePaths : List (List Char) :=
  ["/openapi.json".toList, "/docs".toList, "/docs/oauth2-redirect".toList, "/redoc".toList]

/-- The route of a decoded path. A stream's name is one segment, so it holds no slash. -/
def ofPath? (path : List Char) : Option Route :=
  let fixed := withoutLineFeed path
  if fixed = "/health".toList then some .health
  else if fixed = offsetsPath then some .offsets
  else if fixed = "/metrics".toList then some .metrics
  else if pagePaths.contains fixed then some .page
  else if (offsetsPath ++ ['/']).isPrefixOf path then
    let stream := path.drop (offsetsPath.length + 1)
    if stream ≠ [] ∧ '/' ∉ stream then some (.offset (String.ofList stream)) else none
  else none

/-- Whether a path is that of a route but for slashes at its end. -/
def isRedirected (path : List Char) : Bool :=
  let stem := (path.reverse.dropWhile (· = '/')).reverse
  stem ≠ path && path ≠ ['/'] && (ofPath? stem).isSome

/-- Whether a route answers a method. Only pages answer `HEAD`. -/
def allows (method : String) : Route → Bool
  | page => method = "GET" || method = "HEAD"
  | _ => method = "GET"

end Route

/-- Why a request gets no response. -/
inductive RequestFault
  | target (fault : TargetFault)
  /-- What answering it fails with. -/
  | failed (failure : Failure)

def health (outages : Outages) (l : Ledger) : Except Failure Response :=
  let report (reached : Bool) (streams : Option Nat) : Except Failure Response :=
    .ok ⟨200, .health reached streams⟩
  let streams := (l.store.rows Catalog.offsetsTable).length
  match outages.at? .connect, outages.at? .rollback with
  | some f, _ => if f.isInterrupt then .error f else report false none
  | none, some f => if f.isInterrupt then .error f else report false (some streams)
  | none, none => report true (some streams)

def get (outages : Outages) (l : Ledger) : Route → Except Failure Response
  | .health => health outages l
  | .offsets =>
    (Ledger.readStore outages .listOffsets (·.offsets.mapError .storedOffset) l).map fun entries =>
      ⟨200, .offsets entries⟩
  | .offset stream =>
    (Ledger.readStore outages .get (Ledger.lookUp (.text stream)) l).map fun
      | some n => ⟨200, .offset stream n⟩
      | none => ⟨404, .detail ("No offset stored for stream " ++ stream)⟩
  | .metrics | .page => .ok ⟨200, .empty⟩

/-- A refusal; it has no body where only the head is asked for. -/
def refusal (method : String) (status : Nat) (message : String) : Response :=
  ⟨status, if method = "HEAD" then .empty else .detail message⟩

def answer (outages : Outages) (method : String) (path : List Char) (l : Ledger) : Except Failure Response :=
  match Route.ofPath? path with
  | some route =>
    if route.allows method then get outages l route else .ok (refusal method 405 "Method Not Allowed")
  | none =>
    if Route.isRedirected path then .ok ⟨307, .empty⟩ else .ok (refusal method 404 "Not Found")

/-- Answers a request. The name of a method is read in any case. -/
def respond (outages : Outages) (method target : String) (l : Ledger) : Except RequestFault Response :=
  match decodedPath target with
  | .error f => .error (.target f)
  | .ok path => (answer outages method.toUpper path l).mapError .failed

end FeedLedger.Http
