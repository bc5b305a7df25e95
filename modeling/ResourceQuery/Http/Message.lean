import ResourceQuery.Http.Report
import ResourceQuery.Json.Writer
import ResourceQuery.Error

/-! # Messages

Requests and responses between a client and a server. Bodies are JSON; the body of a failure has its
code and its message, from which the other side puts the failure together again.
-/

namespace ResourceQuery

/-- A request. -/
structure HttpRequest where
  method : HttpMethod
  uri : String
  headers : List (String × String)
  body : Option String
  deriving DecidableEq

/-- A response. -/
structure HttpResponse where
  status : Nat
  headers : List (String × String)
  body : String
  deriving DecidableEq

/-- The content type of all bodies. -/
def jsonContentType : String := "application/json"

/-- Asks for what is at a URI. -/
def HttpRequest.fetch (uri : String) : HttpRequest :=
  ⟨.get, uri, [("Accept", jsonContentType)], none⟩

namespace HttpResponse

/-- Whether the status says that the request was answered. -/
def isSuccess (r : HttpResponse) : Bool :=
  200 ≤ r.status && r.status < 300

/-- A response with a document. -/
def ofJson (status : Nat) (json : Json) : HttpResponse :=
  ⟨status, [("Content-Type", jsonContentType)], json.compact⟩

/-- The document that tells of a failure. -/
def failureBody (e : Error) : Json :=
  .object [("code", .string e.code), ("message", .string e.bareMessage)]

/-- The response to a request that failed. -/
def ofError (e : Error) : HttpResponse :=
  ofJson e.status (failureBody e)

/-- The failure that a response tells of; a body that does not is its message. -/
def toError (r : HttpResponse) : Error :=
  match Report.parse? r.body with
  | some report => Error.ofReport report.code report.message r.status
  | none => .transport r.status r.body

end HttpResponse

end ResourceQuery
