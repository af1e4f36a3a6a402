import CallBridge.Collection.Ordered
import CallBridge.Json.Printer
import CallBridge.Mapping.Usage

/-!
# Requests

A page sends web requests; the platform takes requests with a path, a method and an ordered list of
parameters. An `ApiMapping` claims the web requests under a path prefix and says how their values
are carried over. A body that is not known yet is carried as a parameter of its own kind, nested
under a key or spread among the others.
-/

namespace CallBridge

open Collection Json

/-- The body of a web request. -/
inductive RequestBody where
  | json (v : Value)
  /-- An expression whose value is not known yet. -/
  | deferred
  deriving Repr

structure WebRequest where
  url : String
  method : String
  body : Option RequestBody
  deriving Repr

/-- The value of a parameter. -/
inductive Param where
  | json (v : Value)
  /-- The body of the request. -/
  | body
  /-- The fields of the body among the parameters. -/
  | spread
  deriving Repr

def RequestBody.toParam : RequestBody → Param
  | json v => .json v
  | deferred => .body

/-- The key that a spread body is kept under. -/
def spreadKey : String := "..."

structure PlatformRequest where
  path : String
  method : String
  params : Ordered String Param
  deriving Repr

namespace PlatformRequest

/-- A request without parameters. -/
def empty (path method : String) : PlatformRequest := ⟨path, method, []⟩

/-- Gives a parameter a value; a known one keeps its place. -/
def set (r : PlatformRequest) (key : String) (p : Param) : PlatformRequest :=
  { r with params := r.params.set key p }

def param? (r : PlatformRequest) (key : String) : Option Param := r.params.get? key

/-- The value of a parameter that has one already. -/
def jsonParam? (r : PlatformRequest) (key : String) : Option Value :=
  match r.param? key with
  | some (.json v) => some v
  | _ => none

theorem param?_set (r : PlatformRequest) (key key' : String) (p : Param) :
    (r.set key p).param? key' = if key' = key then some p else r.param? key' :=
  Ordered.get?_set ..

end PlatformRequest

structure WebResponse where
  status : Nat
  contentType : String
  body : String
  deriving DecidableEq, Repr

/-- A successful answer with a value for a body. -/
def WebResponse.ofValue (v : Value) : WebResponse := ⟨200, "application/json", v.render⟩

/-- How the values of a call are carried to the other side. -/
structure ApiTransform where
  request : WebRequest → PlatformRequest
  response : Value → WebResponse

structure ApiMapping where
  platformName : String
  /-- The web call that is replaced. -/
  webMethod : String
  httpMethod : String
  /-- The paths that the mapping claims, cut between segments. -/
  pathPrefix : String
  platformPath : String
  description : String
  transform : ApiTransform
  usage : Usage

namespace ApiMapping

/-- A path prefix with a slash in front and none behind; slashes alone are no prefix. -/
def normalizePrefix (p : String) : String :=
  match (p.toList.reverse.dropWhile (· == '/')).reverse with
  | [] => ""
  | '/' :: rest => String.ofList ('/' :: rest)
  | cs => String.ofList ('/' :: cs)

/-- A mapping of a route; methods are in upper case. -/
def ofRoute (platformName httpMethod pathPrefix platformPath : String)
    (request : WebRequest → PlatformRequest) : ApiMapping :=
  { platformName
    webMethod := "fetch"
    httpMethod := httpMethod.toUpper
    pathPrefix := normalizePrefix pathPrefix
    platformPath
    description := ""
    transform := ⟨request, .ofValue⟩
    usage := ⟨"", ""⟩ }

end ApiMapping

end CallBridge
