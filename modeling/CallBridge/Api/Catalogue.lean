import CallBridge.Api.Basic
import CallBridge.Url.Query

/-!
# The API catalogue

The web routes for records and the platform calls they stand for. Query parameters become
parameters of the call; the body of a reading or deleting call is spread among them, that of a
writing call is the record.
-/

namespace CallBridge

open Json

namespace ApiCatalogue

def recordsPath : String := "/k/v1/records.json"

def recordPath : String := "/k/v1/record.json"

/-! ### Requests -/

/-- A request with the query of a URL for parameters. -/
def withQuery (path : String) (r : WebRequest) : PlatformRequest :=
  (Url.parameters r.url.toList).foldl (fun out e => out.set e.1 (.json e.2))
    (.empty path r.method.toUpper)

/-- Adds the fields of a body that is known, or the whole of one that is not. -/
def spreadBody (out : PlatformRequest) (body : Option RequestBody) : PlatformRequest :=
  match body with
  | some (.json (.object fields)) => fields.foldl (fun out f => out.set f.1 (.json f.2)) out
  | some .deferred => out.set spreadKey .spread
  | _ => out

def reading (path : String) (r : WebRequest) : PlatformRequest :=
  spreadBody (withQuery path r) r.body

def writing (r : WebRequest) : PlatformRequest :=
  match r.body with
  | some body => (withQuery recordPath r).set "record" body.toParam
  | none => withQuery recordPath r

/-- A list as it is, any other value as a list of one. -/
def asList : Value → Value
  | .array items => .array items
  | v => .array [v]

/-- Ids are sent as a list, even a single one. -/
def deleting (r : WebRequest) : PlatformRequest :=
  let out := withQuery recordsPath r
  let out :=
    match out.jsonParam? "ids" with
    | some ids => out.set "ids" (.json (asList ids))
    | none => out
  spreadBody out r.body

/-! ### Responses -/

/-- A natural of 64 bits with a possible plus sign. -/
def readCount? (s : String) : Option Nat :=
  let digits :=
    match s.toList with
    | '+' :: rest => rest
    | cs => cs
  (Url.readDigits? digits).filter (· < Nat.pow 2 64)

/-- A list of records with its total count as a number. -/
def countAsNumber (v : Value) : Value :=
  match v with
  | .object fields =>
    match ((Fields.get? "totalCount" fields).bind Value.string?).bind readCount? with
    | some n => .object (Fields.put "totalCount" (.nat n) fields)
    | none => v
  | _ => v

def recordsResponse (v : Value) : WebResponse := .ofValue (countAsNumber v)

/-! ### Entries -/

def assigned (call : String) : String := "const response = await " ++ call ++ ";"

def awaited (call : String) : String := "await " ++ call ++ ";"

/-- All default mappings, in the order they are registered. -/
def all : List ApiMapping :=
  [{ ApiMapping.ofRoute "records.get" "GET" "/api/records" recordsPath (reading recordsPath) with
      description := "Fetch records matching a query"
      transform := ⟨reading recordsPath, recordsResponse⟩
      usage :=
        ⟨assigned "fetch('/api/records?app=1&fields=title,description')",
          assigned ("kintone.api('/k/v1/records.json', 'GET', " ++
            "\x7b app: 1, fields: ['title', 'description'] \x7d)")⟩ },
    { ApiMapping.ofRoute "record.get" "GET" "/api/record" recordPath (reading recordPath) with
      description := "Fetch a single record"
      usage :=
        ⟨assigned "fetch('/api/record?app=1&id=5')",
          assigned "kintone.api('/k/v1/record.json', 'GET', \x7b app: 1, id: 5 \x7d)"⟩ },
    { ApiMapping.ofRoute "record.post" "POST" "/api/record" recordPath writing with
      description := "Create a record"
      usage :=
        ⟨awaited ("fetch('/api/record?app=1', " ++
            "\x7b method: 'POST', body: JSON.stringify(record) \x7d)"),
          awaited ("kintone.api('/k/v1/record.json', 'POST', " ++
            "\x7b app: 1, record: record \x7d)")⟩ },
    { ApiMapping.ofRoute "record.put" "PUT" "/api/record" recordPath writing with
      description := "Update a record"
      usage :=
        ⟨awaited ("fetch('/api/record?app=1&id=5', " ++
            "\x7b method: 'PUT', body: JSON.stringify(changes) \x7d)"),
          awaited ("kintone.api('/k/v1/record.json', 'PUT', " ++
            "\x7b app: 1, id: 5, record: changes \x7d)")⟩ },
    { ApiMapping.ofRoute "record.delete" "DELETE" "/api/record" recordsPath deleting with
      description := "Delete records by id"
      usage :=
        ⟨awaited "fetch('/api/record?app=1&ids=123,124', \x7b method: 'DELETE' \x7d)",
          awaited ("kintone.api('/k/v1/records.json', 'DELETE', " ++
            "\x7b app: 1, ids: [123, 124] \x7d)")⟩ }]

end ApiCatalogue

end CallBridge
