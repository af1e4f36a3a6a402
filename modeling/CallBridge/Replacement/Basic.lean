import CallBridge.Api.Basic
import CallBridge.Config.Basic
import CallBridge.Event.Basic
import CallBridge.Pattern.Basic
import CallBridge.Replacement.Build

/-!
# Replacements

An event registration becomes a platform registration whose handler calls the handler of the page
and returns the event. A fetch becomes an API call with path, method and parameters.
-/

namespace CallBridge.Replacement

open Json Pattern Script Text

/-! ### The parameter of a handler -/

/-- All names that an expression refers to. -/
def references : Tree → List String :=
  Tree.fold fun k _ cs =>
    let own :=
      match k with
      | .reference name | .target name => [name]
      | .typeName name => [String.ofList (name.toList.takeWhile (· != '.'))]
      | _ => []
    own ++ cs.flatMap Prod.snd

/-- The names to fall back on, one for each number. -/
def fallbackName (n : Nat) : String :=
  if n = 0 then "__ktnEvent" else "__ktnEvent" ++ toString n

/-- The first fallback name that is not taken. -/
def freshName (taken : List String) : String :=
  let names := (List.range (taken.length + 1)).map fallbackName
  (names.find? fun n => !taken.contains n).getD (fallbackName taken.length)

/-- The parameter of the wrapper around a handler, which the handler must not refer to. -/
def eventParameter (handler : Tree) : String :=
  let taken := references handler
  if taken.contains "event" then freshName taken else "event"

/-! ### Events -/

/-- The function `(p) => { handler(p); return p; }`. -/
def wrapperNode (p : String) (handler : Tree) : Tree :=
  bare (.arrow false)
    [bare .parameters [bare (.binding p) []],
      bare .body
        [bare .expressionStatement [callNode handler [referenceNode p]],
          bare .returning [referenceNode p]]]

def wrapperText (p : String) : String :=
  "(" ++ p ++ ") => \x7b " ++ handlerHole ++ "(" ++ p ++ "); return " ++ p ++ "; \x7d"

def ofEvent (platform : PlatformCalls) (c : Call) (handlerIndex : Nat)
    (eventName : String) : Except Problem Tree :=
  match c.argument? handlerIndex with
  | none => .error (.missingHandler handlerIndex)
  | some handler =>
    let p := eventParameter handler
    invoke platform.eventRegistration c [stringNode eventName, wrapperNode p handler]
      (quoteJson eventName.toList ++ ", ".toList ++ (wrapperText p).toList) ⟨some handler, none⟩

/-! ### Fetches -/

/-- The body that a fetch carries: what it writes as JSON, or the text itself. -/
def bodyExpression? (c : Call) : BodySpec → Except Problem (Option Tree)
  | .absent => .ok none
  | .stringified =>
    match (c.option? "body").bind stringified? with
    | some t => .ok (some t)
    | none => .error .missingBody
  | .raw =>
    match c.option? "body" with
    | some t => .ok (some t)
    | none => .error .missingBody

/-- Whether a key may stand without quotes. -/
def isPlainKey (key : String) : Bool :=
  let isStart (c : Char) : Bool := c.isAlpha || c == '_' || c == '$'
  match key.toList with
  | c :: rest => isStart c && rest.all fun d => isStart d || d.isDigit
  | [] => false

def keyNode (key : String) : Tree :=
  if isPlainKey key then bare (.key key) [] else stringNode key

/-- A parameter of an API call, the body given as an expression. -/
def paramNode (body : Tree) : String × Param → Tree
  | (key, .json v) => propertyNode (keyNode key) (literalNode v)
  | (key, .body) => propertyNode (keyNode key) body
  | (_, .spread) => bare .spread [body]

def paramText (body : List Char) : String × Param → List Char
  | (key, p) =>
    let named (value : List Char) : List Char :=
      (if isPlainKey key then key.toList else quoteJson key.toList) ++ ':' :: ' ' :: value
    match p with
    | .json v => named v.write
    | .body => named body
    | .spread => "...".toList ++ body

/-- The body of an API call: a text is read as JSON when the call is made. -/
def bodyNode (spec : BodySpec) (body : Option Tree) : Tree :=
  let inside := body.getD (referenceNode bodyHole)
  match spec with
  | .raw => callNode (bare (.member "parse" false) [referenceNode "JSON"]) [inside]
  | _ => inside

def bodyText (spec : BodySpec) : List Char :=
  match spec with
  | .raw => ("JSON.parse(" ++ bodyHole ++ ")").toList
  | _ => bodyHole.toList

/-- The texts of parameters with commas between them, in braces. -/
def paramsText (body : List Char) (params : List (String × Param)) : List Char :=
  "\x7b ".toList ++ ", ".toList.intercalate (params.map (paramText body)) ++ " \x7d".toList

def ofFetch (platform : PlatformCalls) (c : Call) (url : String) (spec : BodySpec)
    (method : String) (mapping : ApiMapping) : Except Problem Tree := do
  let body ← bodyExpression? c spec
  let r := mapping.transform.request ⟨url, method, body.map fun _ => .deferred⟩
  let params := bare .object (r.params.map (paramNode (bodyNode spec body)))
  invoke platform.apiInvocation c [stringNode r.path, stringNode r.method, params]
    (quoteJson r.path.toList ++ ", ".toList ++ quoteJson r.method.toList ++ ", ".toList ++
      paramsText (bodyText spec) r.params)
    ⟨none, body⟩

end CallBridge.Replacement
