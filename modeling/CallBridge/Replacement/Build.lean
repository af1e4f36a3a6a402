import CallBridge.Json.Printer
import CallBridge.Pattern.Shape
import CallBridge.Script.Parser.Module

/-!
# Building calls

A replacement is a call of the platform under a configured name. A name that is a dotted path is
built as such; any other name is read together with the arguments as the text of an expression, in
which two names stand for the parts taken over from the replaced call. Built nodes have no span;
only the call and its leading name stand where the replaced call stood.
-/

namespace CallBridge.Replacement

open Json Number Pattern Script Text

/-! ### Nodes without a span -/

def bare (k : Kind) (children : List Tree) : Tree := .node k Span.none children

def stringNode (s : String) : Tree := bare (.string ⟨s, false⟩) []

def referenceNode (name : String) : Tree := bare (.reference name) []

def callNode (callee : Tree) (arguments : List Tree) : Tree :=
  bare (.call false) (callee :: arguments)

/-- A number with its sign as an operator. -/
def numberNode (negative : Bool) (x : Magnitude) : Tree :=
  let n := bare (.number x) []
  if negative then bare (.unary .negate) [n] else n

def propertyNode (key value : Tree) : Tree := bare (.property .init false) [key, value]

mutual

/-- The literal of a value. -/
def literalNode : Value → Tree
  | .null => bare .null []
  | .bool b => bare (.boolean b) []
  | .number (.int n) => numberNode (n < 0) (.ofNat n.natAbs)
  | .number (.real x) => numberNode x.negative x.magnitude
  | .string s => stringNode s
  | .array items => bare .array (literalItems items)
  | .object fields => bare .object (literalFields fields)

def literalItems : List Value → List Tree
  | [] => []
  | v :: rest => literalNode v :: literalItems rest

def literalFields : List (String × Value) → List Tree
  | [] => []
  | (k, v) :: rest => propertyNode (stringNode k) (literalNode v) :: literalFields rest

end

/-! ### Names -/

/-- The name that stands for a handler in the text of a replacement. -/
def handlerHole : String := "__ktn_handler"

/-- The name that stands for a body in the text of a replacement. -/
def bodyHole : String := "__ktn_body"

/-- What stands in for the names in the text of a replacement. -/
structure Holes where
  handler : Option Tree
  body : Option Tree

def Holes.get? (h : Holes) (name : String) : Option Tree :=
  if name = handlerHole then h.handler else if name = bodyHole then h.body else none

/-- An expression with its holes filled and all spans of its own forgotten. -/
def fill (h : Holes) : Tree → Tree :=
  Tree.fold fun k _ cs =>
    match k with
    | .reference name => (h.get? name).getD (bare k [])
    | _ => bare k (cs.map Prod.snd)

def isIdentifier (cs : List Char) : Bool :=
  match cs with
  | c :: rest => isIdentifierStart c && rest.all isIdentifierPart
  | [] => false

/-- The parts of a name that is a dotted path from a variable. -/
def dottedPath? (name : String) : Option (String × List String) :=
  let parts := name.toList.splitOn '.'
  if !parts.all isIdentifier then none
  else
    match parts.map String.ofList with
    | first :: members =>
      if isKeyword first || first == handlerHole || first == bodyHole then none
      else some (first, members)
    | [] => none

/-- Members of a variable, one behind the other. -/
def pathNode (first : Tree) (members : List String) : Tree :=
  members.foldl (fun object m => bare (.member m false) [object]) first

/-! ### Calls -/

/-- Why a call cannot be replaced. -/
inductive Problem where
  | missingHandler (index : Nat)
  | missingBody
  /-- The text of the replacement cannot be read. -/
  | template (failure : Failure)
  deriving DecidableEq, Repr

def Problem.message : Problem → String
  | missingHandler index => "handler argument " ++ toString index ++ " is not an expression"
  | missingBody => "request body could not be located in the fetch init object"
  | template f => "replacement template failed to parse: " ++ f.problem.message

/-- Where the leading name of a replacement stands: from the start of the call to the end of its
callee. -/
def anchorSpan (c : Call) : Span := ⟨c.span.start, c.callee.span.stop⟩

/-- A callee whose leading name, if it has one, stands at a span. -/
def anchorLeading (s : Span) : Tree → Tree :=
  Tree.fold fun k own cs =>
    match k, cs with
    | .reference name, _ => .node (.reference name) s []
    | .member property optional, [(_, object)] => .node (.member property optional) own [object]
    | _, _ => .node k own (cs.map Prod.fst)

/-- A replacement that is a call stands where the replaced call stood. -/
def anchor (c : Call) (t : Tree) : Tree :=
  match t with
  | .node (.call optional) _ (callee :: arguments) =>
    .node (.call optional) c.span (anchorLeading (anchorSpan c) callee :: arguments)
  | t => t

/-- A call of the platform in place of a call, its arguments given as nodes and as text. -/
def invoke (name : String) (c : Call) (arguments : List Tree) (argumentsText : List Char)
    (holes : Holes) : Except Problem Tree :=
  match dottedPath? name with
  | some (first, members) =>
    let callee := pathNode (.node (.reference first) (anchorSpan c) []) members
    .ok (.node (.call false) c.span (callee :: arguments))
  | none =>
    match parseExpression (name.toList ++ '(' :: argumentsText ++ [')']) with
    | .ok t => .ok (anchor c (fill holes t))
    | .error f => .error (.template f)

end CallBridge.Replacement
