import CallBridge.Script.Tree

/-!
# Shapes of calls

What can be read off a call without running it: the dotted name of its callee, arguments that are
literals, and the properties of an object literal. Parentheses never count.
-/

namespace CallBridge.Pattern

open Script

/-- A call with its own parts. -/
structure Call where
  span : Span
  callee : Tree
  arguments : List Tree

/-- A node read as a call; the element of an optional chain is none. -/
def Call.ofTree? : Tree → Option Call
  | .node (.call _) span (callee :: arguments) => some ⟨span, callee, arguments⟩
  | _ => none

/-- An argument that is no spread. -/
def plain? (t : Tree) : Option Tree := if t.kind == .spread then none else some t

/-- The dotted name of a variable or of a member of a named object. -/
def calleePath? : Tree → Option String :=
  Tree.fold fun k _ cs =>
    match k, cs with
    | .reference name, _ => some name
    | .member property _, [(_, object)] => object.map fun o => o ++ "." ++ property
    | .paren, [(_, inside)] => inside
    | _, _ => none

/-- The text of a string or of a template without substitutions. -/
def literal? (t : Tree) : Option String :=
  match t.unparen with
  | .node (.string value) _ _ => some value.value
  | .node (.template quasis) _ [] => (quasis.head?.bind (·.cooked)).map (·.value)
  | _ => none

namespace Call

/-- An argument, unless it is a spread. -/
def argument? (c : Call) (i : Nat) : Option Tree := c.arguments[i]?.bind plain?

def literalArgument? (c : Call) (i : Nat) : Option String := (c.argument? i).bind literal?

end Call

/-! ### Object literals -/

/-- The name of a static key. -/
def keyName? (t : Tree) : Option String :=
  match t.kind with
  | .key name => some name
  | .string value => some value.value
  | _ => none

/-- A property with a static key and a value of its own. -/
def entry? : Tree → Option (String × Tree)
  | .node (.property form false) _ [key, value] =>
    match form with
    | .getter | .setter => none
    | _ => (keyName? key).map fun name => (name, value)
  | _ => none

/-- The options of a call. -/
inductive Options where
  | absent
  /-- The properties in the order they are written. -/
  | entries (es : List (String × Tree))
  /-- Not an object literal, or one with properties that cannot be read. -/
  | opaqueValue

/-- The options in the second argument. -/
def Call.options (c : Call) : Options :=
  match c.arguments[1]? with
  | none => .absent
  | some t =>
    match (plain? t).map Tree.unparen with
    | some (.node .object _ properties) =>
      match properties.mapM entry? with
      | some es => .entries es
      | none => .opaqueValue
    | _ => .opaqueValue

/-- The value of an option, the first of that name. -/
def Call.option? (c : Call) (name : String) : Option Tree :=
  match c.options with
  | .entries es => es.lookup name
  | _ => none

/-- The value that a `JSON.stringify` call writes. -/
def stringified? (t : Tree) : Option Tree :=
  (Call.ofTree? t.unparen).bind fun c =>
    if calleePath? c.callee == some "JSON.stringify" then c.argument? 0 else none

end CallBridge.Pattern
