import CallBridge.Script.Parser.State

/-!
# Names, keys, patterns and types

What a declaration or a parameter introduces, the keys of properties, the types of annotated
names, and the reading of an expression as the target of an assignment.
-/

namespace CallBridge.Script

namespace Parser

/-- A name that is introduced. -/
def bindingName : Parser Tree := do
  let start ← here
  let name ← variableName
  finish start (.binding name) []

/-! ### Keys -/

/-- The key of a property and whether it is computed. -/
def propertyKey (r : Rules) : Parser (Tree × Bool) := do
  let t ← current
  match t.lexeme with
  | .word name _ =>
    advance
    return (← finish t.span.start (.key name) [], false)
  | .privateName name =>
    advance
    return (← finish t.span.start (.privateKey name) [], false)
  | .string value _ =>
    advance
    return (← finish t.span.start (.string value) [], false)
  | .number value _ =>
    advance
    return (← finish t.span.start (.number value) [], false)
  | .bigint digits =>
    advance
    return (← finish t.span.start (.bigint digits) [], false)
  | .mark "[" =>
    advance
    let key ← within (fun c => { c with allowIn := true }) r.assignment
    expectMark "]"
    return (key, true)
  | _ => unexpected

/-! ### Types -/

/-- A dotted name. -/
def dottedName : Parser String := do
  let first ← anyWord
  let more ← repeatWhile (eatMark ".") anyWord
  return ".".intercalate (first :: more)

def simpleType (r : Rules) : Parser Tree := do
  let t ← current
  match t.lexeme with
  | .word _ _ =>
    let name ← dottedName
    if ← eatMark "<" then
      let arguments ← delimited ">" r.type
      expectMark ">"
      finish t.span.start (.typeName name) arguments
    else finish t.span.start (.typeName name) []
  | .string value _ =>
    advance
    finish t.span.start (.string value) []
  | .number value _ =>
    advance
    finish t.span.start (.number value) []
  | _ => unexpected

/-- A type with brackets of arrays behind it. -/
def arrayType (r : Rules) : Parser Tree := do
  let start ← here
  let first ← simpleType r
  growWhile (fun t => do
    if (← atMark "[") && (← nextIsMark "]") then
      advance
      advance
      return some (← finish start .typeArray [t])
    else return none) first

/-- A type, or several with bars between them. -/
def typeRule (r : Rules) : Parser Tree := do
  let start ← here
  let first ← arrayType r
  if ← atMark "|" then
    let more ← repeatWhile (eatMark "|") (arrayType r)
    finish start .typeUnion (first :: more)
  else return first

/-- A pattern with its type, where types may be written. -/
def annotated (r : Rules) (start : Nat) (pattern : Tree) : Parser Tree := do
  unless (← read).dialect.typed do return pattern
  let optional ← if (← atMark "?") then do
      advance
      pure true
    else pure false
  if ← eatMark ":" then
    let type ← r.type
    finish start (.typed optional) [pattern, type]
  else if optional then finish start (.typed true) [pattern, .absent]
  else return pattern

/-! ### Patterns -/

/-- A pattern and its default. -/
def patternWithDefault (r : Rules) : Parser Tree := do
  let start ← here
  let pattern ← annotated r start (← r.pattern)
  if ← eatMark "=" then
    let value ← within (fun c => { c with allowIn := true }) r.assignment
    finish start .withDefault [pattern, value]
  else return pattern

def restPattern (r : Rules) : Parser Tree := do
  let start ← here
  expectMark "..."
  let pattern ← annotated r start (← r.pattern)
  finish start .rest [pattern]

def arrayPatternItem (r : Rules) : Parser Tree := do
  if (← atMark ",") || (← atMark "]") then return .node .hole Span.none []
  else if ← atMark "..." then restPattern r
  else patternWithDefault r

def objectPatternItem (r : Rules) : Parser Tree := do
  if ← atMark "..." then restPattern r
  else
    let start ← here
    let t ← current
    let (key, computed) ← propertyKey r
    if ← eatMark ":" then
      let value ← patternWithDefault r
      finish start (.patternProperty false computed) [key, value]
    else
      match t.lexeme with
      | .word name escaped =>
        unless canName (← read) name escaped do failAt (.reservedWord name) start
        let binding := Tree.node (.binding name) t.span []
        if ← eatMark "=" then
          let value ← within (fun c => { c with allowIn := true }) r.assignment
          let pattern ← finish start .withDefault [binding, value]
          finish start (.patternProperty true false) [key, pattern]
        else finish start (.patternProperty true false) [key, binding]
      | _ => failExpected ":"

/-- What a declaration or a parameter introduces. -/
def patternRule (r : Rules) : Parser Tree := do
  let start ← here
  if ← eatMark "[" then
    let items ← delimited "]" (arrayPatternItem r)
    expectMark "]"
    finish start .arrayPattern items
  else if ← eatMark "\x7b" then
    let items ← delimited "\x7d" (objectPatternItem r)
    expectMark "\x7d"
    finish start .objectPattern items
  else bindingName

/-- Parameters in parentheses. -/
def parameters (r : Rules) : Parser Tree := do
  let start ← here
  expectMark "("
  let items ← delimited ")" (do if ← atMark "..." then restPattern r else patternWithDefault r)
  expectMark ")"
  finish start .parameters items

end Parser

/-! ### Targets -/

/-- A variable or member that can be assigned to, taken out of its parentheses. -/
def simpleTarget? (t : Tree) : Option Tree :=
  match t.unparen with
  | .node (.reference name) s _ => some (.node (.target name) s [])
  | .node (.member property false) s cs => some (.node (.member property false) s cs)
  | .node (.privateMember property false) s cs => some (.node (.privateMember property false) s cs)
  | .node (.index false) s cs => some (.node (.index false) s cs)
  | _ => none

/-- An expression read as the target of an assignment; none when it cannot be one. -/
def Tree.toTarget? : Tree → Option Tree :=
  fold fun k s cs =>
    let whole : Tree := .node k s (cs.map Prod.fst)
    match k, cs with
    | .object, cs => (cs.mapM Prod.snd).map (.node .objectTarget s)
    | .array, cs => (cs.mapM Prod.snd).map (.node .arrayTarget s)
    | .hole, _ => some whole
    | .spread, [(_, target)] => target.map fun t => .node .targetRest s [t]
    | .property .init computed, [(key, _), (_, value)] =>
      value.map fun v => .node (.targetProperty false computed) s [key, v]
    | .property .shorthand _, [(key, _), (_, value)] =>
      value.map fun v => .node (.targetProperty true false) s [key, v]
    | .shorthandDefault, [(.node (.key name) ks _, _), (value, _)] =>
      some (.node (.targetProperty true false) s
        [.node (.key name) ks [],
          .node .targetDefault s [.node (.target name) ks [], value]])
    | .assign .plain, [(target, _), (value, _)] => some (.node .targetDefault s [target, value])
    | _, _ => simpleTarget? whole

/-- Whether a target may stand on the left of an assignment: a default belongs inside patterns. -/
def Tree.isWholeTarget (t : Tree) : Bool :=
  match t.kind with
  | .targetDefault => false
  | _ => true

namespace Parser

/-- The target of a plain assignment. -/
def assignable (t : Tree) : Parser Tree :=
  match t.toTarget? with
  | some target => if target.isWholeTarget then return target else failAt .cannotAssign t.span.start
  | none => failAt .cannotAssign t.span.start

/-- The target of an assignment that reads it first. -/
def readable (t : Tree) : Parser Tree :=
  match simpleTarget? t with
  | some target => return target
  | none => failAt .cannotAssign t.span.start

end Parser

end CallBridge.Script
