import CallBridge.Script.Printer.Statement

/-!
# The printed text of a script

`Tree.print` is the text of a tree with its marks: one fold that picks the layout of each kind.
-/

namespace CallBridge.Script

namespace Printer

/-! ### Imports and exports -/

/-- A name of a module may be any text in quotes. -/
def moduleName : ModuleName → Doc
  | .name s => word s
  | .quoted t => chars (quoteString t)

/-- `a as b`, or `a` where both names are one. -/
def renamed (first second : ModuleName) : Doc :=
  if first = second then moduleName first
  else seq [moduleName first, text " as ", moduleName second]

/-- Names in braces, with blanks inside. -/
def listed (items : List Part) : Doc :=
  if items.isEmpty then text "\x7b\x7d"
  else seq [text "\x7b ", commas (items.map (·.whole)), text " \x7d"]

/-- The file of an import or export ends the line. -/
def sourceString (t : Text) : Doc := seq [chars (quoteString t), text ";\n"]

/-- Whether an import stands in the braces. -/
def isNamedImport (p : Part) : Bool :=
  match p.tree.kind with
  | .importNamed _ _ => true
  | _ => false

/-- Default name and namespace in front, named imports in braces. -/
def importClause (items : List Part) : Doc :=
  let (named, others) := items.partition isNamedImport
  let list := if named.isEmpty && !others.isEmpty then [] else [listed named]
  commas (others.map (·.whole) ++ list)

/-- Without names the file stands alone. -/
def importDeclaration (source : Text) (hasList : Bool) (s : Span) (items : List Part) : Doc :=
  let clause := onlyIf hasList (seq [importClause items, text " from "])
  seq [commentsAt s.start, indent, word "import", text " ", clause, sourceString source]

/-- Exports of names, possibly those of another file. -/
def exportList (source : Option Text) (s : Span) (items : List Part) : Doc :=
  let ending := source.elim (text ";\n") fun t => seq [text " from ", sourceString t]
  seq [commentsAt s.start, indent, text "export ", listed items, ending]

/-- An export of all that a file exports, possibly under one name. -/
def exportAll (source : Text) (name : Option ModuleName) (s : Span) : Doc :=
  let asName := name.elim nothing fun n => seq [text " as ", moduleName n]
  seq [commentsAt s.start, indent, text "export *", asName, text " from ", sourceString source]

/-- A declaration behind `export`, on the same line. -/
def exportDeclaration (s : Span) (item : Part) : Doc :=
  seq [commentsAt s.start, indent, text "export ",
    item.within { Ctx.statement with role := .tail }]

/-- A declaration, or an expression with a semicolon. Where an expression starts is remembered: a
function or a class that comes first there needs parentheses. -/
def exportDefault (s : Span) (value : Part) : Doc :=
  let inside : Doc :=
    match value.tree.kind with
    | .function ⟨_, _, true⟩ => value.within { Ctx.statement with role := .tail }
    | .classLike true => value.within { Ctx.statement with role := .tail }
    | _ => fun o =>
      seq [value.operand Level.comma, text ";\n"] { o with defaultStart := o.size }
  seq [commentsAt s.start, indent, text "export default ", inside]

/-- The line for the shell, the statements and the comments behind them. -/
def program (hashbang : Option String) (s : Span) (items : List Part) : Doc :=
  let first := hashbang.elim nothing fun line => seq [text line, newline]
  seq [first, bodyLines items, commentsAt s.stop]

/-! ### All kinds -/

/-- The layout of a node. -/
def layout (k : Kind) (s : Span) (parts : List Part) : Writer := fun c =>
  match k, parts with
  | .reference name, _ => reference name s c
  | .target name, _ => reference name s c
  | .binding name, _ => binding name
  | .key name, _ => word name
  | .privateKey name, _ => text ("#" ++ name)
  | .string value, _ => chars (quoteString value)
  | .number value, _ => number value
  | .bigint digits, _ => word (digits ++ "n")
  | .boolean b, _ => word (if b then "true" else "false")
  | .null, _ => word "null"
  | .template quasis, values => template quasis values
  | .tagged, [tag, quasi] => seq [tag.operand Level.postfixed, quasi.whole]
  | .this, _ => word "this"
  | .super, _ => word "super"
  | .metaProperty object property, _ => word (object ++ "." ++ property)
  | .array, items => array items
  | .spread, [value] => spread value
  | .object, items => object items
  | .property form computed, [k, value] => property form computed k value
  | .function form, [name, params, type, inside] => function form s name params type inside c
  | .arrow isAsync, [params, inside] => arrow isAsync params inside c
  | .parameters, items => commas (items.map (·.operand Level.comma))
  | .body, items => body items
  | .classLike isDeclaration, name :: parent :: members =>
    classLike isDeclaration s name parent members c
  | .method form isStatic computed, [k, value] => methodLine form isStatic computed k value
  | .field isStatic computed, [k, value] => fieldLine isStatic computed k value
  | .staticBlock, items => staticBlock items
  | .call optional, callee :: items => call callee items optional c
  | .chainCall optional, callee :: items => call callee items optional c
  | .new, callee :: items => new callee items c
  | .member name optional, [object] => member object name optional c
  | .privateMember name optional, [object] => member object ("#" ++ name) optional c
  | .index optional, [object, i] => index object i optional c
  | .chain, [element] => chain element c
  | .unary op, [operand] => unary op operand c
  | .update op isPrefix, [target] => update op isPrefix target c
  | .binary op, [left, right] => binary op left right c
  | .assign op, [target, value] => assign op target value c
  | .conditional, [test, yes, no] => conditional test yes no c
  | .sequence, items => sequence items c
  | .await, [value] => await value c
  | .yield delegate, values => yield delegate values.head? c
  | .importCall, items => importCall items c
  | .paren, [inside] => paren inside c
  | .asType, [value, type] => asType value type c
  | .objectPattern, items => objectPattern items
  | .arrayPattern, items => arrayPattern items
  | .patternProperty _ computed, [k, value] => patternProperty computed k value
  | .withDefault, [pattern, value] => withDefault pattern value
  | .rest, [pattern] => rest pattern
  | .typed optional, [pattern, type] => typed optional pattern type
  | .objectTarget, items => objectTarget items
  | .arrayTarget, items => arrayPattern items
  | .targetProperty shorthand computed, [k, value] => targetProperty shorthand computed k value
  | .targetDefault, [target, value] => withDefault target value
  | .targetRest, [target] => rest target
  | .typeName name, arguments => typeName name arguments
  | .typeLiteral t, _ => word t
  | .typeArray, [item] => seq [item.whole, text "[]"]
  | .typeUnion, items => typeUnion items
  | .expressionStatement, [value] => expressionStatement s value
  | .directive raw, _ => directive raw
  | .block, items => block s items c
  | .empty, _ => statementLine s c (text ";\n")
  | .debugger, _ => simple s "debugger" nothing c
  | .variableList kind, items => variableList kind s items c
  | .declarator, [pattern, value] => declarator pattern value c
  | .ifElse, [test, yes, no] => ifElse s test yes no c
  | .forLoop, [start, test, step, inside] => forLoop s start test step inside c
  | .forIn, [left, object, inside] => forEach s "for" "in" Level.lowest left object inside c
  | .forOf isAwait, [left, object, inside] =>
    forEach s (if isAwait then "for await" else "for") "of" Level.comma left object inside c
  | .whileLoop, [test, inside] => whileLoop s test inside c
  | .doWhile, [inside, test] => doWhile s inside test c
  | .withScope, [object, inside] => withScope s object inside c
  | .returning, [value] => simple s "return" (spaced value) c
  | .throwing, [value] => simple s "throw" (spaced value) c
  | .breaking label, _ => simple s "break" (jumpLabel label) c
  | .continuing label, _ => simple s "continue" (jumpLabel label) c
  | .labeled label, [inside] => labeled s label inside
  | .switch, value :: cases => switch s value cases c
  | .case, test :: items => case test items
  | .tryCatch, [inside, handler, finalizer] => tryCatch s inside handler finalizer c
  | .handler, [param, inside] => handler param inside
  | .importDeclaration source hasList, items => importDeclaration source hasList s items
  | .importDefault name, _ => word name
  | .importNamespace name, _ => seq [text "* as ", word name]
  | .importNamed imported name, _ => renamed imported (.name name)
  | .exportList source, items => exportList source s items
  | .exportNamed name exported, _ => renamed name exported
  | .exportAll source name, _ => exportAll source name s
  | .exportDeclaration, [item] => exportDeclaration s item
  | .exportDefault, [value] => exportDefault s value
  | .program hashbang, items => program hashbang s items
  | _, _ => nothing

end Printer

/-! ### Printing -/

/-- A printed text with its marks, places counted in characters. -/
structure Printed where
  text : String
  marks : List Printer.Mark

namespace Tree

/-- The text of a tree, with the comments that stand in front of its statements. -/
def print (t : Tree) (comments : List Comment) : Printed :=
  let o := t.fold Printer.layout .statement (.start comments)
  ⟨String.ofList o.written.reverse, o.marks.reverse⟩

/-- The text of an expression. -/
def text (t : Tree) : String := (t.print []).text

end Tree

end CallBridge.Script
