import CallBridge.Collection.Distinct
import CallBridge.Pattern.Shape

/-!
# Dependencies

The files a script names: in imports, in exports from elsewhere and in calls of `import` with a
literal. Each is listed once, in the order of the text.
-/

namespace CallBridge.Script

open Pattern

/-- The file that a node names itself. -/
def namedFile? (k : Kind) (children : List Tree) : Option String :=
  match k, children with
  | .importDeclaration source _, _ => some source.value
  | .exportAll source _, _ => some source.value
  | .exportList (some source), _ => some source.value
  | .importCall, specifier :: _ => literal? specifier
  | _, _ => none

/-- Whether mentions are looked for below a node. An import and an export of everything are done
with their own file. -/
def isSearched : Kind → Bool
  | .importDeclaration .. | .exportAll .. => false
  | _ => true

/-- All mentions of files, in the order of the text. -/
def mentions : Tree → List String :=
  Tree.fold fun k _ cs =>
    (namedFile? k (cs.map Prod.fst)).toList ++ if isSearched k then cs.flatMap Prod.snd else []

/-- The files a script depends on. -/
def dependencies (t : Tree) : List String := Collection.distinct (mentions t)

end CallBridge.Script
