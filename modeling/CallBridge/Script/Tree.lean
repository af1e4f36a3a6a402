import CallBridge.Script.Token

/-!
# Syntax trees

A script is one uniform tree. A node has a kind, which carries all its own data, a span and its
children in the order of the text, so that every pass over scripts is one fold (`Tree.fold`) that
looks at the kinds it cares for and passes the others by. Which children a kind has is listed at
its constructor; a child that the text leaves out is an `absent` node, so that each child has a
fixed place. Parentheses around an expression are nodes of their own.
-/

namespace CallBridge.Script

inductive UnaryOp where
  | negate | plus | not | complement | typeof | void | delete
  deriving DecidableEq, Repr

inductive UpdateOp where
  | increment | decrement
  deriving DecidableEq, Repr

/-- Binary operators, the logical ones and the comparison of private names among them. -/
inductive BinaryOp where
  | coalesce | or | and | bitOr | bitXor | bitAnd
  | equal | notEqual | same | notSame
  | less | lessEqual | greater | greaterEqual | instanceOf | isIn
  | shiftLeft | shiftRight | shiftRightUnsigned
  | add | subtract | multiply | divide | remainder | power
  deriving DecidableEq, Repr

/-- What an assignment does before it assigns. -/
inductive AssignOp where
  | plain
  | with (op : BinaryOp)
  deriving DecidableEq, Repr

inductive VariableKind where
  | var | let | const
  deriving DecidableEq, Repr

/-- How a property of an object literal is written. -/
inductive PropertyForm where
  | init
  /-- `name` for `name: name`. -/
  | shorthand
  | method
  | getter
  | setter
  deriving DecidableEq, Repr

/-- How a member of a class is written. -/
inductive MethodForm where
  | method
  | getter
  | setter
  deriving DecidableEq, Repr

/-- What a function is besides its parts. -/
structure FunctionForm where
  isAsync : Bool
  isGenerator : Bool
  /-- Whether it is a statement. -/
  isDeclaration : Bool
  deriving DecidableEq, Repr

/-- A name in an import or export list: an identifier or a string. -/
inductive ModuleName where
  | name (s : String)
  | quoted (t : Text)
  deriving DecidableEq, Repr

/-- The kind of a node with all its own data. -/
inductive Kind where
  /-- A child that the text leaves out. -/
  | absent
  -- names
  /-- A name that stands for the value of a variable. -/
  | reference (name : String)
  /-- A variable that is assigned to. -/
  | target (name : String)
  /-- A name that a declaration or parameter introduces. -/
  | binding (name : String)
  /-- The static key of a property or member. -/
  | key (name : String)
  | privateKey (name : String)
  -- literals
  | string (value : Text)
  | number (value : Number.Magnitude)
  | bigint (digits : String)
  | boolean (value : Bool)
  | null
  /-- The substitutions of a template, between its pieces. -/
  | template (quasis : List Quasi)
  /-- The tag and the template. -/
  | tagged
  -- expressions
  | this
  | super
  /-- `new.target` or `import.meta`. -/
  | metaProperty (object property : String)
  /-- Elements, `hole`s and `spread`s. -/
  | array
  | hole
  | spread
  /-- Properties and `spread`s. -/
  | object
  /-- Key and value. -/
  | property (form : PropertyForm) (computed : Bool)
  /-- Key and default of a shorthand that only a pattern may have. -/
  | shorthandDefault
  /-- Name, parameters, type of the result and body. -/
  | function (form : FunctionForm)
  /-- Parameters, and a body or an expression. -/
  | arrow (isAsync : Bool)
  /-- Patterns, a `rest` last. -/
  | parameters
  /-- Directives and statements. -/
  | body
  /-- Name, superclass and members. -/
  | classLike (isDeclaration : Bool)
  | method (form : MethodForm) (isStatic computed : Bool)
  /-- Key and value. -/
  | field (isStatic computed : Bool)
  /-- Statements. -/
  | staticBlock
  /-- Callee and arguments. -/
  | call (optional : Bool)
  /-- A call that is itself the element of an optional chain: callee and arguments. -/
  | chainCall (optional : Bool)
  /-- Callee and arguments. -/
  | new
  /-- The object of a member with a static name. -/
  | member (property : String) (optional : Bool)
  | privateMember (property : String) (optional : Bool)
  /-- Object and index. -/
  | index (optional : Bool)
  /-- The element of an optional chain. -/
  | chain
  | unary (op : UnaryOp)
  | update (op : UpdateOp) (isPrefix : Bool)
  | binary (op : BinaryOp)
  | assign (op : AssignOp)
  | conditional
  | sequence
  | await
  | yield (delegate : Bool)
  /-- Specifier and options. -/
  | importCall
  /-- An expression in parentheses. -/
  | paren
  /-- Expression and type. -/
  | asType
  -- patterns
  | objectPattern
  | arrayPattern
  /-- Key and pattern. -/
  | patternProperty (shorthand computed : Bool)
  /-- Pattern and default. -/
  | withDefault
  | rest
  /-- Pattern and type. -/
  | typed (optional : Bool)
  /-- Targets of an assignment, like the patterns. -/
  | objectTarget
  | arrayTarget
  | targetProperty (shorthand computed : Bool)
  | targetDefault
  | targetRest
  -- types
  /-- A named type with its arguments. -/
  | typeName (name : String)
  | typeLiteral (text : String)
  | typeArray
  | typeUnion
  -- statements
  | expressionStatement
  /-- A string in front of the statements of a body, as written. -/
  | directive (raw : String)
  | block
  | empty
  | debugger
  | variableList (kind : VariableKind)
  /-- Pattern and initializer. -/
  | declarator
  /-- Test, consequent and alternative. -/
  | ifElse
  /-- Initializer, test, update and body. -/
  | forLoop
  /-- Left side, object and body. -/
  | forIn
  | forOf (isAwait : Bool)
  | whileLoop
  /-- Body and test. -/
  | doWhile
  | withScope
  | returning
  | throwing
  | breaking (label : Option String)
  | continuing (label : Option String)
  | labeled (label : String)
  /-- Discriminant and cases. -/
  | switch
  /-- Test and statements. -/
  | case
  /-- Block, handler and finalizer. -/
  | tryCatch
  /-- Parameter and block. -/
  | handler
  -- modules
  /-- Specifiers; without a list, the import is for its effects only. -/
  | importDeclaration (source : Text) (hasList : Bool)
  | importDefault (name : String)
  | importNamespace (name : String)
  | importNamed (imported : ModuleName) (name : String)
  /-- Specifiers. -/
  | exportList (source : Option Text)
  | exportNamed (name exported : ModuleName)
  | exportAll (source : Text) (name : Option ModuleName)
  | exportDeclaration
  | exportDefault
  /-- Directives and statements. -/
  | program (hashbang : Option String)
  deriving DecidableEq, Repr

/-- A node of a syntax tree. -/
inductive Tree where
  | node (kind : Kind) (span : Span) (children : List Tree)
  deriving Repr

namespace Tree

def kind : Tree → Kind
  | node k _ _ => k

def span : Tree → Span
  | node _ s _ => s

def children : Tree → List Tree
  | node _ _ cs => cs

/-- The node for what the text leaves out. -/
def absent : Tree := node .absent .none []

def isAbsent (t : Tree) : Bool := t.kind == .absent

instance : Inhabited Tree := ⟨absent⟩

mutual

def decEq : (t u : Tree) → Decidable (t = u)
  | node k s cs, node k' s' cs' =>
    if hk : k = k' then
      if hs : s = s' then
        match decEqs cs cs' with
        | .isTrue hcs => .isTrue (by rw [hk, hs, hcs])
        | .isFalse hcs => .isFalse fun h => hcs (node.inj h).2.2
      else .isFalse fun h => hs (node.inj h).2.1
    else .isFalse fun h => hk (node.inj h).1

def decEqs : (ts us : List Tree) → Decidable (ts = us)
  | [], [] => .isTrue rfl
  | [], _ :: _ => .isFalse nofun
  | _ :: _, [] => .isFalse nofun
  | t :: ts, u :: us =>
    match decEq t u with
    | .isTrue ht =>
      match decEqs ts us with
      | .isTrue hts => .isTrue (by rw [ht, hts])
      | .isFalse hts => .isFalse fun h => hts (List.cons.inj h).2
    | .isFalse ht => .isFalse fun h => ht (List.cons.inj h).1

end

instance : DecidableEq Tree := decEq

/-! ### Folds -/

section Fold

variable {α : Type}

mutual

/-- Computes a value for every node from its kind, its span and its children with their values. -/
def fold (f : Kind → Span → List (Tree × α) → α) : Tree → α
  | node k s cs => f k s (folds f cs)

def folds (f : Kind → Span → List (Tree × α) → α) : List Tree → List (Tree × α)
  | [] => []
  | t :: rest => (t, fold f t) :: folds f rest

end

theorem folds_eq_map (f : Kind → Span → List (Tree × α) → α) (cs : List Tree) :
    folds f cs = cs.map fun t => (t, fold f t) := by
  induction cs with
  | nil => rfl
  | cons t rest ih => simp [folds, ih]

/-- The value of a node from the values of its children. -/
theorem fold_node (f : Kind → Span → List (Tree × α) → α) (k : Kind) (s : Span)
    (cs : List Tree) : fold f (node k s cs) = f k s (cs.map fun t => (t, fold f t)) := by
  rw [fold, folds_eq_map]

end Fold

/-- Induction over a tree: a property that passes from all children to their node holds of every
tree. -/
@[induction_eliminator] theorem induction {motive : Tree → Prop}
    (node : ∀ k s cs, (∀ t ∈ cs, motive t) → motive (.node k s cs)) (t : Tree) : motive t :=
  Tree.rec (motive_1 := motive) (motive_2 := fun cs => ∀ t ∈ cs, motive t) node
    (fun _ h => absurd h List.not_mem_nil)
    (fun _ _ iht ihr _ h => (List.mem_cons.1 h).elim (fun e => e ▸ iht) (ihr _)) t

/-- The same tree with all spans forgotten. Two trees are equal up to spans when these agree. -/
def bare : Tree → Tree := fold fun k _ cs => node k .none (cs.map Prod.snd)

/-- All nodes of a tree, each before those below it. -/
def subtrees : Tree → List Tree :=
  fold fun k s cs => node k s (cs.map Prod.fst) :: cs.flatMap Prod.snd

@[simp] theorem bare_node (k : Kind) (s : Span) (cs : List Tree) :
    (node k s cs).bare = node k .none (cs.map bare) := by
  simp [bare, fold_node]

@[simp] theorem subtrees_node (k : Kind) (s : Span) (cs : List Tree) :
    (node k s cs).subtrees = node k s cs :: cs.flatMap subtrees := by
  simp [subtrees, fold_node, List.flatMap_map, Function.comp_def]

/-- The expression inside any number of parentheses. -/
def unparen : Tree → Tree
  | node .paren _ [t] => unparen t
  | t => t

/-- The number of nodes. -/
def size (t : Tree) : Nat := t.subtrees.length

end Tree

end CallBridge.Script
