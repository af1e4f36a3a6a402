import CallBridge.Script.Tree

/-!
# Operators

How each operator is written and how tight it binds. Reading and printing share the levels: a
tighter operator has the higher one.
-/

namespace CallBridge.Script

/-- Levels of binding, from a whole expression to a member. -/
abbrev Level := Nat

namespace Level

/-- Where anything may stand. -/
def lowest : Level := 0
/-- Elements, arguments and whatever else a comma ends. -/
def comma : Level := 1
def yield : Level := 3
def assign : Level := 4
/-- The test of `a ? b : c` binds tighter than this. -/
def conditional : Level := 5
/-- Comparisons, with `in` among them. -/
def compare : Level := 13
def power : Level := 17
def prefixed : Level := 18
def postfixed : Level := 19
/-- `new` without arguments. -/
def new : Level := 20
def call : Level := 21
def member : Level := 22

end Level

namespace BinaryOp

def all : List BinaryOp :=
  [.coalesce, .or, .and, .bitOr, .bitXor, .bitAnd, .equal, .notEqual, .same, .notSame, .less,
    .lessEqual, .greater, .greaterEqual, .instanceOf, .isIn, .shiftLeft, .shiftRight,
    .shiftRightUnsigned, .add, .subtract, .multiply, .divide, .remainder, .power]

def text : BinaryOp → String
  | coalesce => "??"
  | or => "||"
  | and => "&&"
  | bitOr => "|"
  | bitXor => "^"
  | bitAnd => "&"
  | equal => "=="
  | notEqual => "!="
  | same => "==="
  | notSame => "!=="
  | less => "<"
  | lessEqual => "<="
  | greater => ">"
  | greaterEqual => ">="
  | instanceOf => "instanceof"
  | isIn => "in"
  | shiftLeft => "<<"
  | shiftRight => ">>"
  | shiftRightUnsigned => ">>>"
  | add => "+"
  | subtract => "-"
  | multiply => "*"
  | divide => "/"
  | remainder => "%"
  | power => "**"

/-- The columns of the grammar. `??` stands below `||`, and `**` above the other arithmetic. -/
def level : BinaryOp → Level
  | coalesce => 6
  | or => 7
  | and => 8
  | bitOr => 9
  | bitXor => 10
  | bitAnd => 11
  | equal | notEqual | same | notSame => 12
  | less | lessEqual | greater | greaterEqual | instanceOf | isIn => 13
  | shiftLeft | shiftRight | shiftRightUnsigned => 14
  | add | subtract => 15
  | multiply | divide | remainder => 16
  | power => 17

/-- Whether the operator is a word. -/
def isWord : BinaryOp → Bool
  | instanceOf | isIn => true
  | _ => false

end BinaryOp

namespace UnaryOp

def all : List UnaryOp := [.negate, .plus, .not, .complement, .typeof, .void, .delete]

def text : UnaryOp → String
  | negate => "-"
  | plus => "+"
  | not => "!"
  | complement => "~"
  | typeof => "typeof"
  | void => "void"
  | delete => "delete"

def isWord : UnaryOp → Bool
  | typeof | void | delete => true
  | _ => false

end UnaryOp

def UpdateOp.text : UpdateOp → String
  | increment => "++"
  | decrement => "--"

/-- An operator that is applied first stands in front of the equals sign. -/
def AssignOp.text : AssignOp → String
  | plain => "="
  | .with op => op.text ++ "="

/-- Operators that an assignment may apply first. -/
def assigningOps : List BinaryOp :=
  [.coalesce, .or, .and, .bitOr, .bitXor, .bitAnd, .shiftLeft, .shiftRight, .shiftRightUnsigned,
    .add, .subtract, .multiply, .divide, .remainder, .power]

/-- The binary operator of a lexeme. -/
def binaryOf? (l : Lexeme) : Option BinaryOp :=
  match l with
  | .mark m => BinaryOp.all.find? fun op => !op.isWord && op.text == m
  | .word w false => BinaryOp.all.find? fun op => op.isWord && op.text == w
  | _ => none

/-- The assignment operator of a lexeme. -/
def assignOf? (l : Lexeme) : Option AssignOp :=
  match l with
  | .mark "=" => some .plain
  | .mark m => (assigningOps.find? fun op => op.text ++ "=" == m).map .with
  | _ => none

/-- The unary operator of a lexeme. A word that is escaped is no operator. -/
def unaryOf? (l : Lexeme) : Option UnaryOp :=
  match l with
  | .mark m => UnaryOp.all.find? fun op => !op.isWord && op.text == m
  | .word w false => UnaryOp.all.find? fun op => op.isWord && op.text == w
  | _ => none

/-- The update of a lexeme. -/
def updateOf? (l : Lexeme) : Option UpdateOp :=
  match l with
  | .mark "++" => some .increment
  | .mark "--" => some .decrement
  | _ => none

end CallBridge.Script
