/-!
# Syntax nodes

The kinds of syntax node an engine hands to the store, each with the names of its fields. What a
field holds is left to the engine; the store only tells nodes apart and prints them.
-/

namespace TypingStore

/-- The kinds of syntax node. -/
inductive NodeKind where
  /-- A node with no fields of its own. -/
  | node
  /-- An expression with no fields of its own. -/
  | expression
  | integerLiteral
  | stringLiteral
  | variableUse
  | binaryOperation
  | call
  /-- One clause of a case expression. -/
  | whenClause
  | caseExpression
  deriving DecidableEq, Inhabited

namespace NodeKind

/-- The name a kind is written with. -/
def name : NodeKind → String
  | node => "Node"
  | expression => "Expr"
  | integerLiteral => "IntLiteral"
  | stringLiteral => "StringLiteral"
  | variableUse => "VarRef"
  | binaryOperation => "BinaryOp"
  | call => "CallExpr"
  | whenClause => "WhenClause"
  | caseExpression => "CaseExpr"

/-- The names of the fields of a kind, in declaration order. -/
def fieldNames : NodeKind → List String
  | node | expression => []
  | integerLiteral | stringLiteral => ["value"]
  | variableUse => ["name"]
  | binaryOperation => ["op", "left", "right"]
  | call => ["receiver", "method", "args"]
  | whenClause => ["test", "body"]
  | caseExpression => ["subject", "clauses", "else_body"]

/-- All kinds. -/
def all : List NodeKind :=
  [node, expression, integerLiteral, stringLiteral, variableUse, binaryOperation, call, whenClause,
    caseExpression]

/-- The kind of a name. -/
def ofName? (name : String) : Option NodeKind := all.find? fun kind => kind.name = name

theorem ofName?_name (kind : NodeKind) : ofName? kind.name = some kind := by
  cases kind <;> decide +kernel

end NodeKind

end TypingStore
