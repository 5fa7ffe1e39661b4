import PascalCasl.Tree.Basic

/-!
The words that stand for nodes, types and operators in printed trees.
-/

namespace PascalCasl

def StandardType.name : StandardType → String
  | .integer => "integer"
  | .char => "char"
  | .boolean => "boolean"

def TypeSpec.label : TypeSpec → String
  | .standard _ => "StandardType"
  | .array _ _ _ => "ArrayType"

def UnaryOp.symbol : UnaryOp → String
  | .plus => "+"
  | .minus => "-"
  | .not => "not"

def BinaryOp.symbol : BinaryOp → String
  | .add => "+"
  | .sub => "-"
  | .or => "or"
  | .mul => "*"
  | .div => "div"
  | .mod => "mod"
  | .and => "and"
  | .equal => "="
  | .notEqual => "<>"
  | .less => "<"
  | .lessEqual => "<="
  | .greater => ">"
  | .greaterEqual => ">="

def Expr.label : Expr → String
  | .number _ _ => "NumberLiteral"
  | .string _ _ => "StringLiteral"
  | .truth _ _ => "BooleanLiteral"
  | .simple _ _ => "SimpleVariable"
  | .indexed _ _ _ => "IndexedVariable"
  | .unary _ _ _ => "UnaryOperator"
  | .binary _ _ _ _ => "BinaryOperator"

def Target.label : Target → String
  | .simple _ _ => "SimpleVariable"
  | .indexed _ _ _ => "IndexedVariable"

def blockLabel : String := "Statements"

def Stmt.label : Stmt → String
  | .assign _ _ _ => "Assignment"
  | .call _ _ _ => "ProcedureCall"
  | .ifThen _ _ _ _ => "IfStatement"
  | .ifElse _ _ _ _ _ _ => "IfStatement"
  | .whileDo _ _ _ _ => "WhileStatement"
  | .read _ _ => "InputStatement"
  | .write _ _ => "OutputStatement"
  | .block _ _ => blockLabel

def truthName (value : Bool) : String := if value then "true" else "false"

end PascalCasl
