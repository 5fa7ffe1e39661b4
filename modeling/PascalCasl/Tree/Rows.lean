import PascalCasl.Tree.Label

/-!
Printed trees: one row for each node, indented by its depth. Rows name the
nodes and leave out their lines, so two trees that differ in lines alone print
alike.
-/

namespace PascalCasl.Rows

structure Row where
  depth : Nat
  label : String
  text? : Option String

def indent : Nat → String
  | 0 => ""
  | depth + 1 => "  " ++ indent depth

def Row.render (row : Row) : String :=
  match row.text? with
  | none => indent row.depth ++ row.label ++ "\n"
  | some text => indent row.depth ++ row.label ++ " (" ++ text ++ ")\n"

def bare (depth : Nat) (label : String) : Row := ⟨depth, label, none⟩

def titled (depth : Nat) (label text : String) : Row := ⟨depth, label, some text⟩

def expr (depth : Nat) (node : Expr) : List Row :=
  match node with
  | .number _ value => [titled depth node.label value.repr]
  | .string _ text => [titled depth node.label ("'" ++ text ++ "'")]
  | .truth _ value => [titled depth node.label (truthName value)]
  | .simple _ name => [titled depth node.label name]
  | .indexed _ name index => titled depth node.label name :: expr (depth + 1) index
  | .unary _ op operand => titled depth node.label op.symbol :: expr (depth + 1) operand
  | .binary _ op left right =>
      titled depth node.label op.symbol :: (expr (depth + 1) left ++ expr (depth + 1) right)

def target (depth : Nat) (node : Target) : List Row :=
  match node with
  | .simple _ name => [titled depth node.label name]
  | .indexed _ name index => titled depth node.label name :: expr (depth + 1) index

mutual

def stmt (depth : Nat) (node : Stmt) : List Row :=
  match node with
  | .assign _ assigned value =>
      titled depth node.label ":=" :: bare (depth + 1) "LeftValue" ::
        (target (depth + 2) assigned ++ expr (depth + 1) value)
  | .call _ name arguments =>
      titled depth node.label name :: arguments.flatMap (expr (depth + 1))
  | .ifThen _ condition _ thenBody =>
      bare depth node.label :: bare (depth + 1) "IfExp" :: (expr (depth + 2) condition ++
        bare (depth + 1) "ThenStatement" :: bare (depth + 2) blockLabel ::
          (stmts (depth + 3) thenBody ++ [bare (depth + 1) "ElseStatement"]))
  | .ifElse _ condition _ thenBody _ elseBody =>
      bare depth node.label :: bare (depth + 1) "IfExp" :: (expr (depth + 2) condition ++
        bare (depth + 1) "ThenStatement" :: bare (depth + 2) blockLabel ::
          (stmts (depth + 3) thenBody ++ bare (depth + 1) "ElseStatement" ::
            bare (depth + 2) blockLabel :: stmts (depth + 3) elseBody))
  | .whileDo _ condition _ body =>
      bare depth node.label :: bare (depth + 1) "WhileExp" :: (expr (depth + 2) condition ++
        bare (depth + 1) blockLabel :: stmts (depth + 2) body)
  | .read _ targets =>
      titled depth node.label "readln" :: targets.flatMap fun filled =>
        bare (depth + 1) "InputStatementComponent" :: target (depth + 2) filled
  | .write _ values =>
      titled depth node.label "writeln" :: values.flatMap fun value =>
        bare (depth + 1) "OutputStatementComponent" :: expr (depth + 2) value
  | .block _ body => bare depth node.label :: stmts (depth + 1) body
  termination_by structural node

def stmts (depth : Nat) (body : List Stmt) : List Row :=
  match body with
  | [] => []
  | first :: rest => stmt depth first ++ stmts depth rest
  termination_by structural body

end

def block (depth : Nat) (body : List Stmt) : List Row :=
  bare depth blockLabel :: stmts (depth + 1) body

def typeSpec (depth : Nat) (type : TypeSpec) : List Row :=
  match type with
  | .standard standard => [titled depth type.label standard.name]
  | .array low high element =>
      [bare depth type.label, titled (depth + 1) "NumberLiteral" low.value.repr,
        titled (depth + 1) "NumberLiteral" high.value.repr,
        titled (depth + 1) "StandardType" element.name]

def varDecl (depth : Nat) (decl : VarDecl) : List Row :=
  titled depth "VariableDeclarator" decl.name :: typeSpec (depth + 1) decl.type

def param (depth : Nat) (decl : Param) : List Row :=
  [titled depth "FormalParameterDeclarator" decl.name,
    titled (depth + 1) "StandardType" decl.type.name]

def procedure (depth : Nat) (decl : Procedure) : List Row :=
  bare depth "Subprogram" :: titled (depth + 1) "ProcedureDeclarator" decl.name ::
    (decl.params.flatMap (param (depth + 2)) ++ decl.vars.flatMap (varDecl (depth + 1)) ++
      block (depth + 1) decl.body)

def program (tree : Program) : List Row :=
  bare 0 "Program" :: titled 1 "ProgramName" tree.name ::
    (tree.vars.flatMap (varDecl 1) ++ tree.procedures.flatMap (procedure 1) ++ block 1 tree.body)

end PascalCasl.Rows

namespace PascalCasl

def Program.render (tree : Program) : String :=
  String.join ((Rows.program tree).map Rows.Row.render)

end PascalCasl
