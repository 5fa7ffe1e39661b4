import PascalCasl.Grammar.Reading
import PascalCasl.Text.Decimal
import PascalCasl.Text.Quoted
import PascalCasl.Tree.Basic

/-!
Reading expressions. Relations bind weakest and take two operands, sums and
products associate to the left, and a sign belongs to the first term of a sum.
Parentheses leave no node.
-/

namespace PascalCasl.Grammar

def relation? : Kind → Option BinaryOp
  | .equal => some .equal
  | .notEqual => some .notEqual
  | .less => some .less
  | .lessEqual => some .lessEqual
  | .greater => some .greater
  | .greaterEqual => some .greaterEqual
  | _ => none

def sum? : Kind → Option BinaryOp
  | .plus => some .add
  | .minus => some .sub
  | .orWord => some .or
  | _ => none

def product? : Kind → Option BinaryOp
  | .star => some .mul
  | .divWord => some .div
  | .modWord => some .mod
  | .andWord => some .and
  | _ => none

def sign? : Kind → Option UnaryOp
  | .plus => some .plus
  | .minus => some .minus
  | _ => none

def valueOf {α : Type} (value? : Option α) (token : Token) (rest : List Token) : Except Failure α :=
  match value? with
  | some value => .ok value
  | none => .error (.malformed token rest)

mutual

def expr (input : List Token) : Result Expr input.length := do
  let ⟨left, rest, shorter⟩ ← simple input
  match rest, shorter with
  | [], shorter => .ok ⟨left, [], shorter⟩
  | first :: more, shorter =>
      match relation? first.kind with
      | none => .ok ⟨left, first :: more, shorter⟩
      | some op =>
          have moreShorter := tail_within shorter
          let ⟨right, rest, shorter⟩ ← (simple more).under moreShorter
          .ok ⟨.binary first.line op left right, rest, shorter⟩
  termination_by 4 * input.length + 3

/-- A sum with an optional sign in front. -/
def simple (input : List Token) : Result Expr input.length :=
  match input with
  | [] => .error (.unexpected [])
  | first :: more =>
      match sign? first.kind with
      | some op => do
          let ⟨operand, rest, shorter⟩ ← (term more).under (tail_shorter first more)
          (sums (.unary first.line op operand) rest).upTo shorter
      | none => do
          let ⟨operand, rest, shorter⟩ ← term (first :: more)
          (sums operand rest).upTo shorter
  termination_by 4 * input.length + 2
  decreasing_by all_goals (simp only [List.length_cons] at *; omega)

/-- The terms added to `left`. -/
def sums (left : Expr) (input : List Token) : Result Expr (input.length + 1) :=
  match input with
  | [] => .ok (.absent left [])
  | first :: rest =>
      match sum? first.kind with
      | none => .ok (.absent left (first :: rest))
      | some op => Result.present do
          let ⟨right, rest, shorter⟩ ← (term rest).under (tail_shorter first rest)
          (sums (.binary first.line op left right) rest).upTo shorter
  termination_by 4 * input.length
  decreasing_by all_goals (simp only [List.length_cons] at *; omega)

def term (input : List Token) : Result Expr input.length := do
  let ⟨left, rest, shorter⟩ ← factor input
  (products left rest).upTo shorter
  termination_by 4 * input.length + 1

def products (left : Expr) (input : List Token) : Result Expr (input.length + 1) :=
  match input with
  | [] => .ok (.absent left [])
  | first :: rest =>
      match product? first.kind with
      | none => .ok (.absent left (first :: rest))
      | some op => Result.present do
          let ⟨right, rest, shorter⟩ ← (factor rest).under (tail_shorter first rest)
          (products (.binary first.line op left right) rest).upTo shorter
  termination_by 4 * input.length
  decreasing_by all_goals (simp only [List.length_cons] at *; omega)

def factor (input : List Token) : Result Expr input.length :=
  match input with
  | [] => .error (.unexpected [])
  | first :: rest =>
      match first.kind with
      | .identifier => do
          let ⟨index?, rest, shorter⟩ ← (index rest).upTo (tail_shorter first rest)
          match index? with
          | none => .ok ⟨.simple first.line first.text, rest, shorter⟩
          | some index => .ok ⟨.indexed first.line first.text index, rest, shorter⟩
      | .leftParen => do
          let ⟨inner, rest, shorter⟩ ← (expr rest).under (tail_shorter first rest)
          let ⟨_, rest, shorter⟩ ← (token .rightParen rest).under shorter
          .ok ⟨inner, rest, shorter⟩
      | .notWord => do
          let ⟨operand, rest, shorter⟩ ← (factor rest).under (tail_shorter first rest)
          .ok ⟨.unary first.line .not operand, rest, shorter⟩
      | .constant => do
          let value ← valueOf (Text.literalValue? first.text.toList) first rest
          .ok (.single (.number first.line value) first rest)
      | .string => do
          let text ← valueOf (Text.unquoted? first.text) first rest
          .ok (.single (.string first.line text) first rest)
      | .trueWord => .ok (.single (.truth first.line true) first rest)
      | .falseWord => .ok (.single (.truth first.line false) first rest)
      | _ => .error (.unexpected (first :: rest))
  termination_by 4 * input.length
  decreasing_by all_goals (simp only [List.length_cons] at *; omega)

/-- An index in brackets, where a bracket opens. -/
def index (input : List Token) : Result (Option Expr) (input.length + 1) :=
  match input with
  | [] => .ok (.absent none [])
  | first :: rest =>
      if first.kind = .leftBracket then Result.present do
        let ⟨index, rest, shorter⟩ ← (expr rest).under (tail_shorter first rest)
        let ⟨_, rest, shorter⟩ ← (token .rightBracket rest).under shorter
        .ok ⟨some index, rest, shorter⟩
      else .ok (.absent none (first :: rest))
  termination_by 4 * input.length
  decreasing_by all_goals (simp only [List.length_cons] at *; omega)

end

def target : Reader Target := fun input => do
  let ⟨name, rest, shorter⟩ ← token .identifier input
  let ⟨index?, rest, shorter⟩ ← (index rest).upTo shorter
  match index? with
  | none => .ok ⟨.simple name.line name.text, rest, shorter⟩
  | some index => .ok ⟨.indexed name.line name.text index, rest, shorter⟩

end PascalCasl.Grammar
