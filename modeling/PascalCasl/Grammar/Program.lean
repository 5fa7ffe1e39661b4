import PascalCasl.Grammar.Stmt

/-!
Reading declarations and whole programs.
-/

namespace PascalCasl.Grammar

def standardType? : Kind → Option StandardType
  | .integerWord => some .integer
  | .charWord => some .char
  | .booleanWord => some .boolean
  | _ => none

def standardType : Reader StandardType
  | [] => .error (.unexpected [])
  | first :: rest =>
      match standardType? first.kind with
      | some type => .ok (.single type first rest)
      | none => .error (.unexpected (first :: rest))

def magnitude : Reader Nat := fun input => do
  let ⟨numeral, rest, shorter⟩ ← token .constant input
  let value ← valueOf (Text.literalValue? numeral.text.toList) numeral rest
  .ok ⟨value, rest, shorter⟩

def bound : Reader Bound
  | [] => .error (.unexpected [])
  | first :: rest =>
      match sign? first.kind with
      | some sign => do
          let ⟨value, rest, shorter⟩ ← (magnitude rest).under (tail_shorter first rest)
          .ok ⟨⟨sign = .minus, value⟩, rest, shorter⟩
      | none => do
          let ⟨value, rest, shorter⟩ ← magnitude (first :: rest)
          .ok ⟨⟨false, value⟩, rest, shorter⟩

/-- A type and the line of its first token. -/
def typeSpec : Reader (TypeSpec × Nat)
  | [] => .error (.unexpected [])
  | first :: rest =>
      if first.kind = .arrayWord then do
        let ⟨_, rest, shorter⟩ ← (token .leftBracket rest).under (tail_shorter first rest)
        let ⟨low, rest, shorter⟩ ← (bound rest).under shorter
        let ⟨_, rest, shorter⟩ ← (token .range rest).under shorter
        let ⟨high, rest, shorter⟩ ← (bound rest).under shorter
        let ⟨_, rest, shorter⟩ ← (token .rightBracket rest).under shorter
        let ⟨_, rest, shorter⟩ ← (token .ofWord rest).under shorter
        let ⟨element, rest, shorter⟩ ← (standardType rest).under shorter
        .ok ⟨(.array low high element, first.line), rest, shorter⟩
      else do
        let ⟨type, rest, shorter⟩ ← standardType (first :: rest)
        .ok ⟨(.standard type, first.line), rest, shorter⟩

def names : Reader (List Token) := items .comma (token .identifier)

def varGroup : Reader (List VarDecl) := fun input => do
  let ⟨names, rest, shorter⟩ ← names input
  let ⟨_, rest, shorter⟩ ← (token .colon rest).under shorter
  let ⟨(type, typeLine), rest, shorter⟩ ← (typeSpec rest).under shorter
  let ⟨_, rest, shorter⟩ ← (token .semicolon rest).under shorter
  .ok ⟨names.map fun name => ⟨name.text, name.line, type, typeLine⟩, rest, shorter⟩

/-- Further groups, as long as an identifier begins one. -/
def moreVarGroups : OptionalReader (List VarDecl)
  | [] => .ok (.absent [] [])
  | first :: more =>
      if first.kind = .identifier then Result.present do
        let ⟨group, rest, shorter⟩ ← varGroup (first :: more)
        let ⟨groups, rest, shorter⟩ ← (moreVarGroups rest).upTo shorter
        .ok ⟨group ++ groups, rest, shorter⟩
      else .ok (.absent [] (first :: more))
  termination_by input => input.length
  decreasing_by all_goals (simp only [List.length_cons] at *; omega)

def vars : OptionalReader (List VarDecl)
  | [] => .ok (.absent [] [])
  | first :: rest =>
      if first.kind = .varWord then Result.present do
        let ⟨group, rest, shorter⟩ ← (varGroup rest).under (tail_shorter first rest)
        let ⟨groups, rest, shorter⟩ ← (moreVarGroups rest).upTo shorter
        .ok ⟨group ++ groups, rest, shorter⟩
      else .ok (.absent [] (first :: rest))

def paramGroup : Reader (List Param) := fun input => do
  let ⟨names, rest, shorter⟩ ← names input
  let ⟨_, rest, shorter⟩ ← (token .colon rest).under shorter
  let ⟨type, rest, shorter⟩ ← (standardType rest).under shorter
  .ok ⟨names.map fun name => ⟨name.text, name.line, type⟩, rest, shorter⟩

def procedure : Reader Procedure := fun input => do
  let ⟨_, rest, shorter⟩ ← token .procedureWord input
  let ⟨name, rest, shorter⟩ ← (token .identifier rest).under shorter
  let ⟨groups, rest, shorter⟩ ← (parenthesised (items .semicolon paramGroup) rest).upTo shorter
  let ⟨_, rest, shorter⟩ ← (token .semicolon rest).under shorter
  let ⟨vars, rest, shorter⟩ ← (vars rest).upTo shorter
  let ⟨(bodyLine, body), rest, shorter⟩ ← (block rest).under shorter
  .ok ⟨⟨name.text, name.line, groups.flatten, vars, bodyLine, body⟩, rest, shorter⟩

def procedures : OptionalReader (List Procedure)
  | [] => .ok (.absent [] [])
  | first :: more =>
      if first.kind = .procedureWord then Result.present do
        let ⟨declared, rest, shorter⟩ ← procedure (first :: more)
        let ⟨_, rest, shorter⟩ ← (token .semicolon rest).under shorter
        let ⟨others, rest, shorter⟩ ← (procedures rest).upTo shorter
        .ok ⟨declared :: others, rest, shorter⟩
      else .ok (.absent [] (first :: more))
  termination_by input => input.length
  decreasing_by all_goals (simp only [List.length_cons] at *; omega)

def program : Reader Program := fun input => do
  let ⟨word, rest, shorter⟩ ← token .programWord input
  let ⟨name, rest, shorter⟩ ← (token .identifier rest).under shorter
  let ⟨_, rest, shorter⟩ ← (token .semicolon rest).under shorter
  let ⟨vars, rest, shorter⟩ ← (vars rest).upTo shorter
  let ⟨procedures, rest, shorter⟩ ← (procedures rest).upTo shorter
  let ⟨(bodyLine, body), rest, shorter⟩ ← (block rest).under shorter
  let ⟨_, rest, shorter⟩ ← (token .dot rest).under shorter
  .ok ⟨⟨name.text, word.line, vars, procedures, bodyLine, body⟩, rest, shorter⟩

/-- A program that leaves no token over. -/
def sentence (input : List Token) : Except Failure Program :=
  match program input with
  | .error failure => .error failure
  | .ok ⟨tree, [], _⟩ => .ok tree
  | .ok ⟨_, first :: rest, _⟩ => .error (.unexpected (first :: rest))

end PascalCasl.Grammar
