import PascalCasl.Token.Basic

/-!
Reading phrases from a list of tokens. A reading keeps the tokens left over and
a bound on their number, so that readers of phrases within phrases terminate.
A failure keeps the tokens it stopped at; its line is worked out at the end.
-/

namespace PascalCasl.Grammar

inductive Failure where
  /-- The first of these tokens, or the end of the input, fits nowhere here. -/
  | unexpected (rest : List Token)
  /-- A token of the right kind has no value; it was taken from before `rest`. -/
  | malformed (token : Token) (rest : List Token)

namespace Failure

def rest : Failure → List Token
  | .unexpected rest => rest
  | .malformed _ rest => rest

/-- The line of the token at fault; `last` is the line of the end of the input. -/
def line (last : Nat) : Failure → Nat
  | .unexpected [] => last
  | .unexpected (token :: _) => token.line
  | .malformed token _ => token.line

end Failure

/-- A phrase and the tokens after it, fewer than `limit`. -/
structure Reading (α : Type) (limit : Nat) where
  value : α
  rest : List Token
  within : rest.length < limit

abbrev Result (α : Type) (limit : Nat) := Except Failure (Reading α limit)

/-- A reader that takes at least one token. -/
abbrev Reader (α : Type) := (input : List Token) → Result α input.length

/-- A reader that may take no token. -/
abbrev OptionalReader (α : Type) := (input : List Token) → Result α (input.length + 1)

variable {α : Type} {limit : Nat}

theorem tail_shorter (first : Token) (rest : List Token) : rest.length < (first :: rest).length :=
  Nat.lt_succ_self rest.length

theorem tail_within {first : Token} {rest input : List Token}
    (shorter : (first :: rest).length < input.length) : rest.length < input.length :=
  Nat.lt_trans (tail_shorter first rest) shorter

namespace Reading

def absent (value : α) (input : List Token) : Reading α (input.length + 1) :=
  ⟨value, input, Nat.lt_succ_self input.length⟩

def single (value : α) (first : Token) (rest : List Token) : Reading α (first :: rest).length :=
  ⟨value, rest, tail_shorter first rest⟩

def raise {lower : Nat} (reading : Reading α lower) (le : lower ≤ limit) : Reading α limit :=
  ⟨reading.value, reading.rest, Nat.lt_of_lt_of_le reading.within le⟩

end Reading

namespace Result

/-- A result on a rest that is within the limit is within the limit. -/
def under {input : List Token} (result : Result α input.length) (within : input.length < limit) :
    Result α limit :=
  result.map (·.raise (Nat.le_of_lt within))

def upTo {input : List Token} (result : Result α (input.length + 1))
    (within : input.length < limit) : Result α limit :=
  result.map (·.raise within)

/-- A phrase that is present, where it could be absent. -/
def present (result : Result α limit) : Result α (limit + 1) :=
  result.map (·.raise (Nat.le_succ limit))

end Result

def token (kind : Kind) : Reader Token
  | [] => .error (.unexpected [])
  | first :: rest =>
      if first.kind = kind then .ok (.single first first rest)
      else .error (.unexpected (first :: rest))

/-- Further items, a separator before each. -/
def moreItems (separator : Kind) (item : Reader α) : OptionalReader (List α)
  | [] => .ok (.absent [] [])
  | first :: rest =>
      if first.kind = separator then Result.present do
        let ⟨value, rest, shorter⟩ ← (item rest).under (tail_shorter first rest)
        let ⟨values, rest, shorter⟩ ← (moreItems separator item rest).upTo shorter
        .ok ⟨value :: values, rest, shorter⟩
      else .ok (.absent [] (first :: rest))
  termination_by input => input.length
  decreasing_by all_goals (simp only [List.length_cons] at *; omega)

/-- One or more items with separators between them. -/
def items (separator : Kind) (item : Reader α) : Reader (List α) := fun input => do
  let ⟨value, rest, shorter⟩ ← item input
  let ⟨values, rest, shorter⟩ ← (moreItems separator item rest).upTo shorter
  .ok ⟨value :: values, rest, shorter⟩

/-- A list in parentheses, or nothing where no parenthesis opens. -/
def parenthesised (list : Reader (List α)) : OptionalReader (List α)
  | [] => .ok (.absent [] [])
  | first :: rest =>
      if first.kind = .leftParen then Result.present do
        let ⟨values, rest, shorter⟩ ← (list rest).under (tail_shorter first rest)
        let ⟨_, rest, shorter⟩ ← (token .rightParen rest).under shorter
        .ok ⟨values, rest, shorter⟩
      else .ok (.absent [] (first :: rest))

end PascalCasl.Grammar
