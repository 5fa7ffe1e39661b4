import PascalCasl.Proofs.Casl.Reading
import PascalCasl.Proofs.Meaning.Source
import PascalCasl.Text.Blank

/-!
Assembly text as machine instructions. The text is divided into units, from START
to END. A unit has labels of its own and knows the other units by their names.
Code and data lie apart: a label is the number of an instruction or of a word of
its unit, so that a unit can be placed anywhere.
-/

namespace PascalCasl.Comet

open Casl (Arithmetic Condition Register)

/-- An address, to which the content of a register may be added. -/
structure Place (α : Type) where
  base : α
  index : Option Register
  deriving DecidableEq

inductive Operand (α : Type) where
  | register (source : Register)
  | memory (place : Place α)
  deriving DecidableEq

/-- What a listing computes with, and the sums and differences of unsigned words. -/
inductive Operation where
  | ordinary (operation : Arithmetic)
  | addUnsigned
  | subtractUnsigned
  deriving DecidableEq

inductive Test where
  | on (condition : Condition)
  | onOverflow
  deriving DecidableEq

inductive Action (α : Type) where
  | nop
  | load (register : Register) (source : Operand α)
  | store (register : Register) (place : Place α)
  | loadAddress (register : Register) (place : Place α)
  | compute (operation : Operation) (register : Register) (source : Operand α)
  | compareSigned (register : Register) (source : Operand α)
  | compareUnsigned (register : Register) (source : Operand α)
  | shiftLeft (register : Register) (count : Place α)
  | shiftRight (register : Register) (count : Place α)
  | push (place : Place α)
  | pop (register : Register)
  deriving DecidableEq

inductive Instr (α : Type) where
  | act (action : Action α)
  | jump (test : Test) (target : Place α)
  | call (target : Place α)
  | ret
  | input (buffer length : Place α)
  | output (buffer length : Place α)
  deriving DecidableEq

/-- An address in a unit that is not placed yet: an instruction or a word of the
unit, another unit, a constant, or a cell that holds a literal. -/
inductive Ref where
  | code (number : Nat)
  | data (number : Nat)
  | unit (name : String)
  | constant (word : Word)
  | literal (word : Word)
  deriving DecidableEq

inductive Argument (α : Type) where
  | register (register : Register)
  | address (address : α)

section

variable {α β : Type}

def place? : List (Argument α) → Option (Place α)
  | [.address base] => some ⟨base, none⟩
  | [.address base, .register index] => some ⟨base, some index⟩
  | _ => none

def operand? : List (Argument α) → Option (Operand α)
  | [.register source] => some (.register source)
  | arguments => (place? arguments).map .memory

def withRegister (make : Register → β → Action α) (read? : List (Argument α) → Option β) :
    List (Argument α) → Option (Instr α)
  | .register register :: rest => (read? rest).map fun value => .act (make register value)
  | _ => none

def jumping (test : Test) (arguments : List (Argument α)) : Option (Instr α) :=
  (place? arguments).map (.jump test)

def transfer (make : Place α → Place α → Instr α) : List (Argument α) → Option (Instr α)
  | [.address buffer, .address length] => some (make ⟨buffer, none⟩ ⟨length, none⟩)
  | _ => none

def decoders : List (String × (List (Argument α) → Option (Instr α))) :=
  [("NOP", fun _ => some (.act .nop)), ("LD", withRegister .load operand?),
    ("ST", withRegister .store place?), ("LAD", withRegister .loadAddress place?),
    ("ADDA", withRegister (.compute (.ordinary .add)) operand?),
    ("SUBA", withRegister (.compute (.ordinary .subtract)) operand?),
    ("ADDL", withRegister (.compute .addUnsigned) operand?),
    ("SUBL", withRegister (.compute .subtractUnsigned) operand?),
    ("AND", withRegister (.compute (.ordinary .and)) operand?),
    ("OR", withRegister (.compute (.ordinary .or)) operand?),
    ("XOR", withRegister (.compute (.ordinary .xor)) operand?),
    ("CPA", withRegister .compareSigned operand?), ("CPL", withRegister .compareUnsigned operand?),
    ("SLL", withRegister .shiftLeft place?), ("SRL", withRegister .shiftRight place?),
    ("JUMP", jumping (.on .always)), ("JZE", jumping (.on .zero)),
    ("JNZ", jumping (.on .nonzero)), ("JMI", jumping (.on .minus)),
    ("JPL", jumping (.on .plus)), ("JOV", jumping .onOverflow),
    ("PUSH", fun arguments => (place? arguments).map fun place => .act (.push place)),
    ("POP", withRegister (fun register (_ : Unit) => .pop register) fun _ => some ()),
    ("CALL", fun arguments => (place? arguments).map .call), ("RET", fun _ => some .ret),
    ("IN", transfer .input), ("OUT", transfer .output)]

def decode? (mnemonic : String) (arguments : List (Argument α)) : Option (Instr α) :=
  (decoders.lookup mnemonic).bind fun decoder => decoder arguments

end

structure Statement where
  label : List Char
  op : List Char
  operands : List Char
  deriving DecidableEq

def column (text : List Char) : List Char × List Char :=
  (text.takeWhile (· ≠ '\t'), (text.dropWhile (· ≠ '\t')).drop 1)

/-- Blank lines and comments are no statements. -/
def Statement.read? (line : List Char) : Option Statement :=
  if line.head? = some ';' || line.all Text.isBlank then none
  else
    let (label, rest) := column line
    let (op, operands) := column rest
    some ⟨label, op, Text.trim operands⟩

/-- Pieces between commas, except for commas in quotes. -/
def splitOperands (quoted : Bool) : List Char → List (List Char)
  | [] => [[]]
  | c :: rest =>
      if c = '\'' then Text.extendFirst c (splitOperands (!quoted) rest)
      else if c = ',' && !quoted then [] :: splitOperands quoted rest
      else Text.extendFirst c (splitOperands quoted rest)

/-- The operands of a statement. There may be nothing behind the last comma. -/
def Statement.parts (statement : Statement) : List (List Char) :=
  let parts := (splitOperands false statement.operands).map Text.trim
  if parts.getLast? = some [] then parts.dropLast else parts

def hexDigit? (c : Char) : Option Nat :=
  if c.isDigit then some (c.toNat - '0'.toNat)
  else if 'A' ≤ c ∧ c ≤ 'F' then some (c.toNat - 'A'.toNat + 10)
  else none

def hexValue? (digits : List Char) : Option Nat :=
  (digits.mapM hexDigit?).map fun values => values.foldl (fun value digit => 16 * value + digit) 0

/-- The words of a constant: one of a number, one of each character of a text. -/
def constantWords? : List Char → Option (List Word)
  | '#' :: digits => (hexValue? digits).map fun value => [BitVec.ofNat 16 value]
  | '\'' :: rest =>
      some ((Text.foldQuotes rest.dropLast).map fun c => BitVec.ofNat 16 c.toNat)
  | digits => (Casl.readInteger? digits).map fun value => [BitVec.ofInt 16 value]

def constant? (text : List Char) : Option Word :=
  (constantWords? text).bind fun words =>
    match words with
    | [word] => some word
    | _ => none

abbrev Labels := List (List Char × Ref)

/-- A label of the unit, a register, a literal, a constant, or else the name of a
unit. -/
def argument? (labels : Labels) (operand : List Char) : Option (Argument Ref) :=
  match labels.lookup operand, operand with
  | some ref, _ => some (.address ref)
  | none, 'G' :: 'R' :: _ => (Register.read? operand).map .register
  | none, '=' :: text => (constant? text).map fun word => .address (.literal word)
  | none, first :: _ =>
      if first.isUpper then some (.address (.unit (String.ofList operand)))
      else (constant? operand).map fun word => .address (.constant word)
  | none, [] => none

/-- A unit with its instructions and its words of data. Its name stands for its
first instruction or word. -/
structure Segment where
  name : String
  first : Ref
  code : List (Instr Ref)
  data : List Word
  deriving DecidableEq

/-- What is collected of a unit so far, the newest first. -/
structure Collected where
  labels : Labels
  code : List Statement
  data : List Word

def Collected.add (collected : Collected) (statement : Statement) : Option Collected := do
  let labelled (ref : Ref) : Labels :=
    if statement.label.isEmpty then collected.labels
    else (statement.label, ref) :: collected.labels
  if statement.op = "DS".toList then
    let count ← Text.digitsValue? statement.operands
    some { collected with
      labels := labelled (.data collected.data.length)
      data := List.replicate count 0 ++ collected.data }
  else if statement.op = "DC".toList then
    let words ← statement.parts.mapM constantWords?
    some { collected with
      labels := labelled (.data collected.data.length)
      data := words.flatten.reverse ++ collected.data }
  else
    some { collected with
      labels := labelled (.code collected.code.length)
      code := statement :: collected.code }

def isData (op : List Char) : Bool := op = "DS".toList || op = "DC".toList

/-- Assembles the statements of a unit, the first of which is its START. -/
def Segment.assemble? : List Statement → Option Segment
  | [] => none
  | start :: statements => do
      guard (start.op = "START".toList)
      let collected ← statements.foldlM Collected.add ⟨[], [], []⟩
      let code ← collected.code.reverse.mapM fun statement => do
        let arguments ← statement.parts.mapM (argument? collected.labels)
        decode? (String.ofList statement.op) arguments
      let first := if (statements.head?.map Statement.op).any isData then .data 0 else .code 0
      some ⟨String.ofList start.label, first, code, collected.data.reverse⟩

/-- Statements up to each END, behind the last of which there is nothing. -/
def units? : List Statement → Option (List (List Statement))
  | [] => some []
  | statement :: rest =>
      if statement.op = "END".toList then (units? rest).map fun later => [] :: later
      else
        match units? rest with
        | some (unit :: later) => some ((statement :: unit) :: later)
        | _ => none

def readLines? (lines : List (List Char)) : Option (List Segment) :=
  (units? (lines.filterMap Statement.read?)).bind fun units => units.mapM Segment.assemble?

def read? (text : List Char) : Option (List Segment) := readLines? (Text.lines text)

end PascalCasl.Comet
