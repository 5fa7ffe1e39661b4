import PascalCasl.Casl.Basic
import PascalCasl.Text.Quoted

/-!
The text of assembly lines: label, operation and operands in columns between
tabs. A line without operands has two columns.
-/

namespace PascalCasl.Casl

def Register.name : Register → String
  | .gr0 => "GR0"
  | .gr1 => "GR1"
  | .gr2 => "GR2"
  | .gr3 => "GR3"
  | .gr4 => "GR4"
  | .gr5 => "GR5"
  | .gr6 => "GR6"
  | .gr7 => "GR7"
  | .gr8 => "GR8"

def Label.name : Label → String
  | .program => "CASL"
  | .entry => "BEGIN"
  | .variables => "VAR"
  | .buffer => "LIBBUF"
  | .text number => "CHAR" ++ number.repr
  | .procedure number => "PROC" ++ number.repr
  | .otherwise number => "ELSE" ++ number.repr
  | .endIf number => "ENDIF" ++ number.repr
  | .loop number => "LOOP" ++ number.repr
  | .endLoop number => "ENDLP" ++ number.repr
  | .onTrue number => "TRUE" ++ number.repr
  | .onFalse number => "FALSE" ++ number.repr
  | .both number => "BOTH" ++ number.repr

def Base.render : Base → String
  | .number value => value.repr
  | .label named => named.name

def Address.operands (address : Address) : List String :=
  address.base.render :: (address.index.map Register.name).toList

def Literal.render : Literal → String
  | .number value => "=" ++ value.repr
  | .truth true => "=#FFFF"
  | .truth false => "=#0000"
  | .character value => "=" ++ Text.quoted (String.singleton value)

def Source.operands : Source → List String
  | .register source => [source.name]
  | .memory address => address.operands
  | .literal value => [value.render]

def Arithmetic.mnemonic : Arithmetic → String
  | .add => "ADDA"
  | .subtract => "SUBA"
  | .and => "AND"
  | .or => "OR"
  | .xor => "XOR"

def Condition.mnemonic : Condition → String
  | .always => "JUMP"
  | .zero => "JZE"
  | .nonzero => "JNZ"
  | .minus => "JMI"
  | .plus => "JPL"

def Callee.name : Callee → String
  | .routine called => called.name
  | .procedure number => (Label.procedure number).name

namespace Op

def mnemonic : Op → String
  | .load _ _ => "LD"
  | .store _ _ => "ST"
  | .loadAddress _ _ => "LAD"
  | .compute operation _ _ => operation.mnemonic
  | .compareSigned _ _ => "CPA"
  | .compareUnsigned _ _ => "CPL"
  | .jump condition _ => condition.mnemonic
  | .push _ => "PUSH"
  | .pop _ => "POP"
  | .call _ => "CALL"
  | .ret => "RET"
  | .nop => "NOP"
  | .start _ => "START"
  | .reserve _ => "DS"
  | .text _ => "DC"
  | .finish => "END"

def operands : Op → List String
  | .load register source => register.name :: source.operands
  | .store register address => register.name :: address.operands
  | .loadAddress register address => register.name :: address.operands
  | .compute _ register source => register.name :: source.operands
  | .compareSigned register source => register.name :: source.operands
  | .compareUnsigned register source => register.name :: source.operands
  | .jump _ target => [target.name]
  | .push address => address.operands
  | .pop register => [register.name]
  | .call callee => [callee.name]
  | .ret => []
  | .nop => []
  | .start first => [first.name]
  | .reserve cells => [cells.repr]
  | .text characters => [Text.quoted characters]
  | .finish => []

end Op

namespace Line

def labelText (line : Line) : String :=
  match line.label? with
  | some label => label.name
  | none => ""

def columns (line : Line) : List String :=
  match line.op.operands with
  | [] => [line.labelText, line.op.mnemonic]
  | operands => [line.labelText, line.op.mnemonic, ", ".intercalate operands]

def render (line : Line) : String := "\t".intercalate line.columns ++ "\n"

end Line

def Code.render (code : Code) : String := String.join (code.map Line.render)

end PascalCasl.Casl
