import PascalCasl.Proofs.Grammar.Literals
import PascalCasl.Proofs.Grammar.Exactness

/-!
The numbers of a tree. They are the values of the numerals that the tree was
read from, one for one and in the order of the source. In a well-typed program
none of them comes near the limit at which the value of a numeral stops growing,
so each is the number that its digits stand for.
-/

namespace PascalCasl

def Expr.numbers : Expr → List Nat
  | .number _ value => [value]
  | .indexed _ _ index => index.numbers
  | .unary _ _ operand => operand.numbers
  | .binary _ _ left right => left.numbers ++ right.numbers
  | .string _ _ | .truth _ _ | .simple _ _ => []

def TypeSpec.magnitudes : TypeSpec → List Nat
  | .standard _ => []
  | .array low high _ => [low.magnitude, high.magnitude]

/-- The numbers that are written for declarations. Names that are declared
together share one type, whose bounds are written once. -/
inductive VarsNumbers : List VarDecl → List Nat → Prop
  | none : VarsNumbers [] []
  | more (group rest : List VarDecl) (type : TypeSpec) (values : List Nat) (named : group ≠ [])
      (shared : ∀ declared ∈ group, declared.type = type) (others : VarsNumbers rest values) :
      VarsNumbers (group ++ rest) (type.magnitudes ++ values)

inductive ProceduresNumbers : List Procedure → List Nat → Prop
  | none : ProceduresNumbers [] []
  | more (first : Procedure) (rest : List Procedure) (locals values : List Nat)
      (declared : VarsNumbers first.vars locals) (others : ProceduresNumbers rest values) :
      ProceduresNumbers (first :: rest)
        (locals ++ (valuesOf first.body).flatMap Expr.numbers ++ values)

/-- All numbers of a program in the order of the source. -/
inductive Program.Numbers (program : Program) : List Nat → Prop
  | all (globals inner : List Nat) (declared : VarsNumbers program.vars globals)
      (procedures : ProceduresNumbers program.procedures inner) :
      Numbers program (globals ++ inner ++ (valuesOf program.body).flatMap Expr.numbers)

/-- What is written for the number tokens of a list. -/
def numerals (tokens : List Token) : List String :=
  (tokens.filter fun token => token.kind = .constant).map Token.text

namespace Grammar

/-- The values that the number tokens of a list are read as. -/
def valued (tokens : List Token) : List (Option Nat) :=
  (PascalCasl.numerals tokens).map fun text => Text.literalValue? text.toList

def numberLiterals : LiteralSort Nat where
  kind := .constant
  read text := Text.literalValue? text.toList
  inside := Expr.numbers
  literal := by simp
  number _ _ _ valued := by simp [Expr.numbers, literal_value_numeral.mpr valued]
  string _ _ _ _ := rfl
  truth _ _ := rfl
  simple _ _ := rfl
  indexed _ _ _ := rfl
  unary _ _ _ := rfl
  binary _ _ _ _ := rfl

theorem bound_valued {tokens : List Token} {bound : Bound} (derived : BoundPhrase tokens bound) :
    numberLiterals.told tokens = [some bound.magnitude] := by
  have read {numeral : Token} {value : Nat} (isConstant : numeral.kind = .constant)
      (valued : Numeral numeral.text value) : numberLiterals.told [numeral] = [some value] := by
    simp [LiteralSort.told_cons, isConstant, numberLiterals, literal_value_numeral.mpr valued]
  cases derived with
  | unsigned numeral value isConstant valued => exact read isConstant valued
  | positive sign numeral value isPlus isConstant valued => simp [isPlus, read isConstant valued]
  | negative sign numeral value isMinus isConstant valued => simp [isMinus, read isConstant valued]

theorem type_valued {tokens : List Token} {type : TypeSpec} {line : Nat}
    (derived : TypePhrase tokens type line) :
    numberLiterals.told tokens = type.magnitudes.map some := by
  cases derived with
  | standard word type named => exact numberLiterals.told_valueless (type_word_valueless named) []
  | array arrayWord opening range closing ofWord word lowTokens highTokens low high element isArray
      opens lowest ranged highest closes isOf named =>
      have plain := numberLiterals.told_valueless (type_word_valueless named)
      simp [isArray, opens, ranged, closes, isOf, plain,
        bound_valued lowest, bound_valued highest, TypeSpec.magnitudes]

theorem group_valued {tokens : List Token} {group : List VarDecl}
    (derived : VarGroupPhrase tokens group) :
    ∃ type, group ≠ [] ∧ (∀ declared ∈ group, declared.type = type) ∧
      numberLiterals.told tokens = type.magnitudes.map some := by
  cases derived with
  | group nameTokens typeTokens colon semicolon names type typeLine listed isColon typed ended =>
      have named : names ≠ [] := by cases listed <;> simp
      refine ⟨type, by simp [named], by simp, ?_⟩
      simp [isColon, ended, numberLiterals.names_told listed, type_valued typed]

theorem vars_valued {tokens : List Token} {vars : List VarDecl} (derived : VarsPhrase tokens vars) :
    ∃ values, VarsNumbers vars values ∧ numberLiterals.told tokens = values.map some := by
  cases derived with
  | none => exact ⟨[], .none, rfl⟩
  | declared word tokens vars isVar groups =>
      rw [numberLiterals.told_valueless (by simp [isVar])]
      clear isVar
      induction groups with
      | one tokens group only =>
          obtain ⟨type, named, shared, read⟩ := group_valued only
          refine ⟨type.magnitudes ++ [], ?_, by simp [read]⟩
          simpa using VarsNumbers.more group [] type [] named shared .none
      | more tokens others group groups first _ ih =>
          obtain ⟨type, named, shared, read⟩ := group_valued first
          obtain ⟨values, numbered, rest⟩ := ih
          exact ⟨_, .more group groups type values named shared numbered, by simp [read, rest]⟩

theorem procedures_valued {tokens : List Token} {procedures : List Procedure}
    (derived : ProceduresPhrase tokens procedures) :
    ∃ values, ProceduresNumbers procedures values ∧
      numberLiterals.told tokens = values.map some := by
  induction derived with
  | none => exact ⟨[], .none, rfl⟩
  | more tokens others semicolon first rest declared ended _ ih =>
      obtain ⟨values, numbered, read⟩ := ih
      cases declared with
      | procedure word name semicolon paramTokens varTokens blockTokens groups vars bodyLine body
          isProcedure isName params closed locals block =>
          obtain ⟨own, declared, inLocals⟩ := vars_valued locals
          have inBody : numberLiterals.told blockTokens =
            ((valuesOf body).flatMap Expr.numbers).map some := numberLiterals.block_told block
          refine ⟨_, .more _ rest own values declared numbered, ?_⟩
          simp [isProcedure, isName, closed, ended, numberLiterals.params_told params, inLocals,
            inBody, read]

theorem program_valued {tokens : List Token} {program : Program}
    (derived : ProgramPhrase tokens program) :
    ∃ values, program.Numbers values ∧ valued tokens = values.map some := by
  change ∃ values, program.Numbers values ∧ numberLiterals.told tokens = values.map some
  cases derived with
  | program word name semicolon dot varTokens procedureTokens blockTokens vars procedures bodyLine
      body isProgram isName ended globals declared block isDot =>
      obtain ⟨outer, inVars, readVars⟩ := vars_valued globals
      obtain ⟨inner, inProcedures, readProcedures⟩ := procedures_valued declared
      have inBody : numberLiterals.told blockTokens =
        ((valuesOf body).flatMap Expr.numbers).map some := numberLiterals.block_told block
      refine ⟨_, .all outer inner inVars inProcedures, ?_⟩
      simp [isProgram, isName, ended, isDot, readVars, readProcedures, inBody]

end Grammar

/-- Every number is one of the type integer: at most 32767, or 32768 directly
under a minus sign. -/
def Expr.Representable : Expr → Prop
  | .number _ value => value ≤ 32767
  | .unary _ .minus (.number _ value) => value ≤ 32768
  | .unary _ _ operand => operand.Representable
  | .indexed _ _ index => index.Representable
  | .binary _ _ left right => left.Representable ∧ right.Representable
  | .string _ _ | .truth _ _ | .simple _ _ => True

def Program.values (program : Program) : List Expr :=
  program.procedures.flatMap (fun procedure => valuesOf procedure.body) ++ valuesOf program.body

theorem representable_unary {line : Nat} {op : UnaryOp} {operand : Expr}
    (inner : operand.Representable) : (Expr.unary line op operand).Representable := by
  cases op with
  | plus => exact inner
  | not => exact inner
  | minus =>
      cases operand with
      | number _ _ => exact Nat.le_succ_of_le inner
      | _ => exact inner

theorem typed_representable {context : Context} {value : Expr} {type : Ty}
    (typed : context.HasType value type) : value.Representable := by
  induction typed with
  | number small => exact small
  | negated small => exact small
  | character _ | text _ | truth | simple _ => trivial
  | element _ _ ih => exact ih
  | signed _ _ ih => exact representable_unary ih
  | negation _ ih => exact representable_unary ih
  | arithmetic _ _ _ leftIh rightIh => exact ⟨leftIh, rightIh⟩
  | logical _ _ _ leftIh rightIh => exact ⟨leftIh, rightIh⟩
  | relation _ _ _ leftIh rightIh => exact ⟨leftIh, rightIh⟩

theorem representable_numbers {value : Expr} (representable : value.Representable) :
    ∀ number ∈ value.numbers, number ≤ 32768 := by
  fun_induction Expr.Representable value with
  | case1 line value => simpa [Expr.numbers] using Nat.le_succ_of_le representable
  | case2 line numberLine value => simpa [Expr.numbers] using representable
  | case3 line op operand _ ih => exact ih representable
  | case4 line name index ih => exact ih representable
  | case5 line op left right leftIh rightIh =>
      exact List.forall_mem_append.mpr ⟨leftIh representable.1, rightIh representable.2⟩
  | case6 | case7 | case8 => simp [Expr.numbers]

theorem body_representable {context : Context} {body : List Stmt}
    (typed : ∀ statement ∈ body, context.WellTyped statement) :
    ∀ value ∈ valuesOf body, value.Representable := by
  intro value member
  rw [values_of_eq, List.mem_flatMap] at member
  obtain ⟨statement, inBody, inStatement⟩ := member
  obtain ⟨_, valueTyped⟩ := values_typed (typed statement inBody) value inStatement
  exact typed_representable valueTyped

theorem program_representable {program : Program} (wellTyped : program.WellTyped) :
    ∀ value ∈ program.values, value.Representable := by
  refine List.forall_mem_append.mpr ⟨fun value member => ?_, body_representable wellTyped.body⟩
  obtain ⟨procedure, listed, inBody⟩ := List.mem_flatMap.mp member
  obtain ⟨earlier, later, split⟩ := List.append_of_mem listed
  exact body_representable (wellTyped.procedures earlier procedure later split).body value inBody

theorem magnitudes_small {type : TypeSpec} (wellFormed : type.WellFormed) :
    ∀ number ∈ type.magnitudes, number ≤ 32768 := by
  have small {bound : Bound} (literal : bound.IsLiteral) : bound.magnitude ≤ 32768 := by
    rcases literal with magnitude | ⟨_, magnitude⟩ <;> omega
  cases wellFormed with
  | standard => simp [TypeSpec.magnitudes]
  | array lowLiteral highLiteral _ =>
      simpa [TypeSpec.magnitudes] using ⟨small lowLiteral, small highLiteral⟩

theorem vars_numbers_small {vars : List VarDecl} {values : List Nat}
    (numbered : VarsNumbers vars values)
    (wellFormed : ∀ declared ∈ vars, declared.type.WellFormed) :
    ∀ number ∈ values, number ≤ 32768 := by
  induction numbered with
  | none => simp
  | more group rest type values named shared _ ih =>
      obtain ⟨inGroup, inRest⟩ := List.forall_mem_append.mp wellFormed
      obtain ⟨first, member⟩ := List.exists_mem_of_ne_nil group named
      have typeFormed := shared first member ▸ inGroup first member
      exact List.forall_mem_append.mpr ⟨magnitudes_small typeFormed, ih inRest⟩

theorem values_numbers_small {values : List Expr}
    (representable : ∀ value ∈ values, value.Representable) :
    ∀ number ∈ values.flatMap Expr.numbers, number ≤ 32768 := by
  intro number member
  obtain ⟨value, among, inside⟩ := List.mem_flatMap.mp member
  exact representable_numbers (representable value among) number inside

theorem procedures_numbers_small {procedures : List Procedure} {values : List Nat}
    (numbered : ProceduresNumbers procedures values)
    (wellFormed : ∀ procedure ∈ procedures, ∀ declared ∈ procedure.vars, declared.type.WellFormed)
    (representable : ∀ procedure ∈ procedures, ∀ value ∈ valuesOf procedure.body,
      value.Representable) :
    ∀ number ∈ values, number ≤ 32768 := by
  induction numbered with
  | none => simp
  | more first rest locals values declared _ ih =>
      obtain ⟨formed, othersFormed⟩ := List.forall_mem_cons.mp wellFormed
      obtain ⟨own, others⟩ := List.forall_mem_cons.mp representable
      exact List.forall_mem_append.mpr ⟨List.forall_mem_append.mpr
        ⟨vars_numbers_small declared formed, values_numbers_small own⟩, ih othersFormed others⟩

theorem program_numbers_small {program : Program} (wellTyped : program.WellTyped)
    {values : List Nat} (numbered : program.Numbers values) :
    ∀ number ∈ values, number ≤ 32768 := by
  cases numbered with
  | all globals inner declared procedures =>
      have formed : ∀ procedure ∈ program.procedures, ∀ declared ∈ procedure.vars,
          declared.type.WellFormed := by
        intro procedure listed
        obtain ⟨earlier, later, split⟩ := List.append_of_mem listed
        exact (wellTyped.procedures earlier procedure later split).bounds
      obtain ⟨inProcedures, inBody⟩ := List.forall_mem_append.mp (program_representable wellTyped)
      have each : ∀ procedure ∈ program.procedures, ∀ value ∈ valuesOf procedure.body,
          value.Representable := fun procedure listed value member =>
        inProcedures value (List.mem_flatMap_of_mem listed member)
      exact List.forall_mem_append.mpr ⟨List.forall_mem_append.mpr
        ⟨vars_numbers_small declared wellTyped.bounds,
          procedures_numbers_small procedures formed each⟩, values_numbers_small inBody⟩

/-- Below the limit the value of a numeral is the number its digits stand for. -/
theorem literal_value_exact {text : List Char} {value : Nat}
    (read : Text.literalValue? text = some value) (below : value < Text.literalLimit) :
    Text.digitsValue? text = some value := by
  obtain ⟨exact, digits, limited⟩ := Option.map_eq_some_iff.mp read
  rw [digits]
  congr 1
  omega

/-- The numbers of an accepted program are those that are written for them. -/
theorem numbers_read {tokens : List Token} {program : Program}
    (parsed : Program.ofTokens tokens = .ok program) (wellTyped : program.WellTyped) :
    ∃ values, program.Numbers values ∧
      (numerals (tokens.takeWhile fun token => !token.isEnd)).map
        (fun text => Text.digitsValue? text.toList) = values.map some := by
  have derived := sentence_iff_phrase.mp ((parse_ok_iff_sentence tokens program).mp parsed)
  obtain ⟨values, numbered, read⟩ := Grammar.program_valued derived
  have small := program_numbers_small wellTyped numbered
  refine ⟨values, numbered, Eq.trans (List.map_congr_left fun text written => ?_) read⟩
  have valued : Text.literalValue? text.toList ∈
      Grammar.valued (tokens.takeWhile fun token => !token.isEnd) := List.mem_map_of_mem written
  rw [read] at valued
  obtain ⟨value, among, same⟩ := List.mem_map.mp valued
  have below : value < Text.literalLimit := Nat.lt_of_le_of_lt (small value among) (by decide)
  rw [← same]
  exact literal_value_exact same.symm below

end PascalCasl
