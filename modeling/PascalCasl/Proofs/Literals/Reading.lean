import PascalCasl.Proofs.Grammar.Literals
import PascalCasl.Proofs.Grammar.Exactness
import PascalCasl.Proofs.Token.Quoted
import PascalCasl.Proofs.Token.Scanning

/-!
The texts of a tree. They are what the string tokens that the tree was read from
stand for, one for one and in the order of the source. Tokens from the scanner
are the quoted forms of their texts.
-/

namespace PascalCasl

def Expr.texts : Expr → List String
  | .string _ text => [text]
  | .indexed _ _ index => index.texts
  | .unary _ _ operand => operand.texts
  | .binary _ _ left right => left.texts ++ right.texts
  | .number _ _ | .truth _ _ | .simple _ _ => []

/-- The texts of a program in the order of the source. -/
def Program.texts (program : Program) : List String :=
  program.procedures.flatMap (fun procedure => (valuesOf procedure.body).flatMap Expr.texts) ++
    (valuesOf program.body).flatMap Expr.texts

/-- What is written for the string tokens of a list. -/
def stringTexts (tokens : List Token) : List String :=
  (tokens.filter fun token => token.kind = .string).map Token.text

namespace Grammar

/-- What the string tokens of a list stand for. -/
def spelled (tokens : List Token) : List (Option String) :=
  (stringTexts tokens).map Text.unquoted?

def textLiterals : LiteralSort String where
  kind := .string
  read := Text.unquoted?
  inside := Expr.texts
  literal := by simp
  number _ _ _ _ := rfl
  string _ _ _ valued := by simp [Expr.texts, unquoted_text.mpr valued]
  truth _ _ := rfl
  simple _ _ := rfl
  indexed _ _ _ := rfl
  unary _ _ _ := rfl
  binary _ _ _ _ := rfl

/-! Declarations spell no text. -/

theorem bound_spells {tokens : List Token} {bound : Bound} (derived : BoundPhrase tokens bound) :
    textLiterals.told tokens = [] := by
  have skipped {numeral : Token} (isConstant : numeral.kind = .constant) :
      textLiterals.told [numeral] = [] := by
    simp [LiteralSort.told_cons, isConstant, textLiterals]
  cases derived with
  | unsigned numeral value isConstant _ => exact skipped isConstant
  | positive sign numeral value isPlus isConstant _ => simp [isPlus, skipped isConstant]
  | negative sign numeral value isMinus isConstant _ => simp [isMinus, skipped isConstant]

theorem type_spells {tokens : List Token} {type : TypeSpec} {line : Nat}
    (derived : TypePhrase tokens type line) : textLiterals.told tokens = [] := by
  cases derived with
  | standard word type named => exact textLiterals.told_valueless (type_word_valueless named) []
  | array arrayWord opening range closing ofWord word lowTokens highTokens low high element isArray
      opens lowest ranged highest closes isOf named =>
      have plain := textLiterals.told_valueless (type_word_valueless named)
      simp [isArray, opens, ranged, closes, isOf, plain,
        bound_spells lowest, bound_spells highest]

theorem vars_spell {tokens : List Token} {vars : List VarDecl} (derived : VarsPhrase tokens vars) :
    textLiterals.told tokens = [] := by
  have grouped {tokens : List Token} {vars : List VarDecl} (group : VarGroupPhrase tokens vars) :
      textLiterals.told tokens = [] := by
    cases group with
    | group nameTokens typeTokens colon semicolon names type typeLine listed isColon typed ended =>
        simp [isColon, ended, textLiterals.names_told listed, type_spells typed]
  cases derived with
  | none => rfl
  | declared word tokens vars isVar groups =>
      have inGroups : textLiterals.told tokens = [] := by
        induction groups with
        | one tokens group only => exact grouped only
        | more tokens others group groups first _ ih => simp [grouped first, ih]
      simp [isVar, inGroups]

theorem procedures_spell {tokens : List Token} {procedures : List Procedure}
    (derived : ProceduresPhrase tokens procedures) :
    textLiterals.told tokens = (procedures.flatMap fun procedure =>
      (valuesOf procedure.body).flatMap Expr.texts).map some := by
  induction derived with
  | none => rfl
  | more tokens others semicolon first rest declared ended _ ih =>
      cases declared with
      | procedure word name semicolon paramTokens varTokens blockTokens groups vars bodyLine body
          isProcedure isName params closed locals block =>
          have inBody : textLiterals.told blockTokens =
            ((valuesOf body).flatMap Expr.texts).map some := textLiterals.block_told block
          simp [isProcedure, isName, closed, ended, textLiterals.params_told params,
            vars_spell locals, inBody, ih]

theorem program_spells {tokens : List Token} {program : Program}
    (derived : ProgramPhrase tokens program) : spelled tokens = program.texts.map some := by
  change textLiterals.told tokens = _
  cases derived with
  | program word name semicolon dot varTokens procedureTokens blockTokens vars procedures bodyLine
      body isProgram isName ended globals declared block isDot =>
      have inBody : textLiterals.told blockTokens =
        ((valuesOf body).flatMap Expr.texts).map some := textLiterals.block_told block
      simp [Program.texts, isProgram, isName, ended, isDot, vars_spell globals,
        procedures_spell declared, inBody]

end Grammar

theorem texts_read {tokens : List Token} {program : Program}
    (parsed : Program.ofTokens tokens = .ok program) :
    (stringTexts (tokens.takeWhile fun token => !token.isEnd)).map Text.unquoted? =
      program.texts.map some :=
  Grammar.program_spells (sentence_iff_phrase.mp ((parse_ok_iff_sentence tokens program).mp parsed))

theorem scanned_quoted {source : String} {tokens : List Token}
    (scanned : Token.scan source = .ok tokens) :
    ∀ token ∈ tokens, token.kind = .string →
      ∃ text, Text.unquoted? token.text = some text ∧ Text.quoted text = token.text := by
  obtain ⟨named, rfl, lexemes⟩ := scan_named scanned
  intro token among isString
  rcases List.mem_append.mp among with among | among
  · have lexeme := (lexemes token among).1
    rw [isString] at lexeme
    exact lexeme.quoted_back
  · rw [List.mem_singleton.mp among] at isString
    cases isString

theorem quoted_of_unquoted {written texts : List String}
    (read : written.map Text.unquoted? = texts.map some)
    (back : ∀ literal ∈ written,
      ∃ text, Text.unquoted? literal = some text ∧ Text.quoted text = literal) :
    written = texts.map Text.quoted := by
  induction written generalizing texts with
  | nil =>
      cases texts with
      | nil => rfl
      | cons _ _ => cases read
  | cons literal written ih =>
      cases texts with
      | nil => cases read
      | cons text texts =>
          rcases List.forall_mem_cons.mp back with ⟨⟨content, unquoted, quoted⟩, others⟩
          rcases List.cons.inj read with ⟨first, rest⟩
          rw [unquoted, Option.some.injEq] at first
          rw [List.map_cons, ← first, quoted, ← ih rest others]

theorem texts_scanned {source : String} {tokens : List Token} {program : Program}
    (scanned : Token.scan source = .ok tokens) (parsed : Program.ofTokens tokens = .ok program) :
    stringTexts tokens = program.texts.map Text.quoted := by
  have back := scanned_quoted scanned
  have read := texts_read parsed
  obtain ⟨named, rfl, lexemes⟩ := scan_named scanned
  -- the only end mark is the last token, and it is no string
  rw [take_while_end_mark named [] rfl, List.takeWhile_eq_self_iff.mpr
    fun token among => by simp [Token.isEnd, (lexemes token among).1.ne_end]] at read
  have unended (line : Nat) :
      stringTexts (named ++ [Token.endOfInput line]) = stringTexts named := by
    simp [stringTexts, Token.endOfInput]
  rw [unended]
  refine quoted_of_unquoted read fun literal written => ?_
  obtain ⟨token, among, rfl⟩ := List.mem_map.mp written
  rw [List.mem_filter, decide_eq_true_eq] at among
  exact back token (List.mem_append_left _ among.1) among.2

end PascalCasl
