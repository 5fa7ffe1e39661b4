import PascalCasl.Proofs.Code.Rendering
import PascalCasl.Proofs.Grammar.Exactness
import PascalCasl.Proofs.Tree.Rows

/-!
The printed tree is faithful. A row is read back from its line: the blanks in
front of it give its depth, the letters after them its label, and what stands
between the parentheses its text, whatever that holds apart from a line feed. So
the printed text determines the rows, and the rows the outline of the tree.
-/

namespace PascalCasl.Rows

/-- A label: one or more letters. -/
def IsWord (label : String) : Prop := label.toList ≠ [] ∧ label.toList.all Char.isAlpha = true

instance (label : String) : Decidable (IsWord label) :=
  inferInstanceAs (Decidable (label.toList ≠ [] ∧ label.toList.all Char.isAlpha = true))

def OnOneLine (text : String) : Prop := '\n' ∉ text.toList

instance (text : String) : Decidable (OnOneLine text) :=
  inferInstanceAs (Decidable ('\n' ∉ text.toList))

/-- A row that is printed on one line and read back from it. -/
structure Row.Legible (row : Row) : Prop where
  label : IsWord row.label
  text : ∀ text ∈ row.text?, OnOneLine text

def Row.line (row : Row) : List Char :=
  (indent row.depth).toList ++ row.label.toList ++
    row.text?.elim [] fun text => ' ' :: '(' :: (text.toList ++ [')'])

theorem render_line (row : Row) : row.render.toList = row.line ++ ['\n'] := by
  rcases row with ⟨depth, label, _ | text⟩ <;> simp [Row.render, Row.line]

def Row.read (line : List Char) : Row where
  depth := (line.takeWhile (· = ' ')).length / 2
  label := String.ofList ((line.dropWhile (· = ' ')).takeWhile Char.isAlpha)
  text? :=
    match (line.dropWhile (· = ' ')).dropWhile Char.isAlpha with
    | ' ' :: '(' :: rest => some (String.ofList rest.dropLast)
    | _ => none

theorem indent_blanks (depth : Nat) : (indent depth).toList = List.replicate (2 * depth) ' ' := by
  induction depth with
  | zero => rfl
  | succ depth ih =>
      rw [indent, String.toList_append, ih, Nat.mul_succ, Nat.add_comm, List.replicate_add]
      rfl

theorem read_line {row : Row} (legible : row.Legible) : Row.read row.line = row := by
  rcases row with ⟨depth, label, text?⟩
  have letters : ∀ c ∈ label.toList, c.isAlpha = true := List.all_eq_true.mp legible.label.2
  have begun (tail : List Char) : ∀ c ∈ (label.toList ++ tail).head?, decide (c = ' ') = false := by
    obtain ⟨first, more, spelled⟩ := List.exists_cons_of_ne_nil legible.label.1
    rw [spelled]
    rintro c ⟨⟩
    have letter := letters first (spelled ▸ List.mem_cons_self)
    rw [decide_eq_false_iff_not]
    rintro rfl
    exact absurd letter (by decide)
  have blanks : ∀ c ∈ (indent depth).toList, decide (c = ' ') = true := by
    rw [indent_blanks]
    intro c among
    simp [List.eq_of_mem_replicate among]
  -- the depth is told by the blanks, of which there are two for each level
  have half : (indent depth).toList.length / 2 = depth := by
    rw [indent_blanks, List.length_replicate, Nat.mul_div_cancel_left depth (by decide)]
  cases text? with
  | none =>
      have front := Text.run_split blanks (begun [])
      have ends : ∀ c ∈ ([] : List Char).head?, c.isAlpha = false := by simp
      have word := Text.run_split letters ends
      simp only [Row.read, Row.line, Option.elim, List.append_assoc, front, word, half,
        String.ofList_toList]
  | some text =>
      have front := Text.run_split blanks (begun (' ' :: '(' :: (text.toList ++ [')'])))
      have ends : ∀ c ∈ (' ' :: '(' :: (text.toList ++ [')'])).head?, c.isAlpha = false := by simp
      have word := Text.run_split letters ends
      simp only [Row.read, Row.line, Option.elim, List.append_assoc, front, word, half,
        String.ofList_toList, List.dropLast_concat]

theorem line_whole {row : Row} (legible : row.Legible) : '\n' ∉ row.line := by
  rcases row with ⟨depth, label, text?⟩
  have letters : ∀ c ∈ label.toList, c.isAlpha = true := List.all_eq_true.mp legible.label.2
  have labelled : '\n' ∉ label.toList := fun among => absurd (letters _ among) (by decide)
  have indented : '\n' ∉ (indent depth).toList := by
    rw [indent_blanks]
    exact fun among => absurd (List.eq_of_mem_replicate among) (by decide)
  cases text? with
  | none => simp [Row.line, labelled, indented]
  | some text =>
      have written : '\n' ∉ text.toList := legible.text text rfl
      simp [Row.line, labelled, indented, written]

def readRows (text : String) : List Row := (Text.pieces '\n' text.toList).dropLast.map Row.read

theorem read_rows {rows : List Row} (legible : ∀ row ∈ rows, row.Legible) :
    readRows (String.join (rows.map Row.render)) = rows := by
  have lines : Text.pieces '\n' (String.join (rows.map Row.render)).toList =
      rows.map Row.line ++ [[]] := by
    induction rows with
    | nil => rfl
    | cons first rest ih =>
        rcases List.forall_mem_cons.mp legible with ⟨head, tail⟩
        have split : (String.join ((first :: rest).map Row.render)).toList =
            first.line ++ '\n' :: (String.join (rest.map Row.render)).toList := by
          simp [render_line]
        rw [split, Text.pieces_append (line_whole head), ih tail]
        rfl
  rw [readRows, lines, List.dropLast_concat, List.map_map]
  exact (List.map_congr_left fun row member => read_line (legible row member)).trans
    (List.map_id rows)

def Legible (rows : List Row) : Prop := ∀ row ∈ rows, row.Legible

@[simp] theorem legible_nil : Legible [] := fun _ member => absurd member List.not_mem_nil

@[simp] theorem legible_cons {row : Row} {rows : List Row} :
    Legible (row :: rows) ↔ row.Legible ∧ Legible rows := List.forall_mem_cons

@[simp] theorem legible_append {rows more : List Row} :
    Legible (rows ++ more) ↔ Legible rows ∧ Legible more := List.forall_mem_append

theorem legible_flat_map {α : Type} {items : List α} {rows : α → List Row}
    (each : ∀ item ∈ items, Legible (rows item)) : Legible (items.flatMap rows) := by
  intro row member
  obtain ⟨item, listed, among⟩ := List.mem_flatMap.mp member
  exact each item listed row among

theorem bare_legible (depth : Nat) {label : String} (word : IsWord label) :
    (bare depth label).Legible := ⟨word, by simp [bare]⟩

theorem titled_legible (depth : Nat) {label text : String} (word : IsWord label)
    (single : OnOneLine text) : (titled depth label text).Legible :=
  ⟨word, by simpa [titled] using single⟩

theorem expr_label_word (value : Expr) : IsWord value.label := by
  cases value <;> simp only [Expr.label] <;> decide

theorem target_label_word (assigned : Target) : IsWord assigned.label := by
  cases assigned <;> simp only [Target.label] <;> decide

theorem stmt_label_word (statement : Stmt) : IsWord statement.label := by
  cases statement <;> simp only [Stmt.label] <;> decide

theorem type_label_word (type : TypeSpec) : IsWord type.label := by
  cases type <;> simp only [TypeSpec.label] <;> decide

theorem unary_symbol_single (op : UnaryOp) : OnOneLine op.symbol := by
  cases op <;> decide

theorem binary_symbol_single (op : BinaryOp) : OnOneLine op.symbol := by
  cases op <;> decide

theorem standard_name_single (type : StandardType) : OnOneLine type.name := by
  cases type <;> decide

theorem truth_name_single (value : Bool) : OnOneLine (truthName value) := by
  cases value <;> decide

section

variable {depth : Nat}

theorem simple_legible {line : Nat} {name : String} (single : OnOneLine name) :
    Legible (expr depth (.simple line name)) := by
  rw [expr, legible_cons]
  exact ⟨titled_legible depth (expr_label_word _) single, legible_nil⟩

theorem indexed_legible {line : Nat} {name : String} {index : Expr} (single : OnOneLine name)
    (inner : Legible (expr (depth + 1) index)) : Legible (expr depth (.indexed line name index)) := by
  rw [expr, legible_cons]
  exact ⟨titled_legible depth (expr_label_word _) single, inner⟩

theorem unary_legible {line : Nat} {op : UnaryOp} {operand : Expr}
    (inner : Legible (expr (depth + 1) operand)) : Legible (expr depth (.unary line op operand)) := by
  rw [expr, legible_cons]
  exact ⟨titled_legible depth (expr_label_word _) (unary_symbol_single op), inner⟩

theorem binary_legible {line : Nat} {op : BinaryOp} {left right : Expr}
    (first : Legible (expr (depth + 1) left)) (second : Legible (expr (depth + 1) right)) :
    Legible (expr depth (.binary line op left right)) := by
  rw [expr, legible_cons, legible_append]
  exact ⟨titled_legible depth (expr_label_word _) (binary_symbol_single op), first, second⟩

end

end PascalCasl.Rows

namespace PascalCasl

open Grammar
open Rows (OnOneLine Legible)

def OneLined (tokens : List Token) : Prop := ∀ token ∈ tokens, OnOneLine token.text

section

variable {tokens others : List Token} {depth : Nat}

@[simp] theorem one_lined_cons {token : Token} :
    OneLined (token :: tokens) ↔ OnOneLine token.text ∧ OneLined tokens := List.forall_mem_cons

@[simp] theorem one_lined_append :
    OneLined (tokens ++ others) ↔ OneLined tokens ∧ OneLined others := List.forall_mem_append

theorem quoted_on_one_line {text content : String} (quoted : QuotedText text content)
    (single : OnOneLine text) : OnOneLine ("'" ++ content ++ "'") := by
  obtain ⟨inner, spelled, rfl⟩ := quoted
  have inside : '\n' ∉ inner := by
    intro among
    apply single
    rw [spelled]
    simp [among]
  have folded : '\n' ∉ Text.foldQuotes inner := fun among => inside (Text.mem_folded among)
  simp [OnOneLine, folded]

theorem expr_legible {level : Level} {value : Expr} (derived : ExprPhrase level tokens value)
    (single : OneLined tokens) : Legible (Rows.expr depth value) := by
  induction derived generalizing depth with
  | name name isName =>
      rw [one_lined_cons] at single
      exact Rows.simple_legible single.1
  | element name opening closing inner index isName opens _ closes ih =>
      rw [one_lined_cons, one_lined_cons, one_lined_append] at single
      exact Rows.indexed_legible single.1 (ih single.2.2.1)
  | parenthesised opening closing inner tree opens _ closes ih =>
      rw [one_lined_cons, one_lined_append] at single
      exact ih single.2.1
  | negation word operand tree isNot _ ih =>
      rw [one_lined_cons] at single
      exact Rows.unary_legible (ih single.2)
  | number numeral value isConstant _ =>
      rw [Rows.expr, Rows.legible_cons]
      exact ⟨Rows.titled_legible depth (Rows.expr_label_word _) (solid_number value).2,
        Rows.legible_nil⟩
  -- what is printed is the content, which has no line feed when the literal has none
  | string literal content isString valued =>
      rw [one_lined_cons] at single
      rw [Rows.expr, Rows.legible_cons]
      exact ⟨Rows.titled_legible depth (Rows.expr_label_word _) (quoted_on_one_line valued single.1),
        Rows.legible_nil⟩
  | trueValue word isTrue =>
      rw [Rows.expr, Rows.legible_cons]
      exact ⟨Rows.titled_legible depth (Rows.expr_label_word _) (Rows.truth_name_single true),
        Rows.legible_nil⟩
  | falseValue word isFalse =>
      rw [Rows.expr, Rows.legible_cons]
      exact ⟨Rows.titled_legible depth (Rows.expr_label_word _) (Rows.truth_name_single false),
        Rows.legible_nil⟩
  | ofFactor tokens tree _ ih => exact ih single
  | product left right mark op leftTree rightTree _ marked _ leftIh rightIh =>
      rw [one_lined_append, one_lined_cons] at single
      exact Rows.binary_legible (leftIh single.1) (rightIh single.2.2)
  | ofTerm tokens tree _ ih => exact ih single
  | signed sign op tokens tree marked _ ih =>
      rw [one_lined_cons] at single
      exact Rows.unary_legible (ih single.2)
  | sum left right mark op leftTree rightTree _ marked _ leftIh rightIh =>
      rw [one_lined_append, one_lined_cons] at single
      exact Rows.binary_legible (leftIh single.1) (rightIh single.2.2)
  | ofSimple tokens tree _ ih => exact ih single
  | relation left right mark op leftTree rightTree _ marked _ leftIh rightIh =>
      rw [one_lined_append, one_lined_cons] at single
      exact Rows.binary_legible (leftIh single.1) (rightIh single.2.2)

theorem target_legible {assigned : Target} (derived : TargetPhrase tokens assigned)
    (single : OneLined tokens) : Legible (Rows.target depth assigned) := by
  cases derived with
  | name name isName =>
      rw [one_lined_cons] at single
      rw [Rows.target, Rows.legible_cons]
      exact ⟨Rows.titled_legible depth (Rows.target_label_word _) single.1, Rows.legible_nil⟩
  | element name opening closing inner index isName opens within closes =>
      rw [one_lined_cons, one_lined_cons, one_lined_append] at single
      rw [Rows.target, Rows.legible_cons]
      exact ⟨Rows.titled_legible depth (Rows.target_label_word _) single.1,
        expr_legible within single.2.2.1⟩

variable {α : Type} {values : List α} {rows : α → List Rows.Row}

theorem separated_legible {separator : Kind} {item : List Token → α → Prop}
    (listed : Separated separator item tokens values) (single : OneLined tokens)
    (each : ∀ tokens value, item tokens value → OneLined tokens → Legible (rows value)) :
    Legible (values.flatMap rows) := by
  induction listed with
  | one tokens value only => simpa using each tokens value only single
  | more tokens others mark value values first marked _ ih =>
      rw [one_lined_append, one_lined_cons] at single
      rw [List.flatMap_cons, Rows.legible_append]
      exact ⟨each tokens value first single.1, ih single.2.2⟩

theorem optional_legible {list : List Token → List α → Prop} (listed : Optional list tokens values)
    (single : OneLined tokens)
    (each : ∀ tokens values, list tokens values → OneLined tokens →
      Legible (values.flatMap rows)) : Legible (values.flatMap rows) := by
  cases listed with
  | absent => exact Rows.legible_nil
  | present opening closing inner _ opens within closes =>
      rw [one_lined_cons, one_lined_append] at single
      exact each inner values within single.2.1

theorem listed_legible {item : List Token → α → Prop}
    (listed : Optional (Separated .comma item) tokens values) (single : OneLined tokens)
    (each : ∀ tokens value, item tokens value → OneLined tokens → Legible (rows value)) :
    Legible (values.flatMap rows) :=
  optional_legible listed single fun _ _ items single => separated_legible items single each

end

mutual

theorem stmt_legible (depth : Nat) : ∀ {tokens : List Token} {statement : Stmt},
    StmtPhrase tokens statement → OneLined tokens → Legible (Rows.stmt depth statement)
  | _, _, .assign left right mark assigned value target marked source, single => by
      rw [one_lined_append, one_lined_cons] at single
      simp only [Rows.stmt, Rows.legible_cons, Rows.legible_append]
      exact ⟨Rows.titled_legible depth (Rows.stmt_label_word _) (by decide),
        Rows.bare_legible _ (by decide), target_legible target single.1,
        expr_legible source single.2.2⟩
  | _, _, .call name tokens arguments isName listed, single => by
      rw [one_lined_cons] at single
      rw [Rows.stmt, Rows.legible_cons]
      exact ⟨Rows.titled_legible depth (Rows.stmt_label_word _) single.1,
        listed_legible listed single.2 fun _ _ item single => expr_legible item single⟩
  | _, _, .ifThen ifWord thenWord test thenTokens condition thenLine thenBody isIf tested isThen
      thenBlock, single => by
      rw [one_lined_cons, one_lined_append, one_lined_cons] at single
      simp only [Rows.stmt, Rows.legible_cons, Rows.legible_append]
      exact ⟨Rows.bare_legible depth (Rows.stmt_label_word _), Rows.bare_legible _ (by decide),
        expr_legible tested single.2.1, Rows.bare_legible _ (by decide),
        Rows.bare_legible _ (by decide), block_legible _ thenBlock single.2.2.2,
        Rows.bare_legible _ (by decide), Rows.legible_nil⟩
  | _, _, .ifElse ifWord thenWord elseWord test thenTokens elseTokens condition thenLine thenBody
      elseLine elseBody isIf tested isThen thenBlock isElse elseBlock, single => by
      rw [one_lined_cons, one_lined_append, one_lined_cons, one_lined_append, one_lined_cons]
        at single
      simp only [Rows.stmt, Rows.legible_cons, Rows.legible_append]
      exact ⟨Rows.bare_legible depth (Rows.stmt_label_word _), Rows.bare_legible _ (by decide),
        expr_legible tested single.2.1, Rows.bare_legible _ (by decide),
        Rows.bare_legible _ (by decide), block_legible _ thenBlock single.2.2.2.1,
        Rows.bare_legible _ (by decide), Rows.bare_legible _ (by decide),
        block_legible _ elseBlock single.2.2.2.2.2⟩
  | _, _, .whileDo whileWord doWord test tokens condition bodyLine body isWhile tested isDo block,
      single => by
      rw [one_lined_cons, one_lined_append, one_lined_cons] at single
      simp only [Rows.stmt, Rows.legible_cons, Rows.legible_append]
      exact ⟨Rows.bare_legible depth (Rows.stmt_label_word _), Rows.bare_legible _ (by decide),
        expr_legible tested single.2.1, Rows.bare_legible _ (by decide),
        block_legible _ block single.2.2.2⟩
  | _, _, .read word tokens targets isRead listed, single => by
      rw [one_lined_cons] at single
      rw [Rows.stmt, Rows.legible_cons]
      refine ⟨Rows.titled_legible depth (Rows.stmt_label_word _) (by decide),
        listed_legible listed single.2 fun _ _ item single => ?_⟩
      exact Rows.legible_cons.mpr ⟨Rows.bare_legible _ (by decide), target_legible item single⟩
  | _, _, .write word tokens values isWrite listed, single => by
      rw [one_lined_cons] at single
      rw [Rows.stmt, Rows.legible_cons]
      refine ⟨Rows.titled_legible depth (Rows.stmt_label_word _) (by decide),
        listed_legible listed single.2 fun _ _ item single => ?_⟩
      exact Rows.legible_cons.mpr ⟨Rows.bare_legible _ (by decide), expr_legible item single⟩
  | _, _, .block tokens line body block, single => by
      rw [Rows.stmt, Rows.legible_cons]
      exact ⟨Rows.bare_legible depth (Rows.stmt_label_word _), block_legible _ block single⟩

theorem block_legible (depth : Nat) : ∀ {tokens : List Token} {line : Nat} {body : List Stmt},
    BlockPhrase tokens line body → OneLined tokens → Legible (Rows.stmts depth body)
  | _, _, _, .block beginWord endWord tokens body isBegin within isEnd, single => by
      rw [one_lined_cons, one_lined_append] at single
      exact stmts_legible depth within single.2.1

theorem stmts_legible (depth : Nat) : ∀ {tokens : List Token} {body : List Stmt},
    StmtsPhrase tokens body → OneLined tokens → Legible (Rows.stmts depth body)
  | _, _, .none, _ => Rows.legible_nil
  | _, _, .more tokens others mark first rest statement ended statements, single => by
      rw [one_lined_append, one_lined_cons] at single
      rw [Rows.stmts, Rows.legible_append]
      exact ⟨stmt_legible depth statement single.1, stmts_legible depth statements single.2.2⟩

end

section

variable {tokens : List Token} {depth : Nat}

theorem type_legible (type : TypeSpec) : Legible (Rows.typeSpec depth type) := by
  cases type with
  | standard type =>
      rw [Rows.typeSpec, Rows.legible_cons]
      exact ⟨Rows.titled_legible depth (Rows.type_label_word _) (Rows.standard_name_single type),
        Rows.legible_nil⟩
  | array low high element =>
      simp only [Rows.typeSpec, Rows.legible_cons]
      exact ⟨Rows.bare_legible depth (Rows.type_label_word _),
        Rows.titled_legible _ (by decide) (solid_integer low.value).2,
        Rows.titled_legible _ (by decide) (solid_integer high.value).2,
        Rows.titled_legible _ (by decide) (Rows.standard_name_single element), Rows.legible_nil⟩

theorem names_single {names : List Token} (listed : Separated .comma NamePhrase tokens names)
    (single : OneLined tokens) : OneLined names := by
  induction listed with
  | one tokens name only =>
      cases only
      exact single
  | more tokens others mark name names first marked _ ih =>
      cases first
      simp only [List.cons_append, List.nil_append, one_lined_cons] at single
      exact one_lined_cons.mpr ⟨single.1, ih single.2.2⟩

theorem var_group_legible {vars : List VarDecl} (derived : VarGroupPhrase tokens vars)
    (single : OneLined tokens) : Legible (vars.flatMap (Rows.varDecl depth)) := by
  cases derived with
  | group nameTokens typeTokens colon semicolon names type typeLine listed isColon typed ended =>
      have named := names_single listed (one_lined_append.mp single).1
      refine Rows.legible_flat_map fun declared member => ?_
      obtain ⟨name, among, rfl⟩ := List.mem_map.mp member
      rw [Rows.varDecl, Rows.legible_cons]
      exact ⟨Rows.titled_legible depth (by decide) (named name among), type_legible type⟩

theorem vars_legible {vars : List VarDecl} (derived : VarsPhrase tokens vars)
    (single : OneLined tokens) : Legible (vars.flatMap (Rows.varDecl depth)) := by
  cases derived with
  | none => exact Rows.legible_nil
  | declared word tokens vars isVar groups =>
      rw [one_lined_cons] at single
      have inside := single.2
      clear single
      induction groups with
      | one tokens group only => exact var_group_legible only inside
      | more tokens others group groups first _ ih =>
          rw [one_lined_append] at inside
          rw [List.flatMap_append, Rows.legible_append]
          exact ⟨var_group_legible first inside.1, ih inside.2⟩

theorem param_group_legible {params : List Param} (derived : ParamGroupPhrase tokens params)
    (single : OneLined tokens) : Legible (params.flatMap (Rows.param depth)) := by
  cases derived with
  | group nameTokens colon word names type listed isColon named =>
      have single := names_single listed (one_lined_append.mp single).1
      refine Rows.legible_flat_map fun declared member => ?_
      obtain ⟨name, among, rfl⟩ := List.mem_map.mp member
      simp only [Rows.param, Rows.legible_cons]
      exact ⟨Rows.titled_legible depth (by decide) (single name among),
        Rows.titled_legible _ (by decide) (Rows.standard_name_single type), Rows.legible_nil⟩

theorem procedure_legible {declared : Procedure} (derived : ProcedurePhrase tokens declared)
    (single : OneLined tokens) : Legible (Rows.procedure depth declared) := by
  cases derived with
  | procedure word name semicolon paramTokens varTokens blockTokens groups vars bodyLine body
      isProcedure isName params ended locals block =>
      simp only [one_lined_cons, one_lined_append] at single
      obtain ⟨_, nameSingle, paramsSingle, _, varsSingle, blockSingle⟩ := single
      have given : Legible (groups.flatten.flatMap (Rows.param (depth + 2))) := by
        rw [List.flatten_eq_flatMap, List.flatMap_assoc]
        exact optional_legible params paramsSingle fun _ _ items single =>
          separated_legible items single fun _ _ item single => param_group_legible item single
      simp only [Rows.procedure, Rows.block, Rows.legible_cons, Rows.legible_append]
      exact ⟨Rows.bare_legible depth (by decide), Rows.titled_legible _ (by decide) nameSingle,
        ⟨given, vars_legible locals varsSingle⟩, Rows.bare_legible _ (by decide),
        block_legible _ block blockSingle⟩

theorem procedures_legible {procedures : List Procedure}
    (derived : ProceduresPhrase tokens procedures) (single : OneLined tokens) :
    Legible (procedures.flatMap (Rows.procedure depth)) := by
  induction derived with
  | none => exact Rows.legible_nil
  | more tokens others semicolon first rest declared ended _ ih =>
      rw [one_lined_append, one_lined_cons] at single
      rw [List.flatMap_cons, Rows.legible_append]
      exact ⟨procedure_legible declared single.1, ih single.2.2⟩

theorem program_legible {tree : Program} (derived : ProgramPhrase tokens tree)
    (single : OneLined tokens) : Legible (Rows.program tree) := by
  cases derived with
  | program word name semicolon dot varTokens procedureTokens blockTokens vars procedures bodyLine
      body isProgram isName ended globals declared block isDot =>
      simp only [one_lined_cons, one_lined_append] at single
      obtain ⟨_, nameSingle, _, varsSingle, proceduresSingle, blockSingle, _⟩ := single
      simp only [Rows.program, Rows.block, Rows.legible_cons, Rows.legible_append]
      exact ⟨Rows.bare_legible _ (by decide), Rows.titled_legible _ (by decide) nameSingle,
        ⟨vars_legible globals varsSingle, procedures_legible declared proceduresSingle⟩,
        Rows.bare_legible _ (by decide), block_legible _ block blockSingle⟩

end

theorem rows_of_render {tokens : List Token} {tree : Program} (single : OneLined tokens)
    (parsed : Program.ofTokens tokens = .ok tree) :
    Rows.readRows tree.render = Rows.program tree := by
  have derived := sentence_iff_phrase.mp ((parse_ok_iff_sentence tokens tree).mp parsed)
  refine Rows.read_rows (program_legible derived fun token member => ?_)
  exact single token (List.takeWhile_subset _ member)

/-- Trees of tokens without line feeds that print alike differ at most in lines
and in the signs of zero bounds; so both are accepted or neither is, and they
have the same code or none. -/
theorem printing_faithful (first second : List Token) (one two : Program)
    (single : OneLined first) (singleToo : OneLined second)
    (parsed : Program.ofTokens first = .ok one) (parsedToo : Program.ofTokens second = .ok two)
    (same : one.render = two.render) :
    one.outline = two.outline ∧ (one.check = .ok () ↔ two.check = .ok ()) ∧
      ∀ text, one.assembly = .ok text ↔ two.assembly = .ok text := by
  have rows : Rows.program one = Rows.program two := by
    rw [← rows_of_render single parsed, same, rows_of_render singleToo parsedToo]
  have outlines := Rows.outline_of_rows rows
  refine ⟨outlines, ?_, fun text => ?_⟩
  · rw [← outline_check one, outlines, outline_check two]
  · rw [← outline_assembly one, outlines, outline_assembly two]

/-- A program with a string of several marks, where the lines of the tokens and
the sign before the lower bound are left open. -/
def signedTokens (line : Nat) (sign : List Token) : List Token :=
  [⟨"program", .programWord, 1⟩, ⟨"p", .identifier, 1⟩, ⟨";", .semicolon, 1⟩, ⟨"var", .varWord, line⟩,
    ⟨"a", .identifier, line⟩, ⟨":", .colon, line⟩, ⟨"array", .arrayWord, line⟩,
    ⟨"[", .leftBracket, line⟩] ++ sign ++
  [⟨"0", .constant, line⟩, ⟨"..", .range, line⟩, ⟨"3", .constant, line⟩,
    ⟨"]", .rightBracket, line⟩, ⟨"of", .ofWord, line⟩, ⟨"char", .charWord, line⟩,
    ⟨";", .semicolon, line⟩, ⟨"begin", .beginWord, line⟩, ⟨"if", .ifWord, line⟩,
    ⟨"true", .trueWord, line⟩, ⟨"then", .thenWord, line⟩, ⟨"begin", .beginWord, line⟩,
    ⟨"writeln", .writelnWord, line⟩, ⟨"(", .leftParen, line⟩, ⟨"')  '' ('", .string, line⟩,
    ⟨")", .rightParen, line⟩, ⟨";", .semicolon, line⟩, ⟨"end", .endWord, line⟩,
    ⟨";", .semicolon, line⟩, ⟨"end", .endWord, line⟩, ⟨".", .dot, line⟩]

def plainTokens : List Token := signedTokens 2 []

def minusTokens : List Token := signedTokens 7 [⟨"-", .minus, 7⟩]

theorem minus_zero_prints_alike :
    OneLined plainTokens ∧ OneLined minusTokens ∧
    ∃ one two, Program.ofTokens plainTokens = .ok one ∧ Program.ofTokens minusTokens = .ok two ∧
      one.render = two.render ∧ one.outline = two.outline ∧
      (one.check = .ok () ↔ two.check = .ok ()) ∧
      ∀ text, one.assembly = .ok text ↔ two.assembly = .ok text := by
  have single : OneLined plainTokens ∧ OneLined minusTokens := by
    unfold OneLined
    decide
  have printed : (Program.ofTokens plainTokens).map Program.render =
      (Program.ofTokens minusTokens).map Program.render := by decide +kernel
  have parsed : (Program.ofTokens plainTokens).isOk = true := by decide +kernel
  cases first : Program.ofTokens plainTokens with
  | error fault =>
      rw [first] at parsed
      cases parsed
  | ok one =>
      cases second : Program.ofTokens minusTokens with
      | error fault =>
          rw [first, second] at printed
          cases printed
      | ok two =>
          rw [first, second] at printed
          have same : one.render = two.render := Except.ok.inj printed
          exact ⟨single.1, single.2, one, two, rfl, rfl, same,
            printing_faithful _ _ one two single.1 single.2 first second same⟩

end PascalCasl
