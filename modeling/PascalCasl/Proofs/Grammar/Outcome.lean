import PascalCasl.Proofs.Grammar.Phrase
import PascalCasl.Proofs.Steps

/-!
What readers give, without the bounds that their results carry. Each reader has
one equation for its outcome; the theory of reading uses these equations and
never opens a reader.
-/

namespace PascalCasl.Grammar

variable {α β : Type} {limit : Nat}

/-- The phrase that was read and the tokens after it. -/
def Result.outcome (result : Result α limit) : Except Failure (α × List Token) :=
  result.map fun reading => (reading.value, reading.rest)

theorem outcome_shorter {result : Result α limit} {value : α} {rest : List Token}
    (read : result.outcome = .ok (value, rest)) : rest.length < limit := by
  cases result with
  | error failure => simp [Result.outcome, Except.map] at read
  | ok reading =>
      simp only [Result.outcome, Except.map, Except.ok.injEq, Prod.mk.injEq] at read
      exact read.2 ▸ reading.within

@[simp] theorem outcome_ok (reading : Reading α limit) :
    Result.outcome (.ok reading) = .ok (reading.value, reading.rest) := rfl

@[simp] theorem outcome_error (failure : Failure) :
    Result.outcome (.error failure : Result α limit) = .error failure := rfl

@[simp] theorem outcome_under {input : List Token} (result : Result α input.length)
    (within : input.length < limit) : (result.under within).outcome = result.outcome := by
  cases result <;> rfl

@[simp] theorem outcome_upTo {input : List Token} (result : Result α (input.length + 1))
    (within : input.length < limit) : (result.upTo within).outcome = result.outcome := by
  cases result <;> rfl

@[simp] theorem outcome_present (result : Result α limit) :
    result.present.outcome = result.outcome := by
  cases result <;> rfl

@[simp] theorem absent_value (value : α) (input : List Token) :
    (Reading.absent value input).value = value := rfl

@[simp] theorem absent_rest (value : α) (input : List Token) :
    (Reading.absent value input).rest = input := rfl

@[simp] theorem single_value (value : α) (first : Token) (rest : List Token) :
    (Reading.single value first rest).value = value := rfl

@[simp] theorem single_rest (value : α) (first : Token) (rest : List Token) :
    (Reading.single value first rest).rest = rest := rfl

theorem outcome_bind {lower : Nat} (result : Except Failure (Reading α lower))
    (next : Reading α lower → Result β limit)
    (plain : α × List Token → Except Failure (β × List Token))
    (same : ∀ reading, (next reading).outcome = plain (reading.value, reading.rest)) :
    Result.outcome (result >>= next) = Result.outcome result >>= plain := by
  cases result with
  | error failure => rfl
  | ok reading => exact same reading

theorem outcome_under_bind {input : List Token} {lower : Nat} (result : Result α input.length)
    (within : input.length < lower) (next : Reading α lower → Result β limit)
    (plain : α × List Token → Except Failure (β × List Token))
    (same : ∀ reading, (next reading).outcome = plain (reading.value, reading.rest)) :
    Result.outcome (result.under within >>= next) = result.outcome >>= plain := by
  rw [outcome_bind _ _ plain same, outcome_under]

theorem outcome_upTo_bind {input : List Token} {lower : Nat}
    (result : Result α (input.length + 1)) (within : input.length < lower)
    (next : Reading α lower → Result β limit)
    (plain : α × List Token → Except Failure (β × List Token))
    (same : ∀ reading, (next reading).outcome = plain (reading.value, reading.rest)) :
    Result.outcome (result.upTo within >>= next) = result.outcome >>= plain := by
  rw [outcome_bind _ _ plain same, outcome_upTo]

theorem outcome_value_bind (step : Except Failure α) (next : α → Result β limit)
    (plain : α → Except Failure (β × List Token))
    (same : ∀ value, (next value).outcome = plain value) :
    Result.outcome (step >>= next) = step >>= plain := by
  cases step with
  | error failure => rfl
  | ok value => exact same value

theorem token_outcome (kind : Kind) (input : List Token) :
    (token kind input).outcome = match input with
      | [] => .error (.unexpected [])
      | first :: rest =>
          if first.kind = kind then .ok (first, rest) else .error (.unexpected (first :: rest)) := by
  cases input with
  | nil => rfl
  | cons first rest =>
      by_cases same : first.kind = kind
      · simp [token, same]
      · simp [token, same]

theorem token_ok {kind : Kind} {input rest : List Token} {value : Token} :
    (token kind input).outcome = .ok (value, rest) ↔
      input = value :: rest ∧ value.kind = kind := by
  rw [token_outcome]
  cases input with
  | nil => simp
  | cons first others =>
      by_cases same : first.kind = kind
      · simp only [same, ↓reduceIte, Except.ok.injEq, Prod.mk.injEq, List.cons.injEq]
        constructor
        · rintro ⟨rfl, rfl⟩
          exact ⟨⟨rfl, rfl⟩, same⟩
        · exact And.left
      · simp only [same, ↓reduceIte, reduceCtorEq, List.cons.injEq, false_iff]
        rintro ⟨⟨rfl, -⟩, marked⟩
        exact same marked

@[simp] theorem token_read {kind : Kind} {mark : Token} {rest : List Token}
    (marked : mark.kind = kind) : (token kind (mark :: rest)).outcome = .ok (mark, rest) :=
  token_ok.mpr ⟨rfl, marked⟩

theorem moreItems_outcome (separator : Kind) (item : Reader α) (input : List Token) :
    (moreItems separator item input).outcome = (match input with
      | [] => .ok ([], [])
      | first :: rest =>
          if first.kind = separator then do
            let (value, rest) ← (item rest).outcome
            let (values, rest) ← (moreItems separator item rest).outcome
            .ok (value :: values, rest)
          else .ok ([], first :: rest)) := by
  rw [moreItems.eq_def]
  cases input with
  | nil => rfl
  | cons first rest =>
      by_cases same : first.kind = separator
      · simp only [same, ↓reduceIte, outcome_present]
        exact outcome_under_bind _ _ _ _ fun reading => outcome_upTo_bind _ _ _ _ fun _ => rfl
      · simp [same]

theorem items_outcome (separator : Kind) (item : Reader α) (input : List Token) :
    (items separator item input).outcome = (do
      let (value, rest) ← (item input).outcome
      let (values, rest) ← (moreItems separator item rest).outcome
      .ok (value :: values, rest)) := by
  rw [items]
  exact outcome_bind _ _ _ fun reading => outcome_upTo_bind _ _ _ _ fun _ => rfl

theorem parenthesised_outcome (list : Reader (List α)) (input : List Token) :
    (parenthesised list input).outcome = (match input with
      | [] => .ok ([], [])
      | first :: rest =>
          if first.kind = .leftParen then do
            let (values, rest) ← (list rest).outcome
            let (_, rest) ← (token .rightParen rest).outcome
            .ok (values, rest)
          else .ok ([], first :: rest)) := by
  cases input with
  | nil => rfl
  | cons first rest =>
      by_cases opens : first.kind = .leftParen
      · simp only [parenthesised, opens, ↓reduceIte, outcome_present]
        exact outcome_under_bind _ _ _ _ fun reading => outcome_under_bind _ _ _ _ fun _ => rfl
      · simp [parenthesised, opens]

theorem expr_outcome (input : List Token) :
    (expr input).outcome = (do
      let (left, rest) ← (simple input).outcome
      match rest with
      | [] => .ok (left, [])
      | first :: more =>
          match relation? first.kind with
          | none => .ok (left, first :: more)
          | some op => do
              let (right, rest) ← (simple more).outcome
              .ok (.binary first.line op left right, rest)) := by
  rw [expr]
  apply outcome_bind
  rintro ⟨left, rest, shorter⟩
  cases rest with
  | nil => rfl
  | cons first more =>
      dsimp only
      cases relation? first.kind with
      | none => rfl
      | some op => exact outcome_under_bind _ _ _ _ fun reading => rfl

theorem simple_outcome (input : List Token) :
    (simple input).outcome = (match input with
      | [] => .error (.unexpected [])
      | first :: more =>
          match sign? first.kind with
          | some op => do
              let (operand, rest) ← (term more).outcome
              (sums (.unary first.line op operand) rest).outcome
          | none => do
              let (operand, rest) ← (term (first :: more)).outcome
              (sums operand rest).outcome) := by
  rw [simple.eq_def]
  cases input with
  | nil => rfl
  | cons first more =>
      dsimp only
      cases sign? first.kind with
      | some op => exact outcome_under_bind _ _ _ _ fun reading => outcome_upTo _ _
      | none => exact outcome_bind _ _ _ fun reading => outcome_upTo _ _

theorem sums_outcome (left : Expr) (input : List Token) :
    (sums left input).outcome = (match input with
      | [] => .ok (left, [])
      | first :: rest =>
          match sum? first.kind with
          | none => .ok (left, first :: rest)
          | some op => do
              let (right, rest) ← (term rest).outcome
              (sums (.binary first.line op left right) rest).outcome) := by
  rw [sums.eq_def]
  cases input with
  | nil => rfl
  | cons first rest =>
      dsimp only
      cases sum? first.kind with
      | none => rfl
      | some op =>
          rw [outcome_present]
          exact outcome_under_bind _ _ _ _ fun reading => outcome_upTo _ _

theorem term_outcome (input : List Token) :
    (term input).outcome = (do
      let (left, rest) ← (factor input).outcome
      (products left rest).outcome) := by
  rw [term]
  exact outcome_bind _ _ _ fun reading => outcome_upTo _ _

theorem products_outcome (left : Expr) (input : List Token) :
    (products left input).outcome = (match input with
      | [] => .ok (left, [])
      | first :: rest =>
          match product? first.kind with
          | none => .ok (left, first :: rest)
          | some op => do
              let (right, rest) ← (factor rest).outcome
              (products (.binary first.line op left right) rest).outcome) := by
  rw [products.eq_def]
  cases input with
  | nil => rfl
  | cons first rest =>
      dsimp only
      cases product? first.kind with
      | none => rfl
      | some op =>
          rw [outcome_present]
          exact outcome_under_bind _ _ _ _ fun reading => outcome_upTo _ _

def variableTree (name : Token) : Option Expr → Expr
  | none => .simple name.line name.text
  | some index => .indexed name.line name.text index

theorem factor_outcome (input : List Token) :
    (factor input).outcome = (match input with
      | [] => .error (.unexpected [])
      | first :: rest =>
          match first.kind with
          | .identifier => do
              let (index?, rest) ← (index rest).outcome
              .ok (variableTree first index?, rest)
          | .leftParen => do
              let (inner, rest) ← (expr rest).outcome
              let (_, rest) ← (token .rightParen rest).outcome
              .ok (inner, rest)
          | .notWord => do
              let (operand, rest) ← (factor rest).outcome
              .ok (.unary first.line .not operand, rest)
          | .constant => do
              let value ← valueOf (Text.literalValue? first.text.toList) first rest
              .ok (.number first.line value, rest)
          | .string => do
              let text ← valueOf (Text.unquoted? first.text) first rest
              .ok (.string first.line text, rest)
          | .trueWord => .ok (.truth first.line true, rest)
          | .falseWord => .ok (.truth first.line false, rest)
          | _ => .error (.unexpected (first :: rest))) := by
  rw [factor.eq_def]
  cases input with
  | nil => rfl
  | cons first rest =>
      dsimp only
      generalize first.kind = kind
      cases kind
      case identifier =>
        apply outcome_upTo_bind
        rintro ⟨index?, rest, shorter⟩
        cases index? <;> rfl
      case leftParen =>
        exact outcome_under_bind _ _ _ _ fun reading => outcome_under_bind _ _ _ _ fun _ => rfl
      case notWord => exact outcome_under_bind _ _ _ _ fun reading => rfl
      case constant => exact outcome_value_bind _ _ _ fun value => rfl
      case string => exact outcome_value_bind _ _ _ fun value => rfl
      all_goals rfl

theorem index_outcome (input : List Token) :
    (index input).outcome = (match input with
      | [] => .ok (none, [])
      | first :: rest =>
          if first.kind = .leftBracket then do
            let (index, rest) ← (expr rest).outcome
            let (_, rest) ← (token .rightBracket rest).outcome
            .ok (some index, rest)
          else .ok (none, first :: rest)) := by
  rw [index.eq_def]
  cases input with
  | nil => rfl
  | cons first rest =>
      by_cases opens : first.kind = .leftBracket
      · simp only [opens, ↓reduceIte, outcome_present]
        exact outcome_under_bind _ _ _ _ fun reading => outcome_under_bind _ _ _ _ fun _ => rfl
      · simp [opens]

def targetTree (name : Token) : Option Expr → Target
  | none => .simple name.line name.text
  | some index => .indexed name.line name.text index

theorem target_outcome (input : List Token) :
    (target input).outcome = (do
      let (name, rest) ← (token .identifier input).outcome
      let (index?, rest) ← (index rest).outcome
      .ok (targetTree name index?, rest)) := by
  rw [target]
  apply outcome_bind
  rintro ⟨name, rest, shorter⟩
  apply outcome_upTo_bind
  rintro ⟨index?, rest, shorter⟩
  cases index? <;> rfl

theorem assignment_outcome (input : List Token) :
    (assignment input).outcome = (do
      let (assigned, rest) ← (target input).outcome
      let (mark, rest) ← (token .assign rest).outcome
      let (value, rest) ← (expr rest).outcome
      .ok (.assign mark.line assigned value, rest)) := by
  rw [assignment]
  exact outcome_bind _ _ _ fun _ => outcome_under_bind _ _ _ _ fun _ =>
    outcome_under_bind _ _ _ _ fun _ => rfl

theorem call_outcome (input : List Token) :
    (call input).outcome = (do
      let (name, rest) ← (token .identifier input).outcome
      let (arguments, rest) ← (parenthesised (items .comma expr) rest).outcome
      .ok (.call name.line name.text arguments, rest)) := by
  rw [call]
  exact outcome_bind _ _ _ fun _ => outcome_upTo_bind _ _ _ _ fun _ => rfl

def conditionalTree (word : Token) (condition : Expr) (thenBlock : Nat × List Stmt) :
    Option (Nat × List Stmt) → Stmt
  | none => .ifThen word.line condition thenBlock.1 thenBlock.2
  | some (elseLine, elseBody) =>
      .ifElse word.line condition thenBlock.1 thenBlock.2 elseLine elseBody

theorem stmt_outcome (input : List Token) :
    (stmt input).outcome = (match input with
      | [] => .error (.unexpected [])
      | first :: rest =>
          match first.kind with
          | .ifWord => do
              let (condition, rest) ← (expr rest).outcome
              let (_, rest) ← (token .thenWord rest).outcome
              let (thenBlock, rest) ← (block rest).outcome
              let (otherwise?, rest) ← (elsePart rest).outcome
              .ok (conditionalTree first condition thenBlock otherwise?, rest)
          | .whileWord => do
              let (condition, rest) ← (expr rest).outcome
              let (_, rest) ← (token .doWord rest).outcome
              let (body, rest) ← (block rest).outcome
              .ok (.whileDo first.line condition body.1 body.2, rest)
          | .identifier =>
              if startsAssignment rest then (assignment (first :: rest)).outcome
              else (call (first :: rest)).outcome
          | .readlnWord => do
              let (targets, rest) ← (parenthesised (items .comma target) rest).outcome
              .ok (.read first.line targets, rest)
          | .writelnWord => do
              let (values, rest) ← (parenthesised (items .comma expr) rest).outcome
              .ok (.write first.line values, rest)
          | .beginWord => do
              let (body, rest) ← (block (first :: rest)).outcome
              .ok (.block body.1 body.2, rest)
          | _ => .error (.unexpected (first :: rest))) := by
  rw [stmt.eq_def]
  cases input with
  | nil => rfl
  | cons first rest =>
      dsimp only
      generalize first.kind = kind
      cases kind
      case ifWord =>
        refine outcome_under_bind _ _ _ _ fun _ => outcome_under_bind _ _ _ _ fun _ =>
          outcome_under_bind _ _ _ _ fun _ => outcome_upTo_bind _ _ _ _ fun otherwise => ?_
        rcases otherwise with ⟨_ | _, _, _⟩ <;> rfl
      case whileWord =>
        exact outcome_under_bind _ _ _ _ fun _ => outcome_under_bind _ _ _ _ fun _ =>
          outcome_under_bind _ _ _ _ fun _ => rfl
      case identifier => cases startsAssignment rest <;> rfl
      case readlnWord => exact outcome_upTo_bind _ _ _ _ fun _ => rfl
      case writelnWord => exact outcome_upTo_bind _ _ _ _ fun _ => rfl
      case beginWord => exact outcome_bind _ _ _ fun _ => rfl
      all_goals rfl

theorem block_outcome (input : List Token) :
    (block input).outcome = (match input with
      | [] => .error (.unexpected [])
      | first :: rest =>
          if first.kind = .beginWord then do
            let (body, rest) ← (stmts rest).outcome
            let (_, rest) ← (token .endWord rest).outcome
            .ok ((first.line, body), rest)
          else .error (.unexpected (first :: rest))) := by
  rw [block.eq_def]
  cases input with
  | nil => rfl
  | cons first rest =>
      by_cases isBegin : first.kind = .beginWord
      · simp only [isBegin, ↓reduceIte]
        exact outcome_upTo_bind _ _ _ _ fun _ => outcome_under_bind _ _ _ _ fun _ => rfl
      · simp [isBegin]

theorem stmts_outcome (input : List Token) :
    (stmts input).outcome = (match input with
      | [] => .ok ([], [])
      | first :: more =>
          if startsStatement first.kind then do
            let (statement, rest) ← (stmt (first :: more)).outcome
            let (_, rest) ← (token .semicolon rest).outcome
            let (statements, rest) ← (stmts rest).outcome
            .ok (statement :: statements, rest)
          else .ok ([], first :: more)) := by
  rw [stmts.eq_def]
  cases input with
  | nil => rfl
  | cons first more =>
      dsimp only
      cases startsStatement first.kind with
      | false => rfl
      | true =>
          simp only [↓reduceIte, outcome_present]
          exact outcome_bind _ _ _ fun _ => outcome_under_bind _ _ _ _ fun _ =>
            outcome_upTo_bind _ _ _ _ fun _ => rfl

theorem elsePart_outcome (input : List Token) :
    (elsePart input).outcome = (match input with
      | [] => .ok (none, [])
      | first :: rest =>
          if first.kind = .elseWord then do
            let (body, rest) ← (block rest).outcome
            .ok (some body, rest)
          else .ok (none, first :: rest)) := by
  rw [elsePart.eq_def]
  cases input with
  | nil => rfl
  | cons first rest =>
      by_cases isElse : first.kind = .elseWord
      · simp only [isElse, ↓reduceIte, outcome_present]
        exact outcome_under_bind _ _ _ _ fun _ => rfl
      · simp [isElse]

theorem standardType_outcome (input : List Token) :
    (standardType input).outcome = (match input with
      | [] => .error (.unexpected [])
      | first :: rest =>
          match standardType? first.kind with
          | some type => .ok (type, rest)
          | none => .error (.unexpected (first :: rest))) := by
  cases input with
  | nil => rfl
  | cons first rest =>
      simp only [standardType]
      cases standardType? first.kind <;> rfl

theorem magnitude_outcome (input : List Token) :
    (magnitude input).outcome = (do
      let (numeral, rest) ← (token .constant input).outcome
      let value ← valueOf (Text.literalValue? numeral.text.toList) numeral rest
      .ok (value, rest)) := by
  rw [magnitude]
  exact outcome_bind _ _ _ fun _ => outcome_value_bind _ _ _ fun _ => rfl

theorem bound_outcome (input : List Token) :
    (bound input).outcome = (match input with
      | [] => .error (.unexpected [])
      | first :: rest =>
          match sign? first.kind with
          | some sign => do
              let (value, rest) ← (magnitude rest).outcome
              .ok (⟨sign = .minus, value⟩, rest)
          | none => do
              let (value, rest) ← (magnitude (first :: rest)).outcome
              .ok (⟨false, value⟩, rest)) := by
  cases input with
  | nil => rfl
  | cons first rest =>
      simp only [bound]
      cases sign? first.kind with
      | some sign => exact outcome_under_bind _ _ _ _ fun _ => rfl
      | none => exact outcome_bind _ _ _ fun _ => rfl

theorem typeSpec_outcome (input : List Token) :
    (typeSpec input).outcome = (match input with
      | [] => .error (.unexpected [])
      | first :: rest =>
          if first.kind = .arrayWord then do
            let (_, rest) ← (token .leftBracket rest).outcome
            let (low, rest) ← (bound rest).outcome
            let (_, rest) ← (token .range rest).outcome
            let (high, rest) ← (bound rest).outcome
            let (_, rest) ← (token .rightBracket rest).outcome
            let (_, rest) ← (token .ofWord rest).outcome
            let (element, rest) ← (standardType rest).outcome
            .ok ((.array low high element, first.line), rest)
          else do
            let (type, rest) ← (standardType (first :: rest)).outcome
            .ok ((.standard type, first.line), rest)) := by
  cases input with
  | nil => rfl
  | cons first rest =>
      by_cases isArray : first.kind = .arrayWord
      · simp only [typeSpec, isArray, ↓reduceIte]
        exact outcome_under_bind _ _ _ _ fun _ => outcome_under_bind _ _ _ _ fun _ =>
          outcome_under_bind _ _ _ _ fun _ => outcome_under_bind _ _ _ _ fun _ =>
          outcome_under_bind _ _ _ _ fun _ => outcome_under_bind _ _ _ _ fun _ =>
          outcome_under_bind _ _ _ _ fun _ => rfl
      · simp only [typeSpec, isArray, ↓reduceIte]
        exact outcome_bind _ _ _ fun _ => rfl

theorem varGroup_outcome (input : List Token) :
    (varGroup input).outcome = (do
      let (names, rest) ← (names input).outcome
      let (_, rest) ← (token .colon rest).outcome
      let ((type, typeLine), rest) ← (typeSpec rest).outcome
      let (_, rest) ← (token .semicolon rest).outcome
      .ok (names.map fun name => ⟨name.text, name.line, type, typeLine⟩, rest)) := by
  rw [varGroup]
  exact outcome_bind _ _ _ fun _ => outcome_under_bind _ _ _ _ fun _ =>
    outcome_under_bind _ _ _ _ fun _ => outcome_under_bind _ _ _ _ fun _ => rfl

theorem moreVarGroups_outcome (input : List Token) :
    (moreVarGroups input).outcome = (match input with
      | [] => .ok ([], [])
      | first :: more =>
          if first.kind = .identifier then do
            let (group, rest) ← (varGroup (first :: more)).outcome
            let (groups, rest) ← (moreVarGroups rest).outcome
            .ok (group ++ groups, rest)
          else .ok ([], first :: more)) := by
  rw [moreVarGroups.eq_def]
  cases input with
  | nil => rfl
  | cons first more =>
      by_cases isName : first.kind = .identifier
      · simp only [isName, ↓reduceIte, outcome_present]
        exact outcome_bind _ _ _ fun _ => outcome_upTo_bind _ _ _ _ fun _ => rfl
      · simp [isName]

theorem vars_outcome (input : List Token) :
    (vars input).outcome = (match input with
      | [] => .ok ([], [])
      | first :: rest =>
          if first.kind = .varWord then do
            let (group, rest) ← (varGroup rest).outcome
            let (groups, rest) ← (moreVarGroups rest).outcome
            .ok (group ++ groups, rest)
          else .ok ([], first :: rest)) := by
  cases input with
  | nil => rfl
  | cons first rest =>
      by_cases isVar : first.kind = .varWord
      · simp only [vars, isVar, ↓reduceIte, outcome_present]
        exact outcome_under_bind _ _ _ _ fun _ => outcome_upTo_bind _ _ _ _ fun _ => rfl
      · simp [vars, isVar]

theorem paramGroup_outcome (input : List Token) :
    (paramGroup input).outcome = (do
      let (names, rest) ← (names input).outcome
      let (_, rest) ← (token .colon rest).outcome
      let (type, rest) ← (standardType rest).outcome
      .ok (names.map fun name => ⟨name.text, name.line, type⟩, rest)) := by
  rw [paramGroup]
  exact outcome_bind _ _ _ fun _ => outcome_under_bind _ _ _ _ fun _ =>
    outcome_under_bind _ _ _ _ fun _ => rfl

theorem procedure_outcome (input : List Token) :
    (procedure input).outcome = (do
      let (_, rest) ← (token .procedureWord input).outcome
      let (name, rest) ← (token .identifier rest).outcome
      let (groups, rest) ← (parenthesised (items .semicolon paramGroup) rest).outcome
      let (_, rest) ← (token .semicolon rest).outcome
      let (vars, rest) ← (vars rest).outcome
      let (body, rest) ← (block rest).outcome
      .ok (⟨name.text, name.line, groups.flatten, vars, body.1, body.2⟩, rest)) := by
  rw [procedure]
  exact outcome_bind _ _ _ fun _ => outcome_under_bind _ _ _ _ fun _ =>
    outcome_upTo_bind _ _ _ _ fun _ => outcome_under_bind _ _ _ _ fun _ =>
    outcome_upTo_bind _ _ _ _ fun _ => outcome_under_bind _ _ _ _ fun _ => rfl

theorem procedures_outcome (input : List Token) :
    (procedures input).outcome = (match input with
      | [] => .ok ([], [])
      | first :: more =>
          if first.kind = .procedureWord then do
            let (declared, rest) ← (procedure (first :: more)).outcome
            let (_, rest) ← (token .semicolon rest).outcome
            let (others, rest) ← (procedures rest).outcome
            .ok (declared :: others, rest)
          else .ok ([], first :: more)) := by
  rw [procedures.eq_def]
  cases input with
  | nil => rfl
  | cons first more =>
      by_cases isProcedure : first.kind = .procedureWord
      · simp only [isProcedure, ↓reduceIte, outcome_present]
        exact outcome_bind _ _ _ fun _ => outcome_under_bind _ _ _ _ fun _ =>
          outcome_upTo_bind _ _ _ _ fun _ => rfl
      · simp [isProcedure]

theorem program_outcome (input : List Token) :
    (program input).outcome = (do
      let (word, rest) ← (token .programWord input).outcome
      let (name, rest) ← (token .identifier rest).outcome
      let (_, rest) ← (token .semicolon rest).outcome
      let (vars, rest) ← (vars rest).outcome
      let (procedures, rest) ← (procedures rest).outcome
      let (body, rest) ← (block rest).outcome
      let (_, rest) ← (token .dot rest).outcome
      .ok (⟨name.text, word.line, vars, procedures, body.1, body.2⟩, rest)) := by
  rw [program]
  exact outcome_bind _ _ _ fun _ => outcome_under_bind _ _ _ _ fun _ =>
    outcome_under_bind _ _ _ _ fun _ => outcome_upTo_bind _ _ _ _ fun _ =>
    outcome_upTo_bind _ _ _ _ fun _ => outcome_under_bind _ _ _ _ fun _ =>
    outcome_under_bind _ _ _ _ fun _ => rfl

theorem sentence_ok {input : List Token} {tree : Program} :
    sentence input = .ok tree ↔ (program input).outcome = .ok (tree, []) := by
  unfold sentence
  cases program input with
  | error failure => simp
  | ok reading =>
      obtain ⟨value, rest, within⟩ := reading
      cases rest <;> simp

end PascalCasl.Grammar
