import Mathlib.Data.List.TakeWhile
import PascalCasl.Proofs.Grammar.Guidance

/-!
The fault of a parse is at the first token that does not fit. The readers of
statements, declarations and programs are guided by the grammar; so the tokens
before the fault begin a program, and no program goes on with the token at
fault.
-/

namespace PascalCasl

namespace Grammar

open scoped Computability

variable {α : Type}

theorem separated_words {separator : Kind} {item : List Token → α → Prop} :
    words item * (ofKind separator * words item)∗ ≤ words (Separated separator item) := by
  rintro _ ⟨first, ⟨value, one⟩, _, ⟨rounds, rfl, member⟩, rfl⟩
  induction rounds generalizing first value with
  | nil => exact ⟨[value], by simpa using Separated.one first value one⟩
  | cons round rounds ih =>
      obtain ⟨_, ⟨mark, rfl, marked⟩, next, ⟨nextValue, two⟩, rfl⟩ :=
        member round List.mem_cons_self
      obtain ⟨values, others⟩ :=
        ih next nextValue two fun other later => member other (List.mem_cons_of_mem _ later)
      refine ⟨value :: values, ?_⟩
      simpa using Separated.more first _ mark value values one marked others

theorem optional_words {list : List Token → List α → Prop} :
    1 + ofKind .leftParen * (words list * ofKind .rightParen) ≤ words (Optional list) := by
  rintro _ (rfl | ⟨_, ⟨opening, rfl, opens⟩, _, ⟨inner, ⟨values, within⟩, _, ⟨closing, rfl, closes⟩,
    rfl⟩, rfl⟩)
  · exact ⟨[], .absent⟩
  · exact ⟨values, .present opening closing inner values opens within closes⟩

theorem separated_guided {separator : Kind} {phrase : List Token → α → Prop} {item : Reader α}
    (guided : ∀ input, Guided (words phrase) (fun input => (item input).outcome) input)
    (input : List Token) :
    Guided (words (Separated separator phrase))
      (fun input => (items separator item input).outcome) input :=
  .mono (items_guided (fun input _ => guided input) input (Nat.lt_succ_self _)) separated_words

theorem optional_guided {phrase : List Token → List α → Prop} {list : Reader (List α)}
    [Productive (words phrase)]
    (guided : ∀ input, Guided (words phrase) (fun input => (list input).outcome) input)
    (input : List Token) :
    Guided (words (Optional phrase)) (fun input => (parenthesised list input).outcome) input :=
  .mono (parenthesised_guided (fun input _ => guided input) input (Nat.lt_succ_self _))
    optional_words

instance {separator : Kind} {item : List Token → α → Prop} [productive : Productive (words item)] :
    Productive (words (Separated separator item)) := by
  obtain ⟨tokens, value, phrase⟩ := productive.word
  exact ⟨tokens, [value], .one tokens value phrase⟩

section Statements

instance : Productive (words TargetPhrase) := ⟨[⟨"", .identifier, 1⟩], _, .name _ rfl⟩

instance : Productive (words StmtPhrase) :=
  ⟨[⟨"", .identifier, 1⟩], _, .call _ [] [] rfl .absent⟩

instance : Productive (words BlockOf) :=
  ⟨[⟨"", .beginWord, 1⟩, ⟨"", .endWord, 1⟩], (1, []), .block _ _ [] [] rfl .none rfl⟩

instance : Productive indexWords := inferInstanceAs (Productive (1 + _))

theorem target_words {name : Token} (isName : name.kind = .identifier) {tokens : List Token}
    (indexed : tokens ∈ indexWords) : ∃ tree, TargetPhrase (name :: tokens) tree := by
  obtain rfl | ⟨_, ⟨opening, rfl, opens⟩, _, ⟨inner, ⟨tree, phrase⟩, _, ⟨closing, rfl, closes⟩,
    rfl⟩, rfl⟩ := indexed
  · exact ⟨_, .name name isName⟩
  · exact ⟨_, .element name opening closing inner tree isName opens phrase closes⟩

theorem index_guided (input : List Token) :
    Guided indexWords (fun input => (index input).outcome) input :=
  index_guided_below (fun input _ => expr_guided input) input (Nat.lt_succ_self _)

theorem target_guided (input : List Token) :
    Guided (words TargetPhrase) (fun input => (target input).outcome) input := by
  rw [funext target_outcome]
  refine .mono (.bind (token_guided .identifier input) fun name middle _ =>
    .last (index_guided middle) fun _ _ => rfl) ?_
  rintro _ ⟨_, ⟨name, rfl, isName⟩, tokens, indexed, rfl⟩
  exact target_words isName indexed

theorem assignment_of_name {name : Token} (isName : name.kind = .identifier)
    (input : List Token) : (assignment (name :: input)).outcome = (do
      let (assigned, rest) ← (do
        let (index?, rest) ← (index input).outcome
        .ok (targetTree name index?, rest))
      let (mark, rest) ← (token .assign rest).outcome
      let (value, rest) ← (expr rest).outcome
      .ok (.assign mark.line assigned value, rest)) := by
  rw [assignment_outcome, target_outcome, token_read isName]
  rfl

theorem assignment_guided {name : Token} (isName : name.kind = .identifier) (input : List Token) :
    Guided (indexWords * (ofKind .assign * words (ExprPhrase .expr)))
      (fun input => (assignment (name :: input)).outcome) input := by
  rw [funext (assignment_of_name isName)]
  exact .bind (.last (index_guided input) fun _ _ => rfl) fun _ middle _ =>
    .bind (token_guided .assign middle) fun _ after _ => .last (expr_guided after) fun _ _ => rfl

theorem call_of_name {name : Token} (isName : name.kind = .identifier) (input : List Token) :
    (call (name :: input)).outcome = (do
      let (arguments, rest) ← (parenthesised (items .comma expr) input).outcome
      .ok (.call name.line name.text arguments, rest)) := by
  rw [call_outcome, token_read isName]
  rfl

theorem call_guided {name : Token} (isName : name.kind = .identifier) (input : List Token) :
    Guided (words (Optional (Separated .comma (ExprPhrase .expr))))
      (fun input => (call (name :: input)).outcome) input := by
  rw [funext (call_of_name isName)]
  exact .last (optional_guided (separated_guided expr_guided) input) fun _ _ => rfl

/-- After its name, an assignment and a call go different ways, and the next
token decides which. -/
theorem named_guided {name : Token} (isName : name.kind = .identifier) (input : List Token) :
    Guided (words StmtPhrase) (fun input => (stmt input).outcome) (name :: input) := by
  have decided : ∀ other, (stmt (name :: other)).outcome =
      if startsAssignment other then (assignment (name :: other)).outcome
      else (call (name :: other)).outcome := by
    intro other
    rw [stmt_outcome]
    simp only [isName]
  have lookahead : ∀ other, other.head? = input.head? →
      startsAssignment other = startsAssignment input := by
    intro other heads
    cases other <;> cases input <;> simp_all [startsAssignment]
  cases starts : startsAssignment input with
  | true =>
      refine .take decided ?_ (.look (fun other heads => ?_) (assignment_guided isName input))
      · rintro _ ⟨tokens, indexed, _, ⟨_, ⟨mark, rfl, marked⟩, right, ⟨value, source⟩, rfl⟩, rfl⟩
        obtain ⟨tree, target⟩ := target_words isName indexed
        exact ⟨_, .assign (name :: tokens) right mark tree value target marked source⟩
      · rw [lookahead other heads, starts, if_pos rfl]
  | false =>
      refine .take decided ?_ (.look (fun other heads => ?_) (call_guided isName input))
      · rintro tokens ⟨arguments, listed⟩
        exact ⟨_, .call name tokens arguments isName listed⟩
      · rw [lookahead other heads, starts, if_neg Bool.false_ne_true]

variable {bound : Nat}

theorem else_part_guided
    (blocks : GuidedBelow bound (words BlockOf) fun input => (block input).outcome) :
    GuidedBelow bound (1 + ofKind .elseWord * words BlockOf)
      fun input => (elsePart input).outcome := by
  intro input short
  cases input with
  | nil => exact .stay_at_end (.inl rfl) (elsePart_outcome [])
  | cons word rest =>
      by_cases isElse : word.kind = .elseWord
      · refine .take (fun other => (elsePart_outcome _).trans (if_pos isElse)) ?_
          (.last (blocks rest (Nat.lt_of_succ_lt short)) fun _ _ => rfl)
        exact fun _ member => .inr (Language.append_mem_mul (mem_of_kind isElse) member)
      · exact .stay none (.inl rfl) fun other => (elsePart_outcome _).trans (if_neg isElse)

theorem stmt_of_begin {first : Token} (isBegin : first.kind = .beginWord) (input : List Token)
    (heads : input.head? = some first) : (stmt input).outcome = (do
      let (body, rest) ← (block input).outcome
      .ok (.block body.1 body.2, rest)) := by
  obtain ⟨rest, rfl⟩ := List.head?_eq_some_iff.mp heads
  rw [stmt_outcome]
  simp only [isBegin]

theorem stmt_guided_below
    (blocks : GuidedBelow bound (words BlockOf) fun input => (block input).outcome) :
    GuidedBelow bound (words StmtPhrase) fun input => (stmt input).outcome := by
  intro input short
  cases input with
  | nil => exact .refuse_at_end (stmt_outcome [])
  | cons first rest =>
      have shortRest : rest.length < bound := Nat.lt_of_succ_lt short
      obtain ⟨text, kind, line⟩ := first
      cases kind
      case identifier => exact named_guided rfl rest
      -- the parts stand behind each other, so the language of the whole is a product
      case ifWord =>
        refine .take (fun other => stmt_outcome _) ?_ (.bind (expr_guided rest)
          fun condition middle tested => .bind (token_guided .thenWord middle)
          fun thenWord after worded => .bind (blocks after ?_)
          fun thenBlock final blocked => .last (else_part_guided blocks final ?_) fun _ _ => rfl)
        · rintro _ ⟨test, ⟨condition, tested⟩, _, ⟨_, ⟨thenWord, rfl, isThen⟩, _,
            ⟨thenTokens, ⟨⟨thenLine, thenBody⟩, thenBlock⟩, _,
            rfl | ⟨_, ⟨elseWord, rfl, isElse⟩, elseTokens, ⟨⟨elseLine, elseBody⟩, elseBlock⟩, rfl⟩,
            rfl⟩, rfl⟩, rfl⟩
          · simp only [List.append_nil]
            exact ⟨_, .ifThen _ thenWord test thenTokens condition thenLine thenBody rfl tested
              isThen thenBlock⟩
          · exact ⟨_, .ifElse _ thenWord elseWord test thenTokens elseTokens condition thenLine
              thenBody elseLine elseBody rfl tested isThen thenBlock isElse elseBlock⟩
        · exact (outcome_shorter worded).trans ((outcome_shorter tested).trans shortRest)
        · exact (outcome_shorter blocked).trans ((outcome_shorter worded).trans
            ((outcome_shorter tested).trans shortRest))
      case whileWord =>
        refine .take (fun other => stmt_outcome _) ?_ (.bind (expr_guided rest)
          fun condition middle tested => .bind (token_guided .doWord middle)
          fun doWord after worded => .last (blocks after ?_) fun _ _ => rfl)
        · rintro _ ⟨test, ⟨condition, tested⟩, _, ⟨_, ⟨doWord, rfl, isDo⟩, tokens,
            ⟨⟨bodyLine, body⟩, block⟩, rfl⟩, rfl⟩
          exact ⟨_, .whileDo _ doWord test tokens condition bodyLine body rfl tested isDo block⟩
        · exact (outcome_shorter worded).trans ((outcome_shorter tested).trans shortRest)
      case readlnWord =>
        refine .take (fun other => stmt_outcome _) ?_
          (.last (optional_guided (separated_guided target_guided) rest) fun _ _ => rfl)
        rintro tokens ⟨targets, listed⟩
        exact ⟨_, .read _ tokens targets rfl listed⟩
      case writelnWord =>
        refine .take (fun other => stmt_outcome _) ?_
          (.last (optional_guided (separated_guided expr_guided) rest) fun _ _ => rfl)
        rintro tokens ⟨values, listed⟩
        exact ⟨_, .write _ tokens values rfl listed⟩
      case beginWord =>
        refine .look (stmt_of_begin rfl) (.mono (.last (blocks _ short) fun _ _ => rfl) ?_)
        rintro tokens ⟨⟨line, body⟩, block⟩
        exact ⟨_, .block tokens line body block⟩
      all_goals exact .unexpected fun other => stmt_outcome _

theorem stmts_words : (words StmtPhrase * ofKind .semicolon)∗ ≤ words StmtsPhrase := by
  have none : (1 : Language Token) ≤ words StmtsPhrase := by
    rintro _ rfl
    exact ⟨[], .none⟩
  have more : words StmtPhrase * ofKind .semicolon * words StmtsPhrase ≤ words StmtsPhrase := by
    rintro _ ⟨_, ⟨tokens, ⟨first, statement⟩, _, ⟨mark, rfl, ended⟩, rfl⟩, others,
      ⟨rest, statements⟩, rfl⟩
    refine ⟨first :: rest, ?_⟩
    simpa using StmtsPhrase.more tokens others mark first rest statement ended statements
  simpa using kstar_mul_le none more

theorem stmts_of_start {first : Token} (starts : startsStatement first.kind = true)
    (input : List Token) (heads : input.head? = some first) : (stmts input).outcome = (do
      let (statement, rest) ← (stmt input).outcome
      let (_, rest) ← (token .semicolon rest).outcome
      let (statements, rest) ← (stmts rest).outcome
      .ok (statement :: statements, rest)) := by
  obtain ⟨rest, rfl⟩ := List.head?_eq_some_iff.mp heads
  exact (stmts_outcome _).trans (if_pos starts)

theorem stmts_guided_below
    (statements : GuidedBelow bound (words StmtPhrase) fun input => (stmt input).outcome) :
    GuidedBelow bound (words StmtPhrase * ofKind .semicolon)∗
      fun input => (stmts input).outcome := by
  intro input short
  induction size : input.length using Nat.strongRecOn generalizing input with
  | ind size ih =>
      cases input with
      | nil => exact .stay_at_end (Language.nil_mem_kstar _) (stmts_outcome [])
      | cons first more =>
          by_cases starts : startsStatement first.kind = true
          · refine .look (stmts_of_start starts) (.mono (.bind (statements _ short)
              fun statement middle read => .bind (token_guided .semicolon middle)
              fun mark after ended => .last (ih after.length ?_ after ?_ rfl) fun _ _ => rfl) ?_)
            · exact size ▸ (outcome_shorter ended).trans (outcome_shorter read)
            · exact (outcome_shorter ended).trans ((outcome_shorter read).trans short)
            · rw [← mul_assoc]
              exact mul_kstar_le_kstar
          · exact .stay [] (Language.nil_mem_kstar _) fun other =>
              (stmts_outcome _).trans (if_neg starts)

theorem block_guided_below (bound : Nat) :
    GuidedBelow bound (words BlockOf) fun input => (block input).outcome := by
  induction bound with
  | zero => exact fun input short => absurd short (Nat.not_lt_zero _)
  | succ bound ih =>
      intro input short
      cases input with
      | nil => exact .refuse_at_end (block_outcome [])
      | cons word rest =>
          by_cases isBegin : word.kind = .beginWord
          · refine .take (fun other => (block_outcome _).trans (if_pos isBegin)) ?_
              (.bind (stmts_guided_below (stmt_guided_below ih) rest (Nat.lt_of_succ_lt_succ short))
                fun body middle _ => .last (token_guided .endWord middle) fun _ _ => rfl)
            rintro _ ⟨tokens, inside, _, ⟨endWord, rfl, isEnd⟩, rfl⟩
            obtain ⟨body, within⟩ := stmts_words inside
            exact ⟨(word.line, body), .block word endWord tokens body isBegin within isEnd⟩
          · exact .unexpected fun other => (block_outcome _).trans (if_neg isBegin)

theorem block_guided (input : List Token) :
    Guided (words BlockOf) (fun input => (block input).outcome) input :=
  block_guided_below _ input (Nat.lt_succ_self _)

end Statements

section Declarations

instance : Productive (marks standardType?) := ⟨[⟨"", .integerWord, 1⟩], _, .integer, rfl, rfl⟩

theorem standard_type_guided (input : List Token) :
    Guided (marks standardType?) (fun input => (standardType input).outcome) input := by
  cases input with
  | nil => exact .refuse_at_end (standardType_outcome [])
  | cons word rest =>
      cases named : standardType? word.kind with
      | none => exact .unexpected fun other => by simp only [standardType_outcome, named]
      | some type =>
          refine .take (fun other => ?_) ?_ (.ok type)
          · simp only [standardType_outcome, named]
          · rintro _ rfl
            exact mem_of_mark named

/-- The single constants that have a value. -/
def numerals : Language Token :=
  {tokens | ∃ numeral value, tokens = [numeral] ∧ numeral.kind = .constant ∧
    Numeral numeral.text value}

theorem numeral_zero : Numeral "0" 0 :=
  ⟨by decide, List.all_eq_true.mp (by decide), by decide⟩

instance : Productive numerals := ⟨[⟨"0", .constant, 1⟩], _, 0, rfl, rfl, numeral_zero⟩

theorem magnitude_guided (input : List Token) :
    Guided numerals (fun input => (magnitude input).outcome) input := by
  cases input with
  | nil => exact .refuse_at_end (magnitude_outcome [])
  | cons numeral rest =>
      by_cases isConstant : numeral.kind = .constant
      · have read : ∀ other, (magnitude (numeral :: other)).outcome = (do
            let value ← valueOf (Text.literalValue? numeral.text.toList) numeral other
            .ok (value, other)) := by
          intro other
          rw [magnitude_outcome, token_read isConstant]
          rfl
        cases valued : Text.literalValue? numeral.text.toList with
        | none =>
            exact .refuse (.malformed numeral) (fun _ => rfl) fun other => by
              simp [read, valued, valueOf, except_bind_error]
        | some value =>
            refine .take (fun other => ?_) ?_ (.ok value)
            · simp [read, valued, valueOf]
            · rintro _ rfl
              exact ⟨numeral, value, rfl, isConstant, literal_value_numeral.mp valued⟩
      · exact .unexpected fun other => by
          simp [magnitude_outcome, token_outcome, isConstant, except_bind_error]

theorem bound_words {sign numeral : Token} {op : UnaryOp} {value : Nat}
    (marked : sign? sign.kind = some op) (isConstant : numeral.kind = .constant)
    (valued : Numeral numeral.text value) : ∃ bound, BoundPhrase [sign, numeral] bound := by
  generalize isSign : sign.kind = kind at marked
  cases sign_mark.mp marked with
  | plus => exact ⟨_, .positive sign numeral value isSign isConstant valued⟩
  | minus => exact ⟨_, .negative sign numeral value isSign isConstant valued⟩

instance : Productive (words BoundPhrase) :=
  ⟨[⟨"0", .constant, 1⟩], _, .unsigned _ 0 rfl numeral_zero⟩

theorem bound_of_sign {sign : Token} {op : UnaryOp} (marked : sign? sign.kind = some op)
    (input : List Token) : (bound (sign :: input)).outcome = (do
      let (value, rest) ← (magnitude input).outcome
      .ok (⟨op = .minus, value⟩, rest)) := by
  rw [bound_outcome]
  simp only [marked]

theorem bound_of_other {first : Token} (unmarked : sign? first.kind = none) (input : List Token)
    (heads : input.head? = some first) : (bound input).outcome = (do
      let (value, rest) ← (magnitude input).outcome
      .ok (⟨false, value⟩, rest)) := by
  obtain ⟨rest, rfl⟩ := List.head?_eq_some_iff.mp heads
  rw [bound_outcome]
  simp only [unmarked]

theorem bound_guided (input : List Token) :
    Guided (words BoundPhrase) (fun input => (bound input).outcome) input := by
  cases input with
  | nil => exact .refuse_at_end (bound_outcome [])
  | cons first rest =>
      cases marked : sign? first.kind with
      | some op =>
          refine .take (bound_of_sign marked) ?_ (.last (magnitude_guided rest) fun _ _ => rfl)
          rintro _ ⟨numeral, value, rfl, isConstant, valued⟩
          exact bound_words marked isConstant valued
      | none =>
          refine .look (bound_of_other marked)
            (.mono (.last (magnitude_guided _) fun _ _ => rfl) ?_)
          rintro _ ⟨numeral, value, rfl, isConstant, valued⟩
          exact ⟨_, .unsigned numeral value isConstant valued⟩

/-- Types with their line, as readers give them. -/
def TypeOf (tokens : List Token) (value : TypeSpec × Nat) : Prop :=
  TypePhrase tokens value.1 value.2

instance : Productive (words TypeOf) :=
  ⟨[⟨"", .integerWord, 1⟩], (.standard .integer, 1), .standard _ _ .integer⟩

theorem type_of_other {first : Token} (notArray : first.kind ≠ .arrayWord) (input : List Token)
    (heads : input.head? = some first) : (typeSpec input).outcome = (do
      let (type, rest) ← (standardType input).outcome
      .ok ((.standard type, first.line), rest)) := by
  obtain ⟨rest, rfl⟩ := List.head?_eq_some_iff.mp heads
  exact (typeSpec_outcome _).trans (if_neg notArray)

theorem type_guided (input : List Token) :
    Guided (words TypeOf) (fun input => (typeSpec input).outcome) input := by
  cases input with
  | nil => exact .refuse_at_end (typeSpec_outcome [])
  | cons first rest =>
      by_cases isArray : first.kind = .arrayWord
      · refine .take (fun other => (typeSpec_outcome _).trans (if_pos isArray)) ?_
          (.bind (token_guided .leftBracket rest) fun _ rest _ =>
            .bind (bound_guided rest) fun _ rest _ =>
            .bind (token_guided .range rest) fun _ rest _ =>
            .bind (bound_guided rest) fun _ rest _ =>
            .bind (token_guided .rightBracket rest) fun _ rest _ =>
            .bind (token_guided .ofWord rest) fun _ rest _ =>
            .last (standard_type_guided rest) fun _ _ => rfl)
        rintro _ ⟨_, ⟨opening, rfl, opens⟩, _, ⟨lowTokens, ⟨low, lowest⟩, _,
          ⟨_, ⟨range, rfl, ranged⟩, _, ⟨highTokens, ⟨high, highest⟩, _,
          ⟨_, ⟨closing, rfl, closes⟩, _, ⟨_, ⟨ofWord, rfl, isOf⟩, _,
          ⟨word, element, rfl, named⟩, rfl⟩, rfl⟩, rfl⟩, rfl⟩, rfl⟩, rfl⟩
        exact ⟨(_, _), .array first opening range closing ofWord word lowTokens highTokens low high
          element isArray opens lowest ranged highest closes isOf (standard_type_word.mp named)⟩
      · refine .look (type_of_other isArray) (.mono (.last (standard_type_guided _) fun _ _ => rfl) ?_)
        rintro _ ⟨word, type, rfl, named⟩
        exact ⟨(_, _), .standard word type (standard_type_word.mp named)⟩

theorem names_guided (input : List Token) :
    Guided (words (Separated .comma NamePhrase)) (fun input => (names input).outcome) input := by
  refine separated_guided (fun input => .mono (token_guided .identifier input) ?_) input
  rintro _ ⟨name, rfl, isName⟩
  exact ⟨name, .name name isName⟩

theorem var_group_guided (input : List Token) :
    Guided (words VarGroupPhrase) (fun input => (varGroup input).outcome) input := by
  rw [funext varGroup_outcome]
  refine .mono (.bind (names_guided input) fun _ rest _ =>
    .bind (token_guided .colon rest) fun _ rest _ =>
    .bind (type_guided rest) fun ⟨_, _⟩ rest _ =>
    .last (token_guided .semicolon rest) fun _ _ => rfl) ?_
  rintro _ ⟨nameTokens, ⟨names, listed⟩, _, ⟨_, ⟨colon, rfl, isColon⟩, _,
    ⟨typeTokens, ⟨⟨type, typeLine⟩, typed⟩, _, ⟨semicolon, rfl, ended⟩, rfl⟩, rfl⟩, rfl⟩
  exact ⟨_, .group nameTokens typeTokens colon semicolon names type typeLine listed isColon typed
    ended⟩

theorem more_var_groups_of_name {first : Token} (isName : first.kind = .identifier)
    (input : List Token) (heads : input.head? = some first) :
    (moreVarGroups input).outcome = (do
      let (group, rest) ← (varGroup input).outcome
      let (groups, rest) ← (moreVarGroups rest).outcome
      .ok (group ++ groups, rest)) := by
  obtain ⟨rest, rfl⟩ := List.head?_eq_some_iff.mp heads
  exact (moreVarGroups_outcome _).trans (if_pos isName)

theorem more_var_groups_guided (input : List Token) :
    Guided (words VarGroupPhrase)∗ (fun input => (moreVarGroups input).outcome) input := by
  induction size : input.length using Nat.strongRecOn generalizing input with
  | ind size ih =>
      cases input with
      | nil => exact .stay_at_end (Language.nil_mem_kstar _) (moreVarGroups_outcome [])
      | cons first more =>
          by_cases isName : first.kind = .identifier
          · exact .look (more_var_groups_of_name isName) (.mono (.bind (var_group_guided _)
              fun group middle read => .last (ih middle.length (size ▸ outcome_shorter read)
                middle rfl) fun _ _ => rfl) mul_kstar_le_kstar)
          · exact .stay [] (Language.nil_mem_kstar _) fun other =>
              (moreVarGroups_outcome _).trans (if_neg isName)

theorem var_groups_words :
    words VarGroupPhrase * (words VarGroupPhrase)∗ ≤ words VarGroupsPhrase := by
  rintro _ ⟨first, ⟨group, one⟩, _, ⟨rounds, rfl, member⟩, rfl⟩
  induction rounds generalizing first group with
  | nil => exact ⟨group, by simpa using VarGroupsPhrase.one first group one⟩
  | cons round rounds ih =>
      obtain ⟨next, two⟩ := member round List.mem_cons_self
      obtain ⟨groups, others⟩ :=
        ih round next two fun other later => member other (List.mem_cons_of_mem _ later)
      exact ⟨group ++ groups, .more first _ group groups one others⟩

theorem vars_guided (input : List Token) :
    Guided (words VarsPhrase) (fun input => (vars input).outcome) input := by
  cases input with
  | nil => exact .stay_at_end ⟨[], .none⟩ (vars_outcome [])
  | cons word rest =>
      by_cases isVar : word.kind = .varWord
      · refine .take (fun other => (vars_outcome _).trans (if_pos isVar)) ?_
          (.bind (var_group_guided rest) fun _ middle _ =>
            .last (more_var_groups_guided middle) fun _ _ => rfl)
        intro tokens member
        obtain ⟨vars, groups⟩ := var_groups_words member
        exact ⟨vars, .declared word tokens vars isVar groups⟩
      · exact .stay [] ⟨[], .none⟩ fun other => (vars_outcome _).trans (if_neg isVar)

theorem param_group_guided (input : List Token) :
    Guided (words ParamGroupPhrase) (fun input => (paramGroup input).outcome) input := by
  rw [funext paramGroup_outcome]
  refine .mono (.bind (names_guided input) fun _ rest _ =>
    .bind (token_guided .colon rest) fun _ rest _ =>
    .last (standard_type_guided rest) fun _ _ => rfl) ?_
  rintro _ ⟨nameTokens, ⟨names, listed⟩, _, ⟨_, ⟨colon, rfl, isColon⟩, _, ⟨word, type, rfl, named⟩,
    rfl⟩, rfl⟩
  exact ⟨_, .group nameTokens colon word names type listed isColon (standard_type_word.mp named)⟩

instance : Productive (words ParamGroupPhrase) :=
  ⟨[⟨"", .identifier, 1⟩] ++ [⟨"", .colon, 1⟩, ⟨"", .integerWord, 1⟩], _,
    .group _ _ _ _ _ (.one _ _ (.name _ rfl)) rfl .integer⟩

instance : Productive (words (Optional (Separated .semicolon ParamGroupPhrase))) :=
  ⟨[], [], .absent⟩

instance : Productive (words VarsPhrase) := ⟨[], [], .none⟩

theorem procedure_guided (input : List Token) :
    Guided (words ProcedurePhrase) (fun input => (procedure input).outcome) input := by
  rw [funext procedure_outcome]
  refine .mono (.bind (token_guided .procedureWord input) fun _ rest _ =>
    .bind (token_guided .identifier rest) fun _ rest _ =>
    .bind (optional_guided (separated_guided param_group_guided) rest) fun _ rest _ =>
    .bind (token_guided .semicolon rest) fun _ rest _ =>
    .bind (vars_guided rest) fun _ rest _ => .last (block_guided rest) fun _ _ => rfl) ?_
  rintro _ ⟨_, ⟨word, rfl, isProcedure⟩, _, ⟨_, ⟨name, rfl, isName⟩, _,
    ⟨paramTokens, ⟨groups, params⟩, _, ⟨_, ⟨semicolon, rfl, ended⟩, _,
    ⟨varTokens, ⟨vars, locals⟩, blockTokens, ⟨⟨bodyLine, body⟩, block⟩, rfl⟩, rfl⟩, rfl⟩, rfl⟩, rfl⟩
  exact ⟨_, .procedure word name semicolon paramTokens varTokens blockTokens groups vars bodyLine
    body isProcedure isName params ended locals block⟩

theorem procedures_words :
    (words ProcedurePhrase * ofKind .semicolon)∗ ≤ words ProceduresPhrase := by
  have none : (1 : Language Token) ≤ words ProceduresPhrase := by
    rintro _ rfl
    exact ⟨[], .none⟩
  have more : words ProcedurePhrase * ofKind .semicolon * words ProceduresPhrase ≤
      words ProceduresPhrase := by
    rintro _ ⟨_, ⟨tokens, ⟨first, declared⟩, _, ⟨mark, rfl, ended⟩, rfl⟩, others,
      ⟨rest, procedures⟩, rfl⟩
    refine ⟨first :: rest, ?_⟩
    simpa using ProceduresPhrase.more tokens others mark first rest declared ended procedures
  simpa using kstar_mul_le none more

theorem procedures_of_word {first : Token} (isProcedure : first.kind = .procedureWord)
    (input : List Token) (heads : input.head? = some first) : (procedures input).outcome = (do
      let (declared, rest) ← (procedure input).outcome
      let (_, rest) ← (token .semicolon rest).outcome
      let (others, rest) ← (procedures rest).outcome
      .ok (declared :: others, rest)) := by
  obtain ⟨rest, rfl⟩ := List.head?_eq_some_iff.mp heads
  exact (procedures_outcome _).trans (if_pos isProcedure)

theorem procedures_guided (input : List Token) :
    Guided (words ProcedurePhrase * ofKind .semicolon)∗
      (fun input => (procedures input).outcome) input := by
  induction size : input.length using Nat.strongRecOn generalizing input with
  | ind size ih =>
      cases input with
      | nil => exact .stay_at_end (Language.nil_mem_kstar _) (procedures_outcome [])
      | cons first more =>
          by_cases isProcedure : first.kind = .procedureWord
          · refine .look (procedures_of_word isProcedure) (.mono (.bind (procedure_guided _)
              fun declared middle read => .bind (token_guided .semicolon middle)
              fun mark after ended => .last (ih after.length ?_ after rfl) fun _ _ => rfl) ?_)
            · exact size ▸ (outcome_shorter ended).trans (outcome_shorter read)
            · rw [← mul_assoc]
              exact mul_kstar_le_kstar
          · exact .stay [] (Language.nil_mem_kstar _) fun other =>
              (procedures_outcome _).trans (if_neg isProcedure)

theorem program_guided (input : List Token) :
    Guided (words ProgramPhrase) (fun input => (program input).outcome) input := by
  rw [funext program_outcome]
  refine .mono (.bind (token_guided .programWord input) fun _ rest _ =>
    .bind (token_guided .identifier rest) fun _ rest _ =>
    .bind (token_guided .semicolon rest) fun _ rest _ =>
    .bind (vars_guided rest) fun _ rest _ => .bind (procedures_guided rest) fun _ rest _ =>
    .bind (block_guided rest) fun _ rest _ => .last (token_guided .dot rest) fun _ _ => rfl) ?_
  rintro _ ⟨_, ⟨word, rfl, isProgram⟩, _, ⟨_, ⟨name, rfl, isName⟩, _,
    ⟨_, ⟨semicolon, rfl, ended⟩, _, ⟨varTokens, ⟨vars, globals⟩, _,
    ⟨procedureTokens, declared, _, ⟨blockTokens, ⟨⟨bodyLine, body⟩, block⟩, _, ⟨dot, rfl, isDot⟩,
    rfl⟩, rfl⟩, rfl⟩, rfl⟩, rfl⟩, rfl⟩
  obtain ⟨procedures, declared⟩ := procedures_words declared
  exact ⟨_, .program word name semicolon dot varTokens procedureTokens blockTokens vars procedures
    bodyLine body isProgram isName ended globals declared block isDot⟩

end Declarations

theorem sentence_error {input : List Token} {failure : Failure}
    (failed : sentence input = .error failure) :
    (program input).outcome = .error failure ∨
      ∃ tree next rest, (program input).outcome = .ok (tree, next :: rest) ∧
        failure = .unexpected (next :: rest) := by
  unfold sentence at failed
  cases read : program input with
  | error other =>
      rw [read] at failed
      cases failed
      exact .inl rfl
  | ok reading =>
      obtain ⟨tree, rest, within⟩ := reading
      rw [read] at failed
      cases rest with
      | nil => cases failed
      | cons next rest =>
          cases failed
          exact .inr ⟨tree, next, rest, rfl, rfl⟩

/-- The tokens are a program of the grammar. -/
def Sentence (tokens : List Token) : Prop := ∃ tree, ProgramPhrase tokens tree

theorem sentence_read {tokens : List Token} (phrase : Sentence tokens) :
    ∃ tree, (program tokens).outcome = .ok (tree, []) := by
  obtain ⟨tree, derived⟩ := phrase
  exact ⟨tree, sentence_ok.mp (sentence_iff_phrase.mpr derived)⟩

/-- A sentence is given up at a token that no sentence has there. -/
theorem sentence_fails_at_misfit {input : List Token} {failure : Failure}
    (failed : sentence input = .error failure) :
    ∃ taken, input = taken ++ failure.remaining ∧ (∃ more, Sentence (taken ++ more)) ∧
      ∀ next rest, failure.remaining = next :: rest →
        ∀ other, ¬ Sentence (taken ++ next :: other) := by
  obtain stopped | ⟨tree, next, rest, read, rfl⟩ := sentence_error failed
  · obtain ⟨taken, begun, split, again⟩ := (program_guided input).begun stopped
    refine ⟨taken, split, begun, fun next rest stops other phrase => ?_⟩
    obtain ⟨tree, read⟩ := sentence_read phrase
    obtain ⟨failure, stopped⟩ := again (next :: other) (stops ▸ rfl)
    rw [read] at stopped
    cases stopped
  · obtain ⟨taken, ⟨tree, derived⟩, split, again⟩ := (program_guided input).word read
    refine ⟨taken, split, ⟨[], tree, by rwa [List.append_nil]⟩, ?_⟩
    rintro _ _ ⟨⟩ other phrase
    obtain ⟨tree, read⟩ := sentence_read phrase
    rw [again (next :: other) rfl] at read
    cases read

theorem Failure.line_eq (failure : Failure) (last : Nat) :
    failure.line last = (failure.remaining.head?.map Token.line).getD last := by
  rcases failure with ⟨_ | _⟩ | _ <;> rfl

end Grammar

open Grammar

/-- The tokens up to their first end mark, with the mark. Where there is none,
one is added on the line of the last token. -/
def untilEnd (tokens : List Token) : List Token :=
  match tokens.find? Token.isEnd with
  | some mark => (tokens.takeWhile fun token => !token.isEnd) ++ [mark]
  | none => tokens ++ [Token.endOfInput ((tokens.getLast?.map Token.line).getD 1)]

theorem until_end_input (tokens : List Token) :
    ∃ mark, untilEnd tokens = (Cursor.ofTokens tokens).input ++ [mark] ∧ mark.isEnd = true ∧
      mark.line = (Cursor.ofTokens tokens).endLine := by
  rw [input_of_tokens]
  simp only [Cursor.endLine, Cursor.upcoming, Cursor.ofTokens, List.drop_zero]
  cases found : tokens.find? Token.isEnd with
  | some mark =>
      refine ⟨mark, by simp only [untilEnd, found], List.find?_some found, ?_⟩
      obtain same | ⟨line, same⟩ := close_tokens_cases tokens
      · rw [same, found]
      · rw [same, List.find?_append, found]
        rfl
  | none =>
      have written : ∀ token ∈ tokens, token.isEnd = false := by simpa using found
      have whole : tokens.takeWhile (fun token => !token.isEnd) = tokens := by
        rw [List.takeWhile_eq_self_iff]
        simpa using written
      -- without a mark of its own the input is closed by one on the line of the last token
      refine ⟨Token.endOfInput ((tokens.getLast?.map Token.line).getD 1), ?_, rfl, ?_⟩
      · simp only [untilEnd, found, whole]
      cases ending : tokens.getLast? with
      | none =>
          rw [List.getLast?_eq_none_iff.mp ending]
          rfl
      | some last =>
          have plain : last.isEnd = false := written last (List.mem_of_getLast? ending)
          have closed : closeTokens tokens = tokens ++ [Token.endOfInput last.line] := by
            simp [closeTokens, ending, plain]
          rw [closed, List.find?_append, found]
          rfl

/-- A parse that fails reports the line of the first token that does not fit:
the tokens before it begin a program, and no program goes on with it. The end
mark does not fit where the tokens before it are not yet a program. -/
theorem fault_at_first_misfit (tokens : List Token) (fault : Fault)
    (failed : Program.ofTokens tokens = .error fault) :
    ∃ place misfit, (untilEnd tokens)[place]? = some misfit ∧ fault = .syntactic misfit.line ∧
      (∃ more, Sentence ((untilEnd tokens).take place ++ more)) ∧
      (misfit.isEnd = false → ∀ more, ¬ Sentence ((untilEnd tokens).take (place + 1) ++ more)) ∧
      (misfit.isEnd = true → ¬ Sentence ((untilEnd tokens).take place)) := by
  obtain ⟨mark, split, isEnd, endLine⟩ := until_end_input tokens
  have written : ∀ token ∈ (Cursor.ofTokens tokens).input, token.isEnd = false := by
    intro token member
    rw [input_of_tokens] at member
    simpa using List.mem_takeWhile_imp member
  rw [Program.ofTokens, Cursor.parse] at failed
  cases read : sentence (Cursor.ofTokens tokens).input with
  | ok tree => simp [read] at failed
  | error failure =>
      simp only [read, Except.error.injEq] at failed
      obtain ⟨taken, input, begun, misfits⟩ := sentence_fails_at_misfit read
      rw [Failure.line_eq, ← endLine] at failed
      cases stops : failure.remaining with
      -- all of the input was begun, and the token that does not fit is the one of the end
      | nil =>
          rw [stops, List.append_nil] at input
          refine ⟨taken.length, mark, by simp [split, input], by simp [← failed, stops], ?_⟩
          rw [split, input, List.take_left]
          refine ⟨begun, by simp [isEnd], fun _ phrase => ?_⟩
          obtain ⟨tree, derived⟩ := phrase
          rw [input, sentence_iff_phrase.mpr derived] at read
          cases read
      | cons next rest =>
          have plain : next.isEnd = false := written next (by simp [input, stops])
          refine ⟨taken.length, next, by simp [split, input, stops], by simp [← failed, stops], ?_⟩
          have before : (untilEnd tokens).take taken.length = taken := by
            simp [split, input, stops]
          have through : (untilEnd tokens).take (taken.length + 1) = taken ++ [next] := by
            simp [split, input, stops, List.take_append]
          rw [before, through]
          refine ⟨begun, fun _ more phrase => ?_, by simp [plain]⟩
          exact misfits next rest stops more (by simpa using phrase)

/-- An element of an array where an assignment to it should stand. -/
def unfinishedAssignment : List Token :=
  [⟨"program", .programWord, 1⟩, ⟨"sample", .identifier, 1⟩, ⟨";", .semicolon, 1⟩,
    ⟨"begin", .beginWord, 2⟩, ⟨"list", .identifier, 3⟩, ⟨"[", .leftBracket, 3⟩,
    ⟨"place", .identifier, 3⟩, ⟨"]", .rightBracket, 3⟩, ⟨";", .semicolon, 4⟩, ⟨"end", .endWord, 5⟩,
    ⟨".", .dot, 5⟩]

theorem unfinished_assignment_misfits :
    Program.ofTokens unfinishedAssignment = .error (.syntactic 4) ∧
    ∃ place misfit, (untilEnd unfinishedAssignment)[place]? = some misfit ∧
      Fault.syntactic 4 = .syntactic misfit.line ∧
      (∃ more, Sentence ((untilEnd unfinishedAssignment).take place ++ more)) ∧
      (misfit.isEnd = false →
        ∀ more, ¬ Sentence ((untilEnd unfinishedAssignment).take (place + 1) ++ more)) ∧
      (misfit.isEnd = true → ¬ Sentence ((untilEnd unfinishedAssignment).take place)) := by
  have failed : Program.ofTokens unfinishedAssignment = .error (.syntactic 4) := by cbv
  exact ⟨failed, fault_at_first_misfit unfinishedAssignment (.syntactic 4) failed⟩

end PascalCasl
