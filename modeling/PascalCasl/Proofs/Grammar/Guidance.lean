import Mathlib.Computability.Language
import Mathlib.Order.CompletePartialOrder
import PascalCasl.Proofs.Grammar.Exactness

/-!
Readers are guided by the grammar. The tokens that a reader takes are a word of
its language, and the tokens it takes before it fails begin one. No reader looks
beyond the token it stops at, so it does the same on all inputs that agree up to
that token.
-/

namespace PascalCasl.Grammar

open scoped Computability

variable {α β : Type}

/-- The tokens that a failure stopped at, the one at fault first. -/
def Failure.remaining : Failure → List Token
  | .unexpected rest => rest
  | .malformed token rest => token :: rest

/-- The token lists that are phrases, whatever their trees are. -/
def words (phrase : List Token → α → Prop) : Language Token :=
  {tokens | ∃ value, phrase tokens value}

/-- The single tokens of a kind. -/
def ofKind (kind : Kind) : Language Token :=
  {tokens | ∃ token, tokens = [token] ∧ token.kind = kind}

theorem mem_of_kind {kind : Kind} {next : Token} (marked : next.kind = kind) :
    [next] ∈ ofKind kind := ⟨next, rfl, marked⟩

def Begins (language : Language Token) (taken : List Token) : Prop :=
  ∃ more, taken ++ more ∈ language

/-- A language with a word, so that what is still to come can always be added. -/
class Productive (language : Language Token) : Prop where
  word : ∃ word, word ∈ language

theorem begins_nothing (language : Language Token) [productive : Productive language] :
    Begins language [] := productive.word

instance : Productive 1 := ⟨[], Language.nil_mem_one⟩

instance (language : Language Token) : Productive language∗ := ⟨[], Language.nil_mem_kstar _⟩

instance (first second : Language Token) [Productive first] [Productive second] :
    Productive (first * second) := by
  obtain ⟨left, inFirst⟩ := begins_nothing first
  obtain ⟨right, inSecond⟩ := begins_nothing second
  exact ⟨left ++ right, Language.append_mem_mul inFirst inSecond⟩

instance (kind : Kind) : Productive (ofKind kind) := ⟨[⟨"", kind, 1⟩], _, rfl, rfl⟩

/-- What a reader does with an input shows words of its language, and it shows
no more than the tokens up to the first one that is left. -/
structure Guided (language : Language Token)
    (reader : List Token → Except Failure (α × List Token)) (input : List Token) : Prop where
  word : ∀ {value rest}, reader input = .ok (value, rest) →
    ∃ taken ∈ language, input = taken ++ rest ∧
      ∀ other, other.head? = rest.head? → reader (taken ++ other) = .ok (value, other)
  begun : ∀ {failure}, reader input = .error failure →
    ∃ taken, Begins language taken ∧ input = taken ++ failure.remaining ∧
      ∀ other, other.head? = failure.remaining.head? →
        ∃ again, reader (taken ++ other) = .error again

/-- Readers that are guided on inputs below a length. -/
def GuidedBelow (bound : Nat) (language : Language Token)
    (reader : List Token → Except Failure (α × List Token)) : Prop :=
  ∀ input, input.length < bound → Guided language reader input

theorem begins_of_subset {small large : Language Token} {taken : List Token}
    (subset : small ≤ large) (begun : Begins small taken) : Begins large taken :=
  begun.imp fun _ member => subset member

namespace Guided

variable {language first second : Language Token} {input : List Token}
  {reader : List Token → Except Failure (α × List Token)}

theorem mono {small : Language Token} (guided : Guided small reader input)
    (subset : small ≤ language) : Guided language reader input where
  word read := by
    obtain ⟨taken, member, split, kept⟩ := guided.word read
    exact ⟨taken, subset member, split, kept⟩
  begun failed := by
    obtain ⟨taken, begun, split, kept⟩ := guided.begun failed
    exact ⟨taken, begins_of_subset subset begun, split, kept⟩

/-- Two readers one after the other. The first sees the same next token whatever
stands behind the words of the second. -/
theorem bind [Productive second] {next : α × List Token → Except Failure (β × List Token)}
    (one : Guided first reader input)
    (two : ∀ value rest, reader input = .ok (value, rest) →
      Guided second (fun rest => next (value, rest)) rest) :
    Guided (first * second) (fun input => reader input >>= next) input where
  word {result rest} read := by
    simp only [except_bind_ok, Prod.exists] at read
    obtain ⟨value, middle, began, ended⟩ := read
    obtain ⟨left, inFirst, rfl, keptLeft⟩ := one.word began
    obtain ⟨right, inSecond, rfl, keptRight⟩ := (two value middle began).word ended
    refine ⟨left ++ right, Language.append_mem_mul inFirst inSecond, by simp, fun other same => ?_⟩
    have head : (right ++ other).head? = (right ++ rest).head? := by simp [List.head?_append, same]
    simp [keptLeft _ head, keptRight other same]
  begun {failure} failed := by
    simp only [except_bind_error, Prod.exists] at failed
    obtain began | ⟨value, middle, began, ended⟩ := failed
    · -- what was begun goes on with the rest of the first word and any second one
      obtain ⟨left, ⟨more, inFirst⟩, split, kept⟩ := one.begun began
      obtain ⟨right, inSecond⟩ := begins_nothing second
      refine ⟨left, ⟨more ++ right, ?_⟩, split, fun other same => ?_⟩
      · rw [← List.append_assoc]
        exact Language.append_mem_mul inFirst inSecond
      · obtain ⟨again, failed⟩ := kept other same
        exact ⟨again, by simp [failed, except_bind_error]⟩
    · obtain ⟨left, inFirst, rfl, keptLeft⟩ := one.word began
      obtain ⟨right, ⟨more, inSecond⟩, rfl, keptRight⟩ := (two value middle began).begun ended
      refine ⟨left ++ right, ⟨more, ?_⟩, by simp, fun other same => ?_⟩
      · rw [List.append_assoc]
        exact Language.append_mem_mul inFirst inSecond
      · have head : (right ++ other).head? = (right ++ failure.remaining).head? := by
          simp [List.head?_append, same]
        obtain ⟨again, failed⟩ := keptRight other same
        exact ⟨again, by simp [keptLeft _ head, failed]⟩

theorem ok (value : α) : Guided 1 (fun input => .ok (value, input)) input where
  word := by
    rintro _ _ ⟨⟩
    exact ⟨[], Language.nil_mem_one, rfl, fun _ _ => rfl⟩
  begun failed := nomatch failed

theorem last {next : α × List Token → Except Failure (β × List Token)} {change : α → β}
    (guided : Guided language reader input)
    (ends : ∀ value rest, next (value, rest) = .ok (change value, rest)) :
    Guided language (fun input => reader input >>= next) input := by
  refine mul_one language ▸ guided.bind fun value rest _ => ?_
  simp only [ends]
  exact ok (change value)

theorem look {branch : List Token → Except Failure (α × List Token)}
    (same : ∀ other, other.head? = input.head? → reader other = branch other)
    (guided : Guided language branch input) : Guided language reader input := by
  -- Whatever is put behind the taken tokens, the whole has the same first token.
  have agrees {taken remaining other : List Token} (split : input = taken ++ remaining)
      (heads : other.head? = remaining.head?) :
      reader (taken ++ other) = branch (taken ++ other) := by
    apply same
    rw [split, List.head?_append, List.head?_append, heads]
  constructor
  · intro value final read
    rw [same input rfl] at read
    obtain ⟨taken, member, split, kept⟩ := guided.word read
    exact ⟨taken, member, split, fun other heads => (agrees split heads).trans (kept other heads)⟩
  · intro failure failed
    rw [same input rfl] at failed
    obtain ⟨taken, begun, split, kept⟩ := guided.begun failed
    refine ⟨taken, begun, split, fun other heads => ?_⟩
    rw [agrees split heads]
    exact kept other heads

variable {next : Token} {rest : List Token}

theorem take {tail : Language Token} {body : List Token → Except Failure (α × List Token)}
    (same : ∀ other, reader (next :: other) = body other)
    (starts : ∀ word ∈ tail, next :: word ∈ language) (guided : Guided tail body rest) :
    Guided language reader (next :: rest) where
  word {value final} read := by
    rw [same] at read
    obtain ⟨taken, member, rfl, kept⟩ := guided.word read
    refine ⟨next :: taken, starts taken member, rfl, fun other agrees => ?_⟩
    rw [List.cons_append, same, kept other agrees]
  begun {failure} failed := by
    rw [same] at failed
    obtain ⟨taken, ⟨more, member⟩, split, kept⟩ := guided.begun failed
    refine ⟨next :: taken, ⟨more, starts _ member⟩, by rw [split]; rfl, fun other agrees => ?_⟩
    obtain ⟨again, failed⟩ := kept other agrees
    exact ⟨again, by rw [List.cons_append, same, failed]⟩

theorem stay (value : α) (empty : [] ∈ language)
    (same : ∀ other, reader (next :: other) = .ok (value, next :: other)) :
    Guided language reader (next :: rest) where
  word {_ _} read := by
    rw [same] at read
    cases read
    refine ⟨[], empty, rfl, fun other agrees => ?_⟩
    obtain ⟨more, rfl⟩ := List.head?_eq_some_iff.mp agrees
    exact same more
  begun {_} failed := by
    rw [same] at failed
    cases failed

theorem refuse [Productive language] (failure : List Token → Failure)
    (stops : ∀ other, (failure other).remaining = next :: other)
    (same : ∀ other, reader (next :: other) = .error (failure other)) :
    Guided language reader (next :: rest) where
  word {_ _} read := by
    rw [same] at read
    cases read
  begun {_} failed := by
    rw [same] at failed
    cases failed
    refine ⟨[], begins_nothing language, (stops rest).symm, fun other agrees => ?_⟩
    rw [stops] at agrees
    obtain ⟨more, rfl⟩ := List.head?_eq_some_iff.mp agrees
    exact ⟨failure more, same more⟩

theorem unexpected [Productive language]
    (same : ∀ other, reader (next :: other) = .error (.unexpected (next :: other))) :
    Guided language reader (next :: rest) :=
  refuse (fun other => .unexpected (next :: other)) (fun _ => rfl) same

theorem stay_at_end {value : α} (empty : [] ∈ language) (same : reader [] = .ok (value, [])) :
    Guided language reader [] where
  word {_ _} read := by
    rw [same] at read
    cases read
    refine ⟨[], empty, rfl, fun other agrees => ?_⟩
    rw [List.head?_eq_none_iff.mp agrees]
    exact same
  begun {_} failed := by
    rw [same] at failed
    cases failed

theorem refuse_at_end [Productive language] (same : reader [] = .error (.unexpected [])) :
    Guided language reader [] where
  word {_ _} read := by
    rw [same] at read
    cases read
  begun {_} failed := by
    rw [same] at failed
    cases failed
    refine ⟨[], begins_nothing language, rfl, fun other agrees => ?_⟩
    rw [List.head?_eq_none_iff.mp agrees]
    exact ⟨_, same⟩

end Guided

theorem token_guided (kind : Kind) (input : List Token) :
    Guided (ofKind kind) (fun input => (token kind input).outcome) input := by
  cases input with
  | nil => exact .refuse_at_end rfl
  | cons next rest =>
      by_cases marked : next.kind = kind
      · have starts : ∀ word ∈ (1 : Language Token), next :: word ∈ ofKind kind := by
          rintro _ rfl
          exact ⟨next, rfl, marked⟩
        exact .take (fun other => by simp [token_outcome, marked]) starts (.ok next)
      · exact .unexpected fun other => by simp [token_outcome, marked]

instance (language : Language Token) : Productive (1 + language) := ⟨[], .inl Language.nil_mem_one⟩

theorem append_mem_star {round : Language Token} {first others : List Token} (one : first ∈ round)
    (more : others ∈ round∗) : first ++ others ∈ round∗ :=
  (mul_kstar_le_kstar : round * round∗ ≤ round∗) (Language.append_mem_mul one more)

theorem cons_mem_star {mark item : Language Token} {next : Token} (marked : [next] ∈ mark) :
    ∀ word ∈ item * (mark * item)∗, next :: word ∈ (mark * item)∗ := by
  rintro _ ⟨first, inItem, others, inStar, rfl⟩
  exact append_mem_star (Language.append_mem_mul marked inItem) inStar

section Lists

variable {bound : Nat} {separator : Kind} {language : Language Token}

theorem more_items_guided {item : Reader α}
    (guided : GuidedBelow bound language fun input => (item input).outcome) :
    GuidedBelow (bound + 1) (ofKind separator * language)∗
      fun input => (moreItems separator item input).outcome := by
  intro input short
  induction size : input.length using Nat.strongRecOn generalizing input with
  | ind size ih =>
      cases input with
      | nil => exact .stay_at_end (Language.nil_mem_kstar _) (moreItems_outcome _ _ _)
      | cons next rest =>
          simp only [List.length_cons] at short size
          by_cases marked : next.kind = separator
          · refine .take (fun other => (moreItems_outcome _ _ _).trans (if_pos marked))
              (cons_mem_star (mem_of_kind marked)) (.bind (guided rest (by omega)) ?_)
            intro value middle read
            have shorter := outcome_shorter read
            exact .last (ih middle.length (by omega) middle (by omega) rfl) fun _ _ => rfl
          · exact .stay [] (Language.nil_mem_kstar _) fun other =>
              (moreItems_outcome _ _ _).trans (if_neg marked)

theorem items_guided {item : Reader α}
    (guided : GuidedBelow bound language fun input => (item input).outcome) :
    GuidedBelow bound (language * (ofKind separator * language)∗)
      fun input => (items separator item input).outcome := by
  intro input short
  rw [funext (items_outcome separator item)]
  refine .bind (guided input short) fun value middle read => ?_
  have shorter := outcome_shorter read
  exact .last (more_items_guided guided middle (by omega)) fun _ _ => rfl

theorem parenthesised_guided [Productive language] {list : Reader (List α)}
    (guided : GuidedBelow bound language fun input => (list input).outcome) :
    GuidedBelow (bound + 1) (1 + ofKind .leftParen * (language * ofKind .rightParen))
      fun input => (parenthesised list input).outcome := by
  intro input short
  cases input with
  | nil => exact .stay_at_end (.inl rfl) (parenthesised_outcome _ _)
  | cons next rest =>
      by_cases opens : next.kind = .leftParen
      · refine .take (fun other => (parenthesised_outcome _ _).trans (if_pos opens)) ?_
          (.bind (guided rest (Nat.lt_of_succ_lt_succ short)) fun values middle _ =>
            .last (token_guided .rightParen middle) fun _ _ => rfl)
        exact fun _ member => .inr (Language.append_mem_mul (mem_of_kind opens) member)
      · exact .stay [] (.inl rfl) fun other => (parenthesised_outcome _ _).trans (if_neg opens)

end Lists

/-- The single tokens that a table has an entry for. -/
def marks (mark? : Kind → Option α) : Language Token :=
  {tokens | ∃ mark entry, tokens = [mark] ∧ mark? mark.kind = some entry}

theorem mem_of_mark {mark? : Kind → Option α} {next : Token} {entry : α}
    (marked : mark? next.kind = some entry) : [next] ∈ marks mark? := ⟨next, entry, rfl, marked⟩

theorem chain_guided {bound : Nat} {lower : Language Token} {mark? : Kind → Option BinaryOp}
    {loop : Expr → List Token → Except Failure (Expr × List Token)}
    {operand : List Token → Except Failure (Expr × List Token)}
    (unfolded : ∀ left input, loop left input = (match input with
      | [] => .ok (left, [])
      | first :: rest =>
          match mark? first.kind with
          | none => .ok (left, first :: rest)
          | some op => do
              let (right, rest) ← operand rest
              loop (.binary first.line op left right) rest))
    (operands : GuidedBelow bound lower operand) (left : Expr) :
    GuidedBelow (bound + 1) (marks mark? * lower)∗ (loop left) := by
  -- the operand consumes tokens, but not a number known in advance: hence strong induction
  intro input short
  induction size : input.length using Nat.strongRecOn generalizing left input with
  | ind size ih =>
      cases input with
      | nil => exact .stay_at_end (Language.nil_mem_kstar _) (unfolded _ _)
      | cons next rest =>
          simp only [List.length_cons] at short size
          cases marked : mark? next.kind with
          | none =>
              exact .stay left (Language.nil_mem_kstar _) fun other => by
                rw [unfolded]
                simp only [marked]
          | some op =>
              have goesOn : ∀ other, loop left (next :: other) = (do
                  let (right, rest) ← operand other
                  loop (.binary next.line op left right) rest) := by
                intro other
                rw [unfolded]
                simp only [marked]
              refine .take goesOn (cons_mem_star (mem_of_mark marked))
                (.bind (operands rest (by omega)) fun right middle read => ?_)
              obtain ⟨taken, _, split, _⟩ := (operands rest (by omega)).word read
              have shorter := congrArg List.length split
              rw [List.length_append] at shorter
              exact ih middle.length (by omega) _ middle (by omega) rfl

instance (level : Level) : Productive (words (ExprPhrase level)) := by
  have factor : ExprPhrase .factor [⟨"", .identifier, 1⟩] (.simple 1 "") := .name _ rfl
  cases level with
  | factor => exact ⟨_, _, factor⟩
  | term => exact ⟨_, _, .ofFactor _ _ factor⟩
  | simple => exact ⟨_, _, .ofTerm _ _ (.ofFactor _ _ factor)⟩
  | expr => exact ⟨_, _, .ofSimple _ _ (.ofTerm _ _ (.ofFactor _ _ factor))⟩

theorem products_extend :
    words (ExprPhrase .term) * (marks product? * words (ExprPhrase .factor))∗ ≤
      words (ExprPhrase .term) := by
  refine mul_kstar_le_self ?_
  rintro _ ⟨left, ⟨leftTree, chain⟩, _, ⟨_, ⟨mark, op, rfl, marked⟩, right, ⟨rightTree, last⟩, rfl⟩,
    rfl⟩
  exact ⟨_, .product left right mark op leftTree rightTree chain (product_mark.mp marked) last⟩

theorem sums_extend :
    words (ExprPhrase .simple) * (marks sum? * words (ExprPhrase .term))∗ ≤
      words (ExprPhrase .simple) := by
  refine mul_kstar_le_self ?_
  rintro _ ⟨left, ⟨leftTree, chain⟩, _, ⟨_, ⟨mark, op, rfl, marked⟩, right, ⟨rightTree, last⟩, rfl⟩,
    rfl⟩
  exact ⟨_, .sum left right mark op leftTree rightTree chain (sum_mark.mp marked) last⟩

section Expressions

variable {bound : Nat}

theorem term_guided
    (factors : GuidedBelow bound (words (ExprPhrase .factor)) fun input => (factor input).outcome) :
    GuidedBelow bound (words (ExprPhrase .term)) fun input => (term input).outcome := by
  intro input short
  rw [funext term_outcome]
  refine .mono (.bind (factors input short) fun left middle read =>
    chain_guided products_outcome factors left middle
      (Nat.lt_succ_of_lt ((outcome_shorter read).trans short))) ?_
  rintro _ ⟨first, ⟨tree, phrase⟩, tail, more, rfl⟩
  exact products_extend ⟨first, ⟨tree, .ofFactor first tree phrase⟩, tail, more, rfl⟩

theorem simple_guided
    (terms : GuidedBelow bound (words (ExprPhrase .term)) fun input => (term input).outcome) :
    GuidedBelow bound (words (ExprPhrase .simple)) fun input => (simple input).outcome := by
  intro input short
  cases input with
  | nil => exact .refuse_at_end (simple_outcome [])
  | cons first more =>
      have shortMore : more.length < bound := Nat.lt_of_succ_lt short
      have loop (left : Expr) := chain_guided sums_outcome terms left
      cases marked : sign? first.kind with
      | some op =>
          have signed : ∀ other, (simple (first :: other)).outcome = (do
              let (operand, rest) ← (term other).outcome
              (sums (.unary first.line op operand) rest).outcome) := by
            intro other
            rw [simple_outcome]
            simp only [marked]
          refine .take signed ?_ (.bind (terms more shortMore) fun operand middle read =>
            loop _ middle (Nat.lt_succ_of_lt ((outcome_shorter read).trans shortMore)))
          rintro _ ⟨taken, ⟨tree, phrase⟩, tail, added, rfl⟩
          exact sums_extend ⟨first :: taken,
            ⟨_, .signed first op taken tree (sign_mark.mp marked) phrase⟩, tail, added, rfl⟩
      | none =>
          -- no token is consumed yet, so the term is read at the same place
          have unsigned : ∀ other, other.head? = (first :: more).head? →
              (simple other).outcome = (do
                let (operand, rest) ← (term other).outcome
                (sums operand rest).outcome) := by
            intro other heads
            obtain ⟨tail, rfl⟩ := List.head?_eq_some_iff.mp heads
            rw [simple_outcome]
            simp only [marked]
          refine .look unsigned (.mono (.bind (terms _ short) fun operand middle read =>
            loop _ middle (Nat.lt_succ_of_lt ((outcome_shorter read).trans short))) ?_)
          rintro _ ⟨taken, ⟨tree, phrase⟩, tail, added, rfl⟩
          exact sums_extend ⟨taken, ⟨tree, .ofTerm taken tree phrase⟩, tail, added, rfl⟩

def secondOperand (left : Expr) (input : List Token) : Except Failure (Expr × List Token) :=
  match input with
  | [] => .ok (left, [])
  | first :: more =>
      match relation? first.kind with
      | none => .ok (left, first :: more)
      | some op => do
          let (right, rest) ← (simple more).outcome
          .ok (.binary first.line op left right, rest)

theorem second_operand_guided
    (simples : GuidedBelow bound (words (ExprPhrase .simple)) fun input => (simple input).outcome)
    (left : Expr) :
    GuidedBelow bound (1 + marks relation? * words (ExprPhrase .simple)) (secondOperand left) := by
  intro input short
  cases input with
  | nil => exact .stay_at_end (.inl rfl) rfl
  | cons first more =>
      cases marked : relation? first.kind with
      | none => exact .stay left (.inl rfl) fun other => by simp only [secondOperand, marked]
      | some op =>
          have related : ∀ other, secondOperand left (first :: other) = (do
              let (right, rest) ← (simple other).outcome
              .ok (.binary first.line op left right, rest)) := by
            intro other
            simp only [secondOperand, marked]
          refine .take related ?_ (.last (simples more (Nat.lt_of_succ_lt short)) fun _ _ => rfl)
          exact fun _ member => .inr (Language.append_mem_mul (mem_of_mark marked) member)

theorem expr_guided_of_simple
    (simples : GuidedBelow bound (words (ExprPhrase .simple))
      fun input => (simple input).outcome) :
    GuidedBelow bound (words (ExprPhrase .expr)) fun input => (expr input).outcome := by
  intro input short
  rw [funext expr_outcome]
  refine .mono (.bind (simples input short) fun left middle read =>
    second_operand_guided simples left middle ((outcome_shorter read).trans short)) ?_
  rintro _ ⟨left, ⟨leftTree, first⟩, _, rfl | ⟨_, ⟨mark, op, rfl, marked⟩, right, ⟨rightTree, last⟩,
    rfl⟩, rfl⟩
  · exact ⟨leftTree, by simpa using ExprPhrase.ofSimple left leftTree first⟩
  · exact ⟨_, .relation left right mark op leftTree rightTree first (relation_mark.mp marked) last⟩

theorem expr_guided_below
    (factors : GuidedBelow bound (words (ExprPhrase .factor)) fun input => (factor input).outcome) :
    GuidedBelow bound (words (ExprPhrase .expr)) fun input => (expr input).outcome :=
  expr_guided_of_simple (simple_guided (term_guided factors))

def indexWords : Language Token :=
  1 + ofKind .leftBracket * (words (ExprPhrase .expr) * ofKind .rightBracket)

theorem index_guided_below
    (exprs : GuidedBelow bound (words (ExprPhrase .expr)) fun input => (expr input).outcome) :
    GuidedBelow (bound + 1) indexWords fun input => (index input).outcome := by
  intro input short
  cases input with
  | nil => exact .stay_at_end (.inl rfl) (index_outcome [])
  | cons first rest =>
      by_cases opens : first.kind = .leftBracket
      · refine .take (fun other => (index_outcome _).trans (if_pos opens)) ?_
          (.bind (exprs rest (Nat.lt_of_succ_lt_succ short)) fun values middle _ =>
            .last (token_guided .rightBracket middle) fun _ _ => rfl)
        exact fun _ member => .inr (Language.append_mem_mul (mem_of_kind opens) member)
      · exact .stay none (.inl rfl) fun other => (index_outcome _).trans (if_neg opens)

theorem factor_guided_step
    (factors : GuidedBelow bound (words (ExprPhrase .factor)) fun input => (factor input).outcome) :
    GuidedBelow (bound + 1) (words (ExprPhrase .factor)) fun input => (factor input).outcome := by
  have exprs := expr_guided_below factors
  intro input short
  cases input with
  | nil => exact .refuse_at_end (factor_outcome [])
  | cons first rest =>
      have shortRest : rest.length < bound := Nat.lt_of_succ_lt_succ short
      obtain ⟨text, kind, line⟩ := first
      have single {tree : Expr} (phrase : ExprPhrase .factor [⟨text, kind, line⟩] tree) :
          ∀ word ∈ (1 : Language Token),
            ⟨text, kind, line⟩ :: word ∈ words (ExprPhrase .factor) := by
        rintro _ rfl
        exact ⟨tree, phrase⟩
      cases kind
      case identifier =>
        refine .take (fun other => factor_outcome _) ?_
          (.last (index_guided_below exprs rest (Nat.lt_succ_of_lt shortRest)) fun _ _ => rfl)
        rintro _ (rfl | ⟨_, ⟨opening, rfl, opens⟩, _, ⟨inner, ⟨tree, phrase⟩, _,
          ⟨closing, rfl, closes⟩, rfl⟩, rfl⟩)
        · exact ⟨_, .name _ rfl⟩
        · exact ⟨_, .element _ opening closing inner tree rfl opens phrase closes⟩
      case leftParen =>
        refine .take (fun other => factor_outcome _) ?_
          (.bind (exprs rest shortRest) fun tree middle _ =>
            .last (token_guided .rightParen middle) fun _ _ => rfl)
        rintro _ ⟨inner, ⟨tree, phrase⟩, _, ⟨closing, rfl, closes⟩, rfl⟩
        exact ⟨tree, .parenthesised _ closing inner tree rfl phrase closes⟩
      case notWord =>
        refine .take (fun other => factor_outcome _) ?_
          (.last (factors rest shortRest) fun _ _ => rfl)
        rintro operand ⟨tree, phrase⟩
        exact ⟨_, .negation _ operand tree rfl phrase⟩
      case constant =>
        cases valued : Text.literalValue? text.toList with
        -- a token of the right kind can still have no value, and then the refusal is at the token
        | none =>
            exact .refuse (.malformed ⟨text, .constant, line⟩) (fun _ => rfl) fun other => by
              simp [factor_outcome, valueOf, valued, except_bind_error]
        | some value =>
            refine .take (fun other => ?_) (single (.number _ value rfl
              (literal_value_numeral.mp valued))) (.ok (.number line value))
            simp [factor_outcome, valueOf, valued]
      case string =>
        cases valued : Text.unquoted? text with
        | none =>
            exact .refuse (.malformed ⟨text, .string, line⟩) (fun _ => rfl) fun other => by
              simp [factor_outcome, valueOf, valued, except_bind_error]
        | some content =>
            refine .take (fun other => ?_) (single (.string _ content rfl
              (unquoted_text.mp valued))) (.ok (.string line content))
            simp [factor_outcome, valueOf, valued]
      case trueWord =>
        exact .take (fun other => factor_outcome _) (single (.trueValue _ rfl)) (.ok _)
      case falseWord =>
        exact .take (fun other => factor_outcome _) (single (.falseValue _ rfl)) (.ok _)
      all_goals exact .unexpected fun other => factor_outcome _

theorem factor_guided (bound : Nat) :
    GuidedBelow bound (words (ExprPhrase .factor)) fun input => (factor input).outcome := by
  induction bound with
  | zero => exact fun input short => absurd short (Nat.not_lt_zero _)
  | succ bound ih => exact factor_guided_step ih

theorem expr_guided (input : List Token) :
    Guided (words (ExprPhrase .expr)) (fun input => (expr input).outcome) input :=
  expr_guided_below (factor_guided _) input (Nat.lt_succ_self _)

end Expressions

end PascalCasl.Grammar
