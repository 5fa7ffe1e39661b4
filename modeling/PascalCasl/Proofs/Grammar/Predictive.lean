import Mathlib.Tactic.SplitIfs
import PascalCasl.Grammar.Cursor
import PascalCasl.Proofs.Machine

/-!
Parsing token by token. The machine of this module keeps the goals that are
still to be met and a cursor. It takes a token of the kind that is wanted, or
it enters a rule of the grammar, which it replaces by a plan that the next two
tokens decide. A rule that comes back to itself, in a loop or in a phrase
within a phrase, has taken a token in between.
-/

namespace PascalCasl

namespace Cursor

/-- The token at the cursor; beyond the list it is the last one. -/
def peek (cursor : Cursor) : Token :=
  cursor.tokens[min cursor.index (cursor.tokens.length - 1)]?.getD (Token.endOfInput 1)

def peekNext (cursor : Cursor) : Token := peek { cursor with index := cursor.index + 1 }

/-- An end mark is never passed. -/
def advance (cursor : Cursor) : Cursor :=
  if cursor.peek.isEnd then cursor else { cursor with index := cursor.index + 1 }

end Cursor

/-- Constants and strings have a value that is read off their text. -/
def Token.hasValue (token : Token) : Bool :=
  match token.kind with
  | .constant => (Text.literalValue? token.text.toList).isSome
  | .string => (Text.unquoted? token.text).isSome
  | _ => true

namespace Grammar

/-- Lists with a separator between their items. -/
inductive Listed where
  | names
  | params
  | targets
  | values

inductive Rule where
  | program | vars | varGroup | moreVarGroups | typeSpec | standardType | bound
  | procedures | procedure | paramGroup | block | stmts | stmt | elsePart
  | target | index | expr | relation | simple | sums | term | products | factor
  | items (list : Listed)
  | moreItems (list : Listed)
  | parenthesised (list : Listed)

inductive Goal where
  | take (kind : Kind)
  | enter (rule : Rule)

namespace Listed

def separator : Listed → Kind
  | .params => .semicolon
  | _ => .comma

def item : Listed → Goal
  | .names => .take .identifier
  | .params => .enter .paramGroup
  | .targets => .enter .target
  | .values => .enter .expr

end Listed

namespace Rule

open Goal

/-- A plan that is followed where its first token is there. -/
def optional (present : Bool) (goals : List Goal) : Option (List Goal) :=
  some (if present then goals else [])

def stmtPlan (next : Kind) : Kind → Option (List Goal)
  | .ifWord =>
      some [take .ifWord, enter .expr, take .thenWord, enter .block, enter .elsePart]
  | .whileWord => some [take .whileWord, enter .expr, take .doWord, enter .block]
  | .identifier =>
      if next = .leftBracket || next = .assign then
        some [enter .target, take .assign, enter .expr]
      else some [take .identifier, enter (.parenthesised .values)]
  | .readlnWord => some [take .readlnWord, enter (.parenthesised .targets)]
  | .writelnWord => some [take .writelnWord, enter (.parenthesised .values)]
  | .beginWord => some [enter .block]
  | _ => none

def factorPlan : Kind → Option (List Goal)
  | .identifier => some [enter .target]
  | .leftParen => some [take .leftParen, enter .expr, take .rightParen]
  | .notWord => some [take .notWord, enter .factor]
  | .constant => some [take .constant]
  | .string => some [take .string]
  | .trueWord => some [take .trueWord]
  | .falseWord => some [take .falseWord]
  | _ => none

/-- What a rule is replaced by before tokens of these kinds, if one of them can
begin it. -/
def plan (first next : Kind) : Rule → Option (List Goal)
  | .program =>
      some [take .programWord, take .identifier, take .semicolon, enter .vars, enter .procedures,
        enter .block, take .dot]
  | .vars =>
      optional (first = .varWord) [take .varWord, enter .varGroup, enter .moreVarGroups]
  | .varGroup => some [enter (.items .names), take .colon, enter .typeSpec, take .semicolon]
  | .moreVarGroups => optional (first = .identifier) [enter .varGroup, enter .moreVarGroups]
  | .typeSpec =>
      if first = .arrayWord then
        some [take .arrayWord, take .leftBracket, enter .bound, take .range, enter .bound,
          take .rightBracket, take .ofWord, enter .standardType]
      else some [enter .standardType]
  | .standardType => if (standardType? first).isSome then some [take first] else none
  | .bound =>
      if (sign? first).isSome then some [take first, take .constant] else some [take .constant]
  | .procedures =>
      optional (first = .procedureWord) [enter .procedure, take .semicolon, enter .procedures]
  | .procedure =>
      some [take .procedureWord, take .identifier, enter (.parenthesised .params),
        take .semicolon, enter .vars, enter .block]
  | .paramGroup => some [enter (.items .names), take .colon, enter .standardType]
  | .block => some [take .beginWord, enter .stmts, take .endWord]
  | .stmts => optional (startsStatement first) [enter .stmt, take .semicolon, enter .stmts]
  | .stmt => stmtPlan next first
  | .elsePart => optional (first = .elseWord) [take .elseWord, enter .block]
  | .target => some [take .identifier, enter .index]
  | .index =>
      optional (first = .leftBracket) [take .leftBracket, enter .expr, take .rightBracket]
  | .expr => some [enter .simple, enter .relation]
  | .relation => optional (relation? first).isSome [take first, enter .simple]
  | .simple =>
      if (sign? first).isSome then some [take first, enter .term, enter .sums]
      else some [enter .term, enter .sums]
  | .sums => optional (sum? first).isSome [take first, enter .term, enter .sums]
  | .term => some [enter .factor, enter .products]
  | .products => optional (product? first).isSome [take first, enter .factor, enter .products]
  | .factor => factorPlan first
  | .items list => some [list.item, enter (.moreItems list)]
  | .moreItems list =>
      optional (first = list.separator) [take list.separator, list.item, enter (.moreItems list)]
  | .parenthesised list =>
      optional (first = .leftParen) [take .leftParen, enter (.items list), take .rightParen]

/-- Whether a phrase of the rule has a token in any case. -/
def mandatory : Rule → Bool
  | .vars | .moreVarGroups | .procedures | .stmts | .elsePart | .index | .relation | .sums
  | .products | .moreItems _ | .parenthesised _ => false
  | _ => true

/-- How many rules are entered at most before a token is taken. -/
def rank : Rule → Nat
  | .items .names => 1
  | .items .params => 3
  | .items .targets => 2
  | .items .values => 6
  | .varGroup | .paramGroup | .typeSpec | .stmt | .factor | .procedures => 2
  | .term | .moreVarGroups | .stmts => 3
  | .simple => 4
  | .expr => 5
  | _ => 1

end Rule

/-- A goal that leads to a token through rules of lower rank only. -/
def Goal.isBelow (bound : Nat) : Goal → Bool
  | .take kind => kind ≠ .endOfInput
  | .enter rule => rule.mandatory && rule.rank < bound

end Grammar

open Grammar

structure Parsing where
  goals : List Goal
  cursor : Cursor

namespace Parsing

abbrev Result := Progress Parsing (Except Fault Unit × Cursor)

def begin (cursor : Cursor) : Parsing := ⟨[.enter .program], cursor⟩

def refuse (cursor : Cursor) : Result :=
  .stopped (.error (.syntactic cursor.peek.line), cursor)

def step : Parsing → Result
  | ⟨[], cursor⟩ => if cursor.peek.isEnd then .stopped (.ok (), cursor) else refuse cursor
  | ⟨.take kind :: goals, cursor⟩ =>
      if cursor.peek.kind = kind then
        if cursor.peek.hasValue then .further ⟨goals, cursor.advance⟩
        else .stopped (.error (.syntactic cursor.peek.line), cursor.advance)
      else refuse cursor
  | ⟨.enter rule :: goals, cursor⟩ =>
      match rule.plan cursor.peek.kind cursor.peekNext.kind with
      | some plan => .further ⟨plan ++ goals, cursor⟩
      | none => refuse cursor

theorem step_further {state next : Parsing} (moved : state.step = .further next) :
    (∃ goals, state.goals = .take state.cursor.peek.kind :: goals ∧
      next = ⟨goals, state.cursor.advance⟩) ∨
    ∃ rule goals plan, state.goals = .enter rule :: goals ∧
      rule.plan state.cursor.peek.kind state.cursor.peekNext.kind = some plan ∧
      next = ⟨plan ++ goals, state.cursor⟩ := by
  rcases state with ⟨_ | ⟨kind | rule, goals⟩, cursor⟩
  · simp only [step, refuse] at moved
    split at moved <;> cases moved
  · simp only [step, refuse] at moved
    split_ifs at moved with wanted
    cases moved
    exact .inl ⟨goals, by rw [wanted], rfl⟩
  · simp only [step, refuse] at moved
    split at moved
    next plan planned =>
      cases moved
      exact .inr ⟨rule, goals, plan, rfl, planned, rfl⟩
    next => cases moved

theorem step_stopped {state : Parsing} {outcome : Except Fault Unit} {cursor : Cursor}
    (stopped : state.step = .stopped (outcome, cursor)) :
    cursor = state.cursor ∨ cursor = state.cursor.advance := by
  rcases state with ⟨_ | ⟨kind | rule, goals⟩, standing⟩
  · simp only [step, refuse] at stopped
    split_ifs at stopped
    · cases stopped
      exact .inl rfl
    · cases stopped
      exact .inl rfl
  · simp only [step, refuse] at stopped
    split_ifs at stopped
    · cases stopped
      exact .inr rfl
    · cases stopped
      exact .inl rfl
  · simp only [step, refuse] at stopped
    split at stopped
    next => cases stopped
    next =>
      cases stopped
      exact .inl rfl

end Parsing

namespace Grammar

/-- A plan is empty, for a phrase that may be absent, or it begins with a token
or with a phrase of lower rank that has one. -/
def Rule.Headed (rule : Rule) (goals : List Goal) : Prop :=
  (goals = [] ∧ rule.mandatory = false) ∨
    ∃ goal rest, goals = goal :: rest ∧ goal.isBelow rule.rank = true

variable {rule : Rule} {goal : Goal} {rest goals : List Goal} {first next : Kind}

theorem headed_some (below : goal.isBelow rule.rank = true)
    (planned : some (goal :: rest) = some goals) : rule.Headed goals := by
  cases planned
  exact .inr ⟨goal, rest, rfl, below⟩

theorem headed_optional {present : Bool} (absent : rule.mandatory = false)
    (below : present = true → goal.isBelow rule.rank = true)
    (planned : Rule.optional present (goal :: rest) = some goals) : rule.Headed goals := by
  cases planned
  cases present with
  | false => exact .inl ⟨rfl, absent⟩
  | true => exact .inr ⟨goal, rest, rfl, below rfl⟩

theorem marked_below {α : Type} {mark? : Kind → Option α} {bound : Nat}
    (unmarked : mark? .endOfInput = none) (marked : (mark? first).isSome = true) :
    (Goal.take first).isBelow bound = true := by
  rw [Goal.isBelow, decide_eq_true_iff]
  rintro rfl
  rw [unmarked] at marked
  exact Bool.noConfusion marked

theorem Listed.item_below (list : Listed) :
    list.item.isBelow (Rule.items list).rank = true := by
  cases list <;> rfl

theorem Listed.separator_below (list : Listed) (bound : Nat) :
    (Goal.take list.separator).isBelow bound = true := by
  cases list <;> rfl

theorem stmt_headed (planned : Rule.stmtPlan next first = some goals) :
    Rule.stmt.Headed goals := by
  unfold Rule.stmtPlan at planned
  split at planned
  case h_3 =>
    split_ifs at planned
    · exact headed_some rfl planned
    · exact headed_some rfl planned
  case h_7 => cases planned
  all_goals exact headed_some rfl planned

theorem factor_headed (planned : Rule.factorPlan first = some goals) :
    Rule.factor.Headed goals := by
  unfold Rule.factorPlan at planned
  split at planned
  case h_8 => cases planned
  all_goals exact headed_some rfl planned

theorem plan_headed (planned : rule.plan first next = some goals) : rule.Headed goals := by
  cases rule
  case items list => exact headed_some list.item_below planned
  case moreItems list => exact headed_optional rfl (fun _ => list.separator_below _) planned
  case stmt => exact stmt_headed planned
  case factor => exact factor_headed planned
  case typeSpec =>
    rw [Rule.plan] at planned
    split_ifs at planned
    · exact headed_some rfl planned
    · exact headed_some rfl planned
  case standardType =>
    rw [Rule.plan] at planned
    split_ifs at planned with named
    exact headed_some (marked_below rfl named) planned
  case bound =>
    rw [Rule.plan] at planned
    split_ifs at planned with signed
    · exact headed_some (marked_below rfl signed) planned
    · exact headed_some rfl planned
  case simple =>
    rw [Rule.plan] at planned
    split_ifs at planned with signed
    · exact headed_some (marked_below rfl signed) planned
    · exact headed_some rfl planned
  case relation => exact headed_optional rfl (marked_below rfl) planned
  case sums => exact headed_optional rfl (marked_below rfl) planned
  case products => exact headed_optional rfl (marked_below rfl) planned
  case program | varGroup | procedure | paramGroup | block | target | expr | term =>
    exact headed_some rfl planned
  all_goals exact headed_optional rfl (fun _ => rfl) planned

end Grammar

namespace Cursor

variable {cursor origin later : Cursor}

def Closed (cursor : Cursor) : Prop :=
  ∃ mark, cursor.tokens.getLast? = some mark ∧ mark.isEnd = true

theorem peek_of_token {token : Token} (found : cursor.tokens[cursor.index]? = some token) :
    cursor.peek = token := by
  have within := (List.getElem?_eq_some_iff.1 found).1
  rw [peek, Nat.min_eq_left (by omega), found, Option.getD_some]

theorem peek_beyond (closed : cursor.Closed)
    (beyond : cursor.tokens.length ≤ cursor.index + 1) :
    ∃ mark, cursor.tokens.getLast? = some mark ∧ mark.isEnd = true ∧ cursor.peek = mark := by
  obtain ⟨mark, last, isEnd⟩ := closed
  refine ⟨mark, last, isEnd, ?_⟩
  rw [List.getLast?_eq_getElem?] at last
  rw [peek, Nat.min_eq_right (by omega), last, Option.getD_some]

theorem advance_tokens (cursor : Cursor) : cursor.advance.tokens = cursor.tokens := by
  rw [advance]
  split <;> rfl

theorem advance_index (cursor : Cursor) :
    cursor.advance.index = cursor.index + (!cursor.peek.isEnd).toNat := by
  rw [advance]
  cases cursor.peek.isEnd <;> rfl

/-- The cursor moves on within the same tokens, not past an end mark, and not at
all from the last token on. -/
structure Onward (origin later : Cursor) : Prop where
  tokens : later.tokens = origin.tokens
  index : origin.index ≤ later.index
  marks : ∀ place mark, origin.index ≤ place → origin.tokens[place]? = some mark →
    mark.isEnd = true → later.index ≤ place
  stays : origin.tokens.length ≤ origin.index + 1 → later.index = origin.index

theorem onward_refl (cursor : Cursor) : Onward cursor cursor :=
  ⟨rfl, Nat.le_refl _, fun _ _ behind _ _ => behind, fun _ => rfl⟩

theorem Onward.pass (onward : Onward origin later) (closed : origin.Closed) :
    Onward origin later.advance := by
  have bit := Bool.toNat_le (!later.peek.isEnd)
  have moved := advance_index later
  refine ⟨(advance_tokens later).trans onward.tokens, ?_, ?_, ?_⟩
  · have behind := onward.index
    omega
  · intro place mark behind found isEnd
    have before := onward.marks place mark behind found isEnd
    rcases Nat.lt_or_eq_of_le before with short | rfl
    · omega
    · have still : later.advance = later := by
        rw [advance, peek_of_token (onward.tokens ▸ found), if_pos isEnd]
      exact still.symm ▸ before
  · intro beyond
    have same := onward.stays beyond
    have still : later.Closed := by
      rw [Closed, onward.tokens]
      exact closed
    obtain ⟨mark, _, isEnd, seen⟩ := peek_beyond still (by rw [onward.tokens, same]; exact beyond)
    rw [advance, seen, if_pos isEnd, same]

end Cursor

namespace Parsing

variable {state later next : Parsing}

theorem onward_step {origin : Cursor} (closed : origin.Closed)
    (onward : origin.Onward state.cursor) (moved : state.step = .further next) :
    origin.Onward next.cursor := by
  rcases step_further moved with ⟨goals, _, rfl⟩ | ⟨rule, goals, plan, _, _, rfl⟩
  · exact onward.pass closed
  · exact onward

theorem onward_arrives (closed : state.cursor.Closed) (ran : Arrives step state later) :
    state.cursor.Onward later.cursor := by
  induction ran with
  | refl => exact Cursor.onward_refl _
  | tail _ moved ih => exact onward_step closed ih moved

/-- A step on top of `rest`, with something left on top of it. -/
def Inner (rest : List Goal) (state next : Parsing) : Prop :=
  Leads step state next ∧ ∃ goal goals, next.goals = goal :: goals ++ rest

/-- No token was taken, and rules below `bound` lead to the next one. -/
def Descending (bound : Nat) (state next : Parsing) : Prop :=
  next.cursor = state.cursor ∧
    ∃ goal goals, next.goals = goal :: goals ∧ goal.isBelow bound = true

theorem descending_step {bound : Nat} {origin : Parsing}
    (descending : Descending bound origin state) (moved : state.step = .further next) :
    origin.cursor.index < next.cursor.index ∨ Descending bound origin next := by
  obtain ⟨same, goal, goals, stacked, below⟩ := descending
  rcases step_further moved with ⟨others, taken, rfl⟩ | ⟨rule, others, plan, entered, planned, rfl⟩
  · -- the token that is taken is no end mark, so the cursor passes it
    obtain ⟨rfl, rfl⟩ := List.cons.inj (stacked.symm.trans taken)
    have passed : state.cursor.peek.isEnd = false := by
      simpa [Goal.isBelow, Token.isEnd] using below
    rw [Cursor.advance_index, passed, same]
    exact .inl (Nat.lt_succ_self _)
  · obtain ⟨rfl, rfl⟩ := List.cons.inj (stacked.symm.trans entered)
    obtain ⟨mandatory, lower⟩ : rule.mandatory = true ∧ rule.rank < bound := by
      simpa [Goal.isBelow] using below
    rcases plan_headed planned with ⟨_, absent⟩ | ⟨head, rest, rfl, under⟩
    · exact Bool.noConfusion (mandatory.symm.trans absent)
    · refine .inr ⟨same, head, rest ++ goals, rfl, ?_⟩
      cases head with
      | take kind => exact under
      | enter inner =>
          simp only [Goal.isBelow, Bool.and_eq_true, decide_eq_true_eq] at under ⊢
          exact ⟨under.1, Nat.lt_trans under.2 lower⟩

theorem index_step (moved : state.step = .further next) :
    state.cursor.index ≤ next.cursor.index := by
  rcases step_further moved with ⟨goals, _, rfl⟩ | ⟨rule, goals, plan, _, _, rfl⟩
  · exact (Cursor.advance_index state.cursor).symm ▸ Nat.le_add_right _ _
  · exact Nat.le_refl _

theorem index_arrives (ran : Arrives step state later) :
    state.cursor.index ≤ later.cursor.index := by
  induction ran with
  | refl => exact Nat.le_refl _
  | tail _ moved ih => exact Nat.le_trans ih (index_step moved)

/-- A rule that is entered again within its own phrase, or for the next round of
its loop, has taken a token. -/
theorem rule_takes {rule : Rule} {rest more : List Goal}
    (entered : state.goals = .enter rule :: rest) (ran : Relation.TransGen (Inner rest) state later)
    (again : later.goals = .enter rule :: more) : state.cursor.index < later.cursor.index := by
  -- until a token is taken, the goal on top only falls in rank
  have descended : state.cursor.index < later.cursor.index ∨
      Descending rule.rank state later := by
    clear again
    induction ran with
    | single moved =>
        obtain ⟨moved, goal, goals, above⟩ := moved
        rcases step_further moved with ⟨others, taken, _⟩ | ⟨_, others, plan, same, planned, rfl⟩
        · cases entered.symm.trans taken
        · cases entered.symm.trans same
          rcases plan_headed planned with ⟨rfl, _⟩ | ⟨head, tail, rfl, below⟩
          · have longer := congrArg List.length above
            simp only [List.nil_append, List.cons_append, List.length_cons,
              List.length_append] at longer
            omega
          · exact .inr ⟨rfl, head, tail ++ rest, rfl, below⟩
    | tail _ moved ih =>
        rcases ih with passed | descending
        · exact .inl (Nat.lt_of_lt_of_le passed (index_step moved.1))
        · exact descending_step descending moved.1
  rcases descended with passed | ⟨_, goal, goals, stacked, below⟩
  · exact passed
  · cases again.symm.trans stacked
    simp [Goal.isBelow] at below

end Parsing
end PascalCasl
