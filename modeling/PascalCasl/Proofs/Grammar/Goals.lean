import Mathlib.Data.List.TakeWhile
import Mathlib.Order.Basic
import Mathlib.Tactic.ByContra
import PascalCasl.Proofs.Grammar.Outcome
import PascalCasl.Proofs.Grammar.Predictive

/-!
The goals of the machine that parses token by token, against the readers of the
grammar. On every rest of an input a goal takes the tokens that its reader
takes, or it stops with the failure of the reader, at the same token and on the
same line.
-/

namespace PascalCasl

open Grammar

namespace Cursor

/-- The cursor when only `rest` is left of its input. -/
def before (origin : Cursor) (rest : List Token) : Cursor :=
  { origin with index := origin.index + (origin.input.length - rest.length) }

/-- Some rest of the input, before the end mark that closes it. -/
structure Placed (origin : Cursor) (rest : List Token) : Prop where
  closed : origin.Closed
  fits : rest <:+ origin.input

variable {origin : Cursor} {first : Token} {rest : List Token}

theorem Placed.tail (placed : origin.Placed (first :: rest)) : origin.Placed rest :=
  ⟨placed.closed, (List.suffix_cons first rest).trans placed.fits⟩

theorem placed_input (closed : origin.Closed) : origin.Placed origin.input :=
  ⟨closed, List.suffix_rfl⟩

theorem before_input (origin : Cursor) : origin.before origin.input = origin := by
  simp [before]

theorem before_next (placed : origin.Placed (first :: rest)) :
    { origin.before (first :: rest) with index := (origin.before (first :: rest)).index + 1 } =
      origin.before rest := by
  have short := placed.fits.length_le
  rw [List.length_cons] at short
  simp only [before, List.length_cons, Cursor.mk.injEq, true_and]
  omega

theorem token_before (placed : origin.Placed (first :: rest)) :
    origin.tokens[(origin.before (first :: rest)).index]? = some first := by
  obtain ⟨passed, split⟩ := placed.fits
  have ahead : origin.upcoming = passed ++ first :: rest ++
      origin.upcoming.dropWhile fun token => !token.isEnd := by
    rw [split]
    exact List.takeWhile_append_dropWhile.symm
  have place : origin.input.length - (first :: rest).length = passed.length := by
    rw [← split, List.length_append, Nat.add_sub_cancel]
  rw [before, place, ← List.getElem?_drop]
  exact (congrArg (·[passed.length]?) ahead).trans (by simp)

theorem input_written (placed : origin.Placed (first :: rest)) : first.isEnd = false := by
  have written := List.mem_takeWhile_imp (placed.fits.subset List.mem_cons_self)
  simpa using written

theorem peek_before (placed : origin.Placed (first :: rest)) :
    (origin.before (first :: rest)).peek = first :=
  peek_of_token (token_before placed)

theorem advance_before (placed : origin.Placed (first :: rest)) :
    (origin.before (first :: rest)).advance = origin.before rest := by
  rw [advance, peek_before placed, input_written placed, if_neg Bool.false_ne_true,
    before_next placed]

theorem first_mark (origin : Cursor) : origin.upcoming.find? Token.isEnd =
    (origin.upcoming.dropWhile fun token => !token.isEnd).head? :=
  List.find?_eq_head?_dropWhile_not _ _

/-- Where no end mark is ahead, the cursor is beyond the one that closes the
list. -/
theorem beyond_of_unmarked (closed : origin.Closed)
    (unmarked : (origin.upcoming.dropWhile fun token => !token.isEnd) = []) :
    origin.tokens.length ≤ origin.index := by
  by_contra within
  obtain ⟨mark, last, isEnd⟩ := closed
  have ahead : mark ∈ origin.upcoming := by
    refine List.mem_of_getLast? ?_
    rw [upcoming, List.getLast?_drop, if_neg within, last]
  have written := List.dropWhile_eq_nil_iff.1 unmarked mark ahead
  simp [isEnd] at written

/-- The end mark that is ahead comes right behind the input. -/
theorem mark_at_end {mark : Token} {after : List Token}
    (ahead : (origin.upcoming.dropWhile fun token => !token.isEnd) = mark :: after) :
    origin.tokens[(origin.before []).index]? = some mark ∧ mark.isEnd = true ∧
      origin.endLine = mark.line := by
  have isEnd := List.head?_dropWhile_not (fun token : Token => !token.isEnd) origin.upcoming
  have whole : origin.input ++ mark :: after = origin.upcoming :=
    ahead ▸ List.takeWhile_append_dropWhile
  have place : origin.tokens[origin.index + origin.input.length]? = some mark := by
    rw [← List.getElem?_drop]
    exact (congrArg (·[origin.input.length]?) whole.symm).trans (by simp)
  rw [ahead] at isEnd
  rw [endLine, first_mark, ahead]
  exact ⟨place, by simpa using isEnd, rfl⟩

theorem peek_at_end (closed : origin.Closed) :
    (origin.before []).peek.isEnd = true ∧ (origin.before []).peek.line = origin.endLine := by
  cases ahead : origin.upcoming.dropWhile fun token => !token.isEnd with
  | nil =>
      have beyond := beyond_of_unmarked closed ahead
      have nothing : origin.upcoming = [] := List.drop_eq_nil_of_le beyond
      have still : origin.before [] = origin := by simp [before, input, nothing]
      obtain ⟨mark, last, isEnd, seen⟩ := peek_beyond closed (Nat.le_succ_of_le beyond)
      rw [still, seen, endLine, first_mark, ahead, last]
      exact ⟨isEnd, rfl⟩
  | cons mark after =>
      obtain ⟨place, isEnd, line⟩ := mark_at_end ahead
      rw [peek_of_token place]
      exact ⟨isEnd, line.symm⟩

end Cursor

/-- Kinds whose tokens need no value of their own. -/
def Kind.isPlain : Kind → Bool
  | .constant | .string | .endOfInput => false
  | _ => true

def Grammar.headKind : List Token → Kind
  | [] => .endOfInput
  | first :: _ => first.kind

namespace Cursor

variable {origin : Cursor} {first : Token} {rest : List Token}

theorem peek_kind (placed : origin.Placed rest) :
    (origin.before rest).peek.kind = headKind rest := by
  cases rest with
  | nil => simpa [Token.isEnd, headKind] using (peek_at_end placed.closed).1
  | cons first rest => rw [peek_before placed, headKind]

theorem peek_line (placed : origin.Placed rest) :
    (origin.before rest).peek.line = (Failure.unexpected rest).line origin.endLine := by
  cases rest with
  | nil => exact (peek_at_end placed.closed).2
  | cons first rest => rw [peek_before placed, Failure.line]

theorem peek_next_kind (placed : origin.Placed (first :: rest)) :
    (origin.before (first :: rest)).peekNext.kind = headKind rest := by
  rw [peekNext, before_next placed, peek_kind placed.tail]

end Cursor

namespace Parsing

variable {α β : Type}

/-- The machine meets the goals on an input with this outcome: it takes the same
tokens, whatever goals come after, or it stops with the same failure. -/
structure Performs (origin : Cursor) (goals : List Goal) (input : List Token)
    (outcome : Except Failure (α × List Token)) : Prop where
  reads : ∀ others value rest, origin.Placed input → outcome = .ok (value, rest) →
    origin.Placed rest ∧
      Arrives step ⟨goals ++ others, origin.before input⟩ ⟨others, origin.before rest⟩
  fails : ∀ others failure, origin.Placed input → outcome = .error failure →
    ∃ last, Arrives step ⟨goals ++ others, origin.before input⟩ last ∧
      last.step = .stopped (.error (.syntactic (failure.line origin.endLine)),
        origin.before failure.rest)

namespace Performs

variable {origin : Cursor} {goal : Goal} {goals : List Goal} {input : List Token}
  {outcome : Except Failure (α × List Token)}

theorem done (value : α) : Performs origin [] input (.ok (value, input)) where
  reads others result rest placed read := by
    cases read
    exact ⟨placed, .refl⟩
  fails others failure placed failed := nomatch failed

theorem bind {next : α × List Token → Except Failure (β × List Token)}
    (one : Performs origin [goal] input outcome)
    (two : ∀ value rest, outcome = .ok (value, rest) →
      Performs origin goals rest (next (value, rest))) :
    Performs origin (goal :: goals) input (outcome >>= next) where
  reads others result rest placed read := by
    obtain ⟨⟨value, middle⟩, began, ended⟩ := except_bind_ok.1 read
    obtain ⟨halfway, first⟩ := one.reads (goals ++ others) value middle placed began
    obtain ⟨final, second⟩ := (two value middle began).reads others result rest halfway ended
    exact ⟨final, first.trans second⟩
  fails others failure placed failed := by
    rcases except_bind_error.1 failed with began | ⟨⟨value, middle⟩, began, ended⟩
    · exact one.fails (goals ++ others) failure placed began
    · obtain ⟨halfway, first⟩ := one.reads (goals ++ others) value middle placed began
      obtain ⟨last, second, stopped⟩ :=
        (two value middle began).fails others failure halfway ended
      exact ⟨last, first.trans second, stopped⟩

theorem last {next : α × List Token → Except Failure (β × List Token)} {change : α → β}
    (one : Performs origin [goal] input outcome)
    (ends : ∀ value rest, next (value, rest) = .ok (change value, rest)) :
    Performs origin [goal] input (outcome >>= next) :=
  one.bind fun value rest _ => ends value rest ▸ done (change value)

theorem behind {before : List Goal} {rest : List Token}
    (moved : ∀ others, origin.Placed input → origin.Placed rest ∧
      step ⟨before ++ others, origin.before input⟩ =
        .further ⟨goals ++ others, origin.before rest⟩)
    (onward : Performs origin goals rest outcome) : Performs origin before input outcome where
  reads others value final placed read := by
    obtain ⟨halfway, moved⟩ := moved others placed
    obtain ⟨ended, ran⟩ := onward.reads others value final halfway read
    exact ⟨ended, (Arrives.of_further moved).trans ran⟩
  fails others failure placed failed := by
    obtain ⟨halfway, moved⟩ := moved others placed
    obtain ⟨last, ran, stopped⟩ := onward.fails others failure halfway failed
    exact ⟨last, (Arrives.of_further moved).trans ran, stopped⟩

theorem stopped (failure : Failure)
    (stops : ∀ others, origin.Placed input → step ⟨goals ++ others, origin.before input⟩ =
      .stopped (.error (.syntactic (failure.line origin.endLine)), origin.before failure.rest)) :
    Performs origin goals input (.error failure : Except Failure (α × List Token)) where
  reads others value rest placed read := nomatch read
  fails others other placed failed := by
    cases failed
    exact ⟨_, .refl, stops others placed⟩

variable {first : Token} {rest : List Token} {kind : Kind} {rule : Rule}

theorem take (wanted : first.kind = kind) (sound : first.hasValue = true)
    (onward : Performs origin goals rest outcome) :
    Performs origin (.take kind :: goals) (first :: rest) outcome := by
  refine behind (fun others placed => ⟨placed.tail, ?_⟩) onward
  rw [List.cons_append, step, Cursor.peek_before placed, if_pos wanted, if_pos sound,
    Cursor.advance_before placed]

theorem malformed (wanted : first.kind = kind) (unsound : first.hasValue = false) :
    Performs origin (.take kind :: goals) (first :: rest)
      (.error (.malformed first rest) : Except Failure (α × List Token)) := by
  refine stopped _ fun others placed => ?_
  rw [List.cons_append, step, Cursor.peek_before placed, if_pos wanted, unsound,
    if_neg Bool.false_ne_true, Cursor.advance_before placed]
  rfl

theorem refused (other : headKind input ≠ kind) :
    Performs origin (.take kind :: goals) input
      (.error (.unexpected input) : Except Failure (α × List Token)) := by
  refine stopped _ fun others placed => ?_
  rw [List.cons_append, step, if_neg (by rwa [Cursor.peek_kind placed]), refuse,
    Cursor.peek_line placed]
  rfl

/-- The kind of the token behind the first, where there is a first. -/
def Follows (input : List Token) (next : Kind) : Prop :=
  ∀ first rest, input = first :: rest → next = headKind rest

theorem follows_peek (placed : origin.Placed input) :
    Follows input (origin.before input).peekNext.kind := by
  rintro first rest rfl
  exact Cursor.peek_next_kind placed

theorem enter (planned : ∀ next, Follows input next →
      rule.plan (headKind input) next = some goals)
    (onward : Performs origin goals input outcome) :
    Performs origin [.enter rule] input outcome := by
  refine behind (fun others placed => ⟨placed, ?_⟩) onward
  rw [List.singleton_append, step, Cursor.peek_kind placed, planned _ (follows_peek placed)]

theorem rejected (unplanned : ∀ next, Follows input next →
      rule.plan (headKind input) next = none) :
    Performs origin [.enter rule] input
      (.error (.unexpected input) : Except Failure (α × List Token)) := by
  refine stopped _ fun others placed => ?_
  rw [List.singleton_append, step, Cursor.peek_kind placed, unplanned _ (follows_peek placed)]
  simp only [refuse, Cursor.peek_line placed]
  rfl

variable {begun : Bool}

theorem present (planned : ∀ next, rule.plan (headKind input) next = Rule.optional begun goals)
    (here : begun = true) (onward : Performs origin goals input outcome) :
    Performs origin [.enter rule] input outcome := by
  refine enter (fun next _ => ?_) onward
  rw [planned next, here]
  rfl

theorem absent (value : α)
    (planned : ∀ next, rule.plan (headKind input) next = Rule.optional begun goals)
    (missing : begun = false) : Performs origin [.enter rule] input (.ok (value, input)) := by
  refine enter (fun next _ => ?_) (done value)
  rw [planned next, missing]
  rfl

theorem of_eq {other : Except Failure (α × List Token)} (same : other = outcome)
    (performs : Performs origin goals input outcome) : Performs origin goals input other :=
  same ▸ performs

end Performs

/-- A goal that is met on all inputs shorter than `bound` as a reader reads. -/
def Performed (origin : Cursor) (bound : Nat) (goal : Goal)
    (reader : List Token → Except Failure (α × List Token)) : Prop :=
  ∀ input, input.length < bound → Performs origin [goal] input (reader input)

variable {origin : Cursor} {bound : Nat}

theorem has_value_of_plain {token : Token} {kind : Kind} (marked : token.kind = kind)
    (plain : kind.isPlain = true) : token.hasValue = true := by
  rw [← marked] at plain
  rw [Token.hasValue]
  cases kind : token.kind <;> first | rfl | (rw [kind] at plain; cases plain)

theorem token_performed {kind : Kind} (plain : kind.isPlain = true) (input : List Token) :
    Performs origin [.take kind] input (token kind input).outcome := by
  cases input with
  | nil =>
      refine .refused ?_
      rintro rfl
      cases plain
  | cons first rest =>
      by_cases marked : first.kind = kind
      · exact .of_eq (token_read marked)
          (.take marked (has_value_of_plain marked plain) (.done first))
      · exact .of_eq ((token_outcome _ _).trans (if_neg marked)) (.refused marked)

section Lists

variable {list : Listed} {item : Reader α}

theorem separator_plain (list : Listed) : list.separator.isPlain = true := by
  cases list <;> rfl

theorem more_items_performed
    (below : Performed origin bound list.item fun input => (item input).outcome) :
    Performed origin (bound + 1) (.enter (.moreItems list))
      fun input => (moreItems list.separator item input).outcome := by
  intro input short
  induction size : input.length using Nat.strongRecOn generalizing input with
  | ind size ih =>
      cases input with
      | nil =>
          exact .of_eq (moreItems_outcome _ _ _)
            (.absent [] (fun _ => rfl) (by cases list <;> rfl))
      | cons first rest =>
          rw [List.length_cons] at short size
          by_cases marked : first.kind = list.separator
          · refine .of_eq ((moreItems_outcome _ _ _).trans (if_pos marked))
              (.present (fun _ => rfl) (decide_eq_true marked)
              (.take marked (has_value_of_plain marked (separator_plain list))
              (.bind (below rest (by omega)) fun value middle read => ?_)))
            have shorter := outcome_shorter read
            exact .last (ih middle.length (by omega) middle (by omega) rfl) fun _ _ => rfl
          · exact .of_eq ((moreItems_outcome _ _ _).trans (if_neg marked))
              (.absent [] (fun _ => rfl) (decide_eq_false marked))

theorem items_performed
    (below : Performed origin bound list.item fun input => (item input).outcome) :
    Performed origin bound (.enter (.items list))
      fun input => (items list.separator item input).outcome := by
  intro input short
  refine .of_eq (items_outcome _ _ _)
    (.enter (fun _ _ => rfl) (.bind (below input short) fun value middle read => ?_))
  have shorter := outcome_shorter read
  exact .last (more_items_performed below middle (by omega)) fun _ _ => rfl

theorem parenthesised_performed
    (below : Performed origin bound list.item fun input => (item input).outcome) :
    Performed origin (bound + 1) (.enter (.parenthesised list))
      fun input => (parenthesised (items list.separator item) input).outcome := by
  intro input short
  cases input with
  | nil => exact .of_eq (parenthesised_outcome _ _) (.absent [] (fun _ => rfl) rfl)
  | cons first rest =>
      by_cases opens : first.kind = .leftParen
      · exact .of_eq ((parenthesised_outcome _ _).trans (if_pos opens))
          (.present (fun _ => rfl) (decide_eq_true opens)
          (.take opens (has_value_of_plain opens rfl)
          (.bind (items_performed below rest (Nat.lt_of_succ_lt_succ short)) fun values middle _ =>
            .last (token_performed rfl middle) fun _ _ => rfl)))
      · exact .of_eq ((parenthesised_outcome _ _).trans (if_neg opens))
          (.absent [] (fun _ => rfl) (decide_eq_false opens))

end Lists

/-- A table of kinds none of whose tokens has a value of its own. -/
structure Unvalued (mark? : Kind → Option α) : Prop where
  numeral : mark? .constant = none
  text : mark? .string = none
  ended : mark? .endOfInput = none

theorem Unvalued.has_value {mark? : Kind → Option α} (unvalued : Unvalued mark?) {token : Token}
    {entry : α} (marked : mark? token.kind = some entry) : token.hasValue = true := by
  refine has_value_of_plain rfl ?_
  cases kind : token.kind
  case constant => cases unvalued.numeral.symm.trans (kind ▸ marked)
  case string => cases unvalued.text.symm.trans (kind ▸ marked)
  case endOfInput => cases unvalued.ended.symm.trans (kind ▸ marked)
  all_goals rfl

theorem relation_unvalued : Unvalued relation? := ⟨rfl, rfl, rfl⟩

theorem sum_unvalued : Unvalued sum? := ⟨rfl, rfl, rfl⟩

theorem product_unvalued : Unvalued product? := ⟨rfl, rfl, rfl⟩

theorem sign_unvalued : Unvalued sign? := ⟨rfl, rfl, rfl⟩

theorem standard_type_unvalued : Unvalued standardType? := ⟨rfl, rfl, rfl⟩

/-- Operands with operators between them, which associate to the left. -/
theorem chain_performed {mark? : Kind → Option BinaryOp} (unvalued : Unvalued mark?)
    {rule operand : Rule} {item : Reader Expr} {chain : Expr → OptionalReader Expr}
    (planned : ∀ first next, rule.plan first next =
      Rule.optional (mark? first).isSome [.take first, .enter operand, .enter rule])
    (ends : ∀ left, (chain left []).outcome = .ok (left, []))
    (stays : ∀ left first rest, mark? first.kind = none →
      (chain left (first :: rest)).outcome = .ok (left, first :: rest))
    (goes : ∀ left first rest op, mark? first.kind = some op →
      (chain left (first :: rest)).outcome = (do
        let (right, rest) ← (item rest).outcome
        (chain (.binary first.line op left right) rest).outcome))
    (below : Performed origin bound (.enter operand) fun input => (item input).outcome)
    (left : Expr) :
    Performed origin (bound + 1) (.enter rule) fun input => (chain left input).outcome := by
  -- the loop takes a mark and an operand in each round, so the induction is on what is left
  intro input short
  induction size : input.length using Nat.strongRecOn generalizing input left with
  | ind size ih =>
      cases input with
      | nil =>
          exact .of_eq (ends left)
            (.absent left (planned _) (by rw [headKind, unvalued.ended]; rfl))
      | cons first rest =>
          rw [List.length_cons] at short size
          cases marked : mark? first.kind with
          | none =>
              exact .of_eq (stays left first rest marked)
                (.absent left (planned _) (by rw [headKind, marked]; rfl))
          | some op =>
              refine .of_eq (goes left first rest op marked)
                (.present (planned _) (by rw [headKind, marked]; rfl)
                (.take rfl (unvalued.has_value marked)
                (.bind (below rest (by omega)) fun right middle read => ?_)))
              have shorter := outcome_shorter read
              exact ih middle.length (by omega) _ middle (by omega) rfl

section Expressions

variable (factors : Performed origin bound (.enter .factor) fun input => (factor input).outcome)

include factors

theorem products_performed (left : Expr) :
    Performed origin (bound + 1) (.enter .products) fun input => (products left input).outcome :=
  chain_performed product_unvalued (fun _ _ => rfl) (fun left => products_outcome left [])
    (fun left first rest unmarked => by simp only [products_outcome, unmarked])
    (fun left first rest op marked => by rw [products_outcome]; simp only [marked]) factors left

theorem term_performed :
    Performed origin bound (.enter .term) fun input => (term input).outcome := by
  intro input short
  refine .of_eq (term_outcome input)
    (.enter (fun _ _ => rfl) (.bind (factors input short) fun left middle read => ?_))
  have shorter := outcome_shorter read
  exact products_performed factors left middle (by omega)

theorem sums_performed (left : Expr) :
    Performed origin (bound + 1) (.enter .sums) fun input => (sums left input).outcome :=
  chain_performed sum_unvalued (fun _ _ => rfl) (fun left => sums_outcome left [])
    (fun left first rest unmarked => by simp only [sums_outcome, unmarked])
    (fun left first rest op marked => by rw [sums_outcome]; simp only [marked])
    (term_performed factors) left

theorem simple_performed :
    Performed origin bound (.enter .simple) fun input => (simple input).outcome := by
  intro input short
  cases input with
  -- at the end there is no sign, and the operand fails
  | nil =>
      have stuck : (simple []).outcome = (do
          let (operand, rest) ← (term []).outcome
          (sums operand rest).outcome) := by
        rw [simple_outcome, term_outcome, factor_outcome]
        rfl
      refine .of_eq stuck (.enter (fun _ _ => rfl)
        (.bind (term_performed factors [] short) fun operand middle read => ?_))
      exact sums_performed factors operand middle
        (Nat.lt_succ_of_lt ((outcome_shorter read).trans short))
  | cons first rest =>
      have shorter : rest.length < bound := Nat.lt_of_succ_lt short
      cases signed : sign? first.kind with
      | none =>
          have unsigned : (simple (first :: rest)).outcome = (do
              let (operand, rest) ← (term (first :: rest)).outcome
              (sums operand rest).outcome) := by
            rw [simple_outcome]
            simp only [signed]
          have planned (next : Kind) : Rule.plan first.kind next .simple =
              some [.enter .term, .enter .sums] := by
            rw [Rule.plan, signed]
            rfl
          refine .of_eq unsigned (.enter (fun next _ => planned next)
            (.bind (term_performed factors _ short) fun operand middle read => ?_))
          exact sums_performed factors operand middle
            (Nat.lt_succ_of_lt ((outcome_shorter read).trans short))
      | some op =>
          have negated : (simple (first :: rest)).outcome = (do
              let (operand, rest) ← (term rest).outcome
              (sums (.unary first.line op operand) rest).outcome) := by
            rw [simple_outcome]
            simp only [signed]
          have planned (next : Kind) : Rule.plan first.kind next .simple =
              some [.take first.kind, .enter .term, .enter .sums] := by
            rw [Rule.plan, signed]
            rfl
          refine .of_eq negated (.enter (fun next _ => planned next)
            (.take rfl (sign_unvalued.has_value signed)
            (.bind (term_performed factors rest shorter) fun operand middle read => ?_)))
          exact sums_performed factors _ middle
            (Nat.lt_succ_of_lt ((outcome_shorter read).trans shorter))

theorem expr_performed_below :
    Performed origin bound (.enter .expr) fun input => (expr input).outcome := by
  intro input short
  refine .of_eq (expr_outcome input) (.enter (fun _ _ => rfl)
    (.bind (simple_performed factors input short) fun left rest read => ?_))
  have shorter := outcome_shorter read
  cases rest with
  | nil => exact .absent left (fun _ => rfl) rfl
  | cons first more =>
      rw [List.length_cons] at shorter
      cases marked : relation? first.kind with
      | none =>
          simp only [marked]
          exact .absent left (fun _ => rfl) (by rw [headKind, marked]; rfl)
      | some op =>
          simp only [marked]
          exact .present (fun _ => rfl) (by rw [headKind, marked]; rfl)
            (.take rfl (relation_unvalued.has_value marked)
            (.last (simple_performed factors more (by omega)) fun _ _ => rfl))

end Expressions

theorem index_performed_below
    (exprs : Performed origin bound (.enter .expr) fun input => (expr input).outcome) :
    Performed origin (bound + 1) (.enter .index) fun input => (index input).outcome := by
  intro input short
  cases input with
  | nil => exact .of_eq (index_outcome []) (.absent none (fun _ => rfl) rfl)
  | cons first rest =>
      by_cases opens : first.kind = .leftBracket
      · exact .of_eq ((index_outcome _).trans (if_pos opens))
          (.present (fun _ => rfl) (decide_eq_true opens)
          (.take opens (has_value_of_plain opens rfl)
          (.bind (exprs rest (Nat.lt_of_succ_lt_succ short)) fun inner middle _ =>
            .last (token_performed rfl middle) fun _ _ => rfl)))
      · exact .of_eq ((index_outcome _).trans (if_neg opens))
          (.absent none (fun _ => rfl) (decide_eq_false opens))

theorem valued_performed {value? : Option α} {first : Token} {kind : Kind}
    (wanted : first.kind = kind) (valued : first.hasValue = value?.isSome)
    (change : α → β) (rest : List Token) :
    Performs origin [.take kind] (first :: rest) (do
      let value ← valueOf value? first rest
      .ok (change value, rest)) := by
  cases value? with
  | none => exact .malformed wanted valued
  | some value => exact .take wanted valued (.done (change value))

theorem target_performed_below
    (exprs : Performed origin bound (.enter .expr) fun input => (expr input).outcome) :
    Performed origin (bound + 2) (.enter .target) fun input => (target input).outcome := by
  intro input short
  refine .of_eq (target_outcome input)
    (.enter (fun _ _ => rfl) (.bind (token_performed rfl input) fun name middle read => ?_))
  have shorter := outcome_shorter read
  exact .last (index_performed_below exprs middle (by omega)) fun _ _ => rfl

theorem factor_performed_step
    (exprs : Performed origin bound (.enter .expr) fun input => (expr input).outcome)
    (factors : Performed origin bound (.enter .factor) fun input => (factor input).outcome) :
    Performed origin (bound + 1) (.enter .factor) fun input => (factor input).outcome := by
  intro input short
  cases input with
  | nil => exact .of_eq (factor_outcome []) (.rejected fun _ _ => rfl)
  | cons first rest =>
      have shorter : rest.length < bound := Nat.lt_of_succ_lt_succ short
      obtain ⟨text, kind, line⟩ := first
      cases kind
      case identifier =>
        refine .of_eq (factor_outcome _) (.enter (fun _ _ => rfl) (.enter (fun _ _ => rfl)
          (.take rfl rfl (.last (index_performed_below exprs rest (by omega)) fun _ _ => rfl))))
      case leftParen =>
        exact .of_eq (factor_outcome _) (.enter (fun _ _ => rfl) (.take rfl rfl
          (.bind (exprs rest shorter) fun inner middle _ =>
            .last (token_performed rfl middle) fun _ _ => rfl)))
      case notWord =>
        exact .of_eq (factor_outcome _) (.enter (fun _ _ => rfl) (.take rfl rfl
          (.last (factors rest shorter) fun _ _ => rfl)))
      case constant =>
        refine .of_eq (factor_outcome _) (.enter (fun _ _ => rfl)
          (valued_performed ?_ ?_ (Expr.number line) rest))
        · rfl
        · rfl
      case string =>
        refine .of_eq (factor_outcome _) (.enter (fun _ _ => rfl)
          (valued_performed ?_ ?_ (Expr.string line) rest))
        · rfl
        · rfl
      case trueWord =>
        exact .of_eq (factor_outcome _) (.enter (fun _ _ => rfl) (.take rfl rfl (.done _)))
      case falseWord =>
        exact .of_eq (factor_outcome _) (.enter (fun _ _ => rfl) (.take rfl rfl (.done _)))
      all_goals exact .of_eq (factor_outcome _) (.rejected fun _ _ => rfl)

theorem factor_performed_below (bound : Nat) :
    Performed origin bound (.enter .factor) fun input => (factor input).outcome := by
  induction bound with
  | zero => exact fun input short => absurd short (Nat.not_lt_zero _)
  | succ bound ih => exact factor_performed_step (expr_performed_below ih) ih

theorem expr_performed (input : List Token) :
    Performs origin [.enter .expr] input (expr input).outcome :=
  expr_performed_below (factor_performed_below _) input (Nat.lt_succ_self _)

theorem target_performed (input : List Token) :
    Performs origin [.enter .target] input (target input).outcome :=
  target_performed_below (fun input _ => expr_performed input) input
    (Nat.lt_succ_of_lt (Nat.lt_succ_self _))

theorem list_performed {list : Listed} {item : Reader α}
    (performed : ∀ input, Performs origin [list.item] input (item input).outcome)
    (input : List Token) :
    Performs origin [.enter (.parenthesised list)] input
      (parenthesised (items list.separator item) input).outcome :=
  parenthesised_performed (fun input _ => performed input) input (Nat.lt_succ_self _)

theorem values_performed (input : List Token) :
    Performs origin [.enter (.parenthesised .values)] input
      (parenthesised (items .comma expr) input).outcome :=
  list_performed expr_performed input

theorem targets_performed (input : List Token) :
    Performs origin [.enter (.parenthesised .targets)] input
      (parenthesised (items .comma target) input).outcome :=
  list_performed target_performed input

theorem starts_assignment_eq (rest : List Token) :
    startsAssignment rest = (headKind rest = .leftBracket || headKind rest = .assign) := by
  cases rest <;> rfl

theorem named_performed {name : Token} (isName : name.kind = .identifier) (rest : List Token) :
    Performs origin [.enter .stmt] (name :: rest) (stmt (name :: rest)).outcome := by
  have decided : (stmt (name :: rest)).outcome =
      if startsAssignment rest then (assignment (name :: rest)).outcome
      else (call (name :: rest)).outcome := by
    rw [stmt_outcome]
    simp only [isName]
  have planned (next : Kind) (follows : Performs.Follows (name :: rest) next) :
      Rule.plan (headKind (name :: rest)) next .stmt =
        if startsAssignment rest then some [.enter .target, .take .assign, .enter .expr]
        else some [.take .identifier, .enter (.parenthesised .values)] := by
    rw [starts_assignment_eq, ← follows name rest rfl, headKind, isName]
    rfl
  cases starts : startsAssignment rest with
  | true =>
      simp only [starts, ↓reduceIte] at decided planned
      exact .of_eq (decided.trans (assignment_outcome _))
        (.enter planned (.bind (target_performed _) fun assigned middle _ =>
          .bind (token_performed rfl middle) fun mark after _ =>
          .last (expr_performed after) fun _ _ => rfl))
  | false =>
      simp only [starts, Bool.false_eq_true, ↓reduceIte] at decided planned
      exact .of_eq (decided.trans (call_outcome _))
        (.enter planned (.bind (token_performed rfl _) fun name middle _ =>
          .last (values_performed middle) fun _ _ => rfl))

theorem else_part_performed
    (blocks : Performed origin bound (.enter .block) fun input => (block input).outcome) :
    Performed origin bound (.enter .elsePart) fun input => (elsePart input).outcome := by
  intro input short
  cases input with
  | nil => exact .of_eq (elsePart_outcome []) (.absent none (fun _ => rfl) rfl)
  | cons word rest =>
      by_cases isElse : word.kind = .elseWord
      · exact .of_eq ((elsePart_outcome _).trans (if_pos isElse))
          (.present (fun _ => rfl) (decide_eq_true isElse)
          (.take isElse (has_value_of_plain isElse rfl)
          (.last (blocks rest (Nat.lt_of_succ_lt short)) fun _ _ => rfl)))
      · exact .of_eq ((elsePart_outcome _).trans (if_neg isElse))
          (.absent none (fun _ => rfl) (decide_eq_false isElse))

theorem stmt_performed_below
    (blocks : Performed origin bound (.enter .block) fun input => (block input).outcome) :
    Performed origin bound (.enter .stmt) fun input => (stmt input).outcome := by
  intro input short
  cases input with
  | nil => exact .of_eq (stmt_outcome []) (.rejected fun _ _ => rfl)
  | cons first rest =>
      have shortRest : rest.length < bound := Nat.lt_of_succ_lt short
      obtain ⟨text, kind, line⟩ := first
      cases kind
      case identifier => exact named_performed rfl rest
      case ifWord =>
        refine .of_eq (stmt_outcome _) (.enter (fun _ _ => rfl) (.take rfl rfl
          (.bind (expr_performed rest) fun condition middle tested =>
            .bind (token_performed rfl middle) fun thenWord after worded =>
            .bind (blocks after ?_) fun thenBlock final blocked =>
            .last (else_part_performed blocks final ?_) fun _ _ => rfl)))
        · exact (outcome_shorter worded).trans ((outcome_shorter tested).trans shortRest)
        · exact (outcome_shorter blocked).trans ((outcome_shorter worded).trans
            ((outcome_shorter tested).trans shortRest))
      case whileWord =>
        refine .of_eq (stmt_outcome _) (.enter (fun _ _ => rfl) (.take rfl rfl
          (.bind (expr_performed rest) fun condition middle tested =>
            .bind (token_performed rfl middle) fun doWord after worded =>
            .last (blocks after ?_) fun _ _ => rfl)))
        exact (outcome_shorter worded).trans ((outcome_shorter tested).trans shortRest)
      case readlnWord =>
        exact .of_eq (stmt_outcome _) (.enter (fun _ _ => rfl) (.take rfl rfl
          (.last (targets_performed rest) fun _ _ => rfl)))
      case writelnWord =>
        exact .of_eq (stmt_outcome _) (.enter (fun _ _ => rfl) (.take rfl rfl
          (.last (values_performed rest) fun _ _ => rfl)))
      case beginWord =>
        exact .of_eq (stmt_outcome _) (.enter (fun _ _ => rfl)
          (.last (blocks _ short) fun _ _ => rfl))
      all_goals exact .of_eq (stmt_outcome _) (.rejected fun _ _ => rfl)

theorem stmts_performed_below
    (statements : Performed origin bound (.enter .stmt) fun input => (stmt input).outcome) :
    Performed origin bound (.enter .stmts) fun input => (stmts input).outcome := by
  intro input short
  induction size : input.length using Nat.strongRecOn generalizing input with
  | ind size ih =>
      cases input with
      | nil => exact .of_eq (stmts_outcome []) (.absent [] (fun _ => rfl) rfl)
      | cons first more =>
          by_cases starts : startsStatement first.kind = true
          · refine .of_eq ((stmts_outcome _).trans (if_pos starts))
              (.present (fun _ => rfl) starts
              (.bind (statements _ short) fun statement middle read =>
                .bind (token_performed rfl middle) fun mark after ended =>
                .last (ih after.length ?_ after ?_ rfl) fun _ _ => rfl))
            · exact size ▸ (outcome_shorter ended).trans (outcome_shorter read)
            · exact (outcome_shorter ended).trans ((outcome_shorter read).trans short)
          · exact .of_eq ((stmts_outcome _).trans (if_neg starts))
              (.absent [] (fun _ => rfl) (Bool.eq_false_iff.2 starts))

theorem block_performed_below (bound : Nat) :
    Performed origin bound (.enter .block) fun input => (block input).outcome := by
  induction bound with
  | zero => exact fun input short => absurd short (Nat.not_lt_zero _)
  | succ bound ih =>
      intro input short
      cases input with
      | nil =>
          exact .of_eq (block_outcome []) (.enter (fun _ _ => rfl) (.refused (by decide)))
      | cons word rest =>
          by_cases isBegin : word.kind = .beginWord
          · exact .of_eq ((block_outcome _).trans (if_pos isBegin)) (.enter (fun _ _ => rfl)
              (.take isBegin (has_value_of_plain isBegin rfl)
              (.bind (stmts_performed_below (stmt_performed_below ih) rest
                (Nat.lt_of_succ_lt_succ short)) fun body middle _ =>
                .last (token_performed rfl middle) fun _ _ => rfl)))
          · exact .of_eq ((block_outcome _).trans (if_neg isBegin))
              (.enter (fun _ _ => rfl) (.refused isBegin))

theorem block_performed (input : List Token) :
    Performs origin [.enter .block] input (block input).outcome :=
  block_performed_below _ input (Nat.lt_succ_self _)

theorem standard_type_performed (input : List Token) :
    Performs origin [.enter .standardType] input (standardType input).outcome := by
  cases input with
  | nil => exact .of_eq (standardType_outcome []) (.rejected fun _ _ => rfl)
  | cons word rest =>
      cases named : standardType? word.kind with
      | none =>
          have unread : (standardType (word :: rest)).outcome =
              .error (.unexpected (word :: rest)) := by
            simp only [standardType_outcome, named]
          have unplanned (next : Kind) : Rule.plan word.kind next .standardType = none := by
            rw [Rule.plan, named]
            rfl
          exact .of_eq unread (.rejected fun next _ => unplanned next)
      | some type =>
          have read : (standardType (word :: rest)).outcome = .ok (type, rest) := by
            simp only [standardType_outcome, named]
          have planned (next : Kind) : Rule.plan word.kind next .standardType =
              some [.take word.kind] := by
            rw [Rule.plan, named]
            rfl
          exact .of_eq read (.enter (fun next _ => planned next)
            (.take rfl (standard_type_unvalued.has_value named) (.done type)))

theorem magnitude_performed (input : List Token) :
    Performs origin [.take .constant] input (magnitude input).outcome := by
  cases input with
  | nil => exact .of_eq (magnitude_outcome []) (.refused (by decide))
  | cons numeral rest =>
      by_cases isConstant : numeral.kind = .constant
      · have read : (magnitude (numeral :: rest)).outcome = (do
            let value ← valueOf (Text.literalValue? numeral.text.toList) numeral rest
            .ok (value, rest)) := by
          rw [magnitude_outcome, token_read isConstant]
          rfl
        have valued : numeral.hasValue = (Text.literalValue? numeral.text.toList).isSome := by
          rw [Token.hasValue, isConstant]
        exact .of_eq read (valued_performed isConstant valued id rest)
      · have unread : (magnitude (numeral :: rest)).outcome =
            .error (.unexpected (numeral :: rest)) := by
          rw [magnitude_outcome, token_outcome]
          simp only [if_neg isConstant]
          rfl
        exact .of_eq unread (.refused isConstant)

theorem bound_performed (input : List Token) :
    Performs origin [.enter .bound] input (Grammar.bound input).outcome := by
  cases input with
  | nil => exact .of_eq (bound_outcome []) (.enter (fun _ _ => rfl) (.refused (by decide)))
  | cons first rest =>
      cases signed : sign? first.kind with
      | none =>
          have read : (Grammar.bound (first :: rest)).outcome = (do
              let value ← (magnitude (first :: rest)).outcome
              .ok (⟨false, value.1⟩, value.2)) := by
            rw [bound_outcome]
            simp only [signed]
          have planned (next : Kind) : Rule.plan first.kind next .bound =
              some [.take .constant] := by
            rw [Rule.plan, signed]
            rfl
          exact .of_eq read (.enter (fun next _ => planned next)
            (.last (magnitude_performed _) fun _ _ => rfl))
      | some sign =>
          have read : (Grammar.bound (first :: rest)).outcome = (do
              let value ← (magnitude rest).outcome
              .ok (⟨sign = .minus, value.1⟩, value.2)) := by
            rw [bound_outcome]
            simp only [signed]
          have planned (next : Kind) : Rule.plan first.kind next .bound =
              some [.take first.kind, .take .constant] := by
            rw [Rule.plan, signed]
            rfl
          exact .of_eq read (.enter (fun next _ => planned next)
            (.take rfl (sign_unvalued.has_value signed)
            (.last (magnitude_performed rest) fun _ _ => rfl)))

theorem type_spec_performed (input : List Token) :
    Performs origin [.enter .typeSpec] input (typeSpec input).outcome := by
  cases input with
  | nil =>
      exact .of_eq (typeSpec_outcome [])
        (.enter (fun _ _ => rfl) (.rejected fun _ _ => rfl))
  | cons first rest =>
      by_cases isArray : first.kind = .arrayWord
      · have planned (next : Kind) : Rule.plan first.kind next .typeSpec =
            some [.take .arrayWord, .take .leftBracket, .enter .bound, .take .range,
              .enter .bound, .take .rightBracket, .take .ofWord, .enter .standardType] :=
          if_pos isArray
        exact .of_eq ((typeSpec_outcome _).trans (if_pos isArray))
          (.enter (fun next _ => planned next) (.take isArray (has_value_of_plain isArray rfl)
          (.bind (token_performed rfl rest) fun _ _ _ =>
            .bind (bound_performed _) fun _ _ _ => .bind (token_performed rfl _) fun _ _ _ =>
            .bind (bound_performed _) fun _ _ _ => .bind (token_performed rfl _) fun _ _ _ =>
            .bind (token_performed rfl _) fun _ _ _ =>
            .last (standard_type_performed _) fun _ _ => rfl)))
      · have planned (next : Kind) : Rule.plan first.kind next .typeSpec =
            some [.enter .standardType] := if_neg isArray
        exact .of_eq ((typeSpec_outcome _).trans (if_neg isArray))
          (.enter (fun next _ => planned next)
          (.last (standard_type_performed _) fun _ _ => rfl))

theorem names_performed (input : List Token) :
    Performs origin [.enter (.items .names)] input (names input).outcome :=
  items_performed (fun input _ => token_performed rfl input) input (Nat.lt_succ_self _)

theorem var_group_performed (input : List Token) :
    Performs origin [.enter .varGroup] input (varGroup input).outcome :=
  .of_eq (varGroup_outcome input) (.enter (fun _ _ => rfl)
    (.bind (names_performed input) fun _ _ _ => .bind (token_performed rfl _) fun _ _ _ =>
      .bind (type_spec_performed _) fun _ _ _ => .last (token_performed rfl _) fun _ _ => rfl))

theorem more_var_groups_performed (input : List Token) :
    Performs origin [.enter .moreVarGroups] input (moreVarGroups input).outcome := by
  cases input with
  | nil => exact .of_eq (moreVarGroups_outcome []) (.absent [] (fun _ => rfl) rfl)
  | cons first more =>
      by_cases isName : first.kind = .identifier
      · refine .of_eq ((moreVarGroups_outcome _).trans (if_pos isName))
          (.present (fun _ => rfl) (decide_eq_true isName)
          (.bind (var_group_performed _) fun group rest read => ?_))
        have shorter := outcome_shorter read
        exact .last (more_var_groups_performed rest) fun _ _ => rfl
      · exact .of_eq ((moreVarGroups_outcome _).trans (if_neg isName))
          (.absent [] (fun _ => rfl) (decide_eq_false isName))
  termination_by input.length
  decreasing_by exact shorter

theorem vars_performed (input : List Token) :
    Performs origin [.enter .vars] input (vars input).outcome := by
  cases input with
  | nil => exact .of_eq (vars_outcome []) (.absent [] (fun _ => rfl) rfl)
  | cons first rest =>
      by_cases isVar : first.kind = .varWord
      · exact .of_eq ((vars_outcome _).trans (if_pos isVar))
          (.present (fun _ => rfl) (decide_eq_true isVar)
          (.take isVar (has_value_of_plain isVar rfl)
          (.bind (var_group_performed _) fun _ _ _ =>
            .last (more_var_groups_performed _) fun _ _ => rfl)))
      · exact .of_eq ((vars_outcome _).trans (if_neg isVar))
          (.absent [] (fun _ => rfl) (decide_eq_false isVar))

theorem param_group_performed (input : List Token) :
    Performs origin [.enter .paramGroup] input (paramGroup input).outcome :=
  .of_eq (paramGroup_outcome input) (.enter (fun _ _ => rfl)
    (.bind (names_performed input) fun _ _ _ => .bind (token_performed rfl _) fun _ _ _ =>
      .last (standard_type_performed _) fun _ _ => rfl))

theorem params_performed (input : List Token) :
    Performs origin [.enter (.parenthesised .params)] input
      (parenthesised (items .semicolon paramGroup) input).outcome :=
  list_performed param_group_performed input

theorem procedure_performed (input : List Token) :
    Performs origin [.enter .procedure] input (procedure input).outcome :=
  .of_eq (procedure_outcome input) (.enter (fun _ _ => rfl)
    (.bind (token_performed rfl input) fun _ _ _ => .bind (token_performed rfl _) fun _ _ _ =>
      .bind (params_performed _) fun _ _ _ => .bind (token_performed rfl _) fun _ _ _ =>
      .bind (vars_performed _) fun _ _ _ => .last (block_performed _) fun _ _ => rfl))

theorem procedures_performed (input : List Token) :
    Performs origin [.enter .procedures] input (procedures input).outcome := by
  cases input with
  | nil => exact .of_eq (procedures_outcome []) (.absent [] (fun _ => rfl) rfl)
  | cons first more =>
      by_cases isProcedure : first.kind = .procedureWord
      · refine .of_eq ((procedures_outcome _).trans (if_pos isProcedure))
          (.present (fun _ => rfl) (decide_eq_true isProcedure)
          (.bind (procedure_performed _) fun declared middle read =>
            .bind (token_performed rfl middle) fun mark rest ended => ?_))
        have shorter := (outcome_shorter ended).trans (outcome_shorter read)
        exact .last (procedures_performed rest) fun _ _ => rfl
      · exact .of_eq ((procedures_outcome _).trans (if_neg isProcedure))
          (.absent [] (fun _ => rfl) (decide_eq_false isProcedure))
  termination_by input.length
  decreasing_by exact shorter

theorem program_performed (input : List Token) :
    Performs origin [.enter .program] input (program input).outcome :=
  .of_eq (program_outcome input) (.enter (fun _ _ => rfl)
    (.bind (token_performed rfl input) fun _ _ _ => .bind (token_performed rfl _) fun _ _ _ =>
      .bind (token_performed rfl _) fun _ _ _ => .bind (vars_performed _) fun _ _ _ =>
      .bind (procedures_performed _) fun _ _ _ => .bind (block_performed _) fun _ _ _ =>
      .last (token_performed rfl _) fun _ _ => rfl))

end Parsing
end PascalCasl
