import PascalCasl.Proofs.Grammar.FirstFault
import PascalCasl.Proofs.Grammar.Goals

/-!
A parse is a run of the machine that goes token by token. So it terminates, its
cursor moves as the steps of the machine move it, and after a program it stands
before an end mark, where no other program begins.
-/

namespace PascalCasl

open Grammar

namespace Cursor

/-- The same tokens, to be parsed from another place. -/
def seek (cursor : Cursor) (index : Nat) : Cursor := { cursor with index := index }

theorem closed_of_tokens (tokens : List Token) (index : Nat) :
    ((ofTokens tokens).seek index).Closed := by
  change ∃ mark, (closeTokens tokens).getLast? = some mark ∧ mark.isEnd = true
  unfold closeTokens
  split
  next => exact ⟨_, rfl, rfl⟩
  next last found =>
    split
    next isEnd => exact ⟨last, found, isEnd⟩
    next => exact ⟨_, List.getLast?_concat, rfl⟩

theorem sentence_nothing : sentence [] = .error (.unexpected []) := by
  rfl

theorem parse_at_mark {cursor : Cursor} {mark : Token}
    (found : cursor.tokens[cursor.index]? = some mark) (isEnd : mark.isEnd = true) :
    cursor.parse = (.error (.syntactic mark.line), cursor) := by
  obtain ⟨within, same⟩ := List.getElem?_eq_some_iff.1 found
  have ahead : cursor.upcoming = mark :: cursor.tokens.drop (cursor.index + 1) :=
    same ▸ List.drop_eq_getElem_cons within
  have nothing : cursor.input = [] := by
    rw [input, ahead, List.takeWhile_cons_of_neg (by simp [isEnd])]
  have line : cursor.endLine = mark.line := by
    rw [endLine, ahead, List.find?_cons_of_pos isEnd]
  rw [parse, nothing, sentence_nothing, line]
  rfl

theorem parse_ok {cursor : Cursor} {tree : Program} (parsed : cursor.parse.1 = .ok tree) :
    sentence cursor.input = .ok tree ∧ cursor.parse.2 = cursor.before [] := by
  rw [parse] at parsed ⊢
  cases read : sentence cursor.input with
  | ok other =>
      rw [read] at parsed
      cases parsed
      exact ⟨rfl, rfl⟩
  | error failure =>
      rw [read] at parsed
      cases parsed

theorem mark_behind_program {cursor : Cursor} (closed : cursor.Closed) {tree : Program}
    (parsed : sentence cursor.input = .ok tree) :
    ∃ mark, cursor.tokens[(cursor.before []).index]? = some mark ∧ mark.isEnd = true := by
  cases ahead : cursor.upcoming.dropWhile fun token => !token.isEnd with
  | nil =>
      have nothing : cursor.upcoming = [] :=
        List.drop_eq_nil_of_le (beyond_of_unmarked closed ahead)
      rw [input, nothing, List.takeWhile_nil, sentence_nothing] at parsed
      cases parsed
  | cons mark after =>
      obtain ⟨place, isEnd, _⟩ := mark_at_end ahead
      exact ⟨mark, place, isEnd⟩

end Cursor

namespace Parsing

theorem parse_reached {cursor : Cursor} (closed : cursor.Closed) :
    ∃ last, Arrives step (begin cursor) last ∧
      last.step = .stopped (cursor.parse.1.map fun _ => (), cursor.parse.2) := by
  have performs : Performs cursor [.enter .program] cursor.input
      (program cursor.input).outcome := program_performed _
  have placed := Cursor.placed_input closed
  have begun : begin cursor = ⟨[.enter .program] ++ [], cursor.before cursor.input⟩ := by
    rw [Cursor.before_input]
    rfl
  cases parsed : sentence cursor.input with
  | ok tree =>
      obtain ⟨_, ran⟩ := performs.reads [] tree [] placed (sentence_ok.1 parsed)
      refine ⟨_, begun ▸ ran, ?_⟩
      rw [step, if_pos (Cursor.peek_at_end closed).1, Cursor.parse, parsed]
      rfl
  | error failure =>
      have ended : cursor.parse = (.error (.syntactic (failure.line cursor.endLine)),
          cursor.before failure.rest) := by
        rw [Cursor.parse, parsed]
        rfl
      rw [ended]
      rcases sentence_error parsed with failed | ⟨tree, next, rest, read, rfl⟩
      · obtain ⟨last, ran, stopped⟩ := performs.fails [] failure placed failed
        exact ⟨last, begun ▸ ran, stopped⟩
      · -- a whole program was read, but something stands behind it
        obtain ⟨remains, ran⟩ := performs.reads [] tree (next :: rest) placed read
        refine ⟨_, begun ▸ ran, ?_⟩
        rw [step, Cursor.peek_before remains, Cursor.input_written remains,
          if_neg Bool.false_ne_true, refuse, Cursor.peek_before remains]
        rfl

/-- Parsing token by token comes to the parse, from any place of any tokens. On
the way the cursor moves on and not past an end mark, and a rule that is entered
again for its next round or within its own phrase has taken a token. Behind a
program the cursor stands at an end mark, and parsing on from there fails. -/
theorem parse_progresses (tokens : List Token) (index : Nat) :
    (∃ last, Arrives step (begin ((Cursor.ofTokens tokens).seek index)) last ∧
      last.step = .stopped (((Cursor.ofTokens tokens).seek index).parse.1.map fun _ => (),
        ((Cursor.ofTokens tokens).seek index).parse.2)) ∧
    (∀ state, Arrives step (begin ((Cursor.ofTokens tokens).seek index)) state →
      ((Cursor.ofTokens tokens).seek index).Onward state.cursor ∧
      ∀ later, Arrives step state later → state.cursor.index ≤ later.cursor.index) ∧
    ((Cursor.ofTokens tokens).seek index).Onward
      ((Cursor.ofTokens tokens).seek index).parse.2 ∧
    (∀ rule rest more state later, state.goals = .enter rule :: rest →
      Relation.TransGen (Inner rest) state later → later.goals = .enter rule :: more →
      state.cursor.index < later.cursor.index) ∧
    ∀ tree, ((Cursor.ofTokens tokens).seek index).parse.1 = .ok tree →
      ∃ after mark, ((Cursor.ofTokens tokens).seek index).parse.2 = after ∧
        after.tokens[after.index]? = some mark ∧ mark.isEnd = true ∧
        after.parse = (.error (.syntactic mark.line), after) := by
  have closed := Cursor.closed_of_tokens tokens index
  generalize (Cursor.ofTokens tokens).seek index = cursor at closed
  obtain ⟨last, ran, stopped⟩ := parse_reached closed
  refine ⟨⟨last, ran, stopped⟩, fun state reached => ?_, ?_, ?_, fun tree parsed => ?_⟩
  · have onward : cursor.Onward state.cursor := onward_arrives closed reached
    exact ⟨onward, fun later => index_arrives⟩
  · have onward : cursor.Onward last.cursor := onward_arrives closed ran
    rcases step_stopped stopped with same | passed
    · exact same ▸ onward
    · exact passed ▸ onward.pass closed
  · exact fun rule rest more state later entered inside again => rule_takes entered inside again
  · obtain ⟨read, after⟩ := Cursor.parse_ok parsed
    obtain ⟨mark, place, isEnd⟩ := Cursor.mark_behind_program closed read
    exact ⟨_, mark, after, place, isEnd, Cursor.parse_at_mark place isEnd⟩

/-- A program between a stray name and a list of names, with an end mark before
the list. -/
def embedded : List Token :=
  [⟨"x", .identifier, 1⟩, ⟨"program", .programWord, 1⟩, ⟨"p", .identifier, 1⟩,
    ⟨";", .semicolon, 1⟩, ⟨"begin", .beginWord, 2⟩, ⟨"end", .endWord, 2⟩, ⟨".", .dot, 2⟩,
    Token.endOfInput 3, ⟨",", .comma, 4⟩, ⟨"y", .identifier, 4⟩]

theorem embedded_parse_progresses :
    ((Cursor.ofTokens embedded).seek 1).parse.2.index = 7 ∧
    (∃ after mark, ((Cursor.ofTokens embedded).seek 1).parse.2 = after ∧
      after.tokens[after.index]? = some mark ∧ mark.isEnd = true ∧
      after.parse = (.error (.syntactic mark.line), after)) ∧
    ∃ later : Parsing, later.goals = [.enter (.moreItems .names)] ∧
      Relation.TransGen (Inner [])
        ⟨[.enter (.moreItems .names)], (Cursor.ofTokens embedded).seek 8⟩ later ∧
      8 < later.cursor.index := by
  have read : (((Cursor.ofTokens embedded).seek 1).parse.1.map fun tree => tree.name) =
      .ok "p" := by decide +kernel
  obtain ⟨tree, parsed, _⟩ := except_map_ok.1 read
  obtain ⟨_, _, _, takes, ends⟩ := parse_progresses embedded 1
  have round : Relation.TransGen (Inner [])
      ⟨[.enter (.moreItems .names)], (Cursor.ofTokens embedded).seek 8⟩
      ⟨[.enter (.moreItems .names)], (Cursor.ofTokens embedded).seek 10⟩ :=
    .tail (.tail
      (.single ⟨rfl, .take .comma, [.take .identifier, .enter (.moreItems .names)], rfl⟩)
      ⟨rfl, .take .identifier, [.enter (.moreItems .names)], rfl⟩)
      ⟨rfl, .enter (.moreItems .names), [], rfl⟩
  exact ⟨by decide +kernel, ends tree parsed, _, rfl, round, takes _ _ _ _ _ rfl round rfl⟩

end Parsing
end PascalCasl
