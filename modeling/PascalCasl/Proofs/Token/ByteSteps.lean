import PascalCasl.Proofs.Machine
import PascalCasl.Proofs.Token.Scanning

/-!
Scanning byte by byte. The machine of this module looks at one byte or two,
moves past them, and cuts a lexeme out of the source by its two ends, which
fails where these are no places of the source. It comes to the same end as a
scan of the pieces; what every step of it keeps is so kept by every scan.
-/

namespace PascalCasl

open Piece

namespace Scanner

variable {Line : Type}

def peek (scanner : Scanner Line) : Option UInt8 := scanner.source[scanner.index]?

def peekNext (scanner : Scanner Line) : Option UInt8 := scanner.source[scanner.index + 1]?

def advance (scanner : Scanner Line) (count : Nat) : Scanner Line :=
  { scanner with index := scanner.index + count }

def newLine [LineCount Line] (scanner : Scanner Line) : Scanner Line :=
  { scanner.advance 1 with line := LineCount.down scanner.line 1 }

/-- The bytes from `start` to the scanner, if these are places of the source in
their order. -/
def cut? (scanner : Scanner Line) (start : Nat) : Option (List UInt8) :=
  if start ≤ scanner.index ∧ scanner.index ≤ scanner.source.length then
    some ((scanner.source.drop start).take (scanner.index - start))
  else none

def take [LineCount Line] (scanner : Scanner Line) (bytes : List UInt8) : Scanner Line :=
  { scanner with
    index := scanner.index + bytes.length
    line := LineCount.down scanner.line (bytes.count lineFeed) }

variable {scanner : Scanner Line} {bytes more rest : List UInt8} {byte : UInt8}

theorem peek_eq (scanner : Scanner Line) : scanner.peek = scanner.upcoming.head? := by
  rw [peek, upcoming, List.head?_drop]

theorem peek_next_eq (ahead : scanner.upcoming = byte :: rest) : scanner.peekNext = rest.head? := by
  have second := congrArg (·[1]?) ahead
  rw [upcoming, List.getElem?_drop, List.getElem?_cons_succ] at second
  rw [peekNext, second, List.head?_eq_getElem?]

theorem peek_some : scanner.peek = some byte ↔ ∃ rest, scanner.upcoming = byte :: rest := by
  rw [peek_eq, List.head?_eq_some_iff]

variable [LineCount Line]

@[simp] theorem take_nil (scanner : Scanner Line) : scanner.take [] = scanner := by
  simp [take, LineCount.down_zero]

@[simp] theorem take_take (scanner : Scanner Line) (bytes more : List UInt8) :
    (scanner.take bytes).take more = scanner.take (bytes ++ more) := by
  simp [take, LineCount.down_down, Nat.add_assoc]

theorem upcoming_take (ahead : scanner.upcoming = bytes ++ rest) :
    (scanner.take bytes).upcoming = rest := by
  rw [upcoming, take, ← List.drop_drop]
  exact (congrArg _ ahead).trans List.drop_left

theorem take_solid (solid : lineFeed ∉ bytes) :
    scanner.take bytes = scanner.advance bytes.length := by
  simp [take, advance, List.count_eq_zero.2 solid, LineCount.down_zero]

theorem line_solid (solid : lineFeed ∉ bytes) : (scanner.take bytes).line = scanner.line := by
  rw [take_solid solid]
  rfl

theorem take_line_feed (scanner : Scanner Line) : scanner.take [lineFeed] = scanner.newLine := by
  simp [take, newLine, advance]

theorem passed_one (seen : scanner.peek = some byte) (solid : byte ≠ lineFeed) :
    [byte] <+: scanner.upcoming ∧ scanner.advance 1 = scanner.take [byte] := by
  obtain ⟨rest, ahead⟩ := peek_some.1 seen
  have plain : lineFeed ∉ [byte] := by simpa using solid.symm
  exact ⟨ahead ▸ List.prefix_append [byte] rest, (take_solid plain).symm⟩

theorem passed_two {next : UInt8} (seen : scanner.peek = some byte)
    (behind : scanner.peekNext = some next) (solid : byte ≠ lineFeed) (other : next ≠ lineFeed) :
    [byte, next] <+: scanner.upcoming ∧ scanner.advance 2 = scanner.take [byte, next] := by
  obtain ⟨rest, ahead⟩ := peek_some.1 seen
  obtain ⟨after, rfl⟩ := List.head?_eq_some_iff.1 ((peek_next_eq ahead).symm.trans behind)
  have plain : lineFeed ∉ [byte, next] := by simp [solid.symm, other.symm]
  exact ⟨ahead ▸ List.prefix_append [byte, next] after, (take_solid plain).symm⟩

theorem passed_line_feed (seen : scanner.peek = some lineFeed) :
    [lineFeed] <+: scanner.upcoming ∧ scanner.newLine = scanner.take [lineFeed] := by
  obtain ⟨rest, ahead⟩ := peek_some.1 seen
  exact ⟨ahead ▸ List.prefix_append [lineFeed] rest, (take_line_feed scanner).symm⟩

end Scanner

/-- What the scanner is in the middle of. -/
inductive Inside where
  | text
  | comment (line : Nat)
  | number (start : Nat)
  | word (start : Nat)
  | string (start : Nat)

def Inside.isRun : Inside → Bool
  | .number _ | .word _ => true
  | _ => false

structure Scanning (Line : Type) where
  scanner : Scanner Line
  inside : Inside
  tokens : List Token

namespace Scanning

variable {Line : Type}

/-- The result of a run is missing where it cut outside of the source. -/
abbrev Result (Line : Type) := Progress (Scanning Line) (Option (Except Fault (List Token)))

def begin (scanner : Scanner Line) : Scanning Line := ⟨scanner, .text, []⟩

def fail (cause : LexicalCause) (line : Nat) : Result Line :=
  .stopped (some (.error (.lexical cause line)))

variable [LineCount Line]

def close (tokens : List Token) (kind : List UInt8 → Kind) (start : Nat) (scanner : Scanner Line) :
    Result Line :=
  match scanner.cut? start with
  | some bytes =>
      .further ⟨scanner, .text,
        tokens ++ [⟨Text.decode bytes, kind bytes, LineCount.number scanner.line⟩]⟩
  | none => .stopped none

def markStep (scanner : Scanner Line) (tokens : List Token) (byte : UInt8) : Result Line :=
  match scanner.peekNext.bind (doubleMark? byte) with
  | some kind => close tokens (fun _ => kind) scanner.index (scanner.advance 2)
  | none =>
      match mark? byte with
      | some kind => close tokens (fun _ => kind) scanner.index (scanner.advance 1)
      | none => fail (.strayByte byte) (LineCount.number scanner.line)

def textStep (scanner : Scanner Line) (tokens : List Token) : Result Line :=
  match scanner.peek with
  | none => .stopped (some (.ok (tokens ++ [Token.endOfInput (LineCount.number scanner.line)])))
  | some byte =>
      if byte = quote then .further ⟨scanner.advance 1, .string scanner.index, tokens⟩
      else if isDigit byte then .further ⟨scanner.advance 1, .number scanner.index, tokens⟩
      else if isLetter byte then .further ⟨scanner.advance 1, .word scanner.index, tokens⟩
      else if byte = lineFeed then .further ⟨scanner.newLine, .text, tokens⟩
      else if isSpace byte then .further ⟨scanner.advance 1, .text, tokens⟩
      else if byte = openBrace then
        .further ⟨scanner.advance 1, .comment (LineCount.number scanner.line), tokens⟩
      else markStep scanner tokens byte

def commentStep (scanner : Scanner Line) (tokens : List Token) (line : Nat) : Result Line :=
  match scanner.peek with
  | none => fail .openComment line
  | some byte =>
      if byte = closeBrace then .further ⟨scanner.advance 1, .text, tokens⟩
      else if byte = lineFeed then .further ⟨scanner.newLine, .comment line, tokens⟩
      else .further ⟨scanner.advance 1, .comment line, tokens⟩

/-- A number or a word goes on as long as its bytes do. -/
def runStep (scanner : Scanner Line) (inside : Inside) (tokens : List Token) (member : UInt8 → Bool)
    (kind : List UInt8 → Kind) (start : Nat) : Result Line :=
  if scanner.peek.any member then .further ⟨scanner.advance 1, inside, tokens⟩
  else close tokens kind start scanner

def stringStep (scanner : Scanner Line) (tokens : List Token) (start : Nat) : Result Line :=
  match scanner.peek with
  | none => fail .openString (LineCount.number scanner.line)
  | some byte =>
      if byte = quote then
        if scanner.peekNext = some quote then
          .further ⟨scanner.advance 2, .string start, tokens⟩
        else close tokens (fun _ => .string) start (scanner.advance 1)
      else if byte = lineFeed then fail .openString (LineCount.number scanner.line)
      else if byte = tab then fail .tabInString (LineCount.number scanner.line)
      else .further ⟨scanner.advance 1, .string start, tokens⟩

def step : Scanning Line → Result Line
  | ⟨scanner, .text, tokens⟩ => textStep scanner tokens
  | ⟨scanner, .comment line, tokens⟩ => commentStep scanner tokens line
  | ⟨scanner, .number start, tokens⟩ =>
      runStep scanner (.number start) tokens isDigit (fun _ => .constant) start
  | ⟨scanner, .word start, tokens⟩ =>
      runStep scanner (.word start) tokens isWordByte
        (fun bytes => Kind.ofSpelling (Text.decode bytes)) start
  | ⟨scanner, .string start, tokens⟩ => stringStep scanner tokens start

/-- A step to `next` takes `bytes`. The only step that takes none ends a number
or a word, and a string is opened by a quote and has no line feed or tab. -/
structure Moves (state next : Scanning Line) (bytes : List UInt8) : Prop where
  ahead : bytes <+: state.scanner.upcoming
  behind : next.scanner = state.scanner.take bytes
  some_byte : bytes = [] → state.inside.isRun = true ∧ next.inside = .text
  string : ∀ start, next.inside = .string start →
    (state.inside = .string start ∧ lineFeed ∉ bytes ∧ tab ∉ bytes) ∨
      (start = state.scanner.index ∧ bytes = [quote])

theorem close_cases (tokens : List Token) (kind : List UInt8 → Kind) (start : Nat)
    (scanner : Scanner Line) :
    (∃ more, close tokens kind start scanner = .further ⟨scanner, .text, tokens ++ more⟩) ∨
      close tokens kind start scanner = .stopped none := by
  unfold close
  split
  · exact .inl ⟨_, rfl⟩
  · exact .inr rfl

theorem close_further {tokens : List Token} {kind : List UInt8 → Kind} {start : Nat}
    {scanner : Scanner Line} {next : Scanning Line}
    (closed : close tokens kind start scanner = .further next) :
    next.scanner = scanner ∧ next.inside = .text := by
  rcases close_cases tokens kind start scanner with ⟨more, moved⟩ | stopped
  · cases moved.symm.trans closed
    exact ⟨rfl, rfl⟩
  · cases stopped.symm.trans closed

variable {scanner : Scanner Line} {inside : Inside} {tokens : List Token} {next : Scanning Line}
  {byte : UInt8}

theorem moves_one (seen : scanner.peek = some byte) (solid : byte ≠ lineFeed)
    (rested : next.scanner = scanner.advance 1) (plain : ∀ start, next.inside ≠ .string start) :
    ∃ bytes, Moves ⟨scanner, inside, tokens⟩ next bytes := by
  obtain ⟨ahead, passed⟩ := Scanner.passed_one seen solid
  exact ⟨_, ahead, rested.trans passed, by simp, fun start opened => (plain start opened).elim⟩

theorem moves_line_feed (seen : scanner.peek = some lineFeed)
    (rested : next.scanner = scanner.newLine) (plain : ∀ start, next.inside ≠ .string start) :
    ∃ bytes, Moves ⟨scanner, inside, tokens⟩ next bytes := by
  obtain ⟨ahead, passed⟩ := Scanner.passed_line_feed seen
  exact ⟨_, ahead, rested.trans passed, by simp, fun start opened => (plain start opened).elim⟩

theorem member_solid {member : UInt8 → Bool} (apart : member lineFeed = false)
    (among : member byte = true) : byte ≠ lineFeed := by
  rintro rfl
  exact Bool.noConfusion (apart.symm.trans among)

theorem double_mark_solid {byte next : UInt8} {kind : Kind}
    (marked : doubleMark? byte next = some kind) : next ≠ lineFeed := by
  rintro rfl
  have broken : ∀ entry ∈ doubleMarks, entry.1.2 ≠ charOf lineFeed := by decide
  exact broken _ (mem_of_lookup marked) rfl

theorem mark_moves (seen : scanner.peek = some byte) (solid : byte ≠ lineFeed)
    (moved : markStep scanner tokens byte = .further next) :
    ∃ bytes, Moves ⟨scanner, .text, tokens⟩ next bytes := by
  unfold markStep at moved
  split at moved
  next kind double =>
    obtain ⟨other, behind, marked⟩ := Option.bind_eq_some_iff.1 double
    obtain ⟨ahead, passed⟩ := Scanner.passed_two seen behind solid (double_mark_solid marked)
    obtain ⟨rested, closed⟩ := close_further moved
    exact ⟨_, ahead, rested.trans passed, by simp, by simp [closed]⟩
  next =>
    split at moved
    next kind _ =>
      obtain ⟨rested, closed⟩ := close_further moved
      exact moves_one seen solid rested (by simp [closed])
    next => cases moved

theorem text_moves (moved : textStep scanner tokens = .further next) :
    ∃ bytes, Moves ⟨scanner, .text, tokens⟩ next bytes := by
  unfold textStep at moved
  split at moved
  next => cases moved
  next byte seen =>
    split_ifs at moved with quoted digit letter feed space brace
    · subst quoted
      obtain ⟨ahead, passed⟩ := Scanner.passed_one seen (by decide)
      cases moved
      exact ⟨_, ahead, passed, by simp, fun start opened => .inr ⟨by cases opened; rfl, rfl⟩⟩
    · cases moved
      exact moves_one seen (member_solid (by decide) digit) rfl (by simp)
    · cases moved
      exact moves_one seen (member_solid (by decide) letter) rfl (by simp)
    · cases moved
      exact moves_line_feed (feed ▸ seen) rfl (by simp)
    · cases moved
      exact moves_one seen feed rfl (by simp)
    · cases moved
      exact moves_one seen feed rfl (by simp)
    · exact mark_moves seen feed moved

theorem comment_moves {line : Nat} (moved : commentStep scanner tokens line = .further next) :
    ∃ bytes, Moves ⟨scanner, .comment line, tokens⟩ next bytes := by
  unfold commentStep at moved
  split at moved
  next => cases moved
  next byte seen =>
    split_ifs at moved with brace feed
    · cases moved
      exact moves_one seen (brace ▸ by decide) rfl (by simp)
    · cases moved
      exact moves_line_feed (feed ▸ seen) rfl (by simp)
    · cases moved
      exact moves_one seen feed rfl (by simp)

theorem run_moves {member : UInt8 → Bool} {kind : List UInt8 → Kind} {start : Nat}
    (run : inside.isRun = true) (apart : member lineFeed = false)
    (moved : runStep scanner inside tokens member kind start = .further next) :
    ∃ bytes, Moves ⟨scanner, inside, tokens⟩ next bytes := by
  unfold runStep at moved
  split_ifs at moved with among
  · obtain ⟨byte, seen, belongs⟩ := (Option.any_eq_true _ _).1 among
    cases moved
    refine moves_one seen (member_solid apart belongs) rfl fun start opened => ?_
    cases opened
    exact Bool.noConfusion run
  · obtain ⟨rested, closed⟩ := close_further moved
    exact ⟨[], List.nil_prefix, rested.trans (scanner.take_nil).symm, fun _ => ⟨run, closed⟩,
      by simp [closed]⟩

theorem string_moves {start : Nat} (moved : stringStep scanner tokens start = .further next) :
    ∃ bytes, Moves ⟨scanner, .string start, tokens⟩ next bytes := by
  unfold stringStep at moved
  split at moved
  next => cases moved
  next byte seen =>
    split_ifs at moved with quoted doubled feed tabbed
    · subst quoted
      obtain ⟨ahead, passed⟩ := Scanner.passed_two seen doubled (by decide) (by decide)
      cases moved
      exact ⟨_, ahead, passed, by simp, fun _ same => .inl ⟨same, by decide, by decide⟩⟩
    · obtain ⟨rested, closed⟩ := close_further moved
      exact moves_one seen (quoted ▸ by decide) rested (by simp [closed])
    · cases moved
    · cases moved
    · obtain ⟨ahead, passed⟩ := Scanner.passed_one seen feed
      cases moved
      refine ⟨_, ahead, passed, by simp, fun _ same => .inl ⟨same, ?_, ?_⟩⟩
      · simpa using Ne.symm feed
      · simpa using Ne.symm tabbed

/-- All that a step to a next state can do. -/
theorem step_moves : ∀ {state next : Scanning Line}, state.step = .further next →
    ∃ bytes, Moves state next bytes
  | ⟨_, .text, _⟩, _, moved => text_moves moved
  | ⟨_, .comment _, _⟩, _, moved => comment_moves moved
  | ⟨_, .number _, _⟩, _, moved => run_moves rfl (by decide) moved
  | ⟨_, .word _, _⟩, _, moved => run_moves rfl (by decide) moved
  | ⟨_, .string _, _⟩, _, moved => string_moves moved

/-- Where no step leads on because of a fault. -/
inductive Stuck (state : Scanning Line) : LexicalCause → Prop
  | comment (ended : state.scanner.peek = none) : Stuck state .openComment
  | string {start : Nat} (inside : state.inside = .string start)
      (ended : state.scanner.peek = none ∨ state.scanner.peek = some lineFeed) :
      Stuck state .openString
  | tab {start : Nat} (inside : state.inside = .string start)
      (met : state.scanner.peek = some Piece.tab) : Stuck state .tabInString
  | stray {byte : UInt8} (met : state.scanner.peek = some byte) : Stuck state (.strayByte byte)

/-- The bytes that were taken since `origin`. Where the scanner is in a string,
these end in the quote that opened it and what it has so far. -/
structure Since (origin : Scanner Line) (state : Scanning Line) (bytes : List UInt8) : Prop where
  ahead : bytes <+: origin.upcoming
  behind : state.scanner = origin.take bytes
  string : ∀ start, state.inside = .string start →
    ∃ before body, bytes = before ++ quote :: body ∧ lineFeed ∉ body ∧ tab ∉ body

theorem Since.move {origin : Scanner Line} {state next : Scanning Line} {bytes taken : List UInt8}
    (since : Since origin state bytes) (moves : Moves state next taken) :
    Since origin next (bytes ++ taken) := by
  obtain ⟨rest, whole⟩ := since.ahead
  obtain ⟨after, further⟩ := moves.ahead
  rw [since.behind, Scanner.upcoming_take whole.symm] at further
  refine ⟨⟨after, ?_⟩, ?_, fun start opened => ?_⟩
  · rw [List.append_assoc, further, whole]
  · rw [moves.behind, since.behind, Scanner.take_take]
  · rcases moves.string start opened with ⟨inside, no_feed, no_tab⟩ | ⟨_, rfl⟩
    · obtain ⟨before, body, rfl, solid, untabbed⟩ := since.string start inside
      refine ⟨before, body ++ taken, by simp, ?_, ?_⟩
      · simp [solid, no_feed]
      · simp [untabbed, no_tab]
    · exact ⟨bytes, [], rfl, List.not_mem_nil, List.not_mem_nil⟩

theorem Since.reach {origin : Scanner Line} {state later : Scanning Line} {bytes : List UInt8}
    (since : Since origin state bytes) (reached : Arrives step state later) :
    ∃ taken, Since origin later (bytes ++ taken) := by
  induction reached with
  | refl => exact ⟨[], by simpa using since⟩
  | tail _ moved ih =>
      obtain ⟨taken, held⟩ := ih
      obtain ⟨more, moves⟩ := step_moves moved
      exact ⟨taken ++ more, List.append_assoc .. ▸ held.move moves⟩

/-- Twice what is ahead, and one for a number or a word that has to be ended. -/
def remaining (state : Scanning Line) : Nat :=
  2 * state.scanner.upcoming.length + state.inside.isRun.toNat

end Scanning
end PascalCasl
