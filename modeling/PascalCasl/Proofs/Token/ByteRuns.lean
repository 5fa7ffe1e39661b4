import PascalCasl.Proofs.Token.ByteSteps

/-!
Runs of the machine that scans byte by byte. It reads each piece as the
division of the source has it, so it ends as the scan does, and what its steps
keep is true of every scan from every place.
-/

namespace PascalCasl

open Piece

namespace Scanning

variable {Line : Type} [LineCount Line] {scanner : Scanner Line} {inside : Inside}
  {tokens : List Token} {byte : UInt8}

/-- A string up to the place where it is closed or cannot go on. -/
structure StringRead (start : Nat) (tokens : List Token) (scanner : Scanner Line)
    (rest body : List UInt8) : Prop where
  ran : Arrives step ⟨scanner, .string start, tokens⟩ ⟨scanner.take body, .string start, tokens⟩
  solid : lineFeed ∉ body
  ended :
    (string rest = (none, body ++ [quote]) ∧ body ++ [quote] <+: rest ∧
      stringStep (scanner.take body) tokens start =
        close tokens (fun _ => .string) start (scanner.take (body ++ [quote]))) ∨
    ∃ cause, string rest = (some cause, body) ∧ body <+: rest ∧
      stringStep (scanner.take body) tokens start = fail cause (LineCount.number scanner.line)

theorem StringRead.behind {start : Nat} {bytes rest body : List UInt8}
    (read : StringRead start tokens (scanner.take bytes) rest body)
    (moved : stringStep scanner tokens start =
      .further ⟨scanner.take bytes, .string start, tokens⟩)
    (solid : lineFeed ∉ bytes)
    (same : string (bytes ++ rest) = ((string rest).1, bytes ++ (string rest).2)) :
    StringRead start tokens scanner (bytes ++ rest) (bytes ++ body) := by
  have ran := read.ran
  have ended := read.ended
  rw [Scanner.take_take] at ran
  rw [Scanner.take_take, Scanner.take_take, Scanner.line_solid solid] at ended
  refine ⟨(Arrives.of_further moved).trans ran, by simp [solid, read.solid], ?_⟩
  rcases ended with ⟨read, ahead, closes⟩ | ⟨cause, read, ahead, fails⟩
  · rw [List.append_assoc, same, read]
    exact .inl ⟨rfl, (List.prefix_append_right_inj bytes).2 ahead, closes⟩
  · rw [same, read]
    exact .inr ⟨cause, rfl, (List.prefix_append_right_inj bytes).2 ahead, fails⟩

/-- The machine takes a piece from the text and keeps its token, or it stops
where the piece has its fault. -/
def Reads (scanner : Scanner Line) (tokens : List Token) : Piece → Prop
  | .gap bytes =>
      Arrives step ⟨scanner, .text, tokens⟩ ⟨scanner.take bytes, .text, tokens⟩
  | .lexeme kind bytes =>
      Arrives step ⟨scanner, .text, tokens⟩ ⟨scanner.take bytes, .text,
        tokens ++ [⟨Text.decode bytes, kind, LineCount.number scanner.line⟩]⟩
  | .fault cause bytes =>
      ∃ last, Arrives step ⟨scanner, .text, tokens⟩ last ∧
        last.scanner = scanner.take bytes ∧ last.step = fail cause (LineCount.number scanner.line)

end Scanning

namespace Scanner

variable {Line : Type} [LineCount Line] {scanner : Scanner Line} {bytes rest : List UInt8}
  {byte : UInt8}

end Scanner
namespace Scanning

variable {Line : Type} [LineCount Line]

end Scanning

namespace Scanner

variable {Line : Type}

/-- The bytes from one place of a source to a later one. -/
def between (origin final : Scanner Line) : List UInt8 :=
  (final.source.take final.index).drop origin.index

theorem between_take [LineCount Line] {scanner : Scanner Line} {bytes : List UInt8}
    (ahead : bytes <+: scanner.upcoming) :
    scanner.between (scanner.take bytes) = bytes := by
  rw [between, take, List.drop_take, Nat.add_sub_cancel_left]
  exact (List.prefix_iff_eq_take.1 ahead).symm

end Scanner

namespace Scanning

variable {Line : Type} [LineCount Line] {origin : Scanner Line} {state : Scanning Line}
  {bytes : List UInt8}

theorem Since.between_eq (since : Since origin state bytes) :
    origin.between state.scanner = bytes := by
  rw [since.behind, Scanner.between_take since.ahead]

theorem Since.line_eq (since : Since origin state bytes) :
    state.scanner.line =
      LineCount.down origin.line ((origin.between state.scanner).count lineFeed) := by
  rw [since.between_eq, since.behind]
  rfl

end Scanning

namespace Scanner

/-- The same scanner with a line that is counted without bound. -/
def counted (scanner : Scanner UInt64) : Scanner Nat :=
  ⟨scanner.source, scanner.index, scanner.line.toNat⟩

variable {scanner : Scanner UInt64} {bytes : List UInt8}

end Scanner

namespace Scanning

/-- A name, a comment over a line feed, a string that is broken by a tab, and a
byte that is in no text. -/
def tabbed : List UInt8 := [97, 123, 10, 125, 39, 98, 9, 255]

end Scanning
end PascalCasl
