import PascalCasl.Token.Piece

/-!
Scanning: the tokens of a source text with their lines. A scanner stands at a
byte and a line of its source; scanning goes on from there, and a fault leaves
the scanner where reading stopped.

Lines are counted without bound for a source that is scanned at once. A scanner
that is moved by hand may be set to any line of 64 bits, behind the last of
which the count begins again from zero.
-/

namespace PascalCasl

class LineCount (Line : Type) where
  down : Line → Nat → Line
  number : Line → Nat
  down_zero : ∀ line, down line 0 = line
  down_down : ∀ line first second, down (down line first) second = down line (first + second)

instance : LineCount Nat where
  down := Nat.add
  number := id
  down_zero := Nat.add_zero
  down_down := Nat.add_assoc

theorem wrapped_down (line : UInt64) (first second : Nat) :
    line + UInt64.ofNat first + UInt64.ofNat second = line + UInt64.ofNat (first + second) := by
  rw [UInt64.ofNat_add, UInt64.add_assoc]

instance : LineCount UInt64 where
  down line lines := line + UInt64.ofNat lines
  number := UInt64.toNat
  down_zero := UInt64.add_zero
  down_down := wrapped_down

/-- What scanning some pieces gives, the bytes it took and the line it reached. -/
structure Scan (Line : Type) where
  outcome : Except Fault (List Token)
  taken : Nat
  line : Line

section

variable {Line : Type} [LineCount Line]

/-- A token has the line of its first byte, and so has a fault. -/
def Scan.ofPieces (line : Line) : List Piece → Scan Line
  | [] => ⟨.ok [Token.endOfInput (LineCount.number line)], 0, line⟩
  | piece :: pieces =>
      let after := ofPieces (LineCount.down line piece.lineFeeds) pieces
      let taken := piece.bytes.length + after.taken
      match piece with
      | .gap _ => ⟨after.outcome, taken, after.line⟩
      | .lexeme kind bytes =>
          ⟨after.outcome.map (⟨Text.decode bytes, kind, LineCount.number line⟩ :: ·), taken,
            after.line⟩
      | .fault cause bytes =>
          ⟨.error (.lexical cause (LineCount.number line)), bytes.length,
            LineCount.down line piece.lineFeeds⟩

structure Scanner (Line : Type) where
  source : List UInt8
  index : Nat
  line : Line

namespace Scanner

/-- The bytes still to be read. A scanner beyond its source has none. -/
def upcoming (scanner : Scanner Line) : List UInt8 := scanner.source.drop scanner.index

def scan (scanner : Scanner Line) : Except Fault (List Token) × Scanner Line :=
  let scan := Scan.ofPieces scanner.line (Piece.all scanner.upcoming)
  (scan.outcome, { scanner with index := scanner.index + scan.taken, line := scan.line })

end Scanner
end

def Scanner.ofSource (source : String) : Scanner Nat := ⟨Text.encode source, 0, 1⟩

/-- The tokens of a source text, ended by the mark for its end. -/
def Token.scan (source : String) : Except Fault (List Token) :=
  (Scanner.ofSource source).scan.1

end PascalCasl
