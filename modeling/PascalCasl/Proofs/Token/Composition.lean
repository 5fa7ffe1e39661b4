import PascalCasl.Proofs.Token.Scanning

/-!
Scanning a text in two steps. A line feed stands in no lexeme, so the pieces of a
text that can be scanned are the same with a line feed and anything else behind
it; what comes behind is scanned as a text of its own, on lines further down.
-/

namespace PascalCasl

open Text

theorem Maximal.before_feed {text after : List Char} (maximal : Maximal text after)
    (more : List Char) : Maximal text (after ++ '\n' :: more) := by
  rintro longer kind ⟨rest, split⟩ lexeme
  rcases List.append_eq_append_iff.1 split with ⟨between, same, _⟩ | ⟨between, same, tail⟩
  · exact maximal longer kind ⟨between, same.symm⟩ lexeme
  · cases between with
    | nil =>
        rw [List.append_nil] at same
        exact maximal longer kind (same ▸ List.prefix_rfl) lexeme
    | cons c between =>
        -- a longer lexeme would take in the line feed
        cases tail
        exact absurd (by simp [same]) lexeme.solid.2

theorem Longest.before_feed {kind : Kind} {text after : List Char}
    (longest : Longest kind text after) (more : List Char) :
    Longest kind text (after ++ '\n' :: more) where
  lexeme := longest.lexeme
  maximal := longest.maximal.before_feed more
  closed string := by
    cases after with
    | nil => simp
    | cons c after => exact longest.closed string

theorem Divides.before_feed {line : Nat} {source : List Char} {parts : List Spaced}
    {last : List Char} (divided : Divides line source parts last []) (more : List Char) :
    Divides line (source ++ '\n' :: more) parts (last ++ ['\n']) more where
  whole := by simp [divided.whole]
  last_gap := divided.last_gap.append (.blank '\n' [] (by decide) .empty)
  placed before part after split := by
    have placed := divided.placed before part after split
    exact ⟨placed.gap, by simpa using placed.longest.before_feed more, placed.line⟩

def Token.down (lines : Nat) (token : Token) : Token := { token with line := token.line + lines }

/-- A fault keeps its cause. A bad record is on no line of a source. -/
def Fault.down (lines : Nat) : Fault → Fault
  | .lexical cause line => .lexical cause (line + lines)
  | .syntactic line => .syntactic (line + lines)
  | .semantic line => .semantic (line + lines)
  | .badRecord number => .badRecord number

def lowered (lines : Nat) : Except Fault (List Token) → Except Fault (List Token)
  | .ok tokens => .ok (tokens.map (Token.down lines))
  | .error fault => .error (fault.down lines)

theorem scan_down (line lines : Nat) (pieces : List Piece) :
    (Scan.ofPieces (line + lines) pieces).outcome =
      lowered lines (Scan.ofPieces line pieces).outcome := by
  induction pieces generalizing line with
  | nil => rfl
  | cons piece pieces ih =>
      have further : LineCount.down line piece.lineFeeds + lines =
          LineCount.down (line + lines) piece.lineFeeds := Nat.add_right_comm ..
      have below := ih (LineCount.down line piece.lineFeeds)
      rw [further] at below
      cases piece with
      | gap bytes => exact below
      | lexeme kind bytes =>
          simp only [Scan.ofPieces, below]
          cases (Scan.ofPieces (LineCount.down line (Piece.lexeme kind bytes).lineFeeds)
            pieces).outcome <;> rfl
      | fault cause bytes => rfl

/-- More text behind the source of a scanner. -/
def Scanner.extend (scanner : Scanner Nat) (more : String) : Scanner Nat :=
  { scanner with source := scanner.source ++ Text.encode more }

section

variable {first : String} {tokens : List Token} {line : Nat}

theorem divides_of_tokens (scanned : Token.scan first = .ok (tokens ++ [Token.endOfInput line])) :
    ∃ parts last, Divides 1 first.toList parts last [] ∧ tokens = parts.map Spaced.token ∧
      line = 1 + (parts.flatMap Spaced.chars ++ last).count '\n' := by
  rw [scan_eq] at scanned
  obtain ⟨parts, last, divided, counted⟩ := divides_of_scan first.toList [] 1 _ .empty scanned
  obtain ⟨rfl, mark⟩ := List.append_inj' counted rfl
  cases mark
  refine ⟨parts, last, divided, rfl, ?_⟩
  rw [← List.append_nil (parts.flatMap Spaced.chars ++ last), ← divided.whole, List.nil_append]

theorem scan_to_end (scanned : Token.scan first = .ok (tokens ++ [Token.endOfInput line])) :
    (Scanner.ofSource first).scan =
      (.ok (tokens ++ [Token.endOfInput line]), ⟨encode first, (encode first).length, line⟩) := by
  obtain ⟨parts, last, divided, rfl, rfl⟩ := divides_of_tokens scanned
  have ended := divided_scanned divided
  rw [scan_nothing, ← List.append_nil (parts.flatMap Spaced.chars ++ last), ← divided.whole]
    at ended
  simp only [Scanner.scan, Scanner.ofSource, Scanner.upcoming, List.drop_zero, encode_eq]
  rw [← Scan.ofChars, ended, divided.whole, List.append_nil]
  simp [Scan.behind, Except.map]

theorem scan_over_feed (scanned : Token.scan first = .ok (tokens ++ [Token.endOfInput line]))
    (second : String) :
    Token.scan (first ++ "\n" ++ second) =
      (Scan.ofChars (line + 1) second.toList).outcome.map (tokens ++ ·) := by
  obtain ⟨parts, last, divided, rfl, rfl⟩ := divides_of_tokens scanned
  have whole : (first ++ "\n" ++ second).toList = first.toList ++ '\n' :: second.toList := by simp
  have longer := divided_scanned (divided.before_feed second.toList)
  rw [scan_eq, whole, ← Scan.ofChars, longer, Scan.behind, ← List.append_assoc, List.count_append]
  rfl

theorem resumed_over_feed (scanned : Token.scan first = .ok (tokens ++ [Token.endOfInput line]))
    (second : String) :
    ((Scanner.ofSource first).scan.2.extend ("\n" ++ second)).scan.1 =
      (Scan.ofChars (line + 1) second.toList).outcome := by
  have feed : Gap ['\n'] := .blank '\n' [] (by decide) .empty
  have whole : ("\n" ++ second).toList = ['\n'] ++ second.toList := by simp
  rw [scan_to_end scanned]
  simp only [Scanner.scan, Scanner.extend, Scanner.upcoming, List.drop_left, encode_eq, whole]
  rw [← Scan.ofChars, gap_scanned feed, Scan.behind_no_token]
  rfl

end

/-- The second of two texts with a line feed between them is scanned as if it
stood alone, on lines further down, whether it has tokens or a fault. One scanner
that gets the second text after it has scanned the first gives the same. -/
theorem scan_composes (first second : String) (tokens : List Token) (line : Nat)
    (scanned : Token.scan first = .ok (tokens ++ [Token.endOfInput line])) :
    (∀ others, Token.scan second = .ok others →
      Token.scan (first ++ "\n" ++ second) = .ok (tokens ++ others.map (Token.down line))) ∧
    (∀ fault, Token.scan second = .error fault →
      Token.scan (first ++ "\n" ++ second) = .error (fault.down line)) ∧
    (Scanner.ofSource first).scan.1 = .ok (tokens ++ [Token.endOfInput line]) ∧
    Token.scan (first ++ "\n" ++ second) =
      ((Scanner.ofSource first).scan.2.extend ("\n" ++ second)).scan.1.map (tokens ++ ·) := by
  have behind := scan_over_feed scanned second
  have moved :
      (Scan.ofChars (line + 1) second.toList).outcome = lowered line (Token.scan second) := by
    rw [scan_eq, Nat.add_comm]
    exact scan_down 1 line _
  refine ⟨?_, ?_, scanned, ?_⟩
  · intro others alone
    rw [behind, moved, alone]
    rfl
  · intro fault alone
    rw [behind, moved, alone]
    rfl
  · rw [behind, resumed_over_feed scanned]

/-- A mark at the end of a line and a mark on the next do not become one, and a
quote does not become part of the string before it. -/
theorem split_marks_compose :
    Token.scan "x<'a'" = .ok ([⟨"x", .identifier, 1⟩, ⟨"<", .less, 1⟩, ⟨"'a'", .string, 1⟩] ++
      [Token.endOfInput 1]) ∧
    Token.scan "='b'\n'" = .error (.lexical .openString 2) ∧
    Token.scan ("x<'a'" ++ "\n" ++ "='b'\n'") = .error (.lexical .openString 3) := by
  have scanned : Token.scan "x<'a'" =
      .ok ([⟨"x", .identifier, 1⟩, ⟨"<", .less, 1⟩, ⟨"'a'", .string, 1⟩] ++
        [Token.endOfInput 1]) := by decide +kernel
  have failed : Token.scan "='b'\n'" = .error (.lexical .openString 2) := by decide +kernel
  exact ⟨scanned, failed, (scan_composes _ _ _ _ scanned).2.1 _ failed⟩

end PascalCasl
