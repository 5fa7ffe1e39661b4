import PascalCasl.Proofs.Steps
import PascalCasl.Proofs.Token.Beginning
import PascalCasl.Token.Scanner

/-!
What a scan says about its source. The part it got through is the texts of the
tokens with gaps around them, each token is the longest lexeme at its place and
its line counts the line feeds before it. A scan that succeeds got through all
of the source; one that fails stands before a rest that no token begins.
-/

namespace PascalCasl

open Text

/-- A token and the gap before it. -/
structure Spaced where
  gap : List Char
  token : Token

def Spaced.chars (part : Spaced) : List Char := part.gap ++ part.token.text.toList

/-- A token between what stands before its gap and what stands after it, in a
text that begins on `line`. -/
structure Placed (line : Nat) (before : List Char) (part : Spaced) (after : List Char) : Prop where
  gap : Gap part.gap
  longest : Longest part.token.kind part.token.text.toList after
  line : part.token.line = line + (before ++ part.gap).count '\n'

/-- A text divided into tokens with their gaps, a last gap and a rest that is
not divided. -/
structure Divides (line : Nat) (source : List Char) (parts : List Spaced)
    (last rest : List Char) : Prop where
  whole : source = parts.flatMap Spaced.chars ++ last ++ rest
  last_gap : Gap last
  placed : ∀ before part after, parts = before ++ part :: after →
    Placed line (before.flatMap Spaced.chars) part (after.flatMap Spaced.chars ++ last ++ rest)

theorem Divides.gap_only (line : Nat) {gap : List Char} (only : Gap gap) (rest : List Char) :
    Divides line (gap ++ rest) [] gap rest where
  whole := rfl
  last_gap := only
  placed before part after split := by simp at split

theorem Divides.cons {line : Nat} {part : Spaced} {source last rest : List Char}
    {parts : List Spaced} (first : Placed line [] part source)
    (others : Divides (line + part.chars.count '\n') source parts last rest) :
    Divides line (part.chars ++ source) (part :: parts) last rest where
  whole := by
    rw [others.whole, List.flatMap_cons]
    simp only [List.append_assoc]
  last_gap := others.last_gap
  placed before other after split := by
    cases before with
    | nil =>
        cases split
        rw [← others.whole]
        exact first
    | cons head before =>
        cases split
        have placed := others.placed before other after rfl
        refine ⟨placed.gap, placed.longest, ?_⟩
        rw [placed.line, List.flatMap_cons]
        simp only [List.count_append]
        omega

theorem Divides.uncons {line : Nat} {part : Spaced} {source last rest : List Char}
    {parts : List Spaced} (divided : Divides line source (part :: parts) last rest) :
    ∃ after, source = part.chars ++ after ∧ Placed line [] part after ∧
      Divides (line + part.chars.count '\n') after parts last rest := by
  refine ⟨parts.flatMap Spaced.chars ++ last ++ rest, ?_, divided.placed [] part parts rfl, rfl,
    divided.last_gap, ?_⟩
  · rw [divided.whole, List.flatMap_cons]
    simp only [List.append_assoc]
  · rintro before other after rfl
    have placed := divided.placed (part :: before) other after rfl
    refine ⟨placed.gap, placed.longest, ?_⟩
    rw [placed.line, List.flatMap_cons]
    simp only [List.count_append]
    omega

theorem Placed.line_eq {line : Nat} {part : Spaced} {after : List Char}
    (placed : Placed line [] part after) : part.token.line = line + part.gap.count '\n' :=
  placed.line

theorem line_feeds_eq (chars : List Char) :
    (charBytes chars).count Piece.lineFeed = chars.count '\n' := by
  have same : ByteClass (· == Piece.lineFeed) (· == '\n') := char_class '\n' (by decide)
  exact same.count_eq chars

theorem all_step {first : UInt8} {rest taken after : List UInt8} {piece : Piece}
    (bytes : first :: rest = taken ++ after) (some_byte : taken ≠ [])
    (read : Piece.first first rest = piece) (has : piece.bytes = taken)
    (sound : piece.isFault = false) :
    Piece.all (first :: rest) = piece :: Piece.all after := by
  obtain ⟨head, tail, rfl⟩ := List.exists_cons_of_ne_nil some_byte
  cases bytes
  rw [Piece.all, read, has]
  simp [sound]

theorem length_after_lt {taken : List Char} (some_char : taken ≠ []) (after : List Char) :
    after.length < (taken ++ after).length := by
  have positive := List.length_pos_iff.2 some_char
  rw [List.length_append]
  omega

/-- A scan behind tokens and the bytes they took. -/
def Scan.behind (tokens : List Token) (taken : Nat) (scan : Scan Nat) : Scan Nat :=
  ⟨scan.outcome.map (tokens ++ ·), taken + scan.taken, scan.line⟩

@[simp] theorem Scan.behind_nothing (scan : Scan Nat) : scan.behind [] 0 = scan := by
  rcases scan with ⟨_ | tokens, taken, line⟩ <;> simp [Scan.behind, Except.map]

@[simp] theorem Scan.behind_no_token (scan : Scan Nat) (taken : Nat) :
    (scan.behind [] taken).outcome = scan.outcome := by
  rcases scan with ⟨_ | tokens, bytes, line⟩ <;> rfl

@[simp] theorem Scan.behind_behind (scan : Scan Nat) (first second : List Token) (taken more : Nat) :
    (scan.behind second more).behind first taken =
      scan.behind (first ++ second) (taken + more) := by
  rcases scan with ⟨_ | tokens, bytes, line⟩ <;> simp [Scan.behind, Except.map, Nat.add_assoc]

def Scan.ofChars (line : Nat) (chars : List Char) : Scan Nat :=
  Scan.ofPieces line (Piece.all (charBytes chars))

theorem scan_nothing (line : Nat) :
    Scan.ofChars line [] = ⟨.ok [Token.endOfInput line], 0, line⟩ := by
  rw [Scan.ofChars, char_bytes_nil, Piece.all]
  rfl

theorem all_taken {taken after : List Char} {piece : Piece} (some_char : taken ≠ [])
    (read : ∀ first rest, charBytes (taken ++ after) = first :: rest →
      Piece.first first rest = piece)
    (has : piece.bytes = charBytes taken) (sound : piece.isFault = false) :
    Piece.all (charBytes (taken ++ after)) = piece :: Piece.all (charBytes after) := by
  obtain ⟨first, rest, bytes⟩ := List.exists_cons_of_ne_nil
    (char_bytes_ne_nil (List.append_ne_nil_of_left_ne_nil some_char after))
  rw [bytes]
  refine all_step ?_ (char_bytes_ne_nil some_char) (read first rest bytes) has sound
  rw [← bytes, char_bytes_append]

theorem scan_gap (line : Nat) (bytes : List UInt8) (pieces : List Piece) :
    Scan.ofPieces line (.gap bytes :: pieces) =
      (Scan.ofPieces (line + bytes.count Piece.lineFeed) pieces).behind [] bytes.length := by
  have kept := Scan.behind_no_token (Scan.ofPieces (line + bytes.count Piece.lineFeed) pieces) 0
  simp only [Scan.behind] at kept ⊢
  rw [kept]
  rfl

theorem gap_taken {taken : List Char} (some_char : taken ≠ []) (after : List Char) (line : Nat)
    (read : ∀ first rest, charBytes (taken ++ after) = first :: rest →
      Piece.first first rest = .gap (charBytes taken)) :
    Scan.ofChars line (taken ++ after) =
      (Scan.ofChars (line + taken.count '\n') after).behind [] (charBytes taken).length := by
  rw [Scan.ofChars, all_taken some_char read rfl rfl, scan_gap, line_feeds_eq]
  rfl

theorem gap_scanned {gap : List Char} (found : Gap gap) (line : Nat) (chars : List Char) :
    Scan.ofChars line (gap ++ chars) =
      (Scan.ofChars (line + gap.count '\n') chars).behind [] (charBytes gap).length := by
  -- blanks and comments differ in what they take, not in how the gap goes on
  have further {taken rest : List Char} (line : Nat)
      (step : Scan.ofChars line (taken ++ (rest ++ chars)) =
        (Scan.ofChars (line + taken.count '\n') (rest ++ chars)).behind [] (charBytes taken).length)
      (more : ∀ line, Scan.ofChars line (rest ++ chars) =
        (Scan.ofChars (line + rest.count '\n') chars).behind [] (charBytes rest).length) :
      Scan.ofChars line (taken ++ rest ++ chars) =
        (Scan.ofChars (line + (taken ++ rest).count '\n') chars).behind []
          (charBytes (taken ++ rest)).length := by
    rw [List.append_assoc, step, more, Scan.behind_behind, char_bytes_append, List.length_append,
      List.count_append, Nat.add_assoc]
    rfl
  induction found generalizing line with
  | empty => simp
  | blank c rest space more ih =>
      have narrow : c.toNat < 128 := (Gap.blank c rest space more).head_narrow
      refine further line (gap_taken (List.cons_ne_nil c []) _ line ?_) ih
      intro first tail bytes
      rw [List.singleton_append, char_bytes_narrow c _ narrow] at bytes
      cases bytes
      rw [blank_first space, char_bytes_narrow c [] narrow, char_bytes_nil]
  | comment inside rest closing more ih =>
      have split : '{' :: (inside ++ '}' :: rest) = ('{' :: (inside ++ ['}'])) ++ rest := by simp
      rw [split]
      refine further line (gap_taken (List.cons_ne_nil '{' _) _ line ?_) ih
      intro first tail bytes
      rw [List.cons_append, List.append_assoc, char_bytes_narrow _ _ (by decide)] at bytes
      cases bytes
      exact comment_first closing _

theorem part_scanned {line : Nat} {part : Spaced} {after : List Char}
    (placed : Placed line [] part after) :
    Scan.ofChars line (part.chars ++ after) =
      (Scan.ofChars (line + part.chars.count '\n') after).behind [part.token]
        (charBytes part.chars).length := by
  have longest := placed.longest
  have read : Piece.all (charBytes (part.token.text.toList ++ after)) =
      .lexeme part.token.kind (charBytes part.token.text.toList) :: Piece.all (charBytes after) :=
    all_taken longest.lexeme.ne_nil (fun _ _ => lexeme_first longest) rfl rfl
  have lexeme : Scan.ofChars part.token.line (part.token.text.toList ++ after) =
      (Scan.ofChars (part.token.line + part.token.text.toList.count '\n') after).behind [part.token]
        (charBytes part.token.text.toList).length := by
    rw [Scan.ofChars, read, ← line_feeds_eq]
    simp only [Scan.ofPieces, decode_eq, String.ofList_toList]
    rfl
  rw [Spaced.chars, List.append_assoc, gap_scanned placed.gap, ← placed.line_eq, lexeme,
    Scan.behind_behind, placed.line_eq, char_bytes_append, List.length_append, List.count_append,
    Nat.add_assoc]
  rfl

theorem divided_scanned {line : Nat} {source : List Char} {parts : List Spaced}
    {last rest : List Char} (divided : Divides line source parts last rest) :
    Scan.ofChars line source =
      (Scan.ofChars (line + (parts.flatMap Spaced.chars ++ last).count '\n') rest).behind
        (parts.map Spaced.token) (charBytes (parts.flatMap Spaced.chars ++ last)).length := by
  induction parts generalizing line source with
  | nil =>
      rw [divided.whole]
      exact gap_scanned divided.last_gap line rest
  | cons part parts ih =>
      obtain ⟨after, rfl, placed, others⟩ := divided.uncons
      rw [part_scanned placed, ih others, Scan.behind_behind, List.flatMap_cons, List.append_assoc,
        char_bytes_append part.chars, List.length_append]
      simp only [List.count_append, List.map_cons, List.singleton_append, Nat.add_assoc]

theorem stuck_scanned {message : String} {rest : List Char} (stuck : Stuck message rest)
    (line : Nat) :
    ∃ cause, cause.message = message ∧
      (Scan.ofChars line rest).outcome = .error (.lexical cause line) := by
  have some_char : rest ≠ [] := by
    rintro rfl
    generalize empty : [] = chars at stuck
    cases stuck with
    | strayByte _ _ _ leads => subst empty; cases leads
    | _ => cases empty
  obtain ⟨first, tail, bytes⟩ := List.exists_cons_of_ne_nil (char_bytes_ne_nil some_char)
  obtain ⟨cause, taken, read, spelled⟩ := stuck_first stuck bytes
  refine ⟨cause, spelled, ?_⟩
  rw [Scan.ofChars, bytes, Piece.all, read]
  rfl

/-- Every text is divided until nothing is left or nothing can be taken off. The
induction carries the gap met so far: a gap is met piece by piece. -/
theorem division_exists (chars gap : List Char) (line : Nat) (before : Gap gap) :
    ∃ parts last rest, Divides line (gap ++ chars) parts last rest ∧
      (rest = [] ∨ ∃ message, Stuck message rest) := by
  induction sized : chars.length using Nat.strong_induction_on generalizing chars gap line with
  | _ size ih =>
  cases chars with
  | nil => exact ⟨[], gap, [], .gap_only line before [], .inl rfl⟩
  | cons c chars =>
      rcases begins c chars with ⟨taken, after, split, found, some_char⟩ |
        ⟨kind, taken, after, split, longest⟩ | stuck
      · have shorter : after.length < size := by
          rw [← sized, split]
          exact length_after_lt some_char after
        -- no token yet: the gap has grown, and the line it begins on stays
        have divided := ih _ shorter after (gap ++ taken) line (before.append found) rfl
        rwa [List.append_assoc, ← split] at divided
      · have shorter : after.length < size := by
          rw [← sized, split]
          exact length_after_lt longest.lexeme.ne_nil after
        let part : Spaced := ⟨gap, ⟨String.ofList taken, kind, line + gap.count '\n'⟩⟩
        have spelled : part.chars = gap ++ taken := by rw [Spaced.chars, String.toList_ofList]
        -- a token ends the gap, and what follows begins with an empty one on the new line
        obtain ⟨parts, last, rest, divided, ending⟩ :=
          ih _ shorter after [] (line + part.chars.count '\n') .empty rfl
        refine ⟨part :: parts, last, rest, ?_, ending⟩
        rw [split, ← List.append_assoc, ← spelled]
        exact .cons ⟨before, String.toList_ofList.symm ▸ longest, rfl⟩ divided
      · exact ⟨[], gap, c :: chars, .gap_only line before _, .inr stuck⟩

theorem divides_of_scan (chars gap : List Char) (line : Nat) (tokens : List Token)
    (before : Gap gap)
    (scanned : (Scan.ofPieces (line + gap.count '\n') (Piece.all (charBytes chars))).outcome =
      .ok tokens) :
    ∃ parts last, Divides line (gap ++ chars) parts last [] ∧
      tokens = parts.map Spaced.token ++
        [Token.endOfInput (line + (gap ++ chars).count '\n')] := by
  obtain ⟨parts, last, rest, divided, ending⟩ := division_exists chars gap line before
  have whole : (Scan.ofChars line (gap ++ chars)).outcome = .ok tokens := by
    rw [gap_scanned before, Scan.behind_no_token]
    exact scanned
  rw [divided_scanned divided] at whole
  obtain ⟨others, rest_scanned, rfl⟩ := except_map_ok.1 whole
  rcases ending with rfl | ⟨message, stuck⟩
  · rw [scan_nothing] at rest_scanned
    cases rest_scanned
    refine ⟨parts, last, divided, ?_⟩
    have taken := divided.whole
    rw [List.append_nil] at taken
    rw [← taken]
  · -- where the division is stuck the scan fails
    obtain ⟨cause, _, failed⟩ := stuck_scanned stuck
      (line + (parts.flatMap Spaced.chars ++ last).count '\n')
    rw [failed] at rest_scanned
    cases rest_scanned

theorem divides_of_fault {chars : List Char} {line : Nat} {fault : Fault}
    (failed : (Scan.ofChars line chars).outcome = .error fault) :
    ∃ parts last rest cause, Divides line chars parts last rest ∧ Stuck cause.message rest ∧
      fault = .lexical cause (line + (parts.flatMap Spaced.chars ++ last).count '\n') := by
  obtain ⟨parts, last, rest, divided, ending⟩ := division_exists chars [] line .empty
  rw [List.nil_append] at divided
  rw [divided_scanned divided] at failed
  replace failed := except_map_error.1 failed
  rcases ending with rfl | ⟨message, stuck⟩
  · rw [scan_nothing] at failed
    cases failed
  · obtain ⟨cause, rfl, stopped⟩ := stuck_scanned stuck
      (line + (parts.flatMap Spaced.chars ++ last).count '\n')
    rw [stopped] at failed
    cases failed
    exact ⟨parts, last, rest, cause, divided, stuck, rfl⟩

theorem scan_fault_line (chars : List Char) (line : Nat) (fault : Fault)
    (failed : (Scan.ofPieces line (Piece.all (charBytes chars))).outcome = .error fault) :
    ∃ cause feeds, feeds ≤ chars.count '\n' ∧ fault = .lexical cause (line + feeds) := by
  obtain ⟨parts, last, rest, cause, divided, _, rfl⟩ := divides_of_fault failed
  refine ⟨cause, _, ?_, rfl⟩
  have counted := congrArg (List.count '\n') divided.whole
  rw [List.count_append] at counted
  omega

theorem scan_eq (source : String) :
    Token.scan source = (Scan.ofPieces 1 (Piece.all (charBytes source.toList))).outcome := by
  rw [← encode_eq]
  rfl

/-- The tokens of a source are lexemes on lines of the source, with one mark
behind them. -/
theorem scan_named {source : String} {tokens : List Token}
    (scanned : Token.scan source = .ok tokens) :
    ∃ named, tokens = named ++ [Token.endOfInput (1 + source.toList.count '\n')] ∧
      ∀ token ∈ named, Lexeme token.kind token.text.toList ∧ 1 ≤ token.line ∧
        token.line ≤ 1 + source.toList.count '\n' := by
  rw [scan_eq] at scanned
  obtain ⟨parts, last, divided, counted⟩ := divides_of_scan source.toList [] 1 tokens .empty scanned
  refine ⟨parts.map Spaced.token, counted, ?_⟩
  intro token among
  obtain ⟨part, member, rfl⟩ := List.mem_map.1 among
  obtain ⟨before, after, split⟩ := List.append_of_mem member
  have placed := divided.placed before part after split
  -- the line feeds before a token are among those of the source
  have whole := congrArg (List.count '\n') divided.whole
  rw [split, List.flatMap_append, List.flatMap_cons, Spaced.chars] at whole
  simp only [List.nil_append, List.count_append] at whole
  rw [placed.line, List.count_append]
  exact ⟨placed.longest.lexeme, by omega, by omega⟩

/-- A scan that succeeds gives the tokens of its source and nothing else: their
texts with gaps around them are the source, each of them is the longest lexeme
at its place, stands on the line it says and has the one kind of its text. -/
theorem scan_exact (source : String) (tokens : List Token)
    (scanned : Token.scan source = .ok tokens) :
    ∃ parts last,
      tokens = parts.map Spaced.token ++ [Token.endOfInput (1 + source.toList.count '\n')] ∧
      Divides 1 source.toList parts last [] ∧
      ∀ part ∈ parts, ∀ kind,
        Lexeme kind part.token.text.toList ↔ part.token.kind = kind := by
  rw [scan_eq] at scanned
  obtain ⟨parts, last, divided, counted⟩ := divides_of_scan source.toList [] 1 tokens .empty scanned
  refine ⟨parts, last, counted, divided, ?_⟩
  intro part among kind
  obtain ⟨before, after, split⟩ := List.append_of_mem among
  have lexeme := (divided.placed before part after split).longest.lexeme
  refine ⟨lexeme.kind_unique, ?_⟩
  rintro rfl
  exact lexeme

def unevenSource : String := "a:='é'''\x7b;\n\x7d/10"

/-- A wide character and a doubled quote in a string, a line feed in a comment,
and no blanks between the tokens. -/
theorem uneven_source_divided :
    Token.scan unevenSource =
      .ok [⟨"a", .identifier, 1⟩, ⟨":=", .assign, 1⟩, ⟨"'é'''", .string, 1⟩, ⟨"/", .divWord, 2⟩,
        ⟨"10", .constant, 2⟩, Token.endOfInput 2] ∧
    ∃ parts last, Divides 1 unevenSource.toList parts last [] := by
  have scanned : Token.scan unevenSource =
      .ok [⟨"a", .identifier, 1⟩, ⟨":=", .assign, 1⟩, ⟨"'é'''", .string, 1⟩, ⟨"/", .divWord, 2⟩,
        ⟨"10", .constant, 2⟩, Token.endOfInput 2] := by decide +kernel
  obtain ⟨parts, last, _, divided, _⟩ := scan_exact unevenSource _ scanned
  exact ⟨scanned, parts, last, divided⟩

end PascalCasl
