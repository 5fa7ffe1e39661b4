import PascalCasl.Proofs.Text.Decimal
import PascalCasl.Proofs.Text.Lines
import PascalCasl.Proofs.Token.Scanning
import PascalCasl.Token.Stream

/-!
Token streams written and read back. A token whose text has no tab and no line
feed survives in its record, so reading what was written gives all tokens but
the marks of the end; tokens that were scanned or read are of this kind.
-/

namespace PascalCasl

open Text

/-- A token that fits into a record: its text stays within one column and its
line is a 64-bit number. -/
structure Storable (token : Token) : Prop where
  no_tab : '\t' ∉ token.text.toList
  no_feed : '\n' ∉ token.text.toList
  line : token.line < wordCount

instance (token : Token) : Decidable (Storable token) :=
  decidable_of_iff ('\t' ∉ token.text.toList ∧ '\n' ∉ token.text.toList ∧ token.line < wordCount)
    ⟨fun ⟨no_tab, no_feed, line⟩ => ⟨no_tab, no_feed, line⟩,
      fun ⟨no_tab, no_feed, line⟩ => ⟨no_tab, no_feed, line⟩⟩

theorem storable_end {line : Nat} (word : line < wordCount) : Storable (Token.endOfInput line) :=
  ⟨List.not_mem_nil, List.not_mem_nil, word⟩

/-- The line of the last token, or `line` where there is none. -/
def lastLine (line : Nat) (tokens : List Token) : Nat :=
  (tokens.getLast?.map Token.line).getD line

theorem last_line_cons (line : Nat) (token : Token) (tokens : List Token) :
    lastLine line (token :: tokens) = lastLine token.line tokens := by
  cases tokens with
  | nil => rfl
  | cons next tokens =>
      rw [lastLine, lastLine, List.getLast?_cons_cons,
        List.getLast?_eq_some_getLast (List.cons_ne_nil next tokens)]
      rfl

theorem last_line_lt {line : Nat} {tokens : List Token} (word : line < wordCount)
    (storable : ∀ token ∈ tokens, Storable token) : lastLine line tokens < wordCount := by
  induction tokens generalizing line with
  | nil => exact word
  | cons token tokens ih =>
      rw [last_line_cons]
      exact ih (storable token List.mem_cons_self).line
        fun other among => storable other (List.mem_cons_of_mem token among)

def written (tokens : List Token) : List Token := tokens.filter fun token => !token.isEnd

theorem written_named {named : List Token} (line : Nat)
    (open_ended : ∀ token ∈ named, token.kind ≠ .endOfInput) :
    written (named ++ [Token.endOfInput line]) = named := by
  have kept : named.filter (fun token => !token.isEnd) = named := by
    rw [List.filter_eq_self]
    intro token among
    simpa [Token.isEnd] using open_ended token among
  rw [written, List.filter_append, kept]
  exact List.append_nil named

namespace Stream

theorem kind_named {kind : Kind} (named : kind ≠ .endOfInput) :
    kind.number?.isSome ∧ Kind.ofName? kind.name = some kind ∧ '\t' ∉ kind.name.toList ∧
      '\n' ∉ kind.name.toList ∧ 'S' ∈ kind.name.toList := by
  revert named
  cases kind <;> decide

theorem named_kind {name : String} {kind : Kind} (found : Kind.ofName? name = some kind) :
    kind ≠ .endOfInput := by
  have listed : ∀ entry ∈ Kind.table, entry.1 ≠ .endOfInput := by decide
  obtain ⟨entry, first, rfl⟩ := Option.map_eq_some_iff.1 found
  exact listed entry (List.mem_of_find?_eq_some first)

def recordLine (token : Token) (number : Nat) : List Char :=
  token.text.toList ++ '\t' :: (token.kind.name.toList ++
    '\t' :: (number.repr.toList ++ '\t' :: token.line.repr.toList))

theorem record_of_end {token : Token} (ended : token.isEnd) : record? token = none := by
  have kind : token.kind = .endOfInput := of_decide_eq_true ended
  rw [record?, kind]
  rfl

theorem record_of_written {token : Token} (named : token.kind ≠ .endOfInput) :
    ∃ number text, record? token = some text ∧ text.toList = recordLine token number ++ ['\n'] := by
  obtain ⟨number, found⟩ := Option.isSome_iff_exists.1 (kind_named named).1
  rw [record?, found]
  exact ⟨number, _, rfl, by simp [recordLine]⟩

theorem repr_solid {number : Nat} {c : Char} (other : c.isDigit = false) :
    c ∉ number.repr.toList := by
  intro among
  rw [digit_of_repr among] at other
  exact Bool.false_ne_true other.symm

theorem record_columns {token : Token} (number : Nat) (named : token.kind ≠ .endOfInput)
    (storable : Storable token) :
    columns (recordLine token number) =
      [token.text.toList, token.kind.name.toList, number.repr.toList, token.line.repr.toList] := by
  obtain ⟨_, _, no_tab, _⟩ := kind_named named
  rw [columns, recordLine, pieces_append storable.no_tab, pieces_append no_tab,
    pieces_append (repr_solid (by decide)), pieces_whole (repr_solid (by decide))]

theorem read_record {token : Token} (number : Nat) (named : token.kind ≠ .endOfInput)
    (storable : Storable token) :
    ofColumns? (columns (recordLine token number)) = some token := by
  obtain ⟨_, known, _⟩ := kind_named named
  rw [record_columns number named storable, ofColumns?]
  simp only [List.getLast_cons_cons, List.getLast_singleton, String.ofList_toList, known,
    unsigned_repr storable.line]
  rfl

theorem record_not_blank {token : Token} (number : Nat) (named : token.kind ≠ .endOfInput) :
    isBlankLine (recordLine token number) = false := by
  obtain ⟨_, _, _, _, letter⟩ := kind_named named
  rw [isBlankLine, List.all_eq_false]
  exact ⟨'S', by simp [recordLine, letter], by decide⟩

theorem record_line {token : Token} (number : Nat) (named : token.kind ≠ .endOfInput)
    (storable : Storable token) (rest : List Char) :
    lines (recordLine token number ++ '\n' :: rest) = recordLine token number :: lines rest := by
  obtain ⟨_, _, _, no_feed, _⟩ := kind_named named
  apply lines_append
  · simp only [recordLine, List.mem_append, List.mem_cons, not_or]
    exact ⟨storable.no_feed, by decide, no_feed, by decide, repr_solid (by decide), by decide,
      repr_solid (by decide)⟩
  · -- the line ends in a digit
    have ends : recordLine token number =
        (token.text.toList ++ '\t' :: (token.kind.name.toList ++
          '\t' :: (number.repr.toList ++ ['\t']))) ++ token.line.repr.toList := by
      simp only [recordLine, List.append_assoc, List.cons_append, List.nil_append]
    rw [ends, List.getLast?_append, List.getLast?_eq_some_getLast (repr_ne_nil token.line),
      Option.some_or]
    intro same
    have last := List.getLast_mem (repr_ne_nil token.line)
    rw [Option.some.inj same] at last
    exact repr_solid (by decide) last

theorem read_write_from (number line : Nat) (tokens : List Token)
    (storable : ∀ token ∈ tokens, Storable token) :
    readFrom number line (lines (write tokens).toList) =
      .ok (written tokens ++ [Token.endOfInput (lastLine line (written tokens))]) := by
  induction tokens generalizing number line with
  | nil => rfl
  | cons token tokens ih =>
      have others := fun other among => storable other (List.mem_cons_of_mem token among)
      by_cases ended : token.isEnd
      · -- a mark of the end leaves no record
        have skipped : write (token :: tokens) = write tokens := by
          rw [write, List.filterMap_cons_none (record_of_end ended), write]
        rw [skipped, written, List.filter_cons_of_neg (by simp [ended])]
        exact ih number line others
      · have named : token.kind ≠ .endOfInput := fun kind => ended (decide_eq_true kind)
        obtain ⟨id, text, recorded, chars⟩ := record_of_written named
        have first := storable token List.mem_cons_self
        have put : (write (token :: tokens)).toList =
            recordLine token id ++ '\n' :: (write tokens).toList := by
          rw [write, List.filterMap_cons_some recorded, write]
          simp [chars]
        rw [put, record_line id named first, readFrom, record_not_blank id named,
          read_record id named first, written, List.filter_cons_of_pos (by simp [ended]),
          last_line_cons]
        simp only [Bool.false_eq_true, if_false, ih (number + 1) token.line others]
        rfl

/-! What is read can be written. -/

theorem of_columns_inv {cells : List (List Char)} {token : Token}
    (read : ofColumns? cells = some token) :
    ∃ text name more value, cells = text :: name :: more ∧ token.text = String.ofList text ∧
      Kind.ofName? (String.ofList name) = some token.kind ∧
      unsigned? value = some token.line := by
  match cells, read with
  | text :: name :: third :: more, read =>
      obtain ⟨kind, known, rest⟩ := Option.bind_eq_some_iff.1 read
      obtain ⟨line, value, made⟩ := Option.bind_eq_some_iff.1 rest
      cases made
      exact ⟨text, name, third :: more, _, rfl, rfl, known, value⟩

theorem of_columns_storable {line : List Char} {token : Token} (whole : '\n' ∉ line)
    (read : ofColumns? (columns line) = some token) :
    Storable token ∧ token.kind ≠ .endOfInput := by
  obtain ⟨text, name, more, value, cells, spelled, known, counted⟩ := of_columns_inv read
  have among : text ∈ pieces '\t' line := by
    rw [columns] at cells
    rw [cells]
    exact List.mem_cons_self
  obtain ⟨no_tab, part⟩ := mem_pieces among
  have chars : token.text.toList = text := by rw [spelled, String.toList_ofList]
  refine ⟨⟨?_, ?_, unsigned_lt counted⟩, named_kind known⟩
  · rwa [chars]
  · rw [chars]
    exact fun feed => whole (part feed)

theorem read_from_storable {number line : Nat} {texts : List (List Char)} {tokens : List Token}
    (whole : ∀ text ∈ texts, '\n' ∉ text) (read : readFrom number line texts = .ok tokens) :
    ∃ named, tokens = named ++ [Token.endOfInput (lastLine line named)] ∧
      ∀ token ∈ named, Storable token ∧ token.kind ≠ .endOfInput := by
  induction texts generalizing number line tokens with
  | nil =>
      cases read
      exact ⟨[], rfl, nofun⟩
  | cons text texts ih =>
      have others := fun other among => whole other (List.mem_cons_of_mem text among)
      rw [readFrom] at read
      split at read
      · -- a blank line is passed over
        exact ih others read
      · split at read
        · exact nomatch read
        · rename_i token column
          obtain ⟨rest, more, rfl⟩ := except_map_ok.1 read
          obtain ⟨named, rfl, fits⟩ := ih others more
          refine ⟨token :: named, ?_, ?_⟩
          · rw [last_line_cons]
            rfl
          · intro other among
            rcases List.mem_cons.1 among with rfl | among
            · exact of_columns_storable (whole text List.mem_cons_self) column
            · exact fits other among

end Stream

/-! Scanned tokens can be written. -/

theorem scan_storable {source : String} {tokens : List Token}
    (short : 1 + source.toList.count '\n' < wordCount)
    (scanned : Token.scan source = .ok tokens) :
    ∃ named, tokens = named ++ [Token.endOfInput (1 + source.toList.count '\n')] ∧
      ∀ token ∈ named, Storable token ∧ token.kind ≠ .endOfInput := by
  obtain ⟨named, rfl, lexemes⟩ := scan_named scanned
  refine ⟨named, rfl, ?_⟩
  intro token among
  obtain ⟨lexeme, _, bounded⟩ := lexemes token among
  exact ⟨⟨lexeme.solid.1, lexeme.solid.2, Nat.lt_of_le_of_lt bounded short⟩, lexeme.ne_end⟩

/-- Tokens with one mark at their end come back with the mark on their last
line. -/
theorem read_write_named {named : List Token} {line : Nat} (word : line < wordCount)
    (fits : ∀ token ∈ named, Storable token ∧ token.kind ≠ .endOfInput) :
    (∀ token ∈ named ++ [Token.endOfInput line], Storable token) ∧
      Stream.read (Stream.write (named ++ [Token.endOfInput line])) =
        .ok (named ++ [Token.endOfInput (lastLine 1 named)]) := by
  have storable : ∀ token ∈ named ++ [Token.endOfInput line], Storable token := by
    intro token among
    rcases List.mem_append.1 among with among | among
    · exact (fits token among).1
    · rw [List.mem_singleton.1 among]
      exact storable_end word
  have back := Stream.read_write_from 1 1 _ storable
  rw [written_named line fun token among => (fits token among).2] at back
  exact ⟨storable, back⟩

/-- Reading what was written gives back all tokens but the marks of the end,
for all tokens that fit into records. Tokens scanned from a source whose lines
are numbered by 64-bit numbers fit, so all of them but the mark come back;
tokens read from a stream fit, and come back exactly. -/
theorem stream_codec :
    (∀ tokens, (∀ token ∈ tokens, Storable token) →
      Stream.read (Stream.write tokens) =
        .ok (written tokens ++ [Token.endOfInput (lastLine 1 (written tokens))])) ∧
    (∀ source tokens, 1 + source.toList.count '\n' < wordCount → Token.scan source = .ok tokens →
      (∀ token ∈ tokens, Storable token) ∧
      ∃ named, tokens = named ++ [Token.endOfInput (1 + source.toList.count '\n')] ∧
        (∀ token ∈ named, token.kind ≠ .endOfInput) ∧
        Stream.read (Stream.write tokens) =
          .ok (named ++ [Token.endOfInput (lastLine 1 named)])) ∧
    (∀ stream tokens, Stream.read stream = .ok tokens →
      (∀ token ∈ tokens, Storable token) ∧ Stream.read (Stream.write tokens) = .ok tokens) := by
  refine ⟨Stream.read_write_from 1 1, ?_, ?_⟩
  · intro source tokens short scanned
    obtain ⟨named, rfl, fits⟩ := scan_storable short scanned
    obtain ⟨storable, back⟩ := read_write_named short fits
    exact ⟨storable, named, rfl, fun token among => (fits token among).2, back⟩
  · intro stream tokens read
    obtain ⟨named, rfl, fits⟩ := Stream.read_from_storable (fun text among => mem_lines among) read
    have word : lastLine 1 named < wordCount :=
      last_line_lt (by decide) fun token among => (fits token among).1
    exact read_write_named word fits

/-- An empty text, a carriage return, a mark of the end before other tokens and
the greatest line. -/
def awkwardTokens : List Token :=
  [⟨"", .identifier, 0⟩, ⟨"x", .endOfInput, 7⟩, ⟨"a\r", .string, 18446744073709551615⟩]

theorem awkward_tokens_kept :
    (∀ token ∈ awkwardTokens, Storable token) ∧
    Stream.read (Stream.write awkwardTokens) =
      .ok [⟨"", .identifier, 0⟩, ⟨"a\r", .string, 18446744073709551615⟩,
        Token.endOfInput 18446744073709551615] := by
  have storable : ∀ token ∈ awkwardTokens, Storable token := by decide
  exact ⟨storable, stream_codec.1 awkwardTokens storable⟩

end PascalCasl
