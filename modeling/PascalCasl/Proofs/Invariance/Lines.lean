import Mathlib.Control.Monad.Basic
import PascalCasl.Compile
import PascalCasl.Proofs.Grammar.Exactness
import PascalCasl.Proofs.Invariance.Generation
import PascalCasl.Proofs.Invariance.Reading

/-!
Lines decide nothing but where a fault is reported. Token lists that differ in
their lines alone are relabellings of one list, the one in which each token has
its place for a line; so what becomes of that list decides what becomes of them
all, and a fault there is reported at a place.
-/

namespace PascalCasl

theorem accept_kept {change : Relabelling} {tokens : List Token} (written : tokens ≠ []) :
    Program.accept (tokens.map change.token) =
      change.result change.program (Program.accept tokens) := by
  apply Relabelling.result_bind (parse_kept written)
  intro program _
  exact Relabelling.result_bind (check_kept program) fun _ _ => rfl

/-- A compilation of relabelled tokens gives the same text, or the relabelled
fault. -/
theorem compile_kept (change : Relabelling) (library : String) {tokens : List Token}
    (written : tokens ≠ []) :
    compileWith library (tokens.map change.token) =
      change.result id (compileWith library tokens) := by
  apply Relabelling.result_bind (accept_kept written)
  intro program _
  exact Relabelling.result_bind (assembly_kept program) fun _ _ => rfl

/-- Moves lines and leaves names. Faults that no pass behind the scanner reports
are exchanged for one another, so that none of them stays as it is. -/
def Relabelling.ofLines (move : Nat → Nat) : Relabelling where
  line := move
  name := id
  injective := Function.injective_id
  fault
    | .syntactic line => .syntactic (move line)
    | .semantic line => .semantic (move line)
    | .lexical _ line => .badRecord line
    | .badRecord number => .lexical .openComment number
  syntactic _ := rfl
  semantic _ := rfl

theorem of_lines_token (move : Nat → Nat) (written : Token) :
    (Relabelling.ofLines move).token written = { written with line := move written.line } := by
  simp [Relabelling.token, Relabelling.ofLines]

/-- What is written of a token, without its line. -/
def Token.writing (written : Token) : String × Kind := (written.text, written.kind)

def numbered (tokens : List Token) : List Token :=
  tokens.zipIdx.map fun entry => { entry.1 with line := entry.2 }

def lineAt (tokens : List Token) (place : Nat) : Nat := (tokens[place]?.map Token.line).getD 0

theorem numbered_written {tokens : List Token} (written : tokens ≠ []) : numbered tokens ≠ [] := by
  simpa [numbered] using written

theorem lines_restored (tokens : List Token) :
    (numbered tokens).map (Relabelling.ofLines (lineAt tokens)).token = tokens := by
  apply List.ext_getElem
  · simp [numbered]
  · intro place short shorter
    simp [numbered, of_lines_token, lineAt, shorter]

theorem places_fixed (tokens : List Token) {move : Nat → Nat}
    (fixed : ∀ place, place < tokens.length → move place = place) :
    (numbered tokens).map (Relabelling.ofLines move).token = numbered tokens := by
  apply List.ext_getElem
  · simp
  · intro place short shorter
    have within : place < tokens.length := by simpa [numbered] using shorter
    simp [numbered, of_lines_token, fixed place within]

theorem numbered_of_writing {first second : List Token}
    (agree : first.map Token.writing = second.map Token.writing) :
    numbered first = numbered second := by
  have renumber (tokens : List Token) : numbered tokens =
      (tokens.map Token.writing).zipIdx.map fun entry => ⟨entry.1.1, entry.1.2, entry.2⟩ := by
    rw [List.zipIdx_map, List.map_map]
    rfl
  rw [renumber, renumber, agree]

/-- Moves the lines that are no places of a list of this length. -/
def moveBeyond (length line : Nat) : Nat := if line < length then line else line + 1

theorem move_beyond_fixed {length line : Nat} : moveBeyond length line = line ↔ line < length := by
  unfold moveBeyond
  split <;> omega

theorem numbered_fault {library : String} {tokens : List Token} {fault : Fault}
    (written : tokens ≠ []) (failed : compileWith library (numbered tokens) = .error fault) :
    ∃ place, place < tokens.length ∧ (fault = .syntactic place ∨ fault = .semantic place) := by
  -- Moving what is no place leaves the tokens as they are, so it leaves the fault.
  have kept := compile_kept (.ofLines (moveBeyond tokens.length)) library (numbered_written written)
  rw [places_fixed tokens fun _ => move_beyond_fixed.mpr, failed] at kept
  have stays := Except.error.inj kept
  cases fault with
  | syntactic line =>
      exact ⟨line, move_beyond_fixed.mp (Fault.syntactic.inj stays).symm, .inl rfl⟩
  | semantic line =>
      exact ⟨line, move_beyond_fixed.mp (Fault.semantic.inj stays).symm, .inr rfl⟩
  | lexical cause line => cases stays
  | badRecord number => cases stays

theorem close_tokens_closed (tokens : List Token) :
    closeTokens (closeTokens tokens) = closeTokens tokens := by
  obtain same | ⟨line, same⟩ := close_tokens_cases tokens
  · rw [same, same]
  · rw [same]
    simp [closeTokens, Token.isEnd, Token.endOfInput]

theorem compile_closed (library : String) (tokens : List Token) :
    compileWith library (closeTokens tokens) = compileWith library tokens := by
  simp only [compileWith, Program.accept, Program.ofTokens, Cursor.ofTokens, close_tokens_closed]

theorem closed_writing {first second : List Token}
    (agree : first.map Token.writing = second.map Token.writing) :
    (closeTokens first).map Token.writing = (closeTokens second).map Token.writing := by
  have closing (tokens : List Token) : (closeTokens tokens).map Token.writing =
      if (tokens.map Token.writing).getLast?.any fun writing => writing.2 = .endOfInput then
        tokens.map Token.writing
      else tokens.map Token.writing ++ [("", .endOfInput)] := by
    rw [closeTokens, List.getLast?_map]
    cases ending : tokens.getLast? with
    | none =>
        rw [List.getLast?_eq_none_iff.mp ending]
        rfl
    | some last =>
        by_cases ends : last.kind = .endOfInput <;>
          simp [Token.isEnd, Token.writing, Token.endOfInput, ends]
  rw [closing, closing, agree]

/-- Two compilations end alike: in one text, or in faults of one kind at the
tokens of one place. -/
inductive EndAlike (first second : List Token) : Except Fault String → Except Fault String → Prop
  | text (text : String) : EndAlike first second (.ok text) (.ok text)
  | syntactic (place : Nat) (one two : Token) (oneThere : first[place]? = some one)
      (twoThere : second[place]? = some two) :
      EndAlike first second (.error (.syntactic one.line)) (.error (.syntactic two.line))
  | semantic (place : Nat) (one two : Token) (oneThere : first[place]? = some one)
      (twoThere : second[place]? = some two) :
      EndAlike first second (.error (.semantic one.line)) (.error (.semantic two.line))

theorem compile_by_places (library : String) {tokens : List Token} (written : tokens ≠ []) :
    compileWith library tokens =
      (Relabelling.ofLines (lineAt tokens)).result id (compileWith library (numbered tokens)) := by
  have kept := compile_kept (.ofLines (lineAt tokens)) library (numbered_written written)
  rwa [lines_restored] at kept

theorem written_lists_alike (library : String) {first second : List Token} (written : first ≠ [])
    (agree : first.map Token.writing = second.map Token.writing) :
    EndAlike first second (compileWith library first) (compileWith library second) := by
  have length : first.length = second.length := by simpa using congrArg List.length agree
  have also : second ≠ [] := by
    rintro rfl
    exact written (List.length_eq_zero_iff.mp length)
  rw [compile_by_places library written, compile_by_places library also,
    ← numbered_of_writing agree]
  cases ended : compileWith library (numbered first) with
  | ok text => exact .text text
  | error fault =>
      obtain ⟨place, within, kind⟩ := numbered_fault written ended
      have oneThere : first[place]? = some first[place] := List.getElem?_eq_getElem within
      have twoThere : second[place]? = some second[place] :=
        List.getElem?_eq_getElem (length ▸ within)
      have oneLine : lineAt first place = first[place].line := by simp [lineAt, oneThere]
      have twoLine : lineAt second place = second[place].line := by simp [lineAt, twoThere]
      rcases kind with rfl | rfl
      · simp only [Relabelling.result, Relabelling.ofLines, oneLine, twoLine]
        exact .syntactic place _ _ oneThere twoThere
      · simp only [Relabelling.result, Relabelling.ofLines, oneLine, twoLine]
        exact .semantic place _ _ oneThere twoThere

/-- The lines of tokens do not reach the code. Lists that are written alike are
compiled to one text, or both are refused at the token of one place; and so are
sources, however their tokens are spread over lines. -/
theorem compilations_end_alike (library : String) (first second : List Token)
    (agree : first.map Token.writing = second.map Token.writing) :
    EndAlike (closeTokens first) (closeTokens second) (compileWith library first)
        (compileWith library second) ∧
      ∀ source other, Token.scan source = .ok first → Token.scan other = .ok second →
        EndAlike (closeTokens first) (closeTokens second) (compile source) (compile other) := by
  have alike (library : String) : EndAlike (closeTokens first) (closeTokens second)
      (compileWith library first) (compileWith library second) := by
    rw [← compile_closed library first, ← compile_closed library second]
    exact written_lists_alike library (close_tokens_written first) (closed_writing agree)
  constructor
  · exact alike library
  · intro source other scanned scannedOther
    simp only [compile, scanned, scannedOther, except_ok_bind]
    exact alike Library.bundled

def oneLineSource : String := "program p;begin x:=1;end."

/-- The same tokens on several lines, with a comment between them. -/
def spreadSource : String := "program p;\n\x7b no\nvariable \x7d begin\n  x\n  :=1;\nend.\n"

/-- The tokens of both sources, with the lines of those that may move. -/
def undeclaredTokens (begins name mark ends last : Nat) : List Token :=
  [⟨"program", .programWord, 1⟩, ⟨"p", .identifier, 1⟩, ⟨";", .semicolon, 1⟩,
    ⟨"begin", .beginWord, begins⟩, ⟨"x", .identifier, name⟩, ⟨":=", .assign, mark⟩,
    ⟨"1", .constant, mark⟩, ⟨";", .semicolon, mark⟩, ⟨"end", .endWord, ends⟩, ⟨".", .dot, ends⟩,
    Token.endOfInput last]

/-- The name that is not declared is the fifth token of both, on the first line
and on the fourth. -/
theorem spread_source_alike :
    (undeclaredTokens 1 1 1 1 1).map Token.writing =
      (undeclaredTokens 3 4 5 6 7).map Token.writing ∧
    Token.scan oneLineSource = .ok (undeclaredTokens 1 1 1 1 1) ∧
    Token.scan spreadSource = .ok (undeclaredTokens 3 4 5 6 7) ∧
    compile oneLineSource = .error (.semantic 1) ∧ compile spreadSource = .error (.semantic 4) ∧
    EndAlike (closeTokens (undeclaredTokens 1 1 1 1 1)) (closeTokens (undeclaredTokens 3 4 5 6 7))
      (compile oneLineSource) (compile spreadSource) := by
  have agree : (undeclaredTokens 1 1 1 1 1).map Token.writing =
      (undeclaredTokens 3 4 5 6 7).map Token.writing := rfl
  have scanned : Token.scan oneLineSource = .ok (undeclaredTokens 1 1 1 1 1) := by decide +kernel
  have spread : Token.scan spreadSource = .ok (undeclaredTokens 3 4 5 6 7) := by decide +kernel
  have alike := (compilations_end_alike Library.bundled _ _ agree).2 _ _ scanned spread
  exact ⟨agree, scanned, spread, by decide +kernel, by decide +kernel, alike⟩

end PascalCasl
