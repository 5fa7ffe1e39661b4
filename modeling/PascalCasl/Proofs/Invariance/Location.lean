import PascalCasl.Proofs.Code.Generation
import PascalCasl.Proofs.Grammar.FirstFault
import PascalCasl.Proofs.Invariance.Lines
import PascalCasl.Proofs.Token.Scanning

/-!
Faults are reported where tokens stand. Every line of a tree is the line of a
token that was read for it: moving all other lines leaves the tree, and so it
leaves what is reported about the tree. Parsing stops at a token or at the mark
behind them, and scanning at a line of the source.
-/

namespace PascalCasl

open Grammar Text

/-- The fault is reported at one of the tokens. A mark of the end can be out of
place, but there is nothing in it to check. -/
inductive FaultAt (tokens : List Token) : Fault → Prop
  | syntactic (token : Token) (among : token ∈ tokens) : FaultAt tokens (.syntactic token.line)
  | semantic (token : Token) (among : token ∈ tokens) (isWritten : token.isEnd = false) :
      FaultAt tokens (.semantic token.line)

theorem FaultAt.mono {tokens more : List Token} {fault : Fault} (found : FaultAt tokens fault)
    (subset : tokens ⊆ more) : FaultAt more fault := by
  cases found with
  | syntactic token among => exact .syntactic token (subset among)
  | semantic token among isWritten => exact .semantic token (subset among) isWritten

/-- Moves the lines that no token stands on. -/
def moveOthers (tokens : List Token) (line : Nat) : Nat :=
  if line ∈ tokens.map Token.line then line else line + 1

theorem move_others_fixed {tokens : List Token} {line : Nat} :
    moveOthers tokens line = line ↔ ∃ token ∈ tokens, token.line = line := by
  rw [moveOthers, ← List.mem_map]
  split
  · next occupied => exact ⟨fun _ => occupied, fun _ => rfl⟩
  · next free =>
      constructor
      · exact fun same => absurd same (Nat.succ_ne_self line)
      · exact fun taken => absurd taken free

theorem own_lines_fixed (tokens : List Token) :
    tokens.map (Relabelling.ofLines (moveOthers tokens)).token = tokens := by
  have fixed (token : Token) (among : token ∈ tokens) :
      (Relabelling.ofLines (moveOthers tokens)).token token = id token := by
    rw [of_lines_token, move_others_fixed.mpr ⟨token, among, rfl⟩]
    rfl
  rw [List.map_congr_left fixed, List.map_id]

theorem tree_fixed {input : List Token} {tree : Program} (read : sentence input = .ok tree) :
    (Relabelling.ofLines (moveOthers input)).program tree = tree := by
  have kept := @sentence_kept (.ofLines (moveOthers input)) input
  rw [own_lines_fixed, read] at kept
  exact (Except.ok.inj kept).symm

theorem check_fault_at {input : List Token} {tree : Program} {fault : Fault}
    (written : ∀ token ∈ input, token.isEnd = false) (read : sentence input = .ok tree)
    (failed : tree.check = .error fault) : FaultAt input fault := by
  have kept := @check_kept (.ofLines (moveOthers input)) tree
  rw [tree_fixed read, failed] at kept
  have stays := Except.error.inj kept
  cases fault with
  | syntactic line =>
      obtain ⟨token, among, rfl⟩ := move_others_fixed.mp (Fault.syntactic.inj stays).symm
      exact .syntactic token among
  | semantic line =>
      obtain ⟨token, among, rfl⟩ := move_others_fixed.mp (Fault.semantic.inj stays).symm
      exact .semantic token among (written token among)
  | lexical cause line => cases stays
  | badRecord number => cases stays

theorem input_written (tokens : List Token) :
    ∀ token ∈ tokens.takeWhile fun token => !token.isEnd, token.isEnd = false := by
  intro token among
  simpa using List.mem_takeWhile_imp among

theorem input_until_end (tokens : List Token) :
    tokens.takeWhile (fun token => !token.isEnd) ⊆ untilEnd tokens := by
  obtain ⟨mark, split, _⟩ := until_end_input tokens
  rw [split, input_of_tokens]
  exact List.subset_append_left _ _

theorem parse_fault_at {tokens : List Token} {fault : Fault}
    (failed : Program.ofTokens tokens = .error fault) : FaultAt (untilEnd tokens) fault := by
  obtain ⟨mark, split, _, endLine⟩ := until_end_input tokens
  rw [Program.ofTokens, Cursor.parse] at failed
  cases read : sentence (Cursor.ofTokens tokens).input with
  | ok tree => simp [read] at failed
  | error stopped =>
      simp only [read, Except.error.injEq] at failed
      obtain ⟨taken, input, _, _⟩ := sentence_fails_at_misfit read
      rw [Failure.line_eq, ← endLine] at failed
      subst failed
      cases stops : stopped.remaining with
      | nil => exact .syntactic mark (by simp [split])
      | cons next rest => exact .syntactic next (by simp [split, input, stops])

theorem compile_fault_at {library : String} {tokens : List Token} {fault : Fault}
    (failed : compileWith library tokens = .error fault) : FaultAt (untilEnd tokens) fault := by
  obtain refused | ⟨tree, accepted, failed⟩ := except_bind_error.mp failed
  · obtain misread | ⟨tree, parsed, failed⟩ := except_bind_error.mp refused
    · exact parse_fault_at misread
    · obtain violated | ⟨_, _, impossible⟩ := except_bind_error.mp failed
      · have read := (parse_ok_iff_sentence tokens tree).mp parsed
        exact (check_fault_at (input_written tokens) read violated).mono (input_until_end tokens)
      · cases impossible
  · -- what is accepted is generated
    obtain ⟨_, _, checked⟩ := except_bind_ok.mp accepted
    obtain ⟨_, sound, same⟩ := except_bind_ok.mp checked
    cases same
    obtain ⟨text, generated⟩ := assembly_exists (check_sound sound)
    rw [generated] at failed
    cases failed

theorem until_end_named {named : List Token} {line : Nat}
    (open_ended : ∀ token ∈ named, token.isEnd = false) :
    untilEnd (named ++ [Token.endOfInput line]) = named ++ [Token.endOfInput line] := by
  have unmarked : named.find? Token.isEnd = none := by simpa using open_ended
  have marked : (named ++ [Token.endOfInput line]).find? Token.isEnd =
      some (Token.endOfInput line) := by
    rw [List.find?_append, unmarked]
    rfl
  have whole : named.takeWhile (fun token => !token.isEnd) = named := by
    rw [List.takeWhile_eq_self_iff]
    simpa using open_ended
  have isEnd : (Token.endOfInput line).isEnd = true := rfl
  simp only [untilEnd, marked, take_while_end_mark named [] isEnd, whole]

theorem until_end_scanned {source : String} {tokens : List Token}
    (scanned : Token.scan source = .ok tokens) : untilEnd tokens = tokens := by
  obtain ⟨named, rfl, lexemes⟩ := scan_named scanned
  exact until_end_named fun token among => decide_eq_false (lexemes token among).1.ne_end

theorem scanned_lines {source : String} {tokens : List Token}
    (scanned : Token.scan source = .ok tokens) :
    ∀ token ∈ tokens, 1 ≤ token.line ∧ token.line ≤ 1 + source.toList.count '\n' := by
  obtain ⟨named, rfl, lexemes⟩ := scan_named scanned
  intro token among
  rcases List.mem_append.1 among with among | among
  · exact (lexemes token among).2
  · rw [List.mem_singleton.1 among]
    exact ⟨Nat.le_add_right _ _, Nat.le_refl _⟩

/-- Every fault has a place. What is wrong in a list of tokens is reported at a
token up to its first mark of the end, and a violation at one before the mark;
what is wrong in a source is reported on one of its lines, and on the line of a
token unless it is the scan that fails. -/
theorem faults_located :
    (∀ library tokens fault, compileWith library tokens = .error fault →
      FaultAt (untilEnd tokens) fault) ∧
    ∀ source fault, compile source = .error fault →
      (∃ line, fault.line? = some line ∧ 1 ≤ line ∧ line ≤ 1 + source.toList.count '\n') ∧
      ((∃ cause line, fault = .lexical cause line) ∨
        ∃ tokens, Token.scan source = .ok tokens ∧ FaultAt tokens fault) := by
  refine ⟨fun library tokens fault => compile_fault_at, ?_⟩
  intro source fault failed
  obtain unscanned | ⟨tokens, scanned, failed⟩ := except_bind_error.mp failed
  · rw [scan_eq] at unscanned
    obtain ⟨cause, feeds, bounded, rfl⟩ := scan_fault_line source.toList 1 fault unscanned
    exact ⟨⟨1 + feeds, rfl, by omega, by omega⟩, .inl ⟨cause, 1 + feeds, rfl⟩⟩
  · have found := compile_fault_at failed
    rw [until_end_scanned scanned] at found
    have bounded := scanned_lines scanned
    refine ⟨?_, .inr ⟨tokens, scanned, found⟩⟩
    cases found with
    | syntactic token among => exact ⟨token.line, rfl, bounded token among⟩
    | semantic token among _ => exact ⟨token.line, rfl, bounded token among⟩

/-- A source that ends within its block, two lines after its last token. -/
def unfinishedSource : String := "program p;\nbegin x:=1;\n\n"

/-- The list reports a name before its mark, the source the mark of its end. -/
theorem unfinished_source_located :
    compileWith "" (undeclaredTokens 3 4 5 6 7) = .error (.semantic 4) ∧
    FaultAt (untilEnd (undeclaredTokens 3 4 5 6 7)) (.semantic 4) ∧
    compile unfinishedSource = .error (.syntactic 4) ∧
    1 + unfinishedSource.toList.count '\n' = 4 ∧
    ∃ tokens, Token.scan unfinishedSource = .ok tokens ∧ FaultAt tokens (.syntactic 4) := by
  have undeclared : compileWith "" (undeclaredTokens 3 4 5 6 7) = .error (.semantic 4) := by
    decide +kernel
  have unfinished : compile unfinishedSource = .error (.syntactic 4) := by decide +kernel
  have named := faults_located.1 "" _ _ undeclared
  obtain ⟨_, ⟨_, _, unscanned⟩ | located⟩ := faults_located.2 _ _ unfinished
  · cases unscanned
  · exact ⟨undeclared, named, unfinished, by decide, located⟩

end PascalCasl
