import PascalCasl.Proofs.Code.Generation
import PascalCasl.Proofs.Code.Labels
import PascalCasl.Proofs.Code.Storage

/-!
Procedures of a program. Each has a frame after the frames of those before it,
an environment that its body is coded with, and a place among the codes of the
listing. A name that is called means the one procedure that has it.
-/

namespace PascalCasl

open Casl

namespace Layout

variable {program : Program} {earlier later : List Procedure} {procedure : Procedure}

theorem first_frames_snoc :
    firstFrames program (earlier ++ [procedure]) =
      ((firstFrames program earlier).1 ++ [frameAfter program earlier procedure],
        (frameAfter program earlier procedure).next) :=
  first_frames_append earlier [procedure]

theorem first_frames_le (first second : List Procedure) :
    (firstFrames program first).2 ≤ (firstFrames program (first ++ second)).2 := by
  rw [first_frames_append]
  exact allocate_frames_le _ _ second

theorem frame_le (earlier : List Procedure) (procedure : Procedure) (later : List Procedure) :
    (frameAfter program earlier procedure).next ≤
      (firstFrames program (earlier ++ procedure :: later)).2 := by
  have grows := @first_frames_le program (earlier ++ [procedure]) later
  rw [first_frames_snoc, List.append_assoc, List.singleton_append] at grows
  exact grows

theorem global_packed (program : Program) :
    Packed (ofProgram program).globals 0 (globalEnd program) :=
  (allocate_vars_packed program.vars (packed_nil 0 0) (Nat.le_refl 0)).1

end Layout

theorem split_at_member {α : Type} {items : List α} {number : Nat} {item : α}
    (member : items[number]? = some item) :
    ∃ earlier later, items = earlier ++ item :: later ∧ number = earlier.length := by
  rcases List.getElem?_eq_some_iff.mp member with ⟨below, same⟩
  refine ⟨items.take number, items.drop (number + 1), ?_, ?_⟩
  · rw [← same, List.getElem_cons_drop, List.take_append_drop]
  · rw [List.length_take]
    omega

theorem frame_at {program : Program} (earlier : List Procedure) (procedure : Procedure)
    (later : List Procedure) :
    (Layout.firstFrames program (earlier ++ procedure :: later)).1[earlier.length]? =
      some (frameAfter program earlier procedure) := by
  have lengths := @Layout.first_frames_length program earlier
  rw [Layout.first_frames_append, List.getElem?_append_right (Nat.le_of_eq lengths), lengths,
    Nat.sub_self]
  rfl

theorem program_frame_at {program : Program} {earlier later : List Procedure}
    {procedure : Procedure} (split : program.procedures = earlier ++ procedure :: later) :
    (Layout.ofProgram program).frames[earlier.length]? =
      some (frameAfter program earlier procedure) := by
  rw [Layout.program_frames, split]
  exact frame_at earlier procedure later

theorem procedure_at {program : Program} {earlier later : List Procedure} {procedure : Procedure}
    (split : program.procedures = earlier ++ procedure :: later) :
    program.procedures[earlier.length]? = some procedure := by
  rw [split, List.getElem?_append_right (Nat.le_refl _), Nat.sub_self]
  rfl

/-- A name that is found among the frames of procedures is the name of one. -/
theorem procedure_of_frame {env : Env} {program : Program} {known : List Procedure} {name : String}
    {frame : Frame} (frames : env.frames = (Layout.firstFrames program known).1)
    (found : env.procedure? name = some frame) :
    ∃ earlier procedure later, known = earlier ++ procedure :: later ∧
      frame = frameAfter program earlier procedure ∧ procedure.name = name := by
  have named : frame.name = name := by simpa using List.find?_some found
  obtain ⟨place, member⟩ := List.mem_iff_getElem?.mp (List.mem_of_find?_eq_some found)
  rw [frames] at member
  have below := (List.getElem?_eq_some_iff.mp member).1
  rw [Layout.first_frames_length] at below
  rcases split_at_member (List.getElem?_eq_getElem below) with ⟨earlier, later, split, rfl⟩
  rw [split, frame_at] at member
  cases member
  exact ⟨earlier, _, later, split, rfl, named⟩

theorem procedure_by_name {program : Program} (wellTyped : program.WellTyped)
    {procedure : Procedure} (member : procedure ∈ program.procedures) :
    program.procedures.find? (fun other => other.name = procedure.name) = some procedure := by
  cases found : program.procedures.find? (fun other => other.name = procedure.name) with
  | none =>
      have missing := List.find?_eq_none.mp found procedure member
      simp at missing
  | some other =>
      have named : other.name = procedure.name := by simpa using List.find?_some found
      rw [List.inj_on_of_nodup_map wellTyped.procedureNames (List.mem_of_find?_eq_some found)
        member named]

theorem block_coded {program : Program} {first later : List Block} {block : Block}
    {supply after : Supply} {codes : List Code}
    (generated : codeBlocks program (first ++ block :: later) supply = (.ok codes, after)) :
    ∃ before body behind supply middle,
      codes = before ++ (block.opening program ++ body ++ block.closing) :: behind ∧
      (block.env program).stmts (block.statements program) supply = (.ok body, middle) ∧
      middle.texts <+: after.texts ∧ before.length = first.length := by
  induction first generalizing supply codes with
  | nil =>
      rcases blocks_cons_inv generated with ⟨body, others, middle, coded, more, rfl⟩
      rcases blocks_numbered more with ⟨_, numbered, _⟩
      exact ⟨[], body, others, supply, middle, rfl, coded, numbered.grows.texts, rfl⟩
  | cons head rest ih =>
      rcases blocks_cons_inv generated with ⟨_, others, _, _, more, rfl⟩
      rcases ih more with ⟨before, body, behind, supply, middle, rfl, coded, texts, lengths⟩
      exact ⟨_ :: before, body, behind, supply, middle, rfl, coded, texts,
        congrArg Nat.succ lengths⟩

theorem blocks_after_append (earlier first second : List Procedure) :
    blocksAfter earlier (first ++ second) =
      blocksAfter earlier first ++ blocksAfter (earlier ++ first) second := by
  induction first generalizing earlier with
  | nil => simp [blocksAfter]
  | cons head rest ih => simp [blocksAfter, ih]

theorem blocks_after_length (earlier rest : List Procedure) :
    (blocksAfter earlier rest).length = rest.length := by
  induction rest generalizing earlier with
  | nil => rfl
  | cons first others ih => rw [blocksAfter, List.length_cons, ih, List.length_cons]

theorem procedure_coded {program : Program} {listing : Listing} {earlier later : List Procedure}
    {procedure : Procedure} (generated : Listing.ofProgram program = .ok listing)
    (split : program.procedures = earlier ++ procedure :: later) :
    ∃ first body others supply after,
      listing.procedures = first ++ (Block.opening program (.procedure earlier procedure) ++ body ++
        [line .ret]) :: others ∧
      (Block.env program (.procedure earlier procedure)).stmts procedure.body supply =
        (.ok body, after) ∧
      after.texts <+: listing.texts ∧ first.length = earlier.length := by
  rcases listing_inv generated with ⟨_, _, proceduresCoded, mainCoded, _, texts⟩
  rw [Program.procedureBlocks, split, blocks_after_append, List.nil_append, blocksAfter]
    at proceduresCoded
  rcases block_coded proceduresCoded with
    ⟨first, body, others, supply, after, listed, coded, entered, lengths⟩
  rw [blocks_after_length] at lengths
  refine ⟨first, body, others, supply, after, listed, coded, ?_, lengths⟩
  rw [texts]
  exact entered.trans (stmts_numbered program.body mainCoded).grows.texts

theorem procedure_listed {program : Program} {listing : Listing} {earlier later : List Procedure}
    {procedure : Procedure} (generated : Listing.ofProgram program = .ok listing)
    (split : program.procedures = earlier ++ procedure :: later) :
    ∃ body supply after,
      listing.procedures[earlier.length]? = some (Block.opening program
        (.procedure earlier procedure) ++ body ++ [line .ret]) ∧
      (Block.env program (.procedure earlier procedure)).stmts procedure.body supply =
        (.ok body, after) := by
  rcases procedure_coded generated split with
    ⟨first, body, others, supply, after, listed, coded, _, lengths⟩
  refine ⟨body, supply, after, ?_, coded⟩
  rw [listed, List.getElem?_append_right (Nat.le_of_eq lengths), lengths, Nat.sub_self]
  rfl

theorem listing_procedures_length {program : Program} {listing : Listing}
    (generated : Listing.ofProgram program = .ok listing) :
    listing.procedures.length = program.procedures.length := by
  rcases listing_inv generated with ⟨_, _, proceduresCoded, _⟩
  rw [blocks_coded_length proceduresCoded, Program.procedureBlocks, blocks_after_length]

/-- A program with an array that begins below zero, a procedure with parameters
and an array of its own, and one that calls both of them from a loop. -/
def tally : Program where
  name := "tally"
  line := 1
  vars := [⟨"marks", 1, .array ⟨true, 2⟩ ⟨false, 2⟩ .integer, 1⟩,
    ⟨"total", 1, .standard .integer, 1⟩]
  procedures := [{
    name := "note"
    line := 2
    params := [⟨"mark", 2, .integer⟩, ⟨"amount", 2, .integer⟩]
    vars := [⟨"seen", 2, .array ⟨false, 0⟩ ⟨false, 1⟩ .char, 2⟩]
    bodyLine := 3
    body := [.assign 3 (.indexed 3 "marks" (.simple 3 "mark")) (.simple 3 "amount"),
      .assign 4 (.indexed 4 "seen" (.number 4 1)) (.string 4 "x")] }, {
    name := "sweep"
    line := 5
    params := [⟨"left", 5, .integer⟩]
    vars := []
    bodyLine := 6
    body := [
      .whileDo 6 (.binary 6 .greater (.simple 6 "left") (.number 6 0)) 6 [
        .assign 7 (.simple 7 "left") (.binary 7 .sub (.simple 7 "left") (.number 7 1)),
        .call 8 "note" [.simple 8 "left", .number 8 1],
        .ifElse 9 (.binary 9 .equal (.simple 9 "left") (.number 9 1)) 9
          [.call 9 "sweep" [.unary 9 .minus (.simple 9 "left")]] 10
          [.write 10 [.string 10 "left", .simple 10 "left"]]]] }]
  bodyLine := 11
  body := [.call 11 "sweep" [.number 11 2], .write 12 [.indexed 12 "marks" (.number 12 0)]]

end PascalCasl
