import PascalCasl.Code.Listing
import PascalCasl.Proofs.Code.Storage

/-!
The blocks of a program: the bodies of its procedures and its main block. Each is
coded with tables of its own, and a program is coded block by block, the main
block last. A block knows the procedures before it, and a procedure also itself.
The ordinal of every frame that a block knows is its place among them.
-/

namespace PascalCasl

open Casl

namespace Layout

def globalEnd (program : Program) : Nat := (allocateVars [] 0 program.vars).2

def firstFrames (program : Program) (procedures : List Procedure) : List Frame × Nat :=
  allocateFrames 0 (globalEnd program) procedures

variable {program : Program}

theorem program_frames (program : Program) :
    (ofProgram program).frames = (firstFrames program program.procedures).1 := rfl

theorem first_frames_append (first second : List Procedure) :
    firstFrames program (first ++ second) =
      ((firstFrames program first).1 ++
          (allocateFrames first.length (firstFrames program first).2 second).1,
        (allocateFrames first.length (firstFrames program first).2 second).2) := by
  simp only [firstFrames, allocate_frames_append, Nat.zero_add]

theorem first_frames_ordinals (procedures : List Procedure) :
    (firstFrames program procedures).1.map Frame.ordinal = List.range procedures.length := by
  rw [firstFrames, allocate_frames_ordinals, List.range_eq_range']

theorem first_frames_length (procedures : List Procedure) :
    (firstFrames program procedures).1.length = procedures.length := by
  simpa using congrArg List.length (@first_frames_ordinals program procedures)

theorem first_frames_take (first second : List Procedure) :
    (firstFrames program (first ++ second)).1.take first.length = (firstFrames program first).1 := by
  rw [first_frames_append]
  exact List.take_left' (first_frames_length first)

end Layout

def frameAfter (program : Program) (earlier : List Procedure) (procedure : Procedure) : Frame :=
  Frame.ofProcedure earlier.length (Layout.firstFrames program earlier).2 procedure

/-- The body of a procedure that comes after `earlier`, or the main block. -/
inductive Block where
  | procedure (earlier : List Procedure) (own : Procedure)
  | main

namespace Block

variable (program : Program)

/-- The procedures that a block can call. -/
def known : Block → List Procedure
  | .procedure earlier own => earlier ++ [own]
  | .main => program.procedures

def statements : Block → List Stmt
  | .procedure _ own => own.body
  | .main => program.body

def current : Block → Option Nat
  | .procedure earlier _ => some earlier.length
  | .main => none

def locals : Block → Table Cells
  | .procedure earlier own => (frameAfter program earlier own).locals
  | .main => []

/-- What a block is coded with. -/
def env (block : Block) : Env :=
  ⟨(Layout.ofProgram program).globals, block.locals program,
    (Layout.firstFrames program (block.known program)).1, block.current⟩

def opening : Block → Code
  | .procedure earlier own =>
      [place (.procedure earlier.length)] ++
        prologue (frameAfter program earlier own).base own.params.length
  | .main => []

def closing : Block → Code
  | .procedure _ _ => [line .ret]
  | .main => []

def code (block : Block) : Emit Code := do
  let body ← (block.env program).stmts (block.statements program)
  pure (block.opening program ++ body ++ block.closing)

end Block

def codeBlocks (program : Program) : List Block → Emit (List Code)
  | [] => pure []
  | first :: rest => do
      let code ← first.code program
      let others ← codeBlocks program rest
      pure (code :: others)

/-- The blocks of procedures that come after `earlier`. -/
def blocksAfter (earlier : List Procedure) : List Procedure → List Block
  | [] => []
  | first :: rest => .procedure earlier first :: blocksAfter (earlier ++ [first]) rest

namespace Program

def procedureBlocks (program : Program) : List Block := blocksAfter [] program.procedures

def blocks (program : Program) : List Block := program.procedureBlocks ++ [.main]

def bodies (program : Program) : List (List Stmt) :=
  program.procedures.map Procedure.body ++ [program.body]

end Program

theorem mem_blocks_after {earlier rest : List Procedure} {block : Block} :
    block ∈ blocksAfter earlier rest ↔
      ∃ between own later, rest = between ++ own :: later ∧
        block = .procedure (earlier ++ between) own := by
  induction rest generalizing earlier with
  | nil => simp [blocksAfter]
  | cons first others ih =>
      rw [blocksAfter, List.mem_cons, ih]
      constructor
      · rintro (rfl | ⟨between, own, later, rfl, rfl⟩)
        · exact ⟨[], first, others, rfl, by rw [List.append_nil]⟩
        · exact ⟨first :: between, own, later, rfl, by simp⟩
      · rintro ⟨between, own, later, split, rfl⟩
        cases between with
        | nil =>
            cases split
            exact .inl (by rw [List.append_nil])
        | cons head between =>
            cases split
            exact .inr ⟨between, own, later, rfl, by simp⟩

theorem mem_procedure_blocks {program : Program} {block : Block} :
    block ∈ program.procedureBlocks ↔
      ∃ earlier own later, program.procedures = earlier ++ own :: later ∧
        block = .procedure earlier own :=
  mem_blocks_after

/-- A block is that of a procedure, by the procedures around it, or the main one. -/
theorem mem_blocks {program : Program} {block : Block} :
    block ∈ program.blocks ↔
      (∃ earlier own later, program.procedures = earlier ++ own :: later ∧
        block = .procedure earlier own) ∨ block = .main := by
  rw [Program.blocks, List.mem_append, mem_procedure_blocks, List.mem_singleton]

theorem blocks_after_bodies (program : Program) (earlier rest : List Procedure) :
    (blocksAfter earlier rest).map (Block.statements program) = rest.map Procedure.body := by
  induction rest generalizing earlier with
  | nil => rfl
  | cons first others ih =>
      rw [blocksAfter, List.map_cons, ih, List.map_cons]
      rfl

theorem block_bodies (program : Program) :
    program.blocks.map (Block.statements program) = program.bodies := by
  rw [Program.blocks, List.map_append, Program.procedureBlocks, blocks_after_bodies]
  rfl

theorem known_first {program : Program} {block : Block} (member : block ∈ program.blocks) :
    block.known program <+: program.procedures := by
  rcases mem_blocks.mp member with ⟨earlier, own, later, split, rfl⟩ | rfl
  · exact ⟨later, by rw [split, Block.known, List.append_assoc, List.singleton_append]⟩
  · exact List.prefix_refl _

theorem blocks_after_current (earlier rest : List Procedure) :
    (blocksAfter earlier rest).filterMap Block.current =
      List.range' earlier.length rest.length := by
  induction rest generalizing earlier with
  | nil => rfl
  | cons first others ih =>
      have onward := ih (earlier ++ [first])
      rw [List.length_append, List.length_singleton] at onward
      rw [blocksAfter, List.filterMap_cons, onward, List.length_cons, List.range'_succ]
      rfl

theorem procedure_blocks_current (program : Program) :
    program.procedureBlocks.filterMap Block.current = List.range program.procedures.length := by
  rw [Program.procedureBlocks, blocks_after_current, List.range_eq_range']
  rfl

/-! Generation goes through the blocks. -/

instance : LawfulMonad Emit := by
  refine .mk' Emit ?_ ?_ ?_
  · intro α step
    funext supply
    simp only [Functor.map, Emit.bind]
    rcases step supply with ⟨_ | _, _⟩ <;> rfl
  · intros
    rfl
  · intro α β γ step next last
    funext supply
    simp only [Bind.bind, Emit.bind]
    rcases step supply with ⟨_ | _, _⟩ <;> rfl

theorem code_blocks_snoc (program : Program) (first : List Block) (last : Block) :
    codeBlocks program (first ++ [last]) = (do
      let codes ← codeBlocks program first
      let code ← last.code program
      pure (codes ++ [code])) := by
  induction first with
  | nil => simp [codeBlocks]
  | cons head rest ih => simp [codeBlocks, ih]

/-- The procedures that are left are coded after the frames of those before them. -/
theorem procedures_code_eq (program : Program) (earlier rest : List Procedure) :
    proceduresCode (Layout.ofProgram program).globals (Layout.firstFrames program earlier).1
        ((Layout.allocateFrames earlier.length (Layout.firstFrames program earlier).2 rest).1.zip
          rest) =
      codeBlocks program (blocksAfter earlier rest) := by
  induction rest generalizing earlier with
  | nil => rfl
  | cons first others ih =>
      have onward := ih (earlier ++ [first])
      have known := @Layout.first_frames_append program earlier [first]
      rw [List.length_append, List.length_singleton, known] at onward
      rw [blocksAfter, codeBlocks, ← onward, Block.code, Block.env, Block.known, known]
      rfl

/-- A program is coded block by block, the main block last. -/
theorem program_code_eq (program : Program) :
    programCode program = (do
      let codes ← codeBlocks program program.blocks
      pure (codes.dropLast, codes.getLastD [])) := by
  simp only [Program.blocks, code_blocks_snoc, bind_assoc, pure_bind, List.dropLast_concat,
    List.getLastD_concat, Block.code, Block.opening, Block.closing, List.nil_append,
    List.append_nil]
  rw [Program.procedureBlocks, ← procedures_code_eq]
  rfl

/-- The ordinals of the frames are their places, the number that a block has as
current is the place of a frame, and the frame that a call finds stands at its
ordinal. -/
structure Env.Indexed (env : Env) : Prop where
  ordinals : env.frames.map Frame.ordinal = List.range env.frames.length
  current : ∀ number, env.current = some number → ∃ frame, env.frames[number]? = some frame
  found : ∀ name frame, env.procedure? name = some frame →
    env.frames[frame.ordinal]? = some frame

theorem found_at_ordinal {env : Env}
    (ordinals : env.frames.map Frame.ordinal = List.range env.frames.length) {name : String}
    {frame : Frame} (found : env.procedure? name = some frame) :
    env.frames[frame.ordinal]? = some frame := by
  obtain ⟨place, placed⟩ := List.mem_iff_getElem?.mp (List.mem_of_find?_eq_some found)
  have numbered := congrArg (·[place]?) ordinals
  simp only [List.getElem?_map, placed, Option.map_some] at numbered
  obtain rfl : frame.ordinal = place :=
    Option.some.inj (numbered.trans (List.getElem?_range (List.getElem?_eq_some_iff.mp placed).1))
  exact placed

theorem blocks_indexed (program : Program) :
    ∀ block ∈ program.blocks, (block.env program).Indexed := by
  intro block member
  have ordinals : (block.env program).frames.map Frame.ordinal =
      List.range (block.env program).frames.length := by
    rw [Block.env, Layout.first_frames_ordinals, Layout.first_frames_length]
  refine ⟨ordinals, fun number isCurrent => ?_, fun _ _ => found_at_ordinal ordinals⟩
  cases block with
  | main => cases isCurrent
  | procedure earlier own =>
      obtain rfl : earlier.length = number := Option.some.inj isCurrent
      refine ⟨_, List.getElem?_eq_getElem ?_⟩
      rw [Block.env, Layout.first_frames_length, Block.known, List.length_append]
      exact Nat.lt_add_one _

/-- The frames that a block knows, with its number and its statements. -/
def Block.record (program : Program) (block : Block) : Option Nat × List Frame × List Stmt :=
  ((block.env program).current, (block.env program).frames, block.statements program)

theorem blocks_after_records (program : Program) (earlier rest : List Procedure) :
    (blocksAfter earlier rest).map (Block.record program) =
      (rest.zipIdx earlier.length).map fun entry =>
        (some entry.2, (Layout.firstFrames program (earlier ++ rest)).1.take (entry.2 + 1),
          entry.1.body) := by
  induction rest generalizing earlier with
  | nil => rfl
  | cons first others ih =>
      have known := ih (earlier ++ [first])
      have own := @Layout.first_frames_take program (earlier ++ [first]) others
      rw [List.length_append, List.length_singleton, List.append_assoc, List.singleton_append]
        at known own
      rw [blocksAfter, List.map_cons, known, List.zipIdx_cons, List.map_cons, own]
      rfl

/-- The blocks are those of the procedures in order, each with its place for a
number and the frames up to its own, and then the main block, which knows all
frames and has no number. -/
theorem block_records (program : Program) :
    program.blocks.map (Block.record program) =
      (program.procedures.zipIdx.map fun entry =>
        (some entry.2, (Layout.ofProgram program).frames.take (entry.2 + 1), entry.1.body)) ++
      [(none, (Layout.ofProgram program).frames, program.body)] := by
  rw [Program.blocks, List.map_append, Program.procedureBlocks, blocks_after_records]
  rfl

end PascalCasl
