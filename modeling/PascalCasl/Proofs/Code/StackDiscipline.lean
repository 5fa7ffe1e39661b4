import PascalCasl.Proofs.Code.Occurrence
import PascalCasl.Proofs.Code.Procedures
import PascalCasl.Proofs.Code.StackHeight

/-!
Stack discipline of generated code. The main code and the code of each procedure
behind its parameters give every line one height of the stack, whichever way the
line is reached: statements leave the stack as it was, expressions add one word,
and a return finds nothing but its address.
-/

namespace PascalCasl

open Casl

section

variable {arity : Nat → Nat} {start finish height : Nat} {code first second before after : Code}
  {line : Line}

theorem climb_prefix (climbs : climb arity start (first ++ second) = some finish) :
    ∃ middle, climb arity start first = some middle ∧
      climb arity middle second = some finish := by
  rw [climb_append] at climbs
  exact Option.bind_eq_some_iff.mp climbs

theorem step_above {op : Op} {next : Nat} (stepped : op.step arity height = some next)
    (more : Nat) : op.step arity (height + more) = some (next + more) := by
  cases op with
  | push address =>
      cases stepped
      rw [Op.step, Nat.add_right_comm]
  | pop register =>
      rw [Op.step, Option.ite_none_left_eq_some] at stepped
      rw [Op.step, Option.ite_none_left_eq_some]
      grind
  | call callee =>
      cases callee with
      | routine called =>
          cases stepped
          rfl
      | procedure number =>
          rw [Op.step, Option.ite_none_right_eq_some] at stepped
          rw [Op.step, Option.ite_none_right_eq_some]
          grind
  | load register _ | loadAddress register _ | compute _ register _ =>
      rw [Op.step, Option.ite_none_left_eq_some] at stepped
      rw [Op.step, Option.ite_none_left_eq_some]
      grind
  | store _ _ | compareSigned _ _ | compareUnsigned _ _ | jump _ _ | nop =>
      cases stepped
      rfl
  | ret | start _ | reserve _ | text _ | finish => cases stepped

theorem climb_above (climbs : climb arity start code = some finish) (more : Nat) :
    climb arity (start + more) code = some (finish + more) := by
  induction code generalizing start with
  | nil =>
      cases climbs
      rfl
  | cons head rest ih =>
      rcases Option.bind_eq_some_iff.mp climbs with ⟨next, stepped, onward⟩
      rw [climb, step_above stepped more]
      exact ih onward

theorem mem_trail (climbs : climb arity start code = some finish) :
    (line, height) ∈ trail arity start code ↔
      ∃ before after, code = before ++ line :: after ∧ climb arity start before = some height := by
  constructor
  · intro member
    induction code generalizing start with
    | nil => simp [trail] at member
    | cons head rest ih =>
        rcases Option.bind_eq_some_iff.mp climbs with ⟨next, stepped, onward⟩
        rw [trail, stepped] at member
        rcases List.mem_cons.mp member with same | later
        · cases same
          exact ⟨[], rest, rfl, rfl⟩
        · rcases ih onward later with ⟨before, after, rfl, reached⟩
          exact ⟨head :: before, after, rfl, by rw [climb, stepped]; exact reached⟩
  · rintro ⟨before, after, rfl, reached⟩
    rw [trail_append reached, List.mem_append]
    exact .inr List.mem_cons_self

end

/-- The height before a line, counted from nothing at the first one. -/
def stackHeight (arity : Nat → Nat) (code : Code) (position : Nat) : Nat :=
  (climb arity 0 (code.take position)).getD 0

/-- The heights are right for the code: each line takes the height before it to
the one after it, all jumps to a label leave from the height of that label, and
returns find the stack as it was at the start. -/
structure Disciplined (arity : Nat → Nat) (code : Code) (height : Nat → Nat) : Prop where
  entry : height 0 = 0
  step : ∀ before line after, code = before ++ line :: after → line.op ≠ .ret →
    line.op.step arity (height before.length) = some (height (before.length + 1))
  jump : ∀ before line after target, code = before ++ line :: after →
    line.op.target? = some target → target ∈ labels code ∧
      ∀ otherBefore other otherAfter, code = otherBefore ++ other :: otherAfter →
        other.label? = some target → height otherBefore.length = height before.length
  ret : ∀ before line after, code = before ++ line :: after → line.op = .ret →
    height before.length = 0

section

variable {arity : Nat → Nat} {body before part after : Code} {height : Nat}

theorem stack_height_of_prefix (reached : climb arity 0 before = some height) (rest : Code) :
    stackHeight arity (before ++ rest) before.length = height := by
  rw [stackHeight, List.take_left, reached, Option.getD_some]

theorem split_before_return {line : Line}
    (split : body ++ [Casl.line .ret] = before ++ line :: after) :
    (∃ rest, body = before ++ line :: rest) ∨ (before = body ∧ line = Casl.line .ret) := by
  rcases List.append_eq_append_iff.mp split with ⟨between, rfl, tail⟩ | ⟨between, rfl, tail⟩
  · cases between with
    | nil =>
        rw [List.nil_append] at tail
        exact .inr ⟨(List.append_nil body).symm ▸ rfl, (List.cons.inj tail).1.symm⟩
    | cons head rest => simp at tail
  · cases between with
    | nil =>
        rw [List.nil_append] at tail
        exact .inr ⟨(List.append_nil before).symm ▸ rfl, (List.cons.inj tail).1⟩
    | cons head rest =>
        cases (List.cons.inj tail).1
        exact .inl ⟨rest, rfl⟩

theorem reached_line (moves : Moves arity 0 body 0) {line : Line}
    (split : body = before ++ line :: after) :
    ∃ height next, climb arity 0 before = some height ∧ line.op.step arity height = some next ∧
      climb arity 0 (before ++ [line]) = some next := by
  have climbs : climb arity 0 body = some 0 := (moves 0).climbs
  rw [split] at climbs
  rcases climb_prefix climbs with ⟨height, reached, onward⟩
  rcases Option.bind_eq_some_iff.mp onward with ⟨next, stepped, _⟩
  refine ⟨height, next, reached, stepped, ?_⟩
  rw [climb_append, reached, Option.bind_some, climb, stepped]
  rfl

theorem jump_arrives (moves : Moves arity 0 body 0) {line : Line} {target : Label}
    (split : body = before ++ line :: after) (reached : climb arity 0 before = some height)
    (jumps : line.op.target? = some target) :
    ∃ front marked back, body = front ++ marked :: back ∧ marked.label? = some target ∧
      climb arity 0 front = some height := by
  have passes : Passes arity (marks arity 0 body) 0 body 0 := moves 0
  have leaping : (target, height) ∈ leaps arity 0 body := by
    apply List.mem_filterMap.mpr
    refine ⟨(line, height), (mem_trail passes.climbs).mpr ⟨before, after, split, reached⟩, ?_⟩
    rw [jumps, Option.map_some]
  rcases List.mem_filterMap.mp (passes.lands _ leaping) with ⟨⟨marked, level⟩, trailed, same⟩
  rcases Option.map_eq_some_iff.mp same with ⟨label, labelled, pair⟩
  cases pair
  rcases (mem_trail passes.climbs).mp trailed with ⟨front, back, placed, arrived⟩
  exact ⟨front, marked, back, placed, labelled, arrived⟩

theorem return_disciplined (moves : Moves arity 0 body 0) (once : (labels body).Nodup) :
    Disciplined arity (body ++ [line .ret]) (stackHeight arity (body ++ [line .ret])) where
  entry := rfl
  step before current after split notReturn := by
    rcases split_before_return split with ⟨rest, inBody⟩ | ⟨_, returns⟩
    · rcases reached_line moves inBody with ⟨height, next, reached, stepped, reachedNext⟩
      have regrouped : before ++ current :: after = (before ++ [current]) ++ after := by simp
      have behind : before.length + 1 = (before ++ [current]).length := by simp
      rw [split, stack_height_of_prefix reached, stepped, regrouped, behind,
        stack_height_of_prefix reachedNext]
    · exact absurd (by rw [returns]; rfl) notReturn
  jump before current after target split jumps := by
    rcases split_before_return split with ⟨rest, inBody⟩ | ⟨_, returns⟩
    · rcases reached_line moves inBody with ⟨height, _, reached, _, _⟩
      rcases jump_arrives moves inBody reached jumps with
        ⟨front, marked, back, placed, labelled, arrived⟩
      have whole : body ++ [line .ret] = front ++ marked :: (back ++ [line .ret]) := by
        rw [placed, List.append_assoc, List.cons_append]
      have distinct : (labels (front ++ marked :: (back ++ [line .ret]))).Nodup := by
        rw [← whole, labels_append, labels_line, labels_nil, List.append_nil]
        exact once
      constructor
      · rw [whole]
        exact List.mem_filterMap.mpr ⟨marked, by simp, labelled⟩
      · intro otherBefore other otherAfter otherSplit otherLabelled
        -- the heights were compared at one place of the label, and there is no other
        have placedOnce := label_once (whole.symm.trans otherSplit) distinct labelled otherLabelled
        rw [← placedOnce]
        conv_rhs => rw [split, stack_height_of_prefix reached]
        rw [whole, stack_height_of_prefix arrived]
    · rw [returns] at jumps
      cases jumps
  ret before current after split returns := by
    rcases split_before_return split with ⟨rest, inBody⟩ | ⟨same, _⟩
    · rcases reached_line moves inBody with ⟨_, _, _, stepped, _⟩
      rw [returns] at stepped
      cases stepped
    · rw [split, same]
      exact stack_height_of_prefix (moves 0).climbs _

end

/-- Wherever the part stands in the code, the height after it is `gain` more than
before it and never less in between. -/
def Raises (height : Nat → Nat) (code part : Code) (gain : Nat) : Prop :=
  ∀ before after, code = before ++ part ++ after →
    height (before.length + part.length) = height before.length + gain ∧
      ∀ count ≤ part.length, height before.length ≤ height (before.length + count)

section

variable {arity : Nat → Nat} {body before part after : Code} {gain : Nat}

theorem reached_part (moves : Moves arity 0 body 0) (raised : Moves arity 0 part gain)
    (split : body ++ [line .ret] = before ++ part ++ after) :
    (∃ height, climb arity 0 before = some height) ∨ (part = [] ∧ gain = 0) := by
  have climbs : climb arity 0 body = some 0 := (moves 0).climbs
  rw [List.append_assoc] at split
  rcases List.append_eq_append_iff.mp split with ⟨between, rfl, tail⟩ | ⟨between, rfl, _⟩
  · cases between with
    | nil =>
        rw [List.append_nil]
        exact .inl ⟨0, climbs⟩
    | cons head rest =>
        have nothing : part = [] := by
          have ended := (List.cons.inj tail).2
          simp at ended
          exact ended.2.1
        subst nothing
        have same := Option.some.inj (raised 0).climbs
        exact .inr ⟨rfl, by omega⟩
  · rcases climb_prefix climbs with ⟨height, reached, _⟩
    exact .inl ⟨height, reached⟩

theorem part_raises (moves : Moves arity 0 body 0) (raised : Moves arity 0 part gain) :
    Raises (stackHeight arity (body ++ [line .ret])) (body ++ [line .ret]) part gain := by
  intro before after split
  rcases reached_part moves raised split with ⟨height, reached⟩ | ⟨rfl, rfl⟩
  · -- The part is walked from the bottom first and then moved up to where it stands.
    have within (count : Nat) : ∃ level,
        climb arity 0 (part.take count) = some level ∧
          stackHeight arity (body ++ [line .ret]) (before.length + (part.take count).length) =
            height + level := by
      have climbs : climb arity 0 part = some (0 + gain) := (raised 0).climbs
      rw [← List.take_append_drop count part] at climbs
      rcases climb_prefix climbs with ⟨level, taken, _⟩
      refine ⟨level, taken, ?_⟩
      have above := climb_above taken height
      rw [Nat.zero_add] at above
      have arrived : climb arity 0 (before ++ part.take count) = some (height + level) := by
        rw [climb_append, reached, Option.bind_some, above, Nat.add_comm]
      have regrouped : body ++ [line .ret] =
          (before ++ part.take count) ++ (part.drop count ++ after) := by
        rw [split]
        conv_lhs => rw [← List.take_append_drop count part]
        simp only [List.append_assoc]
      rw [regrouped, ← List.length_append, stack_height_of_prefix arrived]
    have began : stackHeight arity (body ++ [line .ret]) before.length = height := by
      rw [split, List.append_assoc, stack_height_of_prefix reached]
    constructor
    · rcases within part.length with ⟨level, taken, ended⟩
      have whole : climb arity 0 part = some (0 + gain) := (raised 0).climbs
      rw [List.take_length] at taken ended
      rw [whole, Nat.zero_add] at taken
      cases taken
      rw [ended, began]
    · intro count bounded
      rcases within count with ⟨level, _, ended⟩
      rw [List.length_take, Nat.min_eq_left bounded] at ended
      rw [ended, began]
      exact Nat.le_add_right _ _
  · constructor
    · rfl
    · intro count bounded
      cases Nat.le_zero.mp bounded
      exact Nat.le_refl _

end

theorem parts_of_eq (body : List Stmt) : partsOf body = body.flatMap Stmt.parts := by
  induction body with
  | nil => rfl
  | cons first rest ih => rw [partsOf, List.flatMap_cons, ih]

theorem parts_of_typed {context : Context} {body : List Stmt}
    (each : ∀ statement ∈ body, ∀ part ∈ statement.parts, context.WellTyped part) :
    ∀ part ∈ partsOf body, context.WellTyped part := by
  intro part member
  rw [parts_of_eq] at member
  rcases List.mem_flatMap.mp member with ⟨statement, inside, held⟩
  exact each statement inside part held

theorem parts_typed {context : Context} {statement : Stmt}
    (typed : context.WellTyped statement) :
    ∀ part ∈ statement.parts, context.WellTyped part := by
  induction typed with
  | assign assigned given => simpa [Stmt.parts] using .assign assigned given
  | call known given => simpa [Stmt.parts] using .call known given
  | ifThen test taken ih =>
      exact List.forall_mem_cons.mpr ⟨.ifThen test taken, parts_of_typed ih⟩
  | ifElse test taken skipped takenIh skippedIh =>
      refine List.forall_mem_cons.mpr ⟨.ifElse test taken skipped, ?_⟩
      rw [List.forall_mem_append]
      exact ⟨parts_of_typed takenIh, parts_of_typed skippedIh⟩
  | whileDo test repeated ih =>
      exact List.forall_mem_cons.mpr ⟨.whileDo test repeated, parts_of_typed ih⟩
  | read each => simpa [Stmt.parts] using .read each
  | write each => simpa [Stmt.parts] using .write each
  | block each ih => exact List.forall_mem_cons.mpr ⟨.block each, parts_of_typed ih⟩

/-- The piece of code that belongs to `body` gives heights to its lines, at which
its statements change nothing and its expressions add one word. -/
def PieceDisciplined (arity : Nat → Nat) (env : Env) (body : List Stmt) (code : Code) : Prop :=
  ∃ height, Disciplined arity code height ∧
    (∀ statement ∈ partsOf body, Includes (env.CodesStmt statement) code ∧
      ∀ part, env.CodesStmt statement part → Raises height code part 0) ∧
    ∀ value ∈ valuesOf body, ∀ node ∈ value.nodes, Includes (env.CodesExpr node) code ∧
      ∀ part, env.CodesExpr node part → Raises height code part 1

theorem piece_disciplined {env : Env} {context : Context} {arity : Nat → Nat} {body : List Stmt}
    {supply after : Supply} {code : Code} (takes : env.Takes context arity)
    (typed : ∀ statement ∈ body, context.WellTyped statement)
    (generated : env.stmts body supply = (.ok code, after)) :
    PieceDisciplined arity env body (code ++ [line .ret]) := by
  have moves : Moves arity 0 code 0 :=
    stmts_move (fun statement member => stmt_moves takes (typed statement member)) generated
  have once := (stmts_numbered body generated).distinct
  refine ⟨_, return_disciplined moves once, fun statement member => ⟨?_, ?_⟩,
    fun value member node inside => ⟨?_, ?_⟩⟩
  · exact (stmts_parts_held body generated statement member).left
  · rintro part ⟨_, _, coded⟩
    have partTyped := parts_of_typed (fun other within => parts_typed (typed other within))
      statement member
    exact part_raises moves (stmt_moves takes partTyped coded)
  · exact (body_nodes_held generated value member node inside).left
  · rintro part ⟨_, _, _, coded⟩
    exact part_raises moves (expr_moves coded)

def Program.arity (program : Program) (number : Nat) : Nat :=
  (program.procedures[number]?.map fun procedure => procedure.params.length).getD 0

theorem block_takes {program : Program} (wellTyped : program.WellTyped) {block : Block}
    (listed : block ∈ program.blocks) :
    (block.env program).Takes (block.context program) program.arity := by
  intro name formals frame member found
  obtain ⟨rest, split⟩ := known_first listed
  rcases procedure_of_frame rfl found with ⟨earlier, procedure, later, knownSplit, rfl, named⟩
  rcases List.mem_map.mp member with ⟨other, otherKnown, entry⟩
  cases entry
  have inProgram (item : Procedure) (inside : item ∈ block.known program) :
      item ∈ program.procedures := by
    rw [← split]
    exact List.mem_append_left _ inside
  have held : procedure ∈ block.known program := by
    rw [knownSplit]
    simp
  have same : procedure = other := List.inj_on_of_nodup_map wellTyped.procedureNames
    (inProgram procedure held) (inProgram other otherKnown) named
  have placed : program.procedures[earlier.length]? = some procedure := by
    rw [knownSplit, List.append_assoc] at split
    exact procedure_at split.symm
  have ordinal : (frameAfter program earlier procedure).ordinal = earlier.length := rfl
  rw [ordinal, Program.arity, placed, Option.map_some, Option.getD_some, same, List.length_map]

theorem block_disciplined {program : Program} (wellTyped : program.WellTyped) {block : Block}
    (listed : block ∈ program.blocks) {supply after : Supply} {code : Code}
    (generated : (block.env program).stmts (block.statements program) supply =
      (.ok code, after)) :
    PieceDisciplined program.arity (block.env program) (block.statements program)
      (code ++ [line .ret]) :=
  piece_disciplined (block_takes wellTyped listed) (block_typed wellTyped listed) generated

/-- The code of an accepted program keeps the stack in order: in the main code
behind its header and in each procedure behind its parameters every line has one
height. -/
theorem stack_disciplined (program : Program) (accepted : program.check = .ok ()) :
    ∃ listing, Listing.ofProgram program = .ok listing ∧
      listing.main ++ [line .ret] <+: listing.lines.drop 3 ∧
      PieceDisciplined program.arity (Block.env program .main) program.body
        (listing.main ++ [line .ret]) ∧
      ∀ number procedure, program.procedures[number]? = some procedure →
        ∃ frame code, (Layout.ofProgram program).frames[number]? = some frame ∧
          listing.procedures[number]? = some ([place (.procedure number)] ++
            prologue frame.base procedure.params.length ++ code) ∧
          PieceDisciplined program.arity
            (Block.env program (.procedure (program.procedures.take number) procedure))
            procedure.body code := by
  have wellTyped := check_sound accepted
  rcases listing_exists wellTyped with ⟨listing, generated⟩
  rcases listing_inv generated with ⟨_, _, _, mainCoded, _⟩
  refine ⟨listing, generated, ?_, ?_, fun number procedure member => ?_⟩
  · rw [Listing.lines]
    simp only [List.append_assoc]
    exact ⟨_, List.append_assoc _ _ _⟩
  · exact block_disciplined wellTyped (mem_blocks.mpr (.inr rfl)) mainCoded
  · rcases split_at_member member with ⟨earlier, later, split, rfl⟩
    rcases procedure_listed generated split with ⟨body, _, _, listed, coded⟩
    have taken : program.procedures.take earlier.length = earlier := by
      rw [split, List.take_left]
    refine ⟨_, body ++ [line .ret], program_frame_at split, ?_, ?_⟩
    · rw [listed, List.append_assoc]
      rfl
    · rw [taken]
      exact block_disciplined wellTyped (mem_blocks.mpr (.inl ⟨_, _, _, split, rfl⟩)) coded

theorem tally_stack_disciplined :
    tally.check = .ok () ∧ tally.arity 0 = 2 ∧
      ∃ listing code, Listing.ofProgram tally = .ok listing ∧
        PieceDisciplined tally.arity (Block.env tally .main) tally.body
          (listing.main ++ [line .ret]) ∧
        listing.procedures[1]? = some ([place (.procedure 1)] ++ prologue 10 1 ++ code) ∧
        PieceDisciplined tally.arity
          (Block.env tally (.procedure (tally.procedures.take 1) tally.procedures[1]))
          tally.procedures[1].body code := by
  have accepted : tally.check = .ok () := by decide
  rcases stack_disciplined tally accepted with ⟨listing, generated, _, main, procedures⟩
  rcases procedures 1 tally.procedures[1] rfl with ⟨frame, code, framed, listed, piece⟩
  cases framed
  exact ⟨accepted, rfl, listing, code, generated, main, listed, piece⟩

end PascalCasl
