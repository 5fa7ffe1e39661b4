import Mathlib.Logic.Relation
import PascalCasl.Proofs.Code.StackDiscipline

/-!
Calls in generated code. Every call of a procedure comes from a call statement,
and the stack holds nothing where the code of that statement begins. A procedure
knows the procedures before it and itself. A call of itself keeps the frame on
the stack, any other call keeps nothing, and so no procedure is entered again
while its cells are in use without being kept.
-/

namespace PascalCasl

open Casl

/-- Every call in the code is as `site` says of the code before it, of the
procedure and of the code behind it. -/
def CallsAre (site : Code → Nat → Code → Prop) (code : Code) : Prop :=
  ∀ before current callee after, code = before ++ current :: after →
    current.op = .call (.procedure callee) → site before callee after

theorem calls_append {site : Code → Nat → Code → Prop} {first second : Code}
    (inFirst : CallsAre (fun before callee after => site before callee (after ++ second)) first)
    (inSecond : CallsAre (fun before callee after => site (first ++ before) callee after) second) :
    CallsAre site (first ++ second) := by
  intro before current callee after split calls
  rcases List.append_eq_append_iff.mp split with ⟨between, rfl, tail⟩ | ⟨between, rfl, tail⟩
  · exact inSecond between current callee after tail calls
  · cases between with
    | nil =>
        have begun := inSecond [] current callee after tail.symm calls
        simpa only [List.append_nil] using begun
    | cons head rest =>
        rcases List.cons.inj tail with ⟨rfl, rfl⟩
        exact inFirst before current callee rest rfl calls

/-- No line of the code calls a procedure. -/
def CallFree (code : Code) : Prop := ∀ line ∈ code, ∀ callee, line.op ≠ .call (.procedure callee)

theorem free_of_resolved {names : List Label} {texts : Nat} {code : Code}
    (resolved : Resolved names texts 0 code) : CallFree code := by
  intro line member callee calls
  have mentioned := (resolved line member).2
  rw [calls] at mentioned
  exact absurd (mentioned rfl (.procedure callee) (by simp)) (Nat.not_lt_zero callee)

theorem calls_none {site : Code → Nat → Code → Prop} {code : Code} (free : CallFree code) :
    CallsAre site code := by
  rintro before current callee after rfl calls
  exact absurd calls (free current (by simp) callee)

/-- A call between `before` and `after` that is written in one of the statements.
Its arguments stand right before it. A call of the current procedure has the
frame pushed before the arguments and popped right after. The stack is as at the
start of the piece where all this begins, and again where it ends: no word is
kept for another call, and none is popped behind it. -/
inductive CallSite (env : Env) (arity : Nat → Nat) (statements : List Stmt) :
    Code → Nat → Code → Prop where
  | own (front back : Code) {nodeLine : Nat} {name : String} {arguments : List Expr}
      {frame : Frame} {supply later : Supply} {argumentCode : Code}
      (written : .call nodeLine name arguments ∈ statements)
      (found : env.procedure? name = some frame) (same : env.current = some frame.ordinal)
      (coded : env.exprs arguments.reverse supply = (.ok argumentCode, later))
      (level : climb arity 0 front = some 0) (onward : climb arity 0 back = some 0) :
      CallSite env arity statements (front ++ frame.save ++ argumentCode) frame.ordinal
        (frame.restore ++ back)
  | other (front back : Code) {nodeLine : Nat} {name : String} {arguments : List Expr}
      {frame : Frame} {supply later : Supply} {argumentCode : Code}
      (written : .call nodeLine name arguments ∈ statements)
      (found : env.procedure? name = some frame) (different : env.current ≠ some frame.ordinal)
      (coded : env.exprs arguments.reverse supply = (.ok argumentCode, later))
      (level : climb arity 0 front = some 0) (onward : climb arity 0 back = some 0) :
      CallSite env arity statements (front ++ argumentCode) frame.ordinal back

section

variable {env : Env} {arity : Nat → Nat} {statements others : List Stmt}
  {first second code : Code} {context : Context}

theorem level_append (begun : climb arity 0 first = some 0)
    (ended : climb arity 0 second = some 0) : climb arity 0 (first ++ second) = some 0 := by
  rw [climb_append, begun]
  exact ended

theorem CallSite.extend {before after : Code} {callee : Nat}
    (site : CallSite env arity statements before callee after) {front back : Code}
    (level : climb arity 0 front = some 0) (onward : climb arity 0 back = some 0) :
    CallSite env arity statements (front ++ before) callee (after ++ back) := by
  cases site with
  | own _ _ written found same coded innerLevel innerOnward =>
      rw [← List.append_assoc, ← List.append_assoc, List.append_assoc _ _ back]
      exact .own _ _ written found same coded (level_append level innerLevel)
        (level_append innerOnward onward)
  | other _ _ written found different coded innerLevel innerOnward =>
      rw [← List.append_assoc]
      exact .other _ _ written found different coded (level_append level innerLevel)
        (level_append innerOnward onward)

theorem CallSite.mono {before after : Code} {callee : Nat}
    (site : CallSite env arity statements before callee after)
    (within : ∀ statement ∈ statements, statement ∈ others) :
    CallSite env arity others before callee after := by
  cases site with
  | own _ _ written found same coded level onward =>
      exact .own _ _ (within _ written) found same coded level onward
  | other _ _ written found different coded level onward =>
      exact .other _ _ (within _ written) found different coded level onward

/-- Code that leaves the stack as it was and whose calls are written in the
statements. -/
structure Sited (env : Env) (arity : Nat → Nat) (statements : List Stmt) (code : Code) : Prop where
  level : climb arity 0 code = some 0
  sites : CallsAre (CallSite env arity statements) code

theorem Sited.mono (sited : Sited env arity statements code)
    (within : ∀ statement ∈ statements, statement ∈ others) : Sited env arity others code :=
  ⟨sited.level, fun before current callee after split calls =>
    (sited.sites before current callee after split calls).mono within⟩

theorem Sited.append (begun : Sited env arity statements first)
    (ended : Sited env arity statements second) : Sited env arity statements (first ++ second) where
  level := level_append begun.level ended.level
  sites := by
    have nothing : climb arity 0 [] = some 0 := rfl
    apply calls_append
    · intro before current callee after split calls
      exact (begun.sites before current callee after split calls).extend nothing ended.level
    · intro before current callee after split calls
      have moved :=
        (ended.sites before current callee after split calls).extend begun.level nothing
      rwa [List.append_nil] at moved

theorem sited_free (level : climb arity 0 code = some 0) (free : CallFree code) :
    Sited env arity statements code := ⟨level, calls_none free⟩

theorem call_sites {nodeLine : Nat} {name : String} {arguments : List Expr}
    {supply after : Supply}
    (generated : env.call name arguments nodeLine supply = (.ok code, after)) :
    CallsAre (CallSite env arity [.call nodeLine name arguments]) code := by
  rcases call_inv generated with ⟨frame, argumentCode, found, coded, rfl⟩
  have written : Stmt.call nodeLine name arguments ∈ [Stmt.call nodeLine name arguments] :=
    List.mem_singleton_self _
  have argued {site : Code → Nat → Code → Prop} : CallsAre site argumentCode :=
    calls_none (free_of_resolved (exprs_resolved coded))
  have saved : Resolved [] 0 0 frame.save := save_resolved frame
  have restored : Resolved [] 0 0 frame.restore := restore_resolved frame
  have nothing : climb arity 0 [] = some 0 := rfl
  -- Only the last line of the plain code can be the call.
  have plain {site : Code → Nat → Code → Prop} (holds : site argumentCode frame.ordinal []) :
      CallsAre site (argumentCode ++ [line (.call (.procedure frame.ordinal))]) := by
    refine calls_append argued ?_
    intro before current callee rest split calls
    rcases List.append_eq_singleton_iff.mp split.symm with ⟨rfl, last⟩ | ⟨_, none⟩
    · cases last
      cases calls
      rw [List.append_nil]
      exact holds
    · cases none
  by_cases own : env.current = some frame.ordinal
  · rw [if_pos own]
    refine calls_append (calls_append (calls_none (free_of_resolved saved)) (plain ?_))
      (calls_none (free_of_resolved restored))
    have site : CallSite env arity _ _ frame.ordinal (frame.restore ++ []) :=
      .own [] [] written found own coded nothing nothing
    rwa [List.append_nil] at site
  · rw [if_neg own]
    apply plain
    exact .other [] [] written found own coded nothing nothing

theorem stmts_sited {body : List Stmt} {supply after : Supply}
    (each : ∀ statement ∈ body, ∀ {supply after : Supply} {code : Code},
      env.stmt statement supply = (.ok code, after) → Sited env arity statement.parts code)
    (generated : env.stmts body supply = (.ok code, after)) :
    Sited env arity (partsOf body) code := by
  induction body generalizing supply code with
  | nil =>
      rcases stmts_nil_inv generated with ⟨rfl, _⟩
      exact sited_free rfl (by simp [CallFree])
  | cons first rest ih =>
      rcases List.forall_mem_cons.mp each with ⟨head, tail⟩
      rcases stmts_cons_inv generated with ⟨firstCode, others, _, coded, more, rfl⟩
      refine ((head coded).mono ?_).append ((ih tail more).mono ?_)
      · intro statement member
        exact List.mem_append_left _ member
      · intro statement member
        exact List.mem_append_right _ member

theorem test_sited (label : Label) {test : Code} {supply after : Supply} {pushed : Pushed}
    {condition : Expr} (tested : env.expr condition supply = (.ok (pushed, test), after)) :
    Sited env arity statements (test ++ jumpIfFalse label) where
  level := by
    have climbs : climb arity 0 test = some 1 := (expr_moves tested 0).climbs
    rw [climb_append, climbs, Option.bind_some]
    exact jump_if_false_climbs label
  sites := calls_append (calls_none (free_of_resolved (expr_resolved tested)))
    (calls_none (by simp [CallFree, jumpIfFalse, popInto]))

theorem stmt_sited (takes : env.Takes context arity) {statement : Stmt}
    (typed : context.WellTyped statement) {supply after : Supply} {code : Code}
    (generated : env.stmt statement supply = (.ok code, after)) :
    Sited env arity statement.parts code := by
  induction typed generalizing supply after code with
  | assign assigned given =>
      have moves := stmt_moves takes (.assign assigned given) generated
      rcases assign_inv generated with ⟨_, _, _, _, _, located, coded, rfl⟩
      refine ⟨(moves 0).climbs, calls_append (calls_append
        (calls_none (free_of_resolved (target_resolved located)))
        (calls_none (free_of_resolved (expr_resolved coded)))) (calls_none ?_)⟩
      simp [CallFree, popInto, storeCell]
  | call known given =>
      have moves := stmt_moves takes (.call known given) generated
      exact ⟨(moves 0).climbs, call_sites generated⟩
  -- the test and the jumps call no procedure: only the body has sites
  | ifThen _ _ ih =>
      rcases if_then_inv generated with ⟨number, _, _, _, _, _, _, _, tested, coded, _, rfl⟩
      refine ((test_sited (.otherwise number) tested).append
        ((stmts_sited ih coded).mono ?_)).append (sited_free rfl (by simp [CallFree]))
      exact fun _ member => List.mem_cons_of_mem _ member
  | ifElse _ _ _ takenIh skippedIh =>
      rcases if_else_inv generated with ⟨number, _, _, _, _, _, _, _, _, _, _, _, _, tested,
        thenCoded, _, _, elseCoded, _, rfl⟩
      refine (((((test_sited (.otherwise number) tested).append
        ((stmts_sited takenIh thenCoded).mono ?_)).append
        (sited_free rfl (by simp [CallFree]))).append
        ((stmts_sited skippedIh elseCoded).mono ?_)).append (sited_free rfl (by simp [CallFree])))
      · exact fun _ member => List.mem_cons_of_mem _ (List.mem_append_left _ member)
      · exact fun _ member => List.mem_cons_of_mem _ (List.mem_append_right _ member)
  | whileDo _ _ ih =>
      rcases while_inv generated with ⟨number, _, _, _, _, _, _, _, tested, coded, _, rfl⟩
      rw [List.append_assoc [_]]
      refine (((sited_free rfl (by simp [CallFree])).append
        (test_sited (.endLoop number) tested)).append
        ((stmts_sited ih coded).mono ?_)).append (sited_free rfl (by simp [CallFree]))
      exact fun _ member => List.mem_cons_of_mem _ member
  | read each =>
      have moves := stmt_moves takes (.read each) generated
      rcases read_inv generated with ⟨_, coded, rfl⟩
      exact ⟨(moves 0).climbs, calls_append (calls_none (free_of_resolved (reads_resolved coded)))
        (calls_none (by simp [CallFree, callRoutine]))⟩
  | write each =>
      have moves := stmt_moves takes (.write each) generated
      rcases write_inv generated with ⟨_, coded, rfl⟩
      exact ⟨(moves 0).climbs, calls_append (calls_none (free_of_resolved (writes_resolved coded)))
        (calls_none (by simp [CallFree, callRoutine]))⟩
  | block _ ih =>
      refine (stmts_sited ih generated).mono ?_
      exact fun _ member => List.mem_cons_of_mem _ member

end

/-- A call of the procedure with this number is written in the statements, and its
arguments, the last one first, have this code. -/
def WrittenCall (program : Program) (env : Env) (body : List Stmt) (callee : Nat)
    (argumentCode : Code) : Prop :=
  ∃ procedure nodeLine arguments supply after,
    program.procedures[callee]? = some procedure ∧
    .call nodeLine procedure.name arguments ∈ partsOf body ∧
    env.exprs arguments.reverse supply = (.ok argumentCode, after)

def cellPushed (number : Nat) : Code :=
  [line (.load .gr2 (.literal (.number number))),
    line (.load .gr1 (.memory ⟨.label .variables, some .gr2⟩)),
    line (.push ⟨.number 0, some .gr1⟩)]

def cellPopped (number : Nat) : Code :=
  [line (.pop .gr1), line (.load .gr2 (.literal (.number number))),
    line (.store .gr1 ⟨.label .variables, some .gr2⟩)]

/-- The calls in the code of procedure `number`. The code before a call begins
with the entry and the parameters of the procedure; then comes `front`, which
leaves the stack empty. The code behind the call, up to the return, finds it
empty again, so it pops nothing that was pushed before the call. A call of itself
has the cells of the frame pushed before its arguments, and behind it popped in
the opposite order. -/
structure CallsCompensated (program : Program) (number : Nat) (procedure : Procedure)
    (frame : Frame) (before : Code) (callee : Nat) (after : Code) : Prop where
  earlier : callee ≤ number
  bracketed : ∃ front argumentCode,
    WrittenCall program
      (Block.env program (.procedure (program.procedures.take number) procedure)) procedure.body
      callee argumentCode ∧
    climb program.arity 0 front = some 0 ∧
    (callee = number →
      before = [place (.procedure number)] ++ prologue frame.base procedure.params.length ++
          front ++ (List.range' frame.base frame.size).flatMap cellPushed ++ argumentCode ∧
        ∃ back, climb program.arity 0 back = some 0 ∧
          after = (List.range' frame.base frame.size).reverse.flatMap cellPopped ++ back ++
            [line .ret]) ∧
    (callee < number →
      before = [place (.procedure number)] ++ prologue frame.base procedure.params.length ++
          front ++ argumentCode ∧
        ∃ back, climb program.arity 0 back = some 0 ∧ after = back ++ [line .ret])

/-- Somewhere in its code one procedure calls the other. -/
def Listing.Calls (listing : Listing) (caller callee : Nat) : Prop :=
  ∃ code, listing.procedures[caller]? = some code ∧
    ∃ current ∈ code, current.op = .call (.procedure callee)

theorem callee_known {program : Program} {block : Block} (member : block ∈ program.blocks)
    {name : String} {frame : Frame} (found : (block.env program).procedure? name = some frame) :
    frame.ordinal < (block.known program).length ∧
      (Layout.ofProgram program).frames[frame.ordinal]? = some frame ∧
      ∃ procedure, program.procedures[frame.ordinal]? = some procedure ∧
        procedure.name = name := by
  obtain ⟨rest, split⟩ := known_first member
  rcases procedure_of_frame rfl found with ⟨earlier, procedure, later, known, rfl, named⟩
  have whole : program.procedures = earlier ++ procedure :: (later ++ rest) := by
    rw [← split, known, List.append_assoc, List.cons_append]
  exact ⟨by simp [known, frameAfter, Frame.ofProcedure], program_frame_at whole, procedure,
    procedure_at whole, named⟩

theorem block_sited {program : Program} (wellTyped : program.WellTyped) {block : Block}
    (member : block ∈ program.blocks) {supply after : Supply} {code : Code}
    (coded : (block.env program).stmts (block.statements program) supply = (.ok code, after)) :
    Sited (block.env program) program.arity (partsOf (block.statements program)) code :=
  stmts_sited (fun statement inside =>
    stmt_sited (block_takes wellTyped member) (block_typed wellTyped member statement inside))
    coded

theorem procedure_calls {program : Program} (wellTyped : program.WellTyped)
    {earlier later : List Procedure} {procedure : Procedure} {body : Code}
    {supply after : Supply} (split : program.procedures = earlier ++ procedure :: later)
    (coded : (Block.env program (.procedure earlier procedure)).stmts procedure.body supply =
      (.ok body, after)) :
    CallsAre (CallsCompensated program earlier.length procedure
        (frameAfter program earlier procedure))
      (Block.opening program (.procedure earlier procedure) ++ body ++ [line .ret]) := by
  have member : Block.procedure earlier procedure ∈ program.blocks :=
    mem_blocks.mpr (.inl ⟨_, _, _, split, rfl⟩)
  have sited := block_sited wellTyped member coded
  have entered : Resolved [] 0 0
      (prologue (frameAfter program earlier procedure).base procedure.params.length) :=
    prologue_resolved _ _
  have taken : program.procedures.take earlier.length = earlier := by rw [split, List.take_left]
  refine calls_append (calls_append (calls_append (calls_none (by simp [CallFree]))
    (calls_none (free_of_resolved entered))) ?_) (calls_none (by simp [CallFree]))
  intro before current callee rest inBody calls
  cases sited.sites before current callee rest inBody calls with
  -- the block calls itself: the frame found is its own, and its cells are saved around the call
  | @own front back nodeLine name arguments frame _ _ argumentCode written found same argued level
      onward =>
      rcases callee_known member found with ⟨_, framed, target, placed, rfl⟩
      have number : earlier.length = frame.ordinal := Option.some.inj same
      rw [← number] at framed placed ⊢
      rw [program_frame_at split] at framed
      cases framed
      refine ⟨Nat.le_refl _, front, argumentCode, ?_, level, fun _ => ⟨?_, ?_⟩,
        fun less => absurd less (Nat.lt_irrefl _)⟩
      · rw [taken]
        exact ⟨target, nodeLine, arguments, _, _, placed, written, argued⟩
      · simp only [List.append_assoc]
        rfl
      · exact ⟨back, onward, rfl⟩
  -- an earlier procedure, since a block knows none after itself
  | @other front _ nodeLine name arguments frame _ _ argumentCode written found different argued
      level onward =>
      rcases callee_known member found with ⟨below, _, target, placed, rfl⟩
      rw [Block.known, List.length_append, List.length_singleton] at below
      have apart : frame.ordinal ≠ earlier.length := fun same => different (same ▸ rfl)
      refine ⟨by omega, front, argumentCode, ?_, level, fun same => absurd same apart,
        fun _ => ⟨?_, rest, onward, rfl⟩⟩
      · rw [taken]
        exact ⟨target, nodeLine, arguments, _, _, placed, written, argued⟩
      · simp only [List.append_assoc]
        rfl

theorem main_calls {program : Program} (wellTyped : program.WellTyped) {main : Code}
    {supply after : Supply}
    (coded : (Block.env program .main).stmts program.body supply = (.ok main, after)) :
    CallsAre (fun before callee after => ∃ front argumentCode,
      WrittenCall program (Block.env program .main) program.body callee argumentCode ∧
      climb program.arity 0 front = some 0 ∧ before = front ++ argumentCode ∧
      climb program.arity 0 after = some 0) main := by
  have member : Block.main ∈ program.blocks := mem_blocks.mpr (.inr rfl)
  have sited := block_sited wellTyped member coded
  intro before current callee rest split calls
  cases sited.sites before current callee rest split calls with
  | own _ _ _ _ same _ _ _ => cases same
  | @other front _ nodeLine name arguments _ _ _ _ written found _ argued level onward =>
      rcases callee_known member found with ⟨_, _, target, placed, rfl⟩
      exact ⟨front, _, ⟨target, nodeLine, arguments, _, _, placed, written, argued⟩, level, rfl,
        onward⟩

theorem listed_calls {program : Program} (wellTyped : program.WellTyped) {listing : Listing}
    (generated : Listing.ofProgram program = .ok listing) {number : Nat} {code : Code}
    (listed : listing.procedures[number]? = some code) :
    ∃ procedure frame, program.procedures[number]? = some procedure ∧
      (Layout.ofProgram program).frames[number]? = some frame ∧
      CallsAre (CallsCompensated program number procedure frame) code := by
  have below := (List.getElem?_eq_some_iff.mp listed).1
  rw [listing_procedures_length generated] at below
  have member := List.getElem?_eq_getElem below
  rcases split_at_member member with ⟨earlier, later, split, rfl⟩
  rcases procedure_listed generated split with ⟨body, _, _, placed, coded⟩
  rw [listed] at placed
  cases placed
  exact ⟨_, _, member, program_frame_at split, procedure_calls wellTyped split coded⟩

theorem calls_descend {program : Program} (wellTyped : program.WellTyped) {listing : Listing}
    (generated : Listing.ofProgram program = .ok listing) {caller callee : Nat}
    (path : Relation.TransGen listing.Calls caller callee) : callee ≤ caller := by
  have once {caller callee : Nat} (calls : listing.Calls caller callee) : callee ≤ caller := by
    rcases calls with ⟨code, listed, current, member, called⟩
    rcases listed_calls wellTyped generated listed with ⟨_, _, _, _, sites⟩
    rcases List.append_of_mem member with ⟨before, after, split⟩
    exact (sites before current callee after split called).earlier
  induction path with
  | single calls => exact once calls
  | tail _ calls ih => exact Nat.le_trans (once calls) ih

/-- In an accepted program a procedure calls itself and earlier ones only, so there
is no recursion through several procedures. A call of itself keeps the frame,
and no other call keeps anything. -/
theorem calls_compensated (program : Program) (accepted : program.check = .ok ()) :
    ∃ listing, Listing.ofProgram program = .ok listing ∧
      (∀ number code, listing.procedures[number]? = some code →
        ∃ procedure frame, program.procedures[number]? = some procedure ∧
          (Layout.ofProgram program).frames[number]? = some frame ∧
          ∀ before current callee after, code = before ++ current :: after →
            current.op = .call (.procedure callee) →
            CallsCompensated program number procedure frame before callee after) ∧
      (∀ before current callee after, listing.main = before ++ current :: after →
        current.op = .call (.procedure callee) →
        ∃ front argumentCode,
          WrittenCall program (Block.env program .main) program.body callee argumentCode ∧
          climb program.arity 0 front = some 0 ∧ before = front ++ argumentCode ∧
          climb program.arity 0 after = some 0) ∧
      ∀ first second, Relation.TransGen listing.Calls first second →
        Relation.TransGen listing.Calls second first → first = second := by
  have wellTyped := check_sound accepted
  rcases listing_exists wellTyped with ⟨listing, generated⟩
  rcases listing_inv generated with ⟨_, _, _, mainCoded, _⟩
  refine ⟨listing, generated, ?_, main_calls wellTyped mainCoded, ?_⟩
  · intro number code listed
    exact listed_calls wellTyped generated listed
  · intro first second forth back
    exact Nat.le_antisymm (calls_descend wellTyped generated back)
      (calls_descend wellTyped generated forth)

theorem tally_calls_compensated :
    tally.check = .ok () ∧
      ∃ listing code frame before after, Listing.ofProgram tally = .ok listing ∧
        listing.procedures[1]? = some code ∧
        (Layout.ofProgram tally).frames[1]? = some frame ∧
        code = before ++ line (.call (.procedure 1)) :: after ∧
        CallsCompensated tally 1 tally.procedures[1] frame before 1 after := by
  have accepted : tally.check = .ok () := by decide
  rcases calls_compensated tally accepted with ⟨listing, generated, compensated, _⟩
  have calling : (Listing.ofProgram tally).map (fun listing =>
      listing.procedures[1]?.map fun code => decide (line (.call (.procedure 1)) ∈ code)) =
      .ok (some true) := by decide +kernel
  rw [generated] at calling
  rcases Option.map_eq_some_iff.mp (Except.ok.inj calling) with ⟨code, listed, member⟩
  rcases compensated 1 code listed with ⟨procedure, frame, numbered, framed, sites⟩
  cases numbered
  rcases List.append_of_mem (of_decide_eq_true member) with ⟨before, after, split⟩
  exact ⟨accepted, listing, code, frame, before, after, generated, listed, framed, split,
    sites before _ 1 after split rfl⟩

end PascalCasl
