import PascalCasl.Proofs.Code.Closure

/-!
Heights of the stack along code. One walk over the lines gives each line the
height before it and fails where a word is popped that was not pushed. The code
of an expression or a target ends one above its start from any height, the code
of a statement where it began; jumps arrive at labels of the same height.
-/

namespace PascalCasl

open Casl

/-- The height after a line, where `arity` says how many words a procedure takes
from the stack. Only pushing, popping and calls may change the stack pointer,
and returning is left to the end of a piece of code. -/
def Casl.Op.step (arity : Nat → Nat) (height : Nat) : Op → Option Nat
  | .push _ => some (height + 1)
  | .pop register => if register = .gr8 ∨ height = 0 then none else some (height - 1)
  | .call (.routine _) => some height
  | .call (.procedure number) =>
      if arity number ≤ height then some (height - arity number) else none
  | .load register _ | .loadAddress register _ | .compute _ register _ =>
      if register = .gr8 then none else some height
  | .store _ _ | .compareSigned _ _ | .compareUnsigned _ _ | .jump _ _ | .nop => some height
  | .ret | .start _ | .reserve _ | .text _ | .finish => none

def climb (arity : Nat → Nat) : Nat → Code → Option Nat
  | height, [] => some height
  | height, first :: rest => (first.op.step arity height).bind fun next => climb arity next rest

/-- The lines, each with the height before it. -/
def trail (arity : Nat → Nat) : Nat → Code → List (Line × Nat)
  | _, [] => []
  | height, first :: rest =>
      (first, height) ::
        ((first.op.step arity height).map fun next => trail arity next rest).getD []

/-- Labels with the heights they stand at. -/
def marks (arity : Nat → Nat) (start : Nat) (code : Code) : List (Label × Nat) :=
  (trail arity start code).filterMap fun entry => entry.1.label?.map (·, entry.2)

/-- Targets of jumps with the heights they are left from. -/
def leaps (arity : Nat → Nat) (start : Nat) (code : Code) : List (Label × Nat) :=
  (trail arity start code).filterMap fun entry => entry.1.op.target?.map (·, entry.2)

variable {arity : Nat → Nat} {start middle finish : Nat} {first second code : Code}

theorem climb_append (arity : Nat → Nat) (start : Nat) (first second : Code) :
    climb arity start (first ++ second) =
      (climb arity start first).bind fun middle => climb arity middle second := by
  induction first generalizing start with
  | nil => rfl
  | cons head rest ih =>
      simp only [List.cons_append, climb, Option.bind_assoc]
      exact Option.bind_congr fun next _ => ih next

theorem trail_append (climbs : climb arity start first = some middle) :
    trail arity start (first ++ second) = trail arity start first ++ trail arity middle second := by
  induction first generalizing start with
  | nil =>
      cases climbs
      rfl
  | cons head rest ih =>
      rcases Option.bind_eq_some_iff.mp climbs with ⟨next, stepped, onward⟩
      simp only [List.cons_append, trail, stepped, Option.map_some, Option.getD_some, ih onward]

theorem trail_lines {line : Line} {height : Nat}
    (member : (line, height) ∈ trail arity start code) :
    line ∈ code := by
  induction code generalizing start with
  | nil => simp [trail] at member
  | cons head rest ih =>
      rcases List.mem_cons.mp member with same | later
      · cases same
        exact List.mem_cons_self
      · cases stepped : head.op.step arity start with
        | none => simp [stepped] at later
        | some next =>
            rw [stepped] at later
            exact List.mem_cons_of_mem _ (ih later)

theorem marks_append (climbs : climb arity start first = some middle) :
    marks arity start (first ++ second) = marks arity start first ++ marks arity middle second := by
  rw [marks, trail_append climbs, List.filterMap_append]
  rfl

theorem leaps_append (climbs : climb arity start first = some middle) :
    leaps arity start (first ++ second) = leaps arity start first ++ leaps arity middle second := by
  rw [leaps, trail_append climbs, List.filterMap_append]
  rfl

/-- The walk succeeds up to `finish`, and the jumps go to the given labels at
the heights given for them. -/
structure Passes (arity : Nat → Nat) (places : List (Label × Nat)) (start : Nat) (code : Code)
    (finish : Nat) : Prop where
  climbs : climb arity start code = some finish
  lands : ∀ place ∈ leaps arity start code, place ∈ places

variable {places others : List (Label × Nat)}

theorem Passes.mono (passes : Passes arity places start code finish)
    (grown : ∀ place ∈ places, place ∈ others) : Passes arity others start code finish :=
  ⟨passes.climbs, fun place member => grown place (passes.lands place member)⟩

theorem Passes.append (begun : Passes arity places start first middle)
    (ended : Passes arity places middle second finish) :
    Passes arity places start (first ++ second) finish where
  climbs := by
    rw [climb_append, begun.climbs]
    exact ended.climbs
  lands := by
    rw [leaps_append begun.climbs]
    exact List.forall_mem_append.mpr ⟨begun.lands, ended.lands⟩

/-- Code that finds `low` words and leaves `high`, with any number of words below
them that it does not touch, and jumps to its own labels only. -/
def Moves (arity : Nat → Nat) (low : Nat) (code : Code) (high : Nat) : Prop :=
  ∀ start, Passes arity (marks arity (start + low) code) (start + low) code (start + high)

namespace Moves

variable {low high between : Nat}

theorem append (begun : Moves arity low first between) (ended : Moves arity between second high) :
    Moves arity low (first ++ second) high := by
  intro start
  rw [marks_append (begun start).climbs]
  exact ((begun start).mono (by simp +contextual)).append
    ((ended start).mono (by simp +contextual))

theorem above (moves : Moves arity low code high) (more : Nat) :
    Moves arity (low + more) code (high + more) := by
  intro start
  have raised := moves (start + more)
  rw [Nat.add_assoc, Nat.add_assoc, Nat.add_comm more low, Nat.add_comm more high] at raised
  exact raised

theorem straight (climbs : ∀ start, climb arity (start + low) code = some (start + high))
    (onward : ∀ line ∈ code, line.op.target? = none) : Moves arity low code high := by
  intro start
  refine ⟨climbs start, ?_⟩
  have none : leaps arity (start + low) code = [] := by
    apply List.filterMap_eq_nil_iff.mpr
    rintro ⟨line, height⟩ member
    rw [onward line (trail_lines member), Option.map_none]
  simp [none]

end Moves

section

variable (arity)

theorem push_moves (address : Address) : Moves arity 0 [line (.push address)] 1 :=
  .straight (by simp [climb, Op.step]) (by simp)

theorem push_cell_moves : Moves arity 0 pushCell 1 :=
  .straight (by simp [climb, Op.step, pushCell, pushRegister]) (by simp [pushCell, pushRegister])

theorem push_address_moves (base : Nat) : Moves arity 0 (pushAddress base) 1 :=
  .straight (by simp [climb, Op.step, pushAddress, pushRegister])
    (by simp [pushAddress, pushRegister])

theorem save_cell_moves (number : Nat) : Moves arity 0 (saveCell number) 1 :=
  .straight (by simp [climb, Op.step, saveCell, loadNumber, pushCell, pushRegister])
    (by simp [saveCell, loadNumber, pushCell, pushRegister])

theorem restore_cell_moves (number : Nat) : Moves arity 1 (restoreCell number) 0 :=
  .straight (by simp [climb, Op.step, restoreCell, loadNumber, popInto, storeCell])
    (by simp [restoreCell, loadNumber, popInto, storeCell])

theorem locate_element_moves (base : Nat) (low : Int) :
    Moves arity 1 (locateElement base low) 0 :=
  .straight (by simp [climb, Op.step, locateElement, popInto]) (by simp [locateElement, popInto])

theorem unary_code_moves (op : UnaryOp) : Moves arity 1 (unaryCode op) 1 := by
  cases op <;> exact .straight (by simp [climb, Op.step, unaryCode, popInto, pushRegister])
    (by simp [unaryCode, popInto, pushRegister])

theorem pop_operands_moves (first second : Register) (firstFree : first ≠ .gr8)
    (secondFree : second ≠ .gr8) : Moves arity 2 [popInto first, popInto second] 0 :=
  .straight (by simp [climb, Op.step, popInto, firstFree, secondFree]) (by simp [popInto])

theorem store_cell_moves : Moves arity 0 [storeCell] 0 :=
  .straight (by simp [climb, Op.step, storeCell]) (by simp [storeCell])

theorem routine_moves (called : Routine) : Moves arity 0 [callRoutine called] 0 :=
  .straight (by simp [climb, Op.step, callRoutine]) (by simp [callRoutine])

theorem procedure_call_moves (number : Nat) :
    Moves arity (arity number) [line (.call (.procedure number))] 0 :=
  .straight (by simp [climb, Op.step]) (by simp)

theorem read_code_moves (value : Pushed) : Moves arity 1 (readCode value) 0 := by
  cases value <;> exact .straight (by simp [climb, Op.step, readCode, popInto, callRoutine])
    (by simp [readCode, popInto, callRoutine])

theorem write_code_moves (value : Pushed) : Moves arity 1 (writeCode value) 0 := by
  cases value <;> exact .straight (by simp [climb, Op.step, writeCode, popInto, callRoutine])
    (by simp [writeCode, popInto, callRoutine])

theorem saves_move (cells : List Nat) : Moves arity 0 (cells.flatMap saveCell) cells.length := by
  induction cells with
  | nil => exact .straight (fun _ => rfl) (by simp)
  | cons number rest ih =>
      rw [List.flatMap_cons, List.length_cons]
      have onward := ih.above 1
      rw [Nat.zero_add] at onward
      exact (save_cell_moves arity number).append onward

theorem restores_move (cells : List Nat) :
    Moves arity cells.length (cells.flatMap restoreCell) 0 := by
  induction cells with
  | nil => exact .straight (fun _ => rfl) (by simp)
  | cons number rest ih =>
      rw [List.flatMap_cons, List.length_cons, Nat.add_comm]
      have restored := (restore_cell_moves arity number).above rest.length
      rw [Nat.zero_add] at restored
      exact restored.append ih

end

section

variable {env : Env} {supply after : Supply} {pushed : Pushed}

theorem text_code_moves {text : String}
    (generated : textCode text supply = (.ok (pushed, code), after)) : Moves arity 0 code 1 := by
  rcases text_code_inv generated with ⟨_, _, _, _, rfl⟩ | ⟨_, _, _, _, rfl⟩
  · exact .straight (by simp [climb, Op.step, pushRegister]) (by simp [pushRegister])
  · exact .straight (by simp [climb, Op.step, pushRegister]) (by simp [pushRegister])

theorem comparison_moves (number : Nat) (operands : Pushed) (condition : Condition)
    (taken : Bool) : Moves arity 0 (comparison number operands condition taken) 1 := by
  have compared : Moves arity 0 [line (compareOp operands)] 0 := by
    rcases operands with type | length
    · cases type <;> exact .straight (fun _ => rfl) (by simp [compareOp])
    · exact .straight (fun _ => rfl) (by simp [compareOp])
  let target : Label := if taken then .onTrue number else .onFalse number
  refine @Moves.append _ [_] _ _ _ _ compared fun start => ⟨rfl, ?_⟩
  change ∀ place ∈ [(target, start), (.both number, start)],
    place ∈ [(target, start), (.both number, start)]
  exact fun _ member => member

theorem binary_code_moves {op : BinaryOp} {left : Pushed}
    (generated : binaryCode op left supply = (.ok code, after)) : Moves arity 0 code 1 := by
  rcases binary_code_inv generated with ⟨known, _⟩ | ⟨condition, taken, number, _, _, rfl⟩
  · cases op <;> cases known <;>
      exact .straight (by simp [climb, Op.step, pushRegister]) (by simp [pushRegister])
  · exact comparison_moves number left condition taken

theorem expr_moves {value : Expr}
    (generated : env.expr value supply = (.ok (pushed, code), after)) : Moves arity 0 code 1 := by
  induction value generalizing supply pushed code after with
  | number nodeLine value =>
      cases generated
      exact push_moves arity _
  | string nodeLine text => exact text_code_moves generated
  | truth nodeLine value =>
      cases generated
      exact .straight (by simp [climb, Op.step, loadTruth, pushRegister])
        (by simp [loadTruth, pushRegister])
  | simple nodeLine name =>
      rcases expr_simple_inv generated with ⟨_, ⟨_, _, _, _, rfl⟩ | ⟨_, _, _, _, _, _, rfl⟩⟩
      · exact save_cell_moves arity _
      · exact push_address_moves arity _
  | indexed nodeLine name index ih =>
      rcases expr_indexed_inv generated with ⟨base, _, low, _, _, indexCode, _, indexed, _, rfl⟩
      exact ((ih indexed).append (locate_element_moves arity base low)).append
        (push_cell_moves arity)
  | unary nodeLine op operand ih =>
      rcases expr_unary_inv generated with ⟨operandCode, coded, rfl⟩
      exact (ih coded).append (unary_code_moves arity op)
  | binary nodeLine op left right leftIh rightIh =>
      rcases expr_binary_inv generated with
        ⟨_, leftCode, _, rightCode, joint, _, _, leftCoded, rightCoded, joined, _, rfl⟩
      have operands := (leftIh leftCoded).append ((rightIh rightCoded).above 1)
      exact (operands.append (pop_operands_moves arity .gr2 .gr1 (by decide) (by decide))).append
        (binary_code_moves joined)

theorem target_moves {target : Target}
    (generated : env.target target supply = (.ok (pushed, code), after)) :
    Moves arity 0 code 1 := by
  cases target with
  | simple nodeLine name =>
      rcases target_simple_inv generated with ⟨_, ⟨_, _, _, _, rfl⟩ | ⟨_, _, _, _, _, _, rfl⟩⟩
      · exact push_moves arity _
      · exact push_address_moves arity _
  | indexed nodeLine name index =>
      rcases target_indexed_inv generated with ⟨base, _, low, _, _, indexCode, _, indexed, _, rfl⟩
      exact ((expr_moves indexed).append (locate_element_moves arity base low)).append
        (push_moves arity _)

theorem exprs_move {values : List Expr}
    (generated : env.exprs values supply = (.ok code, after)) :
    Moves arity 0 code values.length := by
  induction values generalizing supply code with
  | nil =>
      rcases exprs_nil_inv generated with ⟨rfl, _⟩
      exact .straight (fun _ => rfl) (by simp)
  | cons first rest ih =>
      rcases exprs_cons_inv generated with ⟨_, firstCode, others, _, coded, more, rfl⟩
      have onward := (ih more).above 1
      rw [Nat.zero_add] at onward
      exact (expr_moves coded).append onward

/-- Code that leaves the stack at its height can stand before any other such
code. -/
theorem level_composes : Composes fun _ code _ => Moves arity 0 code 0 where
  nothing _ := .straight (fun _ => rfl) (by simp)
  joined := Moves.append

theorem reads_move {targets : List Target}
    (generated : env.reads targets supply = (.ok code, after)) : Moves arity 0 code 0 :=
  level_composes.reads (fun _ _ _ _ pushed _ coded =>
    (target_moves coded).append (read_code_moves arity pushed)) generated

theorem writes_move {values : List Expr}
    (generated : env.writes values supply = (.ok code, after)) : Moves arity 0 code 0 :=
  level_composes.writes (fun _ _ _ _ pushed _ coded =>
    (expr_moves coded).append (write_code_moves arity pushed)) generated

end

theorem jump_if_false_climbs (label : Label) :
    climb arity (start + 1) (jumpIfFalse label) = some start := rfl

theorem jump_if_false_passes {label : Label} (placed : (label, start) ∈ places) :
    Passes arity places (start + 1) (jumpIfFalse label) start := by
  refine ⟨jump_if_false_climbs label, ?_⟩
  change ∀ place ∈ [(label, start)], place ∈ places
  simpa using placed

theorem jump_passes {label : Label} (placed : (label, start) ∈ places) :
    Passes arity places start [line (.jump .always label)] start := by
  refine ⟨rfl, ?_⟩
  change ∀ place ∈ [(label, start)], place ∈ places
  simpa using placed

theorem place_passes (label : Label) : Passes arity places start [place label] start := by
  refine ⟨rfl, ?_⟩
  change ∀ place ∈ [], place ∈ places
  simp

section

variable {test thenCode elseCode bodyCode : Code} {label endLabel : Label}

theorem if_then_moves (tested : Moves arity 0 test 1) (taken : Moves arity 0 thenCode 0) :
    Moves arity 0 (test ++ jumpIfFalse label ++ thenCode ++ [place label]) 0 := by
  intro start
  have testPasses : Passes arity _ start test (start + 1) := tested start
  have thenPasses : Passes arity _ start thenCode start := taken start
  have marked : marks arity start (test ++ jumpIfFalse label ++ thenCode ++ [place label]) =
      marks arity start test ++ (marks arity (start + 1) (jumpIfFalse label) ++
        (marks arity start thenCode ++ [(label, start)])) := by
    simp only [List.append_assoc]
    rw [marks_append testPasses.climbs, marks_append (jump_if_false_climbs label),
      marks_append thenPasses.climbs]
    rfl
  rw [Nat.add_zero, marked]
  exact (((testPasses.mono (by simp +contextual)).append (jump_if_false_passes (by simp))).append
    (thenPasses.mono (by simp +contextual))).append (place_passes label)

theorem if_else_moves (tested : Moves arity 0 test 1) (taken : Moves arity 0 thenCode 0)
    (skipped : Moves arity 0 elseCode 0) :
    Moves arity 0 (test ++ jumpIfFalse label ++ thenCode ++
      [line (.jump .always endLabel), place label] ++ elseCode ++ [place endLabel]) 0 := by
  intro start
  have testPasses : Passes arity _ start test (start + 1) := tested start
  have thenPasses : Passes arity _ start thenCode start := taken start
  have elsePasses : Passes arity _ start elseCode start := skipped start
  have joint : climb arity start [line (.jump .always endLabel), place label] = some start := rfl
  have marked : marks arity start (test ++ jumpIfFalse label ++ thenCode ++
      [line (.jump .always endLabel), place label] ++ elseCode ++ [place endLabel]) =
      marks arity start test ++ (marks arity (start + 1) (jumpIfFalse label) ++
        (marks arity start thenCode ++ ([(label, start)] ++
          (marks arity start elseCode ++ [(endLabel, start)])))) := by
    simp only [List.append_assoc]
    rw [marks_append testPasses.climbs, marks_append (jump_if_false_climbs label),
      marks_append thenPasses.climbs, marks_append joint, marks_append elsePasses.climbs]
    rfl
  rw [Nat.add_zero, marked]
  refine ((((testPasses.mono (by simp +contextual)).append (jump_if_false_passes (by simp))).append
    (thenPasses.mono (by simp +contextual))).append ?_).append
    (elsePasses.mono (by simp +contextual)) |>.append (place_passes endLabel)
  exact (jump_passes (by simp)).append (place_passes label)

theorem while_moves (tested : Moves arity 0 test 1) (repeated : Moves arity 0 bodyCode 0) :
    Moves arity 0 ([place label] ++ test ++ jumpIfFalse endLabel ++ bodyCode ++
      [line (.jump .always label), place endLabel]) 0 := by
  intro start
  have placed : climb arity start [place label] = some start := rfl
  have testPasses : Passes arity _ start test (start + 1) := tested start
  have bodyPasses : Passes arity _ start bodyCode start := repeated start
  have marked : marks arity start ([place label] ++ test ++ jumpIfFalse endLabel ++ bodyCode ++
      [line (.jump .always label), place endLabel]) =
      [(label, start)] ++ (marks arity start test ++
        (marks arity (start + 1) (jumpIfFalse endLabel) ++ (marks arity start bodyCode ++
          [(endLabel, start)]))) := by
    simp only [List.append_assoc]
    rw [marks_append placed, marks_append testPasses.climbs,
      marks_append (jump_if_false_climbs endLabel), marks_append bodyPasses.climbs]
    rfl
  rw [Nat.add_zero, marked]
  refine ((((place_passes label).append (testPasses.mono (by simp +contextual))).append
    (jump_if_false_passes (by simp))).append (bodyPasses.mono (by simp +contextual))).append ?_
  exact (jump_passes (by simp)).append (place_passes endLabel)

end

section

variable {env : Env} {supply after : Supply} {context : Context}

theorem call_moves {name : String} {arguments : List Expr} {nodeLine : Nat}
    (taken : ∀ frame, env.procedure? name = some frame → arity frame.ordinal = arguments.length)
    (generated : env.call name arguments nodeLine supply = (.ok code, after)) :
    Moves arity 0 code 0 := by
  rcases call_inv generated with ⟨frame, argumentCode, found, coded, rfl⟩
  have given : Moves arity 0 argumentCode arguments.reverse.length := exprs_move coded
  have called := procedure_call_moves arity frame.ordinal
  rw [List.length_reverse, ← taken frame found] at given
  have plain := given.append called
  split
  · have saved := saves_move arity frame.cells
    have restored := restores_move arity frame.cells.reverse
    have raised := plain.above frame.cells.length
    rw [Nat.zero_add] at raised
    rw [List.length_reverse] at restored
    exact (saved.append raised).append restored
  · exact plain

theorem stmts_move {body : List Stmt}
    (each : ∀ statement ∈ body, ∀ {supply after : Supply} {code : Code},
      env.stmt statement supply = (.ok code, after) → Moves arity 0 code 0)
    (generated : env.stmts body supply = (.ok code, after)) : Moves arity 0 code 0 :=
  level_composes.stmts each generated

/-- The procedures of the context take as many words as they have parameters. -/
def Env.Takes (env : Env) (context : Context) (arity : Nat → Nat) : Prop :=
  ∀ name formals frame, (name, formals) ∈ context.procedures →
    env.procedure? name = some frame → arity frame.ordinal = formals.length

theorem stmt_moves (takes : env.Takes context arity) {statement : Stmt}
    (typed : context.WellTyped statement) {supply after : Supply} {code : Code}
    (generated : env.stmt statement supply = (.ok code, after)) : Moves arity 0 code 0 := by
  induction typed generalizing supply after code with
  | assign _ _ =>
      rcases assign_inv generated with
        ⟨_, targetCode, _, valueCode, _, located, coded, rfl⟩
      have operands : Moves arity 0 (targetCode ++ valueCode) 2 :=
        (target_moves located).append ((expr_moves coded).above 1)
      exact operands.append ((pop_operands_moves arity .gr1 .gr2 (by decide) (by decide)).append
        (store_cell_moves arity))
  | @call _ name arguments formals known given =>
      refine call_moves (fun frame found => ?_) generated
      rw [takes name formals frame known found, given.length_eq, List.length_map]
  | ifThen _ _ taken =>
      rcases if_then_inv generated with ⟨_, _, _, _, _, _, _, _, tested, coded, _, rfl⟩
      exact if_then_moves (expr_moves tested) (stmts_move taken coded)
  | ifElse _ _ _ taken skipped =>
      rcases if_else_inv generated with
        ⟨_, _, _, _, _, _, _, _, _, _, _, _, _, tested, thenCoded, _, _, elseCoded, _, rfl⟩
      exact if_else_moves (expr_moves tested) (stmts_move taken thenCoded)
        (stmts_move skipped elseCoded)
  | whileDo _ _ repeated =>
      rcases while_inv generated with ⟨_, _, _, _, _, _, _, _, tested, coded, _, rfl⟩
      exact while_moves (expr_moves tested) (stmts_move repeated coded)
  | read _ =>
      rcases read_inv generated with ⟨_, coded, rfl⟩
      exact (reads_move coded).append (routine_moves arity _)
  | write _ =>
      rcases write_inv generated with ⟨_, coded, rfl⟩
      exact (writes_move coded).append (routine_moves arity _)
  | block _ each => exact stmts_move each generated

end

end PascalCasl
