import PascalCasl.Proofs.Code.Inversion
import PascalCasl.Proofs.Simulation.Invariant

/-!
Expressions. Where the source gives an expression a value, its code pushes the
word of that value, and the generator knows the type of the value.
-/

namespace PascalCasl

open Casl Source

theorem arithmetic_inv {op : BinaryOp} {left right value : Value}
    (arithmetic : op.isArithmetic = true) (computed : Value.binary op left right = some value) :
    ∃ first second word, left = .integer first ∧ right = .integer second ∧
      Value.arithmetic first second op = some word ∧ value = .integer word := by
  cases left <;> cases right <;> simp only [Value.binary, reduceCtorEq] at computed
  case integer.integer first second =>
    rw [if_pos arithmetic] at computed
    rcases Option.map_eq_some_iff.mp computed with ⟨word, found, rfl⟩
    exact ⟨first, second, word, rfl, rfl, found, rfl⟩
  case char.char => cases op <;> cases arithmetic <;> cases computed
  case boolean.boolean => cases op <;> cases arithmetic <;> cases computed

theorem logical_inv {op : BinaryOp} {left right value : Value} (logical : op.isLogical = true)
    (computed : Value.binary op left right = some value) :
    ∃ first second truth, left = .boolean first ∧ right = .boolean second ∧
      Value.logical first second op = some truth ∧ value = .boolean truth := by
  cases left <;> cases right <;> simp only [Value.binary, reduceCtorEq] at computed
  case boolean.boolean first second =>
    rw [if_pos logical] at computed
    rcases Option.map_eq_some_iff.mp computed with ⟨truth, found, rfl⟩
    exact ⟨first, second, truth, rfl, rfl, found, rfl⟩
  case char.char => cases op <;> cases logical <;> cases computed
  case integer.integer => cases op <;> cases logical <;> cases computed

/-- The jump of a relation is taken or not as the relation says. -/
theorem relates_of_jump {op : BinaryOp} {condition : Condition} {taken : Bool}
    (jump : relationJump op = some (condition, taken)) (order : Ordering) (core : Machine.Core) :
    Value.relates order op =
      some (if (core.compared order).holds condition then taken else !taken) := by
  cases op <;> cases jump <;> cases order <;> rfl

theorem char_word_to_int (code : CharCode) : code.word.toInt = code.val := by
  have small := code.isLt
  rw [CharCode.word, BitVec.toInt_eq_toNat_cond, BitVec.toNat_ofNat]
  split <;> omega

/-- Offsets are computed in 64 bits; in 16 bits they give the number of the
cell. -/
theorem element_word (start : Nat) {low : Int} {position : Word} (above : low ≤ position.toInt) :
    position + BitVec.ofInt 16 (elementOffset start low) =
      BitVec.ofNat 16 (start + (position.toInt - low).toNat) := by
  -- The offset is reduced modulo 2 ^ 64, which 16 bits do not see.
  have offset : BitVec.ofInt 16 (elementOffset start low) = BitVec.ofInt 16 (start - low) := by
    apply BitVec.eq_of_toNat_eq
    rw [BitVec.toNat_ofInt, BitVec.toNat_ofInt, elementOffset, Text.wordCount, Int.bmod]
    omega
  have total : position.toInt + ((start : Int) - low) =
      ((start + (position.toInt - low).toNat : Nat) : Int) := by omega
  rw [offset]
  nth_rewrite 1 [← @BitVec.ofInt_toInt 16 position]
  rw [← BitVec.ofInt_add, total, BitVec.ofInt_natCast]

theorem char_literal_word {character : Char} {code : CharCode}
    (coded : charCode? character = some code) :
    (Value.char code).word = (Literal.character character).word := by
  unfold charCode? at coded
  split at coded
  · cases coded
    rfl
  · cases coded

theorem unary_type {op : UnaryOp} {operand value : Value}
    (computed : Value.unary op operand = some value) : value.type = operand.type := by
  cases op <;> cases operand <;> cases computed <;> rfl

theorem binary_type {op : BinaryOp} {left right value : Value}
    (computed : Value.binary op left right = some value) :
    binaryValue op = .scalar value.type := by
  cases arithmetic : op.isArithmetic with
  | true =>
      rcases arithmetic_inv arithmetic computed with ⟨_, _, _, _, _, _, rfl⟩
      rw [binaryValue, if_pos arithmetic]
      rfl
  | false =>
      have boolean : value.type = .boolean := by
        cases left <;> cases right <;>
          simp only [Value.binary, arithmetic, Bool.false_eq_true, if_false, reduceCtorEq]
            at computed
        case integer.integer =>
          rcases Option.map_eq_some_iff.mp computed with ⟨_, _, rfl⟩
          rfl
        case char.char =>
          rcases Option.map_eq_some_iff.mp computed with ⟨_, _, rfl⟩
          rfl
        case boolean.boolean =>
          split at computed <;>
            (rcases Option.map_eq_some_iff.mp computed with ⟨_, _, rfl⟩; rfl)
      rw [binaryValue, arithmetic, boolean]
      rfl

namespace Machine

variable {machine : Machine}

theorem compare_effect {op : BinaryOp} {condition : Condition} {taken : Bool} {core : Core}
    {left right value : Value} (jump : relationJump op = some (condition, taken))
    (computed : Value.binary op left right = some value)
    (first : core.register .gr1 = left.word) (second : core.register .gr2 = right.word) :
    ∃ order, machine.effect core (compareOp (.scalar left.type)) = some (core.compared order) ∧
      (Value.relates order op).map Value.boolean = some value := by
  have plain : op.isArithmetic = false := by cases op <;> cases jump <;> rfl
  have unlogical : op.isLogical = false := by cases op <;> cases jump <;> rfl
  -- a relation has a value only between two values of one type
  cases left <;> cases right <;>
    simp only [Value.binary, plain, unlogical, Bool.false_eq_true, if_false, reduceCtorEq]
      at computed
  case integer.integer left right =>
    refine ⟨compare left.toInt right.toInt, ?_, computed⟩
    simp only [Value.type, compareOp, effect, operand, first, second, Value.word, Option.map_some]
  case char.char left right =>
    refine ⟨compare left.val right.val, ?_, computed⟩
    have order : compare (left.val : Int) right.val = compare left.val right.val := by
      simp only [compare, compareOfLessAndEq, Int.ofNat_lt, Int.ofNat_inj]
    simp only [Value.type, compareOp, effect, operand, first, second, Value.word, Option.map_some,
      char_word_to_int, order]
  case boolean.boolean left right =>
    refine ⟨compare left.toNat right.toNat, ?_, computed⟩
    simp only [Value.type, compareOp, effect, operand, first, second, Value.word, Option.map_some]
    cases left <;> cases right <;> rfl

theorem resolve_content (core : Core) (register : Register) :
    machine.resolve core (content register) = some (core.register register) := by
  simp [resolve, content]

theorem resolve_direct (core : Core) (number : Nat) :
    machine.resolve core (direct number) = some (BitVec.ofNat 16 number) := by
  simp [resolve, direct]

theorem resolve_offset (core : Core) (offset : Nat) (register : Register) :
    machine.resolve core ⟨.number offset, some register⟩ =
      some (BitVec.ofNat 16 offset + core.register register) := by
  simp [resolve]

theorem resolve_cell (distinct : (labels machine.lines).Nodup) {core : Core} {register : Register}
    {number : Nat} (held : core.register register = BitVec.ofNat 16 number) :
    machine.resolve core (Casl.cell register) = some (machine.cell number) := by
  have address := address_at distinct (@lists_variables machine) rfl
  simp [resolve, Casl.cell, address, held, Machine.cell]

theorem effect_push_register (core : Core) (register : Register) :
    machine.effect core (.push (content register)) = some (core.push (core.register register)) := by
  rw [effect, resolve_content, Option.map_some]

theorem effect_load_literal (core : Core) (register : Register) (literal : Literal) :
    machine.effect core (.load register (.literal literal)) =
      some ((core.set register literal.word).flag literal.word false) := rfl

variable {console : Console} {initial : State} {env : Env} {globalEnd base bound : Nat}
  {state : Source.State} {before code : Code} {core : Core} {depth : Nat}

section Operators

variable (setup : machine.Setup console initial) (placed : env.Placed globalEnd base bound)
  (inside : bound ≤ machine.listing.cells)

include setup placed

theorem literal_at {named : Line} {literal : Literal}
    (loads : named.op = .load .gr1 (.literal literal))
    (here : machine.At initial env state before core depth) (lists : machine.Lists before [named]) :
    let result := (core.set .gr1 literal.word).flag literal.word false
    machine.Runs before core (before ++ [named]) result ∧
      machine.At initial env state (before ++ [named]) result depth := by
  have spares : [named].all (fun line => line.op.spares) = true := by simp [loads, Op.spares]
  apply lines_at setup placed here lists spares
  · simp [loads, effect_load_literal]
  · exact here.pointer
  · exact here.deep
  · rfl

include inside

theorem register_pushes {register : Register} {named : Line} {word : Word}
    (pushes : named.op = .push (content register)) (held : core.register register = word)
    (here : machine.At initial env state before core depth) (lists : machine.Lists before [named]) :
    machine.Pushes initial env state before core [named] depth word := by
  have spares : [named].all (fun line => line.op.spares) = true := by simp [pushes, Op.spares]
  apply lines_push setup placed inside here lists spares
  · simp only [effects_cons, effects_nil, pushes, effect_push_register, held]
    rfl
  · rfl
  · rfl

theorem literal_pushes {literal : Literal} (here : machine.At initial env state before core depth)
    (lists : machine.Lists before ([line (.load .gr1 (.literal literal))] ++ [pushRegister .gr1])) :
    machine.Pushes initial env state before core
      ([line (.load .gr1 (.literal literal))] ++ [pushRegister .gr1]) depth literal.word := by
  rcases literal_at setup placed rfl here (lists_left lists) with ⟨ran, arrived⟩
  exact pushes_after ran (kept_of_memory rfl)
    (register_pushes setup placed inside rfl rfl arrived (lists_right lists))

theorem compute_pushes {operation : Arithmetic} {source : Casl.Source} {word : Word}
    (here : machine.At initial env state before core depth)
    (given : machine.operand core source = some word)
    (lists : machine.Lists before
      ([line (.compute operation .gr1 source)] ++ [pushRegister .gr1])) :
    machine.Pushes initial env state before core
      ([line (.compute operation .gr1 source)] ++ [pushRegister .gr1]) depth
      (Arithmetic.compute operation (core.register .gr1) word) := by
  have computed : machine.effects core [line (.compute operation .gr1 source)] =
      some ((core.set .gr1 (operation.compute (core.register .gr1) word)).flag
        (operation.compute (core.register .gr1) word)
        (operation.overflows (core.register .gr1) word)) := by
    simp [line, effect, given]
  rcases lines_at setup placed here (lists_left lists) rfl computed here.pointer here.deep rfl with
    ⟨ran, arrived⟩
  exact pushes_after ran (kept_of_memory rfl)
    (register_pushes setup placed inside rfl rfl arrived (lists_right lists))

theorem routine_pushes {routine : Routine} {register : Register}
    (here : machine.At initial env state before core depth)
    (silent : ∀ before after : Core, events before after routine = [])
    (untargeted : target core routine = [])
    (divisor : routine = .divide → core.register .gr2 ≠ 0)
    (lists : machine.Lists before
      ([line (.call (.routine routine))] ++ [pushRegister register])) :
    machine.Callable initial core routine ∧
      machine.Pushes initial env state before core
        ([line (.call (.routine routine))] ++ [pushRegister register]) depth
        ((machine.serve core routine).register register) := by
  have silently : (machine.serve core routine).channel = state.trace := by
    rw [serve, silent, List.append_nil, here.trace]
  rcases plain_routine_at setup placed inside here (lists_left lists) untargeted divisor rfl rfl
    silently with ⟨callable, ran, arrived, kept⟩
  exact ⟨callable, pushes_after ran kept
    (register_pushes setup placed inside rfl rfl arrived (lists_right lists))⟩

theorem comparison_pushes {number : Nat} {operands : Pushed} {condition : Condition} {taken : Bool}
    {order : Ordering} (here : machine.At initial env state before core depth)
    (compared : machine.effect core (compareOp operands) = some (core.compared order))
    (lists : machine.Lists before (comparison number operands condition taken)) :
    machine.Pushes initial env state before core (comparison number operands condition taken) depth
      (Value.boolean (if (core.compared order).holds condition then taken else !taken)).word := by
  let label : Label := if taken then .onTrue number else .onFalse number
  have listed : machine.Lists before ([line (compareOp operands)] ++
      ([line (.jump condition label)] ++ ([line (loadTruth !taken)] ++
        ([line (.jump .always (.both number))] ++ ([labelled label (loadTruth taken)] ++
          [labelled (.both number) (.push (content .gr1))]))))) := lists
  have jumps := lists_right listed
  have fails := lists_right jumps
  have skips := lists_right fails
  have succeeds := lists_right skips
  have ends := lists_right succeeds
  have spares : [line (compareOp operands)].all (fun line => line.op.spares) = true := by
    rcases operands with type | length
    · cases type <;> rfl
    · rfl
  have effect : machine.effects core [line (compareOp operands)] = some (core.compared order) := by
    simp [line, compared]
  rcases lines_at setup placed here (lists_left listed) spares effect here.pointer here.deep rfl
    with ⟨ran, arrived⟩
  rcases jump_runs setup (lists_left jumps) (lists_left succeeds) rfl arrived.steady with
    ⟨jumped, steady⟩
  -- Either way the last line is reached, with the truth value in GR1.
  by_cases holds : (core.compared order).holds condition = true
  · rw [if_pos holds] at jumped steady ⊢
    have landed := arrived.moved steady
    rcases literal_at setup placed rfl landed (lists_left succeeds) with ⟨loads, loaded⟩
    refine pushes_from (runs_trans ran (runs_trans jumped loads)) (kept_of_memory rfl)
      (register_pushes setup placed inside rfl rfl loaded ends) ?_
    simp [comparison, label]
  · rw [if_neg holds] at jumped steady ⊢
    have landed := arrived.moved steady
    rcases literal_at setup placed rfl landed (lists_left fails) with ⟨loads, loaded⟩
    rcases goto_runs setup (lists_left skips) ends rfl loaded.steady with ⟨skipped, endSteady⟩
    refine pushes_from (runs_trans ran (runs_trans jumped (runs_trans loads skipped)))
      (kept_of_memory rfl)
      (register_pushes setup placed inside rfl rfl (loaded.moved endSteady) ends) ?_
    simp [comparison, label]

theorem computed_pushes {operation : Arithmetic} {left right value : Value}
    (here : machine.At initial env state before core depth)
    (first : core.register .gr1 = left.word) (second : core.register .gr2 = right.word)
    (result : Arithmetic.compute operation left.word right.word = value.word)
    (lists : machine.Lists before
      ([line (.compute operation .gr1 (.register .gr2))] ++ [pushRegister .gr1])) :
    machine.Pushes initial env state before core
      ([line (.compute operation .gr1 (.register .gr2))] ++ [pushRegister .gr1]) depth
      value.word := by
  have given : machine.operand core (.register .gr2) = some right.word := by rw [operand, second]
  have pushes := compute_pushes setup placed inside here given lists
  rw [first, result] at pushes
  exact pushes

/-- One call divides; which register is pushed makes the difference between
quotient and remainder. -/
theorem division_pushes {register : Register} {right : Word}
    (here : machine.At initial env state before core depth) (second : core.register .gr2 = right)
    (nonzero : right ≠ 0)
    (lists : machine.Lists before
      ([line (.call (.routine .divide))] ++ [pushRegister register])) :
    machine.Callable initial core .divide ∧
      machine.Pushes initial env state before core
        ([line (.call (.routine .divide))] ++ [pushRegister register]) depth
        ((machine.serve core .divide).register register) := by
  apply routine_pushes setup placed inside here (fun _ _ => rfl) rfl _ lists
  intro _
  rw [second]
  exact nonzero

theorem operator_pushes {op : BinaryOp} {left right value : Value}
    (here : machine.At initial env state before core depth) (coded : operatorCode op = some code)
    (computed : Value.binary op left right = some value)
    (first : core.register .gr1 = left.word) (second : core.register .gr2 = right.word)
    (lists : machine.Lists before code) :
    machine.Pushes initial env state before core code depth value.word := by
  cases op with
  | add =>
      cases coded
      rcases arithmetic_inv rfl computed with ⟨_, _, _, rfl, rfl, found, rfl⟩
      cases found
      exact computed_pushes setup placed inside here first second rfl lists
  | sub =>
      cases coded
      rcases arithmetic_inv rfl computed with ⟨_, _, _, rfl, rfl, found, rfl⟩
      cases found
      exact computed_pushes setup placed inside here first second rfl lists
  | and =>
      cases coded
      rcases logical_inv rfl computed with ⟨left, right, _, rfl, rfl, found, rfl⟩
      cases found
      apply computed_pushes setup placed inside here first second _ lists
      cases left <;> cases right <;> rfl
  | or =>
      cases coded
      rcases logical_inv rfl computed with ⟨left, right, _, rfl, rfl, found, rfl⟩
      cases found
      apply computed_pushes setup placed inside here first second _ lists
      cases left <;> cases right <;> rfl
  | mul =>
      cases coded
      rcases arithmetic_inv rfl computed with ⟨_, _, _, rfl, rfl, found, rfl⟩
      cases found
      rcases routine_pushes setup placed inside here (fun _ _ => rfl) rfl (by simp) lists with
        ⟨callable, pushes⟩
      have product : (machine.serve core .multiply).register .gr2 =
          core.register .gr1 * core.register .gr2 :=
        (setup.meets.serves core .multiply callable).result
      rw [product, first, second] at pushes
      exact pushes
  | div =>
      cases coded
      rcases arithmetic_inv rfl computed with ⟨left, right, _, rfl, rfl, found, rfl⟩
      rcases Option.ite_none_left_eq_some.mp found with ⟨nonzero, same⟩
      cases same
      rcases division_pushes setup placed inside here second nonzero lists with ⟨callable, pushes⟩
      obtain ⟨quotient, -⟩ := (setup.meets.serves core .divide callable).result
      rw [quotient, first, second] at pushes
      exact pushes
  | mod =>
      cases coded
      rcases arithmetic_inv rfl computed with ⟨left, right, _, rfl, rfl, found, rfl⟩
      rcases Option.ite_none_left_eq_some.mp found with ⟨nonzero, same⟩
      cases same
      rcases division_pushes setup placed inside here second nonzero lists with ⟨callable, pushes⟩
      obtain ⟨-, remainder⟩ := (setup.meets.serves core .divide callable).result
      rw [remainder, first, second] at pushes
      exact pushes
  -- Relations are coded as comparisons and not as operators.
  | equal => cases coded
  | notEqual => cases coded
  | less => cases coded
  | lessEqual => cases coded
  | greater => cases coded
  | greaterEqual => cases coded

theorem binary_pushes {op : BinaryOp} {left right value : Value} {supply after : Supply}
    (here : machine.At initial env state before core depth)
    (coded : binaryCode op (.scalar left.type) supply = (.ok code, after))
    (computed : Value.binary op left right = some value)
    (first : core.register .gr1 = left.word) (second : core.register .gr2 = right.word)
    (lists : machine.Lists before code) :
    machine.Pushes initial env state before core code depth value.word := by
  rcases binary_code_inv coded with ⟨coded, _⟩ | ⟨condition, taken, number, jump, _, rfl⟩
  · exact operator_pushes setup placed inside here coded computed first second lists
  · rcases compare_effect jump computed first second with ⟨order, compared, related⟩
    rw [relates_of_jump jump order core] at related
    cases related
    exact comparison_pushes setup placed inside here compared lists

theorem unary_pushes {op : UnaryOp} {operand value : Value}
    (here : machine.At initial env state before core (depth + 1))
    (top : core.memory (machine.slot (depth + 1)) = operand.word)
    (computed : Value.unary op operand = some value)
    (lists : machine.Lists before (unaryCode op)) :
    ∃ result, machine.Runs before core (before ++ unaryCode op) result ∧
      machine.At initial env state (before ++ unaryCode op) result (depth + 1) ∧
      result.memory (machine.slot (depth + 1)) = value.word ∧ machine.Kept 0 depth core result := by
  cases op with
  | plus =>
      have same : value = operand := by
        cases operand <;> cases computed
        rfl
      subst same
      refine ⟨core, ?_, ?_, top, kept_refl _ _ _⟩
      · rw [unaryCode, List.append_nil]
        exact runs_refl _ _
      · rw [unaryCode, List.append_nil]
        exact here
  -- the operand is subtracted from zero
  | minus =>
      rcases operand with word | _ | _ <;> cases computed
      have listed : machine.Lists before
        ([popInto .gr2] ++ ([line (.loadAddress .gr1 (direct 0))] ++
          ([line (.compute .subtract .gr1 (.register .gr2))] ++ [pushRegister .gr1]))) := lists
      rcases pop_at setup placed here (lists_left listed) (by decide) with
        ⟨popped, arrived, held, kept⟩
      have cleared : machine.effects (core.pop .gr2) [line (.loadAddress .gr1 (direct 0))] =
          some ((core.pop .gr2).set .gr1 0#16) := rfl
      rcases lines_at setup placed arrived (lists_left (lists_right listed)) rfl cleared
        arrived.pointer arrived.deep rfl with ⟨ran, zeroed⟩
      have given : machine.operand ((core.pop .gr2).set .gr1 0#16) (.register .gr2) =
          some word := by
        rw [top] at held
        exact congrArg some held
      have pushes := compute_pushes setup placed inside zeroed given
        (lists_right (lists_right listed))
      have negated : Arithmetic.compute .subtract
          (((core.pop .gr2).set .gr1 0#16).register .gr1) word = -word := BitVec.zero_sub _
      rw [negated] at pushes
      exact pushes_after popped kept (pushes_after ran (kept_of_memory rfl) pushes)
  | not =>
      rcases operand with _ | _ | truth <;> cases computed
      have listed : machine.Lists before ([popInto .gr1] ++
        ([line (.compute .xor .gr1 (.literal (.truth true)))] ++ [pushRegister .gr1])) := lists
      rcases pop_at setup placed here (lists_left listed) (by decide) with
        ⟨popped, arrived, held, kept⟩
      have pushes := compute_pushes setup placed inside arrived rfl (lists_right listed)
      rw [held, top] at pushes
      have inverted : Arithmetic.compute .xor (Value.boolean truth).word (Literal.truth true).word =
          (Value.boolean !truth).word := by cases truth <;> rfl
      rw [inverted] at pushes
      exact pushes_after popped kept pushes

theorem cell_pushes {number : Nat} (here : machine.At initial env state before core depth)
    (held : core.register .gr2 = BitVec.ofNat 16 number) (lists : machine.Lists before pushCell) :
    machine.Pushes initial env state before core pushCell depth
      (core.memory (machine.cell number)) := by
  have listed : machine.Lists before
    ([line (.load .gr1 (.memory (Casl.cell .gr2)))] ++ [pushRegister .gr1]) := lists
  have loads : machine.effects core [line (.load .gr1 (.memory (Casl.cell .gr2)))] =
      some ((core.set .gr1 (core.memory (machine.cell number))).flag
        (core.memory (machine.cell number)) false) := by
    simp [line, effect, operand, resolve_cell setup.distinct held]
  rcases lines_at setup placed here (lists_left listed) rfl loads here.pointer here.deep rfl with
    ⟨ran, arrived⟩
  exact pushes_after ran (kept_of_memory rfl)
    (register_pushes setup placed inside rfl rfl arrived (lists_right listed))

theorem numbered_cell_pushes {number : Nat} (here : machine.At initial env state before core depth)
    (lists : machine.Lists before ([loadNumber .gr2 number] ++ pushCell)) :
    machine.Pushes initial env state before core ([loadNumber .gr2 number] ++ pushCell) depth
      (core.memory (machine.cell number)) := by
  have loads : machine.effects core [loadNumber .gr2 number] =
      some ((core.set .gr2 (BitVec.ofNat 16 number)).flag (BitVec.ofNat 16 number) false) := by
    simp [loadNumber, line, effect_load_literal, Literal.word]
  rcases lines_at setup placed here (lists_left lists) rfl loads here.pointer here.deep rfl with
    ⟨ran, arrived⟩
  exact pushes_after ran (kept_of_memory rfl)
    (cell_pushes setup placed inside arrived rfl (lists_right lists))

omit inside in
theorem locate_at {start : Nat} {low : Int} {position : Word}
    (here : machine.At initial env state before core (depth + 1))
    (top : core.memory (machine.slot (depth + 1)) = position) (above : low ≤ position.toInt)
    (lists : machine.Lists before (locateElement start low)) :
    ∃ result, machine.Runs before core (before ++ locateElement start low) result ∧
      machine.At initial env state (before ++ locateElement start low) result depth ∧
      result.register .gr2 = BitVec.ofNat 16 (start + (position.toInt - low).toNat) ∧
      result.memory = core.memory := by
  have room : depth < machine.room := here.deep
  have word := element_word start above
  let offset := BitVec.ofInt 16 (elementOffset start low)
  let number := position + offset
  let found := ((core.pop .gr2).set .gr2 number).flag number (position.saddOverflow offset)
  have located : machine.effects core (locateElement start low) = some found := by
    simp only [locateElement, popInto, line, effects_cons, effects_nil, effect, operand,
      Option.map_some, Option.bind_some, Comet.Core.pop_register, if_true, here.pointer, top,
      Arithmetic.compute, Arithmetic.overflows, Literal.word, found, number, offset]
  have pointer : found.register .gr8 = machine.slot depth := by
    simp [found, here.pointer, slot_pred room]
  rcases lines_at setup placed here lists rfl located pointer (Nat.le_of_lt room) rfl with
    ⟨ran, arrived⟩
  refine ⟨_, ran, arrived, ?_, rfl⟩
  simp [found, number, offset, word]

theorem element_pushes {name : String} {start count : Nat} {element : StandardType}
    {low high : Int} {values : Int → Option Value} {position : Word} {value : Value}
    {indexCode : Code} (found : env.cells? name = some (.array start element low count))
    (known : state.find? name = some (.array element low high values))
    (within : low ≤ position.toInt ∧ position.toInt ≤ high)
    (selected : values position.toInt = some value)
    (here : machine.At initial env state before core depth)
    (index : machine.Pushes initial env state before core indexCode depth position)
    (lists : machine.Lists before (indexCode ++ locateElement start low ++ pushCell)) :
    value.type = element ∧
      machine.Pushes initial env state before core
        (indexCode ++ locateElement start low ++ pushCell) depth value.word := by
  rcases content_found here.holds found with ⟨content, same, represented⟩
  rw [known] at same
  cases same
  cases represented with
  | array counted held =>
      rcases index with ⟨between, ran, arrived, top, kept⟩
      rcases locate_at setup placed arrived top within.1 (lists_right (lists_left lists)) with
        ⟨result, more, located, number, same⟩
      rw [List.append_assoc] at more located
      have pushes := cell_pushes setup placed inside located number (lists_right lists)
      have positioned : low + ((position.toInt - low).toNat : Int) = position.toInt := by omega
      rw [← positioned] at selected
      rcases held (position.toInt - low).toNat (by omega) value selected with ⟨typed, stored⟩
      -- Evaluating the index changed no cell, so the element is still there.
      have cells : start + count ≤ bound := cells_inside placed found
      rw [same, kept.cells _ (Nat.zero_le _) (by omega), stored] at pushes
      exact ⟨typed, pushes_after (runs_trans ran more) (kept.trans (kept_of_memory same)) pushes⟩

omit inside in
theorem operands_at {left right : Value} {leftCode rightCode : Code}
    (leftPushes : machine.Pushes initial env state before core leftCode depth left.word)
    (rightPushes : ∀ between, machine.At initial env state (before ++ leftCode) between (depth + 1) →
      machine.Pushes initial env state (before ++ leftCode) between rightCode (depth + 1) right.word)
    (lists : machine.Lists before (leftCode ++ rightCode ++ [popInto .gr2, popInto .gr1])) :
    ∃ result, machine.Runs before core
        (before ++ (leftCode ++ rightCode ++ [popInto .gr2, popInto .gr1])) result ∧
      machine.At initial env state (before ++ (leftCode ++ rightCode ++ [popInto .gr2, popInto .gr1]))
        result depth ∧
      result.register .gr1 = left.word ∧ result.register .gr2 = right.word ∧
      machine.Kept 0 depth core result := by
  rcases leftPushes with ⟨leftCore, leftRan, leftAt, leftTop, leftKept⟩
  rcases rightPushes leftCore leftAt with ⟨rightCore, rightRan, rightAt, rightTop, rightKept⟩
  -- The left value lies under the right one and was kept meanwhile.
  rw [← rightKept.stack (depth + 1) (Nat.succ_pos _) (Nat.le_refl _)] at leftTop
  rw [List.append_assoc] at rightRan rightAt
  rcases pop_two_at setup placed rightAt (lists_right lists) (by decide) (by decide) (by decide)
    with ⟨popped, popRan, popAt, second, first, same⟩
  rw [List.append_assoc] at popRan popAt
  have kept := leftKept.trans (rightKept.mono (Nat.le_refl 0) (Nat.le_succ depth))
  exact ⟨popped, runs_trans leftRan (runs_trans rightRan popRan), popAt, first.trans leftTop,
    second.trans rightTop, kept.trans (kept_of_memory same)⟩

end Operators

/-- The code of an expression that has a value pushes it. -/
theorem expr_pushes (setup : machine.Setup console initial)
    (placed : env.Placed globalEnd base bound) (inside : bound ≤ machine.listing.cells)
    {expr : Expr} {supply after : Supply} {pushed : Pushed} {value : Value}
    (generated : env.expr expr supply = (.ok (pushed, code), after))
    (evaluated : state.eval expr = some value) (here : machine.At initial env state before core depth)
    (lists : machine.Lists before code) :
    pushed = .scalar value.type ∧
      machine.Pushes initial env state before core code depth value.word := by
  induction expr generalizing supply after pushed code value before core depth with
  | number nodeLine number =>
      cases generated
      cases evaluated
      refine ⟨rfl, lines_push setup placed inside here lists rfl ?_ rfl rfl⟩
      simp [line, effect, resolve_direct, Value.word]
  | string nodeLine text =>
      rcases text_code_inv generated with
        ⟨character, single, _, rfl, rfl⟩ | ⟨number, several, _, rfl, rfl⟩
      · rw [Source.State.eval, single] at evaluated
        rcases Option.map_eq_some_iff.mp evaluated with ⟨code, coded, rfl⟩
        refine ⟨rfl, ?_⟩
        rw [char_literal_word coded]
        exact literal_pushes setup placed inside here lists
      · -- a text in the table has no value of its own
        rw [Source.State.eval] at evaluated
        split at evaluated
        next character single =>
          exact absurd (by simp [← String.length_toList, single]) several
        next => cases evaluated
  | truth nodeLine truth =>
      cases generated
      cases evaluated
      exact ⟨rfl, literal_pushes setup placed inside here lists⟩
  | simple nodeLine name =>
      rcases expr_simple_inv generated with
        ⟨_, ⟨start, type, found, rfl, rfl⟩ | ⟨start, element, low, count, found, rfl, rfl⟩⟩
      · rcases content_found here.holds found with ⟨content, known, represented⟩
        rw [Source.State.eval, known] at evaluated
        cases represented with
        | scalar held =>
            rcases held value evaluated with ⟨typed, stored⟩
            rw [typed, ← stored]
            exact ⟨rfl, numbered_cell_pushes setup placed inside here lists⟩
      · -- nor has an array as a whole
        rcases content_found here.holds found with ⟨content, known, represented⟩
        rw [Source.State.eval, known] at evaluated
        cases represented
        cases evaluated
  | indexed nodeLine name index ih =>
      rcases expr_indexed_inv generated with
        ⟨start, element, low, count, inner, indexCode, found, indexed, rfl, rfl⟩
      rcases content_found here.holds found with ⟨content, known, represented⟩
      rcases Option.bind_eq_some_iff.mp evaluated with ⟨indexValue, indexEvaluated, selected⟩
      rw [known] at selected
      cases represented with
      | array counted held =>
          rcases indexValue with position | _ | _ <;> simp only [reduceCtorEq] at selected
          rcases Option.ite_none_right_eq_some.mp selected with ⟨within, chosen⟩
          have index := (ih indexed indexEvaluated here (lists_left (lists_left lists))).2
          rcases element_pushes setup placed inside found known within chosen here index lists with
            ⟨rfl, pushes⟩
          exact ⟨rfl, pushes⟩
  | unary nodeLine op operand ih =>
      rcases expr_unary_inv generated with ⟨operandCode, coded, rfl⟩
      rcases Option.bind_eq_some_iff.mp evaluated with ⟨operandValue, operandEvaluated, computed⟩
      rcases ih coded operandEvaluated here (lists_left lists) with ⟨rfl, pushes⟩
      rcases pushes with ⟨between, ran, arrived, top, kept⟩
      rcases unary_pushes setup placed inside arrived top computed (lists_right lists) with
        ⟨result, more, finished, resultTop, keptLater⟩
      rw [unary_type computed]
      rw [List.append_assoc] at more finished
      exact ⟨rfl, result, runs_trans ran more, finished, resultTop, kept.trans keptLater⟩
  | binary nodeLine op left right leftIh rightIh =>
      rcases expr_binary_inv generated with
        ⟨leftPushed, leftCode, rightPushed, rightCode, joint, first, second, leftCoded, rightCoded,
          joined, rfl, rfl⟩
      rcases Option.bind_eq_some_iff.mp evaluated with ⟨leftValue, leftEvaluated, rest⟩
      rcases Option.bind_eq_some_iff.mp rest with ⟨rightValue, rightEvaluated, computed⟩
      have operands := lists_left lists
      have leftPushes := leftIh leftCoded leftEvaluated here (lists_left (lists_left operands))
      cases leftPushes.1
      rcases operands_at setup placed leftPushes.2 (fun _ leftAt =>
        (rightIh rightCoded rightEvaluated leftAt (lists_right (lists_left operands))).2) operands
        with ⟨popped, ran, popAt, first, second, kept⟩
      have pushes := binary_pushes setup placed inside popAt joined computed first second
        (lists_right lists)
      exact ⟨binary_type computed, pushes_after ran kept pushes⟩

end Machine
end PascalCasl
