import PascalCasl.Proofs.Code.Agreement
import PascalCasl.Proofs.Simulation.Transfer

/-!
Statements. What a statement does with some fuel follows from what the
statements inside it do with less; calls are left open here and are a
hypothesis of the step.
-/

namespace PascalCasl

open Casl Source

section Inversion

variable {program : Program} {console : Console} {fuel nodeLine thenLine elseLine bodyLine : Nat}
  {state later : Source.State} {condition : Expr} {thenBody elseBody body : List Stmt}

theorem exec_if_then_inv
    (done : exec program console (fuel + 1) state (.ifThen nodeLine condition thenLine thenBody) =
      some later) :
    (state.eval condition = some (.boolean true) ∧
      thenBody.foldlM (exec program console fuel) state = some later) ∨
    (state.eval condition = some (.boolean false) ∧ later = state) := by
  rcases Option.bind_eq_some_iff.mp done with ⟨value, evaluated, chosen⟩
  rcases value with _ | _ | _ | _
  · cases chosen
  · cases chosen
  · cases chosen
    exact .inr ⟨evaluated, rfl⟩
  · exact .inl ⟨evaluated, chosen⟩

theorem exec_if_else_inv
    (done : exec program console (fuel + 1) state
      (.ifElse nodeLine condition thenLine thenBody elseLine elseBody) = some later) :
    (state.eval condition = some (.boolean true) ∧
      thenBody.foldlM (exec program console fuel) state = some later) ∨
    (state.eval condition = some (.boolean false) ∧
      elseBody.foldlM (exec program console fuel) state = some later) := by
  rcases Option.bind_eq_some_iff.mp done with ⟨value, evaluated, chosen⟩
  rcases value with _ | _ | _ | _
  · cases chosen
  · cases chosen
  · exact .inr ⟨evaluated, chosen⟩
  · exact .inl ⟨evaluated, chosen⟩

theorem exec_while_inv
    (done : exec program console (fuel + 1) state (.whileDo nodeLine condition bodyLine body) =
      some later) :
    (state.eval condition = some (.boolean true) ∧
      ∃ middle, body.foldlM (exec program console fuel) state = some middle ∧
        exec program console fuel middle (.whileDo nodeLine condition bodyLine body) =
          some later) ∨
    (state.eval condition = some (.boolean false) ∧ later = state) := by
  rcases Option.bind_eq_some_iff.mp done with ⟨value, evaluated, chosen⟩
  rcases value with _ | _ | _ | _
  · cases chosen
  · cases chosen
  · cases chosen
    exact .inr ⟨evaluated, rfl⟩
  · exact .inl ⟨evaluated, Option.bind_eq_some_iff.mp chosen⟩

end Inversion

namespace Machine

variable {machine : Machine} {program : Program} {console : Console} {initial : State}
  {scope : Scope} {env : Env} {context : Context} {globalEnd base bound fuel : Nat}
  {state later : Source.State} {before code : Code} {core : Core} {depth : Nat}
  {supply after : Supply}

/-- Code of one environment: where its variables lie and what its names mean. -/
structure Hosts (machine : Machine) (scope : Scope) (env : Env) (context : Context)
    (globalEnd base bound : Nat) : Prop where
  placed : env.Placed globalEnd base bound
  inside : bound ≤ machine.listing.cells
  stores : env.Stores scope
  means : scope.Means context

/-- The code of one statement does what the statement does with this fuel. -/
def Simulates (machine : Machine) (initial : State) (program : Program) (console : Console)
    (env : Env) (context : Context) (bound fuel : Nat) (statement : Stmt) : Prop :=
  ∀ {state later : Source.State} {supply after : Supply} {code before : Code} {core : Core}
    {depth : Nat}, context.WellTyped statement → env.stmt statement supply = (.ok code, after) →
    after.texts <+: machine.listing.texts →
    exec program console fuel state statement = some later →
    machine.At initial env state before core depth → machine.Lists before code →
    machine.Performs initial env later before core code depth bound

theorem performs_from {start rest : Code} {between : Core}
    (ran : machine.Runs before core start between) (kept : machine.Kept bound depth core between)
    (performs : machine.Performs initial env later start between rest depth bound)
    (ends : start ++ rest = before ++ code) :
    machine.Performs initial env later before core code depth bound := by
  rcases performs with ⟨result, more, arrived, keptLater⟩
  rw [ends] at more arrived
  exact ⟨result, runs_trans ran more, arrived, kept.trans keptLater⟩

theorem stmts_perform {body : List Stmt}
    (simulates : ∀ statement,
      machine.Simulates initial program console env context bound fuel statement)
    (typed : ∀ statement ∈ body, context.WellTyped statement)
    (generated : env.stmts body supply = (.ok code, after))
    (entered : after.texts <+: machine.listing.texts)
    (done : body.foldlM (exec program console fuel) state = some later)
    (here : machine.At initial env state before core depth) (lists : machine.Lists before code) :
    machine.Performs initial env later before core code depth bound := by
  induction body generalizing supply code state before core with
  | nil =>
      rcases stmts_nil_inv generated with ⟨rfl, _⟩
      cases done
      exact performs_nil here
  | cons first rest ih =>
      rcases stmts_cons_inv generated with ⟨firstCode, others, middle, coded, more, rfl⟩
      rcases List.forall_mem_cons.mp typed with ⟨firstTyped, restTyped⟩
      rw [List.foldlM_cons] at done
      rcases Option.bind_eq_some_iff.mp done with ⟨between, firstDone, restDone⟩
      have known := List.IsPrefix.trans (stmts_numbered rest more).grows.texts entered
      rcases simulates first firstTyped coded known firstDone here (lists_left lists) with
        ⟨result, ran, arrived, kept⟩
      exact performs_after ran kept (ih restTyped more restDone arrived (lists_right lists))

section Control

variable (setup : machine.Setup console initial) (placed : env.Placed globalEnd base bound)

include setup placed

theorem place_performs {label : Label} (here : machine.At initial env state before core depth)
    (lists : machine.Lists before [PascalCasl.place label]) :
    machine.Performs initial env state before core [PascalCasl.place label] depth bound := by
  rcases lines_at setup placed here lists rfl rfl here.pointer here.deep rfl with ⟨ran, arrived⟩
  exact ⟨_, ran, arrived, kept_refl _ _ _⟩

theorem test_at {label : Label} {named : Line} {target : Code} {truth : Bool}
    (here : machine.At initial env state before core (depth + 1))
    (top : core.memory (machine.slot (depth + 1)) = (Value.boolean truth).word)
    (lists : machine.Lists before (jumpIfFalse label)) (defined : machine.Lists target [named])
    (labelledSo : named.label? = some label) :
    ∃ result, machine.Runs before core (if truth then before ++ jumpIfFalse label else target)
        result ∧
      machine.At initial env state (if truth then before ++ jumpIfFalse label else target) result
        depth ∧
      result.memory = core.memory := by
  have listed : machine.Lists before
    ([popInto .gr1] ++ ([line (.compareSigned .gr1 (.literal (.truth false)))] ++
      [line (.jump .zero label)])) := lists
  rcases pop_at setup placed here (lists_left listed) (by decide) with ⟨popped, popAt, held, _⟩
  rw [top] at held
  let order := compare ((core.pop .gr1).register .gr1).toInt (Literal.truth false).word.toInt
  have compared : machine.effects (core.pop .gr1)
      [line (.compareSigned .gr1 (.literal (.truth false)))] =
      some ((core.pop .gr1).compared order) := rfl
  rcases lines_at setup placed popAt (lists_left (lists_right listed)) rfl compared popAt.pointer
    popAt.deep rfl with ⟨ran, arrived⟩
  rcases jump_runs setup (lists_right (lists_right listed)) defined labelledSo arrived.steady with
    ⟨jumped, steady⟩
  -- false is the word zero, so the comparison sets the zero flag just for it
  have zero : ((core.pop .gr1).compared order).holds .zero = !truth := by
    simp only [Comet.Core.holds, Comet.Core.compared, order, held]
    cases truth <;> rfl
  have ends : before ++ [popInto .gr1] ++ [line (.compareSigned .gr1 (.literal (.truth false)))] ++
      [line (.jump .zero label)] = before ++ jumpIfFalse label := by
    simp [jumpIfFalse]
  rw [zero, ends] at jumped steady
  have arrives := runs_trans popped (runs_trans ran jumped)
  cases truth with
  | true => exact ⟨_, arrives, arrived.moved steady, rfl⟩
  | false => exact ⟨_, arrives, arrived.moved steady, rfl⟩

variable (inside : bound ≤ machine.listing.cells)
  (simulates : ∀ statement,
    machine.Simulates initial program console env context bound fuel statement)

include inside

theorem condition_at {condition : Expr} {inner : Pushed} {label : Label} {named : Line}
    {target : Code} {truth : Bool}
    (generated : env.expr condition supply = (.ok (inner, code), after))
    (evaluated : state.eval condition = some (.boolean truth))
    (here : machine.At initial env state before core depth)
    (lists : machine.Lists before (code ++ jumpIfFalse label))
    (defined : machine.Lists target [named]) (labelledSo : named.label? = some label) :
    ∃ result, machine.Runs before core
        (if truth then before ++ (code ++ jumpIfFalse label) else target) result ∧
      machine.At initial env state (if truth then before ++ (code ++ jumpIfFalse label) else target)
        result depth ∧
      machine.Kept bound depth core result := by
  rcases expr_pushes setup placed inside generated evaluated here (lists_left lists) with
    ⟨_, between, ran, arrived, top, kept⟩
  rcases test_at setup placed arrived top (lists_right lists) defined labelledSo with
    ⟨result, more, finished, same⟩
  rw [List.append_assoc] at more finished
  exact ⟨result, runs_trans ran more, finished, kept.to_bound.trans (kept_of_memory same)⟩

theorem condition_true {condition : Expr} {inner : Pushed} {label : Label} {named : Line}
    {target : Code} (generated : env.expr condition supply = (.ok (inner, code), after))
    (evaluated : state.eval condition = some (.boolean true))
    (here : machine.At initial env state before core depth)
    (lists : machine.Lists before (code ++ jumpIfFalse label))
    (defined : machine.Lists target [named]) (labelledSo : named.label? = some label) :
    machine.Performs initial env state before core (code ++ jumpIfFalse label) depth bound :=
  condition_at setup placed inside generated evaluated here lists defined labelledSo

theorem condition_false {condition : Expr} {inner : Pushed} {label : Label} {named : Line}
    {target : Code} (generated : env.expr condition supply = (.ok (inner, code), after))
    (evaluated : state.eval condition = some (.boolean false))
    (here : machine.At initial env state before core depth)
    (lists : machine.Lists before (code ++ jumpIfFalse label))
    (defined : machine.Lists target [named]) (labelledSo : named.label? = some label) :
    ∃ result, machine.Runs before core target result ∧
      machine.At initial env state target result depth ∧ machine.Kept bound depth core result :=
  condition_at setup placed inside generated evaluated here lists defined labelledSo

include simulates

theorem if_then_performs {nodeLine thenLine : Nat} {condition : Expr} {thenBody : List Stmt}
    (typed : ∀ statement ∈ thenBody, context.WellTyped statement)
    (generated : env.stmt (.ifThen nodeLine condition thenLine thenBody) supply =
      (.ok code, after))
    (entered : after.texts <+: machine.listing.texts)
    (done : exec program console (fuel + 1) state
      (.ifThen nodeLine condition thenLine thenBody) = some later)
    (here : machine.At initial env state before core depth) (lists : machine.Lists before code) :
    machine.Performs initial env later before core code depth bound := by
  rcases if_then_inv generated with
    ⟨number, inner, test, thenCode, first, second, third, _, tested, coded, closed, rfl⟩
  have testLists := lists_left (lists_left lists)
  have endLists := lists_right lists
  rcases exec_if_then_inv done with ⟨evaluated, chosen⟩ | ⟨evaluated, rfl⟩
  · have known := List.IsPrefix.trans (close_label_numbered .otherwise closed).grows.texts entered
    rcases condition_true setup placed inside tested evaluated here testLists endLists rfl with
      ⟨between, ran, arrived, kept⟩
    rcases stmts_perform simulates typed coded known chosen arrived
      (lists_right (lists_left lists)) with ⟨result, more, finished, keptLater⟩
    rw [List.append_assoc before] at more finished
    exact performs_after (runs_trans ran more) (kept.trans keptLater)
      (place_performs setup placed finished endLists)
  · -- the jump goes to the label behind the body
    rcases condition_false setup placed inside tested evaluated here testLists endLists rfl with
      ⟨between, ran, arrived, kept⟩
    exact performs_after ran kept (place_performs setup placed arrived endLists)

theorem if_else_performs {nodeLine thenLine elseLine : Nat} {condition : Expr}
    {thenBody elseBody : List Stmt}
    (thenTyped : ∀ statement ∈ thenBody, context.WellTyped statement)
    (elseTyped : ∀ statement ∈ elseBody, context.WellTyped statement)
    (generated : env.stmt (.ifElse nodeLine condition thenLine thenBody elseLine elseBody) supply =
      (.ok code, after))
    (entered : after.texts <+: machine.listing.texts)
    (done : exec program console (fuel + 1) state
      (.ifElse nodeLine condition thenLine thenBody elseLine elseBody) = some later)
    (here : machine.At initial env state before core depth) (lists : machine.Lists before code) :
    machine.Performs initial env later before core code depth bound := by
  rcases if_else_inv generated with
    ⟨number, endNumber, inner, test, thenCode, elseCode, first, second, third, fourth, fifth,
      sixth, _, tested, thenCoded, opened, closed, elseCoded, endClosed, rfl⟩
  have elseKnown := List.IsPrefix.trans (close_label_numbered .endIf endClosed).grows.texts entered
  have thenKnown := List.IsPrefix.trans (open_label_numbered .endIf opened).grows.texts
    (List.IsPrefix.trans (close_label_numbered .otherwise closed).grows.texts
      (List.IsPrefix.trans (stmts_numbered elseBody elseCoded).grows.texts elseKnown))
  -- The lines from the test up to the end of the first branch, the jump over
  -- the second branch with the label of that branch, and the second branch.
  have endLists := lists_right lists
  have elseLists := lists_right (lists_left lists)
  have jumpLists : machine.Lists (before ++ (test ++ jumpIfFalse (.otherwise number) ++ thenCode))
      ([line (.jump .always (.endIf endNumber))] ++ [PascalCasl.place (.otherwise number)]) :=
    lists_right (lists_left (lists_left lists))
  have thenLists := lists_left (lists_left (lists_left lists))
  have otherwiseLists := lists_right jumpLists
  rcases exec_if_else_inv done with ⟨evaluated, chosen⟩ | ⟨evaluated, chosen⟩
  · rcases condition_true setup placed inside tested evaluated here (lists_left thenLists)
      otherwiseLists rfl with ⟨between, ran, arrived, kept⟩
    rcases stmts_perform simulates thenTyped thenCoded thenKnown chosen arrived
      (lists_right thenLists) with ⟨result, more, finished, keptLater⟩
    rw [List.append_assoc before] at more finished
    rcases goto_runs setup (lists_left jumpLists) endLists rfl finished.steady with
      ⟨jumped, steady⟩
    exact performs_after (runs_trans ran (runs_trans more jumped)) (kept.trans keptLater)
      (place_performs setup placed (finished.moved steady) endLists)
  · rcases condition_false setup placed inside tested evaluated here (lists_left thenLists)
      otherwiseLists rfl with ⟨between, ran, arrived, kept⟩
    rcases place_performs setup placed arrived otherwiseLists with
      ⟨placedCore, placedRan, placedAt, placedKept⟩
    have joined : before ++ (test ++ jumpIfFalse (.otherwise number) ++ thenCode) ++
        [line (.jump .always (.endIf endNumber))] ++ [PascalCasl.place (.otherwise number)] =
        before ++ (test ++ jumpIfFalse (.otherwise number) ++ thenCode ++
          [line (.jump .always (.endIf endNumber)), PascalCasl.place (.otherwise number)]) := by
      simp
    rw [joined] at placedRan placedAt
    rcases stmts_perform simulates elseTyped elseCoded elseKnown chosen placedAt elseLists with
      ⟨result, more, finished, keptLater⟩
    rw [List.append_assoc before] at more finished
    exact performs_after (runs_trans ran (runs_trans placedRan more))
      (kept.trans (placedKept.trans keptLater))
      (place_performs setup placed finished endLists)

theorem while_performs {nodeLine bodyLine : Nat} {condition : Expr} {body : List Stmt}
    (typed : context.WellTyped (.whileDo nodeLine condition bodyLine body))
    (bodyTyped : ∀ statement ∈ body, context.WellTyped statement)
    (generated : env.stmt (.whileDo nodeLine condition bodyLine body) supply = (.ok code, after))
    (entered : after.texts <+: machine.listing.texts)
    (done : exec program console (fuel + 1) state
      (.whileDo nodeLine condition bodyLine body) = some later)
    (here : machine.At initial env state before core depth) (lists : machine.Lists before code) :
    machine.Performs initial env later before core code depth bound := by
  rcases while_inv generated with
    ⟨number, inner, test, bodyCode, first, second, third, _, tested, coded, closed, rfl⟩
  have known := List.IsPrefix.trans (close_label_numbered .loop closed).grows.texts entered
  have headLists := lists_left (lists_left lists)
  have startLists := lists_left (lists_left headLists)
  have jumpLists : machine.Lists (before ++ ([PascalCasl.place (.loop number)] ++ test ++
      jumpIfFalse (.endLoop number) ++ bodyCode))
      ([line (.jump .always (.loop number))] ++ [PascalCasl.place (.endLoop number)]) :=
    lists_right lists
  have endLists := lists_right jumpLists
  have testLists : machine.Lists (before ++ [PascalCasl.place (.loop number)])
      (test ++ jumpIfFalse (.endLoop number)) := by
    rw [List.append_assoc] at headLists
    exact lists_right headLists
  rcases place_performs setup placed here startLists with ⟨started, startRan, startAt, startKept⟩
  rcases exec_while_inv done with ⟨evaluated, middle, bodyDone, again⟩ | ⟨evaluated, rfl⟩
  · rcases condition_true setup placed inside tested evaluated startAt testLists endLists rfl
      with ⟨between, ran, arrived, kept⟩
    rw [List.append_assoc before, ← List.append_assoc [_] test] at ran arrived
    rcases stmts_perform simulates bodyTyped coded known bodyDone arrived
      (lists_right (lists_left lists)) with ⟨result, more, finished, keptLater⟩
    rw [List.append_assoc before] at more finished
    rcases goto_runs setup (lists_left jumpLists) startLists rfl finished.steady with
      ⟨jumped, steady⟩
    -- Back at the first line, the rest of the run has less fuel.
    have rest := simulates _ typed generated entered again (finished.moved steady) lists
    exact performs_from (runs_trans startRan (runs_trans ran (runs_trans more jumped)))
      (startKept.trans (kept.trans keptLater)) rest rfl
  · rcases condition_false setup placed inside tested evaluated startAt testLists endLists rfl
      with ⟨between, ran, arrived, kept⟩
    apply performs_from (runs_trans startRan ran) (startKept.trans kept)
      (place_performs setup placed arrived endLists)
    simp

end Control

theorem typed_pushed (stores : env.Stores scope) (means : scope.Means context) {value : Expr}
    {type : StandardType} {pushed : Pushed} (typed : context.HasType value (.standard type))
    (coded : env.expr value supply = (.ok (pushed, code), after)) : pushed = .scalar type := by
  rcases typed_yields stores means typed supply with ⟨⟨_, _⟩, _, same, fits⟩
  rw [coded] at same
  cases same
  exact (fits.1 type).mpr rfl

theorem typed_target_pushed (stores : env.Stores scope) (means : scope.Means context)
    {target : Target} {type : StandardType} {pushed : Pushed}
    (typed : context.TargetHasType target (.standard type))
    (coded : env.target target supply = (.ok (pushed, code), after)) : pushed = .scalar type := by
  rcases typed_target_yields stores means typed supply with ⟨⟨_, _⟩, _, same, fits⟩
  rw [coded] at same
  cases same
  exact (fits.1 type).mpr rfl

/-- One more step of fuel, given what calls do. -/
theorem stmt_step (setup : machine.Setup console initial)
    (hosts : machine.Hosts scope env context globalEnd base bound)
    (simulates : ∀ statement,
      machine.Simulates initial program console env context bound fuel statement)
    (calls : ∀ nodeLine name arguments, machine.Simulates initial program console env context bound
      (fuel + 1) (.call nodeLine name arguments)) (statement : Stmt) :
    machine.Simulates initial program console env context bound (fuel + 1) statement := by
  intro state later supply after code before core depth typed generated entered done here lists
  have placed := hosts.placed
  have inside := hosts.inside
  cases statement with
  | assign nodeLine target value =>
      rcases Option.bind_eq_some_iff.mp done with ⟨result, evaluated, assigned⟩
      cases typed with
      | assign targetTyped valueTyped =>
          apply assign_performs setup placed inside generated evaluated assigned ?_ here lists
          intro _ _ _ _ _ _ _ located coded
          rw [typed_target_pushed hosts.stores hosts.means targetTyped located,
            typed_pushed hosts.stores hosts.means valueTyped coded]
  | call nodeLine name arguments =>
      exact calls nodeLine name arguments typed generated entered done here lists
  | ifThen nodeLine condition thenLine thenBody =>
      cases typed with
      | ifThen _ taken =>
          exact if_then_performs setup placed inside simulates taken generated entered done here
            lists
  | ifElse nodeLine condition thenLine thenBody elseLine elseBody =>
      cases typed with
      | ifElse _ taken skipped =>
          exact if_else_performs setup placed inside simulates taken skipped generated entered done
            here lists
  | whileDo nodeLine condition bodyLine body =>
      -- the loop is run once more with the fuel below, and for that it is typed as a whole
      have whole := typed
      cases typed with
      | whileDo _ repeated =>
          exact while_performs setup placed inside simulates whole repeated generated entered done
            here lists
  | read nodeLine targets =>
      rcases read_inv generated with ⟨inner, coded, rfl⟩
      rcases Option.bind_eq_some_iff.mp done with ⟨middle, finished, logged⟩
      cases logged
      rcases reads_perform setup placed inside coded finished here (lists_left lists) with
        ⟨result, ran, arrived, kept⟩
      exact performs_after ran kept
        (output_performs setup placed inside rfl nofun rfl arrived (lists_right lists))
  | write nodeLine values =>
      rcases write_inv generated with ⟨inner, coded, rfl⟩
      rcases Option.bind_eq_some_iff.mp done with ⟨middle, finished, logged⟩
      cases logged
      rcases writes_perform setup placed inside coded entered finished here (lists_left lists) with
        ⟨result, ran, arrived, kept⟩
      exact performs_after ran kept
        (output_performs setup placed inside rfl nofun rfl arrived (lists_right lists))
  | block nodeLine body =>
      cases typed with
      | block each => exact stmts_perform simulates each generated entered done here lists

end Machine
end PascalCasl
