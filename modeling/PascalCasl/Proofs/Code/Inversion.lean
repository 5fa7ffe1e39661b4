import PascalCasl.Proofs.Code.Blocks
import PascalCasl.Proofs.Steps

/-!
What generated code looks like. For each construct that has code, one theorem
says how the code is put together from the code of its parts and how the supply
passes through them; the theory of generated code uses these theorems and never
opens the generator.
-/

namespace PascalCasl

open Casl

variable {env : Env} {supply after : Supply} {pushed : Pushed} {code : Code}

theorem cells_inv {name : String} {line : Nat} {cells : Cells}
    (found : env.cells name line supply = (.ok cells, after)) :
    env.cells? name = some cells ∧ after = supply := by
  unfold Env.cells at found
  cases known : env.cells? name with
  | none =>
      rw [known] at found
      simp [Emit.unknown] at found
  | some held =>
      rw [known] at found
      rcases Emit.pure_ok.mp found with ⟨rfl, rfl⟩
      exact ⟨rfl, rfl⟩

theorem text_code_single {text : String} {character : Char} (single : text.toList = [character]) :
    textCode text = pure (.scalar .char,
      [line (.load .gr1 (.literal (.character character))), pushRegister .gr1]) := by
  unfold textCode
  rw [single]

theorem text_code_entered {text : String} (several : text.length ≠ 1) :
    textCode text = (do
      let number ← Emit.newText text
      pure (.address text.length,
        [line (.loadAddress .gr2 (symbol (.text number))), pushRegister .gr2])) := by
  unfold textCode
  split
  next character single => exact absurd (by simp [← String.length_toList, single]) several
  next => rw [String.length_toList]

theorem text_code_inv {text : String}
    (generated : textCode text supply = (.ok (pushed, code), after)) :
    (∃ character, text.toList = [character] ∧ after = supply ∧ pushed = .scalar .char ∧
      code = [line (.load .gr1 (.literal (.character character))), pushRegister .gr1]) ∨
    (∃ number, text.length ≠ 1 ∧ Emit.newText text supply = (.ok number, after) ∧
      pushed = .address text.length ∧
      code = [line (.loadAddress .gr2 (symbol (.text number))), pushRegister .gr2]) := by
  by_cases single : text.length = 1
  · rw [← String.length_toList, List.length_eq_one_iff] at single
    rcases single with ⟨character, single⟩
    rw [text_code_single single] at generated
    cases generated
    exact .inl ⟨character, single, rfl, rfl, rfl⟩
  · rw [text_code_entered single] at generated
    rcases Emit.bind_ok.mp generated with ⟨number, middle, entered, finished⟩
    cases finished
    exact .inr ⟨number, single, entered, rfl, rfl⟩

theorem expr_simple_inv {nodeLine : Nat} {name : String}
    (generated : env.expr (.simple nodeLine name) supply = (.ok (pushed, code), after)) :
    after = supply ∧
      ((∃ base type, env.cells? name = some (.scalar base type) ∧ pushed = .scalar type ∧
        code = loadNumber .gr2 base :: pushCell) ∨
      ∃ base element low count, env.cells? name = some (.array base element low count) ∧
        pushed = .address count ∧ code = pushAddress base) := by
  rcases Emit.bind_ok.mp generated with ⟨cells, middle, found, finished⟩
  rcases cells_inv found with ⟨known, rfl⟩
  cases cells with
  | scalar base type =>
      cases finished
      exact ⟨rfl, .inl ⟨base, type, known, rfl, rfl⟩⟩
  | array base element low count =>
      cases finished
      exact ⟨rfl, .inr ⟨base, element, low, count, known, rfl, rfl⟩⟩

theorem expr_indexed_inv {nodeLine : Nat} {name : String} {index : Expr}
    (generated : env.expr (.indexed nodeLine name index) supply = (.ok (pushed, code), after)) :
    ∃ base element low count inner indexCode,
      env.cells? name = some (.array base element low count) ∧
      env.expr index supply = (.ok (inner, indexCode), after) ∧ pushed = .scalar element ∧
      code = indexCode ++ locateElement base low ++ pushCell := by
  rcases Emit.bind_ok.mp generated with ⟨cells, middle, found, rest⟩
  rcases cells_inv found with ⟨known, rfl⟩
  cases cells with
  | scalar base type => simp [Emit.unknown] at rest
  | array base element low count =>
      rcases Emit.bind_ok.mp rest with ⟨⟨inner, indexCode⟩, last, indexed, finished⟩
      cases finished
      exact ⟨base, element, low, count, inner, indexCode, known, indexed, rfl, rfl⟩

theorem expr_unary_inv {nodeLine : Nat} {op : UnaryOp} {operand : Expr}
    (generated : env.expr (.unary nodeLine op operand) supply = (.ok (pushed, code), after)) :
    ∃ operandCode, env.expr operand supply = (.ok (pushed, operandCode), after) ∧
      code = operandCode ++ unaryCode op := by
  rcases Emit.bind_ok.mp generated with ⟨⟨inner, operandCode⟩, middle, coded, finished⟩
  cases finished
  exact ⟨operandCode, coded, rfl⟩

theorem expr_binary_inv {nodeLine : Nat} {op : BinaryOp} {left right : Expr}
    (generated : env.expr (.binary nodeLine op left right) supply = (.ok (pushed, code), after)) :
    ∃ leftPushed leftCode rightPushed rightCode joint first second,
      env.expr left supply = (.ok (leftPushed, leftCode), first) ∧
      env.expr right first = (.ok (rightPushed, rightCode), second) ∧
      binaryCode op leftPushed second = (.ok joint, after) ∧ pushed = binaryValue op ∧
      code = leftCode ++ rightCode ++ [popInto .gr2, popInto .gr1] ++ joint := by
  rcases Emit.bind_ok.mp generated with ⟨⟨leftPushed, leftCode⟩, first, leftCoded, rest⟩
  rcases Emit.bind_ok.mp rest with ⟨⟨rightPushed, rightCode⟩, second, rightCoded, rest⟩
  rcases Emit.bind_ok.mp rest with ⟨joint, third, joined, finished⟩
  cases finished
  exact ⟨leftPushed, leftCode, rightPushed, rightCode, joint, first, second, leftCoded, rightCoded,
    joined, rfl, rfl⟩

/-- The jump and the value it stands for, for each relation. -/
def relationJump : BinaryOp → Option (Condition × Bool)
  | .equal => some (.zero, true)
  | .notEqual => some (.nonzero, true)
  | .less => some (.minus, true)
  | .greater => some (.plus, true)
  | .lessEqual => some (.plus, false)
  | .greaterEqual => some (.minus, false)
  | _ => none

def operatorCode : BinaryOp → Option Code
  | .add => some [line (.compute .add .gr1 (.register .gr2)), pushRegister .gr1]
  | .sub => some [line (.compute .subtract .gr1 (.register .gr2)), pushRegister .gr1]
  | .and => some [line (.compute .and .gr1 (.register .gr2)), pushRegister .gr1]
  | .or => some [line (.compute .or .gr1 (.register .gr2)), pushRegister .gr1]
  | .mul => some [line (.call (.routine .multiply)), pushRegister .gr2]
  | .div => some [line (.call (.routine .divide)), pushRegister .gr2]
  | .mod => some [line (.call (.routine .divide)), pushRegister .gr1]
  | _ => none

theorem binary_code_inv {op : BinaryOp} {left : Pushed}
    (generated : binaryCode op left supply = (.ok code, after)) :
    (operatorCode op = some code ∧ after = supply) ∨
      ∃ condition taken number, relationJump op = some (condition, taken) ∧
        Emit.newComparison supply = (.ok number, after) ∧
        code = comparison number left condition taken := by
  cases op <;>
    first
    | cases generated
      exact .inl ⟨rfl, rfl⟩
    | cases generated
      exact .inr ⟨_, _, _, rfl, rfl, rfl⟩

theorem target_simple_inv {nodeLine : Nat} {name : String}
    (generated : env.target (.simple nodeLine name) supply = (.ok (pushed, code), after)) :
    after = supply ∧
      ((∃ base type, env.cells? name = some (.scalar base type) ∧ pushed = .scalar type ∧
        code = [line (.push (direct base))]) ∨
      ∃ base element low count, env.cells? name = some (.array base element low count) ∧
        pushed = .address count ∧ code = pushAddress base) := by
  rcases Emit.bind_ok.mp generated with ⟨cells, middle, found, finished⟩
  rcases cells_inv found with ⟨known, rfl⟩
  cases cells with
  | scalar base type =>
      cases finished
      exact ⟨rfl, .inl ⟨base, type, known, rfl, rfl⟩⟩
  | array base element low count =>
      cases finished
      exact ⟨rfl, .inr ⟨base, element, low, count, known, rfl, rfl⟩⟩

theorem target_indexed_inv {nodeLine : Nat} {name : String} {index : Expr}
    (generated : env.target (.indexed nodeLine name index) supply = (.ok (pushed, code), after)) :
    ∃ base element low count inner indexCode,
      env.cells? name = some (.array base element low count) ∧
      env.expr index supply = (.ok (inner, indexCode), after) ∧ pushed = .scalar element ∧
      code = indexCode ++ locateElement base low ++ [pushRegister .gr2] := by
  rcases Emit.bind_ok.mp generated with ⟨cells, middle, found, rest⟩
  rcases cells_inv found with ⟨known, rfl⟩
  cases cells with
  | scalar base type => simp [Emit.unknown] at rest
  | array base element low count =>
      rcases Emit.bind_ok.mp rest with ⟨⟨inner, indexCode⟩, last, indexed, finished⟩
      cases finished
      exact ⟨base, element, low, count, inner, indexCode, known, indexed, rfl, rfl⟩

theorem exprs_nil_inv (generated : env.exprs [] supply = (.ok code, after)) :
    code = [] ∧ after = supply := by
  cases generated
  exact ⟨rfl, rfl⟩

theorem exprs_cons_inv {first : Expr} {rest : List Expr}
    (generated : env.exprs (first :: rest) supply = (.ok code, after)) :
    ∃ inner firstCode others middle, env.expr first supply = (.ok (inner, firstCode), middle) ∧
      env.exprs rest middle = (.ok others, after) ∧ code = firstCode ++ others := by
  rcases Emit.bind_ok.mp generated with ⟨⟨inner, firstCode⟩, middle, coded, rest⟩
  rcases Emit.bind_ok.mp rest with ⟨others, last, more, finished⟩
  cases finished
  exact ⟨inner, firstCode, others, middle, coded, more, rfl⟩

theorem call_inv {name : String} {arguments : List Expr} {nodeLine : Nat}
    (generated : env.call name arguments nodeLine supply = (.ok code, after)) :
    ∃ frame argumentCode, env.procedure? name = some frame ∧
      env.exprs arguments.reverse supply = (.ok argumentCode, after) ∧
      code = if env.current = some frame.ordinal then
          frame.save ++ (argumentCode ++ [line (.call (.procedure frame.ordinal))]) ++ frame.restore
        else argumentCode ++ [line (.call (.procedure frame.ordinal))] := by
  unfold Env.call at generated
  cases known : env.procedure? name with
  | none =>
      rw [known] at generated
      simp [Emit.unknown] at generated
  | some frame =>
      rw [known] at generated
      rcases Emit.bind_ok.mp generated with ⟨argumentCode, middle, coded, finished⟩
      refine ⟨frame, argumentCode, rfl, ?_⟩
      by_cases own : env.current = some frame.ordinal
      · rw [if_pos own] at finished ⊢
        cases finished
        exact ⟨coded, rfl⟩
      · rw [if_neg own] at finished ⊢
        cases finished
        exact ⟨coded, rfl⟩

theorem reads_nil_inv (generated : env.reads [] supply = (.ok code, after)) :
    code = [] ∧ after = supply := by
  cases generated
  exact ⟨rfl, rfl⟩

theorem reads_cons_inv {first : Target} {rest : List Target}
    (generated : env.reads (first :: rest) supply = (.ok code, after)) :
    ∃ inner firstCode others middle, env.target first supply = (.ok (inner, firstCode), middle) ∧
      env.reads rest middle = (.ok others, after) ∧
      code = firstCode ++ readCode inner ++ others := by
  rcases Emit.bind_ok.mp generated with ⟨⟨inner, firstCode⟩, middle, coded, rest⟩
  rcases Emit.bind_ok.mp rest with ⟨others, last, more, finished⟩
  cases finished
  exact ⟨inner, firstCode, others, middle, coded, more, rfl⟩

theorem writes_nil_inv (generated : env.writes [] supply = (.ok code, after)) :
    code = [] ∧ after = supply := by
  cases generated
  exact ⟨rfl, rfl⟩

theorem writes_cons_inv {first : Expr} {rest : List Expr}
    (generated : env.writes (first :: rest) supply = (.ok code, after)) :
    ∃ inner firstCode others middle, env.expr first supply = (.ok (inner, firstCode), middle) ∧
      env.writes rest middle = (.ok others, after) ∧
      code = firstCode ++ writeCode inner ++ others := by
  rcases Emit.bind_ok.mp generated with ⟨⟨inner, firstCode⟩, middle, coded, rest⟩
  rcases Emit.bind_ok.mp rest with ⟨others, last, more, finished⟩
  cases finished
  exact ⟨inner, firstCode, others, middle, coded, more, rfl⟩

theorem assign_inv {nodeLine : Nat} {target : Target} {value : Expr}
    (generated : env.stmt (.assign nodeLine target value) supply = (.ok code, after)) :
    ∃ targetPushed targetCode valuePushed valueCode middle,
      env.target target supply = (.ok (targetPushed, targetCode), middle) ∧
      env.expr value middle = (.ok (valuePushed, valueCode), after) ∧
      code = targetCode ++ valueCode ++ [popInto .gr1, popInto .gr2, storeCell] := by
  rcases Emit.bind_ok.mp generated with ⟨⟨targetPushed, targetCode⟩, middle, located, rest⟩
  rcases Emit.bind_ok.mp rest with ⟨⟨valuePushed, valueCode⟩, last, coded, finished⟩
  cases finished
  exact ⟨targetPushed, targetCode, valuePushed, valueCode, middle, located, coded, rfl⟩

theorem if_then_inv {nodeLine thenLine : Nat} {condition : Expr} {thenBody : List Stmt}
    (generated : env.stmt (.ifThen nodeLine condition thenLine thenBody) supply =
      (.ok code, after)) :
    ∃ number inner test thenCode first second third,
      Emit.openOtherwise supply = (.ok number, first) ∧
      env.expr condition first = (.ok (inner, test), second) ∧
      env.stmts thenBody second = (.ok thenCode, third) ∧
      Emit.closeOtherwise number third = (.ok (), after) ∧
      code = test ++ jumpIfFalse (.otherwise number) ++ thenCode ++
        [place (.otherwise number)] := by
  rcases Emit.bind_ok.mp generated with ⟨number, first, opened, rest⟩
  rcases Emit.bind_ok.mp rest with ⟨⟨inner, test⟩, second, tested, rest⟩
  rcases Emit.bind_ok.mp rest with ⟨thenCode, third, coded, rest⟩
  rcases Emit.bind_ok.mp rest with ⟨_, fourth, closed, finished⟩
  cases finished
  exact ⟨number, inner, test, thenCode, first, second, third, opened, tested, coded, closed, rfl⟩

theorem if_else_inv {nodeLine thenLine elseLine : Nat} {condition : Expr}
    {thenBody elseBody : List Stmt}
    (generated : env.stmt (.ifElse nodeLine condition thenLine thenBody elseLine elseBody) supply =
      (.ok code, after)) :
    ∃ number endNumber inner test thenCode elseCode first second third fourth fifth sixth,
      Emit.openOtherwise supply = (.ok number, first) ∧
      env.expr condition first = (.ok (inner, test), second) ∧
      env.stmts thenBody second = (.ok thenCode, third) ∧
      Emit.openEndIf third = (.ok endNumber, fourth) ∧
      Emit.closeOtherwise number fourth = (.ok (), fifth) ∧
      env.stmts elseBody fifth = (.ok elseCode, sixth) ∧
      Emit.closeEndIf endNumber sixth = (.ok (), after) ∧
      code = test ++ jumpIfFalse (.otherwise number) ++ thenCode ++
        [line (.jump .always (.endIf endNumber)), place (.otherwise number)] ++ elseCode ++
        [place (.endIf endNumber)] := by
  rcases Emit.bind_ok.mp generated with ⟨number, first, opened, rest⟩
  rcases Emit.bind_ok.mp rest with ⟨⟨inner, test⟩, second, tested, rest⟩
  rcases Emit.bind_ok.mp rest with ⟨thenCode, third, thenCoded, rest⟩
  rcases Emit.bind_ok.mp rest with ⟨endNumber, fourth, endOpened, rest⟩
  rcases Emit.bind_ok.mp rest with ⟨_, fifth, closed, rest⟩
  rcases Emit.bind_ok.mp rest with ⟨elseCode, sixth, elseCoded, rest⟩
  rcases Emit.bind_ok.mp rest with ⟨_, seventh, endClosed, finished⟩
  cases finished
  exact ⟨number, endNumber, inner, test, thenCode, elseCode, first, second, third, fourth, fifth,
    sixth, opened, tested, thenCoded, endOpened, closed, elseCoded, endClosed, rfl⟩

theorem while_inv {nodeLine bodyLine : Nat} {condition : Expr} {body : List Stmt}
    (generated : env.stmt (.whileDo nodeLine condition bodyLine body) supply =
      (.ok code, after)) :
    ∃ number inner test bodyCode first second third,
      Emit.openLoop supply = (.ok number, first) ∧
      env.expr condition first = (.ok (inner, test), second) ∧
      env.stmts body second = (.ok bodyCode, third) ∧
      Emit.closeLoop number third = (.ok (), after) ∧
      code = [place (.loop number)] ++ test ++ jumpIfFalse (.endLoop number) ++ bodyCode ++
        [line (.jump .always (.loop number)), place (.endLoop number)] := by
  rcases Emit.bind_ok.mp generated with ⟨number, first, opened, rest⟩
  rcases Emit.bind_ok.mp rest with ⟨⟨inner, test⟩, second, tested, rest⟩
  rcases Emit.bind_ok.mp rest with ⟨bodyCode, third, coded, rest⟩
  rcases Emit.bind_ok.mp rest with ⟨_, fourth, closed, finished⟩
  cases finished
  exact ⟨number, inner, test, bodyCode, first, second, third, opened, tested, coded, closed, rfl⟩

theorem read_inv {nodeLine : Nat} {targets : List Target}
    (generated : env.stmt (.read nodeLine targets) supply = (.ok code, after)) :
    ∃ inner, env.reads targets supply = (.ok inner, after) ∧
      code = inner ++ [callRoutine .readLine] := by
  rcases Emit.bind_ok.mp generated with ⟨inner, middle, coded, finished⟩
  cases finished
  exact ⟨inner, coded, rfl⟩

theorem write_inv {nodeLine : Nat} {values : List Expr}
    (generated : env.stmt (.write nodeLine values) supply = (.ok code, after)) :
    ∃ inner, env.writes values supply = (.ok inner, after) ∧
      code = inner ++ [callRoutine .writeLine] := by
  rcases Emit.bind_ok.mp generated with ⟨inner, middle, coded, finished⟩
  cases finished
  exact ⟨inner, coded, rfl⟩

theorem stmts_nil_inv (generated : env.stmts [] supply = (.ok code, after)) :
    code = [] ∧ after = supply := by
  cases generated
  exact ⟨rfl, rfl⟩

theorem stmts_cons_inv {first : Stmt} {rest : List Stmt}
    (generated : env.stmts (first :: rest) supply = (.ok code, after)) :
    ∃ firstCode others middle, env.stmt first supply = (.ok firstCode, middle) ∧
      env.stmts rest middle = (.ok others, after) ∧ code = firstCode ++ others := by
  rcases Emit.bind_ok.mp generated with ⟨firstCode, middle, coded, rest⟩
  rcases Emit.bind_ok.mp rest with ⟨others, last, more, finished⟩
  cases finished
  exact ⟨firstCode, others, middle, coded, more, rfl⟩

/-- What holds of no code, and of two pieces together when it holds of each. The
second piece begins with the supply that the first leaves. -/
structure Composes (holds : Supply → Code → Supply → Prop) : Prop where
  nothing (supply : Supply) : holds supply [] supply
  joined {supply middle after : Supply} {first second : Code} :
    holds supply first middle → holds middle second after → holds supply (first ++ second) after

namespace Composes

variable {holds : Supply → Code → Supply → Prop} (composes : Composes holds)

include composes

theorem list {α β : Type} (item : β → Emit α) (list : List β → Emit Code) (piece : α → Code)
    {items : List β} (nil : list [] = pure [])
    (cons : ∀ first rest, list (first :: rest) = (do
      let value ← item first
      let others ← list rest
      pure (piece value ++ others)))
    (each : ∀ first ∈ items, ∀ {supply after : Supply} {value : α},
      item first supply = (.ok value, after) → holds supply (piece value) after)
    (generated : list items supply = (.ok code, after)) : holds supply code after := by
  induction items generalizing supply code with
  | nil =>
      rw [nil] at generated
      rcases Emit.pure_ok.mp generated with ⟨rfl, rfl⟩
      exact composes.nothing supply
  | cons first rest ih =>
      rcases List.forall_mem_cons.mp each with ⟨head, tail⟩
      rw [cons] at generated
      rcases Emit.bind_ok.mp generated with ⟨value, middle, coded, generated⟩
      rcases Emit.bind_ok.mp generated with ⟨others, last, more, finished⟩
      rcases Emit.pure_ok.mp finished with ⟨rfl, rfl⟩
      exact composes.joined (head coded) (ih tail more)

theorem exprs {values : List Expr}
    (each : ∀ value ∈ values, ∀ {supply after : Supply} {pushed : Pushed} {code : Code},
      env.expr value supply = (.ok (pushed, code), after) → holds supply code after)
    (generated : env.exprs values supply = (.ok code, after)) : holds supply code after :=
  composes.list env.expr env.exprs Prod.snd rfl (fun _ _ => rfl)
    (fun value member _ _ _ => each value member) generated

theorem reads {targets : List Target}
    (each : ∀ target ∈ targets, ∀ {supply after : Supply} {pushed : Pushed} {code : Code},
      env.target target supply = (.ok (pushed, code), after) →
        holds supply (code ++ readCode pushed) after)
    (generated : env.reads targets supply = (.ok code, after)) : holds supply code after :=
  composes.list env.target env.reads (fun coded => coded.2 ++ readCode coded.1) rfl
    (fun _ _ => rfl) (fun target member _ _ _ => each target member) generated

theorem writes {values : List Expr}
    (each : ∀ value ∈ values, ∀ {supply after : Supply} {pushed : Pushed} {code : Code},
      env.expr value supply = (.ok (pushed, code), after) →
        holds supply (code ++ writeCode pushed) after)
    (generated : env.writes values supply = (.ok code, after)) : holds supply code after :=
  composes.list env.expr env.writes (fun coded => coded.2 ++ writeCode coded.1) rfl
    (fun _ _ => rfl) (fun value member _ _ _ => each value member) generated

theorem stmts {body : List Stmt}
    (each : ∀ statement ∈ body, ∀ {supply after : Supply} {code : Code},
      env.stmt statement supply = (.ok code, after) → holds supply code after)
    (generated : env.stmts body supply = (.ok code, after)) : holds supply code after :=
  composes.list env.stmt env.stmts id rfl (fun _ _ => rfl)
    (fun statement member _ _ _ => each statement member) generated

end Composes

theorem blocks_nil_inv {program : Program} {codes : List Code}
    (generated : codeBlocks program [] supply = (.ok codes, after)) :
    codes = [] ∧ after = supply := by
  cases generated
  exact ⟨rfl, rfl⟩

theorem blocks_cons_inv {program : Program} {block : Block} {rest : List Block}
    {codes : List Code}
    (generated : codeBlocks program (block :: rest) supply = (.ok codes, after)) :
    ∃ body others middle,
      (block.env program).stmts (block.statements program) supply = (.ok body, middle) ∧
      codeBlocks program rest middle = (.ok others, after) ∧
      codes = (block.opening program ++ body ++ block.closing) :: others := by
  rcases Emit.bind_ok.mp generated with ⟨code, middle, coded, rest⟩
  rcases Emit.bind_ok.mp coded with ⟨body, last, bodyCoded, finished⟩
  cases finished
  rcases Emit.bind_ok.mp rest with ⟨others, last, more, finished⟩
  cases finished
  exact ⟨body, others, middle, bodyCoded, more, rfl⟩

theorem blocks_coded_length {program : Program} {blocks : List Block} {codes : List Code}
    (generated : codeBlocks program blocks supply = (.ok codes, after)) :
    codes.length = blocks.length := by
  induction blocks generalizing supply codes with
  | nil =>
      rcases blocks_nil_inv generated with ⟨rfl, _⟩
      rfl
  | cons first rest ih =>
      rcases blocks_cons_inv generated with ⟨_, others, _, _, more, rfl⟩
      rw [List.length_cons, ih more, List.length_cons]

theorem listing_inv {program : Program} {listing : Listing}
    (generated : Listing.ofProgram program = .ok listing) :
    ∃ middle last,
      codeBlocks program program.procedureBlocks .empty = (.ok listing.procedures, middle) ∧
      (Block.env program .main).stmts program.body middle = (.ok listing.main, last) ∧
      listing.cells = (Layout.ofProgram program).cells ∧ listing.texts = last.texts := by
  unfold Listing.ofProgram at generated
  split at generated
  next procedures main last coded =>
    cases generated
    rcases Emit.bind_ok.mp coded with ⟨codes, middle, proceduresCoded, rest⟩
    rcases Emit.bind_ok.mp rest with ⟨mainCode, _, mainCoded, finished⟩
    cases finished
    exact ⟨middle, last, procedures_code_eq program [] program.procedures ▸ proceduresCoded,
      mainCoded, rfl, rfl⟩
  next => cases generated

end PascalCasl
