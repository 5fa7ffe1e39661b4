import PascalCasl.Compile
import PascalCasl.Proofs.Code.Agreement
import PascalCasl.Proofs.Code.Blocks

/-!
Every accepted program has code. The tables of the checker and of the storage
are followed through the declarations of the program: in each procedure and in
the main block they agree, so generation cannot fail there, and what it pushes
at a node fits the type of the node.
-/

namespace PascalCasl

namespace Layout

theorem allocate_vars_types (table : Table Cells) (next : Nat) (vars : List VarDecl) :
    cellTypes (allocateVars table next vars).1 =
      (vars.map VarDecl.entry).reverse ++ cellTypes table := by
  induction vars generalizing table next with
  | nil => rfl
  | cons first rest ih =>
      have entry : (first.name, (Cells.ofSpec next first.type).type) = first.entry := by
        rcases first with ⟨_, _, _ | _, _⟩ <;> rfl
      rw [allocateVars, ih]
      simp [cellTypes, entry]

theorem allocate_params_types (table : Table Cells) (next : Nat) (params : List Param) :
    cellTypes (allocateParams table next params).1 =
      (params.map Param.entry).reverse ++ cellTypes table := by
  induction params generalizing table next with
  | nil => rfl
  | cons first rest ih =>
      rw [allocateParams, ih]
      simp [cellTypes, Param.entry, Cells.type]

theorem frame_types (ordinal base : Nat) (procedure : Procedure) :
    cellTypes (Frame.ofProcedure ordinal base procedure).locals = localTable procedure := by
  rw [Frame.ofProcedure, allocate_vars_types, allocate_params_types, localTable,
    Procedure.locals, List.reverse_append]
  simp [cellTypes]

theorem global_types (program : Program) :
    cellTypes (ofProgram program).globals = globalTable program.vars := by
  rw [ofProgram, allocate_vars_types, globalTable]
  simp [cellTypes]

end Layout

theorem procedure_found {env : Env} {name : String} (known : name ∈ env.frames.map Frame.name) :
    ∃ found, env.procedure? name = some found := by
  rcases List.mem_map.mp known with ⟨frame, member, same⟩
  have found : (env.frames.find? fun frame => frame.name = name).isSome := by
    rw [List.find?_isSome]
    exact ⟨frame, member, by simp [same]⟩
  exact Option.isSome_iff_exists.mp found

namespace Block

variable (program : Program)

/-- The tables that the checker has built when it comes to the statements of a
block. -/
def tables : Block → Except Fault Scope
  | .procedure earlier own => do
      let globals ← declareVars [] [] program.vars
      let known ← checkProcedures globals [] earlier
      let params ← declareParams [own.name] [] own.params
      let locals ← declareVars [own.name] params own.vars
      .ok ⟨globals, locals, (own.name, own.params.map Param.type) :: known⟩
  | .main => do
      let globals ← declareVars [] [] program.vars
      let known ← checkProcedures globals [] program.procedures
      .ok ⟨globals, [], known⟩

def types : Block → List (String × Ty)
  | .procedure _ own => own.locals
  | .main => []

def context (block : Block) : Context :=
  ⟨program.vars.map VarDecl.entry, block.types, (block.known program).map Procedure.entry⟩

def scope (block : Block) : Scope :=
  ⟨globalTable program.vars, block.types.reverse, procedureTable (block.known program)⟩

end Block

theorem earlier_checked {program : Program} (wellTyped : program.WellTyped)
    {earlier later : List Procedure} (split : program.procedures = earlier ++ later) :
    checkProcedures (globalTable program.vars) [] earlier = .ok (procedureTable earlier) := by
  have names := wellTyped.procedureNames
  rw [split, List.map_append] at names
  refine (check_all_procedures_exact wellTyped.distinct).mpr
    ⟨(List.nodup_append.mp names).1, fun procedure member => ?_,
      fun before procedure after same => ?_, rfl⟩
  · exact wellTyped.apart procedure (split ▸ List.mem_append_left later member)
  · exact wellTyped.procedures before procedure (after ++ later) (by simp [split, same])

theorem block_tables {program : Program} (wellTyped : program.WellTyped) {block : Block}
    (member : block ∈ program.blocks) : block.tables program = .ok (block.scope program) := by
  have globals := declare_globals_ok.mpr ⟨wellTyped.bounds, wellTyped.distinct, rfl⟩
  rcases mem_blocks.mp member with ⟨earlier, own, later, split, rfl⟩ | rfl
  · have typed := wellTyped.procedures earlier own later split
    have declared := declare_locals_ok.mpr ⟨typed.bounds, typed.distinct, typed.apart, rfl⟩
    rcases except_bind_ok.mp declared with ⟨params, paramsDeclared, localsDeclared⟩
    have extended : (own.name, own.params.map Param.type) :: procedureTable earlier =
        procedureTable (earlier ++ [own]) := by
      simp [procedureTable, Procedure.entry]
    rw [Block.tables, globals, except_ok_bind, earlier_checked wellTyped split, except_ok_bind,
      paramsDeclared, except_ok_bind, localsDeclared, except_ok_bind, extended]
    rfl
  · rw [Block.tables, globals, except_ok_bind,
      earlier_checked wellTyped (List.append_nil _).symm, except_ok_bind]
    rfl

/-- The tables of a block agree with each other and with a context in which the
block is well-typed. -/
structure Agreement (scope : Scope) (env : Env) (context : Context) (body : List Stmt) : Prop where
  stores : env.Stores scope
  means : scope.Means context
  typed : ∀ statement ∈ body, context.WellTyped statement

theorem block_stores {program : Program} (wellTyped : program.WellTyped) {block : Block}
    (member : block ∈ program.blocks) : (block.env program).Stores (block.scope program) where
  globals := Layout.global_types program
  locals := by
    cases block with
    | main => rfl
    | procedure earlier own => exact Layout.frame_types earlier.length _ own
  frames := by
    intro name formals found
    apply procedure_found
    have distinct := (known_first member).sublist.map Procedure.name |>.nodup
      wellTyped.procedureNames
    have held := (find_reversed (procedure_names _ ▸ distinct) name formals).mp found
    rw [Block.env, Layout.firstFrames, Layout.allocate_frames_names, ← procedure_names]
    exact List.mem_map_of_mem held

theorem block_means {program : Program} (wellTyped : program.WellTyped) {block : Block}
    (member : block ∈ program.blocks) :
    (block.scope program).Means (block.context program) := by
  have distinct := (known_first member).sublist.map Procedure.name |>.nodup
    wellTyped.procedureNames
  refine tables_mean _ block.types _ (var_names _ ▸ wellTyped.distinct) ?_
    (procedure_names _ ▸ distinct)
  rcases mem_blocks.mp member with ⟨earlier, own, later, split, rfl⟩ | rfl
  · exact (wellTyped.procedures earlier own later split).distinct
  · exact List.nodup_nil

theorem block_typed {program : Program} (wellTyped : program.WellTyped) {block : Block}
    (member : block ∈ program.blocks) :
    ∀ statement ∈ block.statements program, (block.context program).WellTyped statement := by
  rcases mem_blocks.mp member with ⟨earlier, own, later, split, rfl⟩ | rfl
  · exact (wellTyped.procedures earlier own later split).body
  · exact wellTyped.body

theorem block_agreement {program : Program} (wellTyped : program.WellTyped) {block : Block}
    (member : block ∈ program.blocks) :
    Agreement (block.scope program) (block.env program) (block.context program)
      (block.statements program) :=
  ⟨block_stores wellTyped member, block_means wellTyped member, block_typed wellTyped member⟩

theorem body_yields {scope : Scope} {env : Env} {context : Context} {body : List Stmt}
    (agreement : Agreement scope env context body) : (env.stmts body).Yields fun _ => True :=
  stmts_yield fun statement member =>
    stmt_yields agreement.stores agreement.means (agreement.typed statement member)

theorem blocks_yield {program : Program} {blocks : List Block}
    (each : ∀ block ∈ blocks,
      ((block.env program).stmts (block.statements program)).Yields fun _ => True) :
    (codeBlocks program blocks).Yields fun _ => True := by
  induction blocks with
  | nil => exact Emit.yields_pure trivial
  | cons first rest ih =>
      have coded : (first.code program).Yields fun _ => True :=
        Emit.yields_bind (each first List.mem_cons_self) fun _ _ => Emit.yields_pure trivial
      refine Emit.yields_bind coded fun _ _ => ?_
      exact Emit.yields_bind (ih fun block member => each block (List.mem_cons_of_mem _ member))
        fun _ _ => Emit.yields_pure trivial

theorem program_yields {program : Program} (wellTyped : program.WellTyped) :
    (programCode program).Yields fun _ => True := by
  rw [program_code_eq]
  have coded := blocks_yield fun block member => body_yields (block_agreement wellTyped member)
  exact Emit.yields_bind coded fun _ _ => Emit.yields_pure trivial

theorem listing_exists {program : Program} (wellTyped : program.WellTyped) :
    ∃ listing, Listing.ofProgram program = .ok listing := by
  rcases program_yields wellTyped .empty with ⟨⟨procedures, main⟩, supply, coded, _⟩
  rw [Listing.ofProgram, coded]
  exact ⟨_, rfl⟩

theorem assembly_exists {program : Program} (wellTyped : program.WellTyped) :
    ∃ text, program.assembly = .ok text := by
  rcases listing_exists wellTyped with ⟨listing, generated⟩
  rw [Program.assembly, generated]
  exact ⟨_, rfl⟩

theorem accept_inv {tokens : List Token} {program : Program}
    (accepted : Program.accept tokens = .ok program) :
    Program.ofTokens tokens = .ok program ∧ program.check = .ok () := by
  obtain ⟨_, parsed, accepted⟩ := except_bind_ok.mp accepted
  obtain ⟨_, checked, same⟩ := except_bind_ok.mp accepted
  cases same
  exact ⟨parsed, checked⟩

theorem compile_inv {source assembly : String} (compiled : compile source = .ok assembly) :
    ∃ tokens program listing, Token.scan source = .ok tokens ∧
      Program.accept tokens = .ok program ∧ Listing.ofProgram program = .ok listing ∧
      assembly = Library.append (Casl.Code.render listing.lines) Library.bundled := by
  obtain ⟨tokens, scanned, compiled⟩ := except_bind_ok.mp compiled
  obtain ⟨program, accepted, compiled⟩ := except_bind_ok.mp compiled
  obtain ⟨text, generated, same⟩ := except_bind_ok.mp compiled
  obtain ⟨listing, listed, rendered⟩ := except_map_ok.mp generated
  cases same
  cases rendered
  exact ⟨tokens, program, listing, scanned, accepted, listed, rfl⟩

/-- What is accepted is compiled. -/
theorem compile_exists {source : String} {tokens : List Token} {program : Program}
    (scanned : Token.scan source = .ok tokens) (accepted : Program.accept tokens = .ok program) :
    ∃ assembly, compile source = .ok assembly := by
  obtain ⟨text, generated⟩ := assembly_exists (check_sound (accept_inv accepted).2)
  rw [compile, scanned, except_ok_bind, compileWith, accepted, except_ok_bind, generated]
  exact ⟨_, rfl⟩

/-- An accepted program is coded block by block. In each block the checker gives
every expression and every target a type, and code is generated that pushes what
fits this type. -/
theorem generation_follows_types (program : Program) (accepted : program.check = .ok ()) :
    (∃ text, program.assembly = .ok text) ∧
      programCode program = (do
        let codes ← codeBlocks program program.blocks
        pure (codes.dropLast, codes.getLastD [])) ∧
      program.blocks.map (Block.statements program) = program.bodies ∧
      ∀ block ∈ program.blocks, ∃ scope, block.tables program = .ok scope ∧
        scope.checkStmts (block.statements program) = .ok () ∧
        (∀ value ∈ valuesOf (block.statements program), ∀ node ∈ value.nodes,
          (∃ type, scope.Assigns value node type) ∧
            ∀ type, scope.Assigns value node type →
              ((block.env program).expr node).Yields fun coded => coded.1.Fits type) ∧
        ∀ target ∈ targetsOf (block.statements program),
          ∃ type, scope.targetType target = .ok type ∧
            ((block.env program).target target).Yields fun coded => coded.1.Fits type := by
  have wellTyped := check_sound accepted
  refine ⟨assembly_exists wellTyped, program_code_eq program, block_bodies program, ?_⟩
  intro block member
  rcases block_agreement wellTyped member with ⟨stores, means, typed⟩
  refine ⟨_, block_tables wellTyped member, (check_stmts_exact means _).mpr typed, ?_, ?_⟩
  · intro value member node inside
    rw [values_of_eq, List.mem_flatMap] at member
    rcases member with ⟨statement, inBody, inStatement⟩
    rcases values_typed (typed statement inBody) value inStatement with ⟨type, valueTyped⟩
    exact ⟨node_assigned (infer_complete means valueTyped) node inside,
      fun _ assigned => assigned_yields stores assigned⟩
  · intro target member
    rw [targets_of_eq, List.mem_flatMap] at member
    rcases member with ⟨statement, inBody, inStatement⟩
    rcases targets_typed (typed statement inBody) target inStatement with ⟨type, targetTyped⟩
    exact ⟨type, (target_type_exact means).mpr targetTyped,
      typed_target_yields stores means targetTyped⟩

/-- A procedure that calls itself on an element of a global array, and a
main block that calls it. -/
def countdown : Program where
  name := "sample"
  line := 1
  vars := [⟨"numbers", 1, .array ⟨true, 1⟩ ⟨false, 3⟩ .integer, 1⟩]
  procedures := [{
    name := "down"
    line := 2
    params := [⟨"left", 2, .integer⟩]
    vars := []
    bodyLine := 3
    body := [
      .assign 4 (.indexed 4 "numbers" (.simple 4 "left")) (.unary 4 .minus (.number 4 32768)),
      .ifThen 5 (.binary 5 .greater (.simple 5 "left") (.number 5 0)) 5
        [.call 5 "down" [.binary 5 .sub (.simple 5 "left") (.number 5 1)]]] }]
  bodyLine := 6
  body := [.call 7 "down" [.number 7 3],
    .write 8 [.indexed 8 "numbers" (.number 8 2), .string 8 "ok"]]

theorem countdown_generation :
    countdown.check = .ok () ∧ (∃ text, countdown.assembly = .ok text) ∧
      Block.main ∈ countdown.blocks ∧
      ∃ scope, Block.tables countdown .main = .ok scope ∧
        ∀ type, scope.Assigns (.string 8 "ok") (.string 8 "ok") type →
          ((Block.env countdown .main).expr (.string 8 "ok")).Yields fun coded =>
            coded.1.Fits type := by
  have accepted : countdown.check = .ok () := by decide
  have member : Block.main ∈ countdown.blocks := mem_blocks.mpr (.inr rfl)
  obtain ⟨text, _, _, followed⟩ := generation_follows_types countdown accepted
  obtain ⟨scope, built, _, values, _⟩ := followed .main member
  exact ⟨accepted, text, member, scope, built,
    (values (.string 8 "ok") (by decide) (.string 8 "ok") (by decide)).2⟩

end PascalCasl
