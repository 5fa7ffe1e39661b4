import PascalCasl.Proofs.Code.Procedures
import PascalCasl.Proofs.Simulation.Call
import PascalCasl.Proofs.Simulation.Library

/-!
Whole programs. Every procedure of an accepted program is installed in its
listing, so statements are simulated with any fuel, in procedures and in the
main block. A machine that starts at the entry of the listing then reads and
writes what the program does and comes to the end of the main code.
-/

namespace PascalCasl

open Casl Source

/-- Where the local cells of a block begin and end. The main block has none. -/
def Block.span (program : Program) : Block → Nat × Nat
  | .procedure earlier own =>
      ((frameAfter program earlier own).base, (frameAfter program earlier own).next)
  | .main => ((Layout.ofProgram program).cells, (Layout.ofProgram program).cells)

theorem callee_span {program : Program} {block : Block} {earlier later : List Procedure}
    {procedure : Procedure} (known : block.known program = earlier ++ procedure :: later) :
    (block.current = some earlier.length → block.span program =
      ((frameAfter program earlier procedure).base, (frameAfter program earlier procedure).next)) ∧
    (block.current ≠ some earlier.length →
      (frameAfter program earlier procedure).next ≤ (block.span program).1) := by
  cases block with
  | main =>
      have below := @Layout.frame_le program earlier procedure later
      rw [← known] at below
      exact ⟨fun current => (nomatch current), fun _ => below⟩
  | procedure before own =>
      constructor
      · intro current
        rcases List.append_inj known (Option.some.inj current) with ⟨rfl, last⟩
        cases last
        rfl
      · intro current
        -- Another procedure is not the last one known, so the caller comes after it.
        rcases List.eq_nil_or_concat later with rfl | ⟨between, last, rfl⟩
        · cases List.append_inj_left' known rfl
          exact absurd rfl current
        · rw [List.concat_eq_append, ← List.cons_append, ← List.append_assoc] at known
          have below := @Layout.frame_le program earlier procedure between
          rw [← List.append_inj_left' known rfl] at below
          exact below

namespace Machine

variable {machine : Machine} {program : Program} {console : Console} {initial : State}

/-- The header makes the library ready, and the main block begins with the
globals of the source in their cells. -/
theorem header_runs (wellTyped : program.WellTyped) (setup : machine.Setup console initial)
    (starts : machine.Starts initial) (safe : machine.StackFits initial) :
    ∃ core, machine.At initial (Block.env program .main) (Source.start program) Listing.header core
      0 := by
  have lists : machine.Lists [] ([labelled .program (.start .entry)] ++
      ([labelled .entry (.loadAddress .gr6 (direct 0))] ++
        [line (.loadAddress .gr7 (symbol .buffer))])) :=
    lists_left (lists_left (lists_left lists_instructions))
  have entry := address_at setup.distinct (lists_left (lists_right lists)) rfl
  have begins : initial =
      ⟨machine.place [labelled .program (.start .entry)], initial.core⟩ := by
    have address := Option.some.inj (entry.symm.trans starts.entry)
    exact congrArg (State.mk · initial.core) address.symm
  -- These two lines alone change the registers of the library, before it is ready.
  let cleared := initial.core.set .gr6 0
  let core := cleared.set .gr7 (machine.place machine.beforeBuffer)
  have first := runs_step (step_effect setup.fits (lists_left (lists_right lists))
    (show machine.effect initial.core (.loadAddress .gr6 (direct 0)) = some cleared from rfl))
  have buffer := address_at setup.distinct lists_buffer rfl
  have loaded : machine.effect cleared (.loadAddress .gr7 (symbol .buffer)) = some core := by
    simp [effect, resolve, symbol, buffer, core]
  have second := runs_step (step_effect setup.fits (lists_right (lists_right lists)) loaded)
  have reached : machine.Reaches initial ⟨machine.place Listing.header, core⟩ := by
    rw [begins]
    exact runs_trans first second
  have safe : machine.StackFits ⟨machine.place Listing.header, core⟩ := fun _ later =>
    safe _ (Relation.ReflTransGen.trans reached later)
  have ready : machine.library.Ready core :=
    setup.meets.begins core starts.trace rfl buffer fun _ _ => rfl
  refine ⟨core, ⟨reached, ready, starts.texts, safe⟩, starts.stack, Nat.zero_le _,
    ⟨start_holds wellTyped, ?_⟩, starts.trace⟩
  constructor
  · intro _ _ found
    cases found
  · exact fun _ _ => rfl

section Accepted

variable (wellTyped : program.WellTyped)
  (generated : Listing.ofProgram program = .ok machine.listing)

include wellTyped generated

theorem block_hosts {block : Block} (member : block ∈ program.blocks) :
    machine.Hosts (block.scope program) (block.env program) (block.context program)
      (Layout.globalEnd program) (block.span program).1 (block.span program).2 := by
  rcases listing_inv generated with ⟨_, _, _, _, cells, _⟩
  have stores := block_stores wellTyped member
  have means := block_means wellTyped member
  rcases mem_blocks.mp member with ⟨earlier, own, later, split, rfl⟩ | rfl
  · have low : Layout.globalEnd program ≤ (Layout.firstFrames program earlier).2 :=
      Layout.allocate_frames_le _ _ earlier
    have high := @Layout.frame_le program earlier own later
    rw [← split] at high
    exact ⟨⟨Layout.global_packed program, Layout.frame_packed _ _ own, low, Nat.le_add_right _ _⟩,
      cells ▸ high, stores, means⟩
  · have low : Layout.globalEnd program ≤ (Layout.ofProgram program).cells :=
      Layout.allocate_frames_le _ _ program.procedures
    exact ⟨⟨Layout.global_packed program, packed_nil _ _, low, Nat.le_refl _⟩,
      Nat.le_of_eq cells.symm, stores, means⟩

theorem procedure_installed {earlier later : List Procedure} {procedure : Procedure}
    (split : program.procedures = earlier ++ procedure :: later) :
    ∃ entry, machine.Installed (Layout.globalEnd program) procedure
      (frameAfter program earlier procedure) (Block.scope program (.procedure earlier procedure))
      (Block.env program (.procedure earlier procedure))
      (Block.context program (.procedure earlier procedure)) entry := by
  have typed := wellTyped.procedures earlier procedure later split
  rcases procedure_coded generated split with
    ⟨first, body, others, supply, ending, listed, bodyCoded, entered, _⟩
  have whole : machine.Lists [] (Listing.header ++ machine.listing.main ++ [line .ret] ++
    machine.listing.procedures.flatten) := lists_instructions
  have codeLists := lists_right whole
  rw [listed, List.flatten_append, List.flatten_cons] at codeLists
  exact ⟨Listing.header ++ machine.listing.main ++ [line .ret] ++ first.flatten, {
    hosts := block_hosts wellTyped generated (mem_blocks.mpr (.inl ⟨_, _, _, split, rfl⟩))
    framed := rfl
    locals := rfl
    valid := typed.bounds
    distinct := typed.distinct
    typed := typed.body
    coded := ⟨body, supply, ending, bodyCoded, entered, lists_left (lists_right codeLists)⟩ }⟩

theorem callee_exists {block : Block} (member : block ∈ program.blocks) {fuel : Nat}
    (simulates : ∀ other ∈ program.blocks, ∀ statement, machine.Simulates initial program console
      (other.env program) (other.context program) (other.span program).2 fuel statement)
    (name : String) (frame : Frame)
    (found : (block.env program).procedure? name = some frame) :
    ∃ procedure calleeScope callee calleeContext entry,
      machine.Callee initial program console (block.env program) (block.context program)
        (Layout.globalEnd program) (block.span program).1 (block.span program).2 fuel name frame
        procedure calleeScope callee calleeContext entry := by
  -- a block knows the procedures up to its own, and these are the first of the program
  obtain ⟨rest, split⟩ := known_first member
  rcases procedure_of_frame rfl found with ⟨earlier, procedure, later, known, rfl, rfl⟩
  have whole : program.procedures = earlier ++ procedure :: (later ++ rest) := by
    rw [← split, known, List.append_assoc, List.cons_append]
  have listed : procedure ∈ program.procedures := by rw [whole]; simp
  rcases procedure_installed wellTyped generated whole with ⟨entry, installed⟩
  refine ⟨procedure, _, _, _, entry, {
    found := procedure_by_name wellTyped listed
    declared := ?_
    installed := installed
    globals := rfl
    simulates := simulates (.procedure earlier procedure)
      (mem_blocks.mpr (.inl ⟨_, _, _, whole, rfl⟩))
    own := fun current => ?_
    earlier := (callee_span known).2 }⟩
  · -- the name is declared once, so the signature found is the one of this procedure
    intro formals declared
    rcases List.mem_map.mp declared with ⟨other, otherKnown, same⟩
    have otherListed : other ∈ program.procedures := by
      rw [← split]
      exact List.mem_append_left rest otherKnown
    cases List.inj_on_of_nodup_map wellTyped.procedureNames otherListed listed
      (congrArg Prod.fst same)
    exact (congrArg Prod.snd same).symm
  · rw [(callee_span known).1 current]
    exact ⟨rfl, rfl⟩

variable (setup : machine.Setup console initial)

include setup

/-- With any fuel, the statements of every block are simulated. A call needs only
what the procedures do with less fuel. -/
theorem blocks_simulate (fuel : Nat) {block : Block} (member : block ∈ program.blocks)
    (statement : Stmt) :
    machine.Simulates initial program console (block.env program) (block.context program)
      (block.span program).2 fuel statement := by
  induction fuel generalizing block statement with
  | zero =>
      intro _ _ _ _ _ _ _ _ _ _ _ done
      cases done
  | succ fuel ih =>
      have hosts := block_hosts wellTyped generated member
      apply stmt_step setup hosts (ih member)
      apply call_simulates setup hosts
      exact callee_exists wellTyped generated member fun other listed => ih listed

theorem main_runs {fuel : Nat} {final : Source.State} {core : Core}
    (ran : Source.run program console fuel = some final)
    (here : machine.At initial (Block.env program .main) (Source.start program) Listing.header core
      0) :
    ∃ last, machine.Reaches ⟨machine.place Listing.header, core⟩ last ∧ machine.Ends last ∧
      last.core.channel = final.trace := by
  rcases listing_inv generated with ⟨middle, last, _, mainCoded, _, texts⟩
  have mainLists : machine.Lists [] (Listing.header ++ machine.listing.main ++ [line .ret]) :=
    lists_left lists_instructions
  rw [List.append_assoc] at mainLists
  have lists := lists_right mainLists
  have entered : last.texts <+: machine.listing.texts := texts ▸ List.prefix_rfl
  have simulates := blocks_simulate wellTyped generated setup fuel (mem_blocks.mpr (.inr rfl))
  rcases stmts_perform simulates wellTyped.body mainCoded entered ran here (lists_left lists) with
    ⟨result, reached, arrived, _⟩
  exact ⟨⟨_, result⟩, reached, ⟨rfl, fetch_at setup.fits (lists_right lists) Nat.zero_lt_one,
    arrived.pointer⟩, arrived.trace⟩

end Accepted

end Machine

/-- Compiler correctness. Whatever an accepted program reads and writes when it
runs to its end, its listing reads and writes on every machine that it fits and
whose routines meet their contract, and the machine comes to the return that
ends the main code. -/
theorem listing_performs_program (program : Program) (accepted : program.check = .ok ())
    (console : Console) (fuel : Nat) (final : Source.State)
    (ran : Source.run program console fuel = some final) :
    ∃ listing, Listing.ofProgram program = .ok listing ∧
      ∀ (machine : Machine) (start : Machine.State), machine.listing = listing → machine.Fits →
        Library.Meets machine console start → machine.Starts start → machine.StackFits start →
        ∃ last, machine.Reaches start last ∧ machine.Ends last ∧
          last.core.channel = final.trace := by
  have wellTyped := check_sound accepted
  rcases listing_exists wellTyped with ⟨listing, generated⟩
  refine ⟨listing, generated, ?_⟩
  rintro machine start rfl fits meets starts safe
  have setup : machine.Setup console start :=
    ⟨fits, listing_labels_distinct generated, meets⟩
  rcases Machine.header_runs wellTyped setup starts safe with ⟨core, here⟩
  rcases Machine.main_runs wellTyped generated setup ran here with ⟨last, reached, ends, same⟩
  exact ⟨last, Relation.ReflTransGen.trans here.steady.reached reached, ends, same⟩

/-- Reads a number and writes its factorial, found by a procedure that calls
itself. -/
def factorial : Program where
  name := "factorial"
  line := 1
  vars := [⟨"number", 1, .standard .integer, 1⟩, ⟨"result", 1, .standard .integer, 1⟩]
  procedures := [{
    name := "multiply"
    line := 2
    params := [⟨"left", 2, .integer⟩]
    vars := []
    bodyLine := 3
    body := [
      .ifElse 4 (.binary 4 .lessEqual (.simple 4 "left") (.number 4 1)) 4
        [.assign 4 (.simple 4 "result") (.number 4 1)] 5
        [.call 5 "multiply" [.binary 5 .sub (.simple 5 "left") (.number 5 1)],
          .assign 6 (.simple 6 "result")
            (.binary 6 .mul (.simple 6 "result") (.simple 6 "left"))]] }]
  bodyLine := 7
  body := [.read 8 [.simple 8 "number"], .call 9 "multiply" [.simple 9 "number"],
    .write 10 [.string 10 "n!=", .simple 10 "result"]]

def threeConsole : Console := ⟨fun _ => 3, fun _ => 0, fun _ _ _ => 0⟩

def factorialListing : Listing :=
  match Listing.ofProgram factorial with
  | .ok listing => listing
  | .error _ => ⟨[], [], 0, []⟩

def factorialMachine : Machine := ⟨factorialListing, 16, 1000, 1100, .plain threeConsole⟩

theorem factorial_performed :
    factorial.check = .ok () ∧
      ∃ last, factorialMachine.Reaches (factorialMachine.loaded 16#16) last ∧
        factorialMachine.Ends last ∧
        last.core.channel = [.readInteger 3, .readLine, .writeText [110, 33, 61], .writeInteger 6,
          .writeLine] := by
  have accepted : factorial.check = .ok () := by decide
  have traced : (Source.run factorial threeConsole 10).map Source.State.trace =
      some [.readInteger 3, .readLine, .writeText [110, 33, 61], .writeInteger 6,
        .writeLine] := by decide +kernel
  rcases Option.map_eq_some_iff.mp traced with ⟨final, ran, same⟩
  rcases listing_performs_program factorial accepted threeConsole 10 final ran with
    ⟨listing, generated, performs⟩
  have known : factorialMachine.listing = listing := by
    rw [factorialMachine, factorialListing, generated]
  have fits : factorialMachine.Fits := by constructor <;> decide +kernel
  have meets (start : Machine.State) : Library.Meets factorialMachine threeConsole start :=
    Machine.plain_meets fits (listing_labels_distinct (known ▸ generated)) rfl
  have begins : factorialMachine.address? .entry = some 16#16 := by decide +kernel
  have starts := Machine.loaded_starts fits begins
  have stops : factorialMachine.stopsWithin 200 (factorialMachine.loaded 16#16) = true := by
    decide +kernel
  rcases performs _ _ known fits (meets _) starts (Machine.stack_fits_of_stops stops) with
    ⟨last, reached, ends, trace⟩
  exact ⟨accepted, last, reached, ends, trace.trans same⟩

end PascalCasl
