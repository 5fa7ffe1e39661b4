import PascalCasl.Proofs.Comet.Routine

/-!
Units that are placed one after another, and a machine that calls the library.
-/

namespace PascalCasl.Comet

open Casl (Register)

/-- Code from `first` on and data from `base` on, behind which the literals lie. -/
def Placement.consecutive (first base : Nat) (segments : List Segment) : Placement :=
  let code (name : String) : Nat :=
    first + ((segments.takeWhile (·.name ≠ name)).map (·.code.length)).sum
  let data (name : String) : Word :=
    BitVec.ofNat 16 (base + ((segments.takeWhile (·.name ≠ name)).map (·.data.length)).sum)
  let literal (word : Word) : Word :=
    BitVec.ofNat 16 (base + (segments.map (·.data.length)).sum + (literals segments).idxOf word)
  let unit (name : String) : Word :=
    match (segments.find? (·.name = name)).map Segment.first with
    | some (.code number) => BitVec.ofNat 16 (code name + number)
    | some (.data number) => data name + BitVec.ofNat 16 number
    | _ => 0
  ⟨code, data, unit, literal⟩

def Placement.place (placement : Placement) (segments : List Segment) : List (Instr Word) :=
  segments.flatMap fun segment => segment.code.map (Instr.map (placement.address segment.name))

def callerPlacement : Placement := .consecutive 4 0x1000 library

/-- Calls of routines of the library, before its code. -/
def callerCode : List (Instr Word) :=
  ["MULT", "DIV", "WRTINT", "RDINT"].map (fun name => .call ⟨callerPlacement.unit name, none⟩) ++
    callerPlacement.place library

theorem caller_small : callerCode.length < 65536 := by decide +kernel

theorem caller_hosted : ∀ segment ∈ library,
    segment.code.map (Instr.map (callerPlacement.address segment.name)) <+:
      callerCode.drop (callerPlacement.code segment.name) := by
  decide +kernel

theorem caller_named : ∀ segment ∈ library,
    callerPlacement.unit segment.name =
      callerPlacement.address segment.name segment.first := by
  decide +kernel

theorem caller_cells : callerPlacement.cells library =
    (List.range 528).map fun number => BitVec.ofNat 16 (0x1000 + number) := by
  decide +kernel

theorem caller_apart : (callerPlacement.cells library).Nodup := by
  rw [caller_cells]
  refine List.nodup_range.map_on fun first member second memberToo same => ?_
  rw [List.mem_range] at member memberToo
  bv_omega

def callerHost : Host library :=
  ⟨callerCode, callerPlacement, caller_small, caller_hosted, caller_named, caller_apart⟩

/-- Memory with the constants of the library and other contents of cells. -/
def callerMemory (contents : List (Cell × Word)) (address : Word) : Word :=
  (((Host.constants ++ contents).find? fun content =>
    callerPlacement.cell content.1 = address).map Prod.snd).getD 0

/-- Two words in GR1 and GR2, and an empty stack. -/
def callerCore (left right : Word) (contents : List (Cell × Word)) : Core Terminal where
  register
    | .gr1 => left
    | .gr2 => right
    | _ => 0
  zero := false
  negative := false
  overflow := false
  memory := callerMemory contents
  channel := ⟨[], []⟩

theorem caller_ready (left right : Word) (contents : List (Cell × Word)) :
    callerHost.Ready (callerCore left right contents) := by
  have found : ∀ constant ∈ Host.constants, (Host.constants.find? fun content =>
      callerPlacement.cell content.1 = callerPlacement.cell constant.1).map Prod.snd =
        some constant.2 := by
    decide +kernel
  have held : ∀ constant ∈ Host.constants,
      callerMemory contents (callerPlacement.cell constant.1) = constant.2 := by
    intro constant member
    obtain ⟨content, first, same⟩ := Option.map_eq_some_iff.mp (found constant member)
    rw [callerMemory, List.find?_append, first, ← same]
    rfl
  simpa only [Host.Ready, callerCore, callerHost] using held

theorem caller_cells_low {address : Word} (member : address ∈ callerHost.cells) :
    0x1000 ≤ address ∧ address < 0x1210 := by
  rw [Host.cells, callerHost, caller_cells, List.mem_map] at member
  obtain ⟨number, inside, rfl⟩ := member
  rw [List.mem_range] at inside
  bv_omega

theorem caller_stack_high {address : Word} (stacked : Stacked 0 8 address) :
    0xFFF8 ≤ address := by
  obtain ⟨number, less, rfl⟩ := stacked
  rw [slot]
  bv_omega

theorem caller_room : callerHost.Room 0 8 := by
  refine ⟨by decide, fun address member stacked => ?_⟩
  have low := caller_cells_low member
  have high := caller_stack_high stacked
  bv_omega

end PascalCasl.Comet
