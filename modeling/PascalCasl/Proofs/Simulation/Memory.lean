import PascalCasl.Proofs.Simulation.Placement

/-!
The regions of memory: the cells of the variables, the texts, the buffer and
the words of the stack. Where everything fits, addresses in different regions
differ, and so do the addresses of different cells and of different words of
the stack.
-/

namespace PascalCasl

open Casl

namespace Machine

variable (machine : Machine)

def room : Nat := machine.top - machine.limit

def instructions : Code :=
  Listing.header ++ machine.listing.main ++ [line .ret] ++ machine.listing.procedures.flatten

def beforeBuffer : Code :=
  machine.instructions ++ [labelled .variables (.reserve machine.listing.cells)] ++
    Listing.textLines machine.listing.texts

theorem lines_eq : machine.lines =
    machine.beforeBuffer ++ [labelled .buffer (.reserve Listing.bufferCells), line .finish] := rfl

def cell (number : Nat) : Word :=
  machine.place machine.instructions + BitVec.ofNat 16 number

variable {machine}

theorem lists_instructions : machine.Lists [] machine.instructions := by
  rw [Lists, lines_eq, beforeBuffer]
  exact ⟨_, by simp only [List.append_assoc, List.nil_append]; rfl⟩

theorem lists_variables : machine.Lists machine.instructions
    [labelled .variables (.reserve machine.listing.cells)] := by
  rw [Lists, lines_eq, beforeBuffer]
  exact ⟨_, by simp only [List.append_assoc]; rfl⟩

theorem lists_buffer : machine.Lists machine.beforeBuffer
    [labelled .buffer (.reserve Listing.bufferCells)] := by
  rw [Lists, lines_eq]
  exact ⟨[line .finish], by simp⟩

theorem size_in_space (fits : machine.Fits) :
    machine.origin + codeSize machine.instructions + machine.listing.cells +
      codeSize (Listing.textLines machine.listing.texts) + 256 ≤ machine.limit := by
  have size : codeSize machine.lines = codeSize machine.instructions + machine.listing.cells +
      codeSize (Listing.textLines machine.listing.texts) + 256 := by
    rw [lines_eq, beforeBuffer]
    simp only [code_size_append, code_size_cons, code_size_nil]
    rfl
  have image := fits.image
  rw [imageSize] at image
  omega

theorem room_le (fits : machine.Fits) : machine.room + 256 ≤ 65536 := by
  have size := size_in_space fits
  have space := fits.space
  rw [room]
  omega

theorem slot_to_nat (fits : machine.Fits) {number : Nat} (first : 1 ≤ number) :
    (machine.slot number).toNat = machine.top - number := by
  have space := fits.space
  rw [slot, BitVec.toNat_ofNat, Nat.mod_eq_of_lt]
  omega

theorem slot_injective (fits : machine.Fits) {number other : Nat} (first : 1 ≤ number)
    (last : number ≤ machine.room) (otherFirst : 1 ≤ other) (otherLast : other ≤ machine.room)
    (same : machine.slot number = machine.slot other) : number = other := by
  have places := congrArg BitVec.toNat same
  rw [slot_to_nat fits first, slot_to_nat fits otherFirst] at places
  have stack := fits.stack
  rw [room] at last otherLast
  omega

theorem slot_is_stack (fits : machine.Fits) {number : Nat} (first : 1 ≤ number)
    (last : number ≤ machine.room) : machine.isStack (machine.slot number) = true := by
  have place := slot_to_nat fits first
  have stack := fits.stack
  rw [room] at last
  simp only [isStack, place, Bool.and_eq_true, decide_eq_true_eq]
  omega

theorem slot_succ {number : Nat} (last : number < machine.room) :
    machine.slot number - 1#16 = machine.slot (number + 1) := by
  rw [room] at last
  have split : machine.top - number = machine.top - (number + 1) + 1 := by omega
  rw [slot, slot, split, BitVec.ofNat_add]
  exact BitVec.add_sub_cancel _ _

theorem slot_pred {number : Nat} (last : number < machine.room) :
    machine.slot (number + 1) + 1#16 = machine.slot number := by
  rw [← slot_succ last, BitVec.sub_add_cancel]

theorem slot_add {number less : Nat} (last : number ≤ machine.room) (some : less ≤ number) :
    machine.slot number + BitVec.ofNat 16 less = machine.slot (number - less) := by
  rw [room] at last
  have total : machine.top - number + less = machine.top - (number - less) := by omega
  rw [slot, slot, ← BitVec.ofNat_add, total]

theorem depth_of_slot (fits : machine.Fits) {core : Core} {number : Nat}
    (last : number ≤ machine.room) (pointer : core.register .gr8 = machine.slot number) :
    machine.depth core = number := by
  have bound := room_le fits
  rw [room] at last bound
  have split : machine.top = machine.top - number + number := by omega
  rw [depth, pointer, slot]
  nth_rewrite 1 [split]
  rw [BitVec.ofNat_add, BitVec.add_comm, BitVec.add_sub_cancel, BitVec.toNat_ofNat]
  omega

theorem slot_of_depth (fits : machine.Fits) {core : Core}
    (last : machine.depth core ≤ machine.room) :
    core.register .gr8 = machine.slot (machine.depth core) := by
  have stack := fits.stack
  rw [room] at last
  have split : BitVec.ofNat 16 machine.top =
      BitVec.ofNat 16 (machine.top - machine.depth core) +
        BitVec.ofNat 16 (machine.depth core) := by
    rw [← BitVec.ofNat_add]
    congr 1
    omega
  have difference : BitVec.ofNat 16 (machine.depth core) =
      BitVec.ofNat 16 machine.top - core.register .gr8 := by
    rw [depth, BitVec.ofNat_toNat, BitVec.setWidth_eq]
  rw [slot]
  rw [difference] at split
  bv_omega

theorem cell_to_nat (fits : machine.Fits) {number : Nat} (known : number < machine.listing.cells) :
    (machine.cell number).toNat = machine.origin + codeSize machine.instructions + number := by
  have size := size_in_space fits
  have space := limit_in_space fits
  rw [cell, place, ← BitVec.ofNat_add, BitVec.toNat_ofNat, Nat.mod_eq_of_lt]
  omega

theorem cell_injective (fits : machine.Fits) {number other : Nat}
    (known : number < machine.listing.cells) (otherKnown : other < machine.listing.cells)
    (same : machine.cell number = machine.cell other) : number = other := by
  have places := congrArg BitVec.toNat same
  rw [cell_to_nat fits known, cell_to_nat fits otherKnown] at places
  omega

theorem within_iff (fits : machine.Fits) (distinct : (labels machine.lines).Nodup) {before : Code}
    {label : Label} {count : Nat}
    (lists : machine.Lists before [labelled label (.reserve count)]) (address : Word) :
    machine.within label count address = true ↔
      machine.origin + codeSize before ≤ address.toNat ∧
        address.toNat < machine.origin + codeSize before + count := by
  have found := address_at distinct lists rfl
  have below : machine.origin + codeSize before + count ≤ machine.limit :=
    line_below_limit fits lists
  have space := limit_in_space fits
  simp only [within, found, decide_eq_true_eq]
  rw [place, BitVec.toNat_sub, BitVec.toNat_ofNat]
  omega

section Labelled

variable (fits : machine.Fits) (distinct : (labels machine.lines).Nodup)

include fits distinct

theorem is_cell_iff (address : Word) :
    machine.isCell address = true ↔
      machine.origin + codeSize machine.instructions ≤ address.toNat ∧
        address.toNat < machine.origin + codeSize machine.instructions + machine.listing.cells :=
  within_iff fits distinct lists_variables address

theorem is_buffer_iff (address : Word) :
    machine.isBuffer address = true ↔
      machine.origin + codeSize machine.beforeBuffer ≤ address.toNat ∧
        address.toNat < machine.origin + codeSize machine.beforeBuffer + 256 :=
  within_iff fits distinct lists_buffer address

theorem cell_is_cell {number : Nat} (known : number < machine.listing.cells) :
    machine.isCell (machine.cell number) = true := by
  rw [is_cell_iff fits distinct, cell_to_nat fits known]
  omega

theorem stack_not_cell {address : Word} (inside : machine.isStack address = true) :
    machine.isCell address = false := by
  have size := size_in_space fits
  rw [← Bool.not_eq_true, is_cell_iff fits distinct]
  simp only [isStack, Bool.and_eq_true, decide_eq_true_eq] at inside
  omega

theorem cell_not_stack {number : Nat} (known : number < machine.listing.cells) :
    machine.isStack (machine.cell number) = false := by
  by_contra onStack
  have apart := stack_not_cell fits distinct (by simpa using onStack)
  rw [cell_is_cell fits distinct known] at apart
  cases apart

theorem line_is_image {before : Code} {line : Line} {address : Word}
    (lists : machine.Lists before [line])
    (different : line ≠ labelled .buffer (.reserve Listing.bufferCells))
    (low : machine.origin + codeSize before ≤ address.toNat)
    (high : address.toNat < machine.origin + codeSize before + line.op.size) :
    machine.isImage address = true := by
  have outside : machine.isBuffer address = false := by
    rw [← Bool.not_eq_true, is_buffer_iff fits distinct]
    rcases lists with ⟨after, split⟩
    rcases @lists_buffer machine with ⟨rest, buffer⟩
    have apart := lines_apart (split.symm.trans buffer) different
    have size : (labelled .buffer (.reserve Listing.bufferCells)).op.size = 256 := rfl
    omega
  have listed := line_in_listing lists
  have whole : codeSize machine.lines ≤ machine.imageSize := Nat.le_add_right _ _
  simp only [isImage, outside, Bool.not_false, Bool.and_true, Bool.and_eq_true, decide_eq_true_eq]
  omega

theorem cell_is_image {number : Nat} (known : number < machine.listing.cells) :
    machine.isImage (machine.cell number) = true := by
  have address := cell_to_nat fits known
  refine line_is_image fits distinct lists_variables (by simp [labelled]) (by omega) ?_
  rw [address]
  exact Nat.add_lt_add_left known _

theorem text_place {place number : Nat} {line : Line} {characters : String}
    (found : lineAt? machine.lines place = some line) (holds : line.op = .text characters)
    (known : number < characters.length) :
    machine.isStorage (BitVec.ofNat 16 (machine.origin + place + number)) = false ∧
      machine.isImage (BitVec.ofNat 16 (machine.origin + place + number)) = true := by
  rcases line_at_split found with ⟨before, after, split, rfl⟩
  have size : line.op.size = characters.length := by rw [holds, Op.size]
  have below := line_below_limit fits ⟨after, split⟩
  have address : (BitVec.ofNat 16 (machine.origin + codeSize before + number)).toNat =
      machine.origin + codeSize before + number := by
    have space := limit_in_space fits
    rw [BitVec.toNat_ofNat, Nat.mod_eq_of_lt]
    omega
  constructor
  · rw [isStorage, Bool.or_eq_false_iff]
    constructor
    · rw [← Bool.not_eq_true, is_cell_iff fits distinct, address]
      rcases @lists_variables machine with ⟨rest, cells⟩
      -- a text is another line than the one that reserves the cells
      have apart := lines_apart (split.symm.trans cells) (by rintro rfl; cases holds)
      have count : (labelled .variables (.reserve machine.listing.cells)).op.size =
          machine.listing.cells := rfl
      omega
    · simp only [isStack, address, Bool.and_eq_false_iff, decide_eq_false_iff_not]
      omega
  · refine line_is_image fits distinct ⟨after, split⟩ (by rintro rfl; cases holds) ?_ ?_
    · omega
    · omega

theorem loaded_of_same {memory later : Word → Word} (loaded : machine.Loaded memory)
    (same : ∀ address, machine.isStorage address = false → machine.isImage address = true →
      later address = memory address) :
    machine.Loaded later := by
  intro place line characters found holds number character read
  have known : number < characters.length := by
    rw [← String.length_toList]
    exact (List.getElem?_eq_some_iff.mp read).1
  have apart := text_place fits distinct found holds known
  rw [same _ apart.1 apart.2]
  exact loaded place line characters found holds number character read

end Labelled

end Machine
end PascalCasl
