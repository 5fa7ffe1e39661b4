import Mathlib.Logic.Relation
import PascalCasl.Code.Listing
import PascalCasl.Proofs.Comet.Core

/-!
A CASL II machine that runs a listing. The lines lie one after another from the
origin on, literals behind them. Code is not read from memory; instead, a store
outside the variables and the stack is refused, so a run does not depend on how
instructions are encoded. GR8 points to the word that was pushed last, and the
stack grows downward from `top`; a return from the empty stack ends the run.

A call of a support routine is one step. What a routine does is not fixed here;
`Library.Meets` says what is expected of it.
-/

namespace PascalCasl

open Casl

namespace Casl

def Source.words : Source → Nat
  | .register _ => 1
  | .memory _ => 2
  | .literal _ => 2

/-- The number of words a line takes. -/
def Op.size : Op → Nat
  | .load _ source => source.words
  | .store _ _ => 2
  | .loadAddress _ _ => 2
  | .compute _ _ source => source.words
  | .compareSigned _ source => source.words
  | .compareUnsigned _ source => source.words
  | .jump _ _ => 2
  | .push _ => 2
  | .pop _ => 1
  | .call _ => 2
  | .ret => 1
  | .nop => 1
  | .start _ => 0
  | .reserve cells => cells
  | .text characters => characters.length
  | .finish => 0

def Source.literal? : Source → Option Literal
  | .literal value => some value
  | _ => none

def Op.literal? : Op → Option Literal
  | .load _ source => source.literal?
  | .compute _ _ source => source.literal?
  | .compareSigned _ source => source.literal?
  | .compareUnsigned _ source => source.literal?
  | _ => none

def Literal.word : Literal → Word
  | .number value => BitVec.ofInt 16 value
  | .truth value => if value then BitVec.allOnes 16 else 0
  | .character value => BitVec.ofNat 16 value.toNat

end Casl

def codeSize : Code → Nat
  | [] => 0
  | first :: rest => first.op.size + codeSize rest

/-- One word for each literal of the lines. -/
def literals (code : Code) : List Literal := (code.filterMap fun line => line.op.literal?).eraseDups

def labels (code : Code) : List Label := code.filterMap Line.label?

/-- The line that starts at a place, counted in words. -/
def lineAt? : Code → Nat → Option Line
  | [], _ => none
  | first :: rest, place =>
      if place < first.op.size then if place = 0 then some first else none
      else lineAt? rest (place - first.op.size)

/-- The place of a label, counted in words. -/
def labelPlace? : Code → Label → Option Nat
  | [], _ => none
  | first :: rest, label =>
      if first.label? = some label then some 0
      else (labelPlace? rest label).map (first.op.size + ·)

/-- What the machine holds; its channel is the trace of what was read and written. -/
abbrev Machine.Core := Comet.Core (List Event)

structure Machine.State where
  pc : Word
  core : Machine.Core

/-- The support routines: what a call makes of the machine, and when they can
be called. -/
structure Library where
  run : Routine → Machine.Core → Machine.Core
  Ready : Machine.Core → Prop

/-- A listing in memory. The stack has the words from `limit` up to `top`. -/
structure Machine where
  listing : Listing
  origin : Nat
  limit : Nat
  top : Nat
  library : Library

namespace Machine

variable (machine : Machine)

def lines : Code := machine.listing.lines

def imageSize : Nat := codeSize machine.lines + (literals machine.lines).length

/-- Code, variables, texts, literals and stack are apart in 16-bit addresses. -/
structure Fits : Prop where
  image : machine.origin + machine.imageSize ≤ machine.limit
  stack : machine.limit ≤ machine.top
  space : machine.top ≤ 65536

def fetch (pc : Word) : Option Op :=
  if machine.origin ≤ pc.toNat then
    (lineAt? machine.lines (pc.toNat - machine.origin)).map Line.op
  else none

def address? (label : Label) : Option Word :=
  (labelPlace? machine.lines label).map fun place => BitVec.ofNat 16 (machine.origin + place)

def within (label : Label) (count : Nat) (address : Word) : Bool :=
  match machine.address? label with
  | some base => (address - base).toNat < count
  | none => false

def isCell (address : Word) : Bool := machine.within .variables machine.listing.cells address

def isBuffer (address : Word) : Bool := machine.within .buffer Listing.bufferCells address

def isStack (address : Word) : Bool :=
  machine.limit ≤ address.toNat && address.toNat < machine.top

/-- The memory that the program may change. -/
def isStorage (address : Word) : Bool := machine.isCell address || machine.isStack address

/-- The memory of the listing, apart from the buffer it hands to the library. -/
def isImage (address : Word) : Bool :=
  machine.origin ≤ address.toNat && address.toNat < machine.origin + machine.imageSize &&
    !machine.isBuffer address

def depth (core : Core) : Nat := (BitVec.ofNat 16 machine.top - core.register .gr8).toNat

/-- The word of the stack with the given number, the first one pushed being the
first. -/
def slot (number : Nat) : Word := BitVec.ofNat 16 (machine.top - number)

def resolve (core : Core) (address : Address) : Option Word := do
  let base ← match address.base with
    | .number value => some (BitVec.ofInt 16 value)
    | .label label => machine.address? label
  match address.index with
  | none => some base
  | some register => some (base + core.register register)

def operand (core : Core) : Source → Option Word
  | .register register => some (core.register register)
  | .memory address => (machine.resolve core address).map core.memory
  | .literal value => some value.word

/-- What an operation does that goes on to the next line. -/
def effect (core : Core) : Op → Option Core
  | .load register source =>
      (machine.operand core source).map fun word => (core.set register word).flag word false
  | .store register address =>
      (machine.resolve core address).bind fun address =>
        if machine.isStorage address then some (core.store address (core.register register))
        else none
  | .loadAddress register address =>
      (machine.resolve core address).map fun word => core.set register word
  | .compute operation register source =>
      (machine.operand core source).map fun word =>
        let result := operation.compute (core.register register) word
        (core.set register result).flag result
          (operation.overflows (core.register register) word)
  | .compareSigned register source =>
      (machine.operand core source).map fun word =>
        core.compared (Ord.compare (core.register register).toInt word.toInt)
  | .compareUnsigned register source =>
      (machine.operand core source).map fun word =>
        core.compared (Ord.compare (core.register register).toNat word.toNat)
  | .push address => (machine.resolve core address).map core.push
  | .pop register => some (core.pop register)
  | .nop => some core
  | _ => none

/-- What a call of a routine read or wrote. -/
def events (before after : Core) : Routine → List Event
  | .readInteger => [.readInteger (after.memory (before.register .gr2))]
  | .readChar => [.readChar (after.memory (before.register .gr2))]
  | .readText => [.readText (after.words (before.register .gr2) (before.register .gr1).toNat)]
  | .readLine => [.readLine]
  | .writeInteger => [.writeInteger (before.register .gr2)]
  | .writeChar => [.writeChar (before.register .gr2)]
  | .writeText => [.writeText (before.words (before.register .gr2) (before.register .gr1).toNat)]
  | .writeLine => [.writeLine]
  | .multiply => []
  | .divide => []

def serve (core : Core) (routine : Routine) : Core :=
  let after := machine.library.run routine core
  { after with channel := core.channel ++ events core after routine }

def step (state : State) : Option State :=
  (machine.fetch state.pc).bind fun op =>
    let next := state.pc + BitVec.ofNat 16 op.size
    match op with
    | .jump condition label =>
        (machine.address? label).map fun address =>
          ⟨if state.core.holds condition then address else next, state.core⟩
    | .call (.procedure number) =>
        (machine.address? (.procedure number)).map fun address => ⟨address, state.core.push next⟩
    | .call (.routine called) => some ⟨next, machine.serve state.core called⟩
    | .ret =>
        let pointer := state.core.register .gr8
        if pointer = BitVec.ofNat 16 machine.top then none
        else some ⟨state.core.memory pointer, state.core.set .gr8 (pointer + 1#16)⟩
    | op => (machine.effect state.core op).map fun after => ⟨next, after⟩

def Reaches : State → State → Prop :=
  Relation.ReflTransGen fun before after => machine.step before = some after

/-- The stack stays within its words for as long as the machine runs. -/
def StackFits (state : State) : Prop :=
  ∀ reached, machine.Reaches state reached →
    machine.depth reached.core ≤ machine.top - machine.limit

/-- The texts of the listing are in memory. -/
def Loaded (memory : Word → Word) : Prop :=
  ∀ place line characters, lineAt? machine.lines place = some line →
    line.op = .text characters → ∀ number character, characters.toList[number]? = some character →
      memory (BitVec.ofNat 16 (machine.origin + place + number)) =
        BitVec.ofNat 16 character.toNat

/-- The machine is about to run the listing from its entry on. -/
structure Starts (state : State) : Prop where
  entry : machine.address? .entry = some state.pc
  stack : state.core.register .gr8 = BitVec.ofNat 16 machine.top
  texts : machine.Loaded state.core.memory
  trace : state.core.channel = []

/-- The machine has come to the return that ends the main code, with nothing on
the stack. -/
structure Ends (state : State) : Prop where
  last : state.pc =
    BitVec.ofNat 16 (machine.origin + codeSize (Listing.header ++ machine.listing.main))
  returns : machine.fetch state.pc = some .ret
  stack : state.core.register .gr8 = BitVec.ofNat 16 machine.top

/-- What a routine writes through the address in GR2. -/
def target (core : Core) : Routine → List Word
  | .readInteger => [core.register .gr2]
  | .readChar => [core.register .gr2]
  | .readText => (List.range (core.register .gr1).toNat).map fun place =>
      core.register .gr2 + BitVec.ofNat 16 place
  | _ => []

/-- The run from a state comes to a call of the routine. -/
def Calls (initial : State) (core : Core) (routine : Routine) : Prop :=
  ∃ pc, machine.Reaches initial ⟨pc, core⟩ ∧ machine.fetch pc = some (.call (.routine routine))

/-- A routine is called as it may be: it is ready, the stack is in its bounds,
it reads into variables and does not divide by zero. -/
structure Callable (initial : State) (core : Core) (routine : Routine) : Prop where
  called : machine.Calls initial core routine
  ready : machine.library.Ready core
  stack : machine.depth core ≤ machine.top - machine.limit
  target : ∀ address ∈ target core routine, machine.isCell address = true
  divisor : routine = .divide → core.register .gr2 ≠ 0

/-- Two states that differ in nothing that belongs to the library. -/
structure SameForLibrary (before after : Core) : Prop where
  cursor : after.register .gr6 = before.register .gr6
  buffer : after.register .gr7 = before.register .gr7
  trace : after.channel = before.channel
  memory : ∀ address, machine.isStorage address = false →
    after.memory address = before.memory address

/-- A call keeps the stack pointer, what is on the stack, and the memory of the
listing that it was not asked to read into. -/
structure Spares (routine : Routine) (before after : Core) : Prop where
  pointer : after.register .gr8 = before.register .gr8
  stack : ∀ number, 1 ≤ number → number ≤ machine.depth before →
    after.memory (machine.slot number) = before.memory (machine.slot number)
  image : ∀ address, machine.isImage address = true → address ∉ target before routine →
    after.memory address = before.memory address

/-- What a call is for. A value or an address is passed in GR2, and a length or a
left operand in GR1. What is read is what the console gives. -/
def Result (console : Console) (before after : Core) : Routine → Prop
  | .multiply => after.register .gr2 = before.register .gr1 * before.register .gr2
  | .divide =>
      after.register .gr2 =
          Source.Value.quotient (before.register .gr1) (before.register .gr2) ∧
        after.register .gr1 =
          Source.Value.remainder (before.register .gr1) (before.register .gr2)
  | .readInteger => after.memory (before.register .gr2) = console.integer before.channel
  | .readChar => after.memory (before.register .gr2) = (console.character before.channel).word
  | .readText => ∀ place < (before.register .gr1).toNat,
      after.memory (before.register .gr2 + BitVec.ofNat 16 place) =
        (console.text before.channel (before.register .gr1).toNat place).word
  | .readLine | .writeInteger | .writeChar | .writeText | .writeLine => True

/-- The register contract of a call. -/
structure Serves (console : Console) (routine : Routine) (before after : Core) : Prop
    extends machine.Spares routine before after where
  result : Result console before after routine

end Machine

/-- The contract is kept in all calls that the run from `initial` makes. GR6 and GR7
are the cursor and the buffer; with them and its memory the library stays ready. -/
structure Library.Meets (machine : Machine) (console : Console) (initial : Machine.State) :
    Prop where
  begins : ∀ core : Machine.Core, core.channel = [] → core.register .gr6 = 0 →
    machine.address? .buffer = some (core.register .gr7) →
    (∀ address, machine.isStorage address = false →
      core.memory address = initial.core.memory address) →
    machine.library.Ready core
  persists : ∀ before after, machine.library.Ready before →
    machine.SameForLibrary before after → machine.library.Ready after
  ready : ∀ core routine, machine.Callable initial core routine →
    machine.library.Ready (machine.serve core routine)
  serves : ∀ core routine, machine.Callable initial core routine →
    machine.Serves console routine core (machine.serve core routine)

end PascalCasl
