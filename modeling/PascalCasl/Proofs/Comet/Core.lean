import PascalCasl.Casl.Basic
import PascalCasl.Proofs.Meaning.Source

/-!
What a COMET II machine holds apart from its place in the program, and how an
instruction changes it. What is read and written goes through a channel, which
every machine chooses for itself.
-/

namespace PascalCasl

namespace Casl.Arithmetic

@[simp] def compute : Arithmetic → Word → Word → Word
  | .add, left, right => left + right
  | .subtract, left, right => left - right
  | .and, left, right => left &&& right
  | .or, left, right => left ||| right
  | .xor, left, right => left ^^^ right

/-- Whether the result is out of the range of signed words. -/
def overflows : Arithmetic → Word → Word → Bool
  | .add, left, right => left.saddOverflow right
  | .subtract, left, right => left.ssubOverflow right
  | _, _, _ => false

end Casl.Arithmetic

namespace Comet

open Casl (Condition Register)

structure Core (Channel : Type) where
  register : Register → Word
  zero : Bool
  negative : Bool
  overflow : Bool
  memory : Word → Word
  channel : Channel

namespace Core

variable {Channel : Type} (core : Core Channel)

def set (register : Register) (word : Word) : Core Channel :=
  { core with register := fun other => if other = register then word else core.register other }

def store (address word : Word) : Core Channel :=
  { core with memory := fun other => if other = address then word else core.memory other }

/-- Flags after a word was loaded or computed. -/
def flag (word : Word) (overflow : Bool) : Core Channel :=
  { core with zero := word = 0, negative := word.msb, overflow }

def compared (order : Ordering) : Core Channel :=
  { core with zero := order = .eq, negative := order = .lt, overflow := false }

def push (word : Word) : Core Channel :=
  (core.set .gr8 (core.register .gr8 - 1#16)).store (core.register .gr8 - 1#16) word

def pop (register : Register) : Core Channel :=
  (core.set .gr8 (core.register .gr8 + 1#16)).set register (core.memory (core.register .gr8))

def words (address : Word) (count : Nat) : List Word :=
  (List.range count).map fun place => core.memory (address + BitVec.ofNat 16 place)

def holds : Condition → Bool
  | .always => true
  | .zero => core.zero
  | .nonzero => !core.zero
  | .minus => core.negative
  | .plus => !core.negative && !core.zero

/-- The same machine at another channel. -/
def withChannel {Other : Type} (channel : Other) : Core Other :=
  ⟨core.register, core.zero, core.negative, core.overflow, core.memory, channel⟩

variable (register other : Register) (address place word : Word) (overflow : Bool)
  (order : Ordering)

@[simp] theorem set_register : (core.set register word).register other =
    if other = register then word else core.register other := rfl

@[simp] theorem set_same : core.set register (core.register register) = core := by
  have same : (fun other => if other = register then core.register register
      else core.register other) = core.register := by
    funext other
    split <;> simp_all
  rw [set, same]

@[simp] theorem set_zero : (core.set register word).zero = core.zero := rfl
@[simp] theorem set_negative : (core.set register word).negative = core.negative := rfl
@[simp] theorem set_overflow : (core.set register word).overflow = core.overflow := rfl
@[simp] theorem set_memory : (core.set register word).memory = core.memory := rfl
@[simp] theorem set_channel : (core.set register word).channel = core.channel := rfl

@[simp] theorem store_register : (core.store address word).register = core.register := rfl

@[simp] theorem store_memory : (core.store address word).memory place =
    if place = address then word else core.memory place := rfl

@[simp] theorem store_channel : (core.store address word).channel = core.channel := rfl

@[simp] theorem flag_register : (core.flag word overflow).register = core.register := rfl
@[simp] theorem flag_zero : (core.flag word overflow).zero = decide (word = 0) := rfl
@[simp] theorem flag_negative : (core.flag word overflow).negative = word.msb := rfl
@[simp] theorem flag_overflow : (core.flag word overflow).overflow = overflow := rfl
@[simp] theorem flag_memory : (core.flag word overflow).memory = core.memory := rfl
@[simp] theorem flag_channel : (core.flag word overflow).channel = core.channel := rfl

@[simp] theorem compared_register : (core.compared order).register = core.register := rfl
@[simp] theorem compared_zero : (core.compared order).zero = decide (order = .eq) := rfl
@[simp] theorem compared_negative : (core.compared order).negative = decide (order = .lt) := rfl
@[simp] theorem compared_memory : (core.compared order).memory = core.memory := rfl
@[simp] theorem compared_channel : (core.compared order).channel = core.channel := rfl

@[simp] theorem push_register : (core.push word).register other =
    if other = .gr8 then core.register .gr8 - 1#16 else core.register other := rfl

@[simp] theorem push_memory : (core.push word).memory place =
    if place = core.register .gr8 - 1#16 then word else core.memory place := rfl

@[simp] theorem push_channel : (core.push word).channel = core.channel := rfl

@[simp] theorem pop_register : (core.pop register).register other =
    if other = register then core.memory (core.register .gr8)
    else if other = .gr8 then core.register .gr8 + 1#16 else core.register other := rfl

@[simp] theorem pop_memory : (core.pop register).memory = core.memory := rfl
@[simp] theorem pop_channel : (core.pop register).channel = core.channel := rfl

@[simp] theorem with_channel_memory {Other : Type} (channel : Other) :
    (core.withChannel channel).memory = core.memory := rfl

end Core

end Comet

end PascalCasl
