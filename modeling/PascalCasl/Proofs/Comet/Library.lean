import PascalCasl.Library.Source
import PascalCasl.Proofs.Comet.Machine
import PascalCasl.Proofs.Text.Lines
import PascalCasl.Proofs.Text.Utf8

/-!
The support library as it is assembled, and machines that hold it.
-/

namespace PascalCasl.Comet

open Casl (Arithmetic Register)

def save (register : Register) : Action Ref := .push ⟨.constant 0, some register⟩

def restore (register : Register) : Action Ref := .pop register

def move (register source : Register) : Action Ref := .load register (.register source)

def put (register : Register) (word : Word) : Action Ref :=
  .loadAddress register ⟨.constant word, none⟩

def increase (register : Register) : Action Ref :=
  .loadAddress register ⟨.constant 1, some register⟩

def combine (operation : Operation) (register source : Register) : Action Ref :=
  .compute operation register (.register source)

def adjust (operation : Arithmetic) (register : Register) (word : Word) : Action Ref :=
  .compute (.ordinary operation) register (.memory ⟨.literal word, none⟩)

def negate (register : Register) : List (Action Ref) :=
  [adjust .xor register 0xFFFF, adjust .add register 1]

def go (test : Test) (number : Nat) : Instr Ref := .jump test ⟨.code number, none⟩

def acts (actions : List (Action Ref)) : List (Instr Ref) := actions.map .act

/-- Goes to `number` if the word that was loaded last is not negative. -/
def goUnlessNegative (number : Nat) : List (Instr Ref) :=
  [go (.on .plus) number, go (.on .zero) number]

def multiplySegment : Segment where
  name := "MULT"
  first := .code 0
  code :=
    acts [save .gr1, save .gr3, save .gr4, put .gr3 0] ++
    acts [move .gr2 .gr2] ++ [go (.on .zero) 13] ++
    acts [move .gr4 .gr2, adjust .and .gr4 1] ++ [go (.on .zero) 10] ++
    acts [combine .addUnsigned .gr3 .gr1] ++
    acts [.shiftLeft .gr1 ⟨.constant 1, none⟩, .shiftRight .gr2 ⟨.constant 1, none⟩] ++
    [go (.on .always) 4] ++
    acts [move .gr2 .gr3, restore .gr4, restore .gr3, restore .gr1] ++ [.ret]
  data := []

def divideSegment : Segment where
  name := "DIV"
  first := .code 0
  code :=
    acts [save .gr3, save .gr4, save .gr5, save .gr6, put .gr4 0, put .gr5 0, move .gr1 .gr1] ++
    goUnlessNegative 13 ++
    acts (negate .gr1 ++ [adjust .xor .gr4 0xFFFF, put .gr5 0xFFFF]) ++
    acts [move .gr2 .gr2] ++ goUnlessNegative 19 ++
    acts (negate .gr2 ++ [adjust .xor .gr4 0xFFFF]) ++
    acts [put .gr0 0, put .gr3 0, put .gr6 16] ++
    acts [.shiftLeft .gr0 ⟨.constant 1, none⟩, .shiftLeft .gr1 ⟨.constant 1, none⟩] ++
    [go .onOverflow 26, go (.on .always) 27] ++
    acts [adjust .or .gr0 1] ++
    acts [.shiftLeft .gr3 ⟨.constant 1, none⟩, .compareUnsigned .gr0 (.register .gr2)] ++
    [go (.on .minus) 32] ++
    acts [combine .subtractUnsigned .gr0 .gr2, adjust .or .gr3 1] ++
    acts [adjust .subtract .gr6 1] ++ [go (.on .nonzero) 22] ++
    acts [move .gr4 .gr4] ++ [go (.on .zero) 38] ++ acts (negate .gr3) ++
    acts [move .gr5 .gr5] ++ [go (.on .zero) 42] ++ acts (negate .gr0) ++
    acts [move .gr2 .gr3, move .gr1 .gr0] ++
    acts [restore .gr6, restore .gr5, restore .gr4, restore .gr3] ++ [.ret]
  data := []

def writeIntegerSegment : Segment where
  name := "WRTINT"
  first := .code 0
  code :=
    acts [save .gr1, save .gr2, save .gr3, save .gr4, save .gr5, move .gr2 .gr2] ++
    goUnlessNegative 12 ++
    acts [.load .gr1 (.memory ⟨.literal 0x2D, none⟩)] ++ [.call ⟨.code 39, none⟩] ++
    acts (negate .gr2) ++
    acts [put .gr3 0, put .gr5 0] ++
    acts [.load .gr4 (.memory ⟨.data 0, some .gr3⟩), put .gr1 0] ++
    acts [.compareUnsigned .gr2 (.register .gr4)] ++ [go (.on .minus) 21] ++
    acts [combine .subtractUnsigned .gr2 .gr4, increase .gr1] ++ [go (.on .always) 16] ++
    acts [move .gr1 .gr1] ++ [go (.on .nonzero) 27] ++
    acts [move .gr5 .gr5] ++ [go (.on .nonzero) 27] ++
    acts [.compareSigned .gr3 (.memory ⟨.literal 4, none⟩)] ++ [go (.on .nonzero) 30] ++
    acts [adjust .add .gr1 0x30] ++ [.call ⟨.code 39, none⟩] ++
    acts [put .gr5 1] ++
    acts [increase .gr3, .compareSigned .gr3 (.memory ⟨.literal 5, none⟩)] ++ [go (.on .nonzero) 14] ++
    acts [restore .gr5, restore .gr4, restore .gr3, restore .gr2, restore .gr1] ++ [.ret] ++
    acts [save .gr2, move .gr2 .gr7, combine (.ordinary .add) .gr2 .gr6,
      .store .gr1 ⟨.constant 0, some .gr2⟩, increase .gr6, restore .gr2] ++ [.ret]
  data := [10000, 1000, 100, 10, 1]

def writeCharSegment : Segment where
  name := "WRTCH"
  first := .code 0
  code :=
    acts [save .gr1, move .gr1 .gr7, combine (.ordinary .add) .gr1 .gr6,
      .store .gr2 ⟨.constant 0, some .gr1⟩, increase .gr6, restore .gr1] ++ [.ret]
  data := []

def writeTextSegment : Segment where
  name := "WRTSTR"
  first := .code 0
  code :=
    acts [save .gr1, save .gr2, save .gr3, save .gr4, move .gr3 .gr7,
      combine (.ordinary .add) .gr3 .gr6] ++
    acts [move .gr1 .gr1] ++ [go (.on .zero) 15] ++
    acts [.load .gr4 (.memory ⟨.constant 0, some .gr2⟩), .store .gr4 ⟨.constant 0, some .gr3⟩,
      increase .gr2, increase .gr3, increase .gr6, adjust .subtract .gr1 1] ++
    [go (.on .always) 6] ++
    acts [restore .gr4, restore .gr3, restore .gr2, restore .gr1] ++ [.ret]
  data := []

def writeLineSegment : Segment where
  name := "WRTLN"
  first := .code 0
  code :=
    acts [save .gr1, save .gr2, save .gr3, .store .gr6 ⟨.data 256, none⟩, put .gr1 0] ++
    acts [.compareSigned .gr1 (.register .gr6)] ++ [go (.on .zero) 13] ++
    acts [move .gr2 .gr7, combine (.ordinary .add) .gr2 .gr1,
      .load .gr3 (.memory ⟨.constant 0, some .gr2⟩), .store .gr3 ⟨.data 0, some .gr1⟩,
      increase .gr1] ++ [go (.on .always) 5] ++
    [.output ⟨.data 0, none⟩ ⟨.data 256, none⟩] ++
    acts [put .gr6 0, restore .gr3, restore .gr2, restore .gr1] ++ [.ret]
  data := List.replicate 257 0

def bufferSegment : Segment := ⟨"INBUF", .data 0, [], List.replicate 256 0⟩

def lengthSegment : Segment := ⟨"INLEN", .data 0, [], [-1]⟩

def positionSegment : Segment := ⟨"INPOS", .data 0, [], [0]⟩

def currentSegment : Segment where
  name := "RDCUR"
  first := .code 0
  code :=
    acts [save .gr2, .load .gr1 (.memory ⟨.unit "INLEN", none⟩)] ++ goUnlessNegative 7 ++
    [.input ⟨.unit "INBUF", none⟩ ⟨.unit "INLEN", none⟩] ++
    acts [put .gr1 0, .store .gr1 ⟨.unit "INPOS", none⟩] ++
    acts [.load .gr2 (.memory ⟨.unit "INPOS", none⟩),
      .compareSigned .gr2 (.memory ⟨.unit "INLEN", none⟩)] ++ [go (.on .minus) 12] ++
    acts [put .gr1 0xFFFF] ++ [go (.on .always) 13] ++
    acts [.load .gr1 (.memory ⟨.unit "INBUF", some .gr2⟩)] ++
    acts [restore .gr2] ++ [.ret]
  data := []

def advanceSegment : Segment where
  name := "RDADV"
  first := .code 0
  code :=
    acts [save .gr1, .load .gr1 (.memory ⟨.unit "INPOS", none⟩), increase .gr1,
      .store .gr1 ⟨.unit "INPOS", none⟩, restore .gr1] ++ [.ret]
  data := []

def readIntegerSegment : Segment where
  name := "RDINT"
  first := .code 0
  code :=
    acts [save .gr1, save .gr3, save .gr4, save .gr5] ++
    [.call ⟨.unit "RDCUR", none⟩] ++
    acts [.compareSigned .gr1 (.memory ⟨.literal 0x20, none⟩)] ++ [go (.on .nonzero) 9] ++
    [.call ⟨.unit "RDADV", none⟩, go (.on .always) 4] ++
    acts [put .gr5 0, .compareSigned .gr1 (.memory ⟨.literal 0x2D, none⟩)] ++ [go (.on .nonzero) 14] ++
    acts [put .gr5 1] ++ [.call ⟨.unit "RDADV", none⟩] ++
    acts [put .gr3 0] ++ [.call ⟨.unit "RDCUR", none⟩] ++
    acts [.compareSigned .gr1 (.memory ⟨.literal 0x30, none⟩)] ++ [go (.on .minus) 28] ++
    acts [.compareSigned .gr1 (.memory ⟨.literal 0x39, none⟩)] ++ [go (.on .plus) 28] ++
    acts [adjust .subtract .gr1 0x30, move .gr4 .gr3, .shiftLeft .gr3 ⟨.constant 3, none⟩,
      .shiftLeft .gr4 ⟨.constant 1, none⟩, combine .addUnsigned .gr3 .gr4,
      combine .addUnsigned .gr3 .gr1] ++
    [.call ⟨.unit "RDADV", none⟩, go (.on .always) 15] ++
    acts [move .gr5 .gr5] ++ [go (.on .zero) 32] ++ acts (negate .gr3) ++
    acts [.store .gr3 ⟨.constant 0, some .gr2⟩] ++
    acts [restore .gr5, restore .gr4, restore .gr3, restore .gr1] ++ [.ret]
  data := []

def readCharSegment : Segment where
  name := "RDCH"
  first := .code 0
  code :=
    acts [save .gr1] ++ [.call ⟨.unit "RDCUR", none⟩] ++ acts [move .gr1 .gr1] ++ [go (.on .minus) 6] ++
    [.call ⟨.unit "RDADV", none⟩, go (.on .always) 7] ++ acts [put .gr1 0] ++
    acts [.store .gr1 ⟨.constant 0, some .gr2⟩, restore .gr1] ++ [.ret]
  data := []

def readTextSegment : Segment where
  name := "RDSTR"
  first := .code 0
  code :=
    acts [save .gr1, save .gr2, save .gr3, move .gr3 .gr1] ++
    acts [move .gr3 .gr3] ++ [go (.on .zero) 16] ++ [.call ⟨.unit "RDCUR", none⟩] ++
    acts [move .gr1 .gr1] ++ [go (.on .minus) 11] ++
    [.call ⟨.unit "RDADV", none⟩, go (.on .always) 12] ++
    acts [.load .gr1 (.memory ⟨.literal 0x20, none⟩)] ++
    acts [.store .gr1 ⟨.constant 0, some .gr2⟩, increase .gr2, adjust .subtract .gr3 1] ++
    [go (.on .always) 4] ++
    acts [restore .gr3, restore .gr2, restore .gr1] ++ [.ret]
  data := []

def readLineSegment : Segment where
  name := "RDLN"
  first := .code 0
  code :=
    acts [save .gr1, .load .gr1 (.memory ⟨.unit "INLEN", none⟩)] ++ goUnlessNegative 5 ++
    [.input ⟨.unit "INBUF", none⟩ ⟨.unit "INLEN", none⟩] ++
    acts [put .gr1 0xFFFF, .store .gr1 ⟨.unit "INLEN", none⟩, restore .gr1] ++ [.ret]
  data := []

def library : List Segment :=
  [multiplySegment, divideSegment, writeCharSegment, writeTextSegment, writeIntegerSegment,
    writeLineSegment, bufferSegment, lengthSegment, positionSegment, currentSegment,
    advanceSegment, readIntegerSegment, readCharSegment, readTextSegment, readLineSegment]

def isWhole (line : List Char) : Bool := !line.contains '\n' && line.getLast? != some '\r'

theorem lines_ascii : ∀ line ∈ Library.bundledLines, ∀ byte ∈ Text.encode line,
    byte.toNat < 128 := by
  have each : Library.bundledLines.all (fun line =>
      (Text.encode line).all fun byte => byte.toNat < 128) = true := by
    decide +kernel
  intro line member byte among
  exact of_decide_eq_true (List.all_eq_true.1 (List.all_eq_true.1 each line member) byte among)

theorem lines_assemble :
    readLines? (Library.bundledLines.map String.toList) = some library ∧
      (Library.bundledLines.map String.toList).all isWhole = true := by
  -- bytes are evaluated faster than characters are decoded
  have bytes : Library.bundledLines.map String.toList = Library.bundledLines.map fun line =>
      (Text.encode line).map fun byte => Char.ofNat byte.toNat :=
    List.map_congr_left fun line member => Text.ascii_chars (lines_ascii line member)
  rw [bytes]
  decide +kernel

theorem joined_lines {lines : List String}
    (whole : (lines.map String.toList).all isWhole = true) :
    Text.lines (String.join (lines.map (· ++ "\n"))).toList = lines.map String.toList := by
  induction lines with
  | nil => rfl
  | cons first rest ih =>
      rw [List.map_cons, List.all_cons, Bool.and_eq_true, isWhole, Bool.and_eq_true] at whole
      obtain ⟨⟨unbroken, ending⟩, others⟩ := whole
      have split : (String.join ((first :: rest).map (· ++ "\n"))).toList =
          first.toList ++ '\n' :: (String.join (rest.map (· ++ "\n"))).toList := by
        simp
      rw [split, Text.lines_append (by simpa using unbroken) (by simpa using ending), ih others]
      rfl

theorem library_read : read? Library.bundled.toList = some library := by
  rw [read?, Library.bundled, joined_lines lines_assemble.2]
  exact lines_assemble.1

end PascalCasl.Comet
