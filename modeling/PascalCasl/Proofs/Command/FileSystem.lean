import Mathlib.Tactic.Common
import PascalCasl.Command.FileSystem
import PascalCasl.Proofs.Text.Utf8

/-!
What is known of a file system. Several names may lead to one file, by links of
any kind, and some lead to special files. A file that can be opened is read as
it is. Writing fills the file that the name leads to, or makes one, and touches
no other; what is written to a special file is gone. A file system that refuses
to write stays as it was. Nothing is said about when it refuses.
-/

namespace PascalCasl

open Text

theorem decode_whole_iff {bytes : List UInt8} {text : String} :
    decodeWhole? bytes = some text ↔ bytes = encode text := by
  have bytes_back : text.toByteArray.data.toList.toByteArray = text.toByteArray :=
    ByteArray.ext (Array.toList_inj.mp List.toList_data_toByteArray)
  unfold decodeWhole? String.fromUTF8? encode
  constructor
  · intro whole
    split at whole
    · cases whole
      exact List.toList_data_toByteArray.symm
    · cases whole
  · rintro rfl
    have valid : text.toUTF8.data.toList.toByteArray.IsValidUTF8 := bytes_back ▸ text.isValidUTF8
    rw [dif_pos valid]
    exact congrArg some (String.toByteArray_inj.mp bytes_back)

section

variable {Files File : Type}

/-- The bytes were written to what the path leads to. Names that led nowhere may
lead to the file that was made, as links to it do. -/
structure Change (find : Files → String → Option (Found File))
    (content : Files → File → Option (List UInt8)) (before : Files) (path : String)
    (bytes : List UInt8) (after : Files) : Prop where
  filled : find after path = some .special ∨
    ∃ file, find after path = some (.file file) ∧ content after file = some bytes
  fresh : ∀ file, find before path = none → find after path = some (.file file) →
    content before file = none
  names : ∀ name, find after name = find before name ∨
    find before name = none ∧ find before path = none ∧
      ∃ file, find after path = some (.file file) ∧ find after name = some (.file file)
  others : ∀ file, find after path ≠ some (.file file) → content after file = content before file

end

class LawfulFileSystem (Files : Type) (File : outParam Type) [FileSystem Files] where
  find : Files → String → Option (Found File)
  content : Files → File → Option (List UInt8)
  is_file : ∀ {files : Files} {path}, FileSystem.isFile files path = true ↔
    ∃ file, find files path = some (.file file)
  is_directory : ∀ {files : Files} {path}, FileSystem.isDirectory files path = true ↔
    find files path = some .directory
  read : ∀ {files : Files} {path file bytes}, find files path = some (.file file) →
    FileSystem.read files path = .ok bytes → content files file = some bytes
  refused : ∀ {before after : Files} {path bytes cause},
    FileSystem.write before path bytes = (.error cause, after) → after = before
  written : ∀ {before after : Files} {path bytes},
    FileSystem.write before path bytes = (.ok (), after) →
      Change find content before path bytes after

open LawfulFileSystem (find content)

variable {Files File : Type} [FileSystem Files] [LawfulFileSystem Files File]

/-- The path leads to a file that can be opened and holds the text. -/
structure Reads (files : Files) (path text : String) : Prop where
  opened : FileSystem.read files path = .ok (encode text)
  held : ∃ file, find files path = some (.file file) ∧ content files file = some (encode text)

structure Writes (before : Files) (path text : String) (after : Files) : Prop where
  opened : FileSystem.write before path (encode text) = (.ok (), after)
  changed : Change find content before path (encode text) after

theorem reads_iff {files : Files} {path text : String} :
    Reads files path text ↔ FileSystem.isFile files path = true ∧
      FileSystem.read files path = .ok (encode text) := by
  rw [LawfulFileSystem.is_file]
  constructor
  · rintro ⟨opened, file, led, -⟩
    exact ⟨⟨file, led⟩, opened⟩
  · rintro ⟨⟨file, led⟩, opened⟩
    exact ⟨opened, file, led, LawfulFileSystem.read led opened⟩

theorem writes_iff {before after : Files} {path text : String} :
    Writes before path text after ↔
      FileSystem.write before path (encode text) = (.ok (), after) :=
  ⟨Writes.opened, fun opened => ⟨opened, LawfulFileSystem.written opened⟩⟩

def SameFile (files : Files) (one other : String) : Prop :=
  ∃ file, find files one = some (.file file) ∧ find files other = some (.file file)

/-- The path leads where it led, and a file there holds what it held. -/
structure Untouched (before : Files) (path : String) (after : Files) : Prop where
  led : find after path = find before path
  held : ∀ file, find before path = some (.file file) →
    content after file = content before file

/-- Writing under one name leaves what another leads to, unless that is the same
file. -/
theorem Writes.beside {before after : Files} {path text : String}
    (written : Writes before path text after) (name : String) :
    SameFile after path name ∨ Untouched before name after := by
  rcases written.changed.names name with same | ⟨-, -, made⟩
  · by_cases shared : SameFile after path name
    · exact .inl shared
    · refine .inr ⟨same, fun file led => written.changed.others file fun target => shared ?_⟩
      exact ⟨file, target, same.trans led⟩
  · exact .inl made

end PascalCasl
