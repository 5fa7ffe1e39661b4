import PascalCasl.Proofs.Comet.Routine

/-!
The line of input that is held. One routine finds the character at the read
position, and another goes past it.
-/

namespace PascalCasl.Comet

open Casl (Register)

/-- The word of the first character of a text, or -1 if there is none. -/
def currentWord : List Char → Word
  | [] => 0xFFFF#16
  | c :: _ => charWord c

namespace Host

variable (host : Host library)

def bufferCell (number : Nat) : Word := host.placement.cell (.datum "INBUF" number)

def lengthCell : Word := host.placement.cell (.datum "INLEN" 0)

def positionCell : Word := host.placement.cell (.datum "INPOS" 0)

/-- A line is held, and is to be read from the position on. -/
structure Held (core : Core Terminal) (line : List Char) (position : Nat) : Prop where
  short : line.length ≤ 256
  codes : ∀ c ∈ line, c.toNat < 32768
  inside : position ≤ line.length
  length : core.memory host.lengthCell = BitVec.ofNat 16 line.length
  position : core.memory host.positionCell = BitVec.ofNat 16 position
  characters : ∀ (number : Nat) (c : Char), (line)[number]? = some c →
    core.memory (host.bufferCell number) = charWord c

theorem buffer_listed {number : Nat} (less : number < 256) :
    .datum "INBUF" number ∈ cellsOf library := by
  have length : bufferSegment.data.length = 256 := List.length_replicate
  exact datum_listed (by simp [library] : bufferSegment ∈ library) (length ▸ less)

theorem length_listed : .datum "INLEN" 0 ∈ cellsOf library :=
  datum_listed (by simp [library] : lengthSegment ∈ library) (by simp [lengthSegment])

theorem position_listed : .datum "INPOS" 0 ∈ cellsOf library :=
  datum_listed (by simp [library] : positionSegment ∈ library) (by simp [positionSegment])

theorem constant_ne_position : ∀ constant ∈ constants, constant.1 ≠ .datum "INPOS" 0 := by
  decide +kernel

theorem buffer_unit : host.placement.unit "INBUF" = host.bufferCell 0 :=
  host.named bufferSegment (by simp [library])

theorem length_unit : host.placement.unit "INLEN" = host.lengthCell :=
  host.named lengthSegment (by simp [library])

theorem position_unit : host.placement.unit "INPOS" = host.positionCell :=
  host.named positionSegment (by simp [library])

theorem buffer_indexed (number : Nat) :
    host.placement.unit "INBUF" + BitVec.ofNat 16 number = host.bufferCell number := by
  rw [buffer_unit]
  change host.placement.data "INBUF" + 0#16 + _ = _
  rw [BitVec.add_zero]
  rfl

variable {host} {core after : Core Terminal} {line : List Char} {position : Nat}

theorem Held.congr (held : host.Held core line position)
    (same : ∀ cell ∈ cellsOf library,
      after.memory (host.placement.cell cell) = core.memory (host.placement.cell cell)) :
    host.Held after line position where
  short := held.short
  codes := held.codes
  inside := held.inside
  length := (same _ length_listed).trans held.length
  position := (same _ position_listed).trans held.position
  characters number c listed := by
    have less : number < 256 :=
      (List.getElem?_eq_some_iff.mp listed).1.trans_le held.short
    exact (same _ (buffer_listed less)).trans (held.characters number c listed)

theorem Held.moved (held : host.Held core line position) (more : position < line.length)
    (next : after.memory host.positionCell = BitVec.ofNat 16 (position + 1))
    (same : ∀ cell ∈ cellsOf library, cell ≠ .datum "INPOS" 0 →
      after.memory (host.placement.cell cell) = core.memory (host.placement.cell cell)) :
    host.Held after line (position + 1) where
  short := held.short
  codes := held.codes
  inside := more
  length := (same _ length_listed (by decide)).trans held.length
  position := next
  characters number c listed := by
    have less : number < 256 :=
      (List.getElem?_eq_some_iff.mp listed).1.trans_le held.short
    exact (same _ (buffer_listed less) (by simp)).trans (held.characters number c listed)

theorem current_member : currentSegment ∈ library := by simp [library]

theorem current_frames : currentSegment.Frames 0 [.gr2] 13 :=
  ⟨⟨_, rfl⟩, ⟨_, rfl⟩, by simp, by simp⟩

theorem current_checks (held : host.Held core line position) :
    ∃ after, host.Runs currentSegment 1 core 7 after ∧ core.Keeps [.gr1] nowhere after := by
  obtain ⟨loaded, load, keeps, performed⟩ := host.quiet_run current_member 1
    [.load .gr1 (.memory ⟨.unit "INLEN", none⟩)] [.gr1] ⟨_, rfl⟩ rfl core
  have length : core.memory (host.placement.unit "INLEN") = BitVec.ofNat 16 line.length := by
    rw [length_unit, held.length]
  have flagged : loaded.Flagged (BitVec.ofNat 16 line.length) := by
    rw [← performed, ← length]
    exact ⟨rfl, rfl⟩
  have short := held.short
  have nonnegative : (BitVec.ofNat 16 line.length).msb = false := by
    rw [BitVec.msb_eq_decide, decide_eq_false_iff_not, BitVec.toNat_ofNat]
    omega
  exact ⟨loaded, load.trans (host.nonnegative_run current_member 2 7 ⟨_, rfl⟩ loaded flagged
    (by decide) nonnegative), keeps⟩

theorem position_before {first second : Nat} (few : first ≤ 256) (fewToo : second ≤ 256) :
    (BitVec.ofNat 16 first).toInt < (BitVec.ofNat 16 second).toInt ↔ first < second := by
  have value {number : Nat} (few : number ≤ 256) :
      (BitVec.ofNat 16 number).toInt = (number : Int) := by
    rw [BitVec.toInt_ofNat', Int.bmod_eq_of_le (by omega) (by omega)]
  rw [value few, value fewToo, Int.ofNat_lt]

theorem current_work (held : host.Held core line position) :
    ∃ after, host.Runs currentSegment 1 core 13 after ∧ core.Keeps [.gr1, .gr2] nowhere after ∧
      after.register .gr1 = currentWord (line.drop position) := by
  obtain ⟨checked, check, keepsCheck⟩ := current_checks held
  obtain ⟨loaded, load, keepsLoad, performed⟩ := host.quiet_run current_member 7
    [.load .gr2 (.memory ⟨.unit "INPOS", none⟩)] [.gr2] ⟨_, rfl⟩ rfl checked
  have keeps := (keepsCheck.more (by simp)).trans
    (keepsLoad.more (by simp) : checked.Keeps [.gr1, .gr2] nowhere loaded)
  have index : loaded.register .gr2 = BitVec.ofNat 16 position := by
    rw [← held.position, ← position_unit, ← keepsCheck.memory_same, ← performed]
    rfl
  have length : loaded.memory (host.placement.unit "INLEN") = BitVec.ofNat 16 line.length := by
    rw [keeps.memory_same, length_unit, held.length]
  obtain ⟨compared, test, keepsTest, -, sign⟩ := host.compare_run current_member 8 .gr2
    (.memory ⟨.unit "INLEN", none⟩) ⟨_, rfl⟩ loaded length
  have few := held.inside.trans held.short
  simp only [index, position_before few held.short] at sign
  have keepsAll := keeps.trans (keepsTest.more (by simp))
  have run := (check.trans load).trans test
  by_cases more : position < line.length
  · -- a character is left, and it is loaded from the buffer
    have found := host.jump_run current_member 9 (.on .minus) 12 ⟨_, rfl⟩ compared (by decide)
      (by simp [Core.holds, sign, more])
    obtain ⟨after, read, keepsRead, performedRead⟩ := host.quiet_run current_member 12
      [.load .gr1 (.memory ⟨.unit "INBUF", some .gr2⟩)] [.gr1] ⟨_, rfl⟩ rfl compared
    refine ⟨after, (run.trans found).trans read, keepsAll.trans (keepsRead.more (by simp)), ?_⟩
    rw [List.drop_eq_getElem_cons more, ← performedRead]
    change compared.memory (host.placement.unit "INBUF" + compared.register .gr2) = _
    rw [keepsTest.register .gr2 (by simp), index, buffer_indexed, keepsAll.memory_same]
    exact held.characters position _ (List.getElem?_eq_getElem more)
  · -- behind the last one the word is -1, which is no character
    have pass := host.pass_run current_member 9 (.on .minus) 12 ⟨_, rfl⟩ compared
      (by simpa [Core.holds, sign] using more)
    obtain ⟨after, put, keepsPut, performedPut⟩ := host.quiet_run current_member 10
      [put .gr1 0xFFFF] [.gr1] ⟨_, rfl⟩ rfl compared
    have leave := host.jump_run current_member 11 (.on .always) 13 ⟨_, rfl⟩ after (by decide) rfl
    refine ⟨after, ((run.trans pass).trans put).trans leave,
      keepsAll.trans (keepsPut.more (by simp)), ?_⟩
    rw [List.drop_eq_nil_of_le (by omega), ← performedPut]
    rfl

theorem current_returns {pc : Nat} (held : host.Held core line position)
    (called : host.Calls pc "RDCUR") (room : host.Room (core.register .gr8) 2) :
    ∃ after, Reaches host.code ⟨pc, core⟩ ⟨pc + 1, after⟩ ∧
      core.Keeps [.gr1] (Stacked (core.register .gr8) 2) after ∧
      after.register .gr1 = currentWord (line.drop position) := by
  have heldEntered : host.Held (core.entered (pc + 1) [.gr2]) line position :=
    held.congr fun cell listed =>
      (core.entered_keeps _ _).memory _ (room.apart _ (host.cell_placed listed))
  obtain ⟨finished, work, keepsWork, current⟩ := current_work heldEntered
  obtain ⟨after, run, keeps, result⟩ := quiet_call_returns current_member current_frames
    (called.at_first current_member rfl) room work keepsWork (by decide)
  exact ⟨after, run, keeps, (result .gr1 (by decide) (by decide)).trans current⟩

theorem advance_member : advanceSegment ∈ library := by simp [library]

theorem advance_frames : advanceSegment.Frames 0 [.gr1] 4 :=
  ⟨⟨_, rfl⟩, ⟨_, rfl⟩, by simp, by simp⟩

theorem advance_work (held : host.Held core line position) :
    ∃ after, host.Runs advanceSegment 1 core 4 after ∧
      core.Keeps [.gr1] (fun address => address = host.positionCell) after ∧
      after.memory host.positionCell = BitVec.ofNat 16 (position + 1) := by
  obtain ⟨loaded, load, keeps, performed⟩ := host.quiet_run advance_member 1
    [.load .gr1 (.memory ⟨.unit "INPOS", none⟩), increase .gr1] [.gr1] ⟨_, rfl⟩ rfl core
  have next : loaded.register .gr1 = BitVec.ofNat 16 (position + 1) := by
    rw [Nat.add_comm, BitVec.ofNat_add, ← held.position, ← position_unit, ← performed]
    rfl
  obtain ⟨stored, store, keepsStore, word⟩ := host.store_run advance_member 3 .gr1
    ⟨.unit "INPOS", none⟩ ⟨_, rfl⟩ loaded host.position_unit
  exact ⟨stored, load.trans store,
    (keeps.mono (fun _ => id) fun _ => False.elim).trans (keepsStore.more (by simp)),
    word.trans next⟩

theorem advance_returns {pc : Nat} (held : host.Held core line position)
    (more : position < line.length) (called : host.Calls pc "RDADV")
    (room : host.Room (core.register .gr8) 2) :
    ∃ after, Reaches host.code ⟨pc, core⟩ ⟨pc + 1, after⟩ ∧
      core.Keeps [] (fun address => Stacked (core.register .gr8) 2 address ∨
        address = host.positionCell) after ∧
      host.Held after line (position + 1) := by
  have heldEntered : host.Held (core.entered (pc + 1) [.gr1]) line position :=
    held.congr fun cell listed =>
      (core.entered_keeps _ _).memory _ (room.apart _ (host.cell_placed listed))
  obtain ⟨finished, work, keepsWork, next⟩ := advance_work heldEntered
  obtain ⟨after, run, keeps, -, memory⟩ := call_returns advance_member advance_frames
    (called.at_first advance_member rfl) room work keepsWork (by decide)
    fun address stacked same =>
      room.apart host.positionCell (host.cell_placed position_listed) (same ▸ stacked)
  refine ⟨after, run, keeps, held.moved more (memory ▸ next) fun cell listed other => ?_⟩
  refine keeps.memory _ ?_
  rintro (stacked | same)
  · exact room.apart _ (host.cell_placed listed) stacked
  · exact host.cells_apart listed position_listed other same

end Host

end PascalCasl.Comet
