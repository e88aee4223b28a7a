import OpenFlash.Qemu.Refinement
import OpenFlash.Support.Runs

/-! What a command, and a history of commands, leaves as it was: the backing file when nothing
asks for durability, and every byte of the storage that no access stores to. -/
namespace OpenFlash.Qemu
open Abi Support

theorem openflashTransfer_transferred (cmd : OpenFlashCommand) (offset length : UInt64)
    (write : Bool) (storage : ℕ → UInt8) (memory : Memory) :
    ∀ e ∈ (openflashTransfer cmd offset length write storage memory).trace, e.Transferred :=
  openflashTransfer_trace
    ⟨fun _ _ _ _ _ => nofun, fun _ _ _ _ _ => nofun, fun _ _ _ _ => nofun⟩
    cmd write storage memory

/-- What a command did without copying the image out. -/
structure Unforced (s : OpenFlashState) (r : Outcome) : Prop where
  trace : ∀ e ∈ r.trace, e.Transferred
  file : r.state.file = s.file

theorem executeWrite_unforced (fileOk : Bool) {cmd : OpenFlashCommand} (offset length : UInt64)
    (memory : Memory) (s : OpenFlashState) (hfua : cmd.flags &&& cmdFua = 0) :
    Unforced s (executeWrite fileOk cmd offset length memory s) := by
  have hmoved := openflashTransfer_transferred cmd offset length true s.storage memory
  unfold executeWrite
  simp only [hfua, if_true]
  split_ifs
  · exact ⟨hmoved, rfl⟩
  · exact ⟨hmoved, rfl⟩

/-- A write without the flag leaves the backing file alone. -/
theorem openflashExecute_unforced (fileOk : Bool) {cmd : OpenFlashCommand} (memory : Memory)
    (s : OpenFlashState) (hop : cmd.opcode = opWrite) (hfua : cmd.flags &&& cmdFua = 0) :
    Unforced s (openflashExecute fileOk cmd memory s) := by
  have hwrite : executeRanged fileOk cmd (cmd.lba * ofBlockSize)
      (cmd.nblocks.toUInt64 * ofBlockSize) memory s
        = executeWrite fileOk cmd (cmd.lba * ofBlockSize)
          (cmd.nblocks.toUInt64 * ofBlockSize) memory s := by
    unfold executeRanged
    rw [hop]
    rfl
  have hmoved := executeWrite_unforced fileOk (cmd.lba * ofBlockSize)
    (cmd.nblocks.toUInt64 * ofBlockSize) memory s hfua
  unfold openflashExecute
  dsimp only
  rw [hop, hwrite]
  split_ifs with hid hcreate hflush
  · exact absurd hid (by decide)
  · exact absurd hcreate (by decide)
  · exact absurd hflush (by decide)
  · exact ⟨nofun, rfl⟩
  · exact ⟨nofun, rfl⟩
  · constructor
    · intro e he
      rw [List.mem_singleton.mp he]
      exact fun _ => nofun
    · rfl
  · constructor
    · intro e he
      rcases List.mem_cons.mp he with rfl | he
      · exact fun _ => nofun
      · exact hmoved.trace e he
    · exact hmoved.file

/-- The access leaves byte `a` of the storage as it is. -/
def Access.Spares (a : ℕ) : Access → Prop
  | .store start n => a < start ∨ start + n ≤ a
  | _ => True

section
variable {a : ℕ}

theorem move_spared {write : Bool} {addr : UInt64} {start n : ℕ} {storage : ℕ → UInt8}
    {memory : Memory}
    (h : ∀ e ∈ (move write addr start n storage memory).trace, e.Spares a) :
    (move write addr start n storage memory).storage a = storage a := by
  cases write with
  | false => rfl
  | true =>
    have hspares : a < start ∨ start + n ≤ a := h (.store start n) List.mem_cons_self
    exact overwrite_of_notMem storage (fun i => memory (addr.toNat + i)) hspares

theorem sglLoop_spared (write : Bool) (dma offset length : UInt64) (n : ℕ) :
    ∀ (index transferred : UInt64) (storage : ℕ → UInt8) (memory : Memory),
      (∀ e ∈ (sglLoop write dma offset length n index transferred storage memory).trace,
        e.Spares a) →
      (sglLoop write dma offset length n index transferred storage memory).storage a
        = storage a := by
  induction n with
  | zero =>
    intro index transferred storage memory _
    rfl
  | succ n ih =>
    intro index transferred storage memory h
    rw [sglLoop] at h ⊢
    dsimp only at h ⊢
    split_ifs at h ⊢
    · rfl
    · rfl
    · have hmove := move_spared fun e he =>
        h e (List.mem_cons_of_mem _ (List.mem_append_left _ he))
      have hrest := ih _ _ _ _ fun e he =>
        h e (List.mem_cons_of_mem _ (List.mem_append_right _ he))
      exact hrest.trans hmove

theorem openflashTransfer_spared {cmd : OpenFlashCommand} {offset length : UInt64} {write : Bool}
    {storage : ℕ → UInt8} {memory : Memory}
    (h : ∀ e ∈ (openflashTransfer cmd offset length write storage memory).trace, e.Spares a) :
    (openflashTransfer cmd offset length write storage memory).storage a = storage a := by
  unfold openflashTransfer at h ⊢
  dsimp only at h ⊢
  split_ifs at h ⊢
  · rfl
  · exact move_spared h
  · rfl
  · exact sglLoop_spared _ _ _ _ _ _ _ _ _ h

theorem openflashPersist_storage (fileOk : Bool) (s : OpenFlashState) :
    (openflashPersist fileOk s).2.1.storage = s.storage := by
  unfold openflashPersist
  cases s.backingFile with
  | none => rfl
  | some path => cases fileOk <;> rfl

theorem executeWrite_spared {fileOk : Bool} {cmd : OpenFlashCommand} {offset length : UInt64}
    {memory : Memory} {s : OpenFlashState}
    (h : ∀ e ∈ (executeWrite fileOk cmd offset length memory s).trace, e.Spares a) :
    (executeWrite fileOk cmd offset length memory s).state.storage a = s.storage a := by
  unfold executeWrite at h ⊢
  dsimp only at h ⊢
  by_cases hok : (openflashTransfer cmd offset length true s.storage memory).ok = false
  · rw [if_pos hok] at h ⊢
    exact openflashTransfer_spared h
  · rw [if_neg hok] at h ⊢
    by_cases hfua : cmd.flags &&& cmdFua = 0
    · rw [if_pos hfua] at h ⊢
      exact openflashTransfer_spared h
    · rw [if_neg hfua] at h ⊢
      dsimp only at h ⊢
      rw [openflashPersist_storage]
      exact openflashTransfer_spared fun e he => h e (List.mem_append_left _ he)

theorem executeRanged_spared {fileOk : Bool} {cmd : OpenFlashCommand} {offset length : UInt64}
    {memory : Memory} {s : OpenFlashState}
    (h : ∀ e ∈ (executeRanged fileOk cmd offset length memory s).trace, e.Spares a) :
    (executeRanged fileOk cmd offset length memory s).state.storage a = s.storage a := by
  unfold executeRanged at h ⊢
  split_ifs at h ⊢
  · exact openflashTransfer_spared h
  · exact executeWrite_spared h
  · have hspares : a < offset.toNat ∨ offset.toNat + length.toNat ≤ a :=
      h (.store offset.toNat length.toNat) List.mem_cons_self
    exact overwrite_of_notMem s.storage (fun _ => 0) hspares
  · rfl

/-- Bytes that no access of a command stores to keep their value. -/
theorem openflashExecute_spared {fileOk : Bool} {cmd : OpenFlashCommand} {memory : Memory}
    {s : OpenFlashState}
    (h : ∀ e ∈ (openflashExecute fileOk cmd memory s).trace, e.Spares a) :
    (openflashExecute fileOk cmd memory s).state.storage a = s.storage a := by
  unfold openflashExecute at h ⊢
  dsimp only at h ⊢
  split_ifs at h ⊢
  · rfl
  · unfold executeCreateIoq
    split_ifs <;> rfl
  · rw [executeFlush, openflashPersist_storage]
  · rfl
  · rfl
  · rfl
  · exact executeRanged_spared fun e he => h e (List.mem_cons_of_mem _ he)

end

theorem openflashExecute_backingFile (fileOk : Bool) (cmd : OpenFlashCommand) (memory : Memory)
    (s : OpenFlashState) :
    (openflashExecute fileOk cmd memory s).state.backingFile = s.backingFile := by
  rcases openflashExecute_control fileOk cmd memory s with ⟨-, heq⟩ | ⟨-, hsame⟩
  · rw [heq]
    rfl
  · exact hsame.backingFile

/-- With a working backing file a flush copies the storage out and does nothing else. -/
theorem openflashExecute_flush {cmd : OpenFlashCommand} (hop : cmd.opcode = opFlush)
    (memory : Memory) {s : OpenFlashState} (hfile : s.backingFile ≠ none) :
    openflashExecute true cmd memory s
      = ⟨.success, 0, { s with file := some ⟨s.capacity.toNat, s.storage⟩ }, memory,
          [.persist s.capacity.toNat]⟩ := by
  simp only [openflashExecute_eq_flush hop, executeFlush, openflashPersist_ok hfile, if_true]

/-- A command that the device has executed, with the memory it found and what became of a
write of the backing file. -/
structure Execution where
  fileOk : Bool
  cmd : OpenFlashCommand
  memory : Memory

namespace Execution

def outcome (e : Execution) (s : OpenFlashState) : Outcome :=
  openflashExecute e.fileOk e.cmd e.memory s

def after (s : OpenFlashState) (e : Execution) : OpenFlashState := (e.outcome s).state

/-- No access of the command stores to byte `a`. -/
def Spares (a : ℕ) (s : OpenFlashState) (e : Execution) : Prop :=
  ∀ access ∈ (e.outcome s).trace, access.Spares a

theorem foldl_backingFile (s : OpenFlashState) (history : List Execution) :
    (history.foldl after s).backingFile = s.backingFile := by
  induction history generalizing s with
  | nil => rfl
  | cons e rest ih => exact (ih _).trans (openflashExecute_backingFile _ _ _ _)

theorem foldl_spared {a : ℕ} {s : OpenFlashState} {history : List Execution}
    (h : Along after (Spares a) s history) :
    (history.foldl after s).storage a = s.storage a := by
  induction history generalizing s with
  | nil => rfl
  | cons e rest ih => exact (ih h.2).trans (openflashExecute_spared h.1)

end Execution
end OpenFlash.Qemu
