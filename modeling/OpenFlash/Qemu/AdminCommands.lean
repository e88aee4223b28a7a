import OpenFlash.Qemu.Machine

/-! Commands on the admin queue of the device: what they leave alone, and the doorbell that
announces a single one. -/
namespace OpenFlash.Qemu
open Abi Support

theorem updateQueue_comm (s : OpenFlashState) {qid other : Fin maxQueues} (q q' : OpenFlashQueue)
    (h : qid ≠ other) :
    updateQueue (updateQueue s qid q) other q' = updateQueue (updateQueue s other q') qid q := by
  simp only [updateQueue, Function.update_comm h]

theorem updateQueue_idem (s : OpenFlashState) (qid : Fin maxQueues) (q q' : OpenFlashQueue) :
    updateQueue (updateQueue s qid q) qid q' = updateQueue s qid q' := by
  simp only [updateQueue, Function.update_idem]

theorem updateQueue_same (s : OpenFlashState) (qid : Fin maxQueues) :
    updateQueue s qid (s.queues qid) = s := by
  simp only [updateQueue, Function.update_eq_self]

theorem openflashPersist_updateQueue (fileOk : Bool) (s : OpenFlashState) (qid : Fin maxQueues)
    (q : OpenFlashQueue) :
    openflashPersist fileOk (updateQueue s qid q)
      = ((openflashPersist fileOk s).1, updateQueue (openflashPersist fileOk s).2.1 qid q,
        (openflashPersist fileOk s).2.2) := by
  simp only [openflashPersist, show (updateQueue s qid q).backingFile = s.backingFile from rfl]
  cases s.backingFile with
  | none => rfl
  | some path => cases fileOk <;> rfl

theorem executeWrite_updateQueue (fileOk : Bool) (cmd : OpenFlashCommand)
    (offset length : UInt64) (memory : Memory) (s : OpenFlashState) (qid : Fin maxQueues)
    (q : OpenFlashQueue) :
    executeWrite fileOk cmd offset length memory (updateQueue s qid q)
      = { executeWrite fileOk cmd offset length memory s with
          state := updateQueue (executeWrite fileOk cmd offset length memory s).state qid q } := by
  unfold executeWrite
  dsimp only [updateQueue]
  generalize openflashTransfer cmd offset length true s.storage memory = t
  have hpersist := openflashPersist_updateQueue fileOk { s with storage := t.storage } qid q
  unfold updateQueue at hpersist
  dsimp only at hpersist
  rw [hpersist]
  split_ifs <;> rfl

/-- A command takes no notice of the admin queue. -/
theorem openflashExecute_updateAdmin (fileOk : Bool) (cmd : OpenFlashCommand) (memory : Memory)
    (s : OpenFlashState) (q : OpenFlashQueue) :
    openflashExecute fileOk cmd memory (updateQueue s 0 q)
      = { openflashExecute fileOk cmd memory s with
          state := updateQueue (openflashExecute fileOk cmd memory s).state 0 q } := by
  unfold openflashExecute
  dsimp only
  by_cases hid : cmd.opcode = adminIdentify
  · rw [if_pos hid, if_pos hid]
    rfl
  rw [if_neg hid, if_neg hid]
  by_cases hcreate : cmd.opcode = adminCreateIoq
  · rw [if_pos hcreate, if_pos hcreate]
    unfold executeCreateIoq
    by_cases haccepted : createIoqAccepted cmd
    · rw [if_pos haccepted, if_pos haccepted]
      have hqid : (0 : Fin maxQueues) ≠ Fin.ofNat maxQueues (createdQid cmd) := by
        intro heq
        have hval : (0 : ℕ) = createdQid cmd % maxQueues := congrArg Fin.val heq
        rw [Nat.mod_eq_of_lt haccepted.2.1] at hval
        exact haccepted.1 hval.symm
      rw [updateQueue_comm s q _ hqid]
    · rw [if_neg haccepted, if_neg haccepted]
  rw [if_neg hcreate, if_neg hcreate]
  by_cases hflush : cmd.opcode = opFlush
  · rw [if_pos hflush, if_pos hflush]
    simp only [executeFlush, openflashPersist_updateQueue]
  rw [if_neg hflush, if_neg hflush]
  show (if cmd.nblocks = 0 then _ else if s.capacity < _ then _ else
    if s.capacity - _ < _ then _ else _) = _
  split_ifs
  · rfl
  · rfl
  · rfl
  · unfold executeRanged
    split_ifs
    · rfl
    · rw [executeWrite_updateQueue]
      rfl
    · rfl
    · rfl

theorem openflashExecute_adminQueue (fileOk : Bool) (cmd : OpenFlashCommand) (memory : Memory)
    (s : OpenFlashState) :
    (openflashExecute fileOk cmd memory s).state.queues 0 = s.queues 0 := by
  have h := openflashExecute_updateAdmin fileOk cmd memory s (s.queues 0)
  rw [updateQueue_same] at h
  rw [h]
  exact updateQueue_self ..

theorem openflashExecute_status (fileOk : Bool) (cmd : OpenFlashCommand) (memory : Memory)
    (s : OpenFlashState) : (openflashExecute fileOk cmd memory s).state.status = s.status := by
  rcases openflashExecute_control fileOk cmd memory s with ⟨-, heq⟩ | ⟨-, hsame⟩
  · rw [heq]
    rfl
  · exact hsame.status

theorem openflashMmioWrite_adminDoorbell {s : OpenFlashState} {tail : ℕ}
    (htail : tail < 2 ^ 16) (h : doorbellAccepted s 0 tail) :
    openflashMmioWrite 0x1000 (.ofNat tail) s = (s, some (0, tail)) := by
  have hnat : (UInt64.ofNat tail).toNat % 2 ^ 16 = tail := by
    rw [UInt64.toNat_ofNat', Nat.mod_mod_of_dvd _ (by decide), Nat.mod_eq_of_lt htail]
  show writeDoorbell 0x1000 (.ofNat tail) s = _
  unfold writeDoorbell
  dsimp only
  rw [if_pos (by decide), if_pos (by decide), hnat]
  exact Prod.ext rfl (if_pos h)

theorem openflashMmioWrite_adminHead {s : OpenFlashState} {head : ℕ} (hlt : head < 2 ^ 16)
    (h : head < (s.queues 0).depth) :
    openflashMmioWrite 0x1004 (.ofNat head) s
      = (updateQueue s 0 { s.queues 0 with cqHead := head }, none) := by
  have hnat : (UInt64.ofNat head).toNat = head := by
    rw [UInt64.toNat_ofNat', Nat.mod_eq_of_lt (by omega)]
  show writeDoorbell 0x1004 (.ofNat head) s = _
  unfold writeDoorbell
  dsimp only
  rw [if_pos (by decide), if_neg (by decide), hnat, Nat.mod_eq_of_lt hlt]
  exact if_pos h

/-- The command moves no data between guest memory and the storage. -/
def Dataless (cmd : OpenFlashCommand) : Prop := cmd.opcode ≠ opRead ∧ cmd.opcode ≠ opWrite

instance (cmd : OpenFlashCommand) : Decidable (Dataless cmd) := inferInstanceAs (Decidable (_ ∧ _))

/-- Without data, guest memory makes no difference and stays as it is. -/
theorem openflashExecute_dataless {cmd : OpenFlashCommand} (h : Dataless cmd) (fileOk : Bool)
    (memory memory' : Memory) (s : OpenFlashState) :
    openflashExecute fileOk cmd memory s
      = { openflashExecute fileOk cmd memory' s with memory := memory } := by
  have hranged : ∀ memory offset length, executeRanged fileOk cmd offset length memory s
      = if cmd.opcode = opDiscard then executeDiscard cmd offset length memory s
        else ⟨.invalidOpcode, 0, s, memory, []⟩ := by
    intro memory offset length
    rw [executeRanged, if_neg h.1, if_neg h.2]
  simp only [openflashExecute, executeCreateIoq, hranged]
  split_ifs <;> rfl

namespace Machine

theorem run_iterate_idle {m : Machine} (h : m.loop = none) (fileOk : Bool) (k : ℕ) :
    m.run (List.replicate k (.iterate fileOk)) = m := by
  induction k with
  | zero => rfl
  | succ k ih =>
    have hstep : m.step (.iterate fileOk) = m := by
      rw [step, iterate, h]
    rw [List.replicate_succ, run, List.foldl_cons, hstep]
    exact ih

/-- A doorbell for one new command: the loop runs its body once and ends. -/
theorem run_doorbell_one {m : Machine} {tail : ℕ} (hidle : m.loop = none)
    (htail : tail < 2 ^ 16) (haccepted : doorbellAccepted m.device 0 tail)
    (hnew : (m.device.queues 0).sqHead ≠ tail) (fileOk : Bool)
    (hlast : ((processSq fileOk 0 m.memory m.device).device.queues 0).sqHead = tail) {fuel : ℕ}
    (hfuel : 2 ≤ fuel) :
    m.run (.mmioWrite 0x1000 (.ofNat tail) :: List.replicate fuel (.iterate fileOk))
      = { device := (processSq fileOk 0 m.memory m.device).device
          memory := (processSq fileOk 0 m.memory m.device).memory
          loop := none
          trace := m.trace ++ (processSq fileOk 0 m.memory m.device).trace } := by
  obtain ⟨k, rfl⟩ : ∃ k, fuel = k + 2 := ⟨fuel - 2, by omega⟩
  have hring : m.step (.mmioWrite 0x1000 (.ofNat tail)) = { m with loop := some (0, tail) } := by
    rw [step, mmioWrite, hidle, openflashMmioWrite_adminDoorbell htail haccepted]
  rw [List.replicate_succ, List.replicate_succ, run, List.foldl_cons, List.foldl_cons,
    List.foldl_cons, hring]
  simp only [step, iterate, if_neg hnew, if_pos hlast]
  exact run_iterate_idle rfl fileOk k

end Machine
end OpenFlash.Qemu
