import OpenFlash.Driver.Submission
import OpenFlash.Qemu.Persistence

/-! Forced unit access from the block layer to the backing file. The driver hands the
segments of a write over in an SGL, and the flag byte that announces the SGL replaces
the one that asks for durability. -/
namespace OpenFlash.Driver
open Abi Support

/-- The bytes of a request's segments, one after the other. -/
def Request.data (memory : Memory) (rq : Request) : List UInt8 :=
  rq.segments.flatMap fun bvec =>
    match bvec.mapping with
    | none => []
    | some dma => readBytes memory dma.toNat bvec.length.toNat

/-- What a completed write with forced unit access promises: the command asks for it, the
device copied the image out after the transfer, and the file has the request's data. -/
structure FuaDurable (rq : Request) (memory : Memory) (cmd : OpenFlashCommand)
    (r : Qemu.Outcome) : Prop where
  requested : cmd.flags &&& Qemu.cmdFua ≠ 0
  persisted : ∃ moved n, r.trace = moved ++ [.persist n]
  stored : ∃ image, r.state.file = some image ∧
    ∀ i b, (rq.data memory)[i]? = some b → image.bytes (rq.pos.toNat * 512 + i) = b

/-- The command that a successful call leaves in the slot it took. -/
theorem openflashQueueRq_command {capabilities : UInt64} {rq : Request} {q : OpenflashQueue}
    (h : (openflashQueueRq capabilities rq q).status = .ok) :
    (openflashQueueRq capabilities rq q).queue.sqCmds q.sqTail
      = fillCommand rq (opcodeOf rq.op) (mappedOf rq) (q.requests rq.tag).sglDma q := by
  rcases openflashQueueRq_submits capabilities rq q with ⟨hne, -, -⟩ | ⟨-, -, ha⟩
  · exact absurd h hne
  · rw [ha.sqCmds, Function.update_self]

/-- No write with segments that the driver accepts keeps the promise: its command does not
ask for durability, and the device executes it without touching the backing file. -/
theorem fuaWrite_never_durable (capabilities : UInt64) (rq : Request) (q : OpenflashQueue)
    (hop : rq.op = .write) (hsegments : rq.segments ≠ [])
    (haccepted : (openflashQueueRq capabilities rq q).status = .ok)
    (fileOk : Bool) (memory : Memory) (s : Qemu.OpenFlashState) :
    let cmd := (openflashQueueRq capabilities rq q).queue.sqCmds q.sqTail
    let r := Qemu.openflashExecute fileOk cmd memory s
    ¬ FuaDurable rq memory cmd r ∧ cmd.flags &&& Qemu.cmdFua = 0 ∧
      (∀ e ∈ r.trace, e.Transferred) ∧ r.state.file = s.file := by
  intro cmd r
  have hcmd : cmd = fillCommand rq opWrite (mappedOf rq) (q.requests rq.tag).sglDma q := by
    have h := openflashQueueRq_command haccepted
    rw [hop] at h
    exact h
  have hmapped : mappedOf rq ≠ 0 := by
    rw [mappedOf, if_pos (Or.inr hop)]
    exact fun h => hsegments (List.length_eq_zero_iff.mp h)
  have hopcode : cmd.opcode = Qemu.opWrite := by
    rw [hcmd, fillCommand_opcode]
    rfl
  have hflags : cmd.flags &&& Qemu.cmdFua = 0 := by
    rw [hcmd, fillCommand_flags rq opWrite _ q hmapped]
    rfl
  have hrun := Qemu.openflashExecute_unforced fileOk memory s hopcode hflags
  exact ⟨fun h => h.requested hflags, hflags, hrun.trace, hrun.file⟩

/-- A write of one block with forced unit access. -/
def fuaWrite : Request :=
  { tag := 0, op := .write, fua := true, bytes := 4096, nrPhysSegments := 1
    segments := [⟨4096, some 0x2000⟩] }

def idleQueue : OpenflashQueue := openflashSetupIoQueue 2 fun _ => 0x1000

/-- Guest memory with the SGL table the driver filled and sevens for the data. -/
def fuaMemory : Memory := fun a =>
  if a < 0x2000 then placed 0x1000 (OpenFlashSglDesc.bytes ⟨0x2000, 4096⟩) a else 7

/-- A device of one block whose backing file was never written. -/
def fuaDevice : Qemu.OpenFlashState :=
  Qemu.realizedOn 4096 (some "disk") none (fun _ => 0) Qemu.ofBlockSize_valid

theorem fuaWrite_idleQueue_not_durable :
    fuaWrite.op = .write ∧ fuaWrite.segments ≠ [] ∧
      (openflashQueueRq capFua fuaWrite idleQueue).status = .ok ∧
      ¬ FuaDurable fuaWrite fuaMemory
        ((openflashQueueRq capFua fuaWrite idleQueue).queue.sqCmds idleQueue.sqTail)
        (Qemu.openflashExecute true
          ((openflashQueueRq capFua fuaWrite idleQueue).queue.sqCmds idleQueue.sqTail)
          fuaMemory fuaDevice) :=
  ⟨rfl, nofun, by decide, (fuaWrite_never_durable capFua fuaWrite idleQueue rfl nofun
    (by decide) true fuaMemory fuaDevice).1⟩

/-- The device reports success and has the data in its image, but there is no file. -/
theorem fuaWrite_lost :
    let submitted := openflashQueueRq capFua fuaWrite idleQueue
    let r := Qemu.openflashExecute true (submitted.queue.sqCmds idleQueue.sqTail)
      fuaMemory fuaDevice
    submitted.status = .ok ∧ fuaDevice.backingFile = some "disk" ∧ r.status = .success ∧
      r.state.storage 0 = 7 ∧ r.state.file.isNone = true ∧
      ¬ FuaDurable fuaWrite fuaMemory (submitted.queue.sqCmds idleQueue.sqTail) r := by
  refine ⟨by decide, rfl, by decide, by decide, by decide, fun h => ?_⟩
  exact h.requested (by decide)

end OpenFlash.Driver
