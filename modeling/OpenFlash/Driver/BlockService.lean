import OpenFlash.Driver.Protocol
import OpenFlash.Driver.Translation
import OpenFlash.Support.Simulation

/-! Driver, rings and controller as one block device. It takes requests, serves them in the
order of their submission and ends them in the same order; the bytes of a request move when it
is served. -/
namespace OpenFlash.Driver
open Abi Support Support.Ring

/-- The block device that the disk stands for: its contents, the image that outlives a power
cut, the requests not yet served and the ones served but not yet ended. -/
structure BlockDevice where
  contents : ℕ → UInt8
  stable : Option (ℕ → UInt8)
  backed : Bool
  waiting : List Request
  answered : List (Request × BlkStatus)

inductive BlockEvent where
  | submitted (rq : Request) (status : BlkStatus)
  | served (rq : Request) (before after : Memory)
  | ended (rq : Request) (status : BlkStatus)

/-- What serving a request does to contents, image and guest memory, and its status. Only a
flush reaches the image. -/
inductive Effect (rq : Request) (b : BlockDevice) (memory : Memory) :
    (ℕ → UInt8) → Option (ℕ → UInt8) → Memory → BlkStatus → Prop
  | read {after : Memory} (hop : rq.op = .read)
      (hdata : rq.data after = readBytes b.contents (512 * rq.pos.toNat) rq.bytes.toNat)
      (hframe : ∀ a, Qemu.Outside rq.descs a → after a = memory a) :
      Effect rq b memory b.contents b.stable after .ok
  | write {contents : ℕ → UInt8} (hop : rq.op = .write)
      (hdata : readBytes contents (512 * rq.pos.toNat) rq.bytes.toNat = rq.data memory)
      (hframe : ∀ a, a < 512 * rq.pos.toNat ∨ 512 * rq.pos.toNat + rq.bytes.toNat ≤ a →
        contents a = b.contents a) :
      Effect rq b memory contents b.stable memory .ok
  | discard (hop : rq.op = .discard) :
      Effect rq b memory
        (overwrite b.contents (512 * rq.pos.toNat) rq.bytes.toNat fun _ => 0) b.stable memory .ok
  | flush (hop : rq.op = .flush) :
      Effect rq b memory b.contents (if b.backed then some b.contents else b.stable) memory .ok
  | flushFails (hop : rq.op = .flush) (hbacked : b.backed = true) :
      Effect rq b memory b.contents b.stable memory .ioErr

def BlockDevice.Allows (b : BlockDevice) : BlockEvent → BlockDevice → Prop
  | .submitted rq status, b' =>
      b' = if status = .ok then { b with waiting := b.waiting ++ [rq] } else b
  | .served rq before after, b' => ∃ rest contents stable status,
      b.waiting = rq :: rest ∧ Effect rq b before contents stable after status ∧
      b' = { b with
        contents := contents
        stable := stable
        waiting := rest
        answered := b.answered ++ [(rq, status)] }
  | .ended rq status, b' => ∃ rest, b.answered = (rq, status) :: rest ∧
      b' = { b with answered := rest }

/-- The event leaves `n` bytes of the contents from `lo` on as they are. -/
def BlockEvent.Spares (lo n : ℕ) : BlockEvent → Prop
  | .served rq _ _ => rq.op = .write ∨ rq.op = .discard →
      512 * rq.pos.toNat + rq.bytes.toNat ≤ lo ∨ lo + n ≤ 512 * rq.pos.toNat
  | _ => True

theorem BlockDevice.Allows.loads {b b' : BlockDevice} {rq : Request} {before after : Memory}
    (h : b.Allows (.served rq before after) b') (hop : rq.op = .read) :
    rq.data after = readBytes b.contents (512 * rq.pos.toNat) rq.bytes.toNat := by
  obtain ⟨rest, contents, stable, status, -, heffect, rfl⟩ := h
  cases heffect with
  | read _ hdata _ => exact hdata
  | write hop' | discard hop' | flush hop' | flushFails hop' =>
    rw [hop] at hop'
    cases hop'

/-- What the block layer keeps to: ranges inside the disk, no empty discard, and segments that
are mapped apart from one another and from the table of the tag. -/
structure WellFormed (rq : Request) (sglDma capacity : UInt64) : Prop where
  inside : rq.op ≠ .flush →
    rq.pos.toNat + rq.bytes.toNat / 512 ≤ capacity.toNat / 4096 * 8
  nonempty : rq.op = .discard → rq.bytes ≠ 0
  mapped : rq.op = .read ∨ rq.op = .write → WellMapped rq sglDma

namespace Transport

/-- What a step shows to the outside. -/
def event (t : Transport) : Action → Option BlockEvent
  | .submit rq =>
      if t.Enabled (.submit rq) then
        some (.submitted rq (openflashQueueRq t.capabilities rq t.driver).status)
      else none
  | .iterate fileOk memory =>
      match t.loop with
      | none => none
      | some tail =>
          if (t.device.queues 1).sqHead = tail then none
          else t.accepted[t.executed.length]?.map fun a =>
            .served a.1 memory (Qemu.openflashExecute fileOk
              (t.driver.sqCmds (t.device.queues 1).sqHead) memory t.device).memory
  | .endRequest =>
      if t.Enabled .endRequest then
        (endRequest t.driver).2.1.map fun ended => .ended ended.1 ended.2
      else none
  | _ => none

/-- The block layer offers free tags and well-formed requests. When the device fetches a
command, guest memory has the command and the table that the driver wrote for it. -/
def Contract (t : Transport) : Action → Prop
  | .submit rq => (t.driver.requests rq.tag).rq = none ∧
      WellFormed rq (t.driver.requests rq.tag).sglDma t.device.capacity
  | .iterate _ memory => ∀ a, t.accepted[t.executed.length]? = some a →
      Published memory (t.device.queues 1).sqSlotAddr a.2 (t.driver.requests a.1.tag).sglDma
        (t.driver.requests a.1.tag).sgl (mappedOf a.1)
  | _ => True

/-- The request was accepted with the queue `q`, and its table is still as that call left it. -/
structure Submitted (t : Transport) (rq : Request) (cmd : OpenFlashCommand) (q : OpenflashQueue) :
    Prop where
  accepted : (openflashQueueRq t.capabilities rq q).status = .ok
  command : cmd = (openflashQueueRq t.capabilities rq q).queue.sqCmds q.sqTail
  sglDma : (t.driver.requests rq.tag).sglDma = (q.requests rq.tag).sglDma
  sgl : (t.driver.requests rq.tag).sgl
    = ((openflashQueueRq t.capabilities rq q).queue.requests rq.tag).sgl
  wellFormed : WellFormed rq (q.requests rq.tag).sglDma t.device.capacity

end Transport

/-- Position and size of an accepted request are whole blocks, and its operation is known. -/
theorem openflashQueueRq_aligned {capabilities : UInt64} {rq : Request} {q : OpenflashQueue}
    (h : (openflashQueueRq capabilities rq q).status = .ok) :
    (rq.pos % 8 = 0 ∧ rq.bytes % 4096 = 0) ∧ rq.op ≠ .other := by
  unfold openflashQueueRq at h
  dsimp only at h
  split_ifs at h with hbad hfua
  · cases h
  · cases h
  · simp only [not_or, not_not] at hbad
    refine ⟨⟨hbad.1, hbad.2.1⟩, fun hother => ?_⟩
    rw [hother] at h
    cases h

theorem fillCommand_range (rq : Request) (opcode : UInt8) (mapped : ℕ) (sglDma : UInt64)
    (q : OpenflashQueue) :
    (fillCommand rq opcode mapped sglDma q).lba = rq.pos / 8 ∧
      (fillCommand rq opcode mapped sglDma q).nblocks = rq.bytes / 4096 := by
  unfold fillCommand
  split_ifs <;> exact ⟨rfl, rfl⟩

namespace Transport
variable {d : ℕ} {t : Transport} {rq : Request} {cmd : OpenFlashCommand} {q : OpenflashQueue}

theorem Submitted.congr {t' : Transport} (h : Submitted t rq cmd q)
    (hcapabilities : t'.capabilities = t.capabilities)
    (hsglDma : (t'.driver.requests rq.tag).sglDma = (t.driver.requests rq.tag).sglDma)
    (hsgl : (t'.driver.requests rq.tag).sgl = (t.driver.requests rq.tag).sgl)
    (hcapacity : t'.device.capacity = t.device.capacity) : Submitted t' rq cmd q := by
  constructor
  · rw [hcapabilities]
    exact h.accepted
  · rw [hcapabilities]
    exact h.command
  · rw [hsglDma]
    exact h.sglDma
  · rw [hsgl, hcapabilities]
    exact h.sgl
  · rw [hcapacity]
    exact h.wellFormed

theorem Submitted.command_eq (h : Submitted t rq cmd q) :
    cmd = fillCommand rq (opcodeOf rq.op) (mappedOf rq) (q.requests rq.tag).sglDma q := by
  rw [h.command]
  exact openflashQueueRq_command h.accepted

theorem Submitted.opcode (h : Submitted t rq cmd q) : cmd.opcode = opcodeOf rq.op := by
  rw [h.command_eq]
  exact fillCommand_opcode ..

/-- The range of the command lies inside the device and is the one of the request. -/
theorem Submitted.range (h : Submitted t rq cmd q) (hflush : rq.op ≠ .flush) :
    (cmd.lba * Qemu.ofBlockSize).toNat = 512 * rq.pos.toNat ∧
      (cmd.nblocks.toUInt64 * Qemu.ofBlockSize).toNat = rq.bytes.toNat ∧
      cmd.lba.toNat % 2 ^ 52 + cmd.nblocks.toNat ≤ t.device.capacity.toNat / 4096 ∧
      cmd.nblocks.toNat = rq.bytes.toNat / 4096 := by
  have haligned := (openflashQueueRq_aligned h.accepted).1
  have hinside := h.wellFormed.inside hflush
  have hbound := t.device.capacity.toNat_lt
  have hbytes := toNat_mod_of_aligned haligned.2
  obtain ⟨hlba, hnblocks⟩ := fillCommand_range rq (opcodeOf rq.op) (mappedOf rq)
    (q.requests rq.tag).sglDma q
  rw [← h.command_eq] at hlba hnblocks
  have hencodes : Encodes rq 0 { cmd with
      flags := Qemu.cmdSgl, control := .ofNat rq.segments.length, dataAddr := 0 } :=
    ⟨h.opcode, hlba, hnblocks, rfl, rfl, rfl⟩
  obtain ⟨hoffset, hlength, hsum, hcount⟩ := hencodes.range haligned (by omega)
  refine ⟨hoffset, hlength, ?_, hcount⟩
  show cmd.lba.toNat % 2 ^ 52 + cmd.nblocks.toNat ≤ _
  change cmd.lba.toNat % 2 ^ 52 + cmd.nblocks.toNat = _ at hsum
  omega

section
variable {memory : Memory} {slot : ℕ} {b : BlockDevice}

/-- The descriptors of an accepted read or write are laid out for the device. -/
theorem Submitted.prepared (h : Submitted t rq cmd q) (hop : rq.op = .read ∨ rq.op = .write)
    (hpublished : Published memory slot cmd (t.driver.requests rq.tag).sglDma
      (t.driver.requests rq.tag).sgl (mappedOf rq)) :
    Prepared rq memory t.device cmd (cmd.lba * Qemu.ofBlockSize)
        (cmd.nblocks.toUInt64 * Qemu.ofBlockSize) ∧
      ∀ desc ∈ rq.descs, Qemu.ClearOf cmd.dataAddr desc.addr.toNat desc.length.toNat 0
        rq.descs.length := by
  have hmapped := h.wellFormed.mapped hop
  have hcount : mappedOf rq = rq.segments.length := if_pos hop
  have hencodes := fillCommand_encodes hop (accepted_segments_ne hop h.accepted hmapped)
    (q.requests rq.tag).sglDma q
  rw [← h.command_eq] at hencodes
  rw [h.sglDma, h.sgl, hcount] at hpublished
  have hflush : rq.op ≠ .flush := by
    rcases hop with hop | hop <;> rw [hop] <;> decide
  have hinside := h.wellFormed.inside hflush
  have hbound := t.device.capacity.toNat_lt
  have hmod := toNat_mod_of_aligned (openflashQueueRq_aligned h.accepted).1.2
  refine ⟨accepted_prepared hop h.accepted hmapped hencodes hpublished (by omega) t.device, ?_⟩
  intro desc hdesc
  apply Qemu.clearOf_of_forall
  intro i hi
  rw [UInt64.zero_add, hencodes.dataAddr]
  have hcomplete := (openflashQueueRq_translates hop h.accepted).complete
  exact hmapped.clear desc hdesc i (by rwa [← hcomplete])

end

end Transport
end OpenFlash.Driver
