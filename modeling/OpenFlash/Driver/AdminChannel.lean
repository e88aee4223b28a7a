import OpenFlash.Driver.DrainLoops
import OpenFlash.Driver.Reset
import OpenFlash.Qemu.AdminCommands
import OpenFlash.Qemu.GuestRings

/-! The admin queue as a remote call: `openflash_admin_command` writes a command to a ring in
guest memory, the device runs its loop, and the interrupt finds the completion. -/
namespace OpenFlash.Driver
open Abi Support Support.Ring

/-- A round that finds the completion of the pending command. -/
theorem AdminQueue.round_own {q : AdminQueue} (hpending : q.adminPending = true)
    (hcid : q.head.cid = q.adminCid) :
    q.round = AdminQueue.advanceHead
      { q with
        adminStatus := q.head.status
        adminResult := q.head.result
        adminError := none
        adminPending := false
        adminDone := true } := by
  unfold AdminQueue.round AdminQueue.record
  rw [if_pos hpending, if_pos hcid]

/-- The rings of the driver in guest memory; those of the admin queue lie apart, inside the
address space. -/
structure AdminRings where
  dma : DmaRings
  depth : ℕ
  depth_valid : 2 ≤ depth ∧ depth ≤ Qemu.maxQueueDepth
  sq_fits : dma.adminSq.toNat + 64 * depth ≤ 2 ^ 64
  cq_fits : dma.adminCq.toNat + 64 * depth ≤ 2 ^ 64
  rings_apart : Apart dma.adminSq.toNat (64 * depth) dma.adminCq.toNat (64 * depth)

namespace AdminRings

/-- The completion in a slot, as the driver reads it. -/
@[irreducible] def cqe (rings : AdminRings) (memory : Memory) (slot : ℕ) : OpenFlashCompletion :=
  .read memory (rings.dma.adminCq.toNat + 64 * slot)

def phaseAt (rings : AdminRings) (memory : Memory) (slot : ℕ) : ℕ :=
  (rings.cqe memory slot).flags.toNat &&& 1

end AdminRings

/-- The admin queue of the driver and the machine it talks to. `cqes` of the queue is what was
read last; the ring itself is in guest memory. -/
structure AdminLink where
  queue : AdminQueue
  machine : Qemu.Machine
  msixEnabled : Bool

namespace AdminLink

/-- The queue with the completion ring as it is in guest memory. -/
def view (rings : AdminRings) (l : AdminLink) : AdminQueue :=
  { l.queue with cqes := rings.cqe l.machine.memory }

/-- Vector zero: drain the ring and write the new head to the doorbell. -/
def openflashIrq (rings : AdminRings) (fuel : ℕ) (l : AdminLink) :
    Option (IrqReturn × AdminLink) :=
  if l.machine.device.status &&& Qemu.statusReady = 0 then some (.none, l)
  else
    (openflashDrainAdminCq fuel (l.view rings)).map fun drain =>
      (if drain.completed = 0 then .none else .handled,
        { l with
          queue := drain.queue
          machine :=
            match drain.doorbell with
            | none => l.machine
            | some head => l.machine.step (.mmioWrite 0x1004 (.ofNat head)) })

/-- The store of the command and of everything the interrupt needs, up to the new tail. -/
def prepare (rings : AdminRings) (cmd : OpenFlashCommand) (l : AdminLink) : AdminLink :=
  let cid := freshCid l.queue.nextCid
  { l with
    queue :=
      { l.queue with
        nextCid := cid
        adminDone := false
        adminCid := cid
        adminError := none
        adminPending := true
        sqTail := (l.queue.sqTail + 1) % l.queue.depth }
    machine := l.machine.step (.guest (writeSlot l.machine.memory rings.dma.adminSq.toNat 64
      l.queue.sqTail { cmd with qid := 0, cid := cid }.bytes)) }

/-- The doorbell write, the loop it enters and whether the device notifies vector zero. -/
def ringDoorbell (fuel : ℕ) (fileOk : Bool) (l : AdminLink) : Option (Bool × AdminLink) :=
  let value := UInt64.ofNat l.queue.sqTail
  let machine :=
    l.machine.run (.mmioWrite 0x1000 value :: List.replicate fuel (.iterate fileOk))
  if machine.loop = none then
    some ((Qemu.openflashMmioWrite 0x1000 value l.machine.device).2.isSome && l.msixEnabled &&
      decide ((machine.device.queues 0).vector = 0), { l with machine := machine })
  else none

/-- The end of a call: woken up or timed out. -/
def await (l : AdminLink) : Except Errno UInt64 × AdminLink :=
  if l.queue.adminDone then (l.queue.outcome, l)
  else (.error .etimedout, { l with queue := { l.queue with adminPending := false } })

/-- `none` is a loop that has not ended within `fuel` rounds. -/
def openflashAdminCommand (rings : AdminRings) (fuel : ℕ) (fileOk : Bool)
    (cmd : OpenFlashCommand) (l : AdminLink) : Option (Except Errno UInt64 × AdminLink) :=
  ((l.prepare rings cmd).ringDoorbell fuel fileOk).bind fun (notified, l) =>
    (if notified then l.openflashIrq rings fuel else some (.none, l)).map fun (_, l) => l.await

/-- The rings of both queues zeroed. -/
def cleared (rings : AdminRings) (depth : ℕ) (memory : Memory) : Memory :=
  [rings.dma.adminSq, rings.dma.adminCq, rings.dma.ioSq, rings.dma.ioCq].foldl
    (fun memory base => overwrite memory base.toNat (64 * depth) fun _ => 0) memory

/-- `openflash_reset_controller` up to its poll of the status register. -/
def restart (rings : AdminRings) (l : AdminLink) : AdminLink :=
  { l with
    queue := { l.queue with sqTail := 0, cqHead := 0, cqPhase := 1 }
    machine := (l.machine.step (.guest (cleared rings l.queue.depth l.machine.memory))).run
      (((0x0010, 2) :: enableWrites l.queue.depth rings.dma.adminSq rings.dma.adminCq).map
        fun w => .mmioWrite w.1 w.2) }

/-- What the poll returns. -/
def pollReady (l : AdminLink) : Except Errno UInt64 :=
  if l.machine.device.status &&& Qemu.statusReady ≠ 0 then .ok 0 else .error .etimedout

end AdminLink

inductive AdminEvent where
  | command (fileOk : Bool) (cmd : OpenFlashCommand)
  | restart

/-- An event on the link, with the value that it returns. -/
def AdminLink.next (rings : AdminRings) (fuel : ℕ) (l : AdminLink) :
    AdminEvent → Option (Except Errno UInt64) × AdminLink
  | .command fileOk cmd =>
      match l.openflashAdminCommand rings fuel fileOk cmd with
      | some r => (some r.1, r.2)
      | none => (none, l)
  | .restart => (some (l.restart rings).pollReady, l.restart rings)

/-- The return value of a call whose command had this outcome. -/
def reply (r : Qemu.Outcome) : Except Errno UInt64 :=
  if r.status = .success then .ok r.result else .error .eio

/-- The same event without queues: the device is called directly. -/
def directCall (s : Qemu.OpenFlashState) :
    AdminEvent → Option (Except Errno UInt64) × Qemu.OpenFlashState
  | .command fileOk cmd =>
      let r := Qemu.openflashExecute fileOk cmd (fun _ => 0) s
      (some (reply r), r.state)
  | .restart =>
      (some (.ok 0), { Qemu.openflashReset s with control := 1, status := Qemu.statusReady })

/-- The queue of the device after `n` commands. -/
def AdminRings.queueAt (rings : AdminRings) (n : ℕ) : Qemu.OpenFlashQueue :=
  { sqAddr := rings.dma.adminSq
    cqAddr := rings.dma.adminCq
    depth := rings.depth
    sqHead := n % rings.depth
    cqTail := n % rings.depth
    cqHead := n % rings.depth
    vector := 0
    cqPhase := phase rings.depth n
    enabled := true }

/-- The phase bits after `n` completions: those of the last lap, and zero where none has been
written yet. -/
structure Phases (rings : AdminRings) (n : ℕ) (memory : Memory) : Prop where
  written : ∀ m, n - rings.depth ≤ m → m < n →
    rings.phaseAt memory (m % rings.depth) = phase rings.depth m
  blank : ∀ slot, n ≤ slot → slot < rings.depth → rings.phaseAt memory slot = 0

/-- Both sides between two calls, `n` commands after the last reset. -/
structure Linked (rings : AdminRings) (n : ℕ) (l : AdminLink) : Prop where
  depth : l.queue.depth = rings.depth
  sqTail : l.queue.sqTail = n % rings.depth
  cqHead : l.queue.cqHead = n % rings.depth
  cqPhase : l.queue.cqPhase = phase rings.depth n
  msix : l.msixEnabled = true
  idle : l.machine.loop = none
  ready : l.machine.device.status &&& Qemu.statusReady ≠ 0
  attached : l.machine.device.queues 0 = rings.queueAt n
  phases : Phases rings n l.machine.memory

section
variable {rings : AdminRings} {n fuel : ℕ} {l : AdminLink} {memory memory' : Memory}

theorem AdminRings.depth_pos (rings : AdminRings) : 0 < rings.depth := by
  have := rings.depth_valid.1
  omega

theorem AdminRings.depth_lt (rings : AdminRings) : rings.depth < 2 ^ 16 :=
  rings.depth_valid.2.trans_lt (by decide)

theorem AdminRings.queueAt_advance (rings : AdminRings) (n : ℕ) :
    (rings.queueAt n).advance (n % rings.depth) = (n + 1) % rings.depth := by
  rw [Qemu.advance_of_lt rings.depth_pos rings.depth_lt]
  exact succ_mod rings.depth n

/-- One command further, up to the head that the driver has still to report. -/
theorem AdminRings.queueAt_posted (rings : AdminRings) (n : ℕ) :
    { (rings.queueAt n).fetched.posted with cqHead := (n + 1) % rings.depth }
      = rings.queueAt (n + 1) := by
  have hadvance := rings.queueAt_advance n
  show ({ rings.queueAt n with
      sqHead := (rings.queueAt n).advance (n % rings.depth)
      cqTail := (rings.queueAt n).advance (n % rings.depth)
      cqHead := (n + 1) % rings.depth
      cqPhase := if (rings.queueAt n).advance (n % rings.depth) = 0
        then phase rings.depth n ^^^ 1 else phase rings.depth n } : Qemu.OpenFlashQueue) = _
  rw [hadvance, ← phase_succ]
  rfl

theorem AdminRings.cqe_congr {slot : ℕ} (hslot : slot < rings.depth)
    (h : ∀ a, rings.dma.adminCq.toNat ≤ a → a < rings.dma.adminCq.toNat + 64 * rings.depth →
      memory' a = memory a) : rings.cqe memory' slot = rings.cqe memory slot := by
  have := slot_end_le 64 hslot
  unfold cqe
  exact OpenFlashCompletion.read_congr fun i hi => h _ (by omega) (by omega)

theorem writeSlot_holds (base slot : ℕ) {bytes : List UInt8} (h : bytes.length = 64) :
    Holds (writeSlot memory base 64 slot bytes) (base + 64 * slot) bytes := by
  have hbytes : slotBytes (writeSlot memory base 64 slot bytes) base 64 slot = bytes :=
    slotBytes_writeSlot_self h
  have hholds := holds_readBytes (writeSlot memory base 64 slot bytes) (base + 64 * slot) 64
  rw [slotBytes] at hbytes
  rwa [hbytes] at hholds

theorem AdminRings.cqe_writeSlot_self (rings : AdminRings) (memory : Memory) (slot : ℕ)
    (cqe : OpenFlashCompletion) :
    rings.cqe (writeSlot memory rings.dma.adminCq.toNat 64 slot cqe.bytes) slot = cqe := by
  unfold AdminRings.cqe
  exact OpenFlashCompletion.read_of_holds
    (writeSlot_holds _ _ (by simp [OpenFlashCompletion.bytes]))

theorem AdminRings.cqe_writeSlot_of_ne (rings : AdminRings) (memory : Memory) {slot other : ℕ}
    (bytes : List UInt8) (h : other ≠ slot) :
    rings.cqe (writeSlot memory rings.dma.adminCq.toNat 64 slot bytes) other
      = rings.cqe memory other := by
  unfold cqe
  refine OpenFlashCompletion.read_congr fun i hi => overwrite_of_notMem _ _ ?_
  omega

namespace Phases

theorem congr (h : Phases rings n memory)
    (heq : ∀ a, rings.dma.adminCq.toNat ≤ a → a < rings.dma.adminCq.toNat + 64 * rings.depth →
      memory' a = memory a) : Phases rings n memory' := by
  constructor
  · intro m hlo hhi
    rw [AdminRings.phaseAt, AdminRings.cqe_congr (Nat.mod_lt m rings.depth_pos) heq]
    exact h.written m hlo hhi
  · intro slot hlo hhi
    rw [AdminRings.phaseAt, AdminRings.cqe_congr hhi heq]
    exact h.blank slot hlo hhi

/-- The device writes the next completion. -/
theorem post (h : Phases rings n memory) {cqe : OpenFlashCompletion}
    (hflags : cqe.flags.toNat &&& 1 = phase rings.depth n) :
    Phases rings (n + 1)
      (writeSlot memory rings.dma.adminCq.toNat 64 (n % rings.depth) cqe.bytes) := by
  have hd := rings.depth_pos
  constructor
  · intro m hlo hhi
    rcases (Nat.le_of_lt_succ hhi).lt_or_eq with hlt | rfl
    · have hne : m % rings.depth ≠ n % rings.depth := slot_ne_of_lt hlo hlt (by omega)
      rw [AdminRings.phaseAt, AdminRings.cqe_writeSlot_of_ne _ _ _ hne]
      exact h.written m (by omega) hlt
    · rw [AdminRings.phaseAt, AdminRings.cqe_writeSlot_self]
      exact hflags
  · intro slot hlo hhi
    have hne : slot ≠ n % rings.depth := by
      rw [Nat.mod_eq_of_lt (by omega)]
      omega
    rw [AdminRings.phaseAt, AdminRings.cqe_writeSlot_of_ne _ _ _ hne]
    exact h.blank slot (by omega) hhi

/-- At most one lap behind, the driver sees its phase exactly where a completion is. -/
theorem sees_iff (h : Phases rings n memory) {m : ℕ} (hle : m ≤ n) (hlap : n ≤ m + rings.depth) :
    rings.phaseAt memory (m % rings.depth) = phase rings.depth m ↔ m < n :=
  phase_test rings.depth_pos h.written h.blank hle hlap

end Phases

/-- The loop body on the queue as it is after `n` commands. -/
theorem processSq_admin {s : Qemu.OpenFlashState} {cmd : OpenFlashCommand}
    (hqueue : s.queues 0 = rings.queueAt n) (hcmd : Qemu.Dataless cmd)
    (hholds : Holds memory (rings.dma.adminSq.toNat + 64 * (n % rings.depth)) cmd.bytes)
    (fileOk : Bool) :
    (Qemu.processSq fileOk 0 memory s).device
        = Qemu.updateQueue (Qemu.openflashExecute fileOk cmd (fun _ => 0) s).state 0
          (rings.queueAt n).fetched.posted ∧
      (Qemu.processSq fileOk 0 memory s).memory
        = writeSlot memory rings.dma.adminCq.toNat 64 (n % rings.depth)
          ((rings.queueAt n).fetched.completion cmd
            (Qemu.openflashExecute fileOk cmd (fun _ => 0) s)).bytes := by
  have hslot := Nat.mod_lt n rings.depth_pos
  have hsq : (rings.queueAt n).sqSlotAddr = rings.dma.adminSq.toNat + 64 * (n % rings.depth) :=
    Qemu.slotAddr_toNat rings.sq_fits hslot
  have hcq : (rings.queueAt n).fetched.cqSlotAddr
      = rings.dma.adminCq.toNat + 64 * (n % rings.depth) := Qemu.slotAddr_toNat rings.cq_fits hslot
  have hread : OpenFlashCommand.read memory (rings.queueAt n).sqSlotAddr = cmd := by
    rw [hsq]
    exact OpenFlashCommand.read_of_holds hholds
  simp only [Qemu.processSq, Qemu.processCommand, Qemu.openflashExecute_adminQueue, hqueue, hread,
    hcq]
  rw [Qemu.openflashExecute_dataless hcmd fileOk memory (fun _ => 0) s]
  exact ⟨rfl, rfl⟩

/-- The command as it goes to the ring. -/
def AdminLink.named (l : AdminLink) (cmd : OpenFlashCommand) : OpenFlashCommand :=
  { cmd with qid := 0, cid := freshCid l.queue.nextCid }

/-- The completion that the device writes for it. -/
def AdminLink.answer (rings : AdminRings) (n : ℕ) (fileOk : Bool) (cmd : OpenFlashCommand)
    (l : AdminLink) : OpenFlashCompletion :=
  (rings.queueAt n).fetched.completion (l.named cmd)
    (Qemu.openflashExecute fileOk cmd (fun _ => 0) l.machine.device)

/-- The link once the loop of the device has ended. -/
def AdminLink.served (rings : AdminRings) (n : ℕ) (fileOk : Bool) (cmd : OpenFlashCommand)
    (trace : List Qemu.Access) (l : AdminLink) : AdminLink :=
  { l.prepare rings cmd with
    machine :=
      { device := Qemu.updateQueue
          (Qemu.openflashExecute fileOk cmd (fun _ => 0) l.machine.device).state 0
          (rings.queueAt n).fetched.posted
        memory := writeSlot (l.prepare rings cmd).machine.memory rings.dma.adminCq.toNat 64
          (n % rings.depth) (l.answer rings n fileOk cmd).bytes
        loop := none
        trace := trace } }

/-- The link after the interrupt. -/
def AdminLink.finished (rings : AdminRings) (n : ℕ) (fileOk : Bool) (cmd : OpenFlashCommand)
    (trace : List Qemu.Access) (l : AdminLink) : AdminLink :=
  { l.served rings n fileOk cmd trace with
    queue := ((l.served rings n fileOk cmd trace).view rings).round
    machine :=
      { (l.served rings n fileOk cmd trace).machine with
        device := Qemu.updateQueue
          (Qemu.openflashExecute fileOk cmd (fun _ => 0) l.machine.device).state 0
          (rings.queueAt (n + 1)) } }

theorem AdminLink.view_reader (rings : AdminRings) (l : AdminLink) :
    (l.view rings).reader
      = ⟨l.queue.depth, l.queue.cqHead, l.queue.cqPhase, rings.phaseAt l.machine.memory⟩ := rfl

theorem AdminLink.view_head (rings : AdminRings) (l : AdminLink) :
    (l.view rings).head = rings.cqe l.machine.memory l.queue.cqHead := rfl

namespace AdminLink
variable (rings : AdminRings) (n : ℕ) (fileOk : Bool) (cmd : OpenFlashCommand)
  (trace : List Qemu.Access) (l : AdminLink)

theorem served_depth : (l.served rings n fileOk cmd trace).queue.depth = l.queue.depth := rfl

theorem served_cqHead : (l.served rings n fileOk cmd trace).queue.cqHead = l.queue.cqHead := rfl

theorem served_cqPhase :
    (l.served rings n fileOk cmd trace).queue.cqPhase = l.queue.cqPhase := rfl

theorem served_memory :
    (l.served rings n fileOk cmd trace).machine.memory
      = writeSlot (l.prepare rings cmd).machine.memory rings.dma.adminCq.toNat 64
        (n % rings.depth) (l.answer rings n fileOk cmd).bytes := rfl

theorem finished_round :
    (l.finished rings n fileOk cmd trace).queue
      = ((l.served rings n fileOk cmd trace).view rings).round := rfl

end AdminLink

namespace Linked

theorem prepare_holds (h : Linked rings n l) (cmd : OpenFlashCommand) :
    Holds (l.prepare rings cmd).machine.memory
      (rings.dma.adminSq.toNat + 64 * (n % rings.depth)) (l.named cmd).bytes := by
  have hholds : Holds (writeSlot l.machine.memory rings.dma.adminSq.toNat 64 l.queue.sqTail
      (l.named cmd).bytes) (rings.dma.adminSq.toNat + 64 * l.queue.sqTail) (l.named cmd).bytes :=
    writeSlot_holds _ _ (by simp [OpenFlashCommand.bytes])
  rw [h.sqTail] at hholds
  rw [← h.sqTail] at hholds ⊢
  exact hholds

/-- The command goes to the other ring. -/
theorem prepare_adminCq (h : Linked rings n l) (cmd : OpenFlashCommand) (a : ℕ)
    (hlo : rings.dma.adminCq.toNat ≤ a)
    (hhi : a < rings.dma.adminCq.toNat + 64 * rings.depth) :
    (l.prepare rings cmd).machine.memory a = l.machine.memory a := by
  have hslot : l.queue.sqTail < rings.depth := by
    rw [h.sqTail]
    exact Nat.mod_lt n rings.depth_pos
  refine writeSlot_of_notMem _ hslot ?_
  have hapart := rings.rings_apart
  unfold Apart at hapart
  omega

theorem prepare_phases (h : Linked rings n l) (cmd : OpenFlashCommand) :
    Phases rings n (l.prepare rings cmd).machine.memory :=
  h.phases.congr (h.prepare_adminCq cmd)

theorem prepare_tail (h : Linked rings n l) (cmd : OpenFlashCommand) :
    (l.prepare rings cmd).queue.sqTail = (n + 1) % rings.depth := by
  show (l.queue.sqTail + 1) % l.queue.depth = _
  rw [h.depth, h.sqTail, succ_mod]

/-- The device executes the command, posts its completion and notifies vector zero. -/
theorem ringDoorbell (h : Linked rings n l) {cmd : OpenFlashCommand} (hcmd : Qemu.Dataless cmd)
    (hfuel : 2 ≤ fuel) (fileOk : Bool) :
    ∃ trace, (l.prepare rings cmd).ringDoorbell fuel fileOk
      = some (true, l.served rings n fileOk cmd trace) := by
  have hd := rings.depth_valid
  have hlt := rings.depth_lt
  have htail := h.prepare_tail cmd
  have hbound : (n + 1) % rings.depth < rings.depth := Nat.mod_lt _ rings.depth_pos
  have haccepted : Qemu.doorbellAccepted l.machine.device 0 ((n + 1) % rings.depth) := by
    rw [Qemu.doorbellAccepted, h.attached]
    exact ⟨h.ready, rfl, rings.depth_pos.ne', hbound⟩
  have hnew : (l.machine.device.queues 0).sqHead ≠ (n + 1) % rings.depth := by
    rw [h.attached]
    exact slot_ne_of_lt le_rfl (Nat.lt_succ_self n) (by omega)
  have hnamed : Qemu.Dataless (l.named cmd) := hcmd
  obtain ⟨hdevice, hmemory⟩ := processSq_admin h.attached hnamed (h.prepare_holds cmd) fileOk
  have hlast : ((Qemu.processSq fileOk 0 (l.prepare rings cmd).machine.memory
      l.machine.device).device.queues 0).sqHead = (n + 1) % rings.depth := by
    rw [hdevice, Qemu.updateQueue_self]
    exact rings.queueAt_advance n
  have hentered := Qemu.openflashMmioWrite_adminDoorbell (hbound.trans hlt) haccepted
  refine ⟨l.machine.trace ++ (Qemu.processSq fileOk 0 (l.prepare rings cmd).machine.memory
    l.machine.device).trace, ?_⟩
  have hrun : (l.prepare rings cmd).machine.run
      (.mmioWrite 0x1000 (.ofNat ((n + 1) % rings.depth)) ::
        List.replicate fuel (.iterate fileOk))
      = (l.served rings n fileOk cmd (l.machine.trace ++ (Qemu.processSq fileOk 0
          (l.prepare rings cmd).machine.memory l.machine.device).trace)).machine := by
    refine (Qemu.Machine.run_doorbell_one (m := (l.prepare rings cmd).machine) h.idle
      (hbound.trans hlt) haccepted hnew fileOk hlast hfuel).trans ?_
    show Qemu.Machine.mk (Qemu.processSq fileOk 0 _ l.machine.device).device
      (Qemu.processSq fileOk 0 _ l.machine.device).memory none _ = _
    rw [hdevice, hmemory]
    rfl
  have hvector : ((l.served rings n fileOk cmd []).machine.device.queues 0).vector = 0 :=
    congrArg Qemu.OpenFlashQueue.vector (Qemu.updateQueue_self ..)
  unfold AdminLink.ringDoorbell
  dsimp only
  rw [htail, hrun]
  refine (if_pos rfl).trans ?_
  show some ((Qemu.openflashMmioWrite 0x1000 _ l.machine.device).2.isSome && l.msixEnabled &&
    decide (((l.served rings n fileOk cmd []).machine.device.queues 0).vector = 0), _) = _
  rw [hentered, h.msix, hvector]
  rfl

theorem served_phases (h : Linked rings n l) (fileOk : Bool) (cmd : OpenFlashCommand)
    (trace : List Qemu.Access) :
    Phases rings (n + 1) (l.served rings n fileOk cmd trace).machine.memory :=
  (h.prepare_phases cmd).post (Transport.phase_flag rings.depth n)

theorem served_reader (h : Linked rings n l) (fileOk : Bool) (cmd : OpenFlashCommand)
    (trace : List Qemu.Access) :
    ((l.served rings n fileOk cmd trace).view rings).reader
      = ⟨rings.depth, n % rings.depth, phase rings.depth n,
        rings.phaseAt (l.served rings n fileOk cmd trace).machine.memory⟩ := by
  rw [AdminLink.view_reader, AdminLink.served_depth, AdminLink.served_cqHead,
    AdminLink.served_cqPhase, h.depth, h.cqHead, h.cqPhase]

theorem round_reader (h : Linked rings n l) (fileOk : Bool) (cmd : OpenFlashCommand)
    (trace : List Qemu.Access) :
    ((l.served rings n fileOk cmd trace).view rings).round.reader
      = ⟨rings.depth, (n + 1) % rings.depth, phase rings.depth (n + 1),
        rings.phaseAt (l.served rings n fileOk cmd trace).machine.memory⟩ := by
  rw [AdminQueue.round_reader, h.served_reader, Reader.advance]
  dsimp only
  rw [succ_mod, ← phase_succ]

/-- The interrupt takes one completion and finds no other. -/
theorem drain_served (h : Linked rings n l) (hfuel : 1 ≤ fuel) (fileOk : Bool)
    (cmd : OpenFlashCommand) (trace : List Qemu.Access) :
    openflashDrainAdminCq fuel ((l.served rings n fileOk cmd trace).view rings)
      = some ⟨1, some ((n + 1) % rings.depth),
          ((l.served rings n fileOk cmd trace).view rings).round⟩ := by
  have hd := rings.depth_pos
  have hphases := h.served_phases fileOk cmd trace
  have hreader := h.served_reader fileOk cmd trace
  have hround := h.round_reader fileOk cmd trace
  generalize (l.served rings n fileOk cmd trace).view rings = q at hreader hround ⊢
  have hmatch : q.PhaseMatches := by
    show q.reader.Sees
    rw [hreader]
    exact (hphases.sees_iff (Nat.le_succ n) (by omega)).mpr (Nat.lt_succ_self n)
  have hstop : ¬ q.round.PhaseMatches := by
    show ¬ q.round.reader.Sees
    rw [hround]
    exact fun hsees => Nat.lt_irrefl _ ((hphases.sees_iff le_rfl (by omega)).mp hsees)
  have hloop : testLoop AdminQueue.PhaseMatches AdminQueue.round fuel q = some (1, q.round) := by
    refine testLoop_of_iterates hfuel (fun i hi => ?_) hstop
    rw [Nat.lt_one_iff.mp hi]
    exact hmatch
  rw [openflashDrainAdminCq, hloop]
  simp only [Option.map_some, if_neg Nat.one_ne_zero, Option.some.injEq, AdminDrain.mk.injEq,
    true_and, and_true]
  exact congrArg Reader.head hround

theorem openflashIrq (h : Linked rings n l) (hfuel : 1 ≤ fuel) (fileOk : Bool)
    (cmd : OpenFlashCommand) (trace : List Qemu.Access) :
    (l.served rings n fileOk cmd trace).openflashIrq rings fuel
      = some (.handled, l.finished rings n fileOk cmd trace) := by
  have hbound : (n + 1) % rings.depth < rings.depth := Nat.mod_lt _ rings.depth_pos
  have hready : ¬ (l.served rings n fileOk cmd trace).machine.device.status &&& Qemu.statusReady
      = 0 := by
    show ¬ (Qemu.openflashExecute fileOk cmd _ l.machine.device).state.status &&& Qemu.statusReady
      = 0
    rw [Qemu.openflashExecute_status]
    exact h.ready
  have hqueue : (l.served rings n fileOk cmd trace).machine.device.queues 0
      = (rings.queueAt n).fetched.posted := Qemu.updateQueue_self ..
  have hhead := Qemu.openflashMmioWrite_adminHead (s := (l.served rings n fileOk cmd
    trace).machine.device) (hbound.trans rings.depth_lt) (by rw [hqueue]; exact hbound)
  rw [hqueue, rings.queueAt_posted] at hhead
  have hdevice : Qemu.updateQueue (l.served rings n fileOk cmd trace).machine.device 0
      (rings.queueAt (n + 1)) = (l.finished rings n fileOk cmd trace).machine.device :=
    Qemu.updateQueue_idem ..
  have hstep : (l.served rings n fileOk cmd trace).machine.step
      (.mmioWrite 0x1004 (.ofNat ((n + 1) % rings.depth)))
      = (l.finished rings n fileOk cmd trace).machine := by
    show Qemu.Machine.mk (Qemu.openflashMmioWrite 0x1004 _ _).1 _
      (Qemu.openflashMmioWrite 0x1004 _ _).2 _ = _
    rw [hhead, hdevice]
    rfl
  rw [AdminLink.openflashIrq, if_neg hready, h.drain_served hfuel, Option.map_some]
  dsimp only
  rw [hstep, if_neg Nat.one_ne_zero]
  rfl

/-- The entry that the interrupt reads is the answer to the pending command. -/
theorem served_head (h : Linked rings n l) (fileOk : Bool) (cmd : OpenFlashCommand)
    (trace : List Qemu.Access) :
    ((l.served rings n fileOk cmd trace).view rings).head = l.answer rings n fileOk cmd := by
  rw [AdminLink.view_head, AdminLink.served_cqHead, h.cqHead, AdminLink.served_memory,
    rings.cqe_writeSlot_self]

theorem finished_queue (h : Linked rings n l) (fileOk : Bool) (cmd : OpenFlashCommand)
    (trace : List Qemu.Access) :
    (l.finished rings n fileOk cmd trace).queue
      = AdminQueue.advanceHead
        { (l.served rings n fileOk cmd trace).view rings with
          adminStatus := (l.answer rings n fileOk cmd).status
          adminResult := (l.answer rings n fileOk cmd).result
          adminError := none
          adminPending := false
          adminDone := true } := by
  have hhead := h.served_head fileOk cmd trace
  have hcid : ((l.served rings n fileOk cmd trace).view rings).head.cid
      = ((l.served rings n fileOk cmd trace).view rings).adminCid := by
    rw [hhead]
    rfl
  rw [AdminLink.finished_round, AdminQueue.round_own rfl hcid, hhead]

theorem finished_await (h : Linked rings n l) (fileOk : Bool) (cmd : OpenFlashCommand)
    (trace : List Qemu.Access) :
    (l.finished rings n fileOk cmd trace).await
      = (reply (Qemu.openflashExecute fileOk cmd (fun _ => 0) l.machine.device),
        l.finished rings n fileOk cmd trace) := by
  have hqueue := h.finished_queue fileOk cmd trace
  have hdone : (l.finished rings n fileOk cmd trace).queue.adminDone = true := by
    rw [hqueue]
    rfl
  rw [AdminLink.await, if_pos hdone, hqueue]
  refine Prod.ext ?_ rfl
  show (if UInt16.ofNat (Status.code _) ≠ 0 then _ else _) = _
  rw [reply]
  cases (Qemu.openflashExecute fileOk cmd (fun _ => 0) l.machine.device).status <;> rfl

theorem finished (h : Linked rings n l) (fileOk : Bool) (cmd : OpenFlashCommand)
    (trace : List Qemu.Access) : Linked rings (n + 1) (l.finished rings n fileOk cmd trace) := by
  have hreader := h.round_reader fileOk cmd trace
  have hqueue := h.finished_queue fileOk cmd trace
  constructor
  · exact congrArg Reader.depth hreader
  · rw [hqueue]
    exact h.prepare_tail cmd
  · exact congrArg Reader.head hreader
  · exact congrArg Reader.phase hreader
  · exact h.msix
  · rfl
  · show (Qemu.openflashExecute fileOk cmd _ l.machine.device).state.status &&& _ ≠ 0
    rw [Qemu.openflashExecute_status]
    exact h.ready
  · exact Qemu.updateQueue_self ..
  · exact h.served_phases fileOk cmd trace

theorem openflashAdminCommand_finished (h : Linked rings n l) {cmd : OpenFlashCommand}
    (hcmd : Qemu.Dataless cmd) (hfuel : 2 ≤ fuel) (fileOk : Bool) :
    ∃ trace, l.openflashAdminCommand rings fuel fileOk cmd
      = some (reply (Qemu.openflashExecute fileOk cmd (fun _ => 0) l.machine.device),
        l.finished rings n fileOk cmd trace) := by
  obtain ⟨trace, hring⟩ := h.ringDoorbell hcmd hfuel fileOk
  refine ⟨trace, ?_⟩
  rw [AdminLink.openflashAdminCommand, hring, Option.bind_some]
  dsimp only
  rw [if_pos rfl, h.openflashIrq (by omega), Option.map_some]
  dsimp only
  rw [h.finished_await]

/-- One call over the rings is one execution of the command. -/
theorem openflashAdminCommand (h : Linked rings n l) {cmd : OpenFlashCommand}
    (hcmd : Qemu.Dataless cmd) (hfuel : 2 ≤ fuel) (fileOk : Bool) :
    ∃ l', l.openflashAdminCommand rings fuel fileOk cmd
        = some (reply (Qemu.openflashExecute fileOk cmd (fun _ => 0) l.machine.device), l') ∧
      Linked rings (n + 1) l' ∧
      l'.machine.device = Qemu.updateQueue
        (Qemu.openflashExecute fileOk cmd (fun _ => 0) l.machine.device).state 0
        (rings.queueAt (n + 1)) := by
  obtain ⟨trace, hcall⟩ := h.openflashAdminCommand_finished hcmd hfuel fileOk
  exact ⟨l.finished rings n fileOk cmd trace, hcall, h.finished fileOk cmd trace, rfl⟩

end Linked
end
end OpenFlash.Driver
