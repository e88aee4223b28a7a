import OpenFlash.Driver.Admin
import OpenFlash.Qemu.AdminCommands

/-! Bring-up of the admin queue: the register writes of the driver on a device in any state,
and the first command after them. -/
namespace OpenFlash.Driver
open Abi Support

def lower32Bits (addr : UInt64) : UInt64 := addr &&& (0xffffffff : UInt64)

def upper32Bits (addr : UInt64) : UInt64 := addr >>> (32 : UInt64)

/-- Ring addresses, queue size and `OPENFLASH_CTRL_ENABLE`, in the order of the source. -/
def enableWrites (depth : ℕ) (sqDma cqDma : UInt64) : List (ℕ × UInt64) :=
  [(0x0020, lower32Bits sqDma), (0x0024, upper32Bits sqDma),
    (0x0028, lower32Bits cqDma), (0x002c, upper32Bits cqDma),
    (0x0030, .ofNat depth), (0x0010, 1)]

def writeRegisters (writes : List (ℕ × UInt64)) (s : Qemu.OpenFlashState) : Qemu.OpenFlashState :=
  writes.foldl (fun s w => (Qemu.openflashMmioWrite w.1 w.2 s).1) s

/-- `early` is the error of an allocation or of the interrupt setup, which come before the
first register write. -/
def openflashSetupAdminQueue (early : Option Errno) (depth : ℕ) (sqDma cqDma : UInt64)
    (s : Qemu.OpenFlashState) : Except Errno AdminQueue × Qemu.OpenFlashState :=
  match early with
  | some e => (.error e, s)
  | none =>
      let s := writeRegisters (enableWrites depth sqDma cqDma) s
      if s.status &&& Qemu.statusReady ≠ 0 then (.ok (.fresh depth), s)
      else (.error .etimedout, writeRegisters [(0x0010, 0)] s)

/-- Driver and device have the same view of the admin queue. -/
structure AdminAgrees (q : AdminQueue) (sqDma cqDma : UInt64) (s : Qemu.OpenFlashState) :
    Prop where
  enabled : (s.queues 0).enabled = true
  sqAddr : (s.queues 0).sqAddr = sqDma
  cqAddr : (s.queues 0).cqAddr = cqDma
  depth : (s.queues 0).depth = q.depth
  sqHead : (s.queues 0).sqHead = q.sqTail
  cqTail : (s.queues 0).cqTail = q.cqHead
  cqPhase : (s.queues 0).cqPhase = q.cqPhase

/-- The command of `openflash_admin_identify`. -/
def identifyCommand (q : AdminQueue) : OpenFlashCommand :=
  { opcode := 0x80, qid := 0, cid := freshCid q.nextCid }

/-- The device sees the doorbell of the identify command and runs its loop to the end. -/
def identifyRun (q : AdminQueue) (fileOk : Bool) : List Qemu.Event :=
  [.mmioWrite 0x1000 (.ofNat ((q.sqTail + 1) % q.depth)), .iterate fileOk, .iterate fileOk]

/-- The entry at the driver's head is then the successful completion of that command. -/
def IdentifyAnswered (q : AdminQueue) (sqDma cqDma : UInt64) (s : Qemu.OpenFlashState) : Prop :=
  ∀ memory fileOk, Holds memory (sqDma.toNat + q.sqTail * 64) (identifyCommand q).bytes →
    ((Qemu.Machine.start s memory).run (identifyRun q fileOk)).loop = none ∧
    ∃ cqe : OpenFlashCompletion,
      Holds ((Qemu.Machine.start s memory).run (identifyRun q fileOk)).memory
        (cqDma.toNat + q.cqHead * 64) cqe.bytes ∧
      cqe.cid = (identifyCommand q).cid ∧ cqe.flags.toNat &&& 1 = q.cqPhase ∧
      cqe.status = 0 ∧ cqe.result = s.capacity / Qemu.ofBlockSize

/-- The admin queue of the device is where `openflash_reset` puts it. -/
def AtReset (s : Qemu.OpenFlashState) : Prop :=
  (s.queues 0).sqHead = 0 ∧ (s.queues 0).cqTail = 0 ∧ (s.queues 0).cqPhase = 1

instance (s : Qemu.OpenFlashState) : Decidable (AtReset s) :=
  inferInstanceAs (Decidable (_ ∧ _ ∧ _))

/-- Two halves written in turn make up an address, whatever the register had before. -/
theorem joined_halves (old addr : UInt64) :
    (((old &&& 0xffffffff00000000 ||| lower32Bits addr) &&& (0xffffffff : UInt64)) |||
      upper32Bits addr <<< (32 : UInt64)) = addr := by
  have hmask : ∀ n : ℕ, n &&& 4294967295 = n % 2 ^ 32 := fun n =>
    Nat.and_two_pow_sub_one_eq_mod n 32
  have hhigh : (18446744069414584320 : ℕ) % 2 ^ 32 = 0 := by decide
  have hlt : addr.toNat < 2 ^ 64 := addr.toNat_lt
  have hshift : addr.toNat / 2 ^ 32 * 2 ^ 32 % 2 ^ 64 = addr.toNat / 2 ^ 32 * 2 ^ 32 :=
    Nat.mod_eq_of_lt (by omega)
  have hor := Nat.shiftLeft_add_eq_or_of_lt (Nat.mod_lt addr.toNat (Nat.two_pow_pos 32))
    (addr.toNat / 2 ^ 32)
  apply UInt64.toNat_inj.mp
  simp only [lower32Bits, upper32Bits, UInt64.toNat_or, UInt64.toNat_and, UInt64.toNat_shiftLeft,
    UInt64.toNat_shiftRight, UInt64.reduceToNat, hmask, Nat.or_mod_two_pow, Nat.and_mod_two_pow,
    hhigh, Nat.and_zero, Nat.zero_or, Nat.mod_mod, Nat.shiftRight_eq_div_pow, Nat.reduceMod,
    Nat.shiftLeft_eq] at hor ⊢
  rw [hshift, Nat.or_comm, ← hor]
  omega

/-- The writes set addresses, size and readiness and leave indices and phase alone. -/
theorem writeRegisters_enable {depth : ℕ} (hd : 2 ≤ depth ∧ depth ≤ Qemu.maxQueueDepth)
    (sqDma cqDma : UInt64) (s : Qemu.OpenFlashState) :
    writeRegisters (enableWrites depth sqDma cqDma) s
      = { Qemu.updateQueue s 0
            { s.queues 0 with
              sqAddr := sqDma, cqAddr := cqDma, depth := depth, enabled := true } with
          control := 1
          status := Qemu.statusReady } := by
  have hmax : Qemu.maxQueueDepth = 4096 := rfl
  have hnat : (UInt64.ofNat depth).toNat = depth := by
    rw [UInt64.toNat_ofNat']
    exact Nat.mod_eq_of_lt (by omega)
  have hdepth : Qemu.adminDepth (.ofNat depth) = depth := by
    rw [Qemu.adminDepth, hnat, if_pos hd]
  have henabled : decide (depth ≠ 0) = true := by
    simp only [decide_eq_true_eq]
    omega
  have hreset : ¬ ((1 : UInt64) &&& 2 ≠ 0) := by decide
  have henable : (1 : UInt64) &&& 1 ≠ 0 := by decide
  simp only [writeRegisters, enableWrites, List.foldl_cons, List.foldl_nil,
    Qemu.openflashMmioWrite, Qemu.updateQueue_self, joined_halves, hdepth, henabled,
    Qemu.writeControl, if_neg hreset, if_pos henable]
  simp only [Qemu.updateQueue, Function.update_idem]
  rfl

theorem openflashExecute_identify (q : AdminQueue) (fileOk : Bool) (memory : Memory)
    (s : Qemu.OpenFlashState) :
    Qemu.openflashExecute fileOk (identifyCommand q) memory s
      = ⟨.success, s.capacity / Qemu.ofBlockSize, s, memory, []⟩ := by
  unfold Qemu.openflashExecute
  exact if_pos rfl

/-- The completion that the device writes for the first command. -/
def identifyCompletion (q : AdminQueue) (s : Qemu.OpenFlashState) : OpenFlashCompletion :=
  { result := s.capacity / Qemu.ofBlockSize
    userData := 0
    sqHead := .ofNat (s.queues 0).fetched.sqHead
    cid := (identifyCommand q).cid
    status := 0
    flags := .ofNat (s.queues 0).cqPhase }

theorem processSq_identify {q : AdminQueue} {memory : Memory} {s : Qemu.OpenFlashState}
    (h : OpenFlashCommand.read memory (s.queues 0).sqSlotAddr = identifyCommand q)
    (fileOk : Bool) :
    (Qemu.processSq fileOk 0 memory s).device
        = Qemu.updateQueue s 0 (s.queues 0).fetched.posted ∧
      (Qemu.processSq fileOk 0 memory s).memory
        = overwrite memory (s.queues 0).cqSlotAddr 64
          fun i => (identifyCompletion q s).bytes.getD i 0 := by
  simp only [Qemu.processSq, h, Qemu.processCommand, openflashExecute_identify]
  exact ⟨trivial, rfl⟩

theorem overwrite_holds (memory : Memory) (addr : ℕ) (cqe : OpenFlashCompletion) :
    Holds (overwrite memory addr 64 fun i => cqe.bytes.getD i 0) addr cqe.bytes := by
  apply holds_of_getD
  intro i hi
  have hlength : cqe.bytes.length = 64 := by simp [OpenFlashCompletion.bytes]
  exact overwrite_add _ _ (hlength ▸ hi)

/-- From agreement the device answers the first command where the driver looks. -/
theorem AdminAgrees.identifyAnswered {depth : ℕ} (hd : 2 ≤ depth ∧ depth ≤ Qemu.maxQueueDepth)
    {sqDma cqDma : UInt64} {s : Qemu.OpenFlashState}
    (h : AdminAgrees (.fresh depth) sqDma cqDma s) (hready : s.status = Qemu.statusReady) :
    IdentifyAnswered (.fresh depth) sqDma cqDma s := by
  intro memory fileOk hcmd
  have hmax : Qemu.maxQueueDepth = 4096 := rfl
  have hdepth : (s.queues 0).depth = depth := h.depth
  have hsqHead : (s.queues 0).sqHead = 0 := h.sqHead
  have hcqTail : (s.queues 0).cqTail = 0 := h.cqTail
  have hphase : (s.queues 0).cqPhase = 1 := h.cqPhase
  have hacc : Qemu.doorbellAccepted s 0 1 := by
    refine ⟨?_, h.enabled, ?_, ?_⟩
    · rw [hready]
      decide
    · omega
    · omega
  have htail : ((AdminQueue.fresh depth).sqTail + 1) % (AdminQueue.fresh depth).depth = 1 :=
    Nat.mod_eq_of_lt hd.1
  have hread : OpenFlashCommand.read memory (s.queues 0).sqSlotAddr
      = identifyCommand (.fresh depth) := by
    apply OpenFlashCommand.read_of_holds
    rw [Qemu.OpenFlashQueue.sqSlotAddr, hsqHead, h.sqAddr]
    simpa [AdminQueue.fresh] using hcmd
  obtain ⟨hdevice, hmemory⟩ := processSq_identify hread fileOk
  have hhead : (((Qemu.processSq fileOk 0 memory s).device).queues 0).sqHead = 1 := by
    rw [hdevice, Qemu.updateQueue_self]
    show (s.queues 0).advance (s.queues 0).sqHead = 1
    rw [Qemu.advance_of_lt (by omega) (by omega), hsqHead, hdepth]
    exact Nat.mod_eq_of_lt hd.1
  have hslot : (s.queues 0).cqSlotAddr = cqDma.toNat + (AdminQueue.fresh depth).cqHead * 64 := by
    rw [Qemu.OpenFlashQueue.cqSlotAddr, hcqTail, h.cqAddr]
    simp [AdminQueue.fresh]
  simp only [Qemu.Machine.run, identifyRun, htail, List.foldl_cons, List.foldl_nil,
    Qemu.Machine.step, Qemu.Machine.start, Qemu.Machine.mmioWrite,
    Qemu.openflashMmioWrite_adminDoorbell (by decide) hacc, Qemu.Machine.iterate, hsqHead,
    hhead, zero_ne_one, if_false, if_true, true_and]
  refine ⟨identifyCompletion (.fresh depth) s, ?_, rfl, ?_, rfl, rfl⟩
  · rw [hmemory, ← hslot]
    exact overwrite_holds ..
  · show (UInt16.ofNat (s.queues 0).cqPhase).toNat &&& 1 = 1
    rw [hphase]
    decide

/-- Whatever session the device has behind it: after a successful setup both sides agree,
and the first command gets its own completion, exactly when the device was left where a
reset puts it. -/
theorem openflashSetupAdminQueue_agrees_iff {depth : ℕ}
    (hd : 2 ≤ depth ∧ depth ≤ Qemu.maxQueueDepth) (early : Option Errno) (sqDma cqDma : UInt64)
    (s : Qemu.OpenFlashState) {q : AdminQueue}
    (h : (openflashSetupAdminQueue early depth sqDma cqDma s).1 = .ok q) :
    (AdminAgrees q sqDma cqDma (openflashSetupAdminQueue early depth sqDma cqDma s).2 ∧
      IdentifyAnswered q sqDma cqDma
        (openflashSetupAdminQueue early depth sqDma cqDma s).2) ↔ AtReset s := by
  have hready : Qemu.statusReady &&& Qemu.statusReady ≠ 0 := by decide
  cases early with
  | some e => cases h
  | none =>
    simp only [openflashSetupAdminQueue, writeRegisters_enable hd, if_pos hready] at h ⊢
    cases h
    constructor
    · rintro ⟨hagrees, -⟩
      exact ⟨hagrees.sqHead, hagrees.cqTail, hagrees.cqPhase⟩
    · rintro ⟨hsqHead, hcqTail, hphase⟩
      have hagrees : AdminAgrees (.fresh depth) sqDma cqDma
          { Qemu.updateQueue s 0
              { s.queues 0 with
                sqAddr := sqDma, cqAddr := cqDma, depth := depth, enabled := true } with
            control := 1
            status := Qemu.statusReady } :=
        ⟨rfl, rfl, rfl, rfl, hsqHead, hcqTail, hphase⟩
      exact ⟨hagrees, hagrees.identifyAnswered hd rfl⟩

def blankDevice : Qemu.OpenFlashState :=
  Qemu.realizedOn 4096 none none (fun _ => 0) Qemu.ofBlockSize_valid

/-- A session of probe and removal: setup, identify, creation of the I/O queue, and the
write that disables the controller. -/
def probeAndRemove : List Qemu.Event :=
  (enableWrites 128 0x10000 0x20000).map (fun w => .mmioWrite w.1 w.2) ++
    [.mmioWrite 0x1000 1, .iterate true, .iterate true,
      .mmioWrite 0x1000 2, .iterate true, .iterate true, .mmioWrite 0x0010 0]

def probeMemory : Memory :=
  placed 0x10000 ((identifyCommand (.fresh 128)).bytes ++
    { openflashCreateIoQueue 128 0x30000 0x40000 with cid := 2 }.bytes)

def removedDevice : Qemu.OpenFlashState :=
  ((Qemu.Machine.start blankDevice probeMemory).run probeAndRemove).device

/-- The same device once something has reset it. -/
def resetDevice : Qemu.OpenFlashState := Qemu.openflashReset removedDevice

theorem resetDevice_agrees :
    ¬ AtReset removedDevice ∧ AtReset resetDevice ∧
      AdminAgrees (.fresh 128) 0x10000 0x20000
        (openflashSetupAdminQueue none 128 0x10000 0x20000 resetDevice).2 ∧
      IdentifyAnswered (.fresh 128) 0x10000 0x20000
        (openflashSetupAdminQueue none 128 0x10000 0x20000 resetDevice).2 := by
  have hleft : ¬ AtReset removedDevice := by decide +kernel
  have hreset : AtReset resetDevice := ⟨rfl, rfl, rfl⟩
  exact ⟨hleft, hreset, (openflashSetupAdminQueue_agrees_iff (by decide) none 0x10000 0x20000
    resetDevice rfl).mpr hreset⟩

/-- Without a reset the next setup succeeds, with the device two commands ahead of the
driver. -/
theorem removedDevice_not_agrees :
    ((openflashSetupAdminQueue none 128 0x10000 0x20000 removedDevice).2.queues 0).sqHead = 2 ∧
      (openflashSetupAdminQueue none 128 0x10000 0x20000 removedDevice).1
        = .ok (.fresh 128) ∧
      ¬ AdminAgrees (.fresh 128) 0x10000 0x20000
        (openflashSetupAdminQueue none 128 0x10000 0x20000 removedDevice).2 := by
  have hhead : ((openflashSetupAdminQueue none 128 0x10000 0x20000 removedDevice).2.queues
      0).sqHead = 2 := by decide +kernel
  refine ⟨hhead, rfl, fun h => ?_⟩
  have hzero := hhead.symm.trans h.sqHead
  cases hzero

end OpenFlash.Driver
