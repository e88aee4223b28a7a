import OpenFlash.Abi.Packing
import OpenFlash.Qemu.Refinement
import OpenFlash.Reference.QueueInvariant
import OpenFlash.Support.SlotRing

/-! The rings of a queue pair in guest memory: where they lie, what they hold, and what the
device changes outside the data buffers. -/
namespace OpenFlash.Qemu
open Abi Support Support.Ring Reference

/-- The command in the fields of the device. -/
def wire (c : Command) : OpenFlashCommand :=
  { opcode := .ofNat c.opcode
    flags := .ofNat c.flags
    qid := .ofNat c.qid
    cid := .ofNat c.cid
    lba := .ofNat c.lba
    nblocks := .ofNat c.nblocks
    control := .ofNat c.control
    dataAddr := .ofNat c.dataAddr
    metadataAddr := .ofNat c.metadataAddr
    userData := .ofNat c.userData }

theorem toCommand_wire {c : Command} (h : c.Fits) : toCommand (wire c) = c := by
  simp only [toCommand, wire, UInt8.toNat_ofNat_of_lt' h.opcode, UInt8.toNat_ofNat_of_lt' h.flags,
    UInt16.toNat_ofNat_of_lt' h.qid, UInt16.toNat_ofNat_of_lt' h.cid,
    UInt64.toNat_ofNat_of_lt' h.lba, UInt32.toNat_ofNat_of_lt' h.nblocks,
    UInt32.toNat_ofNat_of_lt' h.control, UInt64.toNat_ofNat_of_lt' h.dataAddr,
    UInt64.toNat_ofNat_of_lt' h.metadataAddr, UInt64.toNat_ofNat_of_lt' h.userData]

/-- Where the host keeps a queue pair and its data buffers: both rings inside the address
space, apart from each other and from every buffer. -/
structure RingLayout where
  qid : Fin maxQueues
  sqAddr : UInt64
  cqAddr : UInt64
  depth : ℕ
  buffers : Buffers
  depth_valid : 2 ≤ depth ∧ depth &&& (depth - 1) = 0
  depth_le : depth ≤ maxQueueDepth
  sq_fits : sqAddr.toNat + 64 * depth ≤ 2 ^ 64
  cq_fits : cqAddr.toNat + 64 * depth ≤ 2 ^ 64
  rings_apart : Apart sqAddr.toNat (64 * depth) cqAddr.toNat (64 * depth)
  buffers_apart : ∀ x ∈ buffers.regions,
    Apart x.1 x.2 sqAddr.toNat (64 * depth) ∧ Apart x.1 x.2 cqAddr.toNat (64 * depth)

/-- The phase bit of a completion slot. -/
def phaseAt (layout : RingLayout) (memory : Memory) (slot : ℕ) : ℕ :=
  readMember Completion.driverLayout .flags (slotBytes memory layout.cqAddr.toNat 64 slot) &&& 1

/-- The device serves the queue pair, at the indices and phase of the engine. -/
structure Attached (layout : RingLayout) (device : OpenFlashState) (engine : QueueEngine) :
    Prop where
  ready : device.status &&& statusReady ≠ 0
  enabled : (device.queues layout.qid).enabled = true
  sqAddr : (device.queues layout.qid).sqAddr = layout.sqAddr
  cqAddr : (device.queues layout.qid).cqAddr = layout.cqAddr
  depth : (device.queues layout.qid).depth = layout.depth
  sqHead : (device.queues layout.qid).sqHead = engine.sqHead
  cqTail : (device.queues layout.qid).cqTail = engine.cqTail
  cqPhase : (device.queues layout.qid).cqPhase = engine.devicePhase

/-- The rings in guest memory hold the commands still to execute and the latest completions;
completion slots not reached yet show the phase zero. -/
structure Rings (layout : RingLayout) (blocks : ℕ) (memory : Memory) (submitted : List Command)
    (executed : List Executed) : Prop where
  admitted : ∀ n c, executed.length ≤ n → submitted[n]? = some c →
    c.Fits ∧ Admissible layout.buffers blocks (.command (wire c))
  sqStored : Stored layout.depth executed.length submitted Command.pack
    (slots memory layout.sqAddr.toNat 64)
  cqStored : Stored layout.depth (executed.length - layout.depth) executed
    (fun e => e.completion.pack) (slots memory layout.cqAddr.toNat 64)
  fits : ∀ e ∈ executed, e.completion.Fits
  blank : ∀ slot, executed.length ≤ slot → slot < layout.depth → phaseAt layout memory slot = 0

section
variable {layout : RingLayout} {capacity : UInt64}

theorem RingLayout.depth_pos (layout : RingLayout) : 0 < layout.depth := by
  have := layout.depth_valid.1
  omega

theorem RingLayout.depth_lt (layout : RingLayout) : layout.depth < 2 ^ 16 :=
  layout.depth_le.trans_lt (by decide)

theorem RingLayout.sq_outside (layout : RingLayout) {a : ℕ} (hlo : layout.sqAddr.toNat ≤ a)
    (hhi : a < layout.sqAddr.toNat + 64 * layout.depth) :
    ∀ x ∈ layout.buffers.regions, a < x.1 ∨ x.1 + x.2 ≤ a := by
  intro x hx
  have hapart := (layout.buffers_apart x hx).1
  unfold Apart at hapart
  omega

theorem RingLayout.cq_outside (layout : RingLayout) {a : ℕ} (hlo : layout.cqAddr.toNat ≤ a)
    (hhi : a < layout.cqAddr.toNat + 64 * layout.depth) :
    ∀ x ∈ layout.buffers.regions, a < x.1 ∨ x.1 + x.2 ≤ a := by
  intro x hx
  have hapart := (layout.buffers_apart x hx).2
  unfold Apart at hapart
  omega

theorem phaseAt_congr {memory memory' : Memory} {slot : ℕ} (hslot : slot < layout.depth)
    (h : ∀ a, layout.cqAddr.toNat ≤ a → a < layout.cqAddr.toNat + 64 * layout.depth →
      memory' a = memory a) : phaseAt layout memory' slot = phaseAt layout memory slot := by
  rw [phaseAt, phaseAt, slotBytes_congr hslot h]

namespace Rings
variable {blocks : ℕ} {memory memory' : Memory} {submitted : List Command}
  {executed : List Executed}

theorem frame (h : Rings layout blocks memory submitted executed)
    (hsq : ∀ a, layout.sqAddr.toNat ≤ a → a < layout.sqAddr.toNat + 64 * layout.depth →
      memory' a = memory a)
    (hcq : ∀ a, layout.cqAddr.toNat ≤ a → a < layout.cqAddr.toNat + 64 * layout.depth →
      memory' a = memory a) : Rings layout blocks memory' submitted executed :=
  { admitted := h.admitted
    sqStored := h.sqStored.congr layout.depth_pos hsq
    cqStored := h.cqStored.congr layout.depth_pos hcq
    fits := h.fits
    blank := fun slot hlo hhi => (phaseAt_congr hhi hcq).trans (h.blank slot hlo hhi) }

/-- Changes inside the data buffers. -/
theorem outside (h : Rings layout blocks memory submitted executed)
    (heq : ∀ a, (∀ x ∈ layout.buffers.regions, a < x.1 ∨ x.1 + x.2 ≤ a) →
      memory' a = memory a) : Rings layout blocks memory' submitted executed :=
  h.frame (fun a hlo hhi => heq a (layout.sq_outside hlo hhi))
    fun a hlo hhi => heq a (layout.cq_outside hlo hhi)

/-- The host writes the next command. -/
theorem submit (h : Rings layout blocks memory submitted executed) {c : Command}
    {bytes : List UInt8} (hroom : submitted.length - executed.length < layout.depth)
    (hfits : c.Fits) (hadm : Admissible layout.buffers blocks (.command (wire c)))
    (hpack : c.pack = some bytes) :
    Rings layout blocks
      (writeSlot memory layout.sqAddr.toNat 64 (submitted.length % layout.depth) bytes)
      (submitted ++ [c]) executed := by
  have hslot := Nat.mod_lt submitted.length layout.depth_pos
  have hlen : bytes.length = 64 := by
    rw [hfits.pack, Option.some.injEq] at hpack
    rw [← hpack]
    exact length_fieldBytes rfl
  have hcq : ∀ a, layout.cqAddr.toNat ≤ a → a < layout.cqAddr.toNat + 64 * layout.depth →
      writeSlot memory layout.sqAddr.toNat 64 (submitted.length % layout.depth) bytes a
        = memory a := by
    intro a hlo hhi
    have hapart := layout.rings_apart
    unfold Apart at hapart
    exact writeSlot_of_notMem bytes hslot (by omega)
  refine
    { admitted := ?_, sqStored := h.sqStored.write hroom hpack hlen
      cqStored := h.cqStored.congr layout.depth_pos hcq, fits := h.fits
      blank := fun slot hlo hhi => (phaseAt_congr hhi hcq).trans (h.blank slot hlo hhi) }
  intro n b hlo hb
  rcases getElem?_append_singleton hb with hb | ⟨-, rfl⟩
  · exact h.admitted n b hlo hb
  · exact ⟨hfits, hadm⟩

/-- The device writes the next completion. -/
theorem post (h : Rings layout blocks memory submitted executed) {e : Executed}
    {bytes : List UInt8} (hfits : e.completion.Fits) (hpack : e.completion.pack = some bytes) :
    Rings layout blocks
      (writeSlot memory layout.cqAddr.toNat 64 (executed.length % layout.depth) bytes)
      submitted (executed ++ [e]) := by
  have hdepth := layout.depth_pos
  have hslot := Nat.mod_lt executed.length hdepth
  have hnext : (executed ++ [e]).length = executed.length + 1 := List.length_append
  have hlen : bytes.length = 64 := by
    rw [hfits.pack, Option.some.injEq] at hpack
    rw [← hpack]
    exact length_fieldBytes rfl
  have hsq : ∀ a, layout.sqAddr.toNat ≤ a → a < layout.sqAddr.toNat + 64 * layout.depth →
      writeSlot memory layout.cqAddr.toNat 64 (executed.length % layout.depth) bytes a
        = memory a := by
    intro a hlo hhi
    have hapart := layout.rings_apart
    unfold Apart at hapart
    exact writeSlot_of_notMem bytes hslot (by omega)
  constructor
  · intro n c hlo hc
    exact h.admitted n c (by omega) hc
  · rw [hnext]
    exact (h.sqStored.mono (Nat.le_succ _)).congr hdepth hsq
  · rw [hnext]
    exact (h.cqStored.mono (by omega)).write (by omega) hpack hlen
  · intro e' he'
    rcases List.mem_append.mp he' with he' | he'
    · exact h.fits e' he'
    · rw [List.mem_singleton.mp he']
      exact hfits
  · intro slot hlo hhi
    have hne : slot ≠ executed.length % layout.depth := by
      rw [Nat.mod_eq_of_lt (by omega)]
      omega
    rw [phaseAt, slotBytes_writeSlot_of_ne bytes hne]
    exact h.blank slot (by omega) hhi

end Rings

theorem slotAddr_toNat {base : UInt64} {depth slot : ℕ} (hfits : base.toNat + 64 * depth ≤ 2 ^ 64)
    (hslot : slot < depth) :
    (base + .ofNat (slot * 64)).toNat = base.toNat + 64 * slot := by
  have hlt : slot * 64 < UInt64.size := by
    show slot * 64 < 2 ^ 64
    omega
  rw [UInt64.toNat_add, UInt64.toNat_ofNat_of_lt' hlt, Nat.mod_eq_of_lt (by omega), Nat.mul_comm]

/-- The comparison of the devices reads the buffers of guest memory only. -/
theorem Refines.frame {buffers : Buffers} {r : OracleState} {s : OpenFlashState}
    {memory : Memory} (h : Refines buffers capacity r ⟨s, memory⟩) (memory' : Memory)
    (heq : ∀ x ∈ buffers.regions, ∀ a, x.1 ≤ a → a < x.1 + x.2 → memory' a = memory a) :
    Refines buffers capacity r ⟨s, memory'⟩ := by
  refine { h with buffer := fun x hx => ?_ }
  rw [h.buffer x hx]
  refine congrArg some (readBytes_congr fun i hi => ?_)
  exact (heq x hx _ (by omega) (by omega)).symm

/-- The comparison of the devices does not read the queues. -/
theorem Refines.updateQueue {buffers : Buffers} {r : OracleState} {s : OpenFlashState}
    {memory : Memory} (h : Refines buffers capacity r ⟨s, memory⟩) (qid : Fin maxQueues)
    (q : OpenFlashQueue) : Refines buffers capacity r ⟨Qemu.updateQueue s qid q, memory⟩ :=
  { h with }

/-- An admissible command writes to guest memory inside a buffer only. -/
theorem openflashExecute_memory {buffers : Buffers} {cmd : OpenFlashCommand}
    {s : OpenFlashState} (fileOk : Bool) (memory : Memory)
    (h : Admissible buffers (s.capacity.toNat / 4096) (.command cmd)) {a : ℕ}
    (ha : ∀ x ∈ buffers.regions, a < x.1 ∨ x.1 + x.2 ≤ a) :
    (openflashExecute fileOk cmd memory s).memory a = memory a := by
  obtain ⟨hsgl, hop | hop | ⟨hop, hn, hin, hbuf⟩⟩ := h
  · simp only [openflashExecute, if_pos hop]
  · rw [openflashExecute_eq_flush hop]
    rfl
  · rcases openflashExecute_ranged fileOk memory s hop hn with ⟨hout, -⟩ | ⟨-, t, u, heq⟩
    · have hle := Nat.mod_le cmd.lba.toNat (2 ^ 52)
      omega
    · rw [heq]
      dsimp only
      unfold executeRanged
      rcases hop with hop | hop | hop
      · obtain ⟨n, hmem, hsize⟩ := hbuf (by rw [hop]; decide)
        have hlen := length_toNat cmd.nblocks
        rw [if_pos hop]
        simp only [executeRead, openflashTransfer_contiguous hsgl (dataAddr_ne_zero hmem), move,
          Bool.false_eq_true, if_false]
        apply overwrite_of_notMem
        have hout := ha _ hmem
        dsimp only at hout
        omega
      · obtain ⟨n, hmem, -⟩ := hbuf (by rw [hop]; decide)
        rw [if_neg (by rw [hop]; decide), if_pos hop]
        simp only [executeWrite, openflashTransfer_contiguous hsgl (dataAddr_ne_zero hmem), move,
          if_true, Bool.true_eq_false, if_false]
        split_ifs <;> rfl
      · rw [if_neg (by rw [hop]; decide), if_neg (by rw [hop]; decide), if_pos hop]
        rfl

theorem Admissible.ne_create {buffers : Buffers} {blocks : ℕ} {cmd : OpenFlashCommand}
    (h : Admissible buffers blocks (.command cmd)) : cmd.opcode ≠ adminCreateIoq := by
  obtain ⟨-, hop | hop | ⟨hop, -⟩⟩ := h
  · rw [hop]
    decide
  · rw [hop]
    decide
  · exact hop.ne.2.1

/-- A packed command is read back by the device. -/
theorem read_packed {c : Command} {memory : Memory} {addr : ℕ} (hfits : c.Fits)
    (hpack : c.pack = some (readBytes memory addr 64)) :
    OpenFlashCommand.read memory addr = wire c := by
  have hbytes : readBytes memory addr 64 = (wire c).bytes :=
    Option.some.inj (hpack.symm.trans hfits.pack_wire)
  apply OpenFlashCommand.read_of_holds
  rw [← hbytes]
  exact holds_readBytes memory addr 64

theorem unpack_packed {c : Completion} {bytes : List UInt8} (hfits : c.Fits)
    (hpack : c.pack = some bytes) :
    Completion.unpack bytes = .ok c ∧
      readMember Completion.driverLayout .flags bytes = c.flags := by
  rw [hfits.pack, Option.some.injEq] at hpack
  rw [← hpack]
  exact ⟨hfits.unpack_fieldBytes, readMember_fieldBytes hfits.fieldsFit
    (Completion.driverLayout_occupies .flags) (c.fields_index .flags)⟩

namespace Attached
variable {device : OpenFlashState} {engine : QueueEngine}

/-- Engine and device advance an index alike. -/
theorem advance (h : Attached layout device engine) (hdepth : engine.depth = layout.depth)
    (index : ℕ) : (device.queues layout.qid).advance index = engine.advance index := by
  have hslot := Nat.mod_lt (index + 1) layout.depth_pos
  rw [OpenFlashQueue.advance, h.depth, QueueEngine.advance, QueueEngine.and_depth_sub_one,
    hdepth, Nat.mod_eq_of_lt (hslot.trans layout.depth_lt)]

/-- One fetch and one post on both sides. -/
theorem post (h : Attached layout device engine) (hdepth : engine.depth = layout.depth)
    {device' : OpenFlashState} (hstatus : device'.status = device.status)
    (hqueue : device'.queues layout.qid = (device.queues layout.qid).fetched.posted)
    (c : Command) (dma : Dma) : Attached layout device' (engine.executeHead c dma).2.1 := by
  have hsq := h.advance hdepth engine.sqHead
  have hcq := h.advance hdepth engine.cqTail
  constructor
  · rw [hstatus]
    exact h.ready
  · rw [hqueue]
    exact h.enabled
  · rw [hqueue]
    exact h.sqAddr
  · rw [hqueue]
    exact h.cqAddr
  · rw [hqueue]
    exact h.depth
  · rw [hqueue]
    show (device.queues layout.qid).advance (device.queues layout.qid).sqHead = _
    rw [h.sqHead]
    exact hsq
  · rw [hqueue]
    show (device.queues layout.qid).advance (device.queues layout.qid).cqTail = _
    rw [h.cqTail]
    exact hcq
  · rw [hqueue]
    show (if (device.queues layout.qid).advance (device.queues layout.qid).cqTail = 0 then
      (device.queues layout.qid).cqPhase ^^^ 1 else (device.queues layout.qid).cqPhase) = _
    rw [h.cqTail, hcq, h.cqPhase]
    rfl

end Attached

end
end OpenFlash.Qemu
