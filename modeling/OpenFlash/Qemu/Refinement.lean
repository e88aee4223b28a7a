import OpenFlash.Qemu.Doorbell
import OpenFlash.Reference.BlockArrays

/-! The QEMU device against the reference device. The flat image and the backing file are
the visible and the durable block array of the oracle, and guest memory holds its DMA
buffers. -/
namespace OpenFlash.Qemu
open Abi Support Reference

/-- The same command in the types of the oracle. -/
def toCommand (cmd : OpenFlashCommand) : Command :=
  { opcode := cmd.opcode.toNat
    flags := cmd.flags.toNat
    qid := cmd.qid.toNat
    cid := cmd.cid.toNat
    lba := cmd.lba.toNat
    nblocks := cmd.nblocks.toNat
    control := cmd.control.toNat
    dataAddr := cmd.dataAddr.toNat
    metadataAddr := cmd.metadataAddr.toNat
    userData := cmd.userData.toNat }

/-- Host buffers: non-overlapping regions of guest memory, none of them at address zero. -/
structure Buffers where
  regions : List (ℕ × ℕ)
  keyed : (regions.map Prod.fst).Nodup
  separate : ∀ x ∈ regions, ∀ y ∈ regions, x.1 ≠ y.1 → x.1 + x.2 ≤ y.1 ∨ y.1 + y.2 ≤ x.1
  nonzero : ∀ x ∈ regions, x.1 ≠ 0

namespace Buffers

/-- The DMA map of the oracle over the contents of guest memory. -/
def dma (buffers : Buffers) (memory : Memory) : Dma :=
  { entries := buffers.regions.map fun r => (r.1, readBytes memory r.1 r.2)
    nodup := by
      rw [List.map_map]
      exact buffers.keyed }

end Buffers

/-- What happens to either device: a command, a power loss, or the host filling a buffer. -/
inductive HostEvent where
  | command (cmd : OpenFlashCommand)
  | powerLoss
  | fill (addr : ℕ) (data : List UInt8)

inductive Reply where
  | completed (status : Status) (result : ℕ)
  | restarted
  | failed (error : String)
  | filled
  deriving DecidableEq, Repr

structure OracleState where
  device : ReferenceDevice
  dma : Dma

structure GuestState where
  device : OpenFlashState
  memory : Memory

def OracleState.respond (s : OracleState) : HostEvent → Reply × OracleState
  | .command cmd =>
      let r := s.device.execute (toCommand cmd) s.dma
      (.completed r.1.status r.1.result, ⟨r.2.1, r.2.2⟩)
  | .powerLoss => (.restarted, ⟨s.device.powerLoss, s.dma⟩)
  | .fill addr data => (.filled, ⟨s.device, s.dma.set addr data⟩)

/-- A power loss drops the storage and realizes the device again from its backing file;
writing that file always succeeds. -/
def GuestState.respond (s : GuestState) : HostEvent → Reply × GuestState
  | .command cmd =>
      let r := openflashExecute true cmd s.memory s.device
      (.completed r.status r.result.toNat, ⟨r.state, r.memory⟩)
  | .powerLoss =>
      match openflashRealize {} s.device.capacity s.device.backingFile s.device.file with
      | .ok device => (.restarted, ⟨device, s.memory⟩)
      | .error error => (.failed error, s)
  | .fill addr data =>
      (.filled, ⟨s.device, overwrite s.memory addr data.length fun i => data.getD i 0⟩)

/-- A step shows its reply and the contents of every buffer after it. -/
def OracleState.step (buffers : Buffers) (s : OracleState) (event : HostEvent) :
    (Reply × List (List UInt8)) × OracleState :=
  let next := s.respond event
  ((next.1, buffers.regions.map fun x => next.2.dma.getD x.1 []), next.2)

def GuestState.step (buffers : Buffers) (s : GuestState) (event : HostEvent) :
    (Reply × List (List UInt8)) × GuestState :=
  let next := s.respond event
  ((next.1, buffers.regions.map fun x => readBytes next.2.memory x.1 x.2), next.2)

/-- The commands of the comparison: no SGL, in range, with a buffer that is large enough. -/
def Admissible (buffers : Buffers) (capacityBlocks : ℕ) : HostEvent → Prop
  | .command cmd =>
      cmd.flags &&& cmdSgl = 0 ∧
      (cmd.opcode = adminIdentify ∨ cmd.opcode = opFlush ∨
        (Ranged cmd ∧ cmd.nblocks ≠ 0 ∧ cmd.lba.toNat + cmd.nblocks.toNat ≤ capacityBlocks ∧
          (cmd.opcode ≠ opDiscard →
            ∃ n, (cmd.dataAddr.toNat, n) ∈ buffers.regions ∧ cmd.nblocks.toNat * 4096 ≤ n)))
  | .powerLoss => True
  | .fill addr data => (addr, data.length) ∈ buffers.regions

/-- The bytes a backing file restores; without a file the image starts at zero. -/
def fileBytes : Option Image → ℕ → UInt8
  | none => fun _ => 0
  | some image => image.bytes

structure Refines (buffers : Buffers) (capacity : UInt64) (r : OracleState) (q : GuestState) :
    Prop where
  total : q.device.capacity = capacity
  sized : r.device.Sized
  fault : r.device.nextFault = none
  blocks : r.device.capacityBlocks = q.device.capacity.toNat / 4096
  configured : q.device.backingFile ≠ none
  visible : ∀ a < q.device.capacity.toNat,
    q.device.storage a = flat blockSize 0 r.device.arrays.visible a
  durable : ∀ a < q.device.capacity.toNat,
    fileBytes q.device.file a = flat blockSize 0 r.device.arrays.durable a
  image : ∀ image, q.device.file = some image → image.length = q.device.capacity.toNat
  buffer : ∀ x ∈ buffers.regions, r.dma.get? x.1 = some (readBytes q.memory x.1 x.2)

section
variable {buffers : Buffers} {capacity : UInt64} {r : OracleState} {q : GuestState}
  {cmd : OpenFlashCommand}

theorem Refines.view (h : Refines buffers capacity r q) :
    (buffers.regions.map fun x => r.dma.getD x.1 [])
      = buffers.regions.map fun x => readBytes q.memory x.1 x.2 := by
  apply List.map_congr_left
  intro x hx
  rw [Dict.getD, h.buffer x hx, Option.getD_some]

/-- The oracle's completion counter plays no part in the comparison. -/
theorem Refines.counted {d : ReferenceDevice} {dma : Dma} (h : Refines buffers capacity ⟨d, dma⟩ q)
    (n : ℕ) : Refines buffers capacity ⟨{ d with completed := n }, dma⟩ q :=
  { h with sized := ⟨h.sized.stable, h.sized.volatile⟩ }

/-- What the oracle performs for a command is what it answers and where it goes. -/
theorem respond_of_perform {reply : Status × ℕ} {d : ReferenceDevice} {dma : Dma}
    (hp : r.device.perform (toCommand cmd) r.dma = (reply, d, dma))
    (h : Refines buffers capacity ⟨d, dma⟩ q) :
    (r.respond (.command cmd)).1 = .completed reply.1 reply.2 ∧
      Refines buffers capacity (r.respond (.command cmd)).2 q := by
  simp only [OracleState.respond, ReferenceDevice.execute, hp]
  exact ⟨trivial, h.counted _⟩

theorem perform_eq_dispatch (h : Refines buffers capacity r q) {opcode : Opcode}
    (hop : Opcode.ofNat? cmd.opcode.toNat = some opcode) :
    r.device.perform (toCommand cmd) r.dma
      = r.device.dispatch opcode (toCommand cmd) r.dma := by
  simp only [ReferenceDevice.perform, h.fault, toCommand, hop]

theorem openflashPersist_ok {s : OpenFlashState} (h : s.backingFile ≠ none) :
    openflashPersist true s = (true, { s with file := some ⟨s.capacity.toNat, s.storage⟩ },
      [.persist s.capacity.toNat]) := by
  unfold openflashPersist
  cases hb : s.backingFile with
  | none => exact absurd hb h
  | some path => rfl

theorem Refines.flush {d : ReferenceDevice} {dma : Dma} {s : OpenFlashState} {memory : Memory}
    (h : Refines buffers capacity ⟨d, dma⟩ ⟨s, memory⟩) :
    Refines buffers capacity ⟨d.flush, dma⟩
      ⟨{ s with file := some ⟨s.capacity.toNat, s.storage⟩ }, memory⟩ := by
  have harr := d.flush_arrays
  refine
    { total := h.total, sized := ReferenceDevice.flush_sized h.sized, fault := h.fault
      blocks := h.blocks
      configured := h.configured, buffer := h.buffer, visible := ?_, durable := ?_, image := ?_ }
  · simp only [harr]
    exact h.visible
  · simp only [harr]
    exact h.visible
  · intro image himage
    rw [← Option.some.inj himage]

/-- Identification reports the capacity in blocks. -/
theorem identify_step (h : Refines buffers capacity r q) (hop : cmd.opcode = adminIdentify) :
    (r.respond (.command cmd)).1 = (q.respond (.command cmd)).1 ∧
      Refines buffers capacity (r.respond (.command cmd)).2 (q.respond (.command cmd)).2 := by
  have hp : r.device.perform (toCommand cmd) r.dma
      = ((.success, r.device.capacityBlocks), r.device, r.dma) := by
    rw [perform_eq_dispatch h (by rw [hop]; rfl)]
    rfl
  have hq : q.respond (.command cmd)
      = (.completed .success (q.device.capacity / ofBlockSize).toNat, q) := by
    simp only [GuestState.respond, openflashExecute, if_pos hop]
  obtain ⟨hreply, hnext⟩ := respond_of_perform hp h
  rw [hq, hreply, h.blocks, UInt64.toNat_div, ofBlockSize_toNat]
  exact ⟨rfl, hnext⟩

theorem flush_step (h : Refines buffers capacity r q) (hop : cmd.opcode = opFlush) :
    (r.respond (.command cmd)).1 = (q.respond (.command cmd)).1 ∧
      Refines buffers capacity (r.respond (.command cmd)).2 (q.respond (.command cmd)).2 := by
  have hp : r.device.perform (toCommand cmd) r.dma
      = ((.success, 0), r.device.flush, r.dma) := by
    rw [perform_eq_dispatch h (by rw [hop]; rfl)]
    rfl
  have hq : q.respond (.command cmd) = (.completed .success 0,
      ⟨{ q.device with file := some ⟨q.device.capacity.toNat, q.device.storage⟩ }, q.memory⟩) := by
    simp only [GuestState.respond, openflashExecute_eq_flush hop, executeFlush,
      openflashPersist_ok h.configured, if_true, UInt64.toNat_zero]
  rw [hq]
  exact respond_of_perform hp h.flush

/-- A command in range runs the opcode switch on the bytes of its own blocks. -/
theorem respond_ranged (hop : Ranged cmd) (hn : cmd.nblocks ≠ 0)
    (hin : cmd.lba.toNat + cmd.nblocks.toNat ≤ q.device.capacity.toNat / 4096) :
    q.respond (.command cmd) =
      (.completed
        (executeRanged true cmd (cmd.lba * ofBlockSize) (cmd.nblocks.toUInt64 * ofBlockSize)
          q.memory q.device).status
        (executeRanged true cmd (cmd.lba * ofBlockSize) (cmd.nblocks.toUInt64 * ofBlockSize)
          q.memory q.device).result.toNat,
        ⟨(executeRanged true cmd (cmd.lba * ofBlockSize) (cmd.nblocks.toUInt64 * ofBlockSize)
            q.memory q.device).state,
          (executeRanged true cmd (cmd.lba * ofBlockSize) (cmd.nblocks.toUInt64 * ofBlockSize)
            q.memory q.device).memory⟩) := by
  have hle := Nat.mod_le cmd.lba.toNat (2 ^ 52)
  rcases openflashExecute_ranged true q.memory q.device hop hn with ⟨hout, -⟩ | ⟨-, a, b, heq⟩
  · omega
  · simp only [GuestState.respond, heq]

theorem offset_eq (hin : cmd.lba.toNat + cmd.nblocks.toNat ≤ q.device.capacity.toNat / 4096) :
    (cmd.lba * ofBlockSize).toNat = cmd.lba.toNat * blockSize := by
  have hlt := capacity_blocks_lt q.device
  rw [offset_toNat, Nat.mod_eq_of_lt (by omega)]
  rfl

theorem length_eq (cmd : OpenFlashCommand) :
    (cmd.nblocks.toUInt64 * ofBlockSize).toNat = cmd.nblocks.toNat * blockSize :=
  length_toNat cmd.nblocks

/-- New contents for a range of blocks, on both sides. -/
theorem Refines.store {d d' : ReferenceDevice} {dma : Dma} {s : OpenFlashState} {memory : Memory}
    {lba n : ℕ} {data : ℕ → Block} {bytes : ℕ → UInt8}
    (h : Refines buffers capacity ⟨d, dma⟩ ⟨s, memory⟩) (hsized : d'.Sized)
    (hfault : d'.nextFault = none)
    (hblocks : d'.capacityBlocks = d.capacityBlocks)
    (harr : d'.arrays = ⟨overwrite d.arrays.visible lba n data, d.arrays.durable⟩)
    (hbytes : ∀ i < n * blockSize, bytes i = flat blockSize 0 data i) :
    Refines buffers capacity ⟨d', dma⟩
      ⟨{ s with storage := overwrite s.storage (lba * blockSize) (n * blockSize) bytes },
        memory⟩ := by
  refine
    { total := h.total, sized := hsized, fault := hfault, blocks := hblocks.trans h.blocks
      configured := h.configured, image := h.image, buffer := h.buffer, visible := ?_
      durable := ?_ }
  · simp only [harr]
    rw [flat_overwrite (by decide)]
    exact overwrite_congr h.visible hbytes
  · simp only [harr]
    exact h.durable

theorem flat_zeroBlock (i : ℕ) : flat blockSize 0 (fun _ => zeroBlock) i = 0 := by
  have hlt : i % blockSize < blockSize := Nat.mod_lt _ (by decide)
  simp only [flat, zeroBlock, List.getD_eq_getElem?_getD, List.getElem?_replicate, hlt, if_true,
    Option.getD_some]

theorem discard_step (h : Refines buffers capacity r q) (hop : cmd.opcode = opDiscard)
    (hn : cmd.nblocks ≠ 0)
    (hin : cmd.lba.toNat + cmd.nblocks.toNat ≤ q.device.capacity.toNat / 4096) :
    (r.respond (.command cmd)).1 = (q.respond (.command cmd)).1 ∧
      Refines buffers capacity (r.respond (.command cmd)).2 (q.respond (.command cmd)).2 := by
  have hn' : (toCommand cmd).nblocks ≠ 0 := fun h0 => hn (UInt32.toNat_inj.mp h0)
  have hin' : ¬ r.device.capacityBlocks < (toCommand cmd).lba + (toCommand cmd).nblocks := by
    rw [h.blocks]
    exact Nat.not_lt.mpr hin
  have hp : r.device.perform (toCommand cmd) r.dma = ((.success, cmd.nblocks.toNat),
      r.device.discard cmd.lba.toNat cmd.nblocks.toNat, r.dma) := by
    rw [perform_eq_dispatch h (by rw [hop]; rfl), ReferenceDevice.dispatch, if_neg (by decide),
      if_neg (by decide), if_neg hn', if_neg hin', if_pos rfl]
    rfl
  have hrange : executeRanged true cmd (cmd.lba * ofBlockSize)
      (cmd.nblocks.toUInt64 * ofBlockSize) q.memory q.device
      = executeDiscard cmd (cmd.lba * ofBlockSize) (cmd.nblocks.toUInt64 * ofBlockSize) q.memory
        q.device := by
    rw [executeRanged, if_neg (by rw [hop]; decide), if_neg (by rw [hop]; decide), if_pos hop]
  rw [respond_ranged (Or.inr (Or.inr hop)) hn hin, hrange]
  simp only [executeDiscard, UInt32.toNat_toUInt64, offset_eq hin, length_eq]
  apply respond_of_perform hp
  exact h.store (ReferenceDevice.discard_sized h.sized) h.fault rfl
    (ReferenceDevice.discard_arrays _ _ _) fun i _ => (flat_zeroBlock i).symm

theorem fua_iff (cmd : OpenFlashCommand) :
    cmd.flags &&& cmdFua = 0 ↔ (toCommand cmd).flags &&& flagFua = 0 := by
  rw [← UInt8.toNat_inj, UInt8.toNat_and]
  rfl

theorem dataAddr_ne_zero {n : ℕ} (hmem : (cmd.dataAddr.toNat, n) ∈ buffers.regions) :
    cmd.dataAddr ≠ 0 := by
  intro h0
  apply buffers.nonzero _ hmem
  rw [h0]
  rfl

/-- The oracle's answer to a read or write whose buffer is there and large enough. -/
theorem perform_buffered (h : Refines buffers capacity r q) {opcode : Opcode} {n : ℕ}
    (hop : Opcode.ofNat? cmd.opcode.toNat = some opcode)
    (hkind : opcode = .read ∨ opcode = .write) (hn : cmd.nblocks ≠ 0)
    (hin : cmd.lba.toNat + cmd.nblocks.toNat ≤ q.device.capacity.toNat / 4096)
    (hmem : (cmd.dataAddr.toNat, n) ∈ buffers.regions) :
    r.device.perform (toCommand cmd) r.dma = r.device.dispatchBuffer opcode (toCommand cmd) r.dma
      (readBytes q.memory cmd.dataAddr.toNat n) := by
  have hn' : (toCommand cmd).nblocks ≠ 0 := fun h0 => hn (UInt32.toNat_inj.mp h0)
  have hin' : ¬ r.device.capacityBlocks < (toCommand cmd).lba + (toCommand cmd).nblocks := by
    rw [h.blocks]
    exact Nat.not_lt.mpr hin
  have hbuf : r.dma.get? (toCommand cmd).dataAddr
      = some (readBytes q.memory cmd.dataAddr.toNat n) := h.buffer _ hmem
  rw [perform_eq_dispatch h hop, ReferenceDevice.dispatch]
  rcases hkind with rfl | rfl
  · rw [if_neg (by decide), if_neg (by decide), if_neg hn', if_neg hin', if_neg (by decide), hbuf]
  · rw [if_neg (by decide), if_neg (by decide), if_neg hn', if_neg hin', if_neg (by decide), hbuf]

theorem write_step (h : Refines buffers capacity r q) (hop : cmd.opcode = opWrite)
    (hsgl : cmd.flags &&& cmdSgl = 0) (hn : cmd.nblocks ≠ 0)
    (hin : cmd.lba.toNat + cmd.nblocks.toNat ≤ q.device.capacity.toNat / 4096) {n : ℕ}
    (hmem : (cmd.dataAddr.toNat, n) ∈ buffers.regions) (hsize : cmd.nblocks.toNat * 4096 ≤ n) :
    (r.respond (.command cmd)).1 = (q.respond (.command cmd)).1 ∧
      Refines buffers capacity (r.respond (.command cmd)).2 (q.respond (.command cmd)).2 := by
  have haddr := dataAddr_ne_zero hmem
  have hlen : ¬ (readBytes q.memory cmd.dataAddr.toNat n).length
      < (toCommand cmd).nblocks * blockSize := by
    rw [length_readBytes]
    exact Nat.not_lt.mpr hsize
  have hbytes : ∀ i < cmd.nblocks.toNat * blockSize, q.memory (cmd.dataAddr.toNat + i)
      = flat blockSize 0 (fun b => slice (readBytes q.memory cmd.dataAddr.toNat n)
        (b * blockSize) blockSize) i := by
    intro i hi
    rw [flat_slice (by decide), getD_readBytes _ _ (hi.trans_le hsize)]
  have hstore := h.store (ReferenceDevice.store_sized h.sized (Nat.not_lt.mp hlen)) h.fault rfl
    (ReferenceDevice.store_arrays r.device cmd.lba.toNat cmd.nblocks.toNat _) hbytes
  have hrange : executeRanged true cmd (cmd.lba * ofBlockSize)
      (cmd.nblocks.toUInt64 * ofBlockSize) q.memory q.device
      = executeWrite true cmd (cmd.lba * ofBlockSize) (cmd.nblocks.toUInt64 * ofBlockSize)
        q.memory q.device := by
    rw [executeRanged, if_neg (by rw [hop]; decide), if_pos hop]
  rw [respond_ranged (Or.inr (Or.inl hop)) hn hin, hrange]
  have hp := perform_buffered h (by rw [hop]; rfl) (Or.inr rfl) hn hin hmem
  rw [ReferenceDevice.dispatchBuffer, if_neg hlen, if_pos rfl] at hp
  simp only [executeWrite, openflashTransfer_contiguous hsgl haddr, move, if_true,
    Bool.true_eq_false, if_false, offset_eq hin, length_eq]
  by_cases hfua : cmd.flags &&& cmdFua = 0
  · have hfua' := (fua_iff cmd).mp hfua
    simp only [hfua', ne_eq, not_true_eq_false, if_false] at hp
    simp only [hfua, if_true, UInt32.toNat_toUInt64]
    exact respond_of_perform hp hstore
  · have hfua' : ¬ (toCommand cmd).flags &&& flagFua = 0 := fun h0 => hfua ((fua_iff cmd).mpr h0)
    simp only [hfua', ne_eq, not_false_eq_true, if_true] at hp
    simp only [hfua, if_false, openflashPersist_ok hstore.configured, if_true,
      UInt32.toNat_toUInt64]
    exact respond_of_perform hp hstore.flush

/-- Two buffers that differ in their address share no byte. -/
theorem Buffers.disjoint {x y : ℕ × ℕ} (hx : x ∈ buffers.regions) (hy : y ∈ buffers.regions)
    (hne : x.1 ≠ y.1) {i j : ℕ} (hi : i < x.2) (hj : j ≤ y.2) :
    x.1 + i < y.1 ∨ y.1 + j ≤ x.1 + i := by
  rcases buffers.separate x hx y hy hne with h | h
  · left
    omega
  · right
    omega

/-- A buffer takes new contents on both sides. -/
theorem Refines.fill {d : ReferenceDevice} {dma : Dma} {s : OpenFlashState} {memory : Memory}
    (h : Refines buffers capacity ⟨d, dma⟩ ⟨s, memory⟩) {addr n len : ℕ} {content : List UInt8}
    {bytes : ℕ → UInt8} (hmem : (addr, n) ∈ buffers.regions) (hle : len ≤ n)
    (hcontent : content = readBytes (overwrite memory addr len bytes) addr n) :
    Refines buffers capacity ⟨d, dma.set addr content⟩ ⟨s, overwrite memory addr len bytes⟩ := by
  refine { h with buffer := fun x hx => ?_ }
  by_cases hx1 : x.1 = addr
  · obtain rfl : x = (addr, n) := List.inj_on_of_nodup_map buffers.keyed hx hmem hx1
    rw [Dict.get?_set_self, hcontent]
  · rw [Dict.get?_set_of_ne _ _ (Ne.symm hx1), h.buffer x hx]
    refine congrArg some (readBytes_congr fun i hi => ?_)
    exact (overwrite_of_notMem _ _ (Buffers.disjoint hx hmem hx1 hi hle)).symm

theorem read_step (h : Refines buffers capacity r q) (hop : cmd.opcode = opRead)
    (hsgl : cmd.flags &&& cmdSgl = 0) (hn : cmd.nblocks ≠ 0)
    (hin : cmd.lba.toNat + cmd.nblocks.toNat ≤ q.device.capacity.toNat / 4096) {n : ℕ}
    (hmem : (cmd.dataAddr.toNat, n) ∈ buffers.regions) (hsize : cmd.nblocks.toNat * 4096 ≤ n) :
    (r.respond (.command cmd)).1 = (q.respond (.command cmd)).1 ∧
      Refines buffers capacity (r.respond (.command cmd)).2 (q.respond (.command cmd)).2 := by
  have haddr := dataAddr_ne_zero hmem
  have hlen : ¬ (readBytes q.memory cmd.dataAddr.toNat n).length
      < (toCommand cmd).nblocks * blockSize := by
    rw [length_readBytes]
    exact Nat.not_lt.mpr hsize
  have hp := perform_buffered h (by rw [hop]; rfl) (Or.inl rfl) hn hin hmem
  rw [ReferenceDevice.dispatchBuffer, if_neg hlen, if_neg (by decide), if_pos rfl] at hp
  have hrange : executeRanged true cmd (cmd.lba * ofBlockSize)
      (cmd.nblocks.toUInt64 * ofBlockSize) q.memory q.device
      = executeRead cmd (cmd.lba * ofBlockSize) (cmd.nblocks.toUInt64 * ofBlockSize) q.memory
        q.device := by
    rw [executeRanged, if_pos hop]
  rw [respond_ranged (Or.inl hop) hn hin, hrange]
  simp only [executeRead, openflashTransfer_contiguous hsgl haddr, move, Bool.false_eq_true,
    if_true, if_false, offset_eq hin, length_eq, UInt32.toNat_toUInt64]
  refine respond_of_perform hp (h.fill hmem hsize ?_)
  apply List.ext_getElem?
  intro i
  rw [ReferenceDevice.getElem?_readInto h.sized (Nat.not_lt.mp hlen), getElem?_readBytes,
    getElem?_readBytes]
  have hcap := capacity_blocks q.device
  by_cases hi : i < cmd.nblocks.toNat * blockSize
  · have hi4096 : i < cmd.nblocks.toNat * 4096 := hi
    have hinside : cmd.lba.toNat * 4096 + i < q.device.capacity.toNat := by omega
    have hbyte : q.device.storage (cmd.lba.toNat * blockSize + i)
        = flat blockSize 0 r.device.load (cmd.lba.toNat * blockSize + i) :=
      h.visible _ hinside
    have hn' : i < n := hi.trans_le hsize
    simp only [overwrite_add _ _ hi, hbyte, hn', if_true]
    exact if_pos hi
  · rw [overwrite_of_notMem _ _ (Or.inr (by omega))]
    exact if_neg hi

theorem fill_step (h : Refines buffers capacity r q) {addr : ℕ} {data : List UInt8}
    (hmem : (addr, data.length) ∈ buffers.regions) :
    (r.respond (.fill addr data)).1 = (q.respond (.fill addr data)).1 ∧
      Refines buffers capacity (r.respond (.fill addr data)).2 (q.respond (.fill addr data)).2 := by
  refine ⟨rfl, h.fill hmem le_rfl ?_⟩
  apply List.ext_getElem?
  intro i
  rw [getElem?_readBytes]
  split_ifs with hi
  · rw [overwrite_add _ _ hi, List.getD_eq_getElem?_getD, List.getElem?_eq_getElem hi,
      Option.getD_some]
  · exact List.getElem?_eq_none (Nat.not_lt.mp hi)

/-- Realization restores the bytes of the backing file. -/
theorem openflashRealize_restores {s : OpenFlashState} (hconf : s.backingFile ≠ none)
    (himage : ∀ image, s.file = some image → image.length = s.capacity.toNat) :
    openflashRealize {} s.capacity s.backingFile s.file
      = .ok (realizedOn s.capacity s.backingFile s.file (fileBytes s.file) s.capacity_valid) := by
  unfold openflashRealize
  rw [dif_pos s.capacity_valid]
  cases hb : s.backingFile with
  | none => exact absurd hb hconf
  | some path =>
    cases hf : s.file with
    | none => rfl
    | some image =>
      dsimp only
      rw [if_neg (not_not.mpr (himage image hf))]
      rfl

theorem powerLoss_step (h : Refines buffers capacity r q) :
    (r.respond .powerLoss).1 = (q.respond .powerLoss).1 ∧
      Refines buffers capacity (r.respond .powerLoss).2 (q.respond .powerLoss).2 := by
  have harr := r.device.powerLoss_arrays
  simp only [OracleState.respond, GuestState.respond,
    openflashRealize_restores h.configured h.image, true_and]
  refine
    { total := h.total, sized := ⟨h.sized.stable, ?_⟩, fault := h.fault, blocks := h.blocks
      configured := h.configured, image := h.image, buffer := h.buffer, visible := ?_
      durable := ?_ }
  · intro b data hb
    simp [ReferenceDevice.powerLoss] at hb
  · simp only [harr]
    exact h.durable
  · simp only [harr]
    exact h.durable

theorem respond_refines (h : Refines buffers capacity r q) {event : HostEvent}
    (hev : Admissible buffers (capacity.toNat / 4096) event) :
    (r.respond event).1 = (q.respond event).1 ∧
      Refines buffers capacity (r.respond event).2 (q.respond event).2 := by
  rw [← h.total] at hev
  cases event with
  | command cmd =>
    obtain ⟨hsgl, hop | hop | ⟨hop, hn, hin, hbuf⟩⟩ := hev
    · exact identify_step h hop
    · exact flush_step h hop
    · rcases hop with hop | hop | hop
      · obtain ⟨n, hmem, hsize⟩ := hbuf (by rw [hop]; decide)
        exact read_step h hop hsgl hn hin hmem hsize
      · obtain ⟨n, hmem, hsize⟩ := hbuf (by rw [hop]; decide)
        exact write_step h hop hsgl hn hin hmem hsize
      · exact discard_step h hop hn hin
  | powerLoss => exact powerLoss_step h
  | fill addr data => exact fill_step h hev

theorem step_refines (h : Refines buffers capacity r q) {event : HostEvent}
    (hev : Admissible buffers (capacity.toNat / 4096) event) :
    (r.step buffers event).1 = (q.step buffers event).1 ∧
      Refines buffers capacity (r.step buffers event).2 (q.step buffers event).2 := by
  obtain ⟨hreply, hnext⟩ := respond_refines h hev
  refine ⟨?_, hnext⟩
  simp only [OracleState.step, GuestState.step, hreply, hnext.view]

theorem Buffers.dma_get? (memory : Memory) {x : ℕ × ℕ} (hx : x ∈ buffers.regions) :
    (buffers.dma memory).get? x.1 = some (readBytes memory x.1 x.2) := by
  rw [Dict.get?_eq_some_iff]
  exact List.mem_map.mpr ⟨x, hx, rfl⟩

/-- Both devices start from zero. -/
theorem initial_refines {path : String} {device : OpenFlashState}
    (hrealize : openflashRealize {} capacity (some path) none = .ok device)
    (hblocks : 0 < capacity.toNat / 4096) (memory : Memory) :
    Refines buffers capacity ⟨.fresh (capacity.toNat / 4096) hblocks, buffers.dma memory⟩
      ⟨device, memory⟩ := by
  have hzero : ∀ a, flat blockSize 0 (ReferenceDevice.fresh (capacity.toNat / 4096)
      hblocks).arrays.visible a = 0 := flat_zeroBlock
  have hdevice : ∃ hvalid, device = realizedOn capacity (some path) none (fun _ => 0) hvalid := by
    unfold openflashRealize at hrealize
    split_ifs at hrealize with hvalid
    exact ⟨hvalid, (Except.ok.inj hrealize).symm⟩
  obtain ⟨hvalid, rfl⟩ := hdevice
  refine
    { total := rfl, sized := ReferenceDevice.fresh_sized _ _, fault := rfl, blocks := rfl
      configured := Option.some_ne_none path, visible := fun a _ => (hzero a).symm
      durable := fun a _ => (hzero a).symm, image := ?_
      buffer := fun x hx => Buffers.dma_get? memory hx }
  intro image himage
  cases himage

end

/-- On every admissible history with power losses at any points, the QEMU device and the
oracle give the same statuses and results and leave the same bytes in every buffer. -/
theorem openflashExecute_refines_oracle (buffers : Buffers) (capacity : UInt64) (path : String)
    (device : OpenFlashState)
    (hrealize : openflashRealize {} capacity (some path) none = .ok device)
    (hblocks : 0 < capacity.toNat / 4096) (memory : Memory) (events : List HostEvent)
    (hevents : ∀ event ∈ events, Admissible buffers (capacity.toNat / 4096) event) :
    (runOutputs (GuestState.step buffers) ⟨device, memory⟩ events).1
      = (runOutputs (OracleState.step buffers)
        ⟨.fresh (capacity.toNat / 4096) hblocks, buffers.dma memory⟩ events).1 := by
  have hstep : ∀ r q event, Refines buffers capacity r q →
      Admissible buffers (capacity.toNat / 4096) event →
      (r.step buffers event).1 = (q.step buffers event).1 ∧
        Refines buffers capacity (r.step buffers event).2 (q.step buffers event).2 :=
    fun _ _ _ h hev => step_refines h hev
  exact (runOutputs_lockstep hstep events hevents
    (initial_refines hrealize hblocks memory)).symm

def onePageBuffer : Buffers where
  regions := [(0x1000, 4096)]
  keyed := by decide
  separate := by
    intro x hx y hy hne
    rw [List.mem_singleton] at hx hy
    exact absurd (congrArg Prod.fst (hx.trans hy.symm)) hne
  nonzero := by
    intro x hx
    rw [List.mem_singleton] at hx
    rw [hx]
    decide

/-- A plain and a durable write around a power loss, then a read. -/
def writesAcrossPowerLoss : List HostEvent :=
  [.command { opcode := opWrite, flags := cmdFua, lba := 1, nblocks := 1, dataAddr := 0x1000 },
    .command { opcode := opWrite, lba := 0, nblocks := 1, dataAddr := 0x1000 }, .powerLoss,
    .command { opcode := opRead, lba := 0, nblocks := 1, dataAddr := 0x1000 },
    .command { opcode := adminIdentify }]

theorem writesAcrossPowerLoss_refines :
    (∀ event ∈ writesAcrossPowerLoss, Admissible onePageBuffer 2 event) ∧
    (runOutputs (GuestState.step onePageBuffer)
      ⟨realizedOn 8192 (some "disk") none (fun _ => 0) (by decide), fun _ => 7⟩
      writesAcrossPowerLoss).1
      = (runOutputs (OracleState.step onePageBuffer)
        ⟨.fresh 2 (by decide), onePageBuffer.dma fun _ => 7⟩ writesAcrossPowerLoss).1 := by
  have hbuffer : ∃ n, ((0x1000 : UInt64).toNat, n) ∈ onePageBuffer.regions ∧
      (1 : UInt32).toNat * 4096 ≤ n := ⟨4096, List.mem_singleton.mpr rfl, by decide⟩
  have hevents : ∀ event ∈ writesAcrossPowerLoss, Admissible onePageBuffer 2 event := by
    intro event hev
    simp only [writesAcrossPowerLoss, List.mem_cons, List.not_mem_nil, or_false] at hev
    rcases hev with rfl | rfl | rfl | rfl | rfl
    · exact ⟨by decide, Or.inr (Or.inr ⟨Or.inr (Or.inl rfl), by decide, by decide,
        fun _ => hbuffer⟩)⟩
    · exact ⟨by decide, Or.inr (Or.inr ⟨Or.inr (Or.inl rfl), by decide, by decide,
        fun _ => hbuffer⟩)⟩
    · trivial
    · exact ⟨by decide, Or.inr (Or.inr ⟨Or.inl rfl, by decide, by decide, fun _ => hbuffer⟩)⟩
    · exact ⟨by decide, Or.inl rfl⟩
  exact ⟨hevents, openflashExecute_refines_oracle onePageBuffer 8192 "disk" _ rfl (by decide)
    (fun _ => 7) writesAcrossPowerLoss hevents⟩

end OpenFlash.Qemu
