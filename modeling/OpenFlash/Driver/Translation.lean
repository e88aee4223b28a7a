import OpenFlash.Driver.Fua
import OpenFlash.Driver.Mapping
import OpenFlash.Qemu.Descriptors

/-! From a block request to the storage image: the command and the table that the driver
writes for a read or a write, executed by the device. -/
namespace OpenFlash.Driver
open Abi Support Qemu

/-- What the block layer and the DMA mapping guarantee of a request: at most sixteen
non-empty segments that add up to its size, at non-zero addresses that overlap neither one
another nor the SGL table. -/
structure WellMapped (rq : Request) (sglDma : UInt64) : Prop where
  count : rq.segments.length ≤ 16
  total : (rq.segments.map fun bvec => bvec.length.toNat).sum = rq.bytes.toNat
  nonempty : ∀ bvec ∈ rq.segments, bvec.length ≠ 0
  nonzero : ∀ d ∈ rq.descs, d.addr ≠ 0
  apart : rq.descs.Pairwise SegmentsApart
  table : sglDma ≠ 0
  clear : ∀ d ∈ rq.descs, ∀ i < rq.segments.length,
    Apart d.addr.toNat d.length.toNat (sglDma + .ofNat i * 16).toNat 16

/-- Guest memory as the device sees it after the doorbell: the command in its slot and the
table of its tag. -/
structure Published (memory : Memory) (slot : ℕ) (cmd : OpenFlashCommand) (sglDma : UInt64)
    (sgl : ℕ → OpenFlashSglDesc) (count : ℕ) : Prop where
  command : Holds memory slot cmd.bytes
  table : ∀ i < count, Holds memory (sglDma + .ofNat i * 16).toNat (sgl i).bytes

/-- The effect of a block request on storage and segments. -/
structure Performed (rq : Request) (memory : Memory) (s : OpenFlashState) (r : Outcome) :
    Prop where
  status : r.status = .success
  result : r.result.toNat = rq.bytes.toNat / 4096
  write : rq.op = .write →
    readBytes r.state.storage (512 * rq.pos.toNat) rq.bytes.toNat = rq.data memory ∧
      (∀ a, a < 512 * rq.pos.toNat ∨ 512 * rq.pos.toNat + rq.bytes.toNat ≤ a →
        r.state.storage a = s.storage a) ∧
      r.memory = memory
  read : rq.op = .read →
    rq.data r.memory = readBytes s.storage (512 * rq.pos.toNat) rq.bytes.toNat ∧
      r.state.storage = s.storage ∧ ∀ a, Outside rq.descs a → r.memory a = memory a

/-- With every segment mapped, the data of a request is what its descriptors denote. -/
theorem data_eq_gather (memory : Memory) {rq : Request} (hop : rq.op = .read ∨ rq.op = .write)
    (h : rq.descs.length = rq.segments.length) : rq.data memory = gather memory rq.descs := by
  have hdescs : rq.descs = mappedDescs rq.segments := if_pos hop
  rw [hdescs] at h ⊢
  unfold Request.data
  generalize rq.segments = segments at h ⊢
  induction segments with
  | nil => rfl
  | cons bvec rest ih =>
    cases hm : bvec.mapping with
    | none => simp [mappedDescs, hm] at h
    | some dma =>
      simp only [mappedDescs, hm, List.length_cons, Nat.add_right_cancel_iff] at h
      simp only [mappedDescs, hm, gather_cons, List.flatMap_cons, ih h]

theorem totalLength_eq {segments : List Bvec}
    (h : (mappedDescs segments).length = segments.length) :
    totalLength (mappedDescs segments) = (segments.map fun bvec => bvec.length.toNat).sum := by
  induction segments with
  | nil => rfl
  | cons bvec rest ih =>
    cases hm : bvec.mapping with
    | none => simp [mappedDescs, hm] at h
    | some dma =>
      simp only [mappedDescs, hm, List.length_cons, Nat.add_right_cancel_iff] at h
      simp only [mappedDescs, hm, totalLength_cons, List.map_cons, List.sum_cons, ih h]

theorem descs_nonempty {segments : List Bvec} (h : ∀ bvec ∈ segments, bvec.length ≠ 0) :
    ∀ d ∈ mappedDescs segments, d.length ≠ 0 := by
  induction segments with
  | nil => exact fun d hd => absurd hd List.not_mem_nil
  | cons bvec rest ih =>
    intro d hd
    cases hm : bvec.mapping with
    | none => simp [mappedDescs, hm] at hd
    | some dma =>
      simp only [mappedDescs, hm, List.mem_cons] at hd
      rcases hd with rfl | hd
      · exact h bvec List.mem_cons_self
      · exact ih (fun b hb => h b (List.mem_cons_of_mem _ hb)) d hd

/-- The command of an accepted read or write names the range and the table of its request. -/
structure Encodes (rq : Request) (sglDma : UInt64) (cmd : OpenFlashCommand) : Prop where
  opcode : cmd.opcode = opcodeOf rq.op
  lba : cmd.lba = rq.pos / 8
  nblocks : cmd.nblocks = rq.bytes / 4096
  flags : cmd.flags = Qemu.cmdSgl
  control : cmd.control = .ofNat rq.segments.length
  dataAddr : cmd.dataAddr = sglDma

theorem fillCommand_encodes {rq : Request} (hop : rq.op = .read ∨ rq.op = .write)
    (hsegments : rq.segments ≠ []) (sglDma : UInt64) (q : OpenflashQueue) :
    Encodes rq sglDma (fillCommand rq (opcodeOf rq.op) (mappedOf rq) sglDma q) := by
  have hmapped : mappedOf rq = rq.segments.length := if_pos hop
  have hne : rq.segments.length ≠ 0 := fun h => hsegments (List.length_eq_zero_iff.mp h)
  rw [hmapped]
  unfold fillCommand
  rw [if_pos hne]
  constructor
  · dsimp only
    split_ifs <;> rfl
  · dsimp only
    split_ifs <;> rfl
  · dsimp only
    split_ifs <;> rfl
  · rfl
  · rfl
  · rfl

/-- The range of the command, in bytes of the image. -/
theorem Encodes.range {rq : Request} {sglDma : UInt64} {cmd : OpenFlashCommand}
    (h : Encodes rq sglDma cmd) (haligned : rq.pos % 8 = 0 ∧ rq.bytes % 4096 = 0)
    (hrange : 512 * rq.pos.toNat + rq.bytes.toNat < 2 ^ 64) :
    (cmd.lba * ofBlockSize).toNat = 512 * rq.pos.toNat ∧
      (cmd.nblocks.toUInt64 * ofBlockSize).toNat = rq.bytes.toNat ∧
      cmd.lba.toNat % 2 ^ 52 + cmd.nblocks.toNat
        = (512 * rq.pos.toNat + rq.bytes.toNat) / 4096 ∧
      cmd.nblocks.toNat = rq.bytes.toNat / 4096 := by
  have hpos := congrArg UInt64.toNat haligned.1
  have hbytes := congrArg UInt32.toNat haligned.2
  rw [UInt64.toNat_mod] at hpos
  rw [UInt32.toNat_mod] at hbytes
  change rq.pos.toNat % 8 = 0 at hpos
  change rq.bytes.toNat % 4096 = 0 at hbytes
  have hlba : cmd.lba.toNat = rq.pos.toNat / 8 := by
    rw [h.lba, UInt64.toNat_div]
    rfl
  have hnblocks : cmd.nblocks.toNat = rq.bytes.toNat / 4096 := by
    rw [h.nblocks, UInt32.toNat_div]
    rfl
  refine ⟨?_, ?_, ?_, hnblocks⟩
  · rw [offset_toNat, hlba]
    omega
  · rw [length_toNat, hnblocks]
    omega
  · rw [hlba, hnblocks]
    omega

/-- The table in guest memory has the descriptors of the request. -/
theorem Published.tableAt {memory : Memory} {slot : ℕ} {cmd : OpenFlashCommand} {sglDma : UInt64}
    {sgl : ℕ → OpenFlashSglDesc} {descs : List OpenFlashSglDesc}
    (h : Published memory slot cmd sglDma sgl descs.length) (hfilled : Filled sgl 0 descs) :
    TableAt memory sglDma 0 descs := by
  apply tableAt_of_forall
  intro i d hd
  have hi := (List.getElem?_eq_some_iff.mp hd).1
  have hentry := hfilled i d hd
  rw [Nat.zero_add] at hentry
  rw [UInt64.zero_add, OpenFlashSglDesc.read_of_holds (h.table i hi), hentry]

/-- A command and a table that move the segments of a request in one pass of the loop. -/
structure Prepared (rq : Request) (memory : Memory) (s : OpenFlashState) (cmd : OpenFlashCommand)
    (offset length : UInt64) : Prop where
  flags : cmd.flags = Qemu.cmdSgl
  result : cmd.nblocks.toUInt64.toNat = rq.bytes.toNat / 4096
  start : offset.toNat = 512 * rq.pos.toNat
  total : totalLength rq.descs = rq.bytes.toNat
  fits : (0 : UInt64).toNat + totalLength rq.descs = length.toNat
  nonzero : ∀ d ∈ rq.descs, d.addr ≠ 0
  nonempty : ∀ d ∈ rq.descs, d.length ≠ 0
  table : TableAt memory cmd.dataAddr 0 rq.descs
  data : ∀ memory, rq.data memory = gather memory rq.descs
  transfer : ∀ write, openflashTransfer cmd offset length write s.storage memory
    = sglLoop write cmd.dataAddr offset length rq.descs.length 0 0 s.storage memory

section
variable {rq : Request} {memory : Memory} {s : OpenFlashState} {cmd : OpenFlashCommand}
  {offset length : UInt64}

theorem executeRead_performs (h : Prepared rq memory s cmd offset length) (hop : rq.op = .read)
    (hapart : rq.descs.Pairwise SegmentsApart)
    (hclear : ∀ d ∈ rq.descs,
      ClearOf cmd.dataAddr d.addr.toNat d.length.toNat 0 rq.descs.length) :
    Performed rq memory s (executeRead cmd offset length memory s) := by
  obtain ⟨hok, hstorage, hgather, hframe⟩ := sglLoop_read h.nonzero h.nonempty hapart hclear
    h.table h.fits s.storage
  rw [← h.transfer false] at hok hstorage hgather hframe
  unfold executeRead
  constructor
  · simp only [hok, if_true]
  · simp only [hok, if_true]
    exact h.result
  · intro hwrite
    rw [hop] at hwrite
    cases hwrite
  · intro _
    refine ⟨?_, hstorage, hframe⟩
    rw [h.data, hgather, h.total, h.start]
    rfl

theorem executeWrite_performs (h : Prepared rq memory s cmd offset length) (hop : rq.op = .write)
    (fileOk : Bool) : Performed rq memory s (executeWrite fileOk cmd offset length memory s) := by
  obtain ⟨hok, hmem, hbytes, hframe⟩ := sglLoop_write h.nonzero h.nonempty h.table h.fits
    s.storage
  rw [← h.transfer true] at hok hmem hbytes hframe
  rw [executeWrite_ok h.flags hok]
  constructor
  · rfl
  · exact h.result
  · intro _
    rw [h.data, ← hbytes, ← h.start, ← h.total]
    exact ⟨rfl, hframe, hmem⟩
  · intro hread
    rw [hop] at hread
    cases hread

/-- A command that passes the range check ends in the transfer of its opcode. -/
theorem openflashExecute_transfers (fileOk : Bool) (hranged : Ranged cmd) (hn : cmd.nblocks ≠ 0)
    (hfits : cmd.lba.toNat % 2 ^ 52 + cmd.nblocks.toNat ≤ s.capacity.toNat / 4096)
    (h : Performed rq memory s (executeRanged fileOk cmd (cmd.lba * ofBlockSize)
      (cmd.nblocks.toUInt64 * ofBlockSize) memory s)) :
    Performed rq memory s (openflashExecute fileOk cmd memory s) := by
  rcases openflashExecute_ranged fileOk memory s hranged hn with ⟨hout, -⟩ | ⟨-, a, b, heq⟩
  · omega
  · rw [heq]
    exact ⟨h.status, h.result, h.write, h.read⟩

end

theorem toNat_mod_of_aligned {rq : Request} (h : rq.bytes % 4096 = 0) :
    rq.bytes.toNat % 4096 = 0 := by
  have hnat := congrArg UInt32.toNat h
  rw [UInt32.toNat_mod] at hnat
  exact hnat

/-- The bytes of an accepted read or write, as its descriptors count them. -/
theorem accepted_totalLength {capabilities : UInt64} {rq : Request} {q : OpenflashQueue}
    (hop : rq.op = .read ∨ rq.op = .write)
    (haccepted : (openflashQueueRq capabilities rq q).status = .ok) {sglDma : UInt64}
    (hmapped : WellMapped rq sglDma) : totalLength rq.descs = rq.bytes.toNat := by
  have hcomplete := (openflashQueueRq_translates hop haccepted).complete
  rw [Request.descs, if_pos hop] at hcomplete ⊢
  rw [← hmapped.total]
  exact totalLength_eq hcomplete

theorem accepted_segments_ne {capabilities : UInt64} {rq : Request} {q : OpenflashQueue}
    (hop : rq.op = .read ∨ rq.op = .write)
    (haccepted : (openflashQueueRq capabilities rq q).status = .ok) {sglDma : UInt64}
    (hmapped : WellMapped rq sglDma) : rq.segments ≠ [] := by
  intro hnil
  have htotal := accepted_totalLength hop haccepted hmapped
  rw [Request.descs, if_pos hop, hnil] at htotal
  exact (openflashQueueRq_translates hop haccepted).nonempty (UInt32.toNat_inj.mp htotal.symm)

/-- The command and the table of an accepted read or write are prepared for the device. -/
theorem accepted_prepared {capabilities : UInt64} {rq : Request} {q : OpenflashQueue}
    (hop : rq.op = .read ∨ rq.op = .write)
    (haccepted : (openflashQueueRq capabilities rq q).status = .ok)
    (hmapped : WellMapped rq (q.requests rq.tag).sglDma) {memory : Memory} {slot : ℕ}
    {cmd : OpenFlashCommand} (hencodes : Encodes rq (q.requests rq.tag).sglDma cmd)
    (hpublished : Published memory slot cmd (q.requests rq.tag).sglDma
      ((openflashQueueRq capabilities rq q).queue.requests rq.tag).sgl rq.segments.length)
    (hrange : 512 * rq.pos.toNat + rq.bytes.toNat < 2 ^ 64) (s : OpenFlashState) :
    Prepared rq memory s cmd (cmd.lba * ofBlockSize) (cmd.nblocks.toUInt64 * ofBlockSize) := by
  have htrans := openflashQueueRq_translates hop haccepted
  have htotal := accepted_totalLength hop haccepted hmapped
  have hsegments := accepted_segments_ne hop haccepted hmapped
  obtain ⟨hoffset, hlength, -, hnblocks⟩ := hencodes.range htrans.aligned hrange
  rw [← htrans.complete] at hpublished
  constructor
  · exact hencodes.flags
  · rw [UInt32.toNat_toUInt64, hnblocks]
  · exact hoffset
  · exact htotal
  · rw [hlength, htotal]
    exact Nat.zero_add _
  · exact hmapped.nonzero
  · rw [Request.descs, if_pos hop]
    exact descs_nonempty hmapped.nonempty
  · rw [hencodes.dataAddr]
    exact hpublished.tableAt htrans.filled
  · exact fun memory => data_eq_gather memory hop htrans.complete
  · intro write
    rw [htrans.complete]
    exact openflashTransfer_sgl hencodes.flags hencodes.control
      (fun h => hsegments (List.length_eq_zero_iff.mp h)) hmapped.count
      (by rw [hencodes.dataAddr]; exact hmapped.table) _ _ write s.storage memory

/-- Executing the command and the table of an accepted read or write moves exactly the bytes
of the request. -/
theorem openflashExecute_performs (capabilities : UInt64) (rq : Request) (q : OpenflashQueue)
    (hop : rq.op = .read ∨ rq.op = .write)
    (haccepted : (openflashQueueRq capabilities rq q).status = .ok)
    (hmapped : WellMapped rq (q.requests rq.tag).sglDma) (fileOk : Bool) (memory : Memory)
    (slot : ℕ) (s : OpenFlashState)
    (hcapacity : rq.pos.toNat + rq.bytes.toNat / 512 ≤ s.capacity.toNat / 4096 * 8)
    (hpublished : Published memory slot
      ((openflashQueueRq capabilities rq q).queue.sqCmds q.sqTail) (q.requests rq.tag).sglDma
      ((openflashQueueRq capabilities rq q).queue.requests rq.tag).sgl rq.segments.length) :
    Performed rq memory s
      (openflashExecute fileOk (OpenFlashCommand.read memory slot) memory s) := by
  have htrans := openflashQueueRq_translates hop haccepted
  have hbytes : rq.bytes.toNat ≠ 0 := fun h => htrans.nonempty (UInt32.toNat_inj.mp h)
  have hencodes := fillCommand_encodes hop (accepted_segments_ne hop haccepted hmapped)
    (q.requests rq.tag).sglDma q
  rw [← openflashQueueRq_command haccepted] at hencodes
  rw [OpenFlashCommand.read_of_holds hpublished.command]
  generalize (openflashQueueRq capabilities rq q).queue.sqCmds q.sqTail = cmd
    at hencodes hpublished
  have hblocks := capacity_blocks s
  have hbound := s.capacity.toNat_lt
  have haligned := toNat_mod_of_aligned htrans.aligned.2
  obtain ⟨-, -, hrange, hnblocks⟩ := hencodes.range htrans.aligned (by omega)
  have hnonzero : cmd.nblocks ≠ 0 := by
    intro h
    have hzero : cmd.nblocks.toNat = 0 := congrArg UInt32.toNat h
    omega
  have hprepared := accepted_prepared hop haccepted hmapped hencodes hpublished (by omega) s
  rcases hop with hop | hop
  · have hopcode : cmd.opcode = Qemu.opRead := by rw [hencodes.opcode, hop]; rfl
    apply openflashExecute_transfers fileOk (Or.inl hopcode) hnonzero (by omega)
    unfold executeRanged
    rw [if_pos hopcode]
    apply executeRead_performs hprepared hop hmapped.apart
    intro d hd
    apply clearOf_of_forall
    intro i hi
    rw [UInt64.zero_add, hencodes.dataAddr]
    exact hmapped.clear d hd i (by rwa [← htrans.complete])
  · have hopcode : cmd.opcode = Qemu.opWrite := by rw [hencodes.opcode, hop]; rfl
    have hnot : cmd.opcode ≠ Qemu.opRead := by rw [hopcode]; decide
    apply openflashExecute_transfers fileOk (Or.inr (Or.inl hopcode)) hnonzero (by omega)
    unfold executeRanged
    rw [if_neg hnot, if_pos hopcode]
    exact executeWrite_performs hprepared hop fileOk

/-- A block in two uneven segments. -/
def splitWrite : Request :=
  { tag := 0, op := .write, bytes := 4096, nrPhysSegments := 2
    segments := [⟨1024, some 0x2000⟩, ⟨3072, some 0x3000⟩] }

/-- The command at address zero, the table at `0x1000` and sevens for the data. -/
def splitMemory : Memory := fun a =>
  if a < 0x1000 then
    placed 0 ((openflashQueueRq 0 splitWrite idleQueue).queue.sqCmds idleQueue.sqTail).bytes a
  else if a < 0x2000 then
    placed 0x1000 (OpenFlashSglDesc.bytes ⟨0x2000, 1024⟩ ++ OpenFlashSglDesc.bytes ⟨0x3000, 3072⟩) a
  else 7

theorem splitWrite_performed :
    (openflashQueueRq 0 splitWrite idleQueue).status = .ok ∧
      Performed splitWrite splitMemory fuaDevice
        (openflashExecute true (OpenFlashCommand.read splitMemory 0) splitMemory fuaDevice) := by
  have hok : (openflashQueueRq 0 splitWrite idleQueue).status = .ok := by decide
  refine ⟨hok, openflashExecute_performs 0 splitWrite idleQueue (Or.inr rfl) hok ?_ true
    splitMemory 0 fuaDevice (by decide) ?_⟩
  · constructor
    · decide
    · decide
    · decide
    · decide
    · decide
    · decide
    · decide
  · constructor
    · decide
    · decide

end OpenFlash.Driver
