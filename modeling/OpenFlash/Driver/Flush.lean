import OpenFlash.Driver.Translation

/-! Flush from the block layer to the backing file. The driver validates position and size
of a flush as those of a transfer, before it looks at the operation. -/
namespace OpenFlash.Driver
open Abi Support Qemu

/-- The image has every byte of every completed write of the history, unless a later command
stored over it. -/
def HoldsWrites (s : OpenFlashState) (history : List Execution) (image : Image) : Prop :=
  ∀ (before : List Execution) (e : Execution) (rest : List Execution) (rq : Request),
    history = before ++ e :: rest → rq.op = .write →
    Performed rq e.memory (before.foldl Execution.after s)
      (e.outcome (before.foldl Execution.after s)) →
    ∀ i b, (rq.data e.memory)[i]? = some b →
      Along Execution.after (Execution.Spares (512 * rq.pos.toNat + i))
        ((before ++ [e]).foldl Execution.after s) rest →
      image.bytes (512 * rq.pos.toNat + i) = b

/-- The storage itself has them. -/
theorem storage_holdsWrites (s : OpenFlashState) (history : List Execution) (length : ℕ) :
    HoldsWrites s history ⟨length, (history.foldl Execution.after s).storage⟩ := by
  rintro before e rest rq rfl hop hperformed i b hb hspared
  have hdata := (hperformed.write hop).1
  rw [← hdata, getElem?_readBytes] at hb
  split_ifs at hb with hi
  have hbyte := Option.some.inj hb
  rw [List.foldl_append, List.foldl_cons, List.foldl_nil] at hspared
  rw [List.foldl_append, List.foldl_cons]
  exact (Execution.foldl_spared hspared).trans hbyte

/-- What a flush promises: the driver takes it and rings for a flush command, and once a
device with a working backing file has executed that command, the file is the storage
with every write completed before. -/
structure FlushDurable (capabilities : UInt64) (rq : Request) (q : OpenflashQueue) : Prop where
  accepted : (openflashQueueRq capabilities rq q).status = .ok
  doorbell : (openflashQueueRq capabilities rq q).doorbell = some ((q.sqTail + 1) % q.depth)
  opcode : ((openflashQueueRq capabilities rq q).queue.sqCmds q.sqTail).opcode = Qemu.opFlush
  durable : ∀ (s : OpenFlashState) (history : List Execution) (memory : Memory),
    s.backingFile ≠ none →
    let flushed := history.foldl Execution.after s
    let r := openflashExecute true
      ((openflashQueueRq capabilities rq q).queue.sqCmds q.sqTail) memory flushed
    r.status = .success ∧ r.state.storage = flushed.storage ∧
      ∃ image, r.state.file = some image ∧ image.length = flushed.capacity.toNat ∧
        image.bytes = flushed.storage ∧ HoldsWrites s history image

theorem submitCommand_ok_iff {capabilities : UInt64} {rq : Request} {opcode : UInt8}
    {dir : DmaDir} {mapped : ℕ} {dma : List DmaEvent} {q : OpenflashQueue} (hfua : rq.fua = false) :
    (submitCommand capabilities rq opcode dir mapped dma q).status = .ok ↔
      (q.requests rq.tag).rq = none := by
  unfold submitCommand
  simp only [hfua, Bool.false_eq_true, false_and, if_false]
  by_cases hfree : (q.requests rq.tag).rq = none
  · simp [hfree]
  · simp [hfree, rejected]

/-- The checks in front of a flush. -/
theorem openflashQueueRq_flush_iff (capabilities : UInt64) {rq : Request} {q : OpenflashQueue}
    (hop : rq.op = .flush) (htag : rq.tag + 1 < q.depth) :
    (openflashQueueRq capabilities rq q).status = .ok ↔
      rq.pos % 8 = 0 ∧ rq.bytes % 4096 = 0 ∧ rq.fua = false ∧
        (q.requests rq.tag).rq = none := by
  have hcid : (UInt16.ofNat (rq.tag + 1)).toNat ≤ rq.tag + 1 := by
    rw [UInt16.toNat_ofNat']
    exact Nat.mod_le _ _
  have hdepth : ¬ q.depth ≤ (UInt16.ofNat (rq.tag + 1)).toNat := by omega
  unfold openflashQueueRq
  dsimp only
  by_cases hrange : rq.pos % 8 = 0 ∧ rq.bytes % 4096 = 0
  · have hpasses : ¬ (rq.pos % 8 ≠ 0 ∨ rq.bytes % 4096 ≠ 0 ∨
        q.depth ≤ (UInt16.ofNat (rq.tag + 1)).toNat) := by
      rintro (h | h | h)
      · exact h hrange.1
      · exact h hrange.2
      · exact hdepth h
    rw [if_neg hpasses]
    cases hfua : rq.fua with
    | true => simp [hop, rejected]
    | false =>
      rw [if_neg (by simp only [Bool.false_eq_true, false_and, not_false_eq_true]), hop]
      dsimp only
      rw [submitCommand_ok_iff hfua]
      simp only [hrange, true_and]
  · rw [if_pos (by tauto)]
    simp only [rejected, reduceCtorEq, false_iff]
    exact fun h => hrange ⟨h.1, h.2.1⟩

/-- A flush of a tag in range keeps its promise exactly when the block layer gives it an
aligned position and size, no forced unit access and a tag that is not in use. -/
theorem flush_durable_iff (capabilities : UInt64) (rq : Request) (q : OpenflashQueue)
    (hop : rq.op = .flush) (htag : rq.tag + 1 < q.depth) :
    FlushDurable capabilities rq q ↔
      rq.pos % 8 = 0 ∧ rq.bytes % 4096 = 0 ∧ rq.fua = false ∧
        (q.requests rq.tag).rq = none := by
  constructor
  · intro h
    exact (openflashQueueRq_flush_iff capabilities hop htag).mp h.accepted
  · intro h
    have haccepted := (openflashQueueRq_flush_iff capabilities hop htag).mpr h
    have hopcode : ((openflashQueueRq capabilities rq q).queue.sqCmds q.sqTail).opcode
        = Qemu.opFlush := by
      rw [openflashQueueRq_command haccepted, fillCommand_opcode, hop]
      rfl
    refine ⟨haccepted, ?_, hopcode, ?_⟩
    · rcases openflashQueueRq_submits capabilities rq q with ⟨hne, -, -⟩ | ⟨-, hbell, haccepts⟩
      · exact absurd haccepted hne
      · rw [hbell, haccepts.sqTail]
    · intro s history memory hfile
      rw [← Execution.foldl_backingFile s history] at hfile
      dsimp only
      rw [openflashExecute_flush hopcode memory hfile]
      exact ⟨rfl, rfl, _, rfl, rfl, rfl, storage_holdsWrites s history _⟩

/-- A flush at position zero. -/
def zeroFlush : Request := { tag := 0, op := .flush }

theorem zeroFlush_durable : FlushDurable capFua zeroFlush idleQueue :=
  (flush_durable_iff capFua zeroFlush idleQueue rfl (by decide)).mpr (by decide)

/-- The flush request of the block layer: position `(sector_t)-1` and no bytes. -/
def blkFlush : Request := { tag := 0, op := .flush, pos := 0xffffffffffffffff }

/-- The driver fails it with an I/O error and never rings the doorbell. -/
theorem blkFlush_rejected :
    blkFlush.op = .flush ∧ blkFlush.tag + 1 < idleQueue.depth ∧ blkFlush.bytes = 0 ∧
      (idleQueue.requests blkFlush.tag).rq = none ∧
      (openflashQueueRq capFua blkFlush idleQueue).status = .ioErr ∧
      (openflashQueueRq capFua blkFlush idleQueue).doorbell = none ∧
      ¬ FlushDurable capFua blkFlush idleQueue := by
  have hstatus : (openflashQueueRq capFua blkFlush idleQueue).status = .ioErr := by decide
  refine ⟨rfl, by decide, rfl, rfl, hstatus, by decide, ?_⟩
  intro h
  rw [h.accepted] at hstatus
  cases hstatus

end OpenFlash.Driver
