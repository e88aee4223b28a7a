import OpenFlash.Driver.Submission

/-! The DMA mappings of a submission: which segments a call maps, what it writes into the
SGL table of its tag, and what it takes back when it fails. -/
namespace OpenFlash.Driver
open Abi Support

/-- The descriptors of the segments before the first one that cannot be mapped. -/
def mappedDescs : List Bvec → List OpenFlashSglDesc
  | [] => []
  | bvec :: rest =>
      match bvec.mapping with
      | none => []
      | some dma => ⟨dma, bvec.length⟩ :: mappedDescs rest

/-- Only reads and writes have segments. -/
def Request.descs (rq : Request) : List OpenFlashSglDesc :=
  if rq.op = .read ∨ rq.op = .write then mappedDescs rq.segments else []

def dirOf : ReqOp → DmaDir
  | .read => .fromDevice
  | _ => .toDevice

/-- The entries of a table from `start` on. -/
def Filled (sgl : ℕ → OpenFlashSglDesc) (start : ℕ) (descs : List OpenFlashSglDesc) : Prop :=
  ∀ (i : ℕ) d, descs[i]? = some d → sgl (start + i) = d

/-- What the mapping loop leaves behind. -/
structure Maps (dir : DmaDir) (segments : List Bvec) (start : ℕ) (sgl : ℕ → OpenFlashSglDesc)
    (m : Mapping) : Prop where
  mapped : m.mapped = start + (mappedDescs segments).length
  dma : m.dma = (mappedDescs segments).map (.map · dir)
  filled : Filled m.sgl start (mappedDescs segments)
  kept : ∀ i < start, m.sgl i = sgl i
  ok : m.ok = true → (mappedDescs segments).length = segments.length

theorem mapSegments_maps (dir : DmaDir) (segments : List Bvec) (start : ℕ)
    (sgl : ℕ → OpenFlashSglDesc) :
    Maps dir segments start sgl (mapSegments dir segments start sgl) := by
  induction segments generalizing start sgl with
  | nil =>
    constructor
    · rfl
    · rfl
    · intro i d h
      cases h
    · exact fun i _ => rfl
    · exact fun _ => rfl
  | cons bvec rest ih =>
    rw [mapSegments]
    cases hm : bvec.mapping with
    | none =>
      constructor
      · simp [mappedDescs, hm]
      · simp [mappedDescs, hm]
      · simp [mappedDescs, hm, Filled]
      · exact fun i _ => rfl
      · intro h
        cases h
    | some dma =>
      obtain ⟨hmapped, hdma, hfilled, hkept, hok⟩ :=
        ih (start + 1) (Function.update sgl start ⟨dma, bvec.length⟩)
      constructor
      · simp only [mappedDescs, hm, List.length_cons]
        omega
      · simp [mappedDescs, hm, hdma]
      · intro i d hd
        simp only [mappedDescs, hm] at hd
        cases i with
        | zero =>
          obtain rfl : _ = d := Option.some.inj hd
          exact (hkept start (by omega)).trans (Function.update_self ..)
        | succ i =>
          rw [← Nat.add_assoc, Nat.add_right_comm]
          exact hfilled i d hd
      · intro i hi
        exact (hkept i (by omega)).trans (Function.update_of_ne (by omega) ..)
      · intro h
        simp only [mappedDescs, hm, List.length_cons]
        exact congrArg (· + 1) (hok h)

/-- What an accepted read or write leaves in the slot of its tag. -/
structure Translates (rq : Request) (q q' : OpenflashQueue) : Prop where
  aligned : rq.pos % 8 = 0 ∧ rq.bytes % 4096 = 0
  nonempty : rq.bytes ≠ 0
  complete : rq.descs.length = rq.segments.length
  filled : Filled (q'.requests rq.tag).sgl 0 rq.descs
  sglDma : (q'.requests rq.tag).sglDma = (q.requests rq.tag).sglDma

theorem submitCommand_slot {capabilities : UInt64} {rq : Request} {opcode : UInt8} {dir : DmaDir}
    {mapped : ℕ} {dma : List DmaEvent} {q : OpenflashQueue}
    (h : (submitCommand capabilities rq opcode dir mapped dma q).status = .ok) :
    ((submitCommand capabilities rq opcode dir mapped dma q).queue.requests rq.tag).sgl
        = (q.requests rq.tag).sgl ∧
      ((submitCommand capabilities rq opcode dir mapped dma q).queue.requests rq.tag).sglDma
        = (q.requests rq.tag).sglDma := by
  unfold submitCommand at h ⊢
  dsimp only at h ⊢
  by_cases hbusy : (q.requests rq.tag).rq ≠ none
  · rw [if_pos hbusy] at h
    cases h
  · rw [if_neg hbusy] at h ⊢
    by_cases hfua : rq.fua = true ∧ capabilities &&& capFua = 0
    · rw [if_pos hfua] at h
      cases h
    · rw [if_neg hfua]
      simp [OpenflashQueue.setRequest]

theorem submitData_translates {capabilities : UInt64} {rq : Request} {opcode : UInt8}
    {dir : DmaDir} {q : OpenflashQueue} (hop : rq.op = .read ∨ rq.op = .write)
    (haligned : rq.pos % 8 = 0 ∧ rq.bytes % 4096 = 0)
    (h : (submitData capabilities rq opcode dir q).status = .ok) :
    Translates rq q (submitData capabilities rq opcode dir q).queue := by
  unfold submitData at h ⊢
  by_cases hbad : rq.bytes = 0 ∨ maxSglEntries < rq.nrPhysSegments
  · rw [if_pos hbad] at h
    cases h
  · rw [if_neg hbad] at h ⊢
    dsimp only at h ⊢
    have hmaps := mapSegments_maps dir rq.segments 0 (q.requests rq.tag).sgl
    have hdescs : rq.descs = mappedDescs rq.segments := if_pos hop
    split_ifs at h ⊢ with hok
    · obtain ⟨hsgl, hdma⟩ := submitCommand_slot h
      constructor
      · exact haligned
      · exact fun hzero => hbad (Or.inl hzero)
      · rw [hdescs]
        exact hmaps.ok hok
      · rw [hdescs, hsgl]
        simpa [OpenflashQueue.setRequest] using hmaps.filled
      · rw [hdma]
        simp [OpenflashQueue.setRequest]
    · cases h

theorem openflashQueueRq_translates {capabilities : UInt64} {rq : Request} {q : OpenflashQueue}
    (hop : rq.op = .read ∨ rq.op = .write)
    (h : (openflashQueueRq capabilities rq q).status = .ok) :
    Translates rq q (openflashQueueRq capabilities rq q).queue := by
  unfold openflashQueueRq at h ⊢
  dsimp only at h ⊢
  split_ifs at h ⊢ with hbad hfua
  · cases h
  · cases h
  · simp only [not_or, not_not] at hbad
    have haligned : rq.pos % 8 = 0 ∧ rq.bytes % 4096 = 0 := ⟨hbad.1, hbad.2.1⟩
    rcases hop with hop' | hop'
    · rw [hop'] at h ⊢
      exact submitData_translates (Or.inl hop') haligned h
    · rw [hop'] at h ⊢
      exact submitData_translates (Or.inr hop') haligned h

end OpenFlash.Driver
