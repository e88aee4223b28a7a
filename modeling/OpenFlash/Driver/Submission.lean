import OpenFlash.Driver.Queue

/-! What a call of the submission routine can do to the queue. -/
namespace OpenFlash.Driver
open Abi Support

/-- A rejected call may leave its mark in the free slot and in SGL tables only. -/
structure Rejects (q q' : OpenflashQueue) : Prop where
  cqes : q'.cqes = q.cqes
  depth : q'.depth = q.depth
  cqHead : q'.cqHead = q.cqHead
  cqPhase : q'.cqPhase = q.cqPhase
  sqTail : q'.sqTail = q.sqTail
  slots : ∀ slot, slot ≠ q.sqTail → q'.sqCmds slot = q.sqCmds slot
  owners : ∀ tag, (q'.requests tag).rq = (q.requests tag).rq

/-- An accepted call fills the slot at the tail and takes the request of its tag. -/
structure Accepts (rq : Request) (cmd : OpenFlashCommand) (q q' : OpenflashQueue) : Prop where
  free : (q.requests rq.tag).rq = none
  cqes : q'.cqes = q.cqes
  depth : q'.depth = q.depth
  cqHead : q'.cqHead = q.cqHead
  cqPhase : q'.cqPhase = q.cqPhase
  sqTail : q'.sqTail = (q.sqTail + 1) % q.depth
  sqCmds : q'.sqCmds = Function.update q.sqCmds q.sqTail cmd
  owners : ∀ tag, (q'.requests tag).rq = if tag = rq.tag then some rq else (q.requests tag).rq

theorem Rejects.rfl (q : OpenflashQueue) : Rejects q q :=
  ⟨Eq.refl _, Eq.refl _, Eq.refl _, Eq.refl _, Eq.refl _, fun _ _ => Eq.refl _,
    fun _ => Eq.refl _⟩

theorem setRequest_rq (q : OpenflashQueue) (tag other : ℕ) (request : OpenflashRequest) :
    ((q.setRequest tag request).requests other).rq
      = if other = tag then request.rq else (q.requests other).rq := by
  simp only [OpenflashQueue.setRequest, Function.update_apply]
  split_ifs <;> rfl

theorem setRequest_sgl_rejects (q : OpenflashQueue) (tag : ℕ) (sgl : ℕ → OpenFlashSglDesc) :
    Rejects q (q.setRequest tag { q.requests tag with sgl := sgl }) := by
  refine { Rejects.rfl q with owners := fun other => ?_ }
  rw [setRequest_rq]
  split_ifs with h
  · rw [h]
  · rfl

theorem fillCommand_opcode (rq : Request) (opcode : UInt8) (mapped : ℕ) (sglDma : UInt64)
    (q : OpenflashQueue) : (fillCommand rq opcode mapped sglDma q).opcode = opcode := by
  unfold fillCommand
  split_ifs <;> rfl

theorem fillCommand_cid (rq : Request) (opcode : UInt8) (mapped : ℕ) (sglDma : UInt64)
    (q : OpenflashQueue) :
    (fillCommand rq opcode mapped sglDma q).cid = .ofNat (rq.tag + 1) := by
  unfold fillCommand
  split_ifs <;> rfl

/-- Mapped segments leave the SGL bit alone in the flag byte. -/
theorem fillCommand_flags (rq : Request) (opcode : UInt8) {mapped : ℕ} (sglDma : UInt64)
    (q : OpenflashQueue) (h : mapped ≠ 0) :
    (fillCommand rq opcode mapped sglDma q).flags = cmdSgl := by
  unfold fillCommand
  rw [if_pos h]

/-- The command that a call of kind `opcode` with `mapped` segments submits. -/
def Submits (rq : Request) (opcode : UInt8) (mapped : ℕ) (q : OpenflashQueue) (r : Submission) :
    Prop :=
  (r.status ≠ .ok ∧ r.doorbell = none ∧ Rejects q r.queue) ∨
  (r.status = .ok ∧ r.doorbell = some r.queue.sqTail ∧
    Accepts rq (fillCommand rq opcode mapped (q.requests rq.tag).sglDma q) q r.queue)

theorem submitCommand_submits (capabilities : UInt64) (rq : Request) (opcode : UInt8)
    (dir : DmaDir) (mapped : ℕ) (dma : List DmaEvent) (q : OpenflashQueue) :
    Submits rq opcode mapped q (submitCommand capabilities rq opcode dir mapped dma q) := by
  unfold submitCommand
  by_cases hbusy : (q.requests rq.tag).rq ≠ none
  · simp only [hbusy, ne_eq, not_false_eq_true, if_true]
    exact Or.inl ⟨nofun, rfl, Rejects.rfl q⟩
  · rw [not_not] at hbusy
    simp only [hbusy, ne_eq, not_true_eq_false, if_false]
    by_cases hfua : rq.fua = true ∧ capabilities &&& capFua = 0
    · simp only [hfua, if_true, and_self]
      refine Or.inl ⟨nofun, rfl, { Rejects.rfl q with slots := fun slot hslot => ?_ }⟩
      exact Function.update_of_ne hslot ..
    · simp only [hfua, if_false]
      refine Or.inr ⟨rfl, rfl, ?_⟩
      constructor
      · exact hbusy
      · rfl
      · rfl
      · rfl
      · rfl
      · rfl
      · rfl
      · exact fun tag => setRequest_rq _ _ _ _

theorem mapSegments_mapped (dir : DmaDir) (segments : List Bvec) (mapped : ℕ)
    (sgl : ℕ → OpenFlashSglDesc) (h : (mapSegments dir segments mapped sgl).ok = true) :
    (mapSegments dir segments mapped sgl).mapped = mapped + segments.length := by
  induction segments generalizing mapped sgl with
  | nil => rfl
  | cons bvec rest ih =>
    rw [mapSegments] at h ⊢
    cases hm : bvec.mapping with
    | none => simp [hm] at h
    | some dma =>
      simp only [hm] at h ⊢
      rw [ih _ _ h, List.length_cons]
      omega

/-- A table written before the call does not change what the call may do. -/
theorem Submits.of_table {rq : Request} {opcode : UInt8} {mapped : ℕ} {q : OpenflashQueue}
    {sgl : ℕ → OpenFlashSglDesc} {r : Submission}
    (h : Submits rq opcode mapped (q.setRequest rq.tag { q.requests rq.tag with sgl := sgl }) r) :
    Submits rq opcode mapped q r := by
  have hkeep := setRequest_sgl_rejects q rq.tag sgl
  rcases h with ⟨hs, hd, hr⟩ | ⟨hs, hd, ha⟩
  · refine Or.inl ⟨hs, hd, { hr with owners := fun tag => ?_ }⟩
    rw [hr.owners, hkeep.owners]
  · have hsgl : ((q.setRequest rq.tag { q.requests rq.tag with sgl := sgl }).requests
        rq.tag).sglDma = (q.requests rq.tag).sglDma := by
      simp only [OpenflashQueue.setRequest, Function.update_self]
    rw [hsgl] at ha
    refine Or.inr ⟨hs, hd, { ha with free := ?_, owners := fun tag => ?_ }⟩
    · rw [← hkeep.owners]
      exact ha.free
    · rw [ha.owners, hkeep.owners]

theorem submitData_submits (capabilities : UInt64) (rq : Request) (opcode : UInt8) (dir : DmaDir)
    (q : OpenflashQueue) :
    Submits rq opcode rq.segments.length q (submitData capabilities rq opcode dir q) := by
  unfold submitData
  by_cases hbad : rq.bytes = 0 ∨ maxSglEntries < rq.nrPhysSegments
  · rw [if_pos hbad]
    exact Or.inl ⟨nofun, rfl, Rejects.rfl q⟩
  · rw [if_neg hbad]
    dsimp only
    cases hok : (mapSegments dir rq.segments 0 (q.requests rq.tag).sgl).ok with
    | false => exact Or.inl ⟨nofun, rfl, setRequest_sgl_rejects q rq.tag _⟩
    | true =>
      have hmapped := mapSegments_mapped dir rq.segments 0 (q.requests rq.tag).sgl hok
      rw [Nat.zero_add] at hmapped
      rw [if_pos rfl, hmapped]
      exact (submitCommand_submits _ _ _ _ _ _ _).of_table

/-- The opcode and segment count of an operation. -/
def opcodeOf : ReqOp → UInt8
  | .read => opRead
  | .write => opWrite
  | .flush => opFlush
  | .discard => opDiscard
  | .other => 0

def mappedOf (rq : Request) : ℕ :=
  if rq.op = .read ∨ rq.op = .write then rq.segments.length else 0

/-- Every call either leaves the ring as it was or adds its command to it. -/
theorem openflashQueueRq_submits (capabilities : UInt64) (rq : Request) (q : OpenflashQueue) :
    Submits rq (opcodeOf rq.op) (mappedOf rq) q (openflashQueueRq capabilities rq q) := by
  unfold openflashQueueRq
  dsimp only
  by_cases hbad : rq.pos % 8 ≠ 0 ∨ rq.bytes % 4096 ≠ 0 ∨
      q.depth ≤ (UInt16.ofNat (rq.tag + 1)).toNat
  · rw [if_pos hbad]
    exact Or.inl ⟨nofun, rfl, Rejects.rfl q⟩
  · rw [if_neg hbad]
    by_cases hfua : rq.fua = true ∧ rq.op ≠ .write
    · rw [if_pos hfua]
      exact Or.inl ⟨nofun, rfl, Rejects.rfl q⟩
    · rw [if_neg hfua, mappedOf]
      cases hop : rq.op with
      | read => exact submitData_submits capabilities rq opRead .fromDevice q
      | write => exact submitData_submits capabilities rq opWrite .toDevice q
      | flush => exact submitCommand_submits capabilities rq opFlush .toDevice 0 [] q
      | discard => exact submitCommand_submits capabilities rq opDiscard .toDevice 0 [] q
      | other => exact Or.inl ⟨nofun, rfl, Rejects.rfl q⟩

theorem submitCommand_qid (capabilities : UInt64) (rq : Request) (opcode : UInt8) (dir : DmaDir)
    (mapped : ℕ) (dma : List DmaEvent) (q : OpenflashQueue) :
    (submitCommand capabilities rq opcode dir mapped dma q).queue.qid = q.qid := by
  unfold submitCommand
  dsimp only
  split_ifs <;> rfl

theorem openflashQueueRq_qid (capabilities : UInt64) (rq : Request) (q : OpenflashQueue) :
    (openflashQueueRq capabilities rq q).queue.qid = q.qid := by
  have hdata : ∀ opcode dir, (submitData capabilities rq opcode dir q).queue.qid = q.qid := by
    intro opcode dir
    unfold submitData
    dsimp only
    split_ifs
    · rfl
    · exact submitCommand_qid ..
    · rfl
  unfold openflashQueueRq
  dsimp only
  split_ifs
  · rfl
  · rfl
  · cases rq.op with
    | read | write => exact hdata ..
    | flush | discard => exact submitCommand_qid ..
    | other => rfl

end OpenFlash.Driver
