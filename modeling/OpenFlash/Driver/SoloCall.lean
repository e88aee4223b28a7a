import OpenFlash.Driver.Concurrent
import OpenFlash.Support.Runs

/-! A call of the submission routine that runs alone, access by access, is the call of
`openflashQueueRq`. -/
namespace OpenFlash.Driver
open Abi Support

def DmaEvent.event : DmaEvent → Event
  | .map desc dir => .map desc dir
  | .unmap desc dir => .unmap desc dir

theorem unmapSegments_succ (dir : DmaDir) (sgl : ℕ → OpenFlashSglDesc) (mapped : ℕ) :
    unmapSegments dir sgl (mapped + 1)
      = .unmap (sgl mapped) dir :: unmapSegments dir sgl mapped := by
  simp [unmapSegments, List.range_succ]

namespace OpenflashQueue

theorem setRequest_requests (q : OpenflashQueue) (tag : ℕ) (request : OpenflashRequest) :
    (q.setRequest tag request).requests tag = request := Function.update_self ..

theorem setRequest_setRequest (q : OpenflashQueue) (tag : ℕ) (a b : OpenflashRequest) :
    (q.setRequest tag a).setRequest tag b = q.setRequest tag b := by
  simp only [setRequest, Function.update_idem]

theorem setRequest_same (q : OpenflashQueue) (tag : ℕ) :
    q.setRequest tag (q.requests tag) = q := by
  simp only [setRequest, Function.update_eq_self]

end OpenflashQueue

namespace World
variable {w : World} {rq : Request} {q : OpenflashQueue} {events : List Event}

/-- The last call is at `phase`, with the queue and the events it has made of them. -/
def solo (w : World) (rq : Request) (phase : Phase) (q : OpenflashQueue) (events : List Event) :
    World :=
  { w with
    calls := w.calls ++ [⟨rq, phase⟩]
    queue := q
    log := w.log ++ events.map (Prod.mk w.calls.length) }

theorem solo_setPhase (w : World) (q : OpenflashQueue) (phase phase' : Phase) :
    (w.solo rq phase q events).setPhase w.calls.length phase' = w.solo rq phase' q events := by
  simp [solo, setPhase, modify_append_length]

theorem solo_setSlot (phase : Phase) (tag : ℕ) (request : OpenflashRequest) :
    (w.solo rq phase q events).setSlot tag request
      = w.solo rq phase (q.setRequest tag request) events := rfl

theorem solo_slot (phase : Phase) (tag : ℕ) :
    (w.solo rq phase q events).slot tag = q.requests tag := rfl

theorem solo_emit (phase : Phase) (event : Event) :
    (w.solo rq phase q events).emit w.calls.length event
      = w.solo rq phase q (events ++ [event]) := by
  simp [solo, emit]

/-- The call of number `n` goes on until the world is `w'`. -/
def Reaches (n : ℕ) (w w' : World) : Prop := ∃ k, w.run (List.replicate k (.proceed n)) = w'

theorem Reaches.trans {n : ℕ} {w₁ w₂ w₃ : World} (h : Reaches n w₁ w₂) (h' : Reaches n w₂ w₃) :
    Reaches n w₁ w₃ := by
  obtain ⟨k, rfl⟩ := h
  obtain ⟨k', rfl⟩ := h'
  refine ⟨k + k', ?_⟩
  rw [List.replicate_add]
  exact List.foldl_append ..

theorem solo_proceed {phase : Phase} {w' : World}
    (h : (w.solo rq phase q events).proceed w.calls.length ⟨rq, phase⟩ = w') :
    Reaches w.calls.length (w.solo rq phase q events) w' := by
  refine ⟨1, ?_⟩
  have hcall : (w.solo rq phase q events).calls[w.calls.length]? = some ⟨rq, phase⟩ := by
    simp [solo]
  show (w.solo rq phase q events).next (.proceed w.calls.length) = w'
  rw [next, hcall]
  exact h

/-- The mapping loop, from the segments it has still to go through. -/
theorem solo_mapping (rest : List Bvec) {k : ℕ} (hrest : rq.segments.drop k = rest)
    (request : OpenflashRequest) (events : List Event) :
    Reaches w.calls.length (w.solo rq (.mapping k) (q.setRequest rq.tag request) events)
      (w.solo rq
        (if (mapSegments (dirOf rq.op) rest k request.sgl).ok
          then .submitting (mapSegments (dirOf rq.op) rest k request.sgl).mapped
          else .unwinding (mapSegments (dirOf rq.op) rest k request.sgl).mapped .resource)
        (q.setRequest rq.tag
          { request with sgl := (mapSegments (dirOf rq.op) rest k request.sgl).sgl })
        (events ++ (mapSegments (dirOf rq.op) rest k request.sgl).dma.map DmaEvent.event)) := by
  induction rest generalizing k request events with
  | nil =>
    have hnext : rq.segments[k]? = none := by rw [← List.head?_drop, hrest]; rfl
    apply solo_proceed
    simp only [proceed, hnext, solo_setPhase, mapSegments, if_true, List.map_nil,
      List.append_nil]
  | cons bvec rest ih =>
    have htail : rq.segments.drop (k + 1) = rest := by
      rw [← List.tail_drop, hrest]
      rfl
    have hnext : rq.segments[k]? = some bvec := by rw [← List.head?_drop, hrest]; rfl
    cases hm : bvec.mapping with
    | none =>
      apply solo_proceed
      simp only [proceed, hnext, hm, solo_setPhase, mapSegments]
      simp
    | some dma =>
      have hmap : Reaches w.calls.length
          (w.solo rq (.mapping k) (q.setRequest rq.tag request) events)
          (w.solo rq (.storing k ⟨dma, bvec.length⟩) (q.setRequest rq.tag request)
            (events ++ [.map ⟨dma, bvec.length⟩ (dirOf rq.op)])) := by
        apply solo_proceed
        simp only [proceed, hnext, hm, solo_emit, solo_setPhase]
      have hstore : Reaches w.calls.length
          (w.solo rq (.storing k ⟨dma, bvec.length⟩) (q.setRequest rq.tag request)
            (events ++ [.map ⟨dma, bvec.length⟩ (dirOf rq.op)]))
          (w.solo rq (.mapping (k + 1)) (q.setRequest rq.tag
              { request with sgl := Function.update request.sgl k ⟨dma, bvec.length⟩ })
            (events ++ [.map ⟨dma, bvec.length⟩ (dirOf rq.op)])) := by
        apply solo_proceed
        simp only [proceed, solo_slot, OpenflashQueue.setRequest_requests, solo_setSlot,
          OpenflashQueue.setRequest_setRequest, solo_setPhase]
      have hloop := ih htail
        { request with sgl := Function.update request.sgl k ⟨dma, bvec.length⟩ }
        (events ++ [.map ⟨dma, bvec.length⟩ (dirOf rq.op)])
      simp only [mapSegments, hm, List.map_cons]
      rw [List.append_assoc] at hloop
      exact hmap.trans (hstore.trans hloop)

theorem solo_unwinding (k : ℕ) (status : BlkStatus) (events : List Event) :
    Reaches w.calls.length (w.solo rq (.unwinding k status) q events)
      (w.solo rq (.returned status) q
        (events ++ (unmapSegments (dirOf rq.op) (q.requests rq.tag).sgl k).map DmaEvent.event ++
          [.reject status])) := by
  induction k generalizing events with
  | zero =>
    apply solo_proceed
    simp only [proceed, solo_emit, solo_setPhase]
    simp [unmapSegments]
  | succ k ih =>
    have hunmap : Reaches w.calls.length (w.solo rq (.unwinding (k + 1) status) q events)
        (w.solo rq (.unwinding k status) q
          (events ++ [.unmap ((q.requests rq.tag).sgl k) (dirOf rq.op)])) := by
      apply solo_proceed
      simp only [proceed, solo_slot, solo_emit, solo_setPhase]
    have hrest := ih (events ++ [.unmap ((q.requests rq.tag).sgl k) (dirOf rq.op)])
    rw [unmapSegments_succ, List.map_cons]
    simp only [List.append_assoc, List.singleton_append] at hrest ⊢
    exact hunmap.trans hrest

/-- The call has returned as `r` says. -/
def Finished (w : World) (rq : Request) (r : Submission) (w' : World) : Prop :=
  ∃ owner, w' = solo { w with owner := owner } rq (.returned r.status) r.queue
    (r.dma.map DmaEvent.event ++ [if r.status = .ok then .accept else .reject r.status])

/-- A call that is refused with `k` segments mapped. -/
theorem solo_refused (w : World) (rq : Request) (q : OpenflashQueue) (k : ℕ) (status : BlkStatus)
    (hstatus : status ≠ .ok) (dma : List DmaEvent) :
    ∃ w', Reaches w.calls.length (w.solo rq (.unwinding k status) q (dma.map DmaEvent.event)) w' ∧
      w.Finished rq
        (rejected status q (dma ++ unmapSegments (dirOf rq.op) (q.requests rq.tag).sgl k)) w' := by
  refine ⟨_, solo_unwinding k status _, w.owner, ?_⟩
  unfold rejected
  dsimp only
  rw [if_neg hstatus, List.map_append]

/-- The writes under the lock, from the last check to the doorbell. -/
theorem solo_filling (hlock : w.lock = none) (k : ℕ)
    (hfua : ¬ (rq.fua = true ∧ w.capabilities &&& capFua = 0)) :
    Reaches w.calls.length (solo { w with lock := some w.calls.length } rq (.filling k) q events)
      (solo { w with owner := Function.update w.owner rq.tag w.calls.length } rq (.returned .ok)
        { (q.setSlot (fillCommand rq (opcodeOf rq.op) k (q.requests rq.tag).sglDma q)).setRequest
            rq.tag
            { q.requests rq.tag with
              rq := some rq
              nrMapped := k
              dmaDir := if k ≠ 0 then dirOf rq.op else (q.requests rq.tag).dmaDir } with
          sqTail := (q.sqTail + 1) % q.depth }
        (events ++ [.accept])) := by
  let w₁ : World := { w with lock := some w.calls.length }
  let w₂ : World := { w₁ with owner := Function.update w.owner rq.tag w.calls.length }
  let q₁ := q.setSlot (fillCommand rq (opcodeOf rq.op) 0 (q.requests rq.tag).sglDma q)
  let q₂ := (q₁.setSlot (fillCommand rq (opcodeOf rq.op) k (q₁.requests rq.tag).sglDma
    q₁)).setRequest rq.tag
      { q₁.requests rq.tag with
        nrMapped := k
        dmaDir := if k ≠ 0 then dirOf rq.op else (q₁.requests rq.tag).dmaDir }
  let q₃ := q₂.setRequest rq.tag { q₂.requests rq.tag with rq := some rq }
  let q₄ : OpenflashQueue := { q₃ with sqTail := (q₃.sqTail + 1) % q₃.depth }
  have hfill : Reaches w₁.calls.length (w₁.solo rq (.filling k) q events)
      (w₁.solo rq (.arming k) q₁ events) := by
    apply solo_proceed
    show (if rq.fua = true ∧ w.capabilities &&& capFua = 0 then _ else _) = _
    rw [if_neg hfua]
    exact solo_setPhase w₁ q₁ (.filling k) (.arming k)
  have harm : Reaches w₁.calls.length (w₁.solo rq (.arming k) q₁ events)
      (w₁.solo rq .publishing q₂ events) := by
    apply solo_proceed
    exact solo_setPhase w₁ q₂ (.arming k) .publishing
  have hpublish : Reaches w₁.calls.length (w₁.solo rq .publishing q₂ events)
      (w₂.solo rq .advancing q₃ (events ++ [.accept])) := by
    apply solo_proceed
    show ((w₂.solo rq .publishing q₃ events).emit w₂.calls.length .accept).setPhase
      w₂.calls.length .advancing = _
    rw [solo_emit, solo_setPhase]
  have hadvance : Reaches w₂.calls.length (w₂.solo rq .advancing q₃ (events ++ [.accept]))
      (w₂.solo rq .ringing q₄ (events ++ [.accept])) := by
    apply solo_proceed
    exact solo_setPhase w₂ q₄ .advancing .ringing
  have hring : Reaches w₂.calls.length (w₂.solo rq .ringing q₄ (events ++ [.accept]))
      (solo { w₂ with lock := none } rq (.returned .ok) q₄ (events ++ [.accept])) := by
    apply solo_proceed
    exact solo_setPhase { w₂ with lock := none } q₄ .ringing (.returned .ok)
  have hunlocked : ({ w₂ with lock := none } : World)
      = { w with owner := Function.update w.owner rq.tag w.calls.length } := by
    simp only [w₂, w₁, ← hlock]
  have hqueue : q₄ = { (q.setSlot (fillCommand rq (opcodeOf rq.op) k (q.requests rq.tag).sglDma
      q)).setRequest rq.tag
        { q.requests rq.tag with
          rq := some rq
          nrMapped := k
          dmaDir := if k ≠ 0 then dirOf rq.op else (q.requests rq.tag).dmaDir } with
      sqTail := (q.sqTail + 1) % q.depth } := by
    simp only [q₄, q₃, q₂, q₁, OpenflashQueue.setSlot, OpenflashQueue.setRequest,
      Function.update_idem, Function.update_self]
    rfl
  rw [hunlocked] at hring
  rw [← hqueue]
  exact hfill.trans (harm.trans (hpublish.trans (hadvance.trans hring)))

theorem solo_submitting (rq : Request) (hlock : w.lock = none) (k : ℕ) (dma : List DmaEvent) :
    ∃ w', Reaches w.calls.length (w.solo rq (.submitting k) q (dma.map DmaEvent.event)) w' ∧
      w.Finished rq
        (submitCommand w.capabilities rq (opcodeOf rq.op) (dirOf rq.op) k dma q) w' := by
  have hunlocked : ¬ w.lock ≠ none := not_not.mpr hlock
  unfold submitCommand
  dsimp only
  by_cases hbusy : (q.requests rq.tag).rq ≠ none
  · have hrefuse : Reaches w.calls.length
        (w.solo rq (.submitting k) q (dma.map DmaEvent.event))
        (w.solo rq (.unwinding k .resource) q (dma.map DmaEvent.event)) := by
      apply solo_proceed
      show (if w.lock ≠ none then _ else if (q.requests rq.tag).rq ≠ none then _ else _) = _
      rw [if_neg hunlocked, if_pos hbusy]
      exact solo_setPhase w q (.submitting k) (.unwinding k .resource)
    obtain ⟨w', hreach, hdone⟩ := solo_refused w rq q k .resource (by decide) dma
    rw [if_pos hbusy]
    exact ⟨w', hrefuse.trans hreach, hdone⟩
  · have henter : Reaches w.calls.length
        (w.solo rq (.submitting k) q (dma.map DmaEvent.event))
        (solo { w with lock := some w.calls.length } rq (.filling k) q
          (dma.map DmaEvent.event)) := by
      apply solo_proceed
      show (if w.lock ≠ none then _ else if (q.requests rq.tag).rq ≠ none then _ else _) = _
      rw [if_neg hunlocked, if_neg hbusy]
      exact solo_setPhase { w with lock := some w.calls.length } q (.submitting k) (.filling k)
    rw [if_neg hbusy]
    by_cases hfua : rq.fua = true ∧ w.capabilities &&& capFua = 0
    · have hrefuse : Reaches w.calls.length
          (solo { w with lock := some w.calls.length } rq (.filling k) q (dma.map DmaEvent.event))
          (w.solo rq (.unwinding k .notSupp)
            (q.setSlot (plainCommand rq (opcodeOf rq.op) q)) (dma.map DmaEvent.event)) := by
        apply solo_proceed
        show (if rq.fua = true ∧ w.capabilities &&& capFua = 0 then _ else _) = _
        rw [if_pos hfua]
        have hsame : w = { w with lock := none } := by rw [← hlock]
        conv_rhs => rw [hsame]
        exact solo_setPhase { w with lock := none }
          (q.setSlot (plainCommand rq (opcodeOf rq.op) q)) (.filling k) (.unwinding k .notSupp)
      obtain ⟨w', hreach, hdone⟩ := solo_refused w rq
        (q.setSlot (plainCommand rq (opcodeOf rq.op) q)) k .notSupp (by decide) dma
      rw [if_pos hfua]
      exact ⟨w', henter.trans (hrefuse.trans hreach), hdone⟩
    · rw [if_neg hfua]
      exact ⟨_, henter.trans (solo_filling hlock k hfua),
        Function.update w.owner rq.tag w.calls.length, rfl⟩

theorem solo_data (hlock : w.lock = none)
    (hbound : ¬ (rq.bytes = 0 ∨ maxSglEntries < rq.nrPhysSegments)) :
    ∃ w', Reaches w.calls.length (w.solo rq (.mapping 0) q []) w' ∧
      w.Finished rq (submitData w.capabilities rq (opcodeOf rq.op) (dirOf rq.op) q) w' := by
  have hmaps := solo_mapping (w := w) (q := q) rq.segments List.drop_zero (q.requests rq.tag) []
  rw [OpenflashQueue.setRequest_same, List.nil_append] at hmaps
  unfold submitData
  dsimp only
  rw [if_neg hbound]
  generalize mapSegments (dirOf rq.op) rq.segments 0 (q.requests rq.tag).sgl = m at hmaps ⊢
  cases hok : m.ok with
  | true =>
    simp only [hok, if_true] at hmaps ⊢
    obtain ⟨w', hreach, hdone⟩ := solo_submitting rq hlock m.mapped m.dma
    exact ⟨w', hmaps.trans hreach, hdone⟩
  | false =>
    simp only [hok, Bool.false_eq_true, if_false] at hmaps ⊢
    obtain ⟨w', hreach, hdone⟩ := solo_refused w rq
      (q.setRequest rq.tag { q.requests rq.tag with sgl := m.sgl }) m.mapped .resource
      (by decide) m.dma
    rw [OpenflashQueue.setRequest_requests] at hdone
    exact ⟨w', hmaps.trans hreach, hdone⟩

/-- With the lock free and nothing else running, a call returns what `openflashQueueRq` says,
with its queue and its DMA mapping calls in order. -/
theorem queueRq_solo (w : World) (rq : Request) (hlock : w.lock = none) :
    ∃ w', Reaches w.calls.length (w.queueRq rq) w' ∧
      w.Finished rq (openflashQueueRq w.capabilities rq w.queue) w' := by
  have hentry : w.queueRq rq = w.solo rq (entry w.queue.depth rq) w.queue [] := by
    simp [queueRq, solo]
  have hrefused : ∀ status, status ≠ BlkStatus.ok →
      ∃ w', Reaches w.calls.length (w.solo rq (.unwinding 0 status) w.queue []) w' ∧
        w.Finished rq (rejected status w.queue []) w' :=
    fun status hstatus => solo_refused w rq w.queue 0 status hstatus []
  rw [hentry, entry, openflashQueueRq]
  by_cases hbad : rq.pos % 8 ≠ 0 ∨ rq.bytes % 4096 ≠ 0 ∨
      w.queue.depth ≤ (UInt16.ofNat (rq.tag + 1)).toNat
  · rw [if_pos hbad, if_pos hbad]
    exact hrefused .ioErr (by decide)
  · rw [if_neg hbad, if_neg hbad]
    by_cases hfua : rq.fua = true ∧ rq.op ≠ .write
    · rw [if_pos hfua, if_pos hfua]
      exact hrefused .notSupp (by decide)
    · rw [if_neg hfua, if_neg hfua]
      have hdata : ∀ opcode dir, opcodeOf rq.op = opcode → dirOf rq.op = dir →
          ∃ w', Reaches w.calls.length
              (w.solo rq
                (if rq.bytes = 0 ∨ maxSglEntries < rq.nrPhysSegments then .unwinding 0 .ioErr
                  else .mapping 0) w.queue []) w' ∧
            w.Finished rq (submitData w.capabilities rq opcode dir w.queue) w' := by
        rintro opcode dir rfl rfl
        by_cases hbound : rq.bytes = 0 ∨ maxSglEntries < rq.nrPhysSegments
        · rw [if_pos hbound, submitData, if_pos hbound]
          exact hrefused .ioErr (by decide)
        · rw [if_neg hbound]
          exact solo_data hlock hbound
      have hplain : ∀ opcode, opcodeOf rq.op = opcode → dirOf rq.op = .toDevice →
          ∃ w', Reaches w.calls.length (w.solo rq (.submitting 0) w.queue []) w' ∧
            w.Finished rq (submitCommand w.capabilities rq opcode .toDevice 0 [] w.queue) w' := by
        rintro opcode rfl hdir
        rw [← hdir]
        exact solo_submitting rq hlock 0 []
      cases hop : rq.op with
      | read => exact hdata _ _ (by rw [hop]; rfl) (by rw [hop]; rfl)
      | write => exact hdata _ _ (by rw [hop]; rfl) (by rw [hop]; rfl)
      | flush => exact hplain _ (by rw [hop]; rfl) (by rw [hop]; rfl)
      | discard => exact hplain _ (by rw [hop]; rfl) (by rw [hop]; rfl)
      | other => exact hrefused .notSupp (by decide)

end World
end OpenFlash.Driver
