import OpenFlash.Driver.Admin
import OpenFlash.Driver.Transport
import OpenFlash.Support.DrainLoop

/-! The loops of `openflash_io_irq` and `openflash_drain_admin_cq` as whole calls, on any
completion ring that stays as it is while they run. -/
namespace OpenFlash.Driver
open Abi Support

/-- The place of the request table that an iteration uses; an invalid CID has none. -/
def requestIndex (q : OpenflashQueue) : Option ℕ :=
  let cid := (q.cqes q.cqHead).cid.toNat
  if cid = 0 ∨ q.depth - 1 < cid then none else some (cid - 1)

/-- What `openflash_io_irq` has done so far: the places of the request table it has used, the
requests it has ended and the pages it has unmapped. -/
structure IoIrq where
  queue : OpenflashQueue
  indexed : List ℕ
  ended : List (Request × BlkStatus)
  dma : List DmaEvent

namespace IoIrq

def start (q : OpenflashQueue) : IoIrq := ⟨q, [], [], []⟩

def PhaseMatches (s : IoIrq) : Prop := phaseMatches s.queue

instance : DecidablePred PhaseMatches := fun s => inferInstanceAs (Decidable (phaseMatches s.queue))

def round (s : IoIrq) : IoIrq :=
  { queue := advanceHead (endRequest s.queue).1
    indexed := s.indexed ++ (requestIndex s.queue).toList
    ended := s.ended ++ (endRequest s.queue).2.1.toList
    dma := s.dma ++ (endRequest s.queue).2.2 }

end IoIrq

inductive IrqReturn where
  | none
  | handled
  deriving DecidableEq, Repr

/-- How a call of `openflash_io_irq` ends, with the head it writes to the doorbell. -/
structure IoIrqResult where
  returned : IrqReturn
  doorbell : Option ℕ
  completed : ℕ
  irq : IoIrq

def openflashIoIrq (fuel : ℕ) (q : OpenflashQueue) : Option IoIrqResult :=
  (testLoop IoIrq.PhaseMatches IoIrq.round fuel (.start q)).map fun (completed, s) =>
    if completed = 0 then ⟨.none, none, completed, s⟩
    else ⟨.handled, some s.queue.cqHead, completed, s⟩

/-- One iteration of `openflash_drain_admin_cq`. -/
def AdminQueue.round (q : AdminQueue) : AdminQueue :=
  let q := if q.adminPending then { q.record with adminPending := false, adminDone := true } else q
  q.advanceHead

/-- How a call of `openflash_drain_admin_cq` ends, with the head it writes to the doorbell. -/
structure AdminDrain where
  completed : ℕ
  doorbell : Option ℕ
  queue : AdminQueue

def openflashDrainAdminCq (fuel : ℕ) (q : AdminQueue) : Option AdminDrain :=
  (testLoop AdminQueue.PhaseMatches AdminQueue.round fuel q).map fun (completed, q) =>
    ⟨completed, if completed = 0 then none else some q.cqHead, q⟩

theorem requestIndex_lt {q : OpenflashQueue} {tag : ℕ} (h : requestIndex q = some tag) :
    tag + 2 ≤ q.depth := by
  unfold requestIndex at h
  dsimp only at h
  split_ifs at h with hbad
  rw [← Option.some.inj h]
  omega

/-- The queue as a reader of its completion ring. -/
def OpenflashQueue.reader (q : OpenflashQueue) : Reader :=
  ⟨q.depth, q.cqHead, q.cqPhase, fun slot => (q.cqes slot).flags.toNat &&& 1⟩

def AdminQueue.reader (q : AdminQueue) : Reader :=
  ⟨q.depth, q.cqHead, q.cqPhase, fun slot => (q.cqes slot).flags.toNat &&& 1⟩

theorem endRequest_reader (q : OpenflashQueue) : (endRequest q).1.reader = q.reader := by
  unfold endRequest
  dsimp only
  split_ifs
  · rfl
  · split <;> rfl

theorem IoIrq.round_reader :
    Function.Semiconj (fun s : IoIrq => s.queue.reader) IoIrq.round Reader.advance := by
  intro s
  show (advanceHead (endRequest s.queue).1).reader = s.queue.reader.advance
  rw [← endRequest_reader s.queue]
  rfl

theorem AdminQueue.record_reader (q : AdminQueue) : q.record.reader = q.reader := by
  unfold AdminQueue.record
  split_ifs <;> rfl

theorem AdminQueue.round_reader :
    Function.Semiconj AdminQueue.reader AdminQueue.round Reader.advance := by
  intro q
  unfold AdminQueue.round
  dsimp only
  split_ifs
  · rw [← AdminQueue.record_reader q]
    rfl
  · rfl

/-- Every place that the loop has used is one of the table. -/
theorem IoIrq.iterate_indexed (q : OpenflashQueue) (n : ℕ) :
    ∀ tag ∈ (IoIrq.round^[n] (.start q)).indexed, tag + 2 ≤ q.depth := by
  induction n with
  | zero =>
    intro tag htag
    cases htag
  | succ n ih =>
    intro tag htag
    rw [Function.iterate_succ_apply'] at htag
    rcases List.mem_append.mp htag with hold | hnew
    · exact ih tag hold
    · have hreader := (IoIrq.round_reader.iterate_right n).eq (.start q)
      have hdepth : (IoIrq.round^[n] (.start q)).queue.depth = q.depth :=
        (congrArg Reader.depth hreader).trans (Reader.iterate_depth q.reader n)
      rw [← hdepth]
      exact requestIndex_lt (Option.mem_toList.mp hnew)

/-- A round is the two interrupt steps of the transport. -/
theorem Transport.run_round {t : Transport} {s : IoIrq}
    (h : t.driver = s.queue ∧ t.draining = false) (hmatch : s.PhaseMatches) :
    (t.run [.endRequest, .advanceHead]).driver = s.round.queue ∧
      (t.run [.endRequest, .advanceHead]).draining = false := by
  obtain ⟨hqueue, hidle⟩ := h
  have hdrain : t.step .endRequest = t.drain := if_pos ⟨hidle, hqueue ▸ hmatch⟩
  have hadvance : t.drain.step .advanceHead = t.drain.advance := if_pos rfl
  rw [run, List.foldl_cons, List.foldl_cons, List.foldl_nil, hdrain, hadvance, IoIrq.round,
    ← hqueue]
  exact ⟨rfl, rfl⟩

/-- A call of the interrupt handler is a run of interrupt steps of the transport. -/
theorem openflashIoIrq_run {t : Transport} (hidle : t.draining = false) {fuel : ℕ}
    {r : IoIrqResult} (h : openflashIoIrq fuel t.driver = some r) :
    (t.run (List.replicate r.completed [.endRequest, .advanceHead]).flatten).driver
        = r.irq.queue ∧
      (t.run (List.replicate r.completed [.endRequest, .advanceHead]).flatten).draining
        = false := by
  obtain ⟨⟨n, s⟩, hloop, hr⟩ := Option.map_eq_some_iff.mp h
  obtain ⟨rfl, hrun⟩ := testLoop_eq_some hloop
  have hresult : r.completed = n ∧ r.irq = IoIrq.round^[n] (.start t.driver) := by
    rw [← hr]
    dsimp only
    split_ifs <;> exact ⟨rfl, rfl⟩
  rw [hresult.1, hresult.2]
  exact iterate_runs
    (R := fun (s : IoIrq) (t : Transport) => t.driver = s.queue ∧ t.draining = false)
    (fun _ _ hst hmatch => Transport.run_round hst hmatch) ⟨rfl, hidle⟩ hrun

/-- A round is the five interrupt steps of the admin queue, two of which change nothing when
no command is pending. -/
theorem Admin.run_round {s : Admin} (hidle : s.drainer = .idle) (hmatch : s.queue.PhaseMatches) :
    s.run [.test, .decide, .clear, .complete, .advance] = { s with queue := s.queue.round } := by
  have htest : s.step .test = { s with drainer := .matched } := if_pos ⟨hidle, hmatch⟩
  rw [run, List.foldl_cons, htest]
  by_cases hpending : s.queue.adminPending
  · simp [step, hpending, AdminQueue.round, hidle]
  · simp [step, hpending, AdminQueue.round, hidle]

/-- A call that drains the admin ring is a run of interrupt steps of the admin queue. -/
theorem openflashDrainAdminCq_run {s : Admin} (hidle : s.drainer = .idle) {fuel : ℕ}
    {r : AdminDrain} (h : openflashDrainAdminCq fuel s.queue = some r) :
    s.run (List.replicate r.completed [.test, .decide, .clear, .complete, .advance]).flatten
      = { s with queue := r.queue } := by
  obtain ⟨⟨n, q⟩, hloop, rfl⟩ := Option.map_eq_some_iff.mp h
  obtain ⟨rfl, hrun⟩ := testLoop_eq_some hloop
  refine iterate_runs (R := fun q t => t = { s with queue := q }) ?_ rfl hrun
  rintro q t rfl hmatch
  exact Admin.run_round hidle hmatch

theorem openflashIoIrq_stops {q : OpenflashQueue} (hhead : q.cqHead < q.depth) :
    ∃ r, (∀ fuel, q.depth ≤ fuel → openflashIoIrq fuel q = some r) ∧ r.completed ≤ q.depth ∧
      r.irq = IoIrq.round^[r.completed] (.start q) ∧
      ∀ n, (IoIrq.round^[n] (.start q)).queue.cqHead < q.depth := by
  have htest : ∀ s : IoIrq, s.PhaseMatches ↔ s.queue.reader.Sees := fun s => Iff.rfl
  have hstart : (IoIrq.start q).queue.reader.head < (IoIrq.start q).queue.reader.depth := hhead
  obtain ⟨n, hn, -, hheads, hloop⟩ := Reader.drains _ IoIrq.round_reader htest hstart
  refine ⟨if n = 0 then ⟨.none, none, n, _⟩ else ⟨.handled, some _, n, _⟩,
    fun fuel hfuel => congrArg (Option.map _) (hloop fuel hfuel), ?_, ?_, hheads⟩
  · split_ifs <;> exact hn
  · split_ifs <;> rfl

theorem openflashDrainAdminCq_stops {q : AdminQueue} (hhead : q.cqHead < q.depth) :
    ∃ r, (∀ fuel, q.depth ≤ fuel → openflashDrainAdminCq fuel q = some r) ∧
      r.completed ≤ q.depth ∧ r.queue = AdminQueue.round^[r.completed] q ∧
      ∀ n, (AdminQueue.round^[n] q).cqHead < q.depth := by
  have htest : ∀ q : AdminQueue, q.PhaseMatches ↔ q.reader.Sees := fun q => Iff.rfl
  obtain ⟨n, hn, -, hheads, hloop⟩ := Reader.drains _ AdminQueue.round_reader htest hhead
  exact ⟨_, fun fuel hfuel => congrArg (Option.map _) (hloop fuel hfuel), hn, rfl, hheads⟩

/-- Whatever the completion ring has in it, both loops end within one lap, their heads stay
inside the ring, and the interrupt uses places `[0, depth - 2]` of the request table only. -/
theorem drainLoops_stop :
    (∀ q : OpenflashQueue, q.cqHead < q.depth →
      ∃ r, (∀ fuel, q.depth ≤ fuel → openflashIoIrq fuel q = some r) ∧ r.completed ≤ q.depth ∧
        r.irq = IoIrq.round^[r.completed] (.start q) ∧
        (∀ n ≤ r.completed, (IoIrq.round^[n] (.start q)).queue.cqHead < q.depth) ∧
        ∀ tag ∈ r.irq.indexed, tag + 2 ≤ q.depth) ∧
    ∀ q : AdminQueue, q.cqHead < q.depth →
      ∃ r, (∀ fuel, q.depth ≤ fuel → openflashDrainAdminCq fuel q = some r) ∧
        r.completed ≤ q.depth ∧ r.queue = AdminQueue.round^[r.completed] q ∧
        ∀ n ≤ r.completed, (AdminQueue.round^[n] q).cqHead < q.depth := by
  constructor
  · intro q hhead
    obtain ⟨r, hcall, hcompleted, hirq, hheads⟩ := openflashIoIrq_stops hhead
    refine ⟨r, hcall, hcompleted, hirq, fun n _ => hheads n, ?_⟩
    rw [hirq]
    exact IoIrq.iterate_indexed q r.completed
  · intro q hhead
    obtain ⟨r, hcall, hcompleted, hqueue, hheads⟩ := openflashDrainAdminCq_stops hhead
    exact ⟨r, hcall, hcompleted, hqueue, fun n _ => hheads n⟩

/-- A ring whose every entry matches the first phase and names the first request. -/
def fullRing : ℕ → OpenFlashCompletion := fun _ =>
  { result := 0, userData := 0, sqHead := 0, cid := 1, status := 0, flags := 1 }

theorem fullRing_drains :
    (∃ r, openflashIoIrq 2 { openflashSetupIoQueue 2 (fun _ => 0) with cqes := fullRing } = some r ∧
      r.completed ≤ 2 ∧ ∀ tag ∈ r.irq.indexed, tag + 2 ≤ 2) ∧
    ∃ r, openflashDrainAdminCq 1 { AdminQueue.fresh 1 with cqes := fullRing } = some r ∧
      r.completed ≤ 1 := by
  constructor
  · obtain ⟨r, hcall, hcompleted, -, -, hindexed⟩ := drainLoops_stop.1
      { openflashSetupIoQueue 2 (fun _ => 0) with cqes := fullRing } (by decide)
    exact ⟨r, hcall 2 le_rfl, hcompleted, hindexed⟩
  · obtain ⟨r, hcall, hcompleted, -⟩ := drainLoops_stop.2
      { AdminQueue.fresh 1 with cqes := fullRing } (by decide)
    exact ⟨r, hcall 1 le_rfl, hcompleted⟩

end OpenFlash.Driver
