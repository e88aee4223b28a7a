import OpenFlash.Driver.Protocol
import OpenFlash.Qemu.Backpressure
import OpenFlash.Support.Progress

/-! The completion interrupt of the I/O queue. The device raises its vector when a submission
loop ends, the vector stays raised until the handler starts, and the handler drains entries
until the phase test fails. -/
namespace OpenFlash.Driver
open Abi Support

/-- Where `openflash_io_irq` stands, with the entries it has completed. -/
inductive Handler where
  | idle
  | looping (completed : ℕ)
  | leaving (completed : ℕ)
  deriving DecidableEq, Repr

def Handler.completed : Handler → ℕ
  | .idle => 0
  | .looping completed => completed
  | .leaving completed => completed

/-- The two ends of the ring with the interrupt between them: the vectors raised and not yet
handled, the handler, and its writes to the completion head doorbell still under way. -/
structure IrqTransport where
  transport : Transport
  msixEnabled : Bool
  raised : ℕ → Bool
  handler : Handler
  heads : List ℕ

inductive IrqAction where
  | submit (rq : Request)
  | enterLoop
  | iterate (fileOk : Bool) (memory : Memory)
  | interrupt
  | handle
  | writeHead

/-- Everything but a submission is work that the device and the interrupt owe. -/
def IrqAction.Owed : IrqAction → Prop
  | .submit _ => False
  | _ => True

namespace IrqTransport

def start (capabilities : UInt64) (driver : OpenflashQueue) (device : Qemu.OpenFlashState) :
    IrqTransport := ⟨.start capabilities driver device, true, fun _ => false, .idle, []⟩

def Enabled (s : IrqTransport) : IrqAction → Prop
  | .submit rq => rq.tag + 2 ≤ s.transport.driver.depth
  | .enterLoop => s.transport.loop = none ∧ s.transport.doorbells ≠ []
  | .iterate _ _ => s.transport.loop ≠ none
  | .interrupt => s.raised 1 = true ∧ s.handler = .idle
  | .handle => s.handler ≠ .idle
  | .writeHead => s.heads ≠ []

instance (s : IrqTransport) : (action : IrqAction) → Decidable (s.Enabled action)
  | .submit _ => inferInstanceAs (Decidable (_ ≤ _))
  | .enterLoop => inferInstanceAs (Decidable (_ ∧ _))
  | .iterate _ _ => inferInstanceAs (Decidable (_ ≠ _))
  | .interrupt => inferInstanceAs (Decidable (_ ∧ _))
  | .handle => inferInstanceAs (Decidable (_ ≠ _))
  | .writeHead => inferInstanceAs (Decidable (_ ≠ _))

/-- `msix_notify` for the queue whose loop has ended. -/
def notify (s : IrqTransport) : ℕ → Bool :=
  if s.msixEnabled then Function.update s.raised (s.transport.device.queues 1).vector true
  else s.raised

/-- One evaluation of the loop condition in the device; the exit notifies. -/
def iterate (s : IrqTransport) (fileOk : Bool) (memory : Memory) : IrqTransport :=
  let t := s.transport.iterate fileOk memory
  { s with transport := t, raised := if t.loop = none then s.notify else s.raised }

/-- One step of the handler. Its exit writes the head to the doorbell if it completed any
entry, and returns `IRQ_NONE` otherwise. -/
def handle (s : IrqTransport) : IrqTransport :=
  match s.handler with
  | .idle => s
  | .looping completed =>
      if s.transport.draining then
        { s with transport := s.transport.advance, handler := .looping (completed + 1) }
      else if phaseMatches s.transport.driver then { s with transport := s.transport.drain }
      else { s with handler := .leaving completed }
  | .leaving completed =>
      { s with
        handler := .idle
        heads := if completed = 0 then s.heads else s.heads ++ [s.transport.driver.cqHead] }

/-- The oldest write to the head doorbell reaches the device. -/
def writeHead (s : IrqTransport) : IrqTransport :=
  match s.heads with
  | [] => s
  | head :: rest =>
      { s with
        transport := { s.transport with
          device := (Qemu.openflashMmioWrite (Qemu.cqDoorbell 1) (.ofNat head)
            s.transport.device).1 }
        heads := rest }

def next (s : IrqTransport) : IrqAction → IrqTransport
  | .submit rq => { s with transport := s.transport.submit rq }
  | .enterLoop => { s with transport := s.transport.enterLoop }
  | .iterate fileOk memory => s.iterate fileOk memory
  | .interrupt => { s with raised := Function.update s.raised 1 false, handler := .looping 0 }
  | .handle => s.handle
  | .writeHead => s.writeHead

def step (s : IrqTransport) (action : IrqAction) : IrqTransport :=
  if s.Enabled action then s.next action else s

def run (s : IrqTransport) (actions : List IrqAction) : IrqTransport := actions.foldl step s

/-- A step that device or interrupt still have to take. -/
def Works (s : IrqTransport) (action : IrqAction) : Prop := action.Owed ∧ s.Enabled action

/-- The head that the device has once all writes have arrived. -/
def published (s : IrqTransport) : ℕ :=
  s.heads.getLast?.getD (s.transport.device.queues 1).cqHead

/-- A raised vector or a running handler stands behind every entry not yet drained, unless the
device is still in its loop. -/
structure Inv (d : ℕ) (s : IrqTransport) : Prop where
  transport : s.transport.Inv d
  msix : s.msixEnabled = true
  vector : (s.transport.device.queues 1).vector = 1
  draining : s.transport.draining = true → ∃ completed, s.handler = .looping completed
  caughtUp : s.transport.loop = none → s.raised 1 = false →
    (∀ completed, s.handler ≠ .looping completed) →
    s.transport.advanced = s.transport.executed.length
  heads_lt : ∀ head ∈ s.heads, head < d
  published : s.handler.completed = 0 → s.published = s.transport.driver.cqHead

variable {d : ℕ} {s : IrqTransport}

theorem submit_cqHead (t : Transport) (rq : Request) :
    (t.submit rq).driver.cqHead = t.driver.cqHead := by
  rcases openflashQueueRq_submits t.capabilities rq t.driver with ⟨-, -, hr⟩ | ⟨-, -, ha⟩
  · exact hr.cqHead
  · exact ha.cqHead

theorem submit_inv (h : s.Inv d) {rq : Request} (htag : rq.tag + 2 ≤ s.transport.driver.depth) :
    Inv d { s with transport := s.transport.submit rq } := by
  refine { h with transport := Transport.submit_inv h.transport htag, published := fun hzero => ?_ }
  exact (h.published hzero).trans (submit_cqHead s.transport rq).symm

theorem enterLoop_inv (h : s.Inv d) (hloop : s.transport.loop = none)
    (hbells : s.transport.doorbells ≠ []) :
    Inv d { s with transport := s.transport.enterLoop } := by
  have hinv := Transport.enterLoop_inv h.transport hloop
  obtain ⟨tail, rest, hcons⟩ := List.exists_cons_of_ne_nil hbells
  have heq : s.transport.enterLoop = { s.transport with
      doorbells := rest
      loop := if Qemu.doorbellAccepted s.transport.device 1 tail then some tail else none } := by
    unfold Transport.enterLoop
    rw [hcons]
  rw [heq] at hinv ⊢
  exact { h with transport := hinv, caughtUp := fun _ => h.caughtUp hloop }

theorem iterate_inv (h : s.Inv d) (hloop : s.transport.loop ≠ none) (fileOk : Bool)
    (memory : Memory) : (s.iterate fileOk memory).Inv d := by
  have hinv := Transport.iterate_inv h.transport fileOk memory
  obtain ⟨tail, htail⟩ := Option.ne_none_iff_exists'.mp hloop
  have hnotify : s.notify 1 = true := by
    rw [notify, if_pos h.msix, h.vector, Function.update_self]
  by_cases hmeets : (s.transport.device.queues 1).sqHead = tail
  · have heq : s.transport.iterate fileOk memory = { s.transport with loop := none } := by
      unfold Transport.iterate
      simp only [htail, if_pos hmeets]
    rw [heq] at hinv
    unfold iterate
    rw [heq]
    refine { h with transport := hinv, caughtUp := fun _ hlow => ?_ }
    dsimp only at hlow
    rw [if_pos rfl, hnotify] at hlow
    cases hlow
  · have heq : s.transport.iterate fileOk memory = s.transport.process fileOk memory := by
      unfold Transport.iterate
      simp only [htail, if_neg hmeets]
    have hfetches := h.transport.fetches htail hmeets
    obtain ⟨a, x, device, -, -, -, -, -, hqueue, -, hprocess⟩ :=
      h.transport.process_eq (by omega) fileOk memory
    rw [heq, hprocess] at hinv
    unfold iterate
    rw [heq, hprocess]
    refine { h with transport := hinv, vector := ?_, caughtUp := ?_, published := ?_ }
    · show (device.queues 1).vector = 1
      rw [hqueue]
      exact h.vector
    · intro hnone
      exact absurd hnone hloop
    · intro hzero
      show s.heads.getLast?.getD (device.queues 1).cqHead = _
      rw [hqueue]
      exact h.published hzero

theorem interrupt_inv (h : s.Inv d) (hidle : s.handler = .idle) :
    Inv d { s with raised := Function.update s.raised 1 false, handler := .looping 0 } where
  transport := h.transport
  msix := h.msix
  vector := h.vector
  draining := fun _ => ⟨0, rfl⟩
  caughtUp := fun _ _ hnot => absurd rfl (hnot 0)
  heads_lt := h.heads_lt
  published := fun _ => h.published (congrArg Handler.completed hidle)

/-- The handler leaves its loop only once it has caught up with the device. -/
theorem handle_inv (h : s.Inv d) : s.handle.Inv d := by
  have hd := h.transport.depth_valid.1
  unfold handle
  cases hhandler : s.handler with
  | idle => exact h
  | looping completed =>
    dsimp only
    split_ifs with hdraining hmatch
    · refine { h with
        transport := Transport.advance_inv h.transport hdraining
        draining := fun hfalse => ?_
        caughtUp := fun _ _ hnot => absurd rfl (hnot (completed + 1))
        published := fun hzero => absurd hzero (Nat.succ_ne_zero completed) }
      cases hfalse
    · have hnot : s.transport.draining = false := Bool.eq_false_iff.mpr hdraining
      have hhead : s.transport.drain.driver.cqHead = s.transport.driver.cqHead := by
        obtain ⟨a, x, dma, -, -, -, heq⟩ := h.transport.endRequest_eq hnot hmatch
        show (Driver.endRequest s.transport.driver).1.cqHead = _
        rw [heq]
        rfl
      refine { h with
        transport := Transport.drain_inv h.transport hnot hmatch
        draining := fun _ => ⟨completed, rfl⟩
        caughtUp := fun _ _ hne => absurd rfl (hne completed)
        published := fun hzero => ?_ }
      exact (h.published (by rw [hhandler]; exact hzero)).trans hhead.symm
    · have hbounds := h.transport.counts.drained_bounds
      have hle := h.transport.counts.drained_le
      have hlast := mt h.transport.phaseMatches_iff.mpr hmatch
      refine { h with draining := ?_, caughtUp := fun _ _ _ => ?_, published := fun hzero => ?_ }
      · exact fun htrue => absurd htrue hdraining
      · dsimp only
        omega
      · exact h.published (by rw [hhandler]; exact hzero)
  | leaving completed =>
    dsimp only
    have hnot : ∀ n, s.handler ≠ .looping n := by
      intro n
      rw [hhandler]
      exact fun hlooping => by cases hlooping
    have hhead : s.transport.driver.cqHead < d := by
      rw [h.transport.counts.cqHead]
      exact Nat.mod_lt _ (by omega)
    refine { h with draining := ?_, caughtUp := ?_, heads_lt := ?_, published := fun _ => ?_ }
    · intro htrue
      obtain ⟨n, hn⟩ := h.draining htrue
      exact absurd hn (hnot n)
    · exact fun hloop hlow _ => h.caughtUp hloop hlow hnot
    · dsimp only
      split_ifs
      · exact h.heads_lt
      · intro head hmem
        rcases List.mem_append.mp hmem with hold | hnew
        · exact h.heads_lt head hold
        · rw [List.mem_singleton.mp hnew]
          exact hhead
    · unfold IrqTransport.published
      dsimp only
      split_ifs with hzero
      · exact h.published (by rw [hhandler]; exact hzero)
      · rw [List.getLast?_append]
        rfl

/-- The invariant of the transport does not read the head that the device was told. -/
theorem transport_of_cqHead {t : Transport} (h : t.Inv d) (head : ℕ) :
    Transport.Inv d { t with
      device := Qemu.updateQueue t.device 1 { t.device.queues 1 with cqHead := head } } := by
  refine ⟨h.depth_valid, { h.counts with
    deviceDepth := ?_, sqHead := ?_, cqTail := ?_, devicePhase := ?_ },
    { h.doorbells with enabled := ?_ }, { h.tags with }, { h.rings with }, { h.logs with }⟩
  · simpa using h.counts.deviceDepth
  · simpa using h.counts.sqHead
  · simpa using h.counts.cqTail
  · simpa using h.counts.devicePhase
  · simpa using h.doorbells.enabled

/-- The device takes the head that the handler wrote. -/
theorem writeHead_eq (h : s.Inv d) {head : ℕ} {rest : List ℕ} (hheads : s.heads = head :: rest) :
    s.writeHead = { s with
      transport := { s.transport with
        device := Qemu.updateQueue s.transport.device 1
          { s.transport.device.queues 1 with cqHead := head } }
      heads := rest } := by
  have hlt := h.heads_lt head (by rw [hheads]; exact List.mem_cons_self)
  have hd := h.transport.depth_valid.2
  have hnum : (UInt64.ofNat head).toNat = head := by
    rw [UInt64.toNat_ofNat']
    exact Nat.mod_eq_of_lt (by omega)
  unfold writeHead
  simp only [hheads, Qemu.openflashMmioWrite_cqDoorbell, hnum, h.transport.counts.deviceDepth,
    if_pos hlt, Nat.mod_eq_of_lt (show head < 2 ^ 16 by omega)]

theorem writeHead_inv (h : s.Inv d) : s.writeHead.Inv d := by
  cases hheads : s.heads with
  | nil =>
    unfold writeHead
    rw [hheads]
    exact h
  | cons head rest =>
    rw [writeHead_eq h hheads]
    refine { h with
      transport := transport_of_cqHead h.transport head
      vector := ?_
      heads_lt := ?_
      published := fun hzero => ?_ }
    · simpa using h.vector
    · intro other hmem
      exact h.heads_lt other (by rw [hheads]; exact List.mem_cons_of_mem _ hmem)
    · rw [← h.published hzero]
      unfold IrqTransport.published
      rw [hheads]
      cases rest with
      | nil => simp
      | cons second rest =>
        rw [List.getLast?_cons_cons, List.getLast?_eq_some_getLast (List.cons_ne_nil second rest)]
        rfl

theorem step_inv (h : s.Inv d) (action : IrqAction) : (s.step action).Inv d := by
  unfold step
  split_ifs with henabled
  · cases action with
    | submit rq => exact submit_inv h henabled
    | enterLoop => exact enterLoop_inv h henabled.1 henabled.2
    | iterate fileOk memory => exact iterate_inv h henabled fileOk memory
    | interrupt => exact interrupt_inv h henabled.2
    | handle => exact handle_inv h
    | writeHead => exact writeHead_inv h
  · exact h

theorem run_inv (h : s.Inv d) (actions : List IrqAction) : (s.run actions).Inv d := by
  induction actions generalizing s with
  | nil => exact h
  | cons action rest ih => exact ih (step_inv h action)

theorem start_inv {driver : OpenflashQueue} {device : Qemu.OpenFlashState}
    (hagrees : Transport.Agrees d driver device) (hvector : (device.queues 1).vector = 1)
    (hhead : (device.queues 1).cqHead = 0) (capabilities : UInt64) :
    (start capabilities driver device).Inv d where
  transport := Transport.start_inv hagrees capabilities
  msix := rfl
  vector := hvector
  draining := fun htrue => by cases htrue
  caughtUp := fun _ _ _ => rfl
  heads_lt := fun _ hmem => absurd hmem List.not_mem_nil
  published := fun _ => hhead.trans hagrees.cqHead.symm

def Handler.work : Handler → ℕ
  | .idle => 0
  | .looping _ => 3
  | .leaving _ => 2

/-- A bound on the steps that device and interrupt still have to take. A command costs an
iteration, its entry the two halves of a drain; a doorbell costs a loop, the vector it raises,
the handler and the write of the head. -/
def work (s : IrqTransport) : ℕ :=
  3 * (s.transport.accepted.length - s.transport.executed.length)
    + 2 * (s.transport.executed.length - s.transport.drained.length)
    + s.transport.draining.toNat
    + 6 * s.transport.doorbells.length
    + 5 * s.transport.loop.toList.length
    + 4 * (s.raised 1).toNat
    + Handler.work s.handler
    + s.heads.length

theorem enterLoop_work (hbells : s.transport.doorbells ≠ []) (hloop : s.transport.loop = none) :
    ({ s with transport := s.transport.enterLoop } : IrqTransport).work < s.work := by
  obtain ⟨tail, rest, hcons⟩ := List.exists_cons_of_ne_nil hbells
  unfold work Transport.enterLoop
  simp only [hcons, hloop, List.length_cons, Option.toList_none, List.length_nil]
  split_ifs
  · simp only [Option.toList_some, List.length_singleton]
    omega
  · simp only [Option.toList_none, List.length_nil]
    omega

theorem iterate_work (h : s.Inv d) (hloop : s.transport.loop ≠ none) (fileOk : Bool)
    (memory : Memory) : (s.iterate fileOk memory).work < s.work := by
  obtain ⟨tail, htail⟩ := Option.ne_none_iff_exists'.mp hloop
  by_cases hmeets : (s.transport.device.queues 1).sqHead = tail
  · have heq : s.transport.iterate fileOk memory = { s.transport with loop := none } := by
      unfold Transport.iterate
      simp only [htail, if_pos hmeets]
    have hbit := (s.notify 1).toNat_le
    unfold work iterate
    simp only [heq, htail, if_true, Option.toList_none, Option.toList_some, List.length_nil,
      List.length_singleton]
    omega
  · have heq : s.transport.iterate fileOk memory = s.transport.process fileOk memory := by
      unfold Transport.iterate
      simp only [htail, if_neg hmeets]
    have hfetches := h.transport.fetches htail hmeets
    have hle := h.transport.counts.drained_le
    unfold work iterate
    simp only [heq, Transport.process, if_neg hloop, List.length_append, List.length_singleton]
    omega

theorem handle_work (h : s.Inv d) (hbusy : s.handler ≠ .idle) : s.handle.work < s.work := by
  have hbounds := h.transport.counts.drained_bounds
  unfold handle
  cases hhandler : s.handler with
  | idle => exact absurd hhandler hbusy
  | looping completed =>
    dsimp only
    split_ifs with hdraining hmatch
    · unfold work
      simp only [Transport.advance, hdraining, hhandler, Handler.work, Bool.toNat_false,
        Bool.toNat_true]
      omega
    · have hnot : s.transport.draining = false := Bool.eq_false_iff.mpr hdraining
      have hlt := h.transport.phaseMatches_iff.mp hmatch
      have hcount := h.transport.counts.drained_idle hnot
      unfold work
      simp only [Transport.drain, hnot, hhandler, Handler.work, Bool.toNat_false, Bool.toNat_true,
        List.length_append, List.length_singleton]
      omega
    · unfold work
      simp only [hhandler, Handler.work]
      omega
  | leaving completed =>
    unfold work
    simp only [hhandler, Handler.work]
    split_ifs
    · omega
    · rw [List.length_append, List.length_singleton]
      omega

theorem writeHead_work (h : s.Inv d) (hheads : s.heads ≠ []) : s.writeHead.work < s.work := by
  obtain ⟨head, rest, hcons⟩ := List.exists_cons_of_ne_nil hheads
  rw [writeHead_eq h hcons]
  unfold work
  simp only [hcons, List.length_cons]
  omega

theorem step_work (h : s.Inv d) {action : IrqAction} (hworks : s.Works action) :
    (s.step action).work < s.work := by
  obtain ⟨howed, henabled⟩ := hworks
  rw [step, if_pos henabled]
  cases action with
  | submit rq => exact absurd howed id
  | enterLoop => exact enterLoop_work henabled.2 henabled.1
  | iterate fileOk memory => exact iterate_work h henabled fileOk memory
  | interrupt =>
    unfold next work
    simp only [henabled.1, henabled.2, Function.update_self, Handler.work, Bool.toNat_false,
      Bool.toNat_true]
    omega
  | handle => exact handle_work h henabled
  | writeHead => exact writeHead_work h henabled

theorem decreases (d : ℕ) : Decreases step Works (Inv d) work :=
  ⟨fun _ action h _ => step_inv h action, fun _ _ h hworks => step_work h hworks⟩

/-- Where device and interrupt have nothing left to do, no request is left. -/
theorem settled_unended (h : s.Inv d) (hsettled : Settled Works s) :
    s.transport.unended = [] ∧
      (s.transport.device.queues 1).cqHead = s.transport.driver.cqHead := by
  have hloop : s.transport.loop = none :=
    not_not.mp fun hsome => hsettled (.iterate true fun _ => 0) ⟨trivial, hsome⟩
  have hbells : s.transport.doorbells = [] :=
    not_not.mp fun hsome => hsettled .enterLoop ⟨trivial, hloop, hsome⟩
  have hidle : s.handler = .idle := not_not.mp fun hbusy => hsettled .handle ⟨trivial, hbusy⟩
  have hlow : s.raised 1 = false :=
    Bool.eq_false_iff.mpr fun hhigh => hsettled .interrupt ⟨trivial, hhigh, hidle⟩
  have hheads : s.heads = [] := not_not.mp fun hsome => hsettled .writeHead ⟨trivial, hsome⟩
  have hnot : ∀ completed, s.handler ≠ .looping completed := by
    intro completed
    rw [hidle]
    exact fun hlooping => by cases hlooping
  have hcaught := h.caughtUp hloop hlow hnot
  have hidleCount := h.transport.doorbells.idle hloop
  have hbounds := h.transport.counts.drained_bounds
  rw [hbells, List.length_nil, Nat.add_zero] at hidleCount
  constructor
  · rw [Transport.unended, List.drop_eq_nil_of_le (by omega)]
    rfl
  · have hpublished := h.published (by rw [hidle]; rfl)
    rw [IrqTransport.published, hheads] at hpublished
    exact hpublished

/-- No completion is lost: device and interrupt can stop only when every accepted request has
ended, and they do stop, whatever the order of their steps. -/
structure Drains (s : IrqTransport) : Prop where
  settled : Settled Works s → s.transport.unended = [] ∧
    (∀ tag, (s.transport.driver.requests tag).rq = none) ∧
    (s.transport.device.queues 1).cqHead = s.transport.driver.cqHead
  bounded : ∀ actions, Along step Works s actions → actions.length ≤ s.work
  reaches : ∃ actions, Along step Works s actions ∧ Settled Works (s.run actions)

/-- From agreeing state, in every interleaving of submissions, device loops, interrupts and
head doorbells. -/
theorem interrupts_drain (d : ℕ) (driver : OpenflashQueue) (device : Qemu.OpenFlashState)
    (hagrees : Transport.Agrees d driver device) (hvector : (device.queues 1).vector = 1)
    (hhead : (device.queues 1).cqHead = 0) (capabilities : UInt64) (actions : List IrqAction) :
    ((start capabilities driver device).run actions).Drains := by
  have hinv := run_inv (start_inv hagrees hvector hhead capabilities) actions
  refine ⟨fun hsettled => ?_, fun more hmore => (decreases d).length_le hinv hmore,
    (decreases d).settles hinv⟩
  obtain ⟨hunended, hheads⟩ := settled_unended hinv hsettled
  refine ⟨hunended, fun tag => ?_, hheads⟩
  rw [Option.eq_none_iff_forall_ne_some]
  intro rq howner
  have hmem := ((hinv.transport.tags.owners tag rq).mp howner).1
  rw [hunended] at hmem
  exact List.not_mem_nil hmem

/-- A ring of four slots, both sides at their start. -/
def fourSlots : IrqTransport :=
  start 0 (openflashSetupIoQueue 4 fun _ => 0x1000)
    (Qemu.openflashExecute true (openflashCreateIoQueue 4 0x3000 0x4000) (fun _ => 0)
      Transport.readyDevice).state

/-- A flush whose handler starts while the doorbell of a second one is under way. -/
def twoFlushes : List IrqAction :=
  [.submit { tag := 0, op := .flush }, .enterLoop, .iterate true fun _ => 0,
    .submit { tag := 1, op := .flush }, .iterate true fun _ => 0, .interrupt]

theorem twoFlushes_drain :
    (fourSlots.run twoFlushes).transport.unended.length = 2 ∧
      (fourSlots.run twoFlushes).Drains :=
  ⟨by decide, interrupts_drain 4 _ _ (Transport.openflashCreateIoQueue_agrees (by decide)
    (by decide) (by decide) _ (by decide) true _) (by decide) (by decide) 0 _⟩

end IrqTransport
end OpenFlash.Driver
