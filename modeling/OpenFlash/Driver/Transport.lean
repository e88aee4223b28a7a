import OpenFlash.Driver.Submission
import OpenFlash.Qemu.Machine

/-! The I/O queue of the driver against the submission loop of the device. Submissions,
doorbells, loop iterations and the two halves of a drain iteration interleave freely;
the rings are shared, and the data buffers of requests lie outside them. -/
namespace OpenFlash.Driver
open Abi Support

/-- One command the device ran: its status and the entry it posted. -/
structure Executed where
  command : OpenFlashCommand
  status : Status
  completion : OpenFlashCompletion

/-- One entry the interrupt took from the completion ring, and what it ended. -/
structure Drained where
  cqe : OpenFlashCompletion
  ended : Option (Request × BlkStatus)

/-- Driver and device with the doorbell writes still under way and the tail of the loop in
progress. `advanced` counts the entries that the completion head has passed. -/
structure Transport where
  capabilities : UInt64
  driver : OpenflashQueue
  device : Qemu.OpenFlashState
  doorbells : List ℕ
  loop : Option ℕ
  draining : Bool
  advanced : ℕ
  accepted : List (Request × OpenFlashCommand)
  executed : List Executed
  drained : List Drained

inductive Action where
  | submit (rq : Request)
  | enterLoop
  | iterate (fileOk : Bool) (memory : Memory)
  | endRequest
  | advanceHead

/-- The entry at the completion head carries the identifier of `tag`. -/
def Completes (q : OpenflashQueue) (tag : ℕ) : Prop :=
  tag < q.depth - 1 ∧ (q.cqes q.cqHead).cid.toNat = tag + 1

instance (q : OpenflashQueue) (tag : ℕ) : Decidable (Completes q tag) :=
  inferInstanceAs (Decidable (_ ∧ _))

theorem endRequest_rq (q : OpenflashQueue) (tag : ℕ) :
    ((endRequest q).1.requests tag).rq
      = if Completes q tag then none else (q.requests tag).rq := by
  have hiff : Completes q tag ↔ tag < q.depth - 1 ∧ (q.cqes q.cqHead).cid.toNat = tag + 1 := Iff.rfl
  unfold endRequest
  dsimp only
  by_cases hbad : (q.cqes q.cqHead).cid.toNat = 0 ∨ q.depth - 1 < (q.cqes q.cqHead).cid.toNat
  · rw [if_pos hbad, if_neg (by rw [hiff]; omega)]
  · rw [if_neg hbad]
    split
    · rename_i hnone
      split_ifs with hcompletes
      · have hcid := (hiff.mp hcompletes).2
        rw [show tag = (q.cqes q.cqHead).cid.toNat - 1 by omega]
        exact hnone
      · rfl
    · rw [setRequest_rq]
      by_cases heq : tag = (q.cqes q.cqHead).cid.toNat - 1
      · rw [if_pos heq, if_pos (by rw [hiff]; omega)]
      · rw [if_neg heq, if_neg (by rw [hiff]; omega)]

namespace Transport

def start (capabilities : UInt64) (driver : OpenflashQueue) (device : Qemu.OpenFlashState) :
    Transport := ⟨capabilities, driver, device, [], none, false, 0, [], [], []⟩

/-- The block layer draws tags from `[0, depth - 2]`. A tag that is in use may be offered
too: the driver refuses it. -/
def Enabled (t : Transport) : Action → Prop
  | .submit rq => rq.tag + 2 ≤ t.driver.depth
  | .enterLoop => t.loop = none
  | .iterate _ _ => True
  | .endRequest => t.draining = false ∧ phaseMatches t.driver
  | .advanceHead => t.draining = true

instance (t : Transport) : (action : Action) → Decidable (t.Enabled action)
  | .submit _ => inferInstanceAs (Decidable (_ ≤ _))
  | .enterLoop => inferInstanceAs (Decidable (t.loop = none))
  | .iterate _ _ => inferInstanceAs (Decidable True)
  | .endRequest => inferInstanceAs (Decidable (_ ∧ _))
  | .advanceHead => inferInstanceAs (Decidable (_ = _))

def submit (t : Transport) (rq : Request) : Transport :=
  let r := openflashQueueRq t.capabilities rq t.driver
  { t with
    driver := r.queue
    doorbells := t.doorbells ++ r.doorbell.toList
    accepted := t.accepted ++
      if r.status = .ok then [(rq, r.queue.sqCmds t.driver.sqTail)] else [] }

/-- The device takes the oldest doorbell write. -/
def enterLoop (t : Transport) : Transport :=
  match t.doorbells with
  | [] => t
  | tail :: rest =>
      { t with
        doorbells := rest
        loop := if Qemu.doorbellAccepted t.device 1 tail then some tail else none }

def process (t : Transport) (fileOk : Bool) (memory : Memory) : Transport :=
  let cmd := t.driver.sqCmds (t.device.queues 1).sqHead
  let it := Qemu.processCommand fileOk 1 cmd memory t.device
  { t with
    device := it.device
    driver := { t.driver with cqes := Function.update t.driver.cqes it.queue.cqTail it.completion }
    executed := t.executed ++
      [⟨cmd, (Qemu.openflashExecute fileOk cmd memory t.device).status, it.completion⟩] }

/-- One evaluation of the loop condition, with the body when it holds. -/
def iterate (t : Transport) (fileOk : Bool) (memory : Memory) : Transport :=
  match t.loop with
  | none => t
  | some tail =>
      if (t.device.queues 1).sqHead = tail then { t with loop := none }
      else t.process fileOk memory

def drain (t : Transport) : Transport :=
  { t with
    driver := (endRequest t.driver).1
    draining := true
    drained := t.drained ++ [⟨t.driver.cqes t.driver.cqHead, (endRequest t.driver).2.1⟩] }

def advance (t : Transport) : Transport :=
  { t with driver := advanceHead t.driver, draining := false, advanced := t.advanced + 1 }

def next (t : Transport) : Action → Transport
  | .submit rq => t.submit rq
  | .enterLoop => t.enterLoop
  | .iterate fileOk memory => t.iterate fileOk memory
  | .endRequest => t.drain
  | .advanceHead => t.advance

def step (t : Transport) (action : Action) : Transport :=
  if t.Enabled action then t.next action else t

def run (t : Transport) (actions : List Action) : Transport := actions.foldl step t

/-- The request table changes by submissions and by the interrupt, which frees the slot of
the completion at the head. -/
theorem step_rq {t : Transport} {action : Action} (hsubmit : ∀ rq, action ≠ .submit rq)
    (tag : ℕ) :
    ((t.step action).driver.requests tag).rq = (t.driver.requests tag).rq ∨
      (action = .endRequest ∧ Completes t.driver tag ∧
        ((t.step action).driver.requests tag).rq = none) := by
  unfold step
  split_ifs
  · cases action with
    | submit rq => exact absurd rfl (hsubmit rq)
    | enterLoop =>
      left
      show (t.enterLoop.driver.requests tag).rq = _
      unfold enterLoop
      split <;> rfl
    | iterate fileOk memory =>
      left
      show ((t.iterate fileOk memory).driver.requests tag).rq = _
      unfold iterate
      split
      · rfl
      · split_ifs <;> rfl
    | endRequest =>
      by_cases hcompletes : Completes t.driver tag
      · refine Or.inr ⟨rfl, hcompletes, (endRequest_rq t.driver tag).trans ?_⟩
        rw [if_pos hcompletes]
      · refine Or.inl ((endRequest_rq t.driver tag).trans ?_)
        rw [if_neg hcompletes]
    | advanceHead => exact Or.inl rfl
  · exact Or.inl rfl

/-- A submission takes no slot but its own, and that only when it is free. -/
theorem step_submit_rq (t : Transport) (rq : Request) (tag : ℕ) :
    ((t.step (.submit rq)).driver.requests tag).rq = (t.driver.requests tag).rq ∨
      (tag = rq.tag ∧ (t.driver.requests tag).rq = none) := by
  unfold step
  split_ifs
  · rcases openflashQueueRq_submits t.capabilities rq t.driver with ⟨-, -, hr⟩ | ⟨-, -, ha⟩
    · exact Or.inl (hr.owners tag)
    · by_cases htag : tag = rq.tag
      · exact Or.inr ⟨htag, htag ▸ ha.free⟩
      · exact Or.inl ((ha.owners tag).trans (if_neg htag))
  · exact Or.inl rfl

theorem step_free {t : Transport} {action : Action} (hsubmit : ∀ rq, action ≠ .submit rq)
    {tag : ℕ} (hfree : (t.driver.requests tag).rq = none) :
    ((t.step action).driver.requests tag).rq = none := by
  rcases step_rq hsubmit tag with hsame | ⟨-, -, hnone⟩
  · exact hsame.trans hfree
  · exact hnone

/-- No step changes the depth or the identifier of the queue. -/
theorem step_fixed (t : Transport) (action : Action) :
    (t.step action).driver.depth = t.driver.depth ∧
      (t.step action).driver.qid = t.driver.qid := by
  unfold step
  split_ifs
  · cases action with
    | submit rq =>
      refine ⟨?_, openflashQueueRq_qid ..⟩
      rcases openflashQueueRq_submits t.capabilities rq t.driver with ⟨-, -, hr⟩ | ⟨-, -, ha⟩
      · exact hr.depth
      · exact ha.depth
    | enterLoop =>
      show t.enterLoop.driver.depth = _ ∧ t.enterLoop.driver.qid = _
      unfold enterLoop
      split <;> exact ⟨rfl, rfl⟩
    | iterate fileOk memory =>
      show (t.iterate fileOk memory).driver.depth = _ ∧ (t.iterate fileOk memory).driver.qid = _
      unfold iterate
      split
      · exact ⟨rfl, rfl⟩
      · split_ifs <;> exact ⟨rfl, rfl⟩
    | endRequest =>
      show (Driver.endRequest t.driver).1.depth = _ ∧ (Driver.endRequest t.driver).1.qid = _
      unfold Driver.endRequest
      dsimp only
      split_ifs
      · exact ⟨rfl, rfl⟩
      · split <;> exact ⟨rfl, rfl⟩
    | advanceHead => exact ⟨rfl, rfl⟩
  · exact ⟨rfl, rfl⟩

end Transport
end OpenFlash.Driver
