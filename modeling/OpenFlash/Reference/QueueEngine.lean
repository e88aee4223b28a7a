import OpenFlash.Reference.Device
import OpenFlash.Support.Ring

/-! The reference submission/completion transport. Beside the engine's own state, a
`History` records what the host and the device see of it since construction or the
last reset. -/
namespace OpenFlash.Reference
open Abi Support

/-- The constructor accepts a depth of at least two that shares no bit with its
predecessor. -/
structure QueueEngine where
  device : ReferenceDevice
  depth : ℕ
  sq : ℕ → Option Command
  cq : ℕ → Option Completion
  sqTail : ℕ
  sqHead : ℕ
  cqTail : ℕ
  cqHead : ℕ
  sqCount : ℕ
  cqCount : ℕ
  devicePhase : ℕ
  hostPhase : ℕ
  interrupts : ℕ
  depth_valid : 2 ≤ depth ∧ depth &&& (depth - 1) = 0

/-- One call of `device.execute` from the doorbell loop: its arguments and the
completion the loop posts. -/
structure Executed where
  command : Command
  device : ReferenceDevice
  dma : Dma
  completion : Completion

namespace QueueEngine

def fresh (device : ReferenceDevice) (depth : ℕ) (h : 2 ≤ depth ∧ depth &&& (depth - 1) = 0) :
    QueueEngine :=
  { device := device, depth := depth, sq := fun _ => none, cq := fun _ => none
    sqTail := 0, sqHead := 0, cqTail := 0, cqHead := 0, sqCount := 0, cqCount := 0
    devicePhase := 1, hostPhase := 1, interrupts := 0, depth_valid := h }

def advance (q : QueueEngine) (index : ℕ) : ℕ := (index + 1) &&& (q.depth - 1)

/-- `QueueFullError` leaves the engine as it was. -/
def submit (command : Command) (q : QueueEngine) : Except String ℕ × QueueEngine :=
  if q.sqCount = q.depth then (.error "submission queue is full", q)
  else
    (.ok q.sqTail,
      { q with
        sq := Function.update q.sq q.sqTail (some command)
        sqTail := q.advance q.sqTail
        sqCount := q.sqCount + 1 })

/-- The completion of the device, restamped by the queue; `flags & ~1` clears bit 0. -/
def restamp (q : QueueEngine) (completion : Completion) : Completion :=
  { completion with
    sqHead := q.advance q.sqHead
    flags := (completion.flags / 2 * 2) ||| q.devicePhase }

/-- The body of the doorbell loop for a command that sits at the submission head. -/
def executeHead (q : QueueEngine) (command : Command) (dma : Dma) :
    Executed × QueueEngine × Dma :=
  let r := q.device.execute command dma
  let completion := q.restamp r.1
  let cqTail := q.advance q.cqTail
  (⟨command, q.device, dma, completion⟩,
    { q with
      device := r.2.1
      cq := Function.update q.cq q.cqTail (some completion)
      sq := Function.update q.sq q.sqHead none
      sqHead := q.advance q.sqHead
      sqCount := q.sqCount - 1
      cqTail := cqTail
      cqCount := q.cqCount + 1
      devicePhase := if cqTail = 0 then q.devicePhase ^^^ 1 else q.devicePhase },
    r.2.2)

structure LoopResult where
  engine : QueueEngine
  dma : Dma
  executed : List Executed
  corrupted : Bool

/-- The doorbell loop, by the iterations `limit - processed` still allowed. -/
def doorbellLoop : ℕ → QueueEngine → Dma → LoopResult
  | 0, q, dma => ⟨q, dma, [], false⟩
  | n + 1, q, dma =>
      if q.sqCount ≠ 0 ∧ q.cqCount < q.depth then
        match q.sq q.sqHead with
        | none => ⟨q, dma, [], true⟩
        | some command =>
            let r := q.executeHead command dma
            let tail := doorbellLoop n r.2.1 r.2.2
            { tail with executed := r.1 :: tail.executed }
      else ⟨q, dma, [], false⟩

def limit (q : QueueEngine) : Option ℤ → ℕ
  | none => q.depth
  | some budget => (max 0 budget).toNat

/-- A corrupted ring raises before the interrupt is counted. -/
def ringSubmissionDoorbell (dma : Dma) (budget : Option ℤ) (q : QueueEngine) :
    Except String ℕ × LoopResult :=
  let r := doorbellLoop (q.limit budget) q dma
  if r.corrupted then (.error "submission ring ownership corruption", r)
  else if r.executed = [] then (.ok 0, r)
  else (.ok r.executed.length,
    { r with engine := { r.engine with interrupts := r.engine.interrupts + 1 } })

def consumeCompletion (q : QueueEngine) : Option Completion × QueueEngine :=
  if q.cqCount = 0 then (none, q)
  else
    match q.cq q.cqHead with
    | none => (none, q)
    | some completion =>
        if completion.flags &&& 1 ≠ q.hostPhase then (none, q)
        else
          let cqHead := q.advance q.cqHead
          (some completion,
            { q with
              cq := Function.update q.cq q.cqHead none
              cqHead := cqHead
              cqCount := q.cqCount - 1
              hostPhase := if cqHead = 0 then q.hostPhase ^^^ 1 else q.hostPhase })

def reset (q : QueueEngine) : ℕ × QueueEngine :=
  (q.sqCount,
    { q with
      sq := fun _ => none, cq := fun _ => none
      sqTail := 0, sqHead := 0, cqTail := 0, cqHead := 0, sqCount := 0, cqCount := 0
      devicePhase := 1, hostPhase := 1 })

end QueueEngine

/-- A host action. `touchDma` is the host replacing the contents of its DMA buffers. -/
inductive Action where
  | submit (command : Command)
  | ring (budget : Option ℤ)
  | consume
  | reset
  | touchDma (dma : Dma)

/-- What decides the device's results: accepted commands and host buffer changes. -/
inductive Input where
  | command (command : Command)
  | dma (dma : Dma)

/-- The engine with its log since construction or the last reset. -/
structure History where
  engine : QueueEngine
  dma : Dma
  submitted : List Command
  inputs : List Input
  executed : List Executed
  returned : List Completion
  corrupted : Bool

namespace History

def start (engine : QueueEngine) (dma : Dma) : History := ⟨engine, dma, [], [], [], [], false⟩

/-- A newly constructed engine. -/
def initial (device : ReferenceDevice) (depth : ℕ) (h : 2 ≤ depth ∧ depth &&& (depth - 1) = 0)
    (dma : Dma) : History := start (.fresh device depth h) dma

def step (h : History) : Action → History
  | .submit command =>
      match h.engine.submit command with
      | (.error _, _) => h
      | (.ok _, q) =>
          { h with
            engine := q
            submitted := h.submitted ++ [command]
            inputs := h.inputs ++ [.command command] }
  | .ring budget =>
      let r := (h.engine.ringSubmissionDoorbell h.dma budget).2
      { h with
        engine := r.engine
        dma := r.dma
        executed := h.executed ++ r.executed
        corrupted := h.corrupted || r.corrupted }
  | .consume =>
      let r := h.engine.consumeCompletion
      { h with engine := r.2, returned := h.returned ++ r.1.toList }
  | .reset => start h.engine.reset.2 h.dma
  | .touchDma dma => { h with dma := dma, inputs := h.inputs ++ [.dma dma] }

def run (h : History) (actions : List Action) : History := actions.foldl step h

end History
end OpenFlash.Reference
