import OpenFlash.Reference.QueueInvariant

/-! What the queue engine is for: a transparent exactly-once FIFO in front of the
device, whose results do not depend on doorbell budgets or on when the host
consumes completions. -/
namespace OpenFlash.Reference
open Abi Support Support.Ring

/-- A device that takes its inputs one after another with no queue in front of it. -/
structure Replay where
  device : ReferenceDevice
  dma : Dma
  executed : List Executed

namespace Replay

def step (depth : ℕ) (r : Replay) : Input → Replay
  | .command command =>
      let o := r.device.execute command r.dma
      ⟨o.2.1, o.2.2,
        r.executed ++ [⟨command, r.device, r.dma, stamp depth r.executed.length o.1⟩]⟩
  | .dma dma => { r with dma := dma }

def run (depth : ℕ) (r : Replay) (inputs : List Input) : Replay := inputs.foldl (step depth) r

theorem run_append (depth : ℕ) (r : Replay) (first second : List Input) :
    r.run depth (first ++ second) = (r.run depth first).run depth second := List.foldl_append

end Replay

namespace History
variable {device : ReferenceDevice} {dma : Dma} {depth : ℕ} {h : History}

theorem stable_depth (d : ℕ) : Stable fun h => h.engine.depth = d where
  accept := fun _ _ _ hd => hd
  post := fun _ _ _ hd _ _ => hd
  interrupted := fun _ _ hd => hd
  deliver := fun _ _ _ hd => hd

theorem step_depth (hi : h.Inv) (action : Action) :
    (h.step action).engine.depth = h.engine.depth :=
  step_rule (stable_depth h.engine.depth) hi rfl (fun _ => rfl) (fun _ _ => rfl)

theorem run_depth (hi : h.Inv) (actions : List Action) :
    (h.run actions).engine.depth = h.engine.depth := by
  induction actions generalizing h with
  | nil => rfl
  | cons action rest ih => exact (ih (step_inv hi action)).trans (step_depth hi action)

def discardCommand : Command := { opcode := 0x04, cid := 1, lba := 3, nblocks := 2 }

def flushCommand : Command := { opcode := 0x03, cid := 2 }

def twoSlots : History :=
  initial (.fresh 8 (by decide)) 2 (by decide) .empty

/-- In every run, resets included, entry `n` of the completion ring shows phase one
exactly on even laps, and the host is refused a completion only when there is none. -/
theorem queueEngine_phaseLaw (device : ReferenceDevice) (dma : Dma) (depth : ℕ)
    (hd : 2 ≤ depth ∧ depth &&& (depth - 1) = 0) (actions : List Action) :
    (∀ n e, ((initial device depth hd dma).run actions).executed[n]? = some e →
      (e.completion.flags &&& 1 = 1 ↔ n / depth % 2 = 0) ∧
      e.completion.sqHead = (n + 1) % depth) ∧
    (((initial device depth hd dma).run actions).engine.consumeCompletion.1 = none ↔
      ((initial device depth hd dma).run actions).engine.cqCount = 0) ∧
    ((initial device depth hd dma).run actions).returned
      = (((initial device depth hd dma).run actions).executed.map Executed.completion).take
        ((initial device depth hd dma).run actions).returned.length ∧
    ((initial device depth hd dma).run actions).returned.length
        + ((initial device depth hd dma).run actions).engine.cqCount
      = ((initial device depth hd dma).run actions).executed.length := by
  have hi := initial_inv device depth hd dma
  have hrun := run_inv hi actions
  have hdepth : ((initial device depth hd dma).run actions).engine.depth = depth :=
    run_depth hi actions
  constructor
  · intro n e he
    have hstamp := hrun.stamped n e he
    rw [hdepth] at hstamp
    rw [hstamp, stamp_phase, phase_eq_one_iff]
    exact ⟨Iff.rfl, rfl⟩
  · exact ⟨consumeCompletion_eq_none_iff hrun, hrun.delivered, hrun.cqCount⟩

def resetMidway : List Action :=
  [.submit discardCommand, .submit flushCommand, .ring none, .consume, .submit flushCommand,
    .ring none, .reset, .submit flushCommand, .ring none]

/-- The law at a run whose reset drops an outstanding completion. -/
theorem resetMidway_phaseLaw :
    (2 ≤ 2 ∧ 2 &&& (2 - 1) = 0) ∧
    (twoSlots.run resetMidway).executed.length = 1 ∧
    (∀ n e, (twoSlots.run resetMidway).executed[n]? = some e →
      (e.completion.flags &&& 1 = 1 ↔ n / 2 % 2 = 0) ∧ e.completion.sqHead = (n + 1) % 2) ∧
    ((twoSlots.run resetMidway).engine.consumeCompletion.1 = none ↔
      (twoSlots.run resetMidway).engine.cqCount = 0) := by
  have hlaw := queueEngine_phaseLaw (.fresh 8 (by decide)) .empty 2 (by decide) resetMidway
  exact ⟨by decide, by decide, hlaw.1, hlaw.2.1⟩

end History
end OpenFlash.Reference
