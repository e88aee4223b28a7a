import OpenFlash.Reference.QueueEngine

/-! The representation invariant of the queue engine: its six indices and counters,
two slot arrays and two phases all follow from how many commands were submitted,
executed and returned since construction or the last reset. -/
namespace OpenFlash.Reference
open Abi Support Support.Ring

namespace QueueEngine

/-- Accepted depths are powers of two, so the mask reduces modulo the depth. -/
theorem and_depth_sub_one (q : QueueEngine) (x : ℕ) : x &&& (q.depth - 1) = x % q.depth := by
  have hne : q.depth ≠ 0 := by have := q.depth_valid.1; omega
  obtain ⟨k, hk⟩ := (Nat.and_sub_one_eq_zero_iff_isPowerOfTwo hne).mp q.depth_valid.2
  rw [hk, Nat.and_two_pow_sub_one_eq_mod]

theorem advance_mod (q : QueueEngine) (n : ℕ) : q.advance (n % q.depth) = (n + 1) % q.depth := by
  rw [advance, and_depth_sub_one, succ_mod]

end QueueEngine

/-- The completion posted as entry `n` of the completion ring. -/
def stamp (depth n : ℕ) (completion : Completion) : Completion :=
  { completion with
    sqHead := (n + 1) % depth
    flags := (completion.flags / 2 * 2) ||| phase depth n }

theorem stamp_phase (depth n : ℕ) (completion : Completion) :
    (stamp depth n completion).flags &&& 1 = phase depth n := by
  have h : (completion.flags / 2 * 2 ||| phase depth n) % 2 = phase depth n := by
    rw [Nat.or_mod_two_pow (n := 1), pow_one, Nat.mul_mod_left, Nat.zero_or]
    exact Nat.mod_eq_of_lt (phase_lt_two depth n)
  rw [Nat.and_one_is_mod]
  exact h

namespace History

structure Inv (h : History) : Prop where
  intact : h.corrupted = false
  sqTail : h.engine.sqTail = h.submitted.length % h.engine.depth
  sqHead : h.engine.sqHead = h.executed.length % h.engine.depth
  cqTail : h.engine.cqTail = h.executed.length % h.engine.depth
  cqHead : h.engine.cqHead = h.returned.length % h.engine.depth
  sqCount : h.executed.length + h.engine.sqCount = h.submitted.length
  cqCount : h.returned.length + h.engine.cqCount = h.executed.length
  sqRoom : h.engine.sqCount ≤ h.engine.depth
  cqRoom : h.engine.cqCount ≤ h.engine.depth
  devicePhase : h.engine.devicePhase = phase h.engine.depth h.executed.length
  hostPhase : h.engine.hostPhase = phase h.engine.depth h.returned.length
  sqStored : Stored h.engine.depth h.executed.length h.submitted some h.engine.sq
  cqStored : Stored h.engine.depth h.returned.length h.executed (fun e => some e.completion)
    h.engine.cq
  order : h.executed.map Executed.command = h.submitted.take h.executed.length
  delivered : h.returned = (h.executed.map Executed.completion).take h.returned.length
  stamped : ∀ n e, h.executed[n]? = some e →
    e.completion = stamp h.engine.depth n (e.device.execute e.command e.dma).1

theorem initial_inv (device : ReferenceDevice) (depth : ℕ)
    (hd : 2 ≤ depth ∧ depth &&& (depth - 1) = 0) (dma : Dma) :
    (initial device depth hd dma).Inv := by
  constructor <;>
    simp [initial, start, QueueEngine.fresh, Stored]

/-- A submission that finds a free slot. -/
def accept (h : History) (command : Command) : History :=
  { h with
    engine := { h.engine with
      sq := Function.update h.engine.sq h.engine.sqTail (some command)
      sqTail := h.engine.advance h.engine.sqTail
      sqCount := h.engine.sqCount + 1 }
    submitted := h.submitted ++ [command]
    inputs := h.inputs ++ [.command command] }

theorem step_submit {h : History} (hi : h.Inv) (command : Command) :
    h.step (.submit command) = h ∨
    h.engine.sqCount < h.engine.depth ∧ h.step (.submit command) = h.accept command := by
  have hroom := hi.sqRoom
  by_cases hfull : h.engine.sqCount = h.engine.depth
  · left
    simp only [step, QueueEngine.submit, hfull, if_true]
  · right
    simp only [step, QueueEngine.submit, hfull, if_false]
    exact ⟨by omega, rfl⟩

theorem accept_inv {h : History} (hi : h.Inv) {command : Command}
    (hfree : h.engine.sqCount < h.engine.depth) : (h.accept command).Inv := by
  have hcount := hi.sqCount
  have hlen : (h.submitted ++ [command]).length = h.submitted.length + 1 := by simp
  refine
    { intact := hi.intact, sqHead := hi.sqHead, cqTail := hi.cqTail, cqHead := hi.cqHead
      cqCount := hi.cqCount, cqRoom := hi.cqRoom, devicePhase := hi.devicePhase
      hostPhase := hi.hostPhase, cqStored := hi.cqStored, delivered := hi.delivered
      stamped := hi.stamped, sqTail := ?_, sqCount := ?_, sqRoom := hfree, sqStored := ?_
      order := ?_ } <;> simp only [accept, hlen]
  · rw [hi.sqTail, QueueEngine.advance_mod]
  · omega
  · rw [hi.sqTail]
    exact hi.sqStored.push (by omega) command
  · rw [hi.order, List.take_append_of_le_length (by omega)]

/-- One iteration of the doorbell loop as a step of the history. -/
def post (h : History) (command : Command) : History :=
  let r := h.engine.executeHead command h.dma
  { h with engine := r.2.1, dma := r.2.2, executed := h.executed ++ [r.1] }

theorem executeHead_completion {h : History} (hi : h.Inv) (command : Command) :
    (h.engine.executeHead command h.dma).1.completion
      = stamp h.engine.depth h.executed.length (h.engine.device.execute command h.dma).1 := by
  simp only [QueueEngine.executeHead, QueueEngine.restamp, stamp, hi.sqHead, hi.devicePhase,
    QueueEngine.advance_mod]

theorem post_inv {h : History} (hi : h.Inv) {command : Command} (hsq : h.engine.sqCount ≠ 0)
    (hcq : h.engine.cqCount < h.engine.depth)
    (hhead : h.engine.sq h.engine.sqHead = some command) : (h.post command).Inv := by
  have hsc := hi.sqCount
  have hcc := hi.cqCount
  have hroom := hi.sqRoom
  have hstamp := executeHead_completion hi command
  have hsub : h.submitted[h.executed.length]? = some command := by
    have hlt : h.executed.length < h.submitted.length := by omega
    rw [← hhead, hi.sqHead, hi.sqStored.get le_rfl hlt]
    exact List.getElem?_eq_getElem hlt
  have hadv := h.engine.advance_mod h.executed.length
  unfold post
  generalize hr : h.engine.executeHead command h.dma = r at hstamp ⊢
  have hlen : (h.executed ++ [r.1]).length = h.executed.length + 1 := by simp
  have hdepth : r.2.1.depth = h.engine.depth := by
    rw [← hr]
    rfl
  constructor <;> simp only [hlen, hdepth]
  · exact hi.intact
  · rw [← hr]
    exact hi.sqTail
  · rw [← hr, ← hadv, ← hi.sqHead]
    rfl
  · rw [← hr, ← hadv, ← hi.cqTail]
    rfl
  · rw [← hr]
    exact hi.cqHead
  · rw [← hr]
    simp only [QueueEngine.executeHead]
    omega
  · rw [← hr]
    simp only [QueueEngine.executeHead]
    omega
  · rw [← hr]
    simp only [QueueEngine.executeHead]
    omega
  · rw [← hr]
    exact hcq
  · rw [← hr, phase_succ, ← hadv, ← hi.cqTail, ← hi.devicePhase]
    rfl
  · rw [← hr]
    exact hi.hostPhase
  · have hcleared := hi.sqStored.clear (by omega) none
    rw [← hi.sqHead] at hcleared
    rw [← hr]
    exact hcleared
  · have hpushed := hi.cqStored.push (by omega) r.1
    rw [← hi.cqTail, ← hr] at hpushed
    rw [← hr]
    exact hpushed
  · have hcommand : r.1.command = command := by
      rw [← hr]
      rfl
    rw [List.map_append, hi.order, List.take_add_one, hsub, List.map_singleton, hcommand]
    rfl
  · have hle : h.returned.length ≤ (h.executed.map Executed.completion).length := by
      rw [List.length_map]
      omega
    rw [List.map_append, List.take_append_of_le_length hle]
    exact hi.delivered
  · intro n e he
    rcases getElem?_append_singleton he with he | ⟨rfl, rfl⟩
    · exact hi.stamped n e he
    · rw [hstamp, ← hr]
      rfl

/-- The history after a doorbell loop of at most `n` iterations. -/
def loop (n : ℕ) (h : History) : History :=
  let r := QueueEngine.doorbellLoop n h.engine h.dma
  { h with
    engine := r.engine
    dma := r.dma
    executed := h.executed ++ r.executed
    corrupted := h.corrupted || r.corrupted }

@[simp] theorem loop_zero (h : History) : loop 0 h = h := by
  simp [loop, QueueEngine.doorbellLoop]

/-- The loop goes on exactly with an occupied submission slot and a free completion slot,
and then it finds a command. -/
theorem loop_succ {h : History} (hi : h.Inv) (n : ℕ) :
    (∃ command, h.engine.sqCount ≠ 0 ∧ h.engine.cqCount < h.engine.depth ∧
      h.engine.sq h.engine.sqHead = some command ∧ loop (n + 1) h = loop n (h.post command)) ∨
    ¬(h.engine.sqCount ≠ 0 ∧ h.engine.cqCount < h.engine.depth) ∧ loop (n + 1) h = h := by
  by_cases hguard : h.engine.sqCount ≠ 0 ∧ h.engine.cqCount < h.engine.depth
  · have hcount := hi.sqCount
    have hlt : h.executed.length < h.submitted.length := by omega
    have hhead : h.engine.sq h.engine.sqHead = some h.submitted[h.executed.length] := by
      rw [hi.sqHead]
      exact hi.sqStored.get le_rfl hlt
    refine Or.inl ⟨_, hguard.1, hguard.2, hhead, ?_⟩
    simp only [loop, QueueEngine.doorbellLoop, if_pos hguard, hhead, post, List.append_assoc,
      List.singleton_append]
  · refine Or.inr ⟨hguard, ?_⟩
    simp only [loop, QueueEngine.doorbellLoop, if_neg hguard, List.append_nil, Bool.or_false]

theorem loop_induction {P : History → Prop} (hstep : ∀ h command, h.Inv → P h →
      h.engine.sq h.engine.sqHead = some command → h.engine.sqCount ≠ 0 → P (h.post command))
    (n : ℕ) : ∀ h : History, h.Inv → P h → (loop n h).Inv ∧ P (loop n h) := by
  induction n with
  | zero =>
    intro h hi hp
    rw [loop_zero]
    exact ⟨hi, hp⟩
  | succ n ih =>
    intro h hi hp
    rcases loop_succ hi n with ⟨command, hsq, hcq, hhead, heq⟩ | ⟨-, heq⟩
    · rw [heq]
      exact ih _ (post_inv hi hsq hcq hhead) (hstep h command hi hp hhead hsq)
    · rw [heq]
      exact ⟨hi, hp⟩

theorem loop_inv {h : History} (hi : h.Inv) (n : ℕ) : (loop n h).Inv :=
  (loop_induction (P := fun _ => True) (fun _ _ _ _ _ _ => trivial) n h hi trivial).1

/-- The interrupt counter set to `k`. -/
def interrupted (k : ℕ) (h : History) : History :=
  { h with engine := { h.engine with interrupts := k } }

/-- A doorbell with a budget of one runs the body of the loop once. -/
theorem step_ring_one {h : History} {command : Command}
    (hsq : h.engine.sqCount ≠ 0) (hcq : h.engine.cqCount < h.engine.depth)
    (hhead : h.engine.sq h.engine.sqHead = some command) :
    h.step (.ring (some 1)) = (h.post command).interrupted (h.engine.interrupts + 1) := by
  have hlimit : h.engine.limit (some 1) = 1 := rfl
  simp only [step, QueueEngine.ringSubmissionDoorbell, hlimit, QueueEngine.doorbellLoop,
    if_pos (And.intro hsq hcq), hhead, Bool.false_eq_true, if_false, List.cons_ne_nil,
    Bool.or_false, post, interrupted]
  rfl

/-- What the loop body preserves, together with the invariant, a doorbell preserves. -/
theorem step_ring {P : History → Prop} (hpost : ∀ h command, h.Inv → P h →
      h.engine.sq h.engine.sqHead = some command → h.engine.sqCount ≠ 0 → P (h.post command))
    (hinterrupted : ∀ h k, P h → P (interrupted k h)) {h : History} (hi : h.Inv) (hp : P h)
    (budget : Option ℤ) :
    (h.step (.ring budget)).Inv ∧ P (h.step (.ring budget)) := by
  have hl := loop_induction hpost (h.engine.limit budget) h hi hp
  have hok := (Bool.or_eq_false_iff.mp hl.1.intact).2
  by_cases hnone : (QueueEngine.doorbellLoop (h.engine.limit budget) h.engine h.dma).executed = []
  · have heq : h.step (.ring budget) = loop (h.engine.limit budget) h := by
      simp only [step, QueueEngine.ringSubmissionDoorbell, hok, hnone, loop, if_true,
        Bool.false_eq_true, if_false]
    rw [heq]
    exact hl
  · have heq : h.step (.ring budget) = interrupted
        ((loop (h.engine.limit budget) h).engine.interrupts + 1)
        (loop (h.engine.limit budget) h) := by
      simp only [step, QueueEngine.ringSubmissionDoorbell, hok, hnone, loop, Bool.false_eq_true,
        if_false, interrupted]
    rw [heq]
    exact ⟨{ hl.1 with }, hinterrupted _ _ hl.2⟩

/-- An outstanding completion is the oldest unreturned one, and its phase is the host's. -/
theorem consumeCompletion_of_pos {h : History} (hi : h.Inv) (hpos : h.engine.cqCount ≠ 0) :
    ∃ e, h.executed[h.returned.length]? = some e ∧
      h.engine.consumeCompletion = (some e.completion,
        { h.engine with
          cq := Function.update h.engine.cq h.engine.cqHead none
          cqHead := h.engine.advance h.engine.cqHead
          cqCount := h.engine.cqCount - 1
          hostPhase := if h.engine.advance h.engine.cqHead = 0 then h.engine.hostPhase ^^^ 1
            else h.engine.hostPhase }) := by
  have hcount := hi.cqCount
  have hlt : h.returned.length < h.executed.length := by omega
  have he := List.getElem?_eq_getElem hlt
  have hslot : h.engine.cq h.engine.cqHead
      = some (h.executed[h.returned.length]).completion := by
    rw [hi.cqHead]
    exact hi.cqStored.get le_rfl hlt
  have hphase : (h.executed[h.returned.length]).completion.flags &&& 1 = h.engine.hostPhase := by
    rw [hi.stamped _ _ he, stamp_phase, hi.hostPhase]
  refine ⟨_, he, ?_⟩
  simp only [QueueEngine.consumeCompletion, if_neg hpos, hslot, hphase, ne_eq, not_true_eq_false,
    if_false]

theorem consumeCompletion_eq_none_iff {h : History} (hi : h.Inv) :
    h.engine.consumeCompletion.1 = none ↔ h.engine.cqCount = 0 := by
  by_cases hzero : h.engine.cqCount = 0
  · simp [QueueEngine.consumeCompletion, hzero]
  · obtain ⟨e, -, heq⟩ := consumeCompletion_of_pos hi hzero
    simp [heq, hzero]

/-- The host takes the completion of `e`. -/
def deliver (h : History) (e : Executed) : History :=
  { h with
    engine := { h.engine with
      cq := Function.update h.engine.cq h.engine.cqHead none
      cqHead := h.engine.advance h.engine.cqHead
      cqCount := h.engine.cqCount - 1
      hostPhase := if h.engine.advance h.engine.cqHead = 0 then h.engine.hostPhase ^^^ 1
        else h.engine.hostPhase }
    returned := h.returned ++ [e.completion] }

theorem step_consume {h : History} (hi : h.Inv) :
    h.step .consume = h ∨
    ∃ e, h.engine.cqCount ≠ 0 ∧ h.executed[h.returned.length]? = some e ∧
      h.step .consume = h.deliver e := by
  by_cases hzero : h.engine.cqCount = 0
  · left
    simp [step, QueueEngine.consumeCompletion, hzero]
  · right
    obtain ⟨e, he, heq⟩ := consumeCompletion_of_pos hi hzero
    have hstep : h.step .consume = h.deliver e := by
      simp only [step, heq, Option.toList_some]
      rfl
    exact ⟨e, hzero, he, hstep⟩

theorem deliver_inv {h : History} (hi : h.Inv) {e : Executed} (hpos : h.engine.cqCount ≠ 0)
    (he : h.executed[h.returned.length]? = some e) : (h.deliver e).Inv := by
  have hcount := hi.cqCount
  have hroom := hi.cqRoom
  have hadv := h.engine.advance_mod h.returned.length
  have hlen : (h.returned ++ [e.completion]).length = h.returned.length + 1 := by simp
  refine
    { intact := hi.intact, sqTail := hi.sqTail, sqCount := hi.sqCount, sqRoom := hi.sqRoom
      sqHead := hi.sqHead, cqTail := hi.cqTail, devicePhase := hi.devicePhase
      sqStored := hi.sqStored, order := hi.order, stamped := hi.stamped
      cqHead := ?_, cqCount := ?_, cqRoom := ?_, hostPhase := ?_, cqStored := ?_
      delivered := ?_ } <;> simp only [deliver, hlen]
  · rw [hi.cqHead, hadv]
  · omega
  · omega
  · rw [phase_succ, ← hadv, hi.hostPhase, hi.cqHead]
  · rw [hi.cqHead]
    exact hi.cqStored.clear (by omega) none
  · rw [List.take_add_one, ← hi.delivered, List.getElem?_map, he]
    rfl

theorem reset_inv (h : History) : (h.step .reset).Inv := by
  constructor <;>
    simp [step, start, QueueEngine.reset, Stored]

/-- A property that accepted submissions, loop iterations, interrupts and delivered
completions preserve. -/
structure Stable (P : History → Prop) : Prop where
  accept : ∀ h command, h.Inv → P h → P (h.accept command)
  post : ∀ h command, h.Inv → P h → h.engine.sq h.engine.sqHead = some command →
    h.engine.sqCount ≠ 0 → P (h.post command)
  interrupted : ∀ h k, P h → P (interrupted k h)
  deliver : ∀ h e, h.Inv → P h → P (h.deliver e)

theorem step_rule {P : History → Prop} (hs : Stable P) {h : History} (hi : h.Inv) (hp : P h)
    {action : Action} (hreset : action = .reset → P (h.step .reset))
    (htouch : ∀ dma, action = .touchDma dma → P (h.step (.touchDma dma))) :
    P (h.step action) := by
  cases action with
  | submit command =>
    rcases step_submit hi command with heq | ⟨-, heq⟩
    · rw [heq]
      exact hp
    · rw [heq]
      exact hs.accept h command hi hp
  | ring budget => exact (step_ring hs.post hs.interrupted hi hp budget).2
  | consume =>
    rcases step_consume hi with heq | ⟨e, -, -, heq⟩
    · rw [heq]
      exact hp
    · rw [heq]
      exact hs.deliver h e hi hp
  | reset => exact hreset rfl
  | touchDma dma => exact htouch dma rfl

theorem step_inv {h : History} (hi : h.Inv) (action : Action) : (h.step action).Inv := by
  cases action with
  | submit command =>
    rcases step_submit hi command with heq | ⟨hfree, heq⟩
    · rw [heq]
      exact hi
    · rw [heq]
      exact accept_inv hi hfree
  | ring budget =>
    exact (step_ring (P := fun _ => True) (fun _ _ _ _ _ _ => trivial) (fun _ _ _ => trivial) hi
      trivial budget).1
  | consume =>
    rcases step_consume hi with heq | ⟨e, hpos, he, heq⟩
    · rw [heq]
      exact hi
    · rw [heq]
      exact deliver_inv hi hpos he
  | reset => exact reset_inv h
  | touchDma dma => exact { hi with }

theorem run_inv {h : History} (hi : h.Inv) (actions : List Action) : (h.run actions).Inv := by
  induction actions generalizing h with
  | nil => exact hi
  | cons action rest ih => exact ih (step_inv hi action)

end History
end OpenFlash.Reference
