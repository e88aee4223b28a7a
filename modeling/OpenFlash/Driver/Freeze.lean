import OpenFlash.Driver.Stale

/-! The freeze of the block queue against lost completions. The work item waits for every
request to be ended before it ends the ones it was started for. -/
namespace OpenFlash.Driver
open Abi Support

/-- A recovery together with the tags whose completion will not arrive. -/
structure Waiting where
  recovery : Recovery
  lost : ℕ → Bool

namespace Waiting
variable {s : Waiting}

abbrev queue (s : Waiting) : OpenflashQueue := s.recovery.transport.driver

/-- The entry at the head is a completion that does not arrive. -/
def EndsLost (s : Waiting) : Prop :=
  ∃ tag < s.queue.depth - 1, Completes s.queue tag ∧ s.lost tag = true

instance (s : Waiting) : Decidable s.EndsLost :=
  inferInstanceAs (Decidable (∃ tag < _, Completes s.queue tag ∧ s.lost tag = true))

/-- No request is ended by that entry, and the ones behind it are next. -/
def passOver (s : Waiting) : Waiting :=
  if s.recovery.transport.Enabled .endRequest then
    { s with
      recovery :=
        { s.recovery with transport := { s.recovery.transport with draining := true } } }
  else s

inductive Action where
  | recovery (action : Recovery.Action)
  | lose (tag : ℕ)

/-- A tag that is taken anew may be completed again. -/
def step (s : Waiting) : Action → Waiting
  | .recovery (.traffic (.submit rq)) =>
      { recovery := s.recovery.step (.traffic (.submit rq))
        lost := if (s.queue.requests rq.tag).rq = none then Function.update s.lost rq.tag false
          else s.lost }
  | .recovery (.traffic .endRequest) =>
      if s.EndsLost then s.passOver
      else { s with recovery := s.recovery.step (.traffic .endRequest) }
  | .recovery action => { s with recovery := s.recovery.step action }
  | .lose tag => { s with lost := Function.update s.lost tag true }

def run (s : Waiting) (actions : List Action) : Waiting := actions.foldl step s

/-- A request is held that no completion will end. -/
def Starved (s : Waiting) : Prop :=
  ∃ tag < s.queue.depth - 1, s.lost tag = true ∧ (s.queue.requests tag).rq ≠ none

/-- The work item is in the freeze, before the pass that would end such a request. -/
def Stuck (s : Waiting) : Prop := s.recovery.work = .freezing ∧ s.Starved

/-- No request is starved when the freeze begins, and none becomes so while it lasts. -/
def Answered (s : Waiting) : Action → Prop
  | .recovery .freeze => s.recovery.work = .scheduled → ¬ s.Starved
  | .lose tag => s.recovery.work = .freezing → tag < s.queue.depth - 1 →
      (s.queue.requests tag).rq = none
  | _ => True

theorem passOver_kept (s : Waiting) :
    s.passOver.queue = s.queue ∧ s.passOver.recovery.work = s.recovery.work ∧
      s.passOver.lost = s.lost := by
  unfold passOver
  split_ifs
  · exact ⟨rfl, rfl, rfl⟩
  · exact ⟨rfl, rfl, rfl⟩

theorem passOver_stuck_iff (s : Waiting) : s.passOver.Stuck ↔ s.Stuck := by
  obtain ⟨hqueue, hwork, hlost⟩ := s.passOver_kept
  rw [Stuck, Stuck, Starved, Starved, hqueue, hwork, hlost]

/-- A submission starves no request: the one that it adds may still be completed. -/
theorem Starved.of_submit {rq : Request}
    (h : (s.step (.recovery (.traffic (.submit rq)))).Starved) : s.Starved := by
  obtain ⟨tag, htag, hlost, hbusy⟩ := h
  have hdepth : (s.step (.recovery (.traffic (.submit rq)))).queue.depth = s.queue.depth := by
    show (s.recovery.step (.traffic (.submit rq))).transport.driver.depth = _
    rw [Recovery.step]
    split_ifs
    · exact (Transport.step_fixed _ _).1
    · rfl
  have hsame : ((s.recovery.step (.traffic (.submit rq))).transport.driver.requests tag).rq
        = (s.queue.requests tag).rq ∨ (tag = rq.tag ∧ (s.queue.requests tag).rq = none) := by
    rw [Recovery.step]
    split_ifs
    · exact Transport.step_submit_rq s.recovery.transport rq tag
    · exact Or.inl rfl
  rw [step] at hlost
  have hgone : s.lost tag = true ∧ ¬ (tag = rq.tag ∧ (s.queue.requests tag).rq = none) := by
    dsimp only at hlost
    split_ifs at hlost with hfree
    · rw [Function.update_apply] at hlost
      split_ifs at hlost with htag
      exact ⟨hlost, fun hnew => htag hnew.1⟩
    · exact ⟨hlost, fun hnew => hfree (hnew.1 ▸ hnew.2)⟩
  refine ⟨tag, hdepth ▸ htag, hgone.1, fun hnone => hbusy ?_⟩
  exact (hsame.resolve_right hgone.2).trans hnone

/-- The other steps of the recovery happen here as they are. -/
theorem step_recovery {action : Recovery.Action} (hsubmit : ∀ rq, action ≠ .traffic (.submit rq)) :
    s.step (.recovery action) = { s with recovery := s.recovery.step action } ∨
      s.step (.recovery action) = s.passOver := by
  cases action with
  | traffic action =>
    cases action with
    | submit rq => exact absurd rfl (hsubmit rq)
    | endRequest =>
      rw [step]
      split_ifs
      · exact Or.inr rfl
      · exact Or.inl rfl
    | enterLoop | iterate _ _ | advanceHead => exact Or.inl rfl
  | timeout | freeze | frozen | failAll | reset _ | unfreeze => exact Or.inl rfl

theorem continueReset_not_freezing (r : Recovery) (reply : Reply) (x : ResetStep)
    (rest : List ResetStep) : (r.continueReset reply x rest).work ≠ .freezing := by
  unfold Recovery.continueReset
  split
  · simp [Recovery.returned]
  · split_ifs <;> simp [Recovery.returned]

theorem lose_stuck_iff (hs : ¬ s.Stuck) (tag : ℕ) :
    ¬ (s.step (.lose tag)).Stuck ↔ s.Answered (.lose tag) := by
  constructor
  · intro h hwork htag
    by_contra hbusy
    exact h ⟨hwork, tag, htag, Function.update_self .., hbusy⟩
  · rintro h ⟨hwork, other, hother, hlost, hbusy⟩
    by_cases heq : other = tag
    · subst heq
      exact hbusy (h hwork hother)
    · have hlost : Function.update s.lost tag true other = true := hlost
      rw [Function.update_of_ne heq] at hlost
      exact hs ⟨hwork, other, hother, hlost, hbusy⟩

theorem freeze_stuck_iff (hs : ¬ s.Stuck) :
    ¬ (s.step (.recovery .freeze)).Stuck ↔ s.Answered (.recovery .freeze) := by
  have hstep : s.step (.recovery .freeze) = { s with recovery := s.recovery.step .freeze } := rfl
  rw [hstep, Recovery.step]
  split
  · rename_i hwork
    exact ⟨fun h _ hstarved => h ⟨rfl, hstarved⟩, fun h hstuck => h hwork hstuck.2⟩
  · rename_i hwork
    exact ⟨fun _ hscheduled => absurd hscheduled hwork, fun _ => hs⟩

/-- The other steps start no freeze and starve no request during one. -/
theorem step_not_stuck (hs : ¬ s.Stuck) {action : Recovery.Action} (hfreeze : action ≠ .freeze) :
    ¬ (s.step (.recovery action)).Stuck := by
  by_cases hsubmit : ∃ rq, action = .traffic (.submit rq)
  · obtain ⟨rq, rfl⟩ := hsubmit
    rintro ⟨hwork, hstarved⟩
    have hkept : (s.recovery.step (.traffic (.submit rq))).work = s.recovery.work := by
      rw [Recovery.step]
      split_ifs <;> rfl
    exact hs ⟨hkept.symm.trans hwork, hstarved.of_submit⟩
  have hsubmit := not_exists.mp hsubmit
  rcases step_recovery hsubmit with heq | heq
  · rw [heq]
    have hsteps := Recovery.step_steps s.recovery action
    generalize s.recovery.step action = r at hsteps
    rintro ⟨hwork, tag, htag, hlost, hbusy⟩
    cases hsteps with
    | same => exact hs ⟨hwork, tag, htag, hlost, hbusy⟩
    | traffic action _ =>
      refine hs ⟨hwork, tag, (Transport.step_fixed _ _).1 ▸ htag, hlost, fun hnone => hbusy ?_⟩
      exact Transport.step_free (fun rq heq => hsubmit rq (heq ▸ rfl)) hnone
    | freeze _ => exact hfreeze rfl
    | timeout _ | frozen _ _ | failAll _ _ | unfreeze _ => cases hwork
    | reset reply _ => exact continueReset_not_freezing _ _ _ _ hwork
  · rw [heq, passOver_stuck_iff]
    exact hs

theorem step_stuck_iff (hs : ¬ s.Stuck) (action : Action) :
    ¬ (s.step action).Stuck ↔ s.Answered action := by
  cases action with
  | lose tag => exact lose_stuck_iff hs tag
  | recovery action =>
    cases action with
    | freeze => exact freeze_stuck_iff hs
    | traffic _ | timeout | frozen | failAll | reset _ | unfreeze =>
      exact ⟨fun _ => trivial, fun _ => step_not_stuck hs (by simp)⟩

/-- The driver after a probe, with no completion lost. -/
def start (driver : OpenflashQueue) (device : Qemu.OpenFlashState) (capabilities : UInt64)
    (admin : AdminQueue) (dma : DmaRings) : Waiting :=
  ⟨⟨.start capabilities driver device, admin, dma, .idle, .ok ()⟩, fun _ => false⟩

/-- The freeze gets stuck exactly in the runs in which a completion is lost that it has to
wait for. -/
theorem freeze_neverStuck_iff (driver : OpenflashQueue) (device : Qemu.OpenFlashState)
    (capabilities : UInt64) (admin : AdminQueue) (dma : DmaRings) (actions : List Action) :
    (∀ n, ¬ ((start driver device capabilities admin dma).run (actions.take n)).Stuck) ↔
      Along step Answered (start driver device capabilities admin dma) actions := by
  have hstart : ¬ (start driver device capabilities admin dma).Stuck := by
    rintro ⟨hwork, -⟩
    cases hwork
  have hkeep : ∀ (s : Waiting) (action : Action), True → True → True := fun _ _ _ _ => trivial
  have hstep : ∀ (s : Waiting) (action : Action), True → True → ¬ s.Stuck →
      (¬ (s.step action).Stuck ↔ s.Answered action) :=
    fun _ action _ _ hs => step_stuck_iff hs action
  exact forall_take_iff_along hkeep hstep trivial hstart (along_of_forall (fun _ _ => trivial) ..)

/-- The traffic that is no submission ends no request whose completion does not arrive. -/
theorem stuck_traffic (h : s.Stuck) {action : Driver.Action} (hsubmit : ∀ rq, action ≠ .submit rq)
    (hends : action = .endRequest → ¬ s.EndsLost) :
    Stuck { s with
      recovery := { s.recovery with transport := s.recovery.transport.step action } } := by
  obtain ⟨hwork, tag, htag, hlost, hbusy⟩ := h
  refine ⟨hwork, tag, ?_, hlost, ?_⟩
  · show tag < (s.recovery.transport.step action).driver.depth - 1
    rw [(Transport.step_fixed _ _).1]
    exact htag
  · rcases Transport.step_rq hsubmit tag with hkept | ⟨hend, hcompletes, -⟩
    · exact fun hnone => hbusy (hkept.symm.trans hnone)
    · exact absurd ⟨tag, htag, hcompletes, hlost⟩ (hends hend)

/-- Nor does a submission, which finds its slot taken. -/
theorem stuck_submit (h : s.Stuck) (rq : Request) :
    (s.step (.recovery (.traffic (.submit rq)))).Stuck := by
  obtain ⟨hwork, tag, htag, hlost, hbusy⟩ := h
  have hstep : s.recovery.step (.traffic (.submit rq))
      = { s.recovery with transport := s.recovery.transport.step (.submit rq) } := by
    rw [Recovery.step]
    apply if_pos
    rw [hwork]
    trivial
  rw [step, hstep]
  refine ⟨hwork, tag, ?_, ?_, ?_⟩
  · show tag < (s.recovery.transport.step (.submit rq)).driver.depth - 1
    rw [(Transport.step_fixed _ _).1]
    exact htag
  · dsimp only
    split_ifs with hfree
    · have hne : tag ≠ rq.tag := fun heq => hbusy (heq ▸ hfree)
      rw [Function.update_of_ne hne]
      exact hlost
    · exact hlost
  · intro hnone
    rcases Transport.step_submit_rq s.recovery.transport rq tag with hsame | ⟨-, hfree⟩
    · exact hbusy (hsame.symm.trans hnone)
    · exact hbusy hfree

/-- Nothing ends a request whose completion does not arrive but the pass after the freeze. -/
theorem stuck_step (h : s.Stuck) (action : Action) : (s.step action).Stuck := by
  have hstuck := h
  obtain ⟨hwork, tag, htag, hlost, hbusy⟩ := h
  have hblocked : ¬ ∀ tag < s.queue.depth - 1, (s.queue.requests tag).rq = none :=
    fun hfree => hbusy (hfree tag htag)
  have hsame : ∀ {action : Recovery.Action}, s.recovery.step action = s.recovery →
      Stuck { s with recovery := s.recovery.step action } := by
    intro action heq
    rw [heq]
    exact hstuck
  cases action with
  | lose other =>
    refine ⟨hwork, tag, htag, ?_, hbusy⟩
    show Function.update s.lost other true tag = true
    rw [Function.update_apply]
    split_ifs
    · rfl
    · exact hlost
  | recovery action =>
    cases action with
    | traffic action =>
      cases action with
      | submit rq => exact stuck_submit hstuck rq
      | endRequest =>
        rw [step]
        split_ifs with hends
        · exact s.passOver_stuck_iff.mpr hstuck
        · exact stuck_traffic hstuck (by simp) fun _ => hends
      | enterLoop | iterate _ _ | advanceHead => exact stuck_traffic hstuck (by simp) (by simp)
    | frozen => exact hsame (by rw [Recovery.step, hwork]; exact if_neg hblocked)
    | timeout | freeze | failAll | reset _ | unfreeze =>
      exact hsame (by rw [Recovery.step, hwork])

theorem stuck_run (h : s.Stuck) (actions : List Action) : (s.run actions).Stuck := by
  induction actions generalizing s with
  | nil => exact h
  | cons action rest ih => exact ih (stuck_step h action)

def startPair : Waiting :=
  start (openflashSetupIoQueue 2 fun _ => 0x1000) Transport.createdDevice 0 (.fresh 2)
    Recovery.ringPages

/-- The completion of a flush is lost, and its timeout starts the work item. -/
def lostFlush : List Action :=
  [.recovery (.traffic (.submit { tag := 0, op := .flush })), .lose 0, .recovery .timeout,
    .recovery .freeze]

/-- The freeze waits for the flush in every continuation. -/
theorem lostFlush_stuck :
    (startPair.run lostFlush).Stuck ∧
      ∀ actions, ((startPair.run lostFlush).run actions).Stuck := by
  have hstuck : (startPair.run lostFlush).Stuck := ⟨rfl, 0, by decide, by decide, by decide⟩
  exact ⟨hstuck, stuck_run hstuck⟩

end Waiting
end OpenFlash.Driver
