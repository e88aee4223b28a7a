import OpenFlash.Driver.Stale

/-! Where I/O resumes after a recovery. The work item unfreezes the block queue whatever the
reset returned; both sides agree there when the device answers each step in time and the
interrupt keeps out of the stores. -/
namespace OpenFlash.Driver
open Abi Support

/-- The device has nothing left to do for the I/O queue. -/
structure Transport.Drained (t : Transport) : Prop where
  doorbells : t.doorbells = []
  posts : ¬ t.Posts

theorem Transport.Inv.drained_of_ended {d : ℕ} {t : Transport} (h : t.Inv d)
    (hended : t.unended = []) : t.Drained := by
  have hlen : t.accepted.length ≤ t.drained.length := by
    have hdrop := List.map_eq_nil_iff.mp hended
    exact List.drop_eq_nil_iff.mp hdrop
  have hdrained := h.counts.drained_le
  have hexecuted := h.counts.executed_le
  have hpending := h.doorbells.pending
  have hbells : t.doorbells.length = 0 := by omega
  refine ⟨List.length_eq_zero_iff.mp hbells, ?_⟩
  rintro ⟨hloop, hgoes⟩
  obtain ⟨tail, htail⟩ := Option.ne_none_iff_exists'.mp hloop
  have heq := h.doorbells.loop tail htail
  rw [hbells, Nat.sub_zero] at heq
  apply hgoes
  rw [htail, h.counts.sqHead, heq, show t.executed.length = t.accepted.length by omega]

/-- Without new requests the device stays idle and its state is kept. -/
theorem Transport.Drained.step {t : Transport} (h : t.Drained) {action : Action}
    (hsubmit : ∀ rq, action ≠ .submit rq) :
    (t.step action).Drained ∧ (t.step action).device = t.device ∧
      (t.step action).accepted = t.accepted := by
  unfold Transport.step
  split_ifs
  · cases action with
    | submit rq => exact absurd rfl (hsubmit rq)
    | enterLoop =>
      have hsame : t.enterLoop = t := by
        unfold Transport.enterLoop
        rw [h.doorbells]
      show t.enterLoop.Drained ∧ t.enterLoop.device = _ ∧ t.enterLoop.accepted = _
      rw [hsame]
      exact ⟨h, rfl, rfl⟩
    | iterate fileOk memory =>
      show (t.iterate fileOk memory).Drained ∧ (t.iterate fileOk memory).device = _ ∧
        (t.iterate fileOk memory).accepted = _
      unfold Transport.iterate
      cases hloop : t.loop with
      | none => exact ⟨h, rfl, rfl⟩
      | some tail =>
        dsimp only
        split_ifs with hhead
        · exact ⟨⟨h.doorbells, fun hposts => hposts.1 rfl⟩, rfl, rfl⟩
        · refine absurd ⟨by simp [hloop], ?_⟩ h.posts
          rw [hloop]
          exact fun heq => hhead (Option.some.inj heq).symm
    | endRequest | advanceHead => exact ⟨⟨h.doorbells, h.posts⟩, rfl, rfl⟩
  · exact ⟨h, rfl, rfl⟩

namespace Recovery
variable {d : ℕ} {r : Recovery}

/-- The device answers every step that waits for it. -/
def Prompt : Action → Prop
  | .reset reply => reply = .prompt
  | _ => True

instance : (action : Action) → Decidable (Prompt action)
  | .reset _ => inferInstanceAs (Decidable (_ = _))
  | .traffic _ | .timeout | .freeze | .frozen | .failAll | .unfreeze =>
      inferInstanceAs (Decidable True)

/-- Both sides have the same view of the I/O queue. -/
structure Agreeing (r : Recovery) : Prop where
  enabled : (r.transport.device.queues 1).enabled = true
  sqAddr : (r.transport.device.queues 1).sqAddr = r.dma.ioSq
  cqAddr : (r.transport.device.queues 1).cqAddr = r.dma.ioCq
  depth : (r.transport.device.queues 1).depth = r.transport.driver.depth
  sqHead : (r.transport.device.queues 1).sqHead = r.transport.driver.sqTail
  cqTail : (r.transport.device.queues 1).cqTail = r.transport.driver.cqHead
  cqPhase : (r.transport.device.queues 1).cqPhase = r.transport.driver.cqPhase

/-- From the end of the freeze on the device is idle, and after the reset the rings are
at their start. -/
structure Sound (d : ℕ) (r : Recovery) : Prop where
  inv : r.Inv d
  last : r.last = .ok ()
  qid : r.transport.driver.qid = 1
  accepted : Qemu.createIoqAccepted (openflashCreateIoQueue d r.dma.ioSq r.dma.ioCq)
  drained : r.work = .failing ∨ r.Resetting → r.transport.Drained
  rebuilt : ∀ ret, r.work = .unfreezing ret → Rebuilt d r

theorem Rebuilt.drained (h : Rebuilt d r) : r.transport.Drained := by
  apply h.inv.drained_of_ended
  unfold Transport.unended
  rw [h.accepted]
  simp

theorem Rebuilt.agreeing (h : Rebuilt d r) : r.Agreeing := by
  have hcounts := h.inv.counts
  have hexecuted := hcounts.executed_le
  have hbounds := hcounts.drained_bounds
  have hdrained := hcounts.drained_le
  have haccepted : r.transport.accepted.length = 0 := by rw [h.accepted]; rfl
  have hadvanced : r.transport.executed.length = r.transport.advanced := by omega
  constructor
  · exact h.inv.doorbells.enabled
  · exact h.sqAddr
  · exact h.cqAddr
  · rw [hcounts.deviceDepth, hcounts.driverDepth]
  · rw [hcounts.sqHead, hcounts.sqTail, show r.transport.executed.length = 0 by omega, haccepted]
  · rw [hcounts.cqTail, hcounts.cqHead, hadvanced]
  · rw [hcounts.devicePhase, hcounts.hostPhase, hadvanced]

theorem Rebuilt.traffic (h : Rebuilt d r) {action : Driver.Action}
    (hsubmit : ∀ rq, action ≠ .submit rq) :
    Rebuilt d { r with transport := r.transport.step action } := by
  obtain ⟨-, hdevice, haccepted⟩ := h.drained.step hsubmit
  constructor
  · exact Transport.step_inv h.inv action
  · exact haccepted.trans h.accepted
  · dsimp only
    rw [hdevice]
    exact h.sqAddr
  · dsimp only
    rw [hdevice]
    exact h.cqAddr

/-- Device iterations are quiet because there is nothing to fetch. -/
theorem Sound.quiet (h : r.Sound d) {action : Action} (hquiet : r.QuietInterrupt action) :
    r.Quiet action := by
  refine ⟨?_, hquiet⟩
  unfold QuietDevice
  split
  · intro hreset _
    exact (h.drained (Or.inr (List.ne_nil_of_mem hreset))).posts
  · trivial

/-- No submission reaches the driver from the end of the freeze to that of the recovery. -/
theorem not_submit_of_frozen {action : Driver.Action}
    (hdispatches : ∀ rq, action = .submit rq → r.work.Dispatches) (hwork : ¬ r.work.Dispatches) :
    ∀ rq, action ≠ .submit rq := fun rq heq => hwork (hdispatches rq heq)

theorem Sound.traffic (h : r.Sound d) {action : Driver.Action}
    (hquiet : r.QuietInterrupt (.traffic action))
    (hdispatches : ∀ rq, action = .submit rq → r.work.Dispatches) :
    Sound d { r with transport := r.transport.step action } where
  inv := h.inv.traffic (h.quiet hquiet) fun rq hrq hresetting =>
    hresetting.not_dispatches (hdispatches rq hrq)
  last := h.last
  qid := (Transport.step_fixed _ _).2.trans h.qid
  accepted := h.accepted
  drained := by
    intro hwork
    refine ((h.drained hwork).step (not_submit_of_frozen hdispatches ?_)).1
    rcases hwork with hfailing | hresetting
    · have hfailing : r.work = .failing := hfailing
      rw [hfailing]
      exact id
    · exact Resetting.not_dispatches hresetting
  rebuilt := by
    intro ret hwork
    have hwork : r.work = .unfreezing ret := hwork
    refine (h.rebuilt ret hwork).traffic (not_submit_of_frozen hdispatches ?_)
    rw [hwork]
    exact id

/-- The freeze returns when no request is left, so every completion has been drained. -/
theorem Sound.frozen (h : r.Sound d) (hwork : r.work = .freezing)
    (hfree : ∀ tag < r.transport.driver.depth - 1, (r.transport.driver.requests tag).rq = none) :
    r.transport.Drained := by
  have hidle : ¬ r.Resetting := by simp [Resetting, hwork, Work.todo]
  have hinv := h.inv.settled hidle h.last
  apply hinv.drained_of_ended
  rw [List.eq_nil_iff_forall_not_mem]
  intro rq hrq
  have htag := hinv.tags.tag_lt rq hrq
  have howner := (hinv.tags.owners rq.tag rq).mpr ⟨hrq, rfl⟩
  rw [hfree rq.tag (by rw [h.inv.table.depth]; omega)] at howner
  cases howner

section Steps
variable {s : ResetStep} {rest : List ResetStep} (h : r.Sound d)
  (hwork : r.work = .resetting (s :: rest))
include h hwork

/-- On time, no step of the reset fails. -/
theorem Sound.perform_ok : (r.perform .prompt s).2 = none := by
  obtain ⟨hstage, hsuffix⟩ := h.inv.at_step hwork
  cases s with
  | pollReady =>
    have hready := hstage.established (.writel 0x0010 1)
      (notMem_of_rank_lt hsuffix (by decide)) ⟨rfl, rfl⟩
    apply if_pos
    rw [hready]
    decide
  | createIoQueue =>
    have hcreated : r.createdBy = Qemu.executeCreateIoq
        (openflashCreateIoQueue d r.dma.ioSq r.dma.ioCq) (fun _ => 0) r.transport.device := by
      unfold createdBy
      rw [hstage.depth]
      rfl
    rw [Qemu.executeCreateIoq, if_pos h.accepted, Transport.createdQid_eq] at hcreated
    simp only [perform, hcreated, h.qid]
    rfl
  | _ => rfl

theorem Sound.perform_drained : (r.perform .prompt s).1.transport.Drained := by
  obtain ⟨hstage, hsuffix⟩ := h.inv.at_step hwork
  have hdrained := h.drained (Or.inr (by simp [Resetting, hwork, Work.todo]))
  have hcontroller : ResetStep.ctrlReset.rank < s.rank → r.transport.loop = none := fun hlt =>
    (hstage.established .ctrlReset (notMem_of_rank_lt hsuffix hlt)).1
  cases s with
  | ctrlReset => exact ⟨rfl, fun hposts => hposts.1 rfl⟩
  | writel addr value =>
    have hlt : ResetStep.ctrlReset.rank < (ResetStep.writel addr value).rank := by
      simp only [ResetStep.rank]
      split_ifs <;> decide
    have hloop := hcontroller hlt
    exact ⟨hdrained.doorbells, fun hposts => hposts.1 hloop⟩
  | createIoQueue =>
    have hloop := hcontroller (by decide)
    exact ⟨hdrained.doorbells, fun hposts => hposts.1 hloop⟩
  | _ => exact ⟨hdrained.doorbells, hdrained.posts⟩

theorem Sound.continueReset (hquiet : s = .ioCqHead → r.transport.draining = false) :
    Sound d (r.continueReset .prompt s rest) := by
  have hinv := h.inv.continueReset hwork hquiet .prompt
  have hok := h.perform_ok hwork
  obtain ⟨hstage, hsuffix⟩ := h.inv.at_step hwork
  have hkept : (r.perform .prompt s).1.last = .ok () ∧
      (r.perform .prompt s).1.transport.driver.qid = 1 := by
    rw [← h.last, ← h.qid]
    cases s <;> exact ⟨rfl, rfl⟩
  have haccepted : Qemu.createIoqAccepted (openflashCreateIoQueue d
      (r.perform .prompt s).1.dma.ioSq (r.perform .prompt s).1.dma.ioCq) := by
    rw [(perform_frame r .prompt s).2.2.2]
    exact h.accepted
  unfold Recovery.continueReset at hinv ⊢
  simp only [hok] at hinv ⊢
  split_ifs at hinv ⊢ with hrest
  · obtain rfl := (rest_eq_nil_iff hsuffix).mp hrest
    rw [hrest] at hstage
    have hrebuilt := hstage.rebuilt h.inv.depth_valid hok
    exact {
      inv := hinv
      last := rfl
      qid := hkept.2
      accepted := haccepted
      drained := fun hbad => by simp [returned, Resetting, Work.todo] at hbad
      rebuilt := fun _ _ => { hrebuilt with } }
  · exact {
      inv := hinv
      last := hkept.1
      qid := hkept.2
      accepted := haccepted
      drained := fun _ => h.perform_drained hwork
      rebuilt := fun _ hunfreezing => by cases hunfreezing }

end Steps

/-- A move of the work item that starts no reset and ends none. -/
theorem Sound.of_work (h : r.Sound d) {work : Work} (hinv : Inv d { r with work := work })
    (hfailing : work = .failing → r.transport.Drained) (htodo : work.todo = [])
    (hunfreezing : ∀ ret, work ≠ .unfreezing ret) : Sound d { r with work := work } where
  inv := hinv
  last := h.last
  qid := h.qid
  accepted := h.accepted
  drained := fun hwork => hwork.elim hfailing fun hresetting => absurd htodo hresetting
  rebuilt := fun ret hwork => absurd hwork (hunfreezing ret)

theorem step_sound (h : r.Sound d) {action : Action} (hprompt : Prompt action)
    (hquiet : r.QuietInterrupt action) : (r.step action).Sound d := by
  have hinv := Recovery.step_inv h.inv (h.quiet hquiet)
  have hstep := step_steps r action
  generalize r.step action = r' at hstep hinv
  cases hstep with
  | same => exact h
  | traffic action hdispatches => exact h.traffic hquiet hdispatches
  | timeout _ | freeze _ | unfreeze _ => exact h.of_work hinv (by simp) rfl (by simp)
  | frozen hwork hfree => exact h.of_work hinv (fun _ => h.frozen hwork hfree) rfl (by simp)
  | failAll hwork =>
    have hdrained := h.drained (Or.inl hwork)
    exact {
      inv := hinv
      last := h.last
      qid := h.qid
      accepted := h.accepted
      drained := fun _ => ⟨hdrained.doorbells, hdrained.posts⟩
      rebuilt := fun _ hunfreezing => by cases hunfreezing }
  | reset reply hwork =>
    obtain rfl : reply = .prompt := hprompt
    refine h.continueReset hwork fun heq => hquiet ?_
    rw [hwork, heq]
    rfl

/-- The driver after a successful probe, on a device that has created its I/O queue. -/
def probed (d : ℕ) (sglDma : ℕ → UInt64) (capabilities : UInt64) (admin : AdminQueue)
    (dma : DmaRings) (device : Qemu.OpenFlashState) : Recovery :=
  { transport := .start capabilities (openflashSetupIoQueue d sglDma)
      (Qemu.openflashExecute true (openflashCreateIoQueue d dma.ioSq dma.ioCq) (fun _ => 0)
        device).state
    admin := admin
    dma := dma
    work := .idle
    last := .ok () }

/-- Whenever the work item is about to unfreeze the block queue, both sides agree, in every
run in which the device answers in time and the interrupt keeps out of the stores. -/
theorem recovery_resumesAgreeing {dma : DmaRings} (hd : 2 ≤ d ∧ d ≤ Qemu.maxQueueDepth)
    (hsq : dma.ioSq ≠ 0) (hcq : dma.ioCq ≠ 0) {device : Qemu.OpenFlashState}
    (hready : device.status &&& Qemu.statusReady ≠ 0) (sglDma : ℕ → UInt64)
    (capabilities : UInt64) (admin : AdminQueue) (actions : List Action)
    (halong : Along step (fun r action => Prompt action ∧ r.QuietInterrupt action)
      (probed d sglDma capabilities admin dma device) actions) (k : ℕ) (ret : Except Errno Unit) :
    let r := (probed d sglDma capabilities admin dma device).run (actions.take k)
    r.work = .unfreezing ret → (r.step .unfreeze).Agreeing := by
  intro r hwork
  have hagrees := Transport.openflashCreateIoQueue_agrees hd hsq hcq sglDma hready true fun _ => 0
  have htransport := Transport.start_inv hagrees capabilities
  have hstart : Sound d (probed d sglDma capabilities admin dma device) := {
    inv := {
      depth_valid := htransport.depth_valid
      table := htransport.table
      suffix := List.nil_suffix
      stage := fun hresetting => absurd rfl hresetting
      settled := fun _ _ => htransport }
    last := rfl
    qid := rfl
    accepted := Transport.openflashCreateIoQueue_accepted hd hsq hcq
    drained := fun hbad => by simp [probed, Resetting, Work.todo] at hbad
    rebuilt := fun _ hunfreezing => by cases hunfreezing }
  have hstep : ∀ r action, Sound d r → Prompt action ∧ r.QuietInterrupt action →
      Sound d (step r action) := fun r action hr hgood => step_sound hr hgood.1 hgood.2
  have hsound : Sound d r := Along.invariant hstep hstart halong k
  have hagreeing := (hsound.rebuilt ret hwork).agreeing
  rw [step, hwork]
  exact { hagreeing with }

/-- A flush whose completion comes after its timeout, up to the start of the reset. -/
def lateFlush : List Action :=
  [.traffic (.submit { tag := 0, op := .flush }), .traffic .enterLoop,
    .traffic (.iterate true fun _ => 0), .traffic (.iterate true fun _ => 0), .timeout, .freeze,
    .traffic .endRequest, .traffic .advanceHead, .frozen, .failAll]

def probedPair : Recovery :=
  probed 2 (fun _ => 0x1000) 0 (.fresh 2) ringPages Transport.readyDevice

theorem promptRecovery_resumesAgreeing :
    (probedPair.run (lateFlush ++ hostSteps ++ controllerSteps)).work = .unfreezing (.ok ()) ∧
      ((probedPair.run (lateFlush ++ hostSteps ++ controllerSteps)).step .unfreeze).Agreeing :=
  ⟨rfl, recovery_resumesAgreeing (by decide) (by decide) (by decide) (by decide) _ 0 (.fresh 2)
    (lateFlush ++ hostSteps ++ controllerSteps) (by decide) 34 (.ok ()) rfl⟩

/-- The readiness poll times out after all writes are made. -/
def failedRecovery : Recovery :=
  probedPair.run (lateFlush ++ hostSteps ++ List.replicate 8 (.reset .prompt) ++
    [.reset (.fault false .etimedout), .unfreeze])

/-- I/O resumes all the same: the device has no queue, and a flush that the driver accepts
is never fetched. -/
theorem failedRecovery_not_agreeing :
    failedRecovery.work = .idle ∧ failedRecovery.last = .error .etimedout ∧
      ¬ failedRecovery.Agreeing ∧
      (failedRecovery.run (Transport.flushRound.map .traffic)).transport.executed.length = 0 ∧
      ((failedRecovery.run (Transport.flushRound.map .traffic)).transport.driver.requests 0).rq
        = some { tag := 0, op := .flush } := by
  refine ⟨rfl, rfl, fun h => ?_, by decide, by decide⟩
  exact absurd h.enabled (by decide)

/-- After an even number of laps the zeroed entries pass the phase test, and an iteration of
the interrupt that straddles the stores moves the completion head. -/
def straddlingInterrupt : List Action :=
  Transport.flushRound.map .traffic ++ Transport.flushRound.map .traffic ++
    [.timeout, .freeze, .frozen, .failAll] ++ List.replicate 8 (.reset .prompt) ++
    [.traffic .endRequest] ++ List.replicate 6 (.reset .prompt) ++ [.traffic .advanceHead] ++
    controllerSteps

/-- Replies in time are not enough. -/
theorem straddlingInterrupt_not_agreeing :
    (∀ action ∈ straddlingInterrupt, Prompt action) ∧
      (probedPair.run straddlingInterrupt).work = .unfreezing (.ok ()) ∧
      ¬ ((probedPair.run straddlingInterrupt).step .unfreeze).Agreeing := by
  refine ⟨by decide, rfl, fun h => ?_⟩
  exact absurd h.cqTail (by decide)

end Recovery
end OpenFlash.Driver
