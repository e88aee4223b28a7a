import OpenFlash.Driver.ResetStages
import OpenFlash.Support.Runs

/-! Completions across a recovery. The driver clears its rings and indices before it resets
the device, so entries posted in between outlive the recovery; without them both sides
start again in agreement. -/
namespace OpenFlash.Driver
open Abi Support

/-- What the steps of the transport keep whatever the device does. -/
structure Transport.Table (d : ℕ) (t : Transport) : Prop where
  depth : t.driver.depth = d
  free : ∀ tag, d ≤ tag + 1 → (t.driver.requests tag).rq = none

theorem Transport.Inv.table {d : ℕ} {t : Transport} (h : t.Inv d) : t.Table d := by
  refine ⟨h.counts.driverDepth, fun tag htag => ?_⟩
  by_contra hbusy
  obtain ⟨rq, hrq⟩ := Option.ne_none_iff_exists'.mp hbusy
  obtain ⟨hmem, heq⟩ := (h.tags.owners tag rq).mp hrq
  have hlt := h.tags.tag_lt rq hmem
  omega

theorem Transport.Table.step {d : ℕ} {t : Transport} (h : t.Table d) (action : Action) :
    (t.step action).Table d := by
  refine ⟨(Transport.step_fixed t action).1.trans h.depth, fun tag hhigh => ?_⟩
  have hfree := h.free tag hhigh
  by_cases hsubmit : ∃ rq, action = .submit rq
  · obtain ⟨rq, rfl⟩ := hsubmit
    unfold Transport.step
    split_ifs with henabled
    · have htag : rq.tag + 2 ≤ t.driver.depth := henabled
      rw [h.depth] at htag
      rcases openflashQueueRq_submits t.capabilities rq t.driver with ⟨-, -, hr⟩ | ⟨-, -, ha⟩
      · exact (hr.owners tag).trans hfree
      · refine (ha.owners tag).trans ?_
        rw [if_neg (by omega)]
        exact hfree
    · exact hfree
  · exact Transport.step_free (not_exists.mp hsubmit) hfree

def Work.todo : Work → List ResetStep
  | .resetting todo => todo
  | _ => []

namespace Recovery
variable {d : ℕ} {r : Recovery}

/-- The device posts nothing from the first store to the completion ring to the reset. -/
def QuietDevice (r : Recovery) : Action → Prop
  | .traffic (.iterate _ _) =>
      .ctrlReset ∈ r.work.todo → .clearIoCq 0 ∉ r.work.todo → ¬ r.transport.Posts
  | _ => True

/-- No iteration of the interrupt overlaps what follows the store of `cq_head` up to the
reset. -/
def QuietInterrupt (r : Recovery) : Action → Prop
  | .traffic .endRequest => .ctrlReset ∈ r.work.todo → .ioCqHead ∈ r.work.todo
  | .reset _ => r.work.todo.head? = some .ioCqHead → r.transport.draining = false
  | _ => True

instance (r : Recovery) : (action : Action) → Decidable (r.QuietDevice action)
  | .traffic (.iterate _ _) => inferInstanceAs (Decidable (_ → _ → _))
  | .traffic (.submit _) | .traffic .enterLoop | .traffic .endRequest | .traffic .advanceHead
  | .timeout | .freeze | .frozen | .failAll | .reset _ | .unfreeze =>
      inferInstanceAs (Decidable True)

instance (r : Recovery) : (action : Action) → Decidable (r.QuietInterrupt action)
  | .traffic .endRequest => inferInstanceAs (Decidable (_ → _))
  | .reset _ => inferInstanceAs (Decidable (_ → _))
  | .traffic (.submit _) | .traffic .enterLoop | .traffic (.iterate _ _) | .traffic .advanceHead
  | .timeout | .freeze | .frozen | .failAll | .unfreeze => inferInstanceAs (Decidable True)

def Quiet (r : Recovery) (action : Action) : Prop :=
  r.QuietDevice action ∧ r.QuietInterrupt action

instance (r : Recovery) (action : Action) : Decidable (r.Quiet action) :=
  inferInstanceAs (Decidable (_ ∧ _))

def Resetting (r : Recovery) : Prop := r.work.todo ≠ []

instance (r : Recovery) : Decidable r.Resetting := inferInstanceAs (Decidable (_ ≠ _))

theorem Resetting.not_dispatches (h : r.Resetting) : ¬ r.work.Dispatches := by
  intro hdispatches
  unfold Resetting at h
  cases hwork : r.work with
  | idle | scheduled | freezing =>
    rw [hwork] at h
    exact h rfl
  | failing | resetting _ | unfreezing _ =>
    rw [hwork] at hdispatches
    exact hdispatches

/-- While a reset runs, what its steps have established; after one that returned zero, the
invariant of the ring protocol. -/
structure Inv (d : ℕ) (r : Recovery) : Prop where
  depth_valid : 2 ≤ d ∧ d < 2 ^ 16
  table : r.transport.Table d
  suffix : r.work.todo <:+ resetProgram r.admin.depth d r.dma
  stage : r.Resetting → Stage d r.transport r.work.todo
  settled : ¬ r.Resetting → r.last = .ok () → r.transport.Inv d

/-- A change of the work item between two resets. -/
theorem Inv.of_work (h : r.Inv d) (hidle : ¬ r.Resetting) {work : Work} (hwork : work.todo = []) :
    Inv d { r with work := work } where
  depth_valid := h.depth_valid
  table := h.table
  suffix := by
    show work.todo <:+ _
    rw [hwork]
    exact List.nil_suffix
  stage := fun hresetting => absurd hwork hresetting
  settled := fun _ hlast => h.settled hidle hlast

theorem Inv.traffic (h : r.Inv d) {action : Driver.Action} (hquiet : r.Quiet (.traffic action))
    (hsubmit : ∀ rq, action = .submit rq → ¬ r.Resetting) :
    Inv d { r with transport := r.transport.step action } where
  depth_valid := h.depth_valid
  table := h.table.step action
  suffix := h.suffix
  stage := by
    intro hresetting
    have hstage := h.stage hresetting
    have hd : 0 < d := Nat.lt_of_lt_of_le (by decide) h.depth_valid.1
    cases action with
    | submit rq => exact absurd hresetting (hsubmit rq rfl)
    | enterLoop => exact hstage.enterLoop
    | iterate fileOk memory => exact hstage.iterate h.suffix hquiet.1 fileOk memory
    | endRequest => exact hstage.endRequest h.suffix hd hquiet.2
    | advanceHead => exact hstage.advanceHead h.suffix
  settled := fun hidle hlast => Transport.step_inv (h.settled hidle hlast) action

theorem Inv.failAll (h : r.Inv d) :
    Inv d { r.setDriver (failIoRequests r.transport.driver) with
      work := .resetting (resetProgram r.admin.depth r.transport.driver.depth r.dma) } := by
  have hfree : ∀ tag, ((failIoRequests r.transport.driver).requests tag).rq = none := by
    intro tag
    unfold failIoRequests
    dsimp only
    split_ifs with htag
    · rfl
    · rw [h.table.depth] at htag
      exact h.table.free tag (by omega)
  have hprogram : resetProgram r.admin.depth d r.dma ≠ [] := by simp [resetProgram]
  rw [h.table.depth]
  exact {
    depth_valid := h.depth_valid
    table := ⟨h.table.depth, fun tag _ => hfree tag⟩
    suffix := List.suffix_rfl
    stage := fun _ => stage_start (t := { r.transport with driver := failIoRequests _ })
      h.table.depth hfree r.admin.depth r.dma
    settled := fun hnot => absurd hprogram hnot }

theorem Inv.at_step (h : r.Inv d) {s : ResetStep} {rest : List ResetStep}
    (hwork : r.work = .resetting (s :: rest)) :
    Stage d r.transport (s :: rest) ∧ s :: rest <:+ resetProgram r.admin.depth d r.dma := by
  have htodo : r.work.todo = s :: rest := by rw [hwork]; rfl
  have hstage := h.stage (by simp [Resetting, htodo])
  have hsuffix := h.suffix
  rw [htodo] at hstage hsuffix
  exact ⟨hstage, hsuffix⟩

theorem Inv.continueReset (h : r.Inv d) {s : ResetStep} {rest : List ResetStep}
    (hwork : r.work = .resetting (s :: rest))
    (hquiet : s = .ioCqHead → r.transport.draining = false) (reply : Reply) :
    Inv d (r.continueReset reply s rest) := by
  obtain ⟨hstage, hsuffix⟩ := h.at_step hwork
  obtain ⟨hdepth, hrequests, hadmin, hdma⟩ := perform_frame r reply s
  have htable : (r.perform reply s).1.transport.Table d :=
    ⟨hdepth.trans h.table.depth, by rw [hrequests]; exact h.table.free⟩
  unfold Recovery.continueReset
  cases herror : (r.perform reply s).2 with
  | some e =>
    exact {
      depth_valid := h.depth_valid
      table := htable
      suffix := List.nil_suffix
      stage := fun hresetting => absurd rfl hresetting
      settled := fun _ hlast => by cases hlast }
  | none =>
    dsimp only
    split_ifs with hrest
    · obtain rfl := (rest_eq_nil_iff hsuffix).mp hrest
      rw [hrest] at hstage
      exact {
        depth_valid := h.depth_valid
        table := htable
        suffix := List.nil_suffix
        stage := fun hresetting => absurd rfl hresetting
        settled := fun _ _ => (hstage.rebuilt h.depth_valid herror).inv }
    · have hlast : s ≠ .createIoQueue := fun heq => hrest ((rest_eq_nil_iff hsuffix).mpr heq)
      exact {
        depth_valid := h.depth_valid
        table := htable
        suffix := by
          show rest <:+ resetProgram (r.perform reply s).1.admin.depth d (r.perform reply s).1.dma
          rw [hadmin, hdma]
          exact (List.suffix_cons s rest).trans hsuffix
        stage := fun _ => hstage.perform hsuffix hquiet hlast reply
        settled := fun hnot => absurd hrest hnot }

theorem step_inv (h : r.Inv d) {action : Action} (hquiet : r.Quiet action) :
    (r.step action).Inv d := by
  have hnot : ∀ {work}, r.work = work → work.todo = [] → ¬ r.Resetting := by
    intro work hwork htodo hresetting
    rw [Resetting, hwork] at hresetting
    exact hresetting htodo
  have hstep := step_steps r action
  generalize r.step action = r' at hstep
  cases hstep with
  | same => exact h
  | traffic action hdispatches =>
    exact h.traffic hquiet fun rq hrq hresetting => hresetting.not_dispatches (hdispatches rq hrq)
  | timeout hwork | freeze hwork | frozen hwork _ | unfreeze hwork =>
    exact h.of_work (hnot hwork rfl) rfl
  | failAll hwork => exact h.failAll
  | reset reply hwork =>
    refine h.continueReset hwork (fun heq => hquiet.2 ?_) reply
    rw [hwork, heq]
    rfl

theorem run_inv (h : r.Inv d) {actions : List Action} (hquiet : Along step Quiet r actions)
    (k : ℕ) : (r.run (actions.take k)).Inv d := by
  have hstep : ∀ r action, Inv d r → Quiet r action → Inv d (step r action) :=
    fun r action hr hq => step_inv hr hq
  exact Along.invariant hstep h hquiet k

/-- A recovery begins on a transport with traffic: its requests are failed, and all of
`openflash_reset_controller` is to come. -/
def recovering (t : Transport) (admin : AdminQueue) (dma : DmaRings) : Recovery :=
  { transport := { t with driver := failIoRequests t.driver }
    admin := admin
    dma := dma
    work := .resetting (resetProgram admin.depth t.driver.depth dma)
    last := .ok () }

/-- Only what the device has done since its reset counts, as the logs have it. -/
structure NoStale (t : Transport) : Prop where
  phase_test : phaseMatches t.driver ↔ t.advanced < t.executed.length
  entry : ∀ x, t.executed[t.advanced]? = some x →
    t.driver.cqes t.driver.cqHead = x.completion
  /-- Request `n` is ended by the completion of its own command. -/
  ended : ∀ (n : ℕ) e, t.drained[n]? = some e → ∃ a x, t.accepted[n]? = some a ∧
    t.executed[n]? = some x ∧ x.command = a.2 ∧ e.cqe = x.completion ∧
      e.ended = some (a.1, openflashBlkStatus (.ofNat x.status.code))
  behind : t.advanced ≤ t.executed.length
  cqHead : t.driver.cqHead = t.advanced % t.driver.depth
  cqTail : (t.device.queues 1).cqTail = t.executed.length % t.driver.depth

theorem noStale_of_inv {t : Transport} (h : t.Inv d) : NoStale t := by
  have hsafe := Transport.protocolSafe_of_inv h
  have hdepth := h.counts.driverDepth
  have hbounds := h.counts.drained_bounds
  have hdrained := h.counts.drained_le
  constructor
  · exact hsafe.phase_test
  · intro x hx
    have hslot := (hsafe.undrained t.advanced x le_rfl hx).1
    rw [h.counts.cqHead, ← hdepth]
    exact hslot
  · intro n e he
    obtain ⟨a, x, ha, hx, hcqe, hended⟩ := hsafe.ended n e he
    obtain ⟨a', ha', hcommand, -, -⟩ := hsafe.executed n x hx
    rw [ha] at ha'
    obtain rfl := Option.some.inj ha'
    exact ⟨a, x, ha, hx, hcommand, hcqe, hended⟩
  · omega
  · rw [hdepth]
    exact h.counts.cqHead
  · rw [hdepth]
    exact h.counts.cqTail

theorem recovering_inv {t : Transport} (h : t.Inv d) (admin : AdminQueue) (dma : DmaRings) :
    (recovering t admin dma).Inv d := by
  have hstart : Inv d ⟨t, admin, dma, .failing, .ok ()⟩ := {
    depth_valid := h.depth_valid
    table := h.table
    suffix := List.nil_suffix
    stage := fun hresetting => absurd rfl hresetting
    settled := fun _ _ => h }
  exact hstart.failAll

/-- After a reset that returned zero, in every run that keeps quiet while a reset clears
the completion ring and its indices. -/
theorem resetController_noStale {driver : OpenflashQueue} {device : Qemu.OpenFlashState}
    (hagrees : Transport.Agrees d driver device) (capabilities : UInt64)
    (before : List Driver.Action) (admin : AdminQueue) (dma : DmaRings) (actions : List Action)
    (hquiet : Along step Quiet
      (recovering ((Transport.start capabilities driver device).run before) admin dma) actions)
    (k : ℕ) :
    let r := (recovering ((Transport.start capabilities driver device).run before) admin
      dma).run (actions.take k)
    ¬ r.Resetting → r.last = .ok () → NoStale r.transport := by
  intro r hidle hlast
  have hbefore := Transport.run_inv (Transport.start_inv hagrees capabilities) before
  have hinv := run_inv (recovering_inv hbefore admin dma) hquiet k
  exact noStale_of_inv (hinv.settled hidle hlast)

/-- A flush under way: the device has the doorbell but has not fetched the command. -/
def flushUnderWay : Transport :=
  (Transport.start 0 (openflashSetupIoQueue 2 fun _ => 0x1000) Transport.createdDevice).run
    [.submit { tag := 0, op := .flush }, .enterLoop]

def ringPages : DmaRings := ⟨0x1000, 0x2000, 0x3000, 0x4000⟩

/-- The reset of rings of two slots from the start to the store before the device reset. -/
def hostSteps : List Action := List.replicate 14 (.reset .prompt)

def controllerSteps : List Action := List.replicate 10 (.reset .prompt)

/-- The device stays quiet, and a flush goes through after the reset. -/
def quietReset : List Action :=
  hostSteps ++ controllerSteps ++ [.unfreeze] ++ Transport.flushRound.map .traffic

theorem quietReset_noStale :
    ((recovering flushUnderWay (.fresh 2) ringPages).run quietReset).transport.drained.length = 1 ∧
      NoStale ((recovering flushUnderWay (.fresh 2) ringPages).run quietReset).transport :=
  ⟨by decide, resetController_noStale
    (Transport.openflashCreateIoQueue_agrees (by decide) (by decide) (by decide) _ (by decide)
      true _) 0 [.submit { tag := 0, op := .flush }, .enterLoop] (.fresh 2) ringPages quietReset
    (by decide) 31 (by decide) rfl⟩

/-- The device fetches the cleared command after the stores of the driver. -/
def lateIteration : List Action :=
  hostSteps ++ [.traffic (.iterate true (fun _ => 0))] ++ controllerSteps

def staleReset : Recovery :=
  (recovering flushUnderWay (.fresh 2) ringPages).run lateIteration

/-- One iteration of the interrupt, then a new flush. -/
def flushAfterStale : Transport :=
  (staleReset.run ([.traffic .endRequest, .traffic .advanceHead, .unfreeze] ++
    Transport.flushRound.map .traffic)).transport

/-- Its entry passes the phase test after the reset and takes the completion head one slot
ahead of the device: the flush that follows is executed and not ended. -/
theorem staleReset_not_noStale :
    staleReset.last = .ok () ∧ ¬ staleReset.Resetting ∧
      staleReset.transport.executed.length = 0 ∧ phaseMatches staleReset.transport.driver ∧
      ¬ NoStale staleReset.transport ∧
      flushAfterStale.executed.length = 1 ∧ ¬ phaseMatches flushAfterStale.driver ∧
      (flushAfterStale.driver.requests 0).rq = some { tag := 0, op := .flush } := by
  have hexecuted : staleReset.transport.executed.length = 0 := by decide
  have hmatch : phaseMatches staleReset.transport.driver := by decide
  refine ⟨rfl, by decide, hexecuted, hmatch, fun h => ?_, by decide, by decide, by decide⟩
  have hposted := h.phase_test.mp hmatch
  omega

end Recovery
end OpenFlash.Driver
