import OpenFlash.Driver.Lifecycle
import OpenFlash.Driver.Probe
import OpenFlash.Driver.ResetStages

/-! Functions of the driver that are modelled twice: a controller reset store by store and over
the rings, and the set-up of the admin queue and the probe with the resources of the kernel and
with the device. -/
namespace OpenFlash.Driver
open Abi Support Support.Ring

namespace Recovery

/-- What is left of the steps when the device answers each of them in time and none fails. -/
def performed (r : Recovery) (steps : List ResetStep) : Recovery :=
  steps.foldl (fun r s => (r.perform .prompt s).1) r

theorem performed_append (r : Recovery) (A B : List ResetStep) :
    r.performed (A ++ B) = (r.performed A).performed B := List.foldl_append

/-- The work item is not what a step looks at. -/
theorem perform_work (r : Recovery) (work : Work) (reply : Reply) (s : ResetStep) :
    ({ r with work := work } : Recovery).perform reply s
      = ({ (r.perform reply s).1 with work := work }, (r.perform reply s).2) := by
  cases s with
  | pollReady => cases reply <;> rfl
  | createIoQueue =>
    cases reply with
    | prompt => rfl
    | fault executed e => cases executed <;> rfl
  | _ => rfl

theorem performed_work (r : Recovery) (work : Work) (steps : List ResetStep) :
    ({ r with work := work } : Recovery).performed steps
      = { r.performed steps with work := work } := by
  induction steps generalizing r with
  | nil => rfl
  | cons s rest ih =>
    rw [performed, List.foldl_cons, perform_work]
    exact ih _

/-- Only the poll and the last command can fail. -/
theorem perform_ok {s : ResetStep} (h : s.rank < 15) (r : Recovery) (reply : Reply) :
    (r.perform reply s).2 = none := by
  cases s with
  | pollReady => exact absurd h (by decide)
  | createIoQueue => exact absurd h (by decide)
  | _ => rfl

/-- A run through steps that cannot fail. -/
theorem run_performed {A B : List ResetStep} (hA : ∀ s ∈ A, s.rank < 15) (hB : B ≠ [])
    {r : Recovery} (hwork : r.work = .resetting (A ++ B)) :
    r.run (List.replicate A.length (.reset .prompt))
      = { r.performed A with work := .resetting B } := by
  induction A generalizing r with
  | nil =>
    rw [List.nil_append] at hwork
    show r = { r with work := .resetting B }
    rw [← hwork]
  | cons s rest ih =>
    have hstep : r.step (.reset .prompt)
        = { (r.perform .prompt s).1 with work := .resetting (rest ++ B) } := by
      rw [step, hwork]
      show r.continueReset .prompt s (rest ++ B) = _
      rw [continueReset, perform_ok (hA s List.mem_cons_self)]
      exact if_neg (by simp [hB])
    rw [List.length_cons, List.replicate_succ, run, List.foldl_cons, hstep]
    refine (ih (fun x hx => hA x (List.mem_cons_of_mem s hx)) rfl).trans ?_
    rw [performed_work]
    rfl

/-- The stores of the host leave the device and the shape of the queues alone. -/
theorem perform_host {s : ResetStep} (h : s.rank ≤ 10) (r : Recovery) :
    (r.perform .prompt s).1.transport.device = r.transport.device ∧
      (r.perform .prompt s).1.transport.driver.depth = r.transport.driver.depth ∧
      (r.perform .prompt s).1.transport.driver.qid = r.transport.driver.qid ∧
      (r.perform .prompt s).1.dma = r.dma := by
  cases s with
  | writel addr value =>
    simp only [ResetStep.rank] at h
    split_ifs at h <;> omega
  | ctrlReset | readStatus | pollReady | createIoQueue => exact absurd h (by decide)
  | _ => exact ⟨rfl, rfl, rfl, rfl⟩

theorem performed_host {steps : List ResetStep} (h : ∀ s ∈ steps, s.rank ≤ 10) (r : Recovery) :
    (r.performed steps).transport.device = r.transport.device ∧
      (r.performed steps).transport.driver.depth = r.transport.driver.depth ∧
      (r.performed steps).transport.driver.qid = r.transport.driver.qid ∧
      (r.performed steps).dma = r.dma := by
  induction steps generalizing r with
  | nil => exact ⟨rfl, rfl, rfl, rfl⟩
  | cons s rest ih =>
    obtain ⟨hdevice, hdepth, hqid, hdma⟩ := perform_host (h s List.mem_cons_self) r
    obtain ⟨hdevice', hdepth', hqid', hdma'⟩ :=
      ih (fun x hx => h x (List.mem_cons_of_mem s hx)) (r.perform .prompt s).1
    exact ⟨hdevice'.trans hdevice, hdepth'.trans hdepth, hqid'.trans hqid, hdma'.trans hdma⟩

theorem performed_writes (writes : List (ℕ × UInt64)) (r : Recovery) :
    r.performed (writes.map fun w => .writel w.1 w.2)
      = r.setDevice (writeRegisters writes r.transport.device) := by
  induction writes generalizing r with
  | nil => rfl
  | cons w rest ih => exact ih (r.setDevice (Qemu.openflashMmioWrite w.1 w.2 r.transport.device).1)

/-- The register accesses from the reset of the controller on. -/
theorem performed_restart (writes : List (ℕ × UInt64)) (r : Recovery) :
    r.performed (.ctrlReset :: .readStatus :: writes.map fun w => .writel w.1 w.2)
      = Recovery.setDevice { r with transport := r.transport.restarted }
        (writeRegisters ((0x0010, 2) :: writes) r.transport.device) :=
  performed_writes writes { r with transport := r.transport.restarted }

theorem performed_hostWrites (adminDepth ioDepth : ℕ) (r : Recovery) :
    (r.performed (hostWrites adminDepth ioDepth)).admin.sqTail = 0 ∧
      (r.performed (hostWrites adminDepth ioDepth)).admin.cqHead = 0 ∧
      (r.performed (hostWrites adminDepth ioDepth)).admin.cqPhase = 1 := by
  rw [hostWrites, performed_append]
  exact ⟨rfl, rfl, rfl⟩

/-- An entry of the admin completion ring stays zero. -/
theorem performed_cqes_zero {steps : List ResetStep} (h : ∀ s ∈ steps, s.rank ≤ 10) {r : Recovery}
    {slot : ℕ} (hslot : r.admin.cqes slot = ⟨0, 0, 0, 0, 0, 0⟩) :
    (r.performed steps).admin.cqes slot = ⟨0, 0, 0, 0, 0, 0⟩ := by
  induction steps generalizing r with
  | nil => exact hslot
  | cons s rest ih =>
    refine ih (fun x hx => h x (List.mem_cons_of_mem s hx)) ?_
    have hrank := h s List.mem_cons_self
    cases s with
    | clearAdminCq other =>
      show Function.update r.admin.cqes other _ slot = _
      by_cases heq : slot = other
      · rw [heq, Function.update_self]
      · rw [Function.update_of_ne heq, hslot]
    | ctrlReset | readStatus | pollReady | createIoQueue => exact absurd hrank (by decide)
    | _ => exact hslot

theorem performed_cleared {steps : List ResetStep} (h : ∀ s ∈ steps, s.rank ≤ 10) {slot : ℕ}
    (hslot : .clearAdminCq slot ∈ steps) (r : Recovery) :
    (r.performed steps).admin.cqes slot = ⟨0, 0, 0, 0, 0, 0⟩ := by
  obtain ⟨before, after, rfl⟩ := List.append_of_mem hslot
  rw [performed_append]
  refine performed_cqes_zero
    (fun s hs => h s (List.mem_append_right before (List.mem_cons_of_mem _ hs))) ?_
  exact Function.update_self ..

end Recovery

theorem hostWrites_rank (adminDepth ioDepth : ℕ) :
    ∀ s ∈ hostWrites adminDepth ioDepth, s.rank ≤ 10 := by
  simp only [hostWrites, List.forall_mem_append, List.forall_mem_map, List.forall_mem_cons,
    ResetStep.rank]
  grind

/-- `openflash_reset_controller` up to its poll of the status register. -/
def restartSteps (rings : AdminRings) : List ResetStep :=
  hostWrites rings.depth rings.depth ++ .ctrlReset :: .readStatus ::
    (enableWrites rings.depth rings.dma.adminSq rings.dma.adminCq).map fun w => .writel w.1 w.2

theorem resetProgram_eq (rings : AdminRings) :
    resetProgram rings.depth rings.depth rings.dma
      = restartSteps rings ++ [.pollReady, .createIoQueue] := by
  simp [resetProgram, restartSteps, controllerWrites]

theorem restartSteps_rank (rings : AdminRings) : ∀ s ∈ restartSteps rings, s.rank < 15 := by
  rw [restartSteps, List.forall_mem_append]
  constructor
  · exact fun s hs => (hostWrites_rank _ _ s hs).trans_lt (by decide)
  · simp [enableWrites, ResetStep.rank]

/-- The controller of the link, with the queues that the recovery works on. -/
structure SameController (rings : AdminRings) (l : AdminLink) (r : Recovery) : Prop where
  device : r.transport.device = l.machine.device
  dma : r.dma = rings.dma
  ioDepth : r.transport.driver.depth = rings.depth
  qid : r.transport.driver.qid = 1

/-- The admin queue of the recovery is that of the link, as far as a reset sets it. -/
structure SameAdmin (rings : AdminRings) (l : AdminLink) (r : Recovery) : Prop where
  sqTail : r.admin.sqTail = l.queue.sqTail
  cqHead : r.admin.cqHead = l.queue.cqHead
  cqPhase : r.admin.cqPhase = l.queue.cqPhase
  entries : ∀ slot < rings.depth, r.admin.cqes slot = rings.cqe l.machine.memory slot

section
variable {rings : AdminRings} {n fuel : ℕ} {l : AdminLink} {r : Recovery}

/-- The stores one by one and the restart of the link leave the same controller and the same
admin queue. -/
theorem SameController.restart (h : SameController rings l r) (hl : Linked rings n l) :
    SameController rings (l.restart rings) (r.performed (restartSteps rings)) ∧
      SameAdmin rings (l.restart rings) (r.performed (restartSteps rings)) := by
  have hrank := hostWrites_rank rings.depth rings.depth
  obtain ⟨hdevice, hdepth, hqid, hdma⟩ := Recovery.performed_host hrank r
  have hperformed : r.performed (restartSteps rings)
      = Recovery.setDevice
        { r.performed (hostWrites rings.depth rings.depth) with
          transport := (r.performed (hostWrites rings.depth rings.depth)).transport.restarted }
        (writeRegisters ((0x0010, 2) ::
          enableWrites rings.depth rings.dma.adminSq rings.dma.adminCq) l.machine.device) := by
    rw [restartSteps, Recovery.performed_append, Recovery.performed_restart, hdevice, h.device]
  obtain ⟨hsqTail, hcqHead, hcqPhase⟩ := r.performed_hostWrites rings.depth rings.depth
  rw [hperformed]
  refine ⟨⟨?_, hdma.trans h.dma, hdepth.trans h.ioDepth, hqid.trans h.qid⟩, hsqTail, hcqHead,
    hcqPhase, ?_⟩
  · exact (writeRegisters_restart rings l.machine.device).trans hl.restart.2.symm
  · intro slot hslot
    rw [cqe_of_zero hslot hl.restart_adminCq]
    exact Recovery.performed_cleared hrank (by simp [hostWrites, hslot]) r

/-- The return value of `openflash_create_io_queue`, from what the device does. -/
def createResult (o : Qemu.Outcome) : Except Errno Unit :=
  match reply o with
  | .error e => .error e
  | .ok result => if result = 1 then .ok () else .error .eproto

theorem Recovery.step_create (hwork : r.work = .resetting [.createIoQueue])
    (hqid : r.transport.driver.qid = 1) :
    r.step (.reset .prompt)
      = (r.setDevice r.createdBy.state).returned (createResult r.createdBy) := by
  have hone : (1 : UInt16).toUInt64 = 1 := by decide
  rw [step, hwork]
  show r.continueReset .prompt .createIoQueue [] = _
  rw [continueReset, perform, hqid, hone, createResult, reply]
  by_cases hstatus : r.createdBy.status = .success
  · by_cases hresult : r.createdBy.result = 1
    · simp [hstatus, hresult]
    · simp [hstatus, hresult]
  · simp [hstatus]

theorem Recovery.step_poll (hwork : r.work = .resetting [.pollReady, .createIoQueue])
    (hready : r.transport.device.status &&& Qemu.statusReady ≠ 0) :
    r.step (.reset .prompt) = { r with work := .resetting [.createIoQueue] } := by
  rw [step, hwork]
  show r.continueReset .prompt .pollReady [.createIoQueue] = _
  rw [continueReset, perform]
  simp [hready]

theorem Recovery.step_last (hwork : r.work = .resetting [.pollReady, .createIoQueue])
    (hready : r.transport.device.status &&& Qemu.statusReady ≠ 0)
    (hqid : r.transport.driver.qid = 1) :
    (r.step (.reset .prompt)).step (.reset .prompt)
      = (r.setDevice r.createdBy.state).returned (createResult r.createdBy) := by
  rw [step_poll hwork hready]
  exact step_create rfl hqid

/-- The reset over the rings creates the I/O queue as its direct execution would. -/
theorem Linked.openflashResetController_eq (h : Linked rings n l) (hfuel : 2 ≤ fuel) :
    ∃ l', l.openflashResetController rings fuel true
        = some (createResult (Qemu.openflashExecute true (Driver.openflashCreateIoQueue rings.depth
            rings.dma.ioSq rings.dma.ioCq) (fun _ => 0) (l.restart rings).machine.device), l') ∧
      l'.machine.device = Qemu.updateQueue
        (Qemu.openflashExecute true (Driver.openflashCreateIoQueue rings.depth rings.dma.ioSq
          rings.dma.ioCq) (fun _ => 0) (l.restart rings).machine.device).state 0
        (rings.queueAt 1) := by
  obtain ⟨hlinked, -⟩ := h.restart
  obtain ⟨l', hcall, -, hdevice⟩ :=
    hlinked.openflashAdminCommand (openflashCreateIoQueue_dataless ..) hfuel true
  refine ⟨l', ?_, hdevice⟩
  rw [AdminLink.openflashResetController, AdminLink.pollReady, if_pos hlinked.ready]
  dsimp only
  rw [AdminLink.openflashCreateIoQueue, hlinked.depth, hcall, Option.map_some, createResult]
  dsimp only
  generalize reply _ = value
  cases value with
  | error e => rfl
  | ok result => rfl

/-- With a device that answers in time, the reset store by store and the reset over the rings
return the same value and leave the same device, apart from the place in the admin queue that
the last command has taken. -/
theorem resetController_levels (hl : Linked rings n l) (h : SameController rings l r)
    (hwork : r.work = .resetting (resetProgram rings.depth rings.depth rings.dma))
    (hfuel : 2 ≤ fuel) :
    ∃ ret l' r',
      l.openflashResetController rings fuel true = some (ret, l') ∧
      r.run (List.replicate (resetProgram rings.depth rings.depth rings.dma).length
        (.reset .prompt)) = r' ∧
      r'.work = .unfreezing ret ∧
      l'.machine.device = Qemu.updateQueue r'.transport.device 0 (rings.queueAt 1) := by
  obtain ⟨l', hcall, hdevice⟩ := hl.openflashResetController_eq hfuel
  have hrun := Recovery.run_performed (restartSteps_rank rings) (List.cons_ne_nil _ _)
    (hwork.trans (congrArg _ (resetProgram_eq rings)))
  have hsplit : r.run (List.replicate (resetProgram rings.depth rings.depth rings.dma).length
      (.reset .prompt))
      = ((r.run (List.replicate (restartSteps rings).length (.reset .prompt))).step
          (.reset .prompt)).step (.reset .prompt) := by
    rw [resetProgram_eq, List.length_append, List.replicate_add, Recovery.run, List.foldl_append]
    rfl
  have hpoll : (r.run (List.replicate (restartSteps rings).length (.reset .prompt))).work
      = .resetting [.pollReady, .createIoQueue] := by
    rw [hrun]
  have hsame : SameController rings (l.restart rings)
      (r.run (List.replicate (restartSteps rings).length (.reset .prompt))) := by
    obtain ⟨hsame, -⟩ := h.restart hl
    rw [hrun]
    exact ⟨hsame.device, hsame.dma, hsame.ioDepth, hsame.qid⟩
  refine ⟨_, l', _, hcall, hsplit, ?_⟩
  generalize r.run (List.replicate (restartSteps rings).length (.reset .prompt)) = t at hpoll hsame
  have hready : t.transport.device.status &&& Qemu.statusReady ≠ 0 := by
    rw [hsame.device]
    exact hl.restart.1.ready
  have hcreated : t.createdBy
      = Qemu.openflashExecute true (openflashCreateIoQueue rings.depth rings.dma.ioSq
        rings.dma.ioCq) (fun _ => 0) (l.restart rings).machine.device := by
    rw [Recovery.createdBy, hsame.device, hsame.ioDepth, hsame.dma]
  rw [Recovery.step_last hpoll hready hsame.qid, hdevice, ← hcreated]
  exact ⟨rfl, rfl⟩

end

/-- The return value of a function of the kernel. -/
def retCode {α : Type} : Except Errno α → ℤ
  | .error e => e.code
  | .ok _ => 0

def ProbeErrno.code : ProbeErrno → ℤ
  | .admin e => e.code
  | .enodev => Lifecycle.enodev

def probeCode : Except ProbeErrno UInt64 → ℤ
  | .error e => e.code
  | .ok _ => 0

namespace Lifecycle
open IoQueueSetup

/-- The error that ends the set-up of the admin queue before its first register write. -/
def ProbeHost.early (host : ProbeHost) : Option ℤ :=
  if host.queues = false ∨ host.adminSq = false ∨ host.adminCq = false then
    some Errno.enomem.code
  else if host.vectors < 0 then some host.vectors
  else if host.adminIrq ≠ 0 then some host.adminIrq
  else none

/-- The register writes behind an event. -/
def registerWrites (depth : ℕ) (sqDma cqDma : UInt64) : Event → List (ℕ × UInt64)
  | .acquire .enabled => enableWrites depth sqDma cqDma
  | .release .enabled => [(0x0010, 0)]
  | _ => []

/-- The controller reports ready after these writes. -/
def ReadyAfter (depth : ℕ) (sqDma cqDma : UInt64) (s : Qemu.OpenFlashState) : Prop :=
  (writeRegisters (enableWrites depth sqDma cqDma) s).status &&& Qemu.statusReady ≠ 0

section
variable {host : ProbeHost} {depth : ℕ} {sqDma cqDma : UInt64} {s : Qemu.OpenFlashState}

theorem openflashSetupAdminQueue_early {code : ℤ} (h : host.early = some code) (depth : ℕ)
    (sqDma cqDma : UInt64) :
    (openflashSetupAdminQueue host).ret = code ∧
      (openflashSetupAdminQueue host).events.flatMap (registerWrites depth sqDma cqDma) = [] := by
  unfold ProbeHost.early at h
  unfold openflashSetupAdminQueue
  split_ifs at h ⊢ <;> simp_all [freeAdminSq, freeAdminCq, freeVectors, registerWrites]

theorem openflashSetupAdminQueue_late (h : host.early = none) :
    openflashSetupAdminQueue host
      = if host.ready = false then disable Errno.etimedout.code (adminOrder.reverse.map .acquire)
        else ⟨0, 1, false, adminOrder.reverse.map .acquire⟩ := by
  unfold ProbeHost.early at h
  unfold openflashSetupAdminQueue
  split_ifs at h ⊢ <;> simp_all [adminOrder]

/-- The set-up of the admin queue with its resources and the one with the device return the
same value, and the events of the first stand for the register writes of the second. -/
theorem setupAdminQueue_levels {early : Option Errno} (hearly : host.early = early.map Errno.code)
    (hready : host.ready = true ↔ ReadyAfter depth sqDma cqDma s) :
    (openflashSetupAdminQueue host).ret
        = retCode (Driver.openflashSetupAdminQueue early depth sqDma cqDma s).1 ∧
      writeRegisters ((openflashSetupAdminQueue host).events.flatMap
          (registerWrites depth sqDma cqDma)) s
        = (Driver.openflashSetupAdminQueue early depth sqDma cqDma s).2 := by
  cases early with
  | some e =>
    obtain ⟨hret, hevents⟩ := openflashSetupAdminQueue_early hearly depth sqDma cqDma
    rw [hret, hevents]
    exact ⟨rfl, rfl⟩
  | none =>
    rw [openflashSetupAdminQueue_late hearly]
    by_cases hlate : (writeRegisters (enableWrites depth sqDma cqDma) s).status &&&
      Qemu.statusReady ≠ 0
    · have hhost : ¬ host.ready = false := by
        rw [hready.mpr hlate]
        decide
      rw [if_neg hhost, Driver.openflashSetupAdminQueue]
      dsimp only
      rw [if_pos hlate]
      exact ⟨rfl, by simp [adminOrder, registerWrites]⟩
    · have hhost : host.ready = false := Bool.eq_false_iff.mpr (hready.not.mpr hlate)
      rw [if_pos hhost, Driver.openflashSetupAdminQueue]
      rw [if_neg hlate]
      refine ⟨rfl, ?_⟩
      simp [disable, freeVectors, freeAdminCq, freeAdminSq, adminOrder, registerWrites,
        writeRegisters]

end

/-- Every call of the kernel succeeds. -/
structure Granted (host : ProbeHost) (depth : ℕ) : Prop where
  enableDevice : host.enableDevice = 0
  dmaMask : host.dmaMask = 0
  iomap : host.iomap = 0
  ofdev : host.ofdev = true
  abiVersion : host.abiVersion = abiVersion
  early : host.early = none
  sq : host.io.sq = true
  cq : host.io.cq = true
  requests : host.io.requests = true
  sgl : ∀ tag < depth - 1, host.io.sgl tag = true
  irq : host.io.irq = 0
  tagSet : host.tagSet = 0
  disk : host.disk = 0
  addDisk : host.addDisk = 0

section
variable {host : ProbeHost} {depth : ℕ} (h : Granted host depth) (unset : ℤ)
include h

/-- The set-up of the I/O queue is left to the controller. -/
theorem Granted.openflashSetupIoQueue_ret (nrQueues : ℕ) :
    (IoQueueSetup.openflashSetupIoQueue host.io depth nrQueues unset).ret
      = createIoQueue host.io.admin := by
  have halloc : Allocates host.io (depth - 1) 0
      (allocSgl host.io (depth - 1) 0 [.acquire .sq, .acquire .cq]) :=
    allocSgl_allocates host.io (depth - 1) 0
  have hok : ¬ (allocSgl host.io (depth - 1) 0 [.acquire .sq, .acquire .cq]).ok = false := by
    rw [halloc.failed]
    rintro ⟨i, -, hi, hfail⟩
    rw [h.sgl i (by omega)] at hfail
    cases hfail
  unfold IoQueueSetup.openflashSetupIoQueue
  by_cases hcreate : createIoQueue host.io.admin = 0
  · simp [h.sq, h.cq, h.requests, hok, h.irq, hcreate]
  · simp [h.sq, h.cq, h.requests, hok, h.irq, hcreate, freeIrq, freeSgl, freeCq, freeSq]

theorem Granted.openflashRegisterBlockDevice_ret :
    (openflashRegisterBlockDevice host).1 = 0 := by
  simp [openflashRegisterBlockDevice, h.tagSet, h.disk, h.addDisk]

/-- What the probe returns is then decided by the controller. -/
theorem Granted.openflashProbe_ret :
    (openflashProbe host depth unset).ret
      = if host.ready = false then Errno.etimedout.code
        else if openflashAdminIdentify host.identify ≠ 0 then
          openflashAdminIdentify host.identify
        else createIoQueue host.io.admin := by
  have hblock := h.openflashRegisterBlockDevice_ret
  have hio := h.openflashSetupIoQueue_ret unset
  have htimeout : Errno.etimedout.code ≠ 0 := (Errno.code_neg .etimedout).ne
  unfold openflashProbe
  rw [openflashSetupAdminQueue_late h.early]
  simp only [h.enableDevice, h.dmaMask, h.iomap, h.ofdev, h.abiVersion, ne_eq, not_true_eq_false,
    if_false, Bool.true_eq_false]
  by_cases hready : host.ready = false
  · rw [if_pos hready, if_pos hready]
    exact congrArg Result.ret (if_pos htimeout)
  · rw [if_neg hready, if_neg hready]
    by_cases hidentify : openflashAdminIdentify host.identify = 0
    · by_cases hcreate : createIoQueue host.io.admin = 0
      · simp [hidentify, hio, hcreate, hblock]
      · simp [hidentify, hio, hcreate]
    · simp [hidentify]

end

/-- The controller behind the link answers the two commands of the probe as the host says. -/
def Answers (rings : AdminRings) (fuel : ℕ) (fileOk : Bool) (host : ProbeHost) (l : AdminLink) :
    Prop :=
  ∃ l₁ l₂, l.openflashAdminCommand rings fuel fileOk { opcode := Qemu.adminIdentify }
      = some (host.identify, l₁) ∧
    l₁.openflashAdminCommand rings fuel fileOk
      (Driver.openflashCreateIoQueue l₁.queue.depth rings.dma.ioSq rings.dma.ioCq)
      = some (host.io.admin, l₂)

theorem openflashCreateIoQueue_code {rings : AdminRings} {fuel : ℕ} {fileOk : Bool}
    {l l' : AdminLink} {admin : Except Errno UInt64}
    (h : l.openflashAdminCommand rings fuel fileOk
      (Driver.openflashCreateIoQueue l.queue.depth rings.dma.ioSq rings.dma.ioCq)
      = some (admin, l')) :
    ∃ r, l.openflashCreateIoQueue rings fuel fileOk = some (r, l') ∧
      createIoQueue admin = retCode r := by
  rw [AdminLink.openflashCreateIoQueue, h, Option.map_some]
  cases admin with
  | error e => exact ⟨.error e, rfl, rfl⟩
  | ok result =>
    refine ⟨_, rfl, ?_⟩
    rw [createIoQueue]
    split_ifs <;> rfl

/-- The probe with its resources and the probe with the device return the same value, when the
kernel grants what the driver asks for and the controller is the same. -/
theorem probe_levels {rings : AdminRings} {fuel : ℕ} {fileOk : Bool} {host : ProbeHost}
    {device : Qemu.OpenFlashState} {memory : Memory} (h : Granted host rings.depth)
    (hready : host.ready = true ↔
      ReadyAfter rings.depth rings.dma.adminSq rings.dma.adminCq device)
    (hanswers : Answers rings fuel fileOk host ⟨.fresh rings.depth,
      .start (Driver.openflashSetupAdminQueue none rings.depth rings.dma.adminSq
        rings.dma.adminCq device).2 memory, true⟩) (unset : ℤ) :
    ∃ r l, Driver.openflashProbe rings fuel fileOk device memory = some (r, l) ∧
      (openflashProbe host rings.depth unset).ret = probeCode r := by
  obtain ⟨l₁, l₂, hidentify, hcreate⟩ := hanswers
  rw [h.openflashProbe_ret]
  by_cases hlate : (writeRegisters (enableWrites rings.depth rings.dma.adminSq rings.dma.adminCq)
      device).status &&& Qemu.statusReady ≠ 0
  · have hhost : ¬ host.ready = false := by
      rw [hready.mpr hlate]
      decide
    have hsetup : (Driver.openflashSetupAdminQueue none rings.depth rings.dma.adminSq
        rings.dma.adminCq device).1 = .ok (.fresh rings.depth) := congrArg Prod.fst (if_pos hlate)
    rw [if_neg hhost, Driver.openflashProbe, hsetup]
    dsimp only
    rw [AdminLink.openflashAdminIdentify, hidentify, Option.map_some, Option.bind_some]
    obtain ⟨created, hlink, hcode⟩ := openflashCreateIoQueue_code hcreate
    cases hanswer : host.identify with
    | error e =>
      exact ⟨_, _, rfl, if_pos (Errno.code_neg e).ne⟩
    | ok capacity =>
      rw [openflashAdminIdentify]
      by_cases hzero : capacity = 0
      · simp only [hzero, if_true]
        exact ⟨_, _, rfl, if_pos (by decide)⟩
      · simp only [hzero, if_false, hlink, hcode, Option.map_some, ne_eq, not_true_eq_false]
        cases created with
        | error e => exact ⟨_, _, rfl, rfl⟩
        | ok done => exact ⟨_, _, rfl, rfl⟩
  · have hhost : host.ready = false := Bool.eq_false_iff.mpr (hready.not.mpr hlate)
    have hsetup : (Driver.openflashSetupAdminQueue none rings.depth rings.dma.adminSq
        rings.dma.adminCq device).1 = .error .etimedout := congrArg Prod.fst (if_neg hlate)
    rw [if_pos hhost, Driver.openflashProbe, hsetup]
    exact ⟨_, _, rfl, rfl⟩

end Lifecycle
end OpenFlash.Driver
