import OpenFlash.Driver.BringUp
import OpenFlash.Driver.Protocol

/-! Recovery of the controller: the work item of a timed-out request and the writes of
`openflash_reset_controller`, one at a time, among the traffic on the I/O queue. -/
namespace OpenFlash.Driver
open Abi Support

/-- The stores and register accesses of `openflash_reset_controller`. Rings are cleared
entry by entry. -/
inductive ResetStep where
  | clearAdminSq (slot : ℕ)
  | clearAdminCq (slot : ℕ)
  | clearIoSq (slot : ℕ)
  | clearIoCq (slot : ℕ)
  | adminSqTail
  | adminCqHead
  | adminCqPhase
  | ioSqTail
  | ioCqHead
  | ioCqPhase
  | ctrlReset
  | readStatus
  | writel (addr : ℕ) (value : UInt64)
  | pollReady
  | createIoQueue
  deriving DecidableEq, Repr

structure DmaRings where
  adminSq : UInt64
  adminCq : UInt64
  ioSq : UInt64
  ioCq : UInt64

/-- What the driver stores before it touches the device. -/
def hostWrites (adminDepth ioDepth : ℕ) : List ResetStep :=
  (List.range adminDepth).map .clearAdminSq ++ (List.range adminDepth).map .clearAdminCq ++
    (List.range ioDepth).map .clearIoSq ++ (List.range ioDepth).map .clearIoCq ++
    [.adminSqTail, .adminCqHead, .adminCqPhase, .ioSqTail, .ioCqHead, .ioCqPhase]

/-- What follows the write of `OPENFLASH_CTRL_RESET`. -/
def controllerWrites (adminDepth : ℕ) (dma : DmaRings) : List ResetStep :=
  .readStatus :: (enableWrites adminDepth dma.adminSq dma.adminCq).map (fun w => .writel w.1 w.2) ++
    [.pollReady, .createIoQueue]

def resetProgram (adminDepth ioDepth : ℕ) (dma : DmaRings) : List ResetStep :=
  hostWrites adminDepth ioDepth ++ .ctrlReset :: controllerWrites adminDepth dma

/-- How the device takes part in a step that waits for it: it answers in time, or the step
ends with an error, after the device has run the command or without. -/
inductive Reply where
  | prompt
  | fault (executed : Bool) (e : Errno)
  deriving DecidableEq, Repr

/-- The work item `openflash_reset_work`, from the timeout that schedules it. -/
inductive Work where
  | idle
  | scheduled
  | freezing
  | failing
  | resetting (todo : List ResetStep)
  | unfreezing (ret : Except Errno Unit)

/-- Requests reach the driver until the freeze has returned: those that entered the block
queue before it are still dispatched while it waits. -/
def Work.Dispatches : Work → Prop
  | .idle | .scheduled | .freezing => True
  | _ => False

instance : (work : Work) → Decidable work.Dispatches
  | .idle | .scheduled | .freezing => inferInstanceAs (Decidable True)
  | .failing | .resetting _ | .unfreezing _ => inferInstanceAs (Decidable False)

/-- `openflash_fail_io_requests` with the requests it takes from their slots. -/
def failIoRequests (q : OpenflashQueue) : OpenflashQueue :=
  { q with
    requests := fun tag =>
      if tag < q.depth - 1 then { q.requests tag with rq := none, nrMapped := 0 }
      else q.requests tag }

/-- The device drops its loop and its queues, and the logs begin again. -/
def Transport.restarted (t : Transport) : Transport :=
  { t with
    device := (Qemu.openflashMmioWrite 0x0010 2 t.device).1
    doorbells := []
    loop := none
    advanced := 0
    accepted := []
    executed := []
    drained := [] }

/-- The driver with its device; `last` is what `openflash_reset_controller` returned last,
zero after a successful probe. -/
structure Recovery where
  transport : Transport
  admin : AdminQueue
  dma : DmaRings
  work : Work
  last : Except Errno Unit

namespace Recovery

def setDriver (r : Recovery) (q : OpenflashQueue) : Recovery :=
  { r with transport := { r.transport with driver := q } }

def setDevice (r : Recovery) (s : Qemu.OpenFlashState) : Recovery :=
  { r with transport := { r.transport with device := s } }

/-- The device runs `CREATE_IOQ` for the I/O queue of the driver. -/
def createdBy (r : Recovery) : Qemu.Outcome :=
  Qemu.openflashExecute true
    (openflashCreateIoQueue r.transport.driver.depth r.dma.ioSq r.dma.ioCq) (fun _ => 0)
    r.transport.device

/-- One step, with the error that makes the function return. -/
def perform (r : Recovery) (reply : Reply) : ResetStep → Recovery × Option Errno
  | .clearAdminSq slot =>
      ({ r with
          admin :=
            { r.admin with sqCmds := Function.update r.admin.sqCmds slot { opcode := 0 } } }, none)
  | .clearAdminCq slot =>
      ({ r with
          admin :=
            { r.admin with cqes := Function.update r.admin.cqes slot ⟨0, 0, 0, 0, 0, 0⟩ } }, none)
  | .clearIoSq slot =>
      let q := r.transport.driver
      (r.setDriver { q with sqCmds := Function.update q.sqCmds slot { opcode := 0 } }, none)
  | .clearIoCq slot =>
      let q := r.transport.driver
      (r.setDriver { q with cqes := Function.update q.cqes slot ⟨0, 0, 0, 0, 0, 0⟩ }, none)
  | .adminSqTail => ({ r with admin := { r.admin with sqTail := 0 } }, none)
  | .adminCqHead => ({ r with admin := { r.admin with cqHead := 0 } }, none)
  | .adminCqPhase => ({ r with admin := { r.admin with cqPhase := 1 } }, none)
  | .ioSqTail => (r.setDriver { r.transport.driver with sqTail := 0 }, none)
  | .ioCqHead => (r.setDriver { r.transport.driver with cqHead := 0 }, none)
  | .ioCqPhase => (r.setDriver { r.transport.driver with cqPhase := 1 }, none)
  | .ctrlReset => ({ r with transport := r.transport.restarted }, none)
  | .readStatus => (r, none)
  | .writel addr value =>
      (r.setDevice (Qemu.openflashMmioWrite addr value r.transport.device).1, none)
  | .pollReady =>
      match reply with
      | .prompt =>
          (r, if r.transport.device.status &&& Qemu.statusReady ≠ 0 then none
            else some .etimedout)
      | .fault _ _ => (r, some .etimedout)
  | .createIoQueue =>
      match reply with
      | .prompt =>
          (r.setDevice r.createdBy.state,
            if r.createdBy.status ≠ .success then some .eio
            else if r.createdBy.result ≠ r.transport.driver.qid.toUInt64 then some .eproto
            else none)
      | .fault executed e => (if executed then r.setDevice r.createdBy.state else r, some e)

/-- `openflash_reset_controller` returns. -/
def returned (r : Recovery) (ret : Except Errno Unit) : Recovery :=
  { r with work := .unfreezing ret, last := ret }

def continueReset (r : Recovery) (reply : Reply) (step : ResetStep) (rest : List ResetStep) :
    Recovery :=
  match (r.perform reply step).2 with
  | some e => (r.perform reply step).1.returned (.error e)
  | none =>
      if rest = [] then (r.perform reply step).1.returned (.ok ())
      else { (r.perform reply step).1 with work := .resetting rest }

inductive Action where
  | traffic (action : Driver.Action)
  | timeout
  | freeze
  | frozen
  | failAll
  | reset (reply : Reply)
  | unfreeze

/-- `blk_mq_freeze_queue` returns once no request is in a slot, and the failure pass waits
for the interrupt first. -/
def step (r : Recovery) : Action → Recovery
  | .traffic (.submit rq) =>
      if r.work.Dispatches then { r with transport := r.transport.step (.submit rq) } else r
  | .traffic action => { r with transport := r.transport.step action }
  | .timeout =>
      match r.work with
      | .idle => { r with work := .scheduled }
      | _ => r
  | .freeze =>
      match r.work with
      | .scheduled => { r with work := .freezing }
      | _ => r
  | .frozen =>
      match r.work with
      | .freezing =>
          if ∀ tag < r.transport.driver.depth - 1, (r.transport.driver.requests tag).rq = none
          then { r with work := .failing }
          else r
      | _ => r
  | .failAll =>
      match r.work with
      | .failing =>
          if r.transport.draining then r
          else
            { r.setDriver (failIoRequests r.transport.driver) with
              work := .resetting (resetProgram r.admin.depth r.transport.driver.depth r.dma) }
      | _ => r
  | .reset reply =>
      match r.work with
      | .resetting (s :: rest) => r.continueReset reply s rest
      | _ => r
  | .unfreeze =>
      match r.work with
      | .unfreezing _ => { r with work := .idle }
      | _ => r

def run (r : Recovery) (actions : List Action) : Recovery := actions.foldl step r

/-- What a step can do. -/
inductive Steps (r : Recovery) : Action → Recovery → Prop
  | same (action : Action) : Steps r action r
  | traffic (action : Driver.Action) (h : ∀ rq, action = .submit rq → r.work.Dispatches) :
      Steps r (.traffic action) { r with transport := r.transport.step action }
  | timeout (h : r.work = .idle) : Steps r .timeout { r with work := .scheduled }
  | freeze (h : r.work = .scheduled) : Steps r .freeze { r with work := .freezing }
  | frozen (h : r.work = .freezing)
      (hfree : ∀ tag < r.transport.driver.depth - 1, (r.transport.driver.requests tag).rq = none) :
      Steps r .frozen { r with work := .failing }
  | failAll (h : r.work = .failing) (hidle : r.transport.draining = false) :
      Steps r .failAll
        { r.setDriver (failIoRequests r.transport.driver) with
          work := .resetting (resetProgram r.admin.depth r.transport.driver.depth r.dma) }
  | reset (reply : Reply) {s : ResetStep} {rest : List ResetStep}
      (h : r.work = .resetting (s :: rest)) :
      Steps r (.reset reply) (r.continueReset reply s rest)
  | unfreeze {ret : Except Errno Unit} (h : r.work = .unfreezing ret) :
      Steps r .unfreeze { r with work := .idle }

theorem step_steps (r : Recovery) (action : Action) : Steps r action (r.step action) := by
  cases action with
  | traffic action =>
    cases action with
    | submit rq =>
      show Steps r _ (if r.work.Dispatches then _ else r)
      split_ifs with hdispatches
      · exact .traffic _ fun _ _ => hdispatches
      · exact .same _
    | enterLoop | iterate fileOk memory | endRequest | advanceHead => exact .traffic _ (by simp)
  | timeout =>
    rw [step]
    split
    · exact .timeout ‹_›
    · exact .same _
  | freeze =>
    rw [step]
    split
    · exact .freeze ‹_›
    · exact .same _
  | frozen =>
    rw [step]
    split
    · split_ifs with hfree
      · exact .frozen ‹_› hfree
      · exact .same _
    · exact .same _
  | failAll =>
    rw [step]
    split
    · split_ifs with hdraining
      · exact .same _
      · exact .failAll ‹_› (Bool.eq_false_iff.mpr hdraining)
    · exact .same _
  | reset reply =>
    rw [step]
    split
    · exact .reset reply ‹_›
    · exact .same _
  | unfreeze =>
    rw [step]
    split
    · exact .unfreeze ‹_›
    · exact .same _

end Recovery
end OpenFlash.Driver
