import OpenFlash.Driver.Queue

/-! Admin commands: one at a time waits for its completion, while the interrupt drains the
completion ring and the device answers outstanding commands in any order and at any time. -/
namespace OpenFlash.Driver
open Abi Support

inductive Errno where
  | eio
  | etimedout
  | eproto
  | enomem
  deriving DecidableEq, Repr

/-- The fields of `struct openflash_queue` that the admin queue uses. -/
structure AdminQueue where
  sqCmds : ℕ → OpenFlashCommand
  cqes : ℕ → OpenFlashCompletion
  depth : ℕ
  sqTail : ℕ
  cqHead : ℕ
  cqPhase : ℕ
  nextCid : UInt16
  adminCid : UInt16
  adminStatus : UInt16
  adminResult : UInt64
  adminError : Option Errno
  adminPending : Bool
  adminDone : Bool

/-- `++queue->next_cid`, once more when that is zero. -/
def freshCid (nextCid : UInt16) : UInt16 :=
  if nextCid + 1 = 0 then nextCid + 1 + 1 else nextCid + 1

namespace AdminQueue

/-- The queue as `openflash_setup_admin_queue` allocates it. -/
def fresh (depth : ℕ) : AdminQueue :=
  { sqCmds := fun _ => { opcode := 0 }
    cqes := fun _ => ⟨0, 0, 0, 0, 0, 0⟩
    depth := depth
    sqTail := 0
    cqHead := 0
    cqPhase := 1
    nextCid := 0
    adminCid := 0
    adminStatus := 0
    adminResult := 0
    adminError := none
    adminPending := false
    adminDone := false }

def head (q : AdminQueue) : OpenFlashCompletion := q.cqes q.cqHead

/-- The loop condition of `openflash_drain_admin_cq`. -/
def PhaseMatches (q : AdminQueue) : Prop := q.head.flags.toNat &&& 1 = q.cqPhase

instance (q : AdminQueue) : Decidable q.PhaseMatches := inferInstanceAs (Decidable (_ = _))

/-- What the loop body stores while a command is pending. -/
def record (q : AdminQueue) : AdminQueue :=
  if q.head.cid = q.adminCid then
    { q with adminStatus := q.head.status, adminResult := q.head.result, adminError := none }
  else { q with adminError := some .eio }

def advanceHead (q : AdminQueue) : AdminQueue :=
  let cqHead := (q.cqHead + 1) % q.depth
  { q with cqHead := cqHead, cqPhase := if cqHead = 0 then q.cqPhase ^^^ 1 else q.cqPhase }

/-- The return value of a call that was woken up. -/
def outcome (q : AdminQueue) : Except Errno UInt64 :=
  match q.adminError with
  | some e => .error e
  | none => if q.adminStatus ≠ 0 then .error .eio else .ok q.adminResult

end AdminQueue

/-- A call of `openflash_admin_command`, with the command as it gets its CID. -/
structure AdminCall where
  command : OpenFlashCommand
  returned : Option (Except Errno UInt64)

/-- Where the call that has the mutex is. -/
inductive Caller where
  | idle
  | named (n : ℕ)
  | pending (n : ℕ)
  | filled (n : ℕ)
  | waiting (n : ℕ)
  | syncing (n : ℕ)
  deriving DecidableEq, Repr

def Caller.current : Caller → Option ℕ
  | .idle => none
  | .named n | .pending n | .filled n | .waiting n | .syncing n => some n

/-- Where the loop body of the interrupt is. -/
inductive Drainer where
  | idle
  | matched
  | decided
  | cleared
  | advancing
  deriving DecidableEq, Repr

/-- Driver and device. A call is named by its place in `calls`; `entry` says whose
completion a slot of the ring has. -/
structure Admin where
  queue : AdminQueue
  calls : List AdminCall
  caller : Caller
  drainer : Drainer
  outstanding : List ℕ
  cqTail : ℕ
  cqPhase : ℕ
  entry : ℕ → Option ℕ
  posted : List (ℕ × OpenFlashCompletion)

namespace Admin

def start (depth : ℕ) : Admin :=
  { queue := .fresh depth
    calls := []
    caller := .idle
    drainer := .idle
    outstanding := []
    cqTail := 0
    cqPhase := 1
    entry := fun _ => none
    posted := [] }

inductive Action where
  | call (cmd : OpenFlashCommand)
  | pend
  | fill
  | ring
  | wake
  | timeout
  | synced
  | post (n : ℕ) (cqe : OpenFlashCompletion)
  | test
  | decide
  | clear
  | complete
  | advance

/-- Up to the store to `admin_error`. -/
def call (s : Admin) (cmd : OpenFlashCommand) : Admin :=
  let cid := freshCid s.queue.nextCid
  { s with
    queue :=
      { s.queue with nextCid := cid, adminDone := false, adminCid := cid, adminError := none }
    calls := s.calls ++ [⟨{ cmd with qid := 0, cid := cid }, none⟩]
    caller := .named s.calls.length }

def leave (s : Admin) (n : ℕ) (value : Except Errno UInt64) : Admin :=
  { s with
    calls := s.calls.modify n fun c => { c with returned := some value }
    caller := .idle }

/-- The device answers command `n` with the next entry of its ring. -/
def post (s : Admin) (n : ℕ) (cmd : OpenFlashCommand) (cqe : OpenFlashCompletion) : Admin :=
  let cqe := { cqe with cid := cmd.cid, flags := .ofNat s.cqPhase }
  let cqTail := (s.cqTail + 1) % s.queue.depth
  { s with
    queue := { s.queue with cqes := Function.update s.queue.cqes s.cqTail cqe }
    outstanding := s.outstanding.erase n
    cqTail := cqTail
    cqPhase := if cqTail = 0 then s.cqPhase ^^^ 1 else s.cqPhase
    entry := Function.update s.entry s.cqTail (some n)
    posted := s.posted ++ [(n, cqe)] }

/-- One step of the call, of the device or of the interrupt; a step that is not due changes
nothing. The tests of a call are those of the source, `synchronize_irq` waits for the
interrupt, and a call starts while fewer than 65535 commands are outstanding. -/
def step (s : Admin) : Action → Admin
  | .call cmd =>
      if s.caller = .idle ∧ s.outstanding.length < 65535 then s.call cmd else s
  | .pend =>
      match s.caller with
      | .named n => { s with queue := { s.queue with adminPending := true }, caller := .pending n }
      | _ => s
  | .fill =>
      match s.caller with
      | .pending n =>
          match s.calls[n]? with
          | some c =>
              { s with
                queue :=
                  { s.queue with
                    sqCmds := Function.update s.queue.sqCmds s.queue.sqTail c.command }
                caller := .filled n }
          | none => s
      | _ => s
  | .ring =>
      match s.caller with
      | .filled n =>
          { s with
            queue := { s.queue with sqTail := (s.queue.sqTail + 1) % s.queue.depth }
            outstanding := s.outstanding ++ [n]
            caller := .waiting n }
      | _ => s
  | .wake =>
      match s.caller with
      | .waiting n => if s.queue.adminDone then s.leave n s.queue.outcome else s
      | _ => s
  | .timeout =>
      match s.caller with
      | .waiting n =>
          if s.queue.adminDone then s
          else { s with queue := { s.queue with adminPending := false }, caller := .syncing n }
      | _ => s
  | .synced =>
      match s.caller with
      | .syncing n => if s.drainer = .idle then s.leave n (.error .etimedout) else s
      | _ => s
  | .post n cqe =>
      match s.calls[n]? with
      | some c => if n ∈ s.outstanding then s.post n c.command cqe else s
      | none => s
  | .test =>
      if s.drainer = .idle ∧ s.queue.PhaseMatches then { s with drainer := .matched } else s
  | .decide =>
      if s.drainer ≠ .matched then s
      else if s.queue.adminPending then { s with queue := s.queue.record, drainer := .decided }
      else { s with drainer := .advancing }
  | .clear =>
      if s.drainer = .decided then
        { s with queue := { s.queue with adminPending := false }, drainer := .cleared }
      else s
  | .complete =>
      if s.drainer = .cleared then
        { s with queue := { s.queue with adminDone := true }, drainer := .advancing }
      else s
  | .advance =>
      if s.drainer = .advancing then
        { s with queue := s.queue.advanceHead, drainer := .idle }
      else s

def run (s : Admin) (actions : List Action) : Admin := actions.foldl step s

end Admin
end OpenFlash.Driver
