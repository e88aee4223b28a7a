import OpenFlash.Driver.Mapping

/-! Calls of the submission routine, the completion interrupt and failure passes on one I/O
queue, one access to shared memory at a time. Every call has its own history of DMA
mappings, acceptance and end. -/
namespace OpenFlash.Driver
open Abi Support

/-- Where a call of `openflash_queue_rq` is. -/
inductive Phase where
  | mapping (mapped : ℕ)
  | storing (mapped : ℕ) (desc : OpenFlashSglDesc)
  | submitting (mapped : ℕ)
  | filling (mapped : ℕ)
  | arming (mapped : ℕ)
  | publishing
  | advancing
  | ringing
  | unwinding (mapped : ℕ) (status : BlkStatus)
  | returned (status : BlkStatus)
  deriving DecidableEq, Repr

structure Call where
  rq : Request
  phase : Phase

/-- What happens to the request of one call. -/
inductive Event where
  | map (desc : OpenFlashSglDesc) (dir : DmaDir)
  | unmap (desc : OpenFlashSglDesc) (dir : DmaDir)
  | accept
  | finish (status : BlkStatus)
  | reject (status : BlkStatus)
  deriving DecidableEq, Repr

def Event.ends : Event → Bool
  | .finish _ => true
  | .reject _ => true
  | _ => false

/-- The two kinds of code that take a request out of its slot. -/
inductive Holder where
  | irq
  | pass (p : ℕ)
  deriving DecidableEq, Repr

/-- The local `rq` of a holder, as the call it belongs to, and its slot. -/
structure Taken where
  call : ℕ
  tag : ℕ
  deriving DecidableEq, Repr

/-- The arguments of `openflash_fail_io_requests` and its loop variable. -/
structure Pass where
  status : BlkStatus
  tag : ℕ
  deriving DecidableEq, Repr

/-- The queue with everything that runs on it. A call is named by its place in `calls`;
`owner` says whose request the pointer in a slot is. -/
structure World where
  capabilities : UInt64
  queue : OpenflashQueue
  owner : ℕ → ℕ
  lock : Option ℕ
  calls : List Call
  held : Holder → Option Taken
  passes : ℕ → Option Pass
  log : List (ℕ × Event)

namespace World

def start (capabilities : UInt64) (depth : ℕ) (sglDma : ℕ → UInt64) : World :=
  { capabilities := capabilities
    queue := openflashSetupIoQueue depth sglDma
    owner := fun _ => 0
    lock := none
    calls := []
    held := fun _ => none
    passes := fun _ => none
    log := [] }

def history (w : World) (n : ℕ) : List Event :=
  w.log.filterMap fun e => if e.1 = n then some e.2 else none

/-- The block layer has the request back. -/
def Ended (w : World) (n : ℕ) : Prop := (w.history n).any Event.ends = true

instance (w : World) (n : ℕ) : Decidable (w.Ended n) :=
  inferInstanceAs (Decidable (_ = _))

def slot (w : World) (tag : ℕ) : OpenflashRequest := w.queue.requests tag

def setSlot (w : World) (tag : ℕ) (request : OpenflashRequest) : World :=
  { w with queue := w.queue.setRequest tag request }

def emit (w : World) (n : ℕ) (event : Event) : World :=
  { w with log := w.log ++ [(n, event)] }

def setPhase (w : World) (n : ℕ) (phase : Phase) : World :=
  { w with calls := w.calls.modify n fun call => { call with phase := phase } }

/-- The first point of a call that is not decided by its arguments alone. -/
def entry (depth : ℕ) (rq : Request) : Phase :=
  let cid : UInt16 := .ofNat (rq.tag + 1)
  if rq.pos % 8 ≠ 0 ∨ rq.bytes % 4096 ≠ 0 ∨ depth ≤ cid.toNat then .unwinding 0 .ioErr
  else if rq.fua ∧ rq.op ≠ .write then .unwinding 0 .notSupp
  else
    match rq.op with
    | .read | .write =>
        if rq.bytes = 0 ∨ maxSglEntries < rq.nrPhysSegments then .unwinding 0 .ioErr
        else .mapping 0
    | .flush | .discard => .submitting 0
    | .other => .unwinding 0 .notSupp

def queueRq (w : World) (rq : Request) : World :=
  { w with calls := w.calls ++ [⟨rq, entry w.queue.depth rq⟩] }

/-- The next access of call `n`. A call that waits for the lock stays where it is. -/
def proceed (w : World) (n : ℕ) (call : Call) : World :=
  let rq := call.rq
  let request := w.slot rq.tag
  match call.phase with
  | .mapping k =>
      match rq.segments[k]? with
      | none => w.setPhase n (.submitting k)
      | some bvec =>
          match bvec.mapping with
          | none => w.setPhase n (.unwinding k .resource)
          | some dma =>
              (w.emit n (.map ⟨dma, bvec.length⟩ (dirOf rq.op))).setPhase n
                (.storing k ⟨dma, bvec.length⟩)
  | .storing k desc =>
      (w.setSlot rq.tag { request with sgl := Function.update request.sgl k desc }).setPhase n
        (.mapping (k + 1))
  | .submitting k =>
      if w.lock ≠ none then w
      else if request.rq ≠ none then w.setPhase n (.unwinding k .resource)
      else { w with lock := some n }.setPhase n (.filling k)
  | .filling k =>
      if rq.fua ∧ w.capabilities &&& capFua = 0 then
        { w with
          lock := none
          queue := w.queue.setSlot (plainCommand rq (opcodeOf rq.op) w.queue) }.setPhase n
            (.unwinding k .notSupp)
      else
        { w with
          queue := w.queue.setSlot
            (fillCommand rq (opcodeOf rq.op) 0 request.sglDma w.queue) }.setPhase n (.arming k)
  | .arming k =>
      ({ w with
          queue := w.queue.setSlot
            (fillCommand rq (opcodeOf rq.op) k request.sglDma w.queue) }.setSlot rq.tag
        { request with
          nrMapped := k
          dmaDir := if k ≠ 0 then dirOf rq.op else request.dmaDir }).setPhase n .publishing
  | .publishing =>
      (({ w with owner := Function.update w.owner rq.tag n }.setSlot rq.tag
        { request with rq := some rq }).emit n .accept).setPhase n .advancing
  | .advancing =>
      { w with
        queue := { w.queue with sqTail := (w.queue.sqTail + 1) % w.queue.depth } }.setPhase n
          .ringing
  | .ringing => { w with lock := none }.setPhase n (.returned .ok)
  | .unwinding (k + 1) status =>
      (w.emit n (.unmap (request.sgl k) (dirOf rq.op))).setPhase n (.unwinding k status)
  | .unwinding 0 status => (w.emit n (.reject status)).setPhase n (.returned status)
  | .returned _ => w

/-- `xchg(&request->rq, NULL)` by holder `x`, which finds a request. -/
def take (w : World) (x : Holder) (tag : ℕ) : World :=
  { w with held := Function.update w.held x (some ⟨w.owner tag, tag⟩) }.setSlot tag
    { w.slot tag with rq := none }

/-- `while (request->nr_mapped)` and then the end of the request, one call at a time.
After the end the loop of the holder moves on. -/
def release (w : World) (x : Holder) (taken : Taken) (status : BlkStatus)
    (moveOn : World → World) : World :=
  let request := w.slot taken.tag
  match request.nrMapped with
  | k + 1 =>
      (w.setSlot taken.tag { request with nrMapped := k }).emit taken.call
        (.unmap (request.sgl k) request.dmaDir)
  | 0 =>
      moveOn ({ w with held := Function.update w.held x none }.emit taken.call (.finish status))

def skipEntry (w : World) : World := { w with queue := advanceHead w.queue }

/-- The interrupt goes on: it tests the entry at the head, or works on what it holds. -/
def drain (w : World) : World :=
  let cqe := w.queue.cqes w.queue.cqHead
  let cid := cqe.cid.toNat
  match w.held .irq with
  | some taken => w.release .irq taken (openflashBlkStatus cqe.status) skipEntry
  | none =>
      if ¬ phaseMatches w.queue then w
      else if cid = 0 ∨ w.queue.depth - 1 < cid ∨ (w.slot (cid - 1)).rq = none then w.skipEntry
      else w.take .irq (cid - 1)

def skipSlot (p : ℕ) (pass : Pass) (w : World) : World :=
  { w with passes := Function.update w.passes p (some ⟨pass.status, pass.tag + 1⟩) }

/-- Pass `p` goes on: it looks at its next slot, or works on what it holds. -/
def fail (w : World) (p : ℕ) : World :=
  match w.passes p, w.held (.pass p) with
  | none, _ => w
  | some pass, some taken => w.release (.pass p) taken pass.status (skipSlot p pass)
  | some pass, none =>
      if w.queue.depth - 1 ≤ pass.tag then { w with passes := Function.update w.passes p none }
      else if (w.slot pass.tag).rq = none then skipSlot p pass w
      else w.take (.pass p) pass.tag

/-- The device may write any entry at any time; passes start at any time, also next to one
another. -/
inductive Action where
  | queueRq (rq : Request)
  | proceed (n : ℕ)
  | post (slot : ℕ) (cqe : OpenFlashCompletion)
  | drain
  | failStart (p : ℕ) (status : BlkStatus)
  | fail (p : ℕ)

/-- The block layer gives a request out with a tag of which no un-ended request has hold,
and with at most sixteen segments. -/
def Enabled (w : World) : Action → Prop
  | .queueRq rq => rq.segments.length ≤ maxSglEntries ∧
      ∀ n < w.calls.length, (w.calls[n]?.map fun call => call.rq.tag) = some rq.tag → w.Ended n
  | .failStart p _ => w.passes p = none
  | _ => True

instance (w : World) : (action : Action) → Decidable (w.Enabled action)
  | .queueRq _ => inferInstanceAs (Decidable (_ ∧ ∀ n < w.calls.length, _))
  | .proceed _ => inferInstanceAs (Decidable True)
  | .post _ _ => inferInstanceAs (Decidable True)
  | .drain => inferInstanceAs (Decidable True)
  | .failStart _ _ => inferInstanceAs (Decidable (_ = _))
  | .fail _ => inferInstanceAs (Decidable True)

def next (w : World) : Action → World
  | .queueRq rq => w.queueRq rq
  | .proceed n =>
      match w.calls[n]? with
      | none => w
      | some call => w.proceed n call
  | .post slot cqe =>
      { w with queue := { w.queue with cqes := Function.update w.queue.cqes slot cqe } }
  | .drain => w.drain
  | .failStart p status =>
      { w with passes := Function.update w.passes p (some ⟨status, 0⟩) }
  | .fail p => w.fail p

def step (w : World) (action : Action) : World :=
  if w.Enabled action then w.next action else w

def run (w : World) (actions : List Action) : World := actions.foldl step w

end World
end OpenFlash.Driver
