import OpenFlash.Abi.Wire

/-! The I/O queue of the block driver: submission of one request and one iteration of the
completion interrupt. -/
namespace OpenFlash.Driver
open Abi Support

inductive ReqOp where
  | read
  | write
  | flush
  | discard
  | other
  deriving DecidableEq, Repr

inductive BlkStatus where
  | ok
  | ioErr
  | notSupp
  | resource
  | target
  | medium
  | timeout
  deriving DecidableEq, Repr

inductive DmaDir where
  | bidirectional
  | toDevice
  | fromDevice
  deriving DecidableEq, Repr

/-- A segment of a request with the outcome of mapping it; `none` is a mapping error. -/
structure Bvec where
  length : UInt32
  mapping : Option UInt64
  deriving DecidableEq, Repr

/-- The parts of a block request that the driver reads. -/
structure Request where
  tag : ℕ
  op : ReqOp
  fua : Bool := false
  pos : UInt64 := 0
  bytes : UInt32 := 0
  nrPhysSegments : ℕ := 0
  segments : List Bvec := []
  deriving DecidableEq, Repr

structure OpenflashRequest where
  rq : Option Request
  sgl : ℕ → OpenFlashSglDesc
  sglDma : UInt64
  nrMapped : ℕ
  dmaDir : DmaDir

structure OpenflashQueue where
  sqCmds : ℕ → OpenFlashCommand
  cqes : ℕ → OpenFlashCompletion
  qid : UInt16
  depth : ℕ
  sqTail : ℕ
  cqHead : ℕ
  cqPhase : ℕ
  requests : ℕ → OpenflashRequest

inductive DmaEvent where
  | map (desc : OpenFlashSglDesc) (dir : DmaDir)
  | unmap (desc : OpenFlashSglDesc) (dir : DmaDir)
  deriving DecidableEq, Repr

def opRead : UInt8 := 0x01
def opWrite : UInt8 := 0x02
def opFlush : UInt8 := 0x03
def opDiscard : UInt8 := 0x04
def cmdFua : UInt8 := 1
def cmdSgl : UInt8 := 2
def capFua : UInt64 := 2
def maxSglEntries : ℕ := 16

def openflashBlkStatus (status : UInt16) : BlkStatus :=
  match status.toNat with
  | 0 => .ok
  | 3 => .target
  | 4 => .medium
  | 5 => .medium
  | 1 => .notSupp
  | 2 => .notSupp
  | _ => .ioErr

structure Mapping where
  ok : Bool
  sgl : ℕ → OpenFlashSglDesc
  mapped : ℕ
  dma : List DmaEvent

/-- The loop over the segments of a request, which fills its SGL table. `mapped` is a `u16` in
the source and does not wrap here; the two differ from 65536 segments on. -/
def mapSegments (dir : DmaDir) : List Bvec → ℕ → (ℕ → OpenFlashSglDesc) → Mapping
  | [], mapped, sgl => ⟨true, sgl, mapped, []⟩
  | bvec :: rest, mapped, sgl =>
      match bvec.mapping with
      | none => ⟨false, sgl, mapped, []⟩
      | some dma =>
          let desc : OpenFlashSglDesc := ⟨dma, bvec.length⟩
          let m := mapSegments dir rest (mapped + 1) (Function.update sgl mapped desc)
          { m with dma := .map desc dir :: m.dma }

/-- `while (mapped)`: the last entry first. -/
def unmapSegments (dir : DmaDir) (sgl : ℕ → OpenFlashSglDesc) (mapped : ℕ) : List DmaEvent :=
  (List.range mapped).reverse.map fun i => .unmap (sgl i) dir

/-- The queue as `openflash_setup_io_queue` leaves it: the rings and the request table are
zeroed, and every tag has its SGL table. -/
def openflashSetupIoQueue (depth : ℕ) (sglDma : ℕ → UInt64) : OpenflashQueue :=
  { sqCmds := fun _ => { opcode := 0 }
    cqes := fun _ => ⟨0, 0, 0, 0, 0, 0⟩
    qid := 1
    depth := depth
    sqTail := 0
    cqHead := 0
    cqPhase := 1
    requests := fun tag => ⟨none, fun _ => ⟨0, 0⟩, sglDma tag, 0, .bidirectional⟩ }

def adminCreateIoq : UInt8 := 0x81

def createIoqControl (qid vector : UInt32) : UInt32 := vector <<< 16 ||| qid

/-- The command of `openflash_create_io_queue`, without the CID it gets on the way. -/
def openflashCreateIoQueue (depth : ℕ) (sqDma cqDma : UInt64) : OpenFlashCommand :=
  { opcode := adminCreateIoq
    nblocks := .ofNat depth
    control := createIoqControl 1 1
    dataAddr := sqDma
    metadataAddr := cqDma }

/-- What a call returns, with the tail it rings and its DMA mapping calls. -/
structure Submission where
  status : BlkStatus
  queue : OpenflashQueue
  doorbell : Option ℕ
  dma : List DmaEvent

namespace OpenflashQueue

def setRequest (q : OpenflashQueue) (tag : ℕ) (request : OpenflashRequest) : OpenflashQueue :=
  { q with requests := Function.update q.requests tag request }

def setSlot (q : OpenflashQueue) (cmd : OpenFlashCommand) : OpenflashQueue :=
  { q with sqCmds := Function.update q.sqCmds q.sqTail cmd }

end OpenflashQueue

def rejected (status : BlkStatus) (q : OpenflashQueue) (dma : List DmaEvent) : Submission :=
  ⟨status, q, none, dma⟩

/-- The command as `memset` and the first assignments leave it. -/
def plainCommand (rq : Request) (opcode : UInt8) (q : OpenflashQueue) : OpenFlashCommand :=
  { opcode := opcode
    qid := q.qid
    cid := .ofNat (rq.tag + 1)
    lba := rq.pos / 8
    nblocks := rq.bytes / 4096 }

/-- With mapped segments the flag byte is assigned, not extended. As in `mapSegments`, `mapped`
stands for a `u16` and is meant to stay below 65536. -/
def fillCommand (rq : Request) (opcode : UInt8) (mapped : ℕ) (sglDma : UInt64)
    (q : OpenflashQueue) : OpenFlashCommand :=
  let cmd := plainCommand rq opcode q
  let cmd := if rq.fua then { cmd with flags := cmd.flags ||| cmdFua } else cmd
  if mapped ≠ 0 then
    { cmd with flags := cmdSgl, control := .ofNat mapped, dataAddr := sglDma }
  else cmd

/-- From the label `submit` on, under the queue lock. -/
def submitCommand (capabilities : UInt64) (rq : Request) (opcode : UInt8) (dir : DmaDir)
    (mapped : ℕ) (dma : List DmaEvent) (q : OpenflashQueue) : Submission :=
  let request := q.requests rq.tag
  let undone := dma ++ unmapSegments dir request.sgl mapped
  if request.rq ≠ none then rejected .resource q undone
  else if rq.fua ∧ capabilities &&& capFua = 0 then
    rejected .notSupp (q.setSlot (plainCommand rq opcode q)) undone
  else
    let q := q.setSlot (fillCommand rq opcode mapped request.sglDma q)
    let q := q.setRequest rq.tag
      { request with
        rq := some rq
        nrMapped := mapped
        dmaDir := if mapped ≠ 0 then dir else request.dmaDir }
    let sqTail := (q.sqTail + 1) % q.depth
    ⟨.ok, { q with sqTail := sqTail }, some sqTail, dma⟩

/-- Reads and writes map their segments first. -/
def submitData (capabilities : UInt64) (rq : Request) (opcode : UInt8) (dir : DmaDir)
    (q : OpenflashQueue) : Submission :=
  if rq.bytes = 0 ∨ maxSglEntries < rq.nrPhysSegments then rejected .ioErr q []
  else
    let request := q.requests rq.tag
    let m := mapSegments dir rq.segments 0 request.sgl
    let q := q.setRequest rq.tag { request with sgl := m.sgl }
    if m.ok then submitCommand capabilities rq opcode dir m.mapped m.dma q
    else rejected .resource q (m.dma ++ unmapSegments dir m.sgl m.mapped)

def openflashQueueRq (capabilities : UInt64) (rq : Request) (q : OpenflashQueue) : Submission :=
  let cid : UInt16 := .ofNat (rq.tag + 1)
  if rq.pos % 8 ≠ 0 ∨ rq.bytes % 4096 ≠ 0 ∨ q.depth ≤ cid.toNat then rejected .ioErr q []
  else if rq.fua ∧ rq.op ≠ .write then rejected .notSupp q []
  else
    match rq.op with
    | .read => submitData capabilities rq opRead .fromDevice q
    | .write => submitData capabilities rq opWrite .toDevice q
    | .flush => submitCommand capabilities rq opFlush .toDevice 0 [] q
    | .discard => submitCommand capabilities rq opDiscard .toDevice 0 [] q
    | .other => rejected .notSupp q []

/-- The loop condition of `openflash_io_irq`. -/
def phaseMatches (q : OpenflashQueue) : Prop :=
  (q.cqes q.cqHead).flags.toNat &&& 1 = q.cqPhase

instance (q : OpenflashQueue) : Decidable (phaseMatches q) :=
  inferInstanceAs (Decidable (_ = _))

/-- The part of an iteration that takes the request of a completion and ends it. Invalid
and stale CIDs are only logged. -/
def endRequest (q : OpenflashQueue) :
    OpenflashQueue × Option (Request × BlkStatus) × List DmaEvent :=
  let cqe := q.cqes q.cqHead
  let cid := cqe.cid.toNat
  if cid = 0 ∨ q.depth - 1 < cid then (q, none, [])
  else
    let request := q.requests (cid - 1)
    match request.rq with
    | none => (q, none, [])
    | some rq =>
        (q.setRequest (cid - 1) { request with rq := none, nrMapped := 0 },
          some (rq, openflashBlkStatus cqe.status),
          unmapSegments request.dmaDir request.sgl request.nrMapped)

/-- The part that moves on to the next entry. -/
def advanceHead (q : OpenflashQueue) : OpenflashQueue :=
  let cqHead := (q.cqHead + 1) % q.depth
  { q with cqHead := cqHead, cqPhase := if cqHead = 0 then q.cqPhase ^^^ 1 else q.cqPhase }

end OpenFlash.Driver
