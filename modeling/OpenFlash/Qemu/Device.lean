import Mathlib.Data.Fin.Basic
import Mathlib.Data.UInt
import OpenFlash.Abi.Command
import OpenFlash.Abi.Wire

/-! The QEMU device: command execution against the storage image, the submission loop,
the register file and realization. Every run of a command reports the storage accesses
and the unsigned subtractions it performed. -/
namespace OpenFlash.Qemu
open Abi Support

def opRead : UInt8 := 0x01
def opWrite : UInt8 := 0x02
def opFlush : UInt8 := 0x03
def opDiscard : UInt8 := 0x04
def adminIdentify : UInt8 := 0x80
def adminCreateIoq : UInt8 := 0x81

def cmdFua : UInt8 := 1
def cmdSgl : UInt8 := 2
def maxSglEntries : ℕ := 16

def ofBlockSize : UInt64 := 4096
abbrev maxQueues : ℕ := 2

instance : NeZero maxQueues := ⟨by decide⟩

def maxQueueDepth : ℕ := 4096

structure OpenFlashQueue where
  sqAddr : UInt64 := 0
  cqAddr : UInt64 := 0
  depth : ℕ := 0
  sqHead : ℕ := 0
  cqTail : ℕ := 0
  cqHead : ℕ := 0
  vector : ℕ := 0
  cqPhase : ℕ := 0
  enabled : Bool := false
  deriving DecidableEq, Repr

/-- A file on the host, as `g_file_get_contents` returns it. -/
structure Image where
  length : ℕ
  bytes : ℕ → UInt8

/-- A realized device. `backingFile` is the configured path and `file` what the host has
stored there; realization accepts only a positive multiple of the block size. -/
structure OpenFlashState where
  queues : Fin maxQueues → OpenFlashQueue
  control : ℕ
  status : ℕ
  capacity : UInt64
  storage : ℕ → UInt8
  backingFile : Option String
  file : Option Image
  capacity_valid : ofBlockSize ≤ capacity ∧ capacity % ofBlockSize = 0

/-- What a command does to `s->storage` and with unsigned arithmetic, in order. -/
inductive Access where
  | load (start n : ℕ)
  | store (start n : ℕ)
  | persist (n : ℕ)
  | subtract (minuend subtrahend : UInt64)
  deriving DecidableEq, Repr

structure Transfer where
  ok : Bool
  storage : ℕ → UInt8
  memory : Memory
  trace : List Access

/-- One `pci_dma_read` into the storage, or one `pci_dma_write` out of it. -/
def move (write : Bool) (addr : UInt64) (start n : ℕ) (storage : ℕ → UInt8) (memory : Memory) :
    Transfer :=
  if write then
    ⟨true, overwrite storage start n fun i => memory (addr.toNat + i), memory, [.store start n]⟩
  else
    ⟨true, storage, overwrite memory addr.toNat n fun i => storage (start + i), [.load start n]⟩

/-- The segment loop, by the entries of the table still to visit. -/
def sglLoop (write : Bool) (dma offset length : UInt64) :
    ℕ → UInt64 → UInt64 → (ℕ → UInt8) → Memory → Transfer
  | 0, _, transferred, storage, memory => ⟨transferred == length, storage, memory, []⟩
  | n + 1, index, transferred, storage, memory =>
      let desc := OpenFlashSglDesc.read memory (dma + index * 16).toNat
      if desc.addr = 0 ∨ desc.length = 0 then ⟨false, storage, memory, []⟩
      else if length - transferred < desc.length.toUInt64 then
        ⟨false, storage, memory, [.subtract length transferred]⟩
      else
        let m := move write desc.addr (offset.toNat + transferred.toNat) desc.length.toNat
          storage memory
        let rest := sglLoop write dma offset length n (index + 1)
          (transferred + desc.length.toUInt64) m.storage m.memory
        { rest with trace := .subtract length transferred :: (m.trace ++ rest.trace) }

def openflashTransfer (cmd : OpenFlashCommand) (offset length : UInt64) (write : Bool)
    (storage : ℕ → UInt8) (memory : Memory) : Transfer :=
  if cmd.flags &&& cmdSgl = 0 then
    if cmd.dataAddr = 0 then ⟨false, storage, memory, []⟩
    else move write cmd.dataAddr offset.toNat length.toNat storage memory
  else
    let count := (cmd.control &&& 0xffff).toNat
    if count = 0 ∨ maxSglEntries < count ∨ cmd.dataAddr = 0 then ⟨false, storage, memory, []⟩
    else sglLoop write cmd.dataAddr offset length count 0 0 storage memory

/-- `fileOk` is the outcome of `g_file_set_contents`, which replaces the file as a whole. -/
def openflashPersist (fileOk : Bool) (s : OpenFlashState) :
    Bool × OpenFlashState × List Access :=
  match s.backingFile with
  | none => (true, s, [])
  | some _ =>
      if fileOk then
        (true, { s with file := some ⟨s.capacity.toNat, s.storage⟩ }, [.persist s.capacity.toNat])
      else (false, s, [.persist s.capacity.toNat])

structure Outcome where
  status : Status
  result : UInt64
  state : OpenFlashState
  memory : Memory
  trace : List Access

def createdQid (cmd : OpenFlashCommand) : ℕ := (cmd.control &&& 0xffff).toNat

def createdVector (cmd : OpenFlashCommand) : ℕ := (cmd.control >>> 16).toNat

/-- The parameters of `CREATE_IOQ` pass the device's checks. -/
def createIoqAccepted (cmd : OpenFlashCommand) : Prop :=
  createdQid cmd ≠ 0 ∧ createdQid cmd < maxQueues ∧ createdVector cmd < maxQueues ∧
    cmd.nblocks ≠ 0 ∧ cmd.nblocks.toNat ≤ maxQueueDepth ∧ cmd.dataAddr ≠ 0 ∧
    cmd.metadataAddr ≠ 0

instance (cmd : OpenFlashCommand) : Decidable (createIoqAccepted cmd) :=
  inferInstanceAs (Decidable (_ ∧ _ ∧ _ ∧ _ ∧ _ ∧ _ ∧ _))

def createdQueue (cmd : OpenFlashCommand) : OpenFlashQueue :=
  { sqAddr := cmd.dataAddr
    cqAddr := cmd.metadataAddr
    depth := cmd.nblocks.toNat
    sqHead := 0
    cqTail := 0
    cqHead := 0
    cqPhase := 1
    vector := createdVector cmd
    enabled := true }

def updateQueue (s : OpenFlashState) (qid : Fin maxQueues) (q : OpenFlashQueue) :
    OpenFlashState := { s with queues := Function.update s.queues qid q }

@[simp] theorem updateQueue_self (s : OpenFlashState) (qid : Fin maxQueues)
    (q : OpenFlashQueue) : (updateQueue s qid q).queues qid = q := Function.update_self ..

theorem updateQueue_of_ne (s : OpenFlashState) {qid other : Fin maxQueues} (q : OpenFlashQueue)
    (h : other ≠ qid) : (updateQueue s qid q).queues other = s.queues other :=
  Function.update_of_ne h ..

/-- What holds of every queue holds of every queue after an update that keeps it. -/
theorem updateQueue_forall {P : OpenFlashQueue → Prop} {s : OpenFlashState}
    (h : ∀ qid, P (s.queues qid)) {q : OpenFlashQueue} (hq : P q) (qid other : Fin maxQueues) :
    P ((updateQueue s qid q).queues other) := by
  by_cases hqid : other = qid
  · rw [hqid, updateQueue_self]
    exact hq
  · rw [updateQueue_of_ne s q hqid]
    exact h other

def executeCreateIoq (cmd : OpenFlashCommand) (memory : Memory) (s : OpenFlashState) : Outcome :=
  if createIoqAccepted cmd then
    ⟨.success, .ofNat (createdQid cmd),
      updateQueue s (Fin.ofNat maxQueues (createdQid cmd)) (createdQueue cmd), memory, []⟩
  else ⟨.invalidField, 0, s, memory, []⟩

def executeRead (cmd : OpenFlashCommand) (offset length : UInt64) (memory : Memory)
    (s : OpenFlashState) : Outcome :=
  let t := openflashTransfer cmd offset length false s.storage memory
  ⟨if t.ok then .success else .invalidField, if t.ok then cmd.nblocks.toUInt64 else 0,
    { s with storage := t.storage }, t.memory, t.trace⟩

def executeWrite (fileOk : Bool) (cmd : OpenFlashCommand) (offset length : UInt64)
    (memory : Memory) (s : OpenFlashState) : Outcome :=
  let t := openflashTransfer cmd offset length true s.storage memory
  let s := { s with storage := t.storage }
  if t.ok = false then ⟨.invalidField, 0, s, t.memory, t.trace⟩
  else if cmd.flags &&& cmdFua = 0 then ⟨.success, cmd.nblocks.toUInt64, s, t.memory, t.trace⟩
  else
    let p := openflashPersist fileOk s
    ⟨if p.1 then .success else .internal, if p.1 then cmd.nblocks.toUInt64 else 0, p.2.1,
      t.memory, t.trace ++ p.2.2⟩

def executeDiscard (cmd : OpenFlashCommand) (offset length : UInt64) (memory : Memory)
    (s : OpenFlashState) : Outcome :=
  ⟨.success, cmd.nblocks.toUInt64,
    { s with storage := overwrite s.storage offset.toNat length.toNat fun _ => 0 }, memory,
    [.store offset.toNat length.toNat]⟩

def executeFlush (fileOk : Bool) (memory : Memory) (s : OpenFlashState) : Outcome :=
  let p := openflashPersist fileOk s
  ⟨if p.1 then .success else .internal, 0, p.2.1, memory, p.2.2⟩

/-- The opcode switch behind the range check. -/
def executeRanged (fileOk : Bool) (cmd : OpenFlashCommand) (offset length : UInt64)
    (memory : Memory) (s : OpenFlashState) : Outcome :=
  if cmd.opcode = opRead then executeRead cmd offset length memory s
  else if cmd.opcode = opWrite then executeWrite fileOk cmd offset length memory s
  else if cmd.opcode = opDiscard then executeDiscard cmd offset length memory s
  else ⟨.invalidOpcode, 0, s, memory, []⟩

def openflashExecute (fileOk : Bool) (cmd : OpenFlashCommand) (memory : Memory)
    (s : OpenFlashState) : Outcome :=
  let offset := cmd.lba * ofBlockSize
  let length := cmd.nblocks.toUInt64 * ofBlockSize
  if cmd.opcode = adminIdentify then ⟨.success, s.capacity / ofBlockSize, s, memory, []⟩
  else if cmd.opcode = adminCreateIoq then executeCreateIoq cmd memory s
  else if cmd.opcode = opFlush then executeFlush fileOk memory s
  else if cmd.nblocks = 0 then ⟨.invalidField, 0, s, memory, []⟩
  else if s.capacity < offset then ⟨.lbaRange, 0, s, memory, []⟩
  else if s.capacity - offset < length then
    ⟨.lbaRange, 0, s, memory, [.subtract s.capacity offset]⟩
  else
    let r := executeRanged fileOk cmd offset length memory s
    { r with trace := .subtract s.capacity offset :: r.trace }

namespace OpenFlashQueue

def advance (q : OpenFlashQueue) (index : ℕ) : ℕ := (index + 1) % q.depth % 2 ^ 16

def fetched (q : OpenFlashQueue) : OpenFlashQueue := { q with sqHead := q.advance q.sqHead }

def posted (q : OpenFlashQueue) : OpenFlashQueue :=
  { q with
    cqTail := q.advance q.cqTail
    cqPhase := if q.advance q.cqTail = 0 then q.cqPhase ^^^ 1 else q.cqPhase }

def completion (q : OpenFlashQueue) (cmd : OpenFlashCommand) (r : Outcome) :
    OpenFlashCompletion :=
  { result := r.result
    userData := cmd.userData
    sqHead := .ofNat q.sqHead
    cid := cmd.cid
    status := .ofNat r.status.code
    flags := .ofNat q.cqPhase }

def sqSlotAddr (q : OpenFlashQueue) : ℕ := (q.sqAddr + .ofNat (q.sqHead * 64)).toNat

def cqSlotAddr (q : OpenFlashQueue) : ℕ := (q.cqAddr + .ofNat (q.cqTail * 64)).toNat

end OpenFlashQueue

/-- The loop body on a fetched command. The queue is read again after the execution,
which may have changed it; the completion goes to the slot `queue` still points at. -/
structure Iteration where
  queue : OpenFlashQueue
  completion : OpenFlashCompletion
  device : OpenFlashState
  memory : Memory
  trace : List Access

def processCommand (fileOk : Bool) (qid : Fin maxQueues) (cmd : OpenFlashCommand)
    (memory : Memory) (s : OpenFlashState) : Iteration :=
  let r := openflashExecute fileOk cmd memory s
  let q := (r.state.queues qid).fetched
  { queue := q
    completion := q.completion cmd r
    device := updateQueue r.state qid q.posted
    memory := r.memory
    trace := r.trace }

/-- One pass of the `while` loop of `openflash_process_sq`. -/
def processSq (fileOk : Bool) (qid : Fin maxQueues) (memory : Memory) (s : OpenFlashState) :
    Iteration :=
  let cmd := OpenFlashCommand.read memory (s.queues qid).sqSlotAddr
  let it := processCommand fileOk qid cmd memory s
  { it with
    memory := overwrite it.memory it.queue.cqSlotAddr 64 fun i => it.completion.bytes.getD i 0 }

def statusReady : ℕ := 1

/-- The checks of `openflash_process_sq` in front of its loop. -/
def doorbellAccepted (s : OpenFlashState) (qid : Fin maxQueues) (newTail : ℕ) : Prop :=
  s.status &&& statusReady ≠ 0 ∧ (s.queues qid).enabled = true ∧ (s.queues qid).depth ≠ 0 ∧
    newTail < (s.queues qid).depth

instance (s : OpenFlashState) (qid : Fin maxQueues) (newTail : ℕ) :
    Decidable (doorbellAccepted s qid newTail) :=
  inferInstanceAs (Decidable (_ ∧ _ ∧ _ ∧ _))

def openflashReset (s : OpenFlashState) : OpenFlashState :=
  { s with
    queues := Function.update (fun _ => {}) 0 { cqPhase := 1, vector := 0 }
    control := 0
    status := 0 }

/-- The depth that a write to the queue size register selects; zero disables the queue. -/
def adminDepth (value : UInt64) : ℕ :=
  if 2 ≤ value.toNat ∧ value.toNat ≤ maxQueueDepth then value.toNat else 0

def writeControl (value : UInt64) (s : OpenFlashState) : OpenFlashState :=
  if value &&& 2 ≠ 0 then openflashReset s
  else
    { s with
      control := value.toNat % 2 ^ 32
      status := if value &&& 1 ≠ 0 then statusReady else 0 }

/-- The `default` case: doorbells, and addresses that are only logged. -/
def writeDoorbell (addr : ℕ) (value : UInt64) (s : OpenFlashState) :
    OpenFlashState × Option (Fin maxQueues × ℕ) :=
  let qid := Fin.ofNat maxQueues ((addr - 0x1000) / 8)
  let newTail := value.toNat % 2 ^ 16
  if 0x1000 ≤ addr ∧ addr < 0x1000 + maxQueues * 8 then
    if (addr - 0x1000) % 8 = 0 then
      (s, if doorbellAccepted s qid newTail then some (qid, newTail) else none)
    else if value.toNat < (s.queues qid).depth then
      (updateQueue s qid { s.queues qid with cqHead := value.toNat % 2 ^ 16 }, none)
    else (s, none)
  else (s, none)

/-- A register write, with the submission loop it enters, if any. -/
def openflashMmioWrite (addr : ℕ) (value : UInt64) (s : OpenFlashState) :
    OpenFlashState × Option (Fin maxQueues × ℕ) :=
  let q := s.queues 0
  match addr with
  | 0x0010 => (writeControl value s, none)
  | 0x0020 =>
      (updateQueue s 0 { q with sqAddr := (q.sqAddr &&& 0xffffffff00000000) ||| value }, none)
  | 0x0024 =>
      (updateQueue s 0
        { q with sqAddr := (q.sqAddr &&& (0xffffffff : UInt64)) ||| value <<< (32 : UInt64) },
        none)
  | 0x0028 =>
      (updateQueue s 0 { q with cqAddr := (q.cqAddr &&& 0xffffffff00000000) ||| value }, none)
  | 0x002c =>
      (updateQueue s 0
        { q with cqAddr := (q.cqAddr &&& (0xffffffff : UInt64)) ||| value <<< (32 : UInt64) },
        none)
  | 0x0030 =>
      (updateQueue s 0 { q with depth := adminDepth value, enabled := adminDepth value ≠ 0 },
        none)
  | _ => writeDoorbell addr value s

/-- The smallest capacity, one block. -/
theorem ofBlockSize_valid : ofBlockSize ≤ 4096 ∧ (4096 : UInt64) % ofBlockSize = 0 := by decide

/-- Outcomes of the host calls that `openflash_realize` depends on. -/
structure RealizeHost where
  readError : Option String := none
  msixError : Option String := none

/-- The reset device on a given image. -/
def realizedOn (capacity : UInt64) (backingFile : Option String) (file : Option Image)
    (storage : ℕ → UInt8) (h : ofBlockSize ≤ capacity ∧ capacity % ofBlockSize = 0) :
    OpenFlashState :=
  openflashReset
    { queues := fun _ => {}, control := 0, status := 0, capacity := capacity, storage := storage
      backingFile := backingFile, file := file, capacity_valid := h }

def openflashRealize (host : RealizeHost) (capacity : UInt64) (backingFile : Option String)
    (file : Option Image) : Except String OpenFlashState :=
  if h : ofBlockSize ≤ capacity ∧ capacity % ofBlockSize = 0 then
    let finish (storage : ℕ → UInt8) : Except String OpenFlashState :=
      match host.msixError with
      | some error => .error error
      | none => .ok (realizedOn capacity backingFile file storage h)
    match backingFile, file with
    | some _, some image =>
        match host.readError with
        | some error => .error ("cannot load backing file: " ++ error)
        | none =>
            if image.length ≠ capacity.toNat then
              .error ("backing file must be exactly " ++ toString capacity.toNat ++ " bytes")
            else finish image.bytes
    | _, _ => finish fun _ => 0
  else .error "capacity must be a positive multiple of 4096"

end OpenFlash.Qemu
