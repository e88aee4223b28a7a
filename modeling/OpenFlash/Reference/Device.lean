import OpenFlash.Abi.Command
import OpenFlash.Support.Bytes
import OpenFlash.Support.Dict

/-! The sparse in-memory behavioural oracle: a stable map under a volatile overlay
in which `none` marks a discarded block. -/
namespace OpenFlash.Reference
open Abi Support

abbrev Block := List UInt8

def zeroBlock : Block := List.replicate blockSize 0

abbrev Dma := Dict ℕ (List UInt8)

/-- The constructor rejects a capacity of zero. -/
structure ReferenceDevice where
  capacityBlocks : ℕ
  stable : Dict ℕ Block
  volatile : Dict ℕ (Option Block)
  nextFault : Option Status
  completed : ℕ
  capacity_pos : 0 < capacityBlocks

namespace ReferenceDevice

def fresh (capacityBlocks : ℕ) (h : 0 < capacityBlocks) : ReferenceDevice :=
  ⟨capacityBlocks, .empty, .empty, none, 0, h⟩

/-- The `ValueError` of a `SUCCESS` fault leaves the device as it was. -/
def injectNextFault (status : Status) (d : ReferenceDevice) :
    Except String Unit × ReferenceDevice :=
  if status = .success then (.error "fault status cannot be SUCCESS", d)
  else (.ok (), { d with nextFault := some status })

def powerLoss (d : ReferenceDevice) : ReferenceDevice := { d with volatile := .empty }

def flushEntry (stable : Dict ℕ Block) (entry : ℕ × Option Block) : Dict ℕ Block :=
  match entry.2 with
  | none => stable.pop entry.1
  | some data => stable.set entry.1 data

def flush (d : ReferenceDevice) : ReferenceDevice :=
  { d with stable := d.volatile.entries.foldl flushEntry d.stable, volatile := .empty }

def discard (lba nblocks : ℕ) (d : ReferenceDevice) : ReferenceDevice :=
  { d with volatile := (List.range nblocks).foldl (fun v i => v.set (lba + i) none) d.volatile }

def store (lba nblocks : ℕ) (buffer : List UInt8) (d : ReferenceDevice) : ReferenceDevice :=
  { d with
    volatile := (List.range nblocks).foldl
      (fun v i => v.set (lba + i) (some (slice buffer (i * blockSize) blockSize))) d.volatile }

/-- A tombstone in the overlay shadows the stable block. -/
def load (d : ReferenceDevice) (lba : ℕ) : Block :=
  (d.volatile.getD lba (some (d.stable.getD lba zeroBlock))).getD zeroBlock

def readInto (d : ReferenceDevice) (lba nblocks : ℕ) (buffer : List UInt8) : List UInt8 :=
  (List.range nblocks).foldl
    (fun b i => assignSlice b (i * blockSize) blockSize (d.load (lba + i))) buffer

/-- The part of `_dispatch` that needs a buffer. -/
def dispatchBuffer (opcode : Opcode) (command : Command) (dma : Dma) (buffer : List UInt8)
    (d : ReferenceDevice) : (Status × ℕ) × ReferenceDevice × Dma :=
  if buffer.length < command.nblocks * blockSize then ((.invalidField, 0), d, dma)
  else if opcode = .write then
    let d := d.store command.lba command.nblocks buffer
    ((.success, command.nblocks), if command.flags &&& flagFua ≠ 0 then d.flush else d, dma)
  else if opcode = .read then
    ((.success, command.nblocks), d,
      dma.set command.dataAddr (d.readInto command.lba command.nblocks buffer))
  else ((.invalidOpcode, 0), d, dma)

def dispatch (opcode : Opcode) (command : Command) (dma : Dma) (d : ReferenceDevice) :
    (Status × ℕ) × ReferenceDevice × Dma :=
  if opcode = .identify then ((.success, d.capacityBlocks), d, dma)
  else if opcode = .flush then ((.success, 0), d.flush, dma)
  else if command.nblocks = 0 then ((.invalidField, 0), d, dma)
  else if d.capacityBlocks < command.lba + command.nblocks then ((.lbaRange, 0), d, dma)
  else if opcode = .discard then
    ((.success, command.nblocks), d.discard command.lba command.nblocks, dma)
  else
    match dma.get? command.dataAddr with
    | none => ((.invalidField, 0), d, dma)
    | some buffer => dispatchBuffer opcode command dma buffer d

/-- An injected fault replaces the command: the device contents are not reached. -/
def perform (command : Command) (dma : Dma) (d : ReferenceDevice) :
    (Status × ℕ) × ReferenceDevice × Dma :=
  match d.nextFault with
  | some status => ((status, 0), { d with nextFault := none }, dma)
  | none =>
      match Opcode.ofNat? command.opcode with
      | none => ((.invalidOpcode, 0), d, dma)
      | some opcode => dispatch opcode command dma d

def execute (command : Command) (dma : Dma) (d : ReferenceDevice) :
    Completion × ReferenceDevice × Dma :=
  let r := d.perform command dma
  ({ result := r.1.2
     userData := command.userData
     sqHead := r.2.1.completed &&& 0xFFFF
     cid := command.cid
     status := r.1.1 },
    { r.2.1 with completed := r.2.1.completed + 1 }, r.2.2)

end ReferenceDevice
end OpenFlash.Reference
