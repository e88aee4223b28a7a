import OpenFlash.Support.Memory

/-! The packed little-endian records that driver and device exchange through guest
memory. Reserved fields are zero on the sending side and never read. -/
namespace OpenFlash.Abi
open Support

structure OpenFlashCommand where
  opcode : UInt8
  flags : UInt8 := 0
  qid : UInt16 := 0
  cid : UInt16 := 0
  lba : UInt64 := 0
  nblocks : UInt32 := 0
  control : UInt32 := 0
  dataAddr : UInt64 := 0
  metadataAddr : UInt64 := 0
  userData : UInt64 := 0
  deriving DecidableEq, Repr

structure OpenFlashCompletion where
  result : UInt64
  userData : UInt64
  sqHead : UInt16
  cid : UInt16
  status : UInt16
  flags : UInt16
  deriving DecidableEq, Repr

structure OpenFlashSglDesc where
  addr : UInt64
  length : UInt32
  deriving DecidableEq, Repr

namespace OpenFlashCommand

def bytes (c : OpenFlashCommand) : List UInt8 :=
  bytesLE 1 c.opcode.toNat ++ bytesLE 1 c.flags.toNat ++ bytesLE 2 c.qid.toNat ++
  bytesLE 2 c.cid.toNat ++ bytesLE 2 0 ++ bytesLE 8 c.lba.toNat ++ bytesLE 4 c.nblocks.toNat ++
  bytesLE 4 c.control.toNat ++ bytesLE 8 c.dataAddr.toNat ++ bytesLE 8 c.metadataAddr.toNat ++
  bytesLE 8 c.userData.toNat ++ bytesLE 8 0 ++ bytesLE 8 0

/-- The command as the device reads it from 64 bytes of guest memory. -/
def read (memory : Memory) (addr : ℕ) : OpenFlashCommand :=
  { opcode := .ofNat (readLE memory addr 1)
    flags := .ofNat (readLE memory (addr + 1) 1)
    qid := .ofNat (readLE memory (addr + 2) 2)
    cid := .ofNat (readLE memory (addr + 4) 2)
    lba := .ofNat (readLE memory (addr + 8) 8)
    nblocks := .ofNat (readLE memory (addr + 16) 4)
    control := .ofNat (readLE memory (addr + 20) 4)
    dataAddr := .ofNat (readLE memory (addr + 24) 8)
    metadataAddr := .ofNat (readLE memory (addr + 32) 8)
    userData := .ofNat (readLE memory (addr + 40) 8) }

/-- Reading depends on the 64 bytes of the slot only. -/
theorem read_congr {memory memory' : Memory} {addr : ℕ}
    (h : ∀ i < 64, memory' (addr + i) = memory (addr + i)) :
    read memory' addr = read memory addr := by
  have hfield : ∀ off n, off + n ≤ 64 →
      readLE memory' (addr + off) n = readLE memory (addr + off) n := by
    intro off n hle
    apply readLE_congr
    intro i hi
    rw [Nat.add_assoc]
    exact h (off + i) (by omega)
  have hfirst := hfield 0 1 (by decide)
  rw [Nat.add_zero] at hfirst
  simp only [read, hfirst, hfield 1 1 (by decide), hfield 2 2 (by decide),
    hfield 4 2 (by decide), hfield 8 8 (by decide), hfield 16 4 (by decide),
    hfield 20 4 (by decide), hfield 24 8 (by decide), hfield 32 8 (by decide),
    hfield 40 8 (by decide)]

theorem read_of_holds {memory : Memory} {addr : ℕ} {c : OpenFlashCommand}
    (h : Holds memory addr c.bytes) : read memory addr = c := by
  simp only [bytes, holds_append, List.length_append, length_bytesLE, and_assoc,
    Nat.reduceAdd] at h
  obtain ⟨hopcode, hflags, hqid, hcid, -, hlba, hnblocks, hcontrol, hdata, hmetadata, huser, -⟩ := h
  unfold read
  simp only [readLE_of_holds hopcode, readLE_of_holds hflags, readLE_of_holds hqid,
    readLE_of_holds hcid, readLE_of_holds hlba, readLE_of_holds hnblocks,
    readLE_of_holds hcontrol, readLE_of_holds hdata, readLE_of_holds hmetadata,
    readLE_of_holds huser, Nat.reduceMul, UInt8.ofNat_mod_size, UInt16.ofNat_mod_size,
    UInt32.ofNat_mod_size, UInt64.ofNat_mod_size, UInt8.ofNat_toNat, UInt16.ofNat_toNat,
    UInt32.ofNat_toNat, UInt64.ofNat_toNat]

end OpenFlashCommand

def OpenFlashCompletion.bytes (c : OpenFlashCompletion) : List UInt8 :=
  bytesLE 8 c.result.toNat ++ bytesLE 8 c.userData.toNat ++ bytesLE 2 c.sqHead.toNat ++
  bytesLE 2 c.cid.toNat ++ bytesLE 2 c.status.toNat ++ bytesLE 2 c.flags.toNat ++
  bytesLE 8 0 ++ bytesLE 8 0 ++ bytesLE 8 0 ++ bytesLE 8 0 ++ bytesLE 8 0

namespace OpenFlashCompletion

/-- The completion as the driver reads it from a slot of its ring. -/
def read (memory : Memory) (addr : ℕ) : OpenFlashCompletion :=
  { result := .ofNat (readLE memory addr 8)
    userData := .ofNat (readLE memory (addr + 8) 8)
    sqHead := .ofNat (readLE memory (addr + 16) 2)
    cid := .ofNat (readLE memory (addr + 18) 2)
    status := .ofNat (readLE memory (addr + 20) 2)
    flags := .ofNat (readLE memory (addr + 22) 2) }

theorem read_congr {memory memory' : Memory} {addr : ℕ}
    (h : ∀ i < 24, memory' (addr + i) = memory (addr + i)) :
    read memory' addr = read memory addr := by
  have hfield : ∀ off n, off + n ≤ 24 →
      readLE memory' (addr + off) n = readLE memory (addr + off) n := by
    intro off n hle
    apply readLE_congr
    intro i hi
    rw [Nat.add_assoc]
    exact h (off + i) (by omega)
  have hfirst := hfield 0 8 (by decide)
  rw [Nat.add_zero] at hfirst
  simp only [read, hfirst, hfield 8 8 (by decide), hfield 16 2 (by decide),
    hfield 18 2 (by decide), hfield 20 2 (by decide), hfield 22 2 (by decide)]

theorem read_of_holds {memory : Memory} {addr : ℕ} {c : OpenFlashCompletion}
    (h : Holds memory addr c.bytes) : read memory addr = c := by
  simp only [bytes, holds_append, List.length_append, length_bytesLE, and_assoc,
    Nat.reduceAdd] at h
  obtain ⟨hresult, huser, hhead, hcid, hstatus, hflags, -⟩ := h
  unfold read
  simp only [readLE_of_holds hresult, readLE_of_holds huser, readLE_of_holds hhead,
    readLE_of_holds hcid, readLE_of_holds hstatus, readLE_of_holds hflags, Nat.reduceMul,
    UInt16.ofNat_mod_size, UInt64.ofNat_mod_size, UInt16.ofNat_toNat, UInt64.ofNat_toNat]

end OpenFlashCompletion

namespace OpenFlashSglDesc

def bytes (d : OpenFlashSglDesc) : List UInt8 :=
  bytesLE 8 d.addr.toNat ++ bytesLE 4 d.length.toNat ++ bytesLE 4 0

def read (memory : Memory) (addr : ℕ) : OpenFlashSglDesc :=
  { addr := .ofNat (readLE memory addr 8)
    length := .ofNat (readLE memory (addr + 8) 4) }

theorem read_congr {memory memory' : Memory} {addr : ℕ}
    (h : ∀ i < 16, memory' (addr + i) = memory (addr + i)) :
    read memory' addr = read memory addr := by
  have haddr : readLE memory' addr 8 = readLE memory addr 8 :=
    readLE_congr fun i hi => h i (by omega)
  have hlength : readLE memory' (addr + 8) 4 = readLE memory (addr + 8) 4 := by
    apply readLE_congr
    intro i hi
    rw [Nat.add_assoc]
    exact h (8 + i) (by omega)
  rw [read, read, haddr, hlength]

theorem read_of_holds {memory : Memory} {addr : ℕ} {d : OpenFlashSglDesc}
    (h : Holds memory addr d.bytes) : read memory addr = d := by
  simp only [bytes, holds_append, length_bytesLE, and_assoc] at h
  obtain ⟨haddr, hlength, -⟩ := h
  unfold read
  simp only [readLE_of_holds haddr, readLE_of_holds hlength, Nat.reduceMul, UInt32.ofNat_mod_size,
    UInt64.ofNat_mod_size, UInt32.ofNat_toNat, UInt64.ofNat_toNat]

end OpenFlashSglDesc
end OpenFlash.Abi
