import Mathlib.Data.Nat.Init

/-! The command and completion records of the host/controller ABI. -/
namespace OpenFlash.Abi

def blockSize : ℕ := 4096

def flagFua : ℕ := 1

inductive Opcode where
  | read
  | write
  | flush
  | discard
  | identify
  deriving DecidableEq, Repr

/-- `Opcode(value)`; `none` is the `ValueError` of an undefined opcode. -/
def Opcode.ofNat? : ℕ → Option Opcode
  | 0x01 => some .read
  | 0x02 => some .write
  | 0x03 => some .flush
  | 0x04 => some .discard
  | 0x80 => some .identify
  | _ => none

inductive Status where
  | success
  | invalidOpcode
  | invalidField
  | lbaRange
  | mediaError
  | eccUncorrectable
  | aborted
  | internal
  deriving DecidableEq, Repr

def Status.code : Status → ℕ
  | .success => 0
  | .invalidOpcode => 1
  | .invalidField => 2
  | .lbaRange => 3
  | .mediaError => 4
  | .eccUncorrectable => 5
  | .aborted => 6
  | .internal => 7

/-- `Status(value)`; `none` is the `ValueError` of an undefined status. -/
def Status.ofNat? : ℕ → Option Status
  | 0 => some .success
  | 1 => some .invalidOpcode
  | 2 => some .invalidField
  | 3 => some .lbaRange
  | 4 => some .mediaError
  | 5 => some .eccUncorrectable
  | 6 => some .aborted
  | 7 => some .internal
  | _ => none

theorem Status.ofNat?_eq_some_iff {n : ℕ} {status : Status} :
    Status.ofNat? n = some status ↔ status.code = n := by
  constructor
  · intro h
    unfold Status.ofNat? at h
    split at h <;> cases h <;> rfl
  · rintro rfl
    cases status <;> rfl

/-- Fields are unbounded here; only `pack` confines them to their ABI widths. -/
structure Command where
  opcode : ℕ
  flags : ℕ := 0
  qid : ℕ := 0
  cid : ℕ := 0
  lba : ℕ := 0
  nblocks : ℕ := 0
  control : ℕ := 0
  dataAddr : ℕ := 0
  metadataAddr : ℕ := 0
  userData : ℕ := 0
  deriving DecidableEq, Repr

structure Completion where
  result : ℕ
  userData : ℕ
  sqHead : ℕ
  cid : ℕ
  status : Status
  flags : ℕ := 0
  deriving DecidableEq, Repr

end OpenFlash.Abi
