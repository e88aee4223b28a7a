import OpenFlash.Abi.Command
import OpenFlash.Abi.Wire
import OpenFlash.Support.Layout

/-! The binary form of commands and completions: packing and unpacking with the struct
formats of the Python side, against the packed C structs of the driver and of the device. -/
namespace OpenFlash.Abi
open Support

def commandSize : ℕ := 64

def completionSize : ℕ := 64

/-- `"<BBHHHQIIQQQQQ"`. -/
def commandFormat : List FormatCode :=
  [.b, .b, .h, .h, .h, .q, .i, .i, .q, .q, .q, .q, .q]

/-- `"<QQHHHHQQQQQ"`. -/
def completionFormat : List FormatCode :=
  [.q, .q, .h, .h, .h, .h, .q, .q, .q, .q, .q]

inductive UnpackError where
  | size (text : String)
  | struct
  | status (value : ℕ)
  deriving DecidableEq, Repr

namespace Command

def fields (c : Command) : List ℕ :=
  [c.opcode, c.flags, c.qid, c.cid, 0, c.lba, c.nblocks, c.control, c.dataAddr, c.metadataAddr,
    c.userData, 0, 0]

def pack (c : Command) : Option (List UInt8) := packFields commandFormat c.fields

def unpack (value : List UInt8) : Except UnpackError Command :=
  if value.length ≠ commandSize then .error (.size "command must be 64 bytes")
  else
    match unpackFields commandFormat value with
    | none => .error .struct
    | some fields =>
        .ok
          { opcode := fields.getD 0 0
            flags := fields.getD 1 0
            qid := fields.getD 2 0
            cid := fields.getD 3 0
            lba := fields.getD 5 0
            nblocks := fields.getD 6 0
            control := fields.getD 7 0
            dataAddr := fields.getD 8 0
            metadataAddr := fields.getD 9 0
            userData := fields.getD 10 0 }

/-- Every field is within its ABI width. -/
structure Fits (c : Command) : Prop where
  opcode : c.opcode < 2 ^ 8
  flags : c.flags < 2 ^ 8
  qid : c.qid < 2 ^ 16
  cid : c.cid < 2 ^ 16
  lba : c.lba < 2 ^ 64
  nblocks : c.nblocks < 2 ^ 32
  control : c.control < 2 ^ 32
  dataAddr : c.dataAddr < 2 ^ 64
  metadataAddr : c.metadataAddr < 2 ^ 64
  userData : c.userData < 2 ^ 64

inductive Field where
  | opcode
  | flags
  | qid
  | cid
  | lba
  | nblocks
  | control
  | dataAddr
  | metadataAddr
  | userData
  deriving DecidableEq, Repr

def get (c : Command) : Field → ℕ
  | .opcode => c.opcode
  | .flags => c.flags
  | .qid => c.qid
  | .cid => c.cid
  | .lba => c.lba
  | .nblocks => c.nblocks
  | .control => c.control
  | .dataAddr => c.dataAddr
  | .metadataAddr => c.metadataAddr
  | .userData => c.userData

/-- `struct openflash_command` of the driver. -/
def driverLayout : List (Option Field × ℕ) :=
  [(some .opcode, 1), (some .flags, 1), (some .qid, 2), (some .cid, 2), (none, 2), (some .lba, 8),
    (some .nblocks, 4), (some .control, 4), (some .dataAddr, 8), (some .metadataAddr, 8),
    (some .userData, 8), (none, 2 * 8)]

/-- `OpenFlashCommand` of the device. -/
def deviceLayout : List (Option Field × ℕ) :=
  [(some .opcode, 1), (some .flags, 1), (some .qid, 2), (some .cid, 2), (none, 2), (some .lba, 8),
    (some .nblocks, 4), (some .control, 4), (some .dataAddr, 8), (some .metadataAddr, 8),
    (some .userData, 8), (none, 2 * 8)]

theorem Fits.fieldsFit {c : Command} (h : c.Fits) : FieldsFit commandFormat c.fields := by
  refine ⟨rfl, ?_⟩
  simp only [commandFormat, fields, List.zip_cons_cons, List.zip_nil_left, List.forall_mem_cons,
    List.not_mem_nil, false_implies, implies_true, and_true, FormatCode.size]
  exact ⟨h.opcode, h.flags, h.qid, h.cid, by decide, h.lba, h.nblocks, h.control, h.dataAddr,
    h.metadataAddr, h.userData, by decide, by decide⟩

theorem Fits.pack {c : Command} (h : c.Fits) :
    c.pack = some (fieldBytes commandFormat c.fields) := if_pos h.fieldsFit

theorem unpack_eq {value : List UInt8} {fields : List ℕ}
    (h : unpackFields commandFormat value = some fields) :
    unpack value = .ok
      { opcode := fields.getD 0 0
        flags := fields.getD 1 0
        qid := fields.getD 2 0
        cid := fields.getD 3 0
        lba := fields.getD 5 0
        nblocks := fields.getD 6 0
        control := fields.getD 7 0
        dataAddr := fields.getD 8 0
        metadataAddr := fields.getD 9 0
        userData := fields.getD 10 0 } := by
  have hlen : value.length = commandSize := length_of_unpackFields h
  rw [unpack, if_neg (not_not_intro hlen), h]

theorem Fits.unpack_fieldBytes {c : Command} (h : c.Fits) :
    unpack (fieldBytes commandFormat c.fields) = .ok c :=
  unpack_eq (unpackFields_fieldBytes h.fieldsFit)

/-- Entry of the format that holds a field; entries 4, 11 and 12 are reserved. -/
def Field.index : Field → ℕ
  | .opcode => 0
  | .flags => 1
  | .qid => 2
  | .cid => 3
  | .lba => 5
  | .nblocks => 6
  | .control => 7
  | .dataAddr => 8
  | .metadataAddr => 9
  | .userData => 10

theorem fields_index (c : Command) (field : Field) :
    c.fields[field.index]? = some (c.get field) := by
  cases field <;> rfl

theorem driverLayout_occupies (field : Field) :
    Occupies driverLayout field commandFormat field.index := by
  cases field <;> exact ⟨_, rfl, rfl, rfl⟩

theorem deviceLayout_occupies (field : Field) :
    Occupies deviceLayout field commandFormat field.index := by
  cases field <;> exact ⟨_, rfl, rfl, rfl⟩

theorem fits_of_fieldsFit {c : Command} {reserved0 reserved1 reserved2 : ℕ}
    (h : FieldsFit commandFormat [c.opcode, c.flags, c.qid, c.cid, reserved0, c.lba, c.nblocks,
      c.control, c.dataAddr, c.metadataAddr, c.userData, reserved1, reserved2]) : c.Fits := by
  have hfit := h.2
  simp only [commandFormat, List.zip_cons_cons, List.zip_nil_left, List.forall_mem_cons,
    FormatCode.size] at hfit
  obtain ⟨hopcode, hflags, hqid, hcid, -, hlba, hnblocks, hcontrol, hdata, hmetadata, huser, -⟩ :=
    hfit
  exact ⟨hopcode, hflags, hqid, hcid, hlba, hnblocks, hcontrol, hdata, hmetadata, huser⟩

/-- Zeroing bytes 6-7 and 48-63 zeroes the reserved fields. -/
theorem zeroSlice_reserved (c : Command) (reserved0 reserved1 reserved2 : ℕ) :
    zeroSlice (zeroSlice (fieldBytes commandFormat [c.opcode, c.flags, c.qid, c.cid, reserved0,
        c.lba, c.nblocks, c.control, c.dataAddr, c.metadataAddr, c.userData, reserved1,
        reserved2]) 6 2) 48 16 = fieldBytes commandFormat c.fields := by
  have hfirst := zeroSlice_fieldBytes [.b, .b, .h, .h] [.h] [.q, .i, .i, .q, .q, .q, .q, .q]
    [c.opcode, c.flags, c.qid, c.cid] [reserved0] [c.lba, c.nblocks, c.control, c.dataAddr,
      c.metadataAddr, c.userData, reserved1, reserved2] rfl rfl
  have hsecond := zeroSlice_fieldBytes [.b, .b, .h, .h, .h, .q, .i, .i, .q, .q, .q] [.q, .q] []
    [c.opcode, c.flags, c.qid, c.cid, 0, c.lba, c.nblocks, c.control, c.dataAddr, c.metadataAddr,
      c.userData] [reserved1, reserved2] [] rfl rfl
  exact (congrArg (zeroSlice · 48 16) hfirst).trans hsecond

/-- Any 64 bytes unpack, and packing them again zeroes the reserved fields. -/
theorem pack_unpack {value : List UInt8} (h : value.length = commandSize) :
    ∃ c, unpack value = .ok c ∧ c.pack = some (zeroSlice (zeroSlice value 6 2) 48 16) := by
  obtain ⟨opcode, flags, qid, cid, reserved0, lba, nblocks, control, dataAddr, metadataAddr,
      userData, reserved1, reserved2, hfields⟩ : ∃ v0 v1 v2 v3 v4 v5 v6 v7 v8 v9 v10 v11 v12,
      fieldValues commandFormat value = [v0, v1, v2, v3, v4, v5, v6, v7, v8, v9, v10, v11, v12] :=
    ⟨_, _, _, _, _, _, _, _, _, _, _, _, _, rfl⟩
  have hunpack : unpackFields commandFormat value = some _ := if_pos h
  have hfit := fieldsFit_fieldValues commandFormat h
  have hbytes := fieldBytes_fieldValues commandFormat h
  rw [hfields] at hunpack hfit hbytes
  refine ⟨_, unpack_eq hunpack, ?_⟩
  rw [(fits_of_fieldsFit hfit).pack, ← hbytes]
  exact congrArg some (zeroSlice_reserved _ reserved0 reserved1 reserved2).symm

/-- The packed bytes are those of the record that driver and device exchange. -/
theorem Fits.pack_wire {c : Command} (h : c.Fits) :
    c.pack = some (OpenFlashCommand.bytes
      { opcode := .ofNat c.opcode
        flags := .ofNat c.flags
        qid := .ofNat c.qid
        cid := .ofNat c.cid
        lba := .ofNat c.lba
        nblocks := .ofNat c.nblocks
        control := .ofNat c.control
        dataAddr := .ofNat c.dataAddr
        metadataAddr := .ofNat c.metadataAddr
        userData := .ofNat c.userData }) := by
  rw [h.pack, OpenFlashCommand.bytes]
  simp only [UInt8.toNat_ofNat_of_lt' h.opcode, UInt8.toNat_ofNat_of_lt' h.flags,
    UInt16.toNat_ofNat_of_lt' h.qid, UInt16.toNat_ofNat_of_lt' h.cid,
    UInt64.toNat_ofNat_of_lt' h.lba, UInt32.toNat_ofNat_of_lt' h.nblocks,
    UInt32.toNat_ofNat_of_lt' h.control, UInt64.toNat_ofNat_of_lt' h.dataAddr,
    UInt64.toNat_ofNat_of_lt' h.metadataAddr, UInt64.toNat_ofNat_of_lt' h.userData]
  rfl

end Command

namespace Completion

def fields (c : Completion) : List ℕ :=
  [c.result, c.userData, c.sqHead, c.cid, c.status.code, c.flags, 0, 0, 0, 0, 0]

def pack (c : Completion) : Option (List UInt8) := packFields completionFormat c.fields

def unpack (value : List UInt8) : Except UnpackError Completion :=
  if value.length ≠ completionSize then .error (.size "completion must be 64 bytes")
  else
    match unpackFields completionFormat value with
    | none => .error .struct
    | some fields =>
        match Status.ofNat? (fields.getD 4 0) with
        | none => .error (.status (fields.getD 4 0))
        | some status =>
            .ok
              { result := fields.getD 0 0
                userData := fields.getD 1 0
                sqHead := fields.getD 2 0
                cid := fields.getD 3 0
                status := status
                flags := fields.getD 5 0 }

/-- Every field is within its ABI width; a status always is. -/
structure Fits (c : Completion) : Prop where
  result : c.result < 2 ^ 64
  userData : c.userData < 2 ^ 64
  sqHead : c.sqHead < 2 ^ 16
  cid : c.cid < 2 ^ 16
  flags : c.flags < 2 ^ 16

inductive Field where
  | result
  | userData
  | sqHead
  | cid
  | status
  | flags
  deriving DecidableEq, Repr

def get (c : Completion) : Field → ℕ
  | .result => c.result
  | .userData => c.userData
  | .sqHead => c.sqHead
  | .cid => c.cid
  | .status => c.status.code
  | .flags => c.flags

/-- `struct openflash_completion` of the driver. -/
def driverLayout : List (Option Field × ℕ) :=
  [(some .result, 8), (some .userData, 8), (some .sqHead, 2), (some .cid, 2), (some .status, 2),
    (some .flags, 2), (none, 5 * 8)]

/-- `OpenFlashCompletion` of the device. -/
def deviceLayout : List (Option Field × ℕ) :=
  [(some .result, 8), (some .userData, 8), (some .sqHead, 2), (some .cid, 2), (some .status, 2),
    (some .flags, 2), (none, 5 * 8)]

/-- Entry of the format that holds a field; the other entries are reserved. -/
def Field.index : Field → ℕ
  | .result => 0
  | .userData => 1
  | .sqHead => 2
  | .cid => 3
  | .status => 4
  | .flags => 5

theorem fields_index (c : Completion) (field : Field) :
    c.fields[field.index]? = some (c.get field) := by
  cases field <;> rfl

theorem driverLayout_occupies (field : Field) :
    Occupies driverLayout field completionFormat field.index := by
  cases field <;> exact ⟨_, rfl, rfl, rfl⟩

theorem deviceLayout_occupies (field : Field) :
    Occupies deviceLayout field completionFormat field.index := by
  cases field <;> exact ⟨_, rfl, rfl, rfl⟩

theorem Fits.fieldsFit {c : Completion} (h : c.Fits) : FieldsFit completionFormat c.fields := by
  have hstatus : c.status.code < 2 ^ (8 * 2) := by cases c.status <;> decide
  refine ⟨rfl, ?_⟩
  simp only [completionFormat, fields, List.zip_cons_cons, List.zip_nil_left, List.forall_mem_cons,
    List.not_mem_nil, false_implies, implies_true, and_true, FormatCode.size]
  exact ⟨h.result, h.userData, h.sqHead, h.cid, hstatus, h.flags, by decide, by decide, by decide,
    by decide, by decide⟩

theorem Fits.pack {c : Completion} (h : c.Fits) :
    c.pack = some (fieldBytes completionFormat c.fields) := if_pos h.fieldsFit

theorem unpack_ok {value : List UInt8} {fields : List ℕ} {status : Status}
    (h : unpackFields completionFormat value = some fields)
    (hs : Status.ofNat? (fields.getD 4 0) = some status) :
    unpack value = .ok
      { result := fields.getD 0 0
        userData := fields.getD 1 0
        sqHead := fields.getD 2 0
        cid := fields.getD 3 0
        status := status
        flags := fields.getD 5 0 } := by
  have hlen : value.length = completionSize := length_of_unpackFields h
  rw [unpack, if_neg (not_not_intro hlen), h]
  dsimp only
  rw [hs]

theorem unpack_error {value : List UInt8} {fields : List ℕ}
    (h : unpackFields completionFormat value = some fields)
    (hs : Status.ofNat? (fields.getD 4 0) = none) :
    unpack value = .error (.status (fields.getD 4 0)) := by
  have hlen : value.length = completionSize := length_of_unpackFields h
  rw [unpack, if_neg (not_not_intro hlen), h]
  dsimp only
  rw [hs]

theorem Fits.unpack_fieldBytes {c : Completion} (h : c.Fits) :
    unpack (fieldBytes completionFormat c.fields) = .ok c :=
  unpack_ok (unpackFields_fieldBytes h.fieldsFit) (Status.ofNat?_eq_some_iff.mpr rfl)

theorem fits_of_fieldsFit {c : Completion} {reserved : List ℕ}
    (h : FieldsFit completionFormat
      (c.result :: c.userData :: c.sqHead :: c.cid :: c.status.code :: c.flags :: reserved)) :
    c.Fits := by
  have hfit := h.2
  simp only [completionFormat, List.zip_cons_cons, List.forall_mem_cons, FormatCode.size] at hfit
  obtain ⟨hresult, huser, hhead, hcid, -, hflags, -⟩ := hfit
  exact ⟨hresult, huser, hhead, hcid, hflags⟩

/-- Zeroing bytes 24-63 zeroes the reserved fields. -/
theorem zeroSlice_reserved (c : Completion) (r0 r1 r2 r3 r4 : ℕ) :
    zeroSlice (fieldBytes completionFormat [c.result, c.userData, c.sqHead, c.cid, c.status.code,
        c.flags, r0, r1, r2, r3, r4]) 24 40 = fieldBytes completionFormat c.fields :=
  zeroSlice_fieldBytes [.q, .q, .h, .h, .h, .h] [.q, .q, .q, .q, .q] []
    [c.result, c.userData, c.sqHead, c.cid, c.status.code, c.flags] [r0, r1, r2, r3, r4] [] rfl rfl

/-- 64 bytes unpack unless the status at offset 20 is undefined; packing them again zeroes
the reserved fields. -/
theorem pack_unpack {value : List UInt8} (h : value.length = completionSize) :
    (Status.ofNat? (valueLE (slice value 20 2)) = none ∧ ∃ e, unpack value = .error e) ∨
    (Status.ofNat? (valueLE (slice value 20 2)) ≠ none ∧
      ∃ c, unpack value = .ok c ∧ c.pack = some (zeroSlice value 24 40)) := by
  obtain ⟨result, userData, sqHead, cid, status, flags, r0, r1, r2, r3, r4, hfields⟩ :
      ∃ v0 v1 v2 v3 v4 v5 v6 v7 v8 v9 v10,
      fieldValues completionFormat value = [v0, v1, v2, v3, v4, v5, v6, v7, v8, v9, v10] :=
    ⟨_, _, _, _, _, _, _, _, _, _, _, rfl⟩
  have hunpack : unpackFields completionFormat value = some _ := if_pos h
  have hfit := fieldsFit_fieldValues completionFormat h
  have hbytes := fieldBytes_fieldValues completionFormat h
  rw [hfields] at hunpack hfit hbytes
  have hstatus : valueLE (slice value 20 2) = status := by
    rw [← hbytes]
    exact readMember_fieldBytes hfit (driverLayout_occupies .status) rfl
  rw [hstatus]
  cases hs : Status.ofNat? status with
  | none => exact .inl ⟨rfl, _, unpack_error hunpack hs⟩
  | some known =>
    have hcode := Status.ofNat?_eq_some_iff.mp hs
    subst hcode
    refine .inr ⟨Option.some_ne_none _, _, unpack_ok hunpack hs, ?_⟩
    rw [(fits_of_fieldsFit hfit).pack, ← hbytes]
    exact congrArg some (zeroSlice_reserved _ r0 r1 r2 r3 r4).symm

/-- The packed bytes are those of the record that driver and device exchange. -/
theorem Fits.pack_wire {c : Completion} (h : c.Fits) :
    c.pack = some (OpenFlashCompletion.bytes
      { result := .ofNat c.result
        userData := .ofNat c.userData
        sqHead := .ofNat c.sqHead
        cid := .ofNat c.cid
        status := .ofNat c.status.code
        flags := .ofNat c.flags }) := by
  have hstatus : c.status.code < UInt16.size := by cases c.status <;> decide
  rw [h.pack, OpenFlashCompletion.bytes]
  simp only [UInt64.toNat_ofNat_of_lt' h.result, UInt64.toNat_ofNat_of_lt' h.userData,
    UInt16.toNat_ofNat_of_lt' h.sqHead, UInt16.toNat_ofNat_of_lt' h.cid,
    UInt16.toNat_ofNat_of_lt' hstatus, UInt16.toNat_ofNat_of_lt' h.flags]
  rfl

end Completion

/-- The Python form and both C structs are one binary format: packing is inverted by
unpacking, any 64 bytes survive up to their reserved bytes and an undefined status, and every
struct member reads the field it is named after. -/
theorem pack_unpack_layouts :
    (∀ c : Command, c.Fits → ∃ bytes, c.pack = some bytes ∧ bytes.length = 64 ∧
      Command.unpack bytes = .ok c ∧
      ∀ field, readMember Command.driverLayout field bytes = c.get field ∧
        readMember Command.deviceLayout field bytes = c.get field) ∧
    (∀ bytes : List UInt8, bytes.length = 64 →
      ∃ c, Command.unpack bytes = .ok c ∧
        c.pack = some (zeroSlice (zeroSlice bytes 6 2) 48 16)) ∧
    (∀ c : Completion, c.Fits → ∃ bytes, c.pack = some bytes ∧ bytes.length = 64 ∧
      Completion.unpack bytes = .ok c ∧
      ∀ field, readMember Completion.driverLayout field bytes = c.get field ∧
        readMember Completion.deviceLayout field bytes = c.get field) ∧
    (∀ bytes : List UInt8, bytes.length = 64 →
      ((∃ e, Completion.unpack bytes = .error e) ↔
        ∀ status : Status, status.code ≠ valueLE (slice bytes 20 2)) ∧
      ∀ c, Completion.unpack bytes = .ok c → c.pack = some (zeroSlice bytes 24 40)) := by
  refine ⟨?_, fun bytes h => Command.pack_unpack h, ?_, ?_⟩
  · intro c h
    exact ⟨_, h.pack, length_fieldBytes rfl, h.unpack_fieldBytes, fun field =>
      ⟨readMember_fieldBytes h.fieldsFit (Command.driverLayout_occupies field)
          (c.fields_index field),
        readMember_fieldBytes h.fieldsFit (Command.deviceLayout_occupies field)
          (c.fields_index field)⟩⟩
  · intro c h
    exact ⟨_, h.pack, length_fieldBytes rfl, h.unpack_fieldBytes, fun field =>
      ⟨readMember_fieldBytes h.fieldsFit (Completion.driverLayout_occupies field)
          (c.fields_index field),
        readMember_fieldBytes h.fieldsFit (Completion.deviceLayout_occupies field)
          (c.fields_index field)⟩⟩
  · intro bytes h
    have hnone : Status.ofNat? (valueLE (slice bytes 20 2)) = none ↔
        ∀ status : Status, status.code ≠ valueLE (slice bytes 20 2) := by
      rw [Option.eq_none_iff_forall_ne_some]
      exact forall_congr' fun status => not_congr Status.ofNat?_eq_some_iff
    rw [← hnone]
    rcases Completion.pack_unpack h with ⟨hs, e, he⟩ | ⟨hs, c, hc, hpack⟩
    · refine ⟨⟨fun _ => hs, fun _ => ⟨e, he⟩⟩, ?_⟩
      intro c hc
      rw [he] at hc
      cases hc
    · refine ⟨⟨?_, fun h => absurd h hs⟩, ?_⟩
      · rintro ⟨e, he⟩
        rw [hc] at he
        cases he
      · intro c' hc'
        rw [hc] at hc'
        cases hc'
        exact hpack

/-- A command with every field set, reserved bytes apart. -/
def fullCommand : Command where
  opcode := 0x02
  flags := 0x01
  qid := 0x0302
  cid := 0x0504
  lba := 0x0D0C0B0A09080706
  nblocks := 0x11100F0E
  control := 0x15141312
  dataAddr := 0x1D1C1B1A19181716
  metadataAddr := 0x2524232221201F1E
  userData := 0x2D2C2B2A29282726

theorem fullCommand_layouts : ∃ bytes, fullCommand.pack = some bytes ∧ bytes.length = 64 ∧
    Command.unpack bytes = .ok fullCommand ∧
    ∀ field, readMember Command.driverLayout field bytes = fullCommand.get field ∧
      readMember Command.deviceLayout field bytes = fullCommand.get field :=
  pack_unpack_layouts.1 fullCommand ⟨by decide, by decide, by decide, by decide, by decide,
    by decide, by decide, by decide, by decide, by decide⟩

end OpenFlash.Abi
