import OpenFlash.Qemu.Descriptors

/-! Commands that the device rejects. Every check but those of the segment loop stands in
front of the first copy; the loop checks an entry only after it has copied the segments in
front of it. -/
namespace OpenFlash.Qemu
open Abi Support

/-- The access copies bytes into or out of the storage. -/
def Access.MovesData : Access → Prop
  | .load _ _ => True
  | .store _ _ => True
  | .persist _ => False
  | .subtract _ _ => False

/-- A transfer that has copied nothing. -/
structure Transfer.Untouched (t : Transfer) (storage : ℕ → UInt8) (memory : Memory) : Prop where
  device : t.storage = storage
  guest : t.memory = memory
  still : ∀ e ∈ t.trace, ¬ e.MovesData

/-- A command that has changed neither the device nor guest memory and copied nothing. -/
structure Outcome.NoEffect (r : Outcome) (memory : Memory) (s : OpenFlashState) : Prop where
  device : r.state = s
  guest : r.memory = memory
  still : ∀ e ∈ r.trace, ¬ e.MovesData

/-- The statuses that tell the host that its command is malformed. -/
def Rejected (status : Status) : Prop :=
  status = .invalidOpcode ∨ status = .invalidField ∨ status = .lbaRange

instance (status : Status) : Decidable (Rejected status) :=
  inferInstanceAs (Decidable (_ ∨ _ ∨ _))

/-- A read or write of at least one block, all of them on the device. -/
def TransfersInRange (cmd : OpenFlashCommand) (s : OpenFlashState) : Prop :=
  (cmd.opcode = opRead ∨ cmd.opcode = opWrite) ∧ cmd.nblocks ≠ 0 ∧
    cmd.lba.toNat % 2 ^ 52 + cmd.nblocks.toNat ≤ s.capacity.toNat / 4096

/-- The loop copies this entry when `k` bytes are left. -/
def Copied (desc : OpenFlashSglDesc) (k : ℕ) : Prop :=
  desc.addr ≠ 0 ∧ desc.length ≠ 0 ∧ desc.length.toNat ≤ k

/-- A table that starts with an entry to copy and does not describe the `k` bytes of the
transfer. -/
def BreaksLate (cmd : OpenFlashCommand) (write : Bool) (offset : UInt64) (k : ℕ)
    (storage : ℕ → UInt8) (memory : Memory) : Prop :=
  cmd.flags &&& cmdSgl ≠ 0 ∧ SglHeader cmd ∧
    Copied (OpenFlashSglDesc.read memory cmd.dataAddr.toNat) k ∧
    ¬ Describes (fetchedEntries write cmd.dataAddr offset (sglCount cmd) 0 0 storage memory) k

section
variable {dma offset length : UInt64}

theorem move_movesData (write : Bool) (addr : UInt64) (start n : ℕ) (storage : ℕ → UInt8)
    (memory : Memory) : ∃ e ∈ (move write addr start n storage memory).trace, e.MovesData := by
  cases write <;> simp [move, Access.MovesData]

theorem sglLoop_movesData {write : Bool} (n : ℕ) {index transferred : UInt64}
    {storage : ℕ → UInt8} {memory : Memory} (hle : transferred ≤ length)
    (h : Copied (OpenFlashSglDesc.read memory (dma + index * 16).toNat)
      (length.toNat - transferred.toNat)) :
    ∃ e ∈ (sglLoop write dma offset length (n + 1) index transferred storage memory).trace,
      e.MovesData := by
  obtain ⟨haddr, hlen, hfit⟩ := h
  rw [← UInt32.toNat_toUInt64, ← UInt64.toNat_sub_of_le _ _ hle, ← UInt64.le_iff_toNat_le,
    ← UInt64.not_lt] at hfit
  simp only [sglLoop, haddr, hlen, hfit, or_self, if_false, List.mem_cons, List.mem_append]
  obtain ⟨e, he, hmoves⟩ := move_movesData write
    (OpenFlashSglDesc.read memory (dma + index * 16).toNat).addr
    (offset.toNat + transferred.toNat)
    (OpenFlashSglDesc.read memory (dma + index * 16).toNat).length.toNat storage memory
  exact ⟨e, Or.inr (Or.inl he), hmoves⟩

theorem sglLoop_untouched {write : Bool} (n : ℕ) {index transferred : UInt64}
    {storage : ℕ → UInt8} {memory : Memory} (hle : transferred ≤ length)
    (h : ¬ Copied (OpenFlashSglDesc.read memory (dma + index * 16).toNat)
      (length.toNat - transferred.toNat)) :
    (sglLoop write dma offset length (n + 1) index transferred storage memory).Untouched
      storage memory := by
  rw [Copied, ← UInt32.toNat_toUInt64, ← UInt64.toNat_sub_of_le _ _ hle,
    ← UInt64.le_iff_toNat_le, ← UInt64.not_lt] at h
  simp only [sglLoop]
  generalize OpenFlashSglDesc.read memory (dma + index * 16).toNat = desc at h
  by_cases hzero : desc.addr = 0 ∨ desc.length = 0
  · rw [if_pos hzero]
    constructor <;> simp
  · have hlong : length - transferred < desc.length.toUInt64 := by
      by_contra hlong
      rw [not_or] at hzero
      exact h ⟨hzero.1, hzero.2, hlong⟩
    rw [if_neg hzero, if_pos hlong]
    constructor <;> simp [Access.MovesData]

end

/-- A transfer that enters the loop has copied nothing exactly when it stops at the first
entry. -/
theorem sglTransfer_untouched_iff {cmd : OpenFlashCommand} (hsgl : cmd.flags &&& cmdSgl ≠ 0)
    (hheader : SglHeader cmd) (offset length : UInt64) (write : Bool) (storage : ℕ → UInt8)
    (memory : Memory) :
    (openflashTransfer cmd offset length write storage memory).Untouched storage memory ↔
      ¬ Copied (OpenFlashSglDesc.read memory cmd.dataAddr.toNat) length.toNat := by
  have hle : (0 : UInt64) ≤ length := UInt64.le_iff_toNat_le.mpr (Nat.zero_le _)
  have hfirst : cmd.dataAddr = cmd.dataAddr + 0 * 16 := by simp
  obtain ⟨n, hn⟩ := Nat.exists_eq_add_of_le' hheader.1
  rw [openflashTransfer_eq_sglLoop hsgl hheader, hn]
  constructor
  · intro huntouched hcopied
    rw [hfirst] at hcopied
    obtain ⟨e, he, hmoves⟩ := sglLoop_movesData n hle hcopied
    exact huntouched.still e he hmoves
  · intro hcopied
    rw [hfirst] at hcopied
    exact sglLoop_untouched n hle hcopied

/-- A transfer that fails has copied nothing, except when its table breaks late. -/
theorem openflashTransfer_untouched_iff (cmd : OpenFlashCommand) (offset length : UInt64)
    (write : Bool) (storage : ℕ → UInt8) (memory : Memory) :
    ((openflashTransfer cmd offset length write storage memory).ok = false →
      (openflashTransfer cmd offset length write storage memory).Untouched storage memory) ↔
      ¬ BreaksLate cmd write offset length.toNat storage memory := by
  by_cases hsgl : cmd.flags &&& cmdSgl = 0
  · have hlate : ¬ BreaksLate cmd write offset length.toNat storage memory := fun h => h.1 hsgl
    simp only [hlate, not_false_eq_true, iff_true]
    by_cases haddr : cmd.dataAddr = 0
    · rw [openflashTransfer, if_pos hsgl, if_pos haddr]
      intro _
      constructor <;> simp
    · rw [openflashTransfer_contiguous hsgl haddr]
      cases write <;> simp [move]
  by_cases hheader : SglHeader cmd
  · rw [sglTransfer_untouched_iff hsgl hheader, Bool.eq_false_iff, ne_eq,
      openflashTransfer_ok_iff hsgl]
    simp only [BreaksLate, ne_eq, hsgl, hheader, not_false_eq_true, true_and]
    tauto
  · have hlate : ¬ BreaksLate cmd write offset length.toNat storage memory :=
      fun h => hheader h.2.1
    simp only [hlate, not_false_eq_true, iff_true]
    rw [openflashTransfer_of_not_header hsgl hheader]
    intro _
    constructor <;> simp

section
variable {cmd : OpenFlashCommand} {memory : Memory} {s : OpenFlashState}

/-- An outcome that rejects exactly a failed transfer and keeps what the transfer leaves. -/
structure ReportsTransfer (t : Transfer) (s : OpenFlashState) (r : Outcome) : Prop where
  rejected : Rejected r.status ↔ t.ok = false
  state : t.ok = false → r.state = { s with storage := t.storage }
  memory : t.ok = false → r.memory = t.memory
  moves : t.ok = false → ∀ e, e.MovesData → (e ∈ r.trace ↔ e ∈ t.trace)

theorem ReportsTransfer.noEffect_iff {t : Transfer} {r : Outcome} (h : ReportsTransfer t s r) :
    (Rejected r.status → r.NoEffect memory s) ↔ (t.ok = false → t.Untouched s.storage memory) := by
  rw [h.rejected]
  apply forall_congr'
  intro hfailed
  have hmoves := h.moves hfailed
  constructor
  · intro hr
    constructor
    · rw [← hr.device, h.state hfailed]
    · rw [← hr.guest, h.memory hfailed]
    · exact fun e he hdata => hr.still e ((hmoves e hdata).mpr he) hdata
  · intro ht
    constructor
    · rw [h.state hfailed, ht.device]
    · rw [h.memory hfailed, ht.guest]
    · exact fun e he hdata => ht.still e ((hmoves e hdata).mp he) hdata

theorem executeRead_reports (cmd : OpenFlashCommand) (offset length : UInt64) (memory : Memory)
    (s : OpenFlashState) :
    ReportsTransfer (openflashTransfer cmd offset length false s.storage memory) s
      (executeRead cmd offset length memory s) := by
  simp only [executeRead]
  generalize openflashTransfer cmd offset length false s.storage memory = t
  constructor
  · cases t.ok <;> simp [Rejected]
  · exact fun _ => rfl
  · exact fun _ => rfl
  · exact fun _ e _ => Iff.rfl

theorem executeWrite_reports (fileOk : Bool) (cmd : OpenFlashCommand) (offset length : UInt64)
    (memory : Memory) (s : OpenFlashState) :
    ReportsTransfer (openflashTransfer cmd offset length true s.storage memory) s
      (executeWrite fileOk cmd offset length memory s) := by
  simp only [executeWrite]
  generalize openflashTransfer cmd offset length true s.storage memory = t
  by_cases hok : t.ok = false
  · rw [if_pos hok]
    constructor
    · simp [Rejected, hok]
    · exact fun _ => rfl
    · exact fun _ => rfl
    · exact fun _ e _ => Iff.rfl
  · rw [if_neg hok]
    constructor
    · simp only [hok]
      split_ifs <;> simp [Rejected]
    · exact fun h => absurd h hok
    · exact fun h => absurd h hok
    · exact fun h => absurd h hok

theorem ReportsTransfer.subtract {t : Transfer} {r : Outcome} (h : ReportsTransfer t s r)
    (a b : UInt64) : ReportsTransfer t s { r with trace := .subtract a b :: r.trace } := by
  refine ⟨h.rejected, h.state, h.memory, fun hfailed e he => ?_⟩
  rw [← h.moves hfailed e he, List.mem_cons, or_iff_right]
  rintro rfl
  exact he

/-- Behind the range check, a read or write reports its transfer. -/
theorem openflashExecute_reports (fileOk : Bool) (memory : Memory) (h : TransfersInRange cmd s) :
    ReportsTransfer (openflashTransfer cmd (cmd.lba * ofBlockSize)
      (cmd.nblocks.toUInt64 * ofBlockSize) (cmd.opcode == opWrite) s.storage memory) s
      (openflashExecute fileOk cmd memory s) := by
  obtain ⟨hop, hn, hin⟩ := h
  have hranged : Ranged cmd := hop.imp_right Or.inl
  rcases openflashExecute_ranged fileOk memory s hranged hn with ⟨hout, -⟩ | ⟨-, a, b, heq⟩
  · omega
  rw [heq]
  apply ReportsTransfer.subtract
  rcases hop with hop | hop
  · rw [executeRanged, if_pos hop, hop]
    exact executeRead_reports cmd _ _ memory s
  · have hread : cmd.opcode ≠ opRead := by
      rw [hop]
      decide
    rw [executeRanged, if_neg hread, if_pos hop, hop]
    exact executeWrite_reports fileOk cmd _ _ memory s

theorem executeCreateIoq_noEffect (h : Rejected (executeCreateIoq cmd memory s).status) :
    (executeCreateIoq cmd memory s).NoEffect memory s := by
  unfold executeCreateIoq at h ⊢
  by_cases haccepted : createIoqAccepted cmd
  · simp [haccepted, Rejected] at h
  · rw [if_neg haccepted]
    constructor <;> simp

/-- Without a transfer, a rejected command has met one of the checks only. -/
theorem noEffect_of_not_transfersInRange (fileOk : Bool) (h : ¬ TransfersInRange cmd s)
    (hrejected : Rejected (openflashExecute fileOk cmd memory s).status) :
    (openflashExecute fileOk cmd memory s).NoEffect memory s := by
  unfold openflashExecute at hrejected ⊢
  dsimp only at hrejected ⊢
  by_cases hid : cmd.opcode = adminIdentify
  · simp [hid, Rejected] at hrejected
  by_cases hcreate : cmd.opcode = adminCreateIoq
  · rw [if_neg hid, if_pos hcreate] at hrejected ⊢
    exact executeCreateIoq_noEffect hrejected
  by_cases hflush : cmd.opcode = opFlush
  · rw [if_neg hid, if_neg hcreate, if_pos hflush, executeFlush] at hrejected
    dsimp only at hrejected
    split_ifs at hrejected <;> simp [Rejected] at hrejected
  by_cases hn : cmd.nblocks = 0
  · simp only [hid, hcreate, hflush, hn, if_true, if_false]
    constructor <;> simp
  by_cases hlow : s.capacity < cmd.lba * ofBlockSize
  · simp only [hid, hcreate, hflush, hn, hlow, if_true, if_false]
    constructor <;> simp
  by_cases hlong : s.capacity - cmd.lba * ofBlockSize < cmd.nblocks.toUInt64 * ofBlockSize
  · simp only [hid, hcreate, hflush, hn, hlow, hlong, if_true, if_false]
    constructor <;> simp [Access.MovesData]
  have hin : cmd.lba.toNat % 2 ^ 52 + cmd.nblocks.toNat ≤ s.capacity.toNat / 4096 := by
    have hsum := add_le_of_checks hlow hlong
    rw [offset_toNat, length_toNat] at hsum
    omega
  have hop : ¬ (cmd.opcode = opRead ∨ cmd.opcode = opWrite) := fun hop => h ⟨hop, hn, hin⟩
  rw [not_or] at hop
  simp only [hid, hcreate, hflush, hn, hlow, hlong, hop.1, hop.2, if_false, executeRanged]
    at hrejected ⊢
  by_cases hdiscard : cmd.opcode = opDiscard
  · simp [hdiscard, executeDiscard, Rejected] at hrejected
  · rw [if_neg hdiscard]
    constructor <;> simp [Access.MovesData]

end

/-- A rejected command has had no effect, except for an in-range read or write through a table
that breaks late. -/
theorem rejected_noEffect_iff (fileOk : Bool) (cmd : OpenFlashCommand) (memory : Memory)
    (s : OpenFlashState) :
    (Rejected (openflashExecute fileOk cmd memory s).status →
      (openflashExecute fileOk cmd memory s).NoEffect memory s) ↔
      ¬ (TransfersInRange cmd s ∧ BreaksLate cmd (cmd.opcode == opWrite) (cmd.lba * ofBlockSize)
        (cmd.nblocks.toNat * 4096) s.storage memory) := by
  by_cases h : TransfersInRange cmd s
  · rw [(openflashExecute_reports fileOk memory h).noEffect_iff, openflashTransfer_untouched_iff,
      length_toNat]
    simp only [h, true_and]
  · simp only [h, false_and, not_false_eq_true, iff_true]
    exact noEffect_of_not_transfersInRange fileOk h

/-- The second entry of the table is empty: the first half of the block is overwritten and the
command fails. -/
theorem emptySecondEntry_not_noEffect :
    let memory := tableMemory [⟨0x2000, 2048⟩, ⟨0x3000, 0⟩]
    let r := openflashExecute true (twoSegments opWrite) memory oneBlock
    r.status = .invalidField ∧ r.state.storage 0 ≠ oneBlock.storage 0 ∧
      ¬ (Rejected r.status → r.NoEffect memory oneBlock) := by
  intro memory r
  have hstatus : r.status = .invalidField := by decide
  have hchanged : r.state.storage 0 ≠ oneBlock.storage 0 := by decide
  refine ⟨hstatus, hchanged, fun h => hchanged ?_⟩
  rw [(h (Or.inr (Or.inl hstatus))).device]

end OpenFlash.Qemu
