import OpenFlash.Qemu.Device

/-! Which bytes of the storage image a command may touch. -/
namespace OpenFlash.Qemu
open Abi Support

namespace Access

/-- The bytes read or written lie between `lo` and `hi`. -/
def Within (lo hi : ℕ) : Access → Prop
  | .load start n => lo ≤ start ∧ start + n ≤ hi
  | .store start n => lo ≤ start ∧ start + n ≤ hi
  | .persist n => lo = 0 ∧ n ≤ hi
  | .subtract _ _ => True

def NoUnderflow : Access → Prop
  | .subtract minuend subtrahend => subtrahend ≤ minuend
  | _ => True

theorem Within.mono {lo hi lo' hi' : ℕ} {e : Access} (h : e.Within lo hi) (hlo : lo' ≤ lo)
    (hhi : hi ≤ hi') : e.Within lo' hi' := by
  cases e with
  | load start n => exact ⟨hlo.trans h.1, h.2.trans hhi⟩
  | store start n => exact ⟨hlo.trans h.1, h.2.trans hhi⟩
  | persist n => exact ⟨by have := h.1; omega, h.2.trans hhi⟩
  | subtract a b => trivial

end Access

/-- Every access of a trace stays in a range and no subtraction wraps. -/
def Confined (lo hi : ℕ) (trace : List Access) : Prop :=
  ∀ e ∈ trace, e.Within lo hi ∧ e.NoUnderflow

theorem Confined.nil (lo hi : ℕ) : Confined lo hi [] := by
  intro e he
  cases he

theorem Confined.cons {lo hi : ℕ} {e : Access} {trace : List Access}
    (h : e.Within lo hi ∧ e.NoUnderflow) (ht : Confined lo hi trace) :
    Confined lo hi (e :: trace) := by
  intro f hf
  rcases List.mem_cons.mp hf with rfl | hf
  · exact h
  · exact ht f hf

theorem Confined.append {lo hi : ℕ} {first second : List Access} (h : Confined lo hi first)
    (h' : Confined lo hi second) : Confined lo hi (first ++ second) := by
  intro e he
  rcases List.mem_append.mp he with he | he
  · exact h e he
  · exact h' e he

theorem Confined.mono {lo hi lo' hi' : ℕ} {trace : List Access} (h : Confined lo hi trace)
    (hlo : lo' ≤ lo) (hhi : hi ≤ hi') : Confined lo' hi' trace :=
  fun e he => ⟨(h e he).1.mono hlo hhi, (h e he).2⟩

/-- What holds of every access to the range between `lo` and `hi`, and of every subtraction
that does not wrap. -/
structure HoldsWithin (lo hi : ℕ) (P : Access → Prop) : Prop where
  load : ∀ start n, lo ≤ start → start + n ≤ hi → P (.load start n)
  store : ∀ start n, lo ≤ start → start + n ≤ hi → P (.store start n)
  subtract : ∀ a b, b ≤ a → P (.subtract a b)

section Transfer
variable {P : Access → Prop} {offset length : UInt64}

theorem move_trace {lo hi : ℕ} (hP : HoldsWithin lo hi P) (write : Bool) (addr : UInt64)
    {start n : ℕ} (hlo : lo ≤ start) (hhi : start + n ≤ hi) (storage : ℕ → UInt8)
    (memory : Memory) : ∀ e ∈ (move write addr start n storage memory).trace, P e := by
  intro e he
  cases write with
  | false =>
    rw [List.mem_singleton.mp he]
    exact hP.load start n hlo hhi
  | true =>
    rw [List.mem_singleton.mp he]
    exact hP.store start n hlo hhi

/-- The loop keeps `transferred ≤ length`, so each segment ends inside the command's range. -/
theorem sglLoop_trace (hP : HoldsWithin offset.toNat (offset.toNat + length.toNat) P)
    (write : Bool) (dma : UInt64) (n : ℕ) :
    ∀ (index transferred : UInt64) (storage : ℕ → UInt8) (memory : Memory),
      transferred ≤ length →
      ∀ e ∈ (sglLoop write dma offset length n index transferred storage memory).trace, P e := by
  induction n with
  | zero =>
    intro index transferred storage memory _
    exact nofun
  | succ n ih =>
    intro index transferred storage memory hle
    rw [sglLoop]
    generalize OpenFlashSglDesc.read memory (dma + index * 16).toNat = desc
    by_cases hzero : desc.addr = 0 ∨ desc.length = 0
    · simp only [hzero, if_true]
      exact nofun
    · by_cases hlong : length - transferred < desc.length.toUInt64
      · simp only [hzero, hlong, if_true, if_false]
        intro e he
        rw [List.mem_singleton.mp he]
        exact hP.subtract _ _ hle
      · have hsub : (length - transferred).toNat = length.toNat - transferred.toNat :=
          UInt64.toNat_sub_of_le _ _ hle
        have hle' : transferred.toNat ≤ length.toNat := hle
        have hfit : desc.length.toNat ≤ length.toNat - transferred.toNat := by
          rw [← hsub, ← UInt32.toNat_toUInt64]
          exact UInt64.le_iff_toNat_le.mp (UInt64.not_lt.mp hlong)
        have hbound := length.toNat_lt
        have hnext : (transferred + desc.length.toUInt64).toNat
            = transferred.toNat + desc.length.toNat := by
          rw [UInt64.toNat_add, UInt32.toNat_toUInt64]
          exact Nat.mod_eq_of_lt (by omega)
        simp only [hzero, hlong, if_false]
        intro e he
        rcases List.mem_cons.mp he with rfl | he
        · exact hP.subtract _ _ hle
        · rcases List.mem_append.mp he with he | he
          · exact move_trace hP write _ (by omega) (by omega) _ _ e he
          · refine ih _ _ _ _ ?_ e he
            rw [UInt64.le_iff_toNat_le, hnext]
            omega

theorem openflashTransfer_trace (hP : HoldsWithin offset.toNat (offset.toNat + length.toNat) P)
    (cmd : OpenFlashCommand) (write : Bool) (storage : ℕ → UInt8) (memory : Memory) :
    ∀ e ∈ (openflashTransfer cmd offset length write storage memory).trace, P e := by
  unfold openflashTransfer
  dsimp only
  split_ifs
  · exact nofun
  · exact move_trace hP _ _ le_rfl le_rfl _ _
  · exact nofun
  · exact sglLoop_trace hP _ _ _ _ _ _ _ UInt64.zero_le

end Transfer

theorem openflashTransfer_contiguous {cmd : OpenFlashCommand} (hsgl : cmd.flags &&& cmdSgl = 0)
    (haddr : cmd.dataAddr ≠ 0) (offset length : UInt64) (write : Bool) (storage : ℕ → UInt8)
    (memory : Memory) :
    openflashTransfer cmd offset length write storage memory
      = move write cmd.dataAddr offset.toNat length.toNat storage memory := by
  rw [openflashTransfer, if_pos hsgl, if_neg haddr]

theorem openflashTransfer_confined (cmd : OpenFlashCommand) (offset length : UInt64)
    (write : Bool) (storage : ℕ → UInt8) (memory : Memory) :
    Confined offset.toNat (offset.toNat + length.toNat)
      (openflashTransfer cmd offset length write storage memory).trace :=
  openflashTransfer_trace
    ⟨fun _ _ hlo hhi => ⟨⟨hlo, hhi⟩, trivial⟩, fun _ _ hlo hhi => ⟨⟨hlo, hhi⟩, trivial⟩,
      fun _ _ hle => ⟨trivial, hle⟩⟩ cmd write storage memory

theorem openflashPersist_trace (fileOk : Bool) (s : OpenFlashState) :
    (openflashPersist fileOk s).2.2
      = if s.backingFile = none then [] else [.persist s.capacity.toNat] := by
  unfold openflashPersist
  cases hb : s.backingFile with
  | none => rfl
  | some path => cases fileOk <;> rfl

/-- The command is a write whose data went in and which then copies the image out. -/
def Persists (cmd : OpenFlashCommand) (offset length : UInt64) (memory : Memory)
    (s : OpenFlashState) : Prop :=
  cmd.opcode = opWrite ∧ cmd.flags &&& cmdFua ≠ 0 ∧ s.backingFile ≠ none ∧
    (openflashTransfer cmd offset length true s.storage memory).ok = true

/-- A write moves bytes of its own range only; a persisting one ends by copying the
whole image. -/
theorem executeWrite_trace (fileOk : Bool) {cmd : OpenFlashCommand} (offset length : UInt64)
    (memory : Memory) (s : OpenFlashState) (hw : cmd.opcode = opWrite) :
    ∃ moved, Confined offset.toNat (offset.toNat + length.toNat) moved ∧
      ((Persists cmd offset length memory s ∧
          (executeWrite fileOk cmd offset length memory s).trace
            = moved ++ [.persist s.capacity.toNat]) ∨
        (¬ Persists cmd offset length memory s ∧
          (executeWrite fileOk cmd offset length memory s).trace = moved)) := by
  refine ⟨_, openflashTransfer_confined cmd offset length true s.storage memory, ?_⟩
  unfold executeWrite Persists
  generalize openflashTransfer cmd offset length true s.storage memory = t
  by_cases hok : t.ok = false
  · simp [hok]
  · by_cases hfua : cmd.flags &&& cmdFua = 0
    · simp [hok, hfua]
    · by_cases hb : s.backingFile = none
      · simp [hok, hfua, hb, openflashPersist_trace]
      · simp [hok, hfua, hb, hw, openflashPersist_trace]

/-- Behind the range check a command touches its own range and may end by persisting. -/
theorem executeRanged_trace (fileOk : Bool) (cmd : OpenFlashCommand) (offset length : UInt64)
    (memory : Memory) (s : OpenFlashState) :
    ∃ moved, Confined offset.toNat (offset.toNat + length.toNat) moved ∧
      ((Persists cmd offset length memory s ∧
          (executeRanged fileOk cmd offset length memory s).trace
            = moved ++ [.persist s.capacity.toNat]) ∨
        (¬ Persists cmd offset length memory s ∧
          (executeRanged fileOk cmd offset length memory s).trace = moved)) := by
  unfold executeRanged
  by_cases hw : cmd.opcode = opWrite
  · have hr : cmd.opcode ≠ opRead := by
      rw [hw]
      decide
    rw [if_neg hr, if_pos hw]
    exact executeWrite_trace fileOk offset length memory s hw
  · have hp : ¬ Persists cmd offset length memory s := fun hp => hw hp.1
    refine ⟨_, ?_, Or.inr ⟨hp, rfl⟩⟩
    split_ifs
    · exact openflashTransfer_confined cmd offset length false s.storage memory
    · exact .cons ⟨⟨le_rfl, le_rfl⟩, trivial⟩ (.nil _ _)
    · exact .nil _ _

/-- The two comparisons in modular arithmetic bound the range in the naturals. -/
theorem add_le_of_checks {capacity offset length : UInt64} (hlow : ¬ capacity < offset)
    (hlong : ¬ capacity - offset < length) : offset.toNat + length.toNat ≤ capacity.toNat := by
  have hle : offset ≤ capacity := UInt64.not_lt.mp hlow
  have hsub := UInt64.toNat_sub_of_le _ _ hle
  have hlen := UInt64.le_iff_toNat_le.mp (UInt64.not_lt.mp hlong)
  have hle' := UInt64.le_iff_toNat_le.mp hle
  omega

/-- No subtraction wraps and no access leaves the image, whatever the command. -/
theorem openflashExecute_confined (fileOk : Bool) (cmd : OpenFlashCommand) (memory : Memory)
    (s : OpenFlashState) :
    Confined 0 s.capacity.toNat (openflashExecute fileOk cmd memory s).trace := by
  have hpersist : Confined 0 s.capacity.toNat [.persist s.capacity.toNat] :=
    .cons ⟨⟨rfl, le_rfl⟩, trivial⟩ (.nil _ _)
  unfold openflashExecute
  dsimp only
  split_ifs with hid hcreate hflush hn hlow hlong
  · exact .nil _ _
  · unfold executeCreateIoq
    split_ifs <;> exact .nil _ _
  · show Confined _ _ (openflashPersist fileOk s).2.2
    rw [openflashPersist_trace]
    split_ifs
    · exact .nil _ _
    · exact hpersist
  · exact .nil _ _
  · exact .nil _ _
  · exact .cons ⟨trivial, UInt64.not_lt.mp hlow⟩ (.nil _ _)
  · have hrange := add_le_of_checks hlow hlong
    obtain ⟨moved, hmoved, htrace⟩ := executeRanged_trace fileOk cmd (cmd.lba * ofBlockSize)
      (cmd.nblocks.toUInt64 * ofBlockSize) memory s
    have hmoved' := hmoved.mono (Nat.zero_le _) hrange
    refine .cons ⟨trivial, UInt64.not_lt.mp hlow⟩ ?_
    rcases htrace with ⟨-, htrace⟩ | ⟨-, htrace⟩
    · rw [htrace]
      exact hmoved'.append hpersist
    · rw [htrace]
      exact hmoved'

theorem ofBlockSize_toNat : ofBlockSize.toNat = 4096 := rfl

/-- The byte offset wraps at LBA `2 ^ 52`. -/
theorem offset_toNat (lba : UInt64) : (lba * ofBlockSize).toNat = lba.toNat % 2 ^ 52 * 4096 := by
  rw [UInt64.toNat_mul, ofBlockSize_toNat]
  omega

theorem length_toNat (nblocks : UInt32) :
    (nblocks.toUInt64 * ofBlockSize).toNat = nblocks.toNat * 4096 := by
  have h := nblocks.toNat_lt
  rw [UInt64.toNat_mul, ofBlockSize_toNat, UInt32.toNat_toUInt64]
  omega

theorem capacity_blocks (s : OpenFlashState) :
    s.capacity.toNat = s.capacity.toNat / 4096 * 4096 := by
  have h := congrArg UInt64.toNat s.capacity_valid.2
  rw [UInt64.toNat_mod, ofBlockSize_toNat] at h
  change s.capacity.toNat % 4096 = 0 at h
  omega

/-- The opcodes behind the range check. -/
def Ranged (cmd : OpenFlashCommand) : Prop :=
  cmd.opcode = opRead ∨ cmd.opcode = opWrite ∨ cmd.opcode = opDiscard

theorem executeRanged_ne_lbaRange (fileOk : Bool) (cmd : OpenFlashCommand)
    (offset length : UInt64) (memory : Memory) (s : OpenFlashState) :
    (executeRanged fileOk cmd offset length memory s).status ≠ .lbaRange := by
  unfold executeRanged executeRead executeWrite executeDiscard
  dsimp only
  split_ifs <;> exact nofun

/-- The range check the device performs is exact for the wrapped LBA, whatever the opcode
behind it. -/
theorem openflashExecute_checked (fileOk : Bool) {cmd : OpenFlashCommand} (memory : Memory)
    (s : OpenFlashState) (hid : cmd.opcode ≠ adminIdentify) (hcreate : cmd.opcode ≠ adminCreateIoq)
    (hflush : cmd.opcode ≠ opFlush) (hn : cmd.nblocks ≠ 0) :
    (s.capacity.toNat / 4096 < cmd.lba.toNat % 2 ^ 52 + cmd.nblocks.toNat ∧
      (openflashExecute fileOk cmd memory s).status = .lbaRange ∧
      (openflashExecute fileOk cmd memory s).result = 0) ∨
    (cmd.lba.toNat % 2 ^ 52 + cmd.nblocks.toNat ≤ s.capacity.toNat / 4096 ∧
      ∃ a b, openflashExecute fileOk cmd memory s =
        { executeRanged fileOk cmd (cmd.lba * ofBlockSize)
            (cmd.nblocks.toUInt64 * ofBlockSize) memory s with
          trace := .subtract a b :: (executeRanged fileOk cmd (cmd.lba * ofBlockSize)
            (cmd.nblocks.toUInt64 * ofBlockSize) memory s).trace }) := by
  have hoffset := offset_toNat cmd.lba
  have hlength := length_toNat cmd.nblocks
  have hcap := capacity_blocks s
  unfold openflashExecute
  simp only [hid, hcreate, hflush, hn, if_false]
  by_cases hlow : s.capacity < cmd.lba * ofBlockSize
  · left
    simp only [hlow, if_true, and_true]
    have := UInt64.lt_iff_toNat_lt.mp hlow
    omega
  · have hle : cmd.lba * ofBlockSize ≤ s.capacity := UInt64.not_lt.mp hlow
    have hsub := UInt64.toNat_sub_of_le _ _ hle
    have hle' := UInt64.le_iff_toNat_le.mp hle
    by_cases hlong : s.capacity - cmd.lba * ofBlockSize < cmd.nblocks.toUInt64 * ofBlockSize
    · left
      simp only [hlow, hlong, if_true, if_false, and_true]
      have := UInt64.lt_iff_toNat_lt.mp hlong
      omega
    · right
      have := add_le_of_checks hlow hlong
      constructor
      · omega
      · simp only [hlow, hlong, if_false]
        exact ⟨_, _, rfl⟩

theorem openflashExecute_eq_flush {cmd : OpenFlashCommand} (hop : cmd.opcode = opFlush)
    (fileOk : Bool) (memory : Memory) (s : OpenFlashState) :
    openflashExecute fileOk cmd memory s = executeFlush fileOk memory s := by
  have hid : cmd.opcode ≠ adminIdentify := by
    rw [hop]
    decide
  have hcreate : cmd.opcode ≠ adminCreateIoq := by
    rw [hop]
    decide
  simp only [openflashExecute, if_neg hid, if_neg hcreate, if_pos hop]

theorem Ranged.ne {cmd : OpenFlashCommand} (h : Ranged cmd) :
    cmd.opcode ≠ adminIdentify ∧ cmd.opcode ≠ adminCreateIoq ∧ cmd.opcode ≠ opFlush := by
  rcases h with h | h | h <;> rw [h] <;> decide

theorem openflashExecute_ranged (fileOk : Bool) {cmd : OpenFlashCommand} (memory : Memory)
    (s : OpenFlashState) (hop : Ranged cmd) (hn : cmd.nblocks ≠ 0) :
    (s.capacity.toNat / 4096 < cmd.lba.toNat % 2 ^ 52 + cmd.nblocks.toNat ∧
      (openflashExecute fileOk cmd memory s).status = .lbaRange) ∨
    (cmd.lba.toNat % 2 ^ 52 + cmd.nblocks.toNat ≤ s.capacity.toNat / 4096 ∧
      ∃ a b, openflashExecute fileOk cmd memory s =
        { executeRanged fileOk cmd (cmd.lba * ofBlockSize)
            (cmd.nblocks.toUInt64 * ofBlockSize) memory s with
          trace := .subtract a b :: (executeRanged fileOk cmd (cmd.lba * ofBlockSize)
            (cmd.nblocks.toUInt64 * ofBlockSize) memory s).trace }) := by
  obtain ⟨hid, hcreate, hflush⟩ := hop.ne
  exact (openflashExecute_checked fileOk memory s hid hcreate hflush hn).imp_left
    fun h => ⟨h.1, h.2.1⟩

theorem status_eq_lbaRange_iff (fileOk : Bool) {cmd : OpenFlashCommand} (memory : Memory)
    (s : OpenFlashState) (hop : Ranged cmd) (hn : cmd.nblocks ≠ 0) :
    (openflashExecute fileOk cmd memory s).status = .lbaRange ↔
      s.capacity.toNat / 4096 < cmd.lba.toNat % 2 ^ 52 + cmd.nblocks.toNat := by
  rcases openflashExecute_ranged fileOk memory s hop hn with ⟨hout, hstatus⟩ | ⟨hin, a, b, heq⟩
  · exact ⟨fun _ => hout, fun _ => hstatus⟩
  · rw [heq]
    constructor
    · intro h
      exact absurd h (executeRanged_ne_lbaRange _ _ _ _ _ _)
    · intro h
      omega

/-- The range law for the accesses that `counted` selects. -/
def RangeLaw (counted : Access → Prop) (fileOk : Bool) (cmd : OpenFlashCommand)
    (memory : Memory) (s : OpenFlashState) : Prop :=
  ((openflashExecute fileOk cmd memory s).status = .lbaRange ↔
    s.capacity.toNat / 4096 < cmd.lba.toNat + cmd.nblocks.toNat) ∧
  (cmd.lba.toNat + cmd.nblocks.toNat ≤ s.capacity.toNat / 4096 →
    ∀ e ∈ (openflashExecute fileOk cmd memory s).trace, counted e →
      e.Within (cmd.lba.toNat * 4096) ((cmd.lba.toNat + cmd.nblocks.toNat) * 4096))

/-- Not the copy of the image to the backing file. -/
def Access.Transferred (e : Access) : Prop := ∀ n, e ≠ .persist n

/-- Every block count of a capacity stays below the LBA at which offsets wrap. -/
theorem capacity_blocks_lt (s : OpenFlashState) : s.capacity.toNat / 4096 < 2 ^ 52 := by
  have := s.capacity.toNat_lt
  omega

/-- The accesses of a command in range, and those among them that leave the range. -/
theorem openflashExecute_within (fileOk : Bool) {cmd : OpenFlashCommand} (memory : Memory)
    (s : OpenFlashState) (hop : Ranged cmd) (hn : cmd.nblocks ≠ 0)
    (hin : cmd.lba.toNat + cmd.nblocks.toNat ≤ s.capacity.toNat / 4096) :
    ∀ e ∈ (openflashExecute fileOk cmd memory s).trace,
      e.Within (cmd.lba.toNat * 4096) ((cmd.lba.toNat + cmd.nblocks.toNat) * 4096) ∨
      e = .persist s.capacity.toNat ∧ Persists cmd (cmd.lba * ofBlockSize)
        (cmd.nblocks.toUInt64 * ofBlockSize) memory s := by
  have hlt := capacity_blocks_lt s
  have hmod : cmd.lba.toNat % 2 ^ 52 = cmd.lba.toNat := Nat.mod_eq_of_lt (by omega)
  have hoffset := offset_toNat cmd.lba
  have hlength := length_toNat cmd.nblocks
  rcases openflashExecute_ranged fileOk memory s hop hn with ⟨hout, -⟩ | ⟨-, a, b, heq⟩
  · omega
  · obtain ⟨moved, hmoved, htrace⟩ := executeRanged_trace fileOk cmd (cmd.lba * ofBlockSize)
      (cmd.nblocks.toUInt64 * ofBlockSize) memory s
    have hwithin : ∀ e ∈ moved,
        e.Within (cmd.lba.toNat * 4096) ((cmd.lba.toNat + cmd.nblocks.toNat) * 4096) :=
      fun e he => (hmoved e he).1.mono (by omega) (by omega)
    intro e he
    rw [heq] at he
    rcases List.mem_cons.mp he with rfl | he
    · exact Or.inl trivial
    · rcases htrace with ⟨hp, htrace⟩ | ⟨-, htrace⟩
      · rw [htrace] at he
        rcases List.mem_append.mp he with he | he
        · exact Or.inl (hwithin e he)
        · exact Or.inr ⟨List.mem_singleton.mp he, hp⟩
      · rw [htrace] at he
        exact Or.inl (hwithin e he)

theorem persist_mem_trace (fileOk : Bool) {cmd : OpenFlashCommand} (memory : Memory)
    (s : OpenFlashState) (hop : Ranged cmd) (hn : cmd.nblocks ≠ 0)
    (hin : cmd.lba.toNat + cmd.nblocks.toNat ≤ s.capacity.toNat / 4096)
    (hp : Persists cmd (cmd.lba * ofBlockSize) (cmd.nblocks.toUInt64 * ofBlockSize) memory s) :
    .persist s.capacity.toNat ∈ (openflashExecute fileOk cmd memory s).trace := by
  have hle := Nat.mod_le cmd.lba.toNat (2 ^ 52)
  rcases openflashExecute_ranged fileOk memory s hop hn with ⟨hout, -⟩ | ⟨-, a, b, heq⟩
  · omega
  · obtain ⟨moved, -, htrace⟩ := executeRanged_trace fileOk cmd (cmd.lba * ofBlockSize)
      (cmd.nblocks.toUInt64 * ofBlockSize) memory s
    rcases htrace with ⟨-, htrace⟩ | ⟨hnp, -⟩
    · rw [heq, htrace]
      simp
    · exact absurd hp hnp

/-- For every LBA, every non-zero count and every capacity, the law holds exactly when the
offset does not wrap or the wrapped range is rejected as well. Counting the image copy
of a persisting write too, that write must also cover the whole device. -/
theorem rangeLaw_iff (fileOk : Bool) (cmd : OpenFlashCommand) (memory : Memory)
    (s : OpenFlashState) (hop : Ranged cmd) (hn : cmd.nblocks ≠ 0) :
    (RangeLaw Access.Transferred fileOk cmd memory s ↔
      cmd.lba.toNat < 2 ^ 52 ∨
        s.capacity.toNat / 4096 < cmd.lba.toNat % 2 ^ 52 + cmd.nblocks.toNat) ∧
    (RangeLaw (fun _ => True) fileOk cmd memory s ↔
      (cmd.lba.toNat < 2 ^ 52 ∨
        s.capacity.toNat / 4096 < cmd.lba.toNat % 2 ^ 52 + cmd.nblocks.toNat) ∧
      (cmd.lba.toNat + cmd.nblocks.toNat ≤ s.capacity.toNat / 4096 →
        Persists cmd (cmd.lba * ofBlockSize) (cmd.nblocks.toUInt64 * ofBlockSize) memory s →
        cmd.lba.toNat = 0 ∧ cmd.nblocks.toNat = s.capacity.toNat / 4096)) := by
  have hlt := capacity_blocks_lt s
  have hcap := capacity_blocks s
  have hstatus : ((openflashExecute fileOk cmd memory s).status = .lbaRange ↔
      s.capacity.toNat / 4096 < cmd.lba.toNat + cmd.nblocks.toNat) ↔
      (cmd.lba.toNat < 2 ^ 52 ∨
        s.capacity.toNat / 4096 < cmd.lba.toNat % 2 ^ 52 + cmd.nblocks.toNat) := by
    rw [status_eq_lbaRange_iff fileOk memory s hop hn]
    by_cases hwrap : cmd.lba.toNat < 2 ^ 52
    · rw [Nat.mod_eq_of_lt hwrap]
      exact ⟨fun _ => Or.inl hwrap, fun _ => Iff.rfl⟩
    · constructor
      · intro h
        exact Or.inr (h.mpr (by omega))
      · intro h
        exact ⟨fun _ => by omega, fun _ => h.resolve_left hwrap⟩
  constructor
  · refine ⟨fun h => hstatus.mp h.1, fun h => ⟨hstatus.mpr h, fun hin e he htr => ?_⟩⟩
    rcases openflashExecute_within fileOk memory s hop hn hin e he with hw | ⟨rfl, -⟩
    · exact hw
    · exact absurd rfl (htr _)
  · constructor
    · intro h
      refine ⟨hstatus.mp h.1, fun hin hp => ?_⟩
      have hw := h.2 hin _ (persist_mem_trace fileOk memory s hop hn hin hp) trivial
      have hw1 : cmd.lba.toNat * 4096 = 0 := hw.1
      have hw2 : s.capacity.toNat ≤ (cmd.lba.toNat + cmd.nblocks.toNat) * 4096 := hw.2
      omega
    · rintro ⟨hwrap, hwhole⟩
      refine ⟨hstatus.mpr hwrap, fun hin e he _ => ?_⟩
      rcases openflashExecute_within fileOk memory s hop hn hin e he with hw | ⟨rfl, hp⟩
      · exact hw
      · obtain ⟨hlba, hall⟩ := hwhole hin hp
        refine ⟨by omega, ?_⟩
        omega

/-- A device of one block, all bytes one. -/
def oneBlock : OpenFlashState := realizedOn 4096 none none (fun _ => 1) ofBlockSize_valid

def discardAt (lba : UInt64) : OpenFlashCommand :=
  { opcode := opDiscard, lba := lba, nblocks := 1 }

theorem discardAt_zero_rangeLaw :
    Ranged (discardAt 0) ∧ (discardAt 0).nblocks ≠ 0 ∧
      RangeLaw Access.Transferred true (discardAt 0) (fun _ => 0) oneBlock :=
  have hop : Ranged (discardAt 0) := Or.inr (Or.inr rfl)
  have hn : (discardAt 0).nblocks ≠ 0 := by decide
  ⟨hop, hn, (rangeLaw_iff true (discardAt 0) (fun _ => 0) oneBlock hop hn).1.mpr
    (Or.inl (by decide))⟩

/-- A discard far outside the device succeeds and clears its first block. -/
theorem discardAt_wrapped :
    ¬ RangeLaw Access.Transferred true (discardAt (2 ^ 52)) (fun _ => 0) oneBlock ∧
      (openflashExecute true (discardAt (2 ^ 52)) (fun _ => 0) oneBlock).status = .success ∧
      (openflashExecute true (discardAt (2 ^ 52)) (fun _ => 0) oneBlock).state.storage 0 = 0 := by
  refine ⟨fun h => ?_, by decide, by decide⟩
  exact absurd (h.1.mpr (by decide)) (by decide)

end OpenFlash.Qemu
