import OpenFlash.Qemu.Refinement

/-! The verdicts of the two executors. Each of them checks opcode, block count and range in
an order of its own, and the device may also fail to write its backing file. -/
namespace OpenFlash.Qemu
open Abi Support Reference

theorem ofNat?_opcode (opcode : UInt8) :
    Opcode.ofNat? opcode.toNat =
      if opcode = adminIdentify then some .identify
      else if opcode = opFlush then some .flush
      else if opcode = opRead then some .read
      else if opcode = opWrite then some .write
      else if opcode = opDiscard then some .discard
      else none := by
  have hne : ∀ known : UInt8, opcode ≠ known → opcode.toNat ≠ known.toNat :=
    fun known h h' => h (UInt8.toNat_inj.mp h')
  split_ifs with h1 h2 h3 h4 h5
  · rw [h1]
    rfl
  · rw [h2]
    rfl
  · rw [h3]
    rfl
  · rw [h4]
    rfl
  · rw [h5]
    rfl
  · have hidentify : opcode.toNat ≠ 0x80 := hne _ h1
    have hflush : opcode.toNat ≠ 0x03 := hne _ h2
    have hread : opcode.toNat ≠ 0x01 := hne _ h3
    have hwrite : opcode.toNat ≠ 0x02 := hne _ h4
    have hdiscard : opcode.toNat ≠ 0x04 := hne _ h5
    unfold Opcode.ofNat?
    split <;> first | rfl | contradiction

section
variable {cmd : OpenFlashCommand} {s : OpenFlashState} {d : ReferenceDevice} {dma : Dma}
  {buffer : List UInt8}

/-- The command names at least one block and only blocks of the device. -/
def InRange (cmd : OpenFlashCommand) (s : OpenFlashState) : Prop :=
  cmd.nblocks ≠ 0 ∧ cmd.lba.toNat + cmd.nblocks.toNat ≤ s.capacity.toNat / 4096

/-- The command makes the device write its image to the backing file. -/
def WritesImage (cmd : OpenFlashCommand) (s : OpenFlashState) : Prop :=
  cmd.opcode = opFlush ∨ (cmd.opcode = opWrite ∧ cmd.flags &&& cmdFua ≠ 0 ∧ InRange cmd s)

/-- The backing file, if one is configured, takes the image. -/
def ImageKept (fileOk : Bool) (s : OpenFlashState) : Prop :=
  fileOk = true ∨ s.backingFile = none

instance (fileOk : Bool) (s : OpenFlashState) : Decidable (ImageKept fileOk s) :=
  inferInstanceAs (Decidable (_ ∨ _))

theorem openflashPersist_fst (fileOk : Bool) (s : OpenFlashState) :
    (openflashPersist fileOk s).1 = true ↔ ImageKept fileOk s := by
  unfold openflashPersist ImageKept
  cases hb : s.backingFile with
  | none => simp
  | some path => cases fileOk <;> simp

/-- What the host learns from a completion. -/
def Outcome.verdict (r : Outcome) : Status × ℕ := (r.status, r.result.toNat)

theorem verdict_identify (fileOk : Bool) (memory : Memory) (s : OpenFlashState)
    (hop : cmd.opcode = adminIdentify) :
    (openflashExecute fileOk cmd memory s).verdict = (.success, s.capacity.toNat / 4096) := by
  rw [openflashExecute, if_pos hop, Outcome.verdict, UInt64.toNat_div, ofBlockSize_toNat]

theorem verdict_flush (fileOk : Bool) (memory : Memory) (s : OpenFlashState)
    (hop : cmd.opcode = opFlush) :
    (openflashExecute fileOk cmd memory s).verdict
      = (if ImageKept fileOk s then .success else .internal, 0) := by
  simp only [openflashExecute_eq_flush hop, executeFlush, Outcome.verdict, openflashPersist_fst,
    UInt64.toNat_zero]

/-- The opcode switch, on a contiguous buffer. -/
theorem verdict_executeRanged (fileOk : Bool) (offset length : UInt64) (memory : Memory)
    (s : OpenFlashState) (hsgl : cmd.flags &&& cmdSgl = 0) (haddr : cmd.dataAddr ≠ 0)
    (hop : Ranged cmd) :
    (executeRanged fileOk cmd offset length memory s).verdict
      = if cmd.opcode = opWrite ∧ cmd.flags &&& cmdFua ≠ 0 ∧ ¬ ImageKept fileOk s then
          (.internal, 0)
        else (.success, cmd.nblocks.toNat) := by
  have hkept : ∀ storage : ℕ → UInt8,
      (openflashPersist fileOk { s with storage := storage }).1 = true ↔ ImageKept fileOk s :=
    fun storage => openflashPersist_fst fileOk _
  rcases hop with hop | hop | hop
  · have hwrite : cmd.opcode ≠ opWrite := by
      rw [hop]
      decide
    rw [executeRanged, if_pos hop, if_neg (fun h => hwrite h.1)]
    simp only [executeRead, openflashTransfer_contiguous hsgl haddr, move, Outcome.verdict,
      Bool.false_eq_true, if_false, if_true, UInt32.toNat_toUInt64]
  · have hread : cmd.opcode ≠ opRead := by
      rw [hop]
      decide
    rw [executeRanged, if_neg hread, if_pos hop]
    simp only [executeWrite, openflashTransfer_contiguous hsgl haddr, move, if_true,
      Bool.true_eq_false, if_false]
    by_cases hfua : cmd.flags &&& cmdFua = 0
    · simp only [hfua, if_true, ne_eq, not_true_eq_false, false_and, and_false, if_false,
        Outcome.verdict, UInt32.toNat_toUInt64]
    · by_cases hk : ImageKept fileOk s
      · simp only [hfua, hkept, hk, Outcome.verdict, not_true_eq_false, and_false, if_true,
          if_false, UInt32.toNat_toUInt64]
      · simp only [hfua, hkept, hk, hop, Outcome.verdict, ne_eq, not_false_eq_true, and_self,
          if_true, if_false, UInt64.toNat_zero]
  · have hread : cmd.opcode ≠ opRead := by
      rw [hop]
      decide
    have hwrite : cmd.opcode ≠ opWrite := by
      rw [hop]
      decide
    rw [executeRanged, if_neg hread, if_neg hwrite, if_pos hop, if_neg (fun h => hwrite h.1)]
    simp only [executeDiscard, Outcome.verdict, UInt32.toNat_toUInt64]

theorem verdict_executeRanged_unknown (fileOk : Bool) (offset length : UInt64) (memory : Memory)
    (s : OpenFlashState) (hop : ¬ Ranged cmd) :
    (executeRanged fileOk cmd offset length memory s).verdict = (.invalidOpcode, 0) := by
  rw [executeRanged, if_neg fun h => hop (Or.inl h), if_neg fun h => hop (Or.inr (Or.inl h)),
    if_neg fun h => hop (Or.inr (Or.inr h)), Outcome.verdict, UInt64.toNat_zero]

/-- The device reports a bad block count or range before it looks at the opcode. -/
theorem verdict_checked (fileOk : Bool) (memory : Memory) (s : OpenFlashState)
    (hid : cmd.opcode ≠ adminIdentify) (hcreate : cmd.opcode ≠ adminCreateIoq)
    (hflush : cmd.opcode ≠ opFlush) (hlba : cmd.lba.toNat < 2 ^ 52) :
    (openflashExecute fileOk cmd memory s).verdict
      = if cmd.nblocks = 0 then (.invalidField, 0)
        else if s.capacity.toNat / 4096 < cmd.lba.toNat + cmd.nblocks.toNat then (.lbaRange, 0)
        else (executeRanged fileOk cmd (cmd.lba * ofBlockSize)
          (cmd.nblocks.toUInt64 * ofBlockSize) memory s).verdict := by
  by_cases hn : cmd.nblocks = 0
  · rw [if_pos hn]
    simp only [openflashExecute, if_neg hid, if_neg hcreate, if_neg hflush, if_pos hn,
      Outcome.verdict, UInt64.toNat_zero]
  · have hmod : cmd.lba.toNat % 2 ^ 52 = cmd.lba.toNat := Nat.mod_eq_of_lt hlba
    have hchecked := openflashExecute_checked fileOk memory s hid hcreate hflush hn
    rw [hmod] at hchecked
    rw [if_neg hn]
    rcases hchecked with ⟨hout, hstatus, hresult⟩ | ⟨hin, a, b, heq⟩
    · rw [if_pos hout, Outcome.verdict, hstatus, hresult, UInt64.toNat_zero]
    · rw [if_neg (Nat.not_lt.mpr hin), heq]
      rfl

/-- The verdict of the oracle, with the buffer there. -/
theorem verdict_perform (hfault : d.nextFault = none)
    (hbuffer : dma.get? cmd.dataAddr.toNat = some buffer)
    (hsize : cmd.nblocks.toNat * 4096 ≤ buffer.length) :
    (d.perform (toCommand cmd) dma).1
      = match Opcode.ofNat? cmd.opcode.toNat with
        | none => (.invalidOpcode, 0)
        | some .identify => (.success, d.capacityBlocks)
        | some .flush => (.success, 0)
        | some _ =>
            if cmd.nblocks = 0 then (.invalidField, 0)
            else if d.capacityBlocks < cmd.lba.toNat + cmd.nblocks.toNat then (.lbaRange, 0)
            else (.success, cmd.nblocks.toNat) := by
  have hzero : cmd.nblocks.toNat = 0 ↔ cmd.nblocks = 0 := UInt32.toNat_inj (b := 0)
  have hlen : ¬ buffer.length < cmd.nblocks.toNat * blockSize := Nat.not_lt.mpr hsize
  simp only [ReferenceDevice.perform, hfault, toCommand]
  cases Opcode.ofNat? cmd.opcode.toNat with
  | none => rfl
  | some opcode =>
    cases opcode <;>
      simp only [ReferenceDevice.dispatch, ReferenceDevice.dispatchBuffer, hbuffer, hlen, hzero,
        reduceCtorEq, if_true, if_false]
    all_goals split_ifs <;> rfl

theorem not_writesImage (hflush : cmd.opcode ≠ opFlush) (hwrite : cmd.opcode ≠ opWrite) :
    ¬ WritesImage cmd s := by
  rintro (h | h)
  · exact hflush h
  · exact hwrite h.1

theorem ofNat?_of_ranged (h : Ranged cmd) :
    ∃ opcode, Opcode.ofNat? cmd.opcode.toNat = some opcode ∧
      (opcode = .read ∨ opcode = .write ∨ opcode = .discard) := by
  rcases h with h | h | h
  · exact ⟨.read, by rw [h]; rfl, Or.inl rfl⟩
  · exact ⟨.write, by rw [h]; rfl, Or.inr (Or.inl rfl)⟩
  · exact ⟨.discard, by rw [h]; rfl, Or.inr (Or.inr rfl)⟩

/-- A known ranged opcode passes the same checks on both sides; only a failed image write
of the device sets them apart. -/
theorem ranged_verdict_iff (fileOk : Bool) (hflush : cmd.opcode ≠ opFlush) :
    ((if cmd.nblocks = 0 then (Status.invalidField, 0)
      else if s.capacity.toNat / 4096 < cmd.lba.toNat + cmd.nblocks.toNat then (.lbaRange, 0)
      else (.success, cmd.nblocks.toNat))
      = if cmd.nblocks = 0 then (Status.invalidField, 0)
        else if s.capacity.toNat / 4096 < cmd.lba.toNat + cmd.nblocks.toNat then (.lbaRange, 0)
        else if cmd.opcode = opWrite ∧ cmd.flags &&& cmdFua ≠ 0 ∧ ¬ ImageKept fileOk s then
          (.internal, 0)
        else (.success, cmd.nblocks.toNat)) ↔
    (WritesImage cmd s → ImageKept fileOk s) := by
  by_cases hn : cmd.nblocks = 0
  · simp [WritesImage, InRange, hn, hflush]
  · by_cases hout : s.capacity.toNat / 4096 < cmd.lba.toNat + cmd.nblocks.toNat
    · simp [WritesImage, InRange, hn, hflush, hout]
    · simp only [WritesImage, InRange, hn, hflush, hout, Nat.not_lt.mp hout, ne_eq, false_or,
        not_false_eq_true, and_true, if_false]
      by_cases hfails : cmd.opcode = opWrite ∧ ¬ cmd.flags &&& cmdFua = 0 ∧ ¬ ImageKept fileOk s
      · simp [hfails]
      · rw [if_neg hfails]
        simp only [true_iff]
        intro hwrites
        by_contra hkept
        exact hfails ⟨hwrites.1, hwrites.2, hkept⟩

/-- The two devices answer alike exactly when an undefined opcode comes with a valid range
and the backing file takes every image the command makes the device write. -/
theorem verdict_eq_iff (fileOk : Bool) (memory : Memory) (hsgl : cmd.flags &&& cmdSgl = 0)
    (hcreate : cmd.opcode ≠ adminCreateIoq) (hlba : cmd.lba.toNat < 2 ^ 52)
    (haddr : cmd.dataAddr ≠ 0) (hbuffer : dma.get? cmd.dataAddr.toNat = some buffer)
    (hsize : cmd.nblocks.toNat * 4096 ≤ buffer.length) (hfault : d.nextFault = none)
    (hcapacity : d.capacityBlocks = s.capacity.toNat / 4096) :
    ((d.execute (toCommand cmd) dma).1.status = (openflashExecute fileOk cmd memory s).status ∧
      (d.execute (toCommand cmd) dma).1.result
        = (openflashExecute fileOk cmd memory s).result.toNat) ↔
    (Opcode.ofNat? cmd.opcode.toNat ≠ none ∨ InRange cmd s) ∧
      (WritesImage cmd s → ImageKept fileOk s) := by
  have hverdict : ((d.execute (toCommand cmd) dma).1.status
        = (openflashExecute fileOk cmd memory s).status ∧
      (d.execute (toCommand cmd) dma).1.result
        = (openflashExecute fileOk cmd memory s).result.toNat) ↔
      (d.perform (toCommand cmd) dma).1 = (openflashExecute fileOk cmd memory s).verdict :=
    (Prod.ext_iff (y := (openflashExecute fileOk cmd memory s).verdict)).symm
  rw [hverdict, verdict_perform hfault hbuffer hsize, hcapacity]
  have hopcode := ofNat?_opcode cmd.opcode
  by_cases hid : cmd.opcode = adminIdentify
  · rw [if_pos hid] at hopcode
    have hquiet : ¬ WritesImage cmd s :=
      not_writesImage (by rw [hid]; decide) (by rw [hid]; decide)
    simp [hopcode, verdict_identify fileOk memory s hid, hquiet]
  · by_cases hflush : cmd.opcode = opFlush
    · rw [if_neg hid, if_pos hflush] at hopcode
      have hwrites : WritesImage cmd s := Or.inl hflush
      rw [hopcode, verdict_flush fileOk memory s hflush]
      by_cases hkept : ImageKept fileOk s <;> simp [hkept, hwrites]
    · rw [verdict_checked fileOk memory s hid hcreate hflush hlba]
      by_cases hop : Ranged cmd
      · obtain ⟨opcode, hknown, hkind⟩ := ofNat?_of_ranged hop
        rw [verdict_executeRanged fileOk _ _ memory s hsgl haddr hop, hknown]
        have hanswer := ranged_verdict_iff (s := s) fileOk hflush
        rcases hkind with rfl | rfl | rfl <;> simpa using hanswer
      · have hunknown : Opcode.ofNat? cmd.opcode.toNat = none := by
          rw [hopcode, if_neg hid, if_neg hflush, if_neg fun h => hop (Or.inl h),
            if_neg fun h => hop (Or.inr (Or.inl h)), if_neg fun h => hop (Or.inr (Or.inr h))]
        have hquiet : ¬ WritesImage cmd s :=
          not_writesImage hflush fun h => hop (Or.inr (Or.inl h))
        rw [hunknown, verdict_executeRanged_unknown fileOk _ _ memory s hop]
        by_cases hn : cmd.nblocks = 0
        · simp [InRange, hn]
        · by_cases hout : s.capacity.toNat / 4096 < cmd.lba.toNat + cmd.nblocks.toNat
          · simp [InRange, hn, hout]
          · simp [InRange, hn, hout, hquiet, Nat.not_lt.mp hout]

end

/-- A command with a one-block buffer at 0x1000. -/
def commandAt (opcode : UInt8) (lba : UInt64) (nblocks : UInt32) : OpenFlashCommand :=
  { opcode := opcode, flags := cmdFua, lba := lba, nblocks := nblocks, dataAddr := 0x1000 }

def blockBuffer : Dma := Dict.empty.set 0x1000 (List.replicate 4096 0)

theorem blockBuffer_get? : blockBuffer.get? 0x1000 = some (List.replicate 4096 0) :=
  Dict.get?_set_self _ _ _

/-- A durable write of the only block is answered alike. -/
theorem durableWrite_verdict :
    ((ReferenceDevice.fresh 1 Nat.one_pos).execute (toCommand (commandAt opWrite 0 1))
        blockBuffer).1.status
      = (openflashExecute true (commandAt opWrite 0 1) (fun _ => 0) oneBlock).status ∧
    ((ReferenceDevice.fresh 1 Nat.one_pos).execute (toCommand (commandAt opWrite 0 1))
        blockBuffer).1.result
      = (openflashExecute true (commandAt opWrite 0 1) (fun _ => 0) oneBlock).result.toNat :=
  (verdict_eq_iff true (fun _ => 0) (by decide) (by decide) (by decide) (by decide)
    blockBuffer_get? (by rw [List.length_replicate]; decide) rfl rfl).mpr
    ⟨Or.inl (by decide), fun _ => Or.inl rfl⟩

/-- An undefined opcode with no blocks, or with a block past the end, is an invalid opcode
to the oracle only. -/
theorem unknownOpcode_verdicts :
    Opcode.ofNat? (commandAt 0x7f 0 0).opcode.toNat = none ∧
    ((ReferenceDevice.fresh 1 Nat.one_pos).execute (toCommand (commandAt 0x7f 0 0))
      blockBuffer).1.status = .invalidOpcode ∧
    (openflashExecute true (commandAt 0x7f 0 0) (fun _ => 0) oneBlock).status = .invalidField ∧
    ((ReferenceDevice.fresh 1 Nat.one_pos).execute (toCommand (commandAt 0x7f 1 1))
      blockBuffer).1.status = .invalidOpcode ∧
    (openflashExecute true (commandAt 0x7f 1 1) (fun _ => 0) oneBlock).status = .lbaRange :=
  ⟨rfl, rfl, rfl, rfl, rfl⟩

end OpenFlash.Qemu
