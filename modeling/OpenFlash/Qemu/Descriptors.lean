import Mathlib.Order.CompletePartialOrder
import Mathlib.Order.Interval.Set.Disjoint
import OpenFlash.Qemu.Scatter

/-! The descriptor tables that a transfer accepts, and the agreement of the segment loop with
a transfer from or to one contiguous buffer. -/
namespace OpenFlash.Qemu
open Abi Support

/-- The entry count in the command. -/
def sglCount (cmd : OpenFlashCommand) : ℕ := (cmd.control &&& 0xffff).toNat

/-- The checks in front of the segment loop. -/
def SglHeader (cmd : OpenFlashCommand) : Prop :=
  1 ≤ sglCount cmd ∧ sglCount cmd ≤ maxSglEntries ∧ cmd.dataAddr ≠ 0

instance (cmd : OpenFlashCommand) : Decidable (SglHeader cmd) :=
  inferInstanceAs (Decidable (_ ∧ _ ∧ _))

/-- The `n` entries from `index` on, as they stand in guest memory. -/
def sglTable (memory : Memory) (dma : UInt64) : UInt64 → ℕ → List OpenFlashSglDesc
  | _, 0 => []
  | index, n + 1 =>
      OpenFlashSglDesc.read memory (dma + index * 16).toNat :: sglTable memory dma (index + 1) n

/-- The entries as they are fetched, each after the segment in front of it has been copied;
a read may copy over the table. -/
def fetchedEntries (write : Bool) (dma offset : UInt64) :
    ℕ → UInt64 → UInt64 → (ℕ → UInt8) → Memory → List OpenFlashSglDesc
  | 0, _, _, _, _ => []
  | n + 1, index, transferred, storage, memory =>
      let desc := OpenFlashSglDesc.read memory (dma + index * 16).toNat
      let m := move write desc.addr (offset.toNat + transferred.toNat) desc.length.toNat
        storage memory
      desc :: fetchedEntries write dma offset n (index + 1)
        (transferred + desc.length.toUInt64) m.storage m.memory

/-- Entries with non-zero addresses and lengths that add up to `k` bytes. -/
def Describes (descs : List OpenFlashSglDesc) (k : ℕ) : Prop :=
  (∀ d ∈ descs, d.addr ≠ 0 ∧ d.length ≠ 0) ∧ totalLength descs = k

instance (descs : List OpenFlashSglDesc) (k : ℕ) : Decidable (Describes descs k) :=
  inferInstanceAs (Decidable (_ ∧ _))

theorem describes_nil (k : ℕ) : Describes [] k ↔ k = 0 := by
  simp [Describes, totalLength, eq_comm]

theorem describes_cons (desc : OpenFlashSglDesc) (rest : List OpenFlashSglDesc) (k : ℕ) :
    Describes (desc :: rest) k ↔
      (desc.addr ≠ 0 ∧ desc.length ≠ 0) ∧ desc.length.toNat ≤ k ∧
        Describes rest (k - desc.length.toNat) := by
  simp only [Describes, List.forall_mem_cons, totalLength_cons]
  constructor
  · rintro ⟨⟨hdesc, hrest⟩, htotal⟩
    exact ⟨hdesc, by omega, hrest, by omega⟩
  · rintro ⟨hdesc, hle, hrest, htotal⟩
    exact ⟨⟨hdesc, hrest⟩, by omega⟩

section
variable {dma offset length : UInt64}

/-- The loop accepts exactly the entries that describe what is left of the transfer. -/
theorem sglLoop_ok_iff (write : Bool) (n : ℕ) {index transferred : UInt64}
    (storage : ℕ → UInt8) (memory : Memory) (hle : transferred ≤ length) :
    (sglLoop write dma offset length n index transferred storage memory).ok = true ↔
      Describes (fetchedEntries write dma offset n index transferred storage memory)
        (length.toNat - transferred.toNat) := by
  induction n generalizing index transferred storage memory with
  | zero =>
    have hnat := UInt64.le_iff_toNat_le.mp hle
    simp only [sglLoop, fetchedEntries, describes_nil, beq_iff_eq, ← UInt64.toNat_inj]
    omega
  | succ n ih =>
    simp only [sglLoop, fetchedEntries, describes_cons]
    generalize OpenFlashSglDesc.read memory (dma + index * 16).toNat = desc
    by_cases hzero : desc.addr = 0 ∨ desc.length = 0
    · simp only [hzero, if_true, Bool.false_eq_true, ne_eq, ← not_or, not_true_eq_false,
        false_and]
    · have hsub := UInt64.toNat_sub_of_le _ _ hle
      have hlong : length - transferred < desc.length.toUInt64 ↔
          ¬ desc.length.toNat ≤ length.toNat - transferred.toNat := by
        rw [UInt64.lt_iff_toNat_lt, hsub, UInt32.toNat_toUInt64, Nat.not_le]
      by_cases hfit : desc.length.toNat ≤ length.toNat - transferred.toNat
      · have hnat := UInt64.le_iff_toNat_le.mp hle
        have hbound := length.toNat_lt
        have hnext : (transferred + desc.length.toUInt64).toNat
            = transferred.toNat + desc.length.toNat := by
          rw [UInt64.toNat_add, UInt32.toNat_toUInt64]
          exact Nat.mod_eq_of_lt (by omega)
        have hle' : transferred + desc.length.toUInt64 ≤ length := by
          rw [UInt64.le_iff_toNat_le, hnext]
          omega
        simp only [hzero, hlong, hfit, not_true_eq_false, if_false, ih _ _ hle', hnext, ne_eq,
          ← not_or, not_false_eq_true, true_and, Nat.sub_add_eq]
      · simp only [hzero, hlong, hfit, not_false_eq_true, if_true, if_false, Bool.false_eq_true,
          false_and, and_false]

end

theorem openflashTransfer_eq_sglLoop {cmd : OpenFlashCommand} (hsgl : cmd.flags &&& cmdSgl ≠ 0)
    (hheader : SglHeader cmd) (offset length : UInt64) (write : Bool) (storage : ℕ → UInt8)
    (memory : Memory) :
    openflashTransfer cmd offset length write storage memory
      = sglLoop write cmd.dataAddr offset length (sglCount cmd) 0 0 storage memory := by
  obtain ⟨hpos, hle, haddr⟩ := hheader
  unfold sglCount at hpos hle ⊢
  unfold openflashTransfer
  rw [if_neg hsgl]
  dsimp only
  rw [if_neg]
  rintro (h | h | h)
  · omega
  · omega
  · exact haddr h

/-- A command with an SGL of at most sixteen entries goes through the segment loop. -/
theorem openflashTransfer_sgl {cmd : OpenFlashCommand} {n : ℕ} (hflags : cmd.flags = cmdSgl)
    (hcontrol : cmd.control = .ofNat n) (hpos : n ≠ 0) (hle : n ≤ 16) (haddr : cmd.dataAddr ≠ 0)
    (offset length : UInt64) (write : Bool) (storage : ℕ → UInt8) (memory : Memory) :
    openflashTransfer cmd offset length write storage memory
      = sglLoop write cmd.dataAddr offset length n 0 0 storage memory := by
  have hcount : sglCount cmd = n := by
    rw [sglCount, hcontrol, UInt32.toNat_and, UInt32.toNat_ofNat']
    show n % 2 ^ 32 &&& (2 ^ 16 - 1) = n
    rw [Nat.and_two_pow_sub_one_eq_mod]
    omega
  have hsgl : cmd.flags &&& cmdSgl ≠ 0 := by
    rw [hflags]
    decide
  have hheader : SglHeader cmd := by
    rw [SglHeader, hcount]
    exact ⟨Nat.one_le_iff_ne_zero.mpr hpos, hle, haddr⟩
  rw [openflashTransfer_eq_sglLoop hsgl hheader, hcount]

theorem executeWrite_ok {fileOk : Bool} {cmd : OpenFlashCommand} {offset length : UInt64}
    {memory : Memory} {s : OpenFlashState} (hflags : cmd.flags = cmdSgl)
    (hok : (openflashTransfer cmd offset length true s.storage memory).ok = true) :
    executeWrite fileOk cmd offset length memory s =
      ⟨.success, cmd.nblocks.toUInt64,
        { s with storage := (openflashTransfer cmd offset length true s.storage memory).storage },
        (openflashTransfer cmd offset length true s.storage memory).memory,
        (openflashTransfer cmd offset length true s.storage memory).trace⟩ := by
  unfold executeWrite
  dsimp only
  rw [if_neg (by rw [hok]; decide), if_pos (by rw [hflags]; decide)]

theorem openflashTransfer_of_not_header {cmd : OpenFlashCommand}
    (hsgl : cmd.flags &&& cmdSgl ≠ 0) (hheader : ¬ SglHeader cmd) (offset length : UInt64)
    (write : Bool) (storage : ℕ → UInt8) (memory : Memory) :
    openflashTransfer cmd offset length write storage memory = ⟨false, storage, memory, []⟩ := by
  unfold openflashTransfer
  rw [if_neg hsgl]
  dsimp only
  rw [if_pos]
  by_contra h
  push Not at h
  exact hheader ⟨Nat.one_le_iff_ne_zero.mpr h.1, h.2.1, h.2.2⟩

/-- A transfer through a table succeeds exactly when the header passes and the entries
describe its length. -/
theorem openflashTransfer_ok_iff {cmd : OpenFlashCommand} (hsgl : cmd.flags &&& cmdSgl ≠ 0)
    (offset length : UInt64) (write : Bool) (storage : ℕ → UInt8) (memory : Memory) :
    (openflashTransfer cmd offset length write storage memory).ok = true ↔
      SglHeader cmd ∧ Describes (fetchedEntries write cmd.dataAddr offset (sglCount cmd) 0 0
        storage memory) length.toNat := by
  by_cases hheader : SglHeader cmd
  · rw [openflashTransfer_eq_sglLoop hsgl hheader, sglLoop_ok_iff write _ storage memory
      (UInt64.le_iff_toNat_le.mpr (Nat.zero_le _))]
    simp only [hheader, true_and, UInt64.toNat_zero, Nat.sub_zero]
  · rw [openflashTransfer_of_not_header hsgl hheader]
    simp [hheader]

/-- The addresses of a segment. -/
def segmentRange (d : OpenFlashSglDesc) : Set ℕ :=
  Set.Ico d.addr.toNat (d.addr.toNat + d.length.toNat)

/-- The addresses of the `n` table entries from `index` on. -/
def tableRange (dma : UInt64) : UInt64 → ℕ → Set ℕ
  | _, 0 => ∅
  | index, n + 1 =>
      Set.Ico (dma + index * 16).toNat ((dma + index * 16).toNat + 16) ∪
        tableRange dma (index + 1) n

/-- The segments of a table share no byte with one another or with the table. -/
structure Scattered (memory : Memory) (dma : UInt64) (count : ℕ) : Prop where
  apart : (sglTable memory dma 0 count).Pairwise fun d e =>
    Disjoint (segmentRange d) (segmentRange e)
  clear : ∀ d ∈ sglTable memory dma 0 count, Disjoint (segmentRange d) (tableRange dma 0 count)

theorem apart_of_disjoint {a n b k : ℕ} (hn : n ≠ 0) (hk : k ≠ 0)
    (h : Disjoint (Set.Ico a (a + n)) (Set.Ico b (b + k))) : Apart a n b k := by
  rw [Set.Ico_disjoint_Ico] at h
  unfold Apart
  omega

theorem length_sglTable (memory : Memory) (dma index : UInt64) (n : ℕ) :
    (sglTable memory dma index n).length = n := by
  induction n generalizing index with
  | zero => rfl
  | succ n ih => rw [sglTable, List.length_cons, ih]

theorem sglTable_tableAt (memory : Memory) (dma index : UInt64) (n : ℕ) :
    TableAt memory dma index (sglTable memory dma index n) := by
  induction n generalizing index with
  | zero => trivial
  | succ n ih => exact ⟨rfl, ih (index + 1)⟩

theorem clearOf_of_disjoint {dma index : UInt64} {lo k n : ℕ} (hk : k ≠ 0)
    (h : Disjoint (Set.Ico lo (lo + k)) (tableRange dma index n)) : ClearOf dma lo k index n := by
  induction n generalizing index with
  | zero => trivial
  | succ n ih =>
    rw [tableRange, Set.disjoint_union_right] at h
    exact ⟨apart_of_disjoint hk (by decide) h.1, ih h.2⟩

/-- A copy beside the table leaves its entries. -/
theorem sglTable_overwrite {dma index : UInt64} {lo k n : ℕ} (memory : Memory)
    (data : ℕ → UInt8) (h : Disjoint (Set.Ico lo (lo + k)) (tableRange dma index n)) :
    sglTable (overwrite memory lo k data) dma index n = sglTable memory dma index n := by
  induction n generalizing index with
  | zero => rfl
  | succ n ih =>
    rw [tableRange, Set.disjoint_union_right] at h
    have hentry : OpenFlashSglDesc.read (overwrite memory lo k data) (dma + index * 16).toNat
        = OpenFlashSglDesc.read memory (dma + index * 16).toNat := by
      apply OpenFlashSglDesc.read_congr
      intro i hi
      apply overwrite_of_notMem
      have hout := Set.disjoint_right.mp h.1
        (Set.mem_Ico.mpr ⟨Nat.le_add_right _ i, Nat.add_lt_add_left hi _⟩)
      rw [Set.mem_Ico] at hout
      omega
    rw [sglTable, sglTable, ih h.2, hentry]

/-- What is fetched is the table as it stood before the transfer, if nothing is copied
over it. -/
theorem fetchedEntries_eq_sglTable {write : Bool} {dma offset index transferred : UInt64} {n : ℕ}
    {storage : ℕ → UInt8} {memory : Memory}
    (hclear : write = false → ∀ d ∈ sglTable memory dma index n,
      Disjoint (segmentRange d) (tableRange dma index n)) :
    fetchedEntries write dma offset n index transferred storage memory
      = sglTable memory dma index n := by
  induction n generalizing index transferred storage memory with
  | zero => rfl
  | succ n ih =>
    apply congrArg (List.cons _)
    cases write with
    | true =>
      apply ih
      intro h
      cases h
    | false =>
      have htail : ∀ d ∈ sglTable memory dma index (n + 1),
          Disjoint (segmentRange d) (tableRange dma (index + 1) n) := by
        intro d hd
        have h := hclear rfl d hd
        rw [tableRange, Set.disjoint_union_right] at h
        exact h.2
      have hsame := sglTable_overwrite memory
        (fun i => storage (offset.toNat + transferred.toNat + i)) (htail _ List.mem_cons_self)
      simp only [move, Bool.false_eq_true, if_false]
      rw [ih, hsame]
      intro _ d hd
      rw [hsame] at hd
      exact htail d (List.mem_cons_of_mem _ hd)

/-- A transfer through a table beside transfers of one contiguous buffer. -/
structure SglAgrees (cmd : OpenFlashCommand) (offset length : UInt64) (write : Bool)
    (storage : ℕ → UInt8) (memory : Memory) (t : Transfer) : Prop where
  accepted : t.ok = true ↔ 1 ≤ sglCount cmd ∧ sglCount cmd ≤ 16 ∧
    (∀ d ∈ sglTable memory cmd.dataAddr 0 (sglCount cmd), d.addr ≠ 0 ∧ d.length ≠ 0) ∧
    totalLength (sglTable memory cmd.dataAddr 0 (sglCount cmd)) = length.toNat
  contiguous : t.ok = true → ∀ (flat : OpenFlashCommand) (buffer : Memory),
    flat.flags &&& cmdSgl = 0 → flat.dataAddr ≠ 0 →
    (write = true → readBytes buffer flat.dataAddr.toNat length.toNat
        = gather memory (sglTable memory cmd.dataAddr 0 (sglCount cmd)) →
      t.storage = (openflashTransfer flat offset length write storage buffer).storage) ∧
    (write = false → gather t.memory (sglTable memory cmd.dataAddr 0 (sglCount cmd))
        = readBytes (openflashTransfer flat offset length write storage buffer).memory
          flat.dataAddr.toNat length.toNat)

section
variable {cmd : OpenFlashCommand} {offset length : UInt64} {storage : ℕ → UInt8}
  {memory : Memory}

/-- A write through an accepted table stores what a write from one buffer with the same bytes
stores. -/
theorem openflashTransfer_write (hsgl : cmd.flags &&& cmdSgl ≠ 0) (hheader : SglHeader cmd)
    (hdescribes : Describes (sglTable memory cmd.dataAddr 0 (sglCount cmd)) length.toNat)
    {addr : ℕ} {buffer : Memory}
    (hbuffer : readBytes buffer addr length.toNat
      = gather memory (sglTable memory cmd.dataAddr 0 (sglCount cmd))) :
    (openflashTransfer cmd offset length true storage memory).storage
      = overwrite storage offset.toNat length.toNat fun i => buffer (addr + i) := by
  obtain ⟨hentries, htotal⟩ := hdescribes
  have hfits : (0 : UInt64).toNat + totalLength (sglTable memory cmd.dataAddr 0 (sglCount cmd))
      = length.toNat := by
    rw [htotal]
    exact Nat.zero_add _
  obtain ⟨-, -, hbytes, hframe⟩ := @sglLoop_write cmd.dataAddr offset length memory _
    (fun d hd => (hentries d hd).1) (fun d hd => (hentries d hd).2) 0 0
    (sglTable_tableAt memory cmd.dataAddr 0 (sglCount cmd)) hfits storage
  rw [length_sglTable, UInt64.toNat_zero, Nat.add_zero, htotal] at hbytes hframe
  rw [openflashTransfer_eq_sglLoop hsgl hheader]
  apply eq_overwrite
  · rw [hbytes, hbuffer]
  · exact hframe

/-- A read through an accepted table of scattered segments fills them, in order, with the range
of the storage. -/
theorem openflashTransfer_read (hsgl : cmd.flags &&& cmdSgl ≠ 0) (hheader : SglHeader cmd)
    (hdescribes : Describes (sglTable memory cmd.dataAddr 0 (sglCount cmd)) length.toNat)
    (hscattered : Scattered memory cmd.dataAddr (sglCount cmd)) :
    gather (openflashTransfer cmd offset length false storage memory).memory
        (sglTable memory cmd.dataAddr 0 (sglCount cmd))
      = readBytes storage offset.toNat length.toNat := by
  obtain ⟨hentries, htotal⟩ := hdescribes
  have hlen : ∀ d ∈ sglTable memory cmd.dataAddr 0 (sglCount cmd), d.length.toNat ≠ 0 :=
    fun d hd h => (hentries d hd).2 (UInt32.toNat_inj.mp h)
  have hapart : (sglTable memory cmd.dataAddr 0 (sglCount cmd)).Pairwise SegmentsApart :=
    hscattered.apart.imp_of_mem fun hd he h => apart_of_disjoint (hlen _ hd) (hlen _ he) h
  have hclear : ∀ d ∈ sglTable memory cmd.dataAddr 0 (sglCount cmd),
      ClearOf cmd.dataAddr d.addr.toNat d.length.toNat 0
        (sglTable memory cmd.dataAddr 0 (sglCount cmd)).length := by
    intro d hd
    rw [length_sglTable]
    exact clearOf_of_disjoint (hlen d hd) (hscattered.clear d hd)
  have hfits : (0 : UInt64).toNat + totalLength (sglTable memory cmd.dataAddr 0 (sglCount cmd))
      = length.toNat := by
    rw [htotal]
    exact Nat.zero_add _
  obtain ⟨-, -, hgather, -⟩ := @sglLoop_read cmd.dataAddr offset length memory _
    (fun d hd => (hentries d hd).1) (fun d hd => (hentries d hd).2) hapart 0 0 hclear
    (sglTable_tableAt memory cmd.dataAddr 0 (sglCount cmd)) hfits storage
  rw [length_sglTable, UInt64.toNat_zero, Nat.add_zero, htotal] at hgather
  rw [openflashTransfer_eq_sglLoop hsgl hheader, hgather]

/-- A transfer through a table is accepted exactly when the table describes its length, and
then it moves the same bytes as a transfer of one contiguous buffer. -/
theorem openflashTransfer_sglAgrees (hsgl : cmd.flags &&& cmdSgl ≠ 0) (haddr : cmd.dataAddr ≠ 0)
    (offset length : UInt64) (write : Bool) (storage : ℕ → UInt8) (memory : Memory)
    (hread : write = false → Scattered memory cmd.dataAddr (sglCount cmd)) :
    SglAgrees cmd offset length write storage memory
      (openflashTransfer cmd offset length write storage memory) := by
  have hfetched : fetchedEntries write cmd.dataAddr offset (sglCount cmd) 0 0 storage memory
      = sglTable memory cmd.dataAddr 0 (sglCount cmd) :=
    fetchedEntries_eq_sglTable fun h => (hread h).clear
  have hok := openflashTransfer_ok_iff hsgl offset length write storage memory
  rw [hfetched] at hok
  constructor
  · rw [hok]
    constructor
    · rintro ⟨⟨hpos, hle, -⟩, hdescribes⟩
      exact ⟨hpos, hle, hdescribes⟩
    · rintro ⟨hpos, hle, hdescribes⟩
      exact ⟨⟨hpos, hle, haddr⟩, hdescribes⟩
  · intro htrue flat buffer hflat hdata
    obtain ⟨hheader, hdescribes⟩ := hok.mp htrue
    rw [openflashTransfer_contiguous hflat hdata]
    constructor
    · rintro rfl hbuffer
      exact openflashTransfer_write hsgl hheader hdescribes hbuffer
    · rintro rfl
      rw [openflashTransfer_read hsgl hheader hdescribes (hread rfl)]
      exact (readBytes_overwrite buffer storage _ _ _).symm

end

/-- A command for one block in two segments. -/
def twoSegments (opcode : UInt8) : OpenFlashCommand :=
  { opcode := opcode, flags := cmdSgl, control := 2, nblocks := 1, dataAddr := 0x1000 }

/-- A table at `0x1000` of the given entries. -/
def tableMemory (descs : List OpenFlashSglDesc) : Memory :=
  placed 0x1000 (descs.flatMap OpenFlashSglDesc.bytes)

theorem unevenRead_sglAgrees :
    SglAgrees (twoSegments opRead) 0 4096 false (fun _ => 7)
      (tableMemory [⟨0x2000, 1024⟩, ⟨0x3000, 3072⟩])
      (openflashTransfer (twoSegments opRead) 0 4096 false (fun _ => 7)
        (tableMemory [⟨0x2000, 1024⟩, ⟨0x3000, 3072⟩])) := by
  have htable : sglTable (tableMemory [⟨0x2000, 1024⟩, ⟨0x3000, 3072⟩]) 0x1000 0 2
      = [⟨0x2000, 1024⟩, ⟨0x3000, 3072⟩] := by decide
  apply openflashTransfer_sglAgrees
  · decide
  · decide
  · intro _
    constructor
    · change (sglTable _ 0x1000 0 2).Pairwise _
      rw [htable]
      simp [segmentRange]
    · change ∀ d ∈ sglTable _ 0x1000 0 2, Disjoint _ (tableRange 0x1000 0 2)
      rw [htable]
      simp [segmentRange, tableRange]

end OpenFlash.Qemu
