import OpenFlash.Qemu.Storage

/-! The segment loop over a table whose entries fit: a write gathers the segments into the
storage, a read scatters the storage over them. -/
namespace OpenFlash.Qemu
open Abi Support

/-- The table at `dma` holds the given entries from `index` on. -/
def TableAt (memory : Memory) (dma : UInt64) : UInt64 → List OpenFlashSglDesc → Prop
  | _, [] => True
  | index, desc :: rest =>
      OpenFlashSglDesc.read memory (dma + index * 16).toNat = desc ∧
        TableAt memory dma (index + 1) rest

/-- A range of memory that meets none of the `n` table entries from `index` on. -/
def ClearOf (dma : UInt64) (lo k : ℕ) : UInt64 → ℕ → Prop
  | _, 0 => True
  | index, n + 1 => Apart lo k (dma + index * 16).toNat 16 ∧ ClearOf dma lo k (index + 1) n

/-- The bytes of the segments, one after the other. -/
def gather (memory : Memory) (descs : List OpenFlashSglDesc) : List UInt8 :=
  descs.flatMap fun desc => readBytes memory desc.addr.toNat desc.length.toNat

def totalLength (descs : List OpenFlashSglDesc) : ℕ := (descs.map fun d => d.length.toNat).sum

/-- Two segments without a common byte. -/
def SegmentsApart (d e : OpenFlashSglDesc) : Prop :=
  Apart d.addr.toNat d.length.toNat e.addr.toNat e.length.toNat

instance : DecidableRel SegmentsApart := fun _ _ => inferInstanceAs (Decidable (Apart _ _ _ _))

def Outside (descs : List OpenFlashSglDesc) (a : ℕ) : Prop :=
  ∀ d ∈ descs, a < d.addr.toNat ∨ d.addr.toNat + d.length.toNat ≤ a

theorem TableAt.overwrite {memory : Memory} {dma : UInt64} {lo k : ℕ} (data : ℕ → UInt8)
    {descs : List OpenFlashSglDesc} {index : UInt64} (h : TableAt memory dma index descs)
    (hclear : ClearOf dma lo k index descs.length) :
    TableAt (overwrite memory lo k data) dma index descs := by
  induction descs generalizing index with
  | nil => trivial
  | cons desc rest ih =>
    refine ⟨?_, ih h.2 hclear.2⟩
    rw [← h.1]
    apply OpenFlashSglDesc.read_congr
    intro i hi
    apply overwrite_of_notMem
    rcases hclear.1 with hapart | hapart
    · exact Or.inr (by omega)
    · exact Or.inl (by omega)

theorem tableAt_of_forall {memory : Memory} {dma : UInt64} {descs : List OpenFlashSglDesc}
    (index : UInt64) (h : ∀ (i : ℕ) d, descs[i]? = some d →
      OpenFlashSglDesc.read memory (dma + (index + .ofNat i) * 16).toNat = d) :
    TableAt memory dma index descs := by
  induction descs generalizing index with
  | nil => trivial
  | cons desc rest ih =>
    constructor
    · have hfirst : OpenFlashSglDesc.read memory (dma + (index + 0) * 16).toNat = desc :=
        h 0 desc rfl
      rwa [UInt64.add_zero] at hfirst
    · apply ih
      intro i d hd
      rw [UInt64.add_assoc, UInt64.add_comm 1, ← UInt64.ofNat_one, ← UInt64.ofNat_add]
      exact h (i + 1) d hd

theorem clearOf_of_forall {dma : UInt64} {lo k n : ℕ} (index : UInt64)
    (h : ∀ i < n, Apart lo k (dma + (index + .ofNat i) * 16).toNat 16) :
    ClearOf dma lo k index n := by
  induction n generalizing index with
  | zero => trivial
  | succ n ih =>
    constructor
    · have hfirst : Apart lo k (dma + (index + 0) * 16).toNat 16 := h 0 (by omega)
      rwa [UInt64.add_zero] at hfirst
    · apply ih
      intro i hi
      rw [UInt64.add_assoc, UInt64.add_comm 1, ← UInt64.ofNat_one, ← UInt64.ofNat_add]
      exact h (i + 1) (by omega)

theorem totalLength_cons (desc : OpenFlashSglDesc) (rest : List OpenFlashSglDesc) :
    totalLength (desc :: rest) = desc.length.toNat + totalLength rest := by
  simp [totalLength]

theorem gather_cons (memory : Memory) (desc : OpenFlashSglDesc) (rest : List OpenFlashSglDesc) :
    gather memory (desc :: rest) =
      readBytes memory desc.addr.toNat desc.length.toNat ++ gather memory rest := by
  simp [gather]

section
variable {dma offset length : UInt64}

/-- The step of the loop on an entry that fits. -/
theorem sglLoop_cons (write : Bool) (offset : UInt64) {desc : OpenFlashSglDesc} (n : ℕ)
    {total : ℕ} {index transferred : UInt64} (storage : ℕ → UInt8) {memory : Memory}
    (hread : OpenFlashSglDesc.read memory (dma + index * 16).toNat = desc)
    (haddr : desc.addr ≠ 0) (hlen : desc.length ≠ 0)
    (htotal : transferred.toNat + (desc.length.toNat + total) = length.toNat) :
    let m := move write desc.addr (offset.toNat + transferred.toNat) desc.length.toNat
      storage memory
    (transferred + desc.length.toUInt64).toNat = transferred.toNat + desc.length.toNat ∧
      ∃ trace, sglLoop write dma offset length (n + 1) index transferred storage memory =
        { sglLoop write dma offset length n (index + 1) (transferred + desc.length.toUInt64)
            m.storage m.memory with trace := trace } := by
  intro m
  have hbound := length.toNat_lt
  have hle : transferred ≤ length := by
    rw [UInt64.le_iff_toNat_le]
    omega
  have hfit : ¬ length - transferred < desc.length.toUInt64 := by
    rw [UInt64.lt_iff_toNat_lt, UInt64.toNat_sub_of_le _ _ hle, UInt32.toNat_toUInt64]
    omega
  constructor
  · rw [UInt64.toNat_add, UInt32.toNat_toUInt64]
    exact Nat.mod_eq_of_lt (by omega)
  · rw [sglLoop]
    simp only [hread, haddr, hlen, hfit, or_self, if_false]
    exact ⟨_, rfl⟩

theorem sglLoop_nil (write : Bool) {index transferred : UInt64} (storage : ℕ → UInt8)
    (memory : Memory) (htotal : transferred.toNat + totalLength [] = length.toNat) :
    sglLoop write dma offset length 0 index transferred storage memory
      = ⟨true, storage, memory, []⟩ := by
  have hdone : transferred = length := UInt64.toNat_inj.mp htotal
  simp [sglLoop, hdone]

/-- A write through the table puts the segments, in order, behind what was transferred. -/
theorem sglLoop_write {memory : Memory} {descs : List OpenFlashSglDesc}
    (haddr : ∀ d ∈ descs, d.addr ≠ 0) (hlen : ∀ d ∈ descs, d.length ≠ 0)
    {index transferred : UInt64} (htable : TableAt memory dma index descs)
    (htotal : transferred.toNat + totalLength descs = length.toNat) (storage : ℕ → UInt8) :
    let t := sglLoop true dma offset length descs.length index transferred storage memory
    let start := offset.toNat + transferred.toNat
    t.ok = true ∧ t.memory = memory ∧
      readBytes t.storage start (totalLength descs) = gather memory descs ∧
      ∀ a, a < start ∨ start + totalLength descs ≤ a → t.storage a = storage a := by
  induction descs generalizing index transferred storage with
  | nil =>
    intro t start
    rw [show t = _ from sglLoop_nil true storage memory htotal]
    exact ⟨rfl, rfl, rfl, fun a _ => rfl⟩
  | cons desc rest ih =>
    intro t start
    rw [totalLength_cons] at htotal
    obtain ⟨hnext, trace, heq⟩ := sglLoop_cons true offset rest.length storage htable.1
      (haddr desc List.mem_cons_self) (hlen desc List.mem_cons_self) htotal
    obtain ⟨hok, hmem, hbytes, hframe⟩ := ih (fun d hd => haddr d (List.mem_cons_of_mem _ hd))
      (fun d hd => hlen d (List.mem_cons_of_mem _ hd)) htable.2 (by rw [hnext]; omega)
      (overwrite storage start desc.length.toNat fun i => memory (desc.addr.toNat + i))
    rw [hnext, ← Nat.add_assoc] at hbytes hframe
    rw [show t = _ from heq, totalLength_cons, gather_cons, readBytes_add]
    refine ⟨hok, hmem, ?_, ?_⟩
    · refine congrArg₂ _ ?_ hbytes
      rw [← readBytes_overwrite storage memory start desc.addr.toNat desc.length.toNat]
      exact readBytes_congr fun i hi => hframe _ (Or.inl (by omega))
    · intro a ha
      rw [← overwrite_of_notMem storage (fun i => memory (desc.addr.toNat + i))
        (show a < start ∨ start + desc.length.toNat ≤ a by omega)]
      exact hframe a (by omega)

/-- A read through the table fills the segments, in order, with what comes next in the
storage. -/
theorem sglLoop_read {memory : Memory} {descs : List OpenFlashSglDesc}
    (haddr : ∀ d ∈ descs, d.addr ≠ 0) (hlen : ∀ d ∈ descs, d.length ≠ 0)
    (hapart : descs.Pairwise SegmentsApart) {index transferred : UInt64}
    (hclear : ∀ d ∈ descs, ClearOf dma d.addr.toNat d.length.toNat index descs.length)
    (htable : TableAt memory dma index descs)
    (htotal : transferred.toNat + totalLength descs = length.toNat) (storage : ℕ → UInt8) :
    let t := sglLoop false dma offset length descs.length index transferred storage memory
    t.ok = true ∧ t.storage = storage ∧
      gather t.memory descs =
        readBytes storage (offset.toNat + transferred.toNat) (totalLength descs) ∧
      ∀ a, Outside descs a → t.memory a = memory a := by
  induction descs generalizing index transferred memory with
  | nil =>
    intro t
    rw [show t = _ from sglLoop_nil false storage memory htotal]
    exact ⟨rfl, rfl, rfl, fun a _ => rfl⟩
  | cons desc rest ih =>
    intro t
    rw [totalLength_cons] at htotal
    rw [List.pairwise_cons] at hapart
    obtain ⟨hnext, trace, heq⟩ := sglLoop_cons false offset rest.length storage htable.1
      (haddr desc List.mem_cons_self) (hlen desc List.mem_cons_self) htotal
    obtain ⟨hok, hstorage, hbytes, hframe⟩ := ih (fun d hd => haddr d (List.mem_cons_of_mem _ hd))
      (fun d hd => hlen d (List.mem_cons_of_mem _ hd)) hapart.2
      (fun d hd => (hclear d (List.mem_cons_of_mem _ hd)).2)
      (htable.2.overwrite (fun i => storage (offset.toNat + transferred.toNat + i))
        (hclear desc List.mem_cons_self).2) (by rw [hnext]; omega)
    rw [hnext, ← Nat.add_assoc] at hbytes
    rw [show t = _ from heq, totalLength_cons, gather_cons, readBytes_add]
    refine ⟨hok, hstorage, ?_, ?_⟩
    · refine congrArg₂ _ ?_ hbytes
      rw [← readBytes_overwrite memory storage desc.addr.toNat _ desc.length.toNat]
      apply readBytes_congr
      intro i hi
      apply hframe
      intro d hd
      rcases hapart.1 d hd with h | h
      · exact Or.inl (by omega)
      · exact Or.inr (by omega)
    · intro a ha
      have hself := ha desc List.mem_cons_self
      rw [← overwrite_of_notMem memory
        (fun i => storage (offset.toNat + transferred.toNat + i)) hself]
      exact hframe a fun d hd => ha d (List.mem_cons_of_mem _ hd)

end
end OpenFlash.Qemu
