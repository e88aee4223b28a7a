import OpenFlash.Reference.Device
import OpenFlash.Support.Memory
import OpenFlash.Support.Runs

/-! The reference device as a pair of total block arrays. Its sparse maps are an
encoding: absent blocks read as zero, and flushing replays the overlay on the
stable map. -/
namespace OpenFlash.Reference
open Abi Support

structure BlockArrays where
  visible : ℕ → Block
  durable : ℕ → Block

namespace BlockArrays

def zero : BlockArrays := ⟨fun _ => zeroBlock, fun _ => zeroBlock⟩

/-- The effect of a command that completes successfully. -/
def next (a : BlockArrays) (command : Command) (dma : Dma) : BlockArrays :=
  match Opcode.ofNat? command.opcode with
  | some .write =>
      let visible := overwrite a.visible command.lba command.nblocks fun i =>
        slice (dma.getD command.dataAddr []) (i * blockSize) blockSize
      ⟨visible, if command.flags &&& flagFua ≠ 0 then visible else a.durable⟩
  | some .discard =>
      ⟨overwrite a.visible command.lba command.nblocks fun _ => zeroBlock, a.durable⟩
  | some .flush => ⟨a.visible, a.visible⟩
  | _ => a

/-- The blocks a successful read leaves in its buffer. -/
def Returns (a : BlockArrays) (command : Command) (dma : Dma) : Prop :=
  ∀ i < command.nblocks,
    slice (dma.getD command.dataAddr []) (i * blockSize) blockSize = a.visible (command.lba + i)

end BlockArrays

inductive Call where
  | execute (command : Command) (dma : Dma)
  | injectNextFault (status : Status)
  | powerLoss

/-- What a call returns: a completion with the buffers it leaves, or whether it raised. -/
inductive Outcome where
  | completed (completion : Completion) (dma : Dma)
  | returned (result : Except String Unit)

def BlockArrays.Allows (a : BlockArrays) : Call → Outcome → BlockArrays → Prop
  | .execute command dma, .completed completion dma', a' =>
      if completion.status = .success then
        a' = a.next command dma ∧
          (Opcode.ofNat? command.opcode = some .read → a.Returns command dma')
      else a' = a
  | .injectNextFault _, .returned _, a' => a' = a
  | .powerLoss, .returned _, a' => a' = ⟨a.durable, a.durable⟩
  | _, _, _ => False

namespace ReferenceDevice
variable {d : ReferenceDevice}

def call (d : ReferenceDevice) : Call → Outcome × ReferenceDevice
  | .execute command dma =>
      let r := d.execute command dma
      (.completed r.1 r.2.2, r.2.1)
  | .injectNextFault status =>
      let r := d.injectNextFault status
      (.returned r.1, r.2)
  | .powerLoss => (.returned (.ok ()), d.powerLoss)

def arrays (d : ReferenceDevice) : BlockArrays := ⟨d.load, fun b => d.stable.getD b zeroBlock⟩

/-- Every stored block holds exactly one block of bytes. -/
structure Sized (d : ReferenceDevice) : Prop where
  stable : ∀ b data, d.stable.get? b = some data → data.length = blockSize
  volatile : ∀ b data, d.volatile.get? b = some (some data) → data.length = blockSize

theorem flushEntries_get? (entries : List (ℕ × Option Block)) (hn : (entries.map Prod.fst).Nodup)
    (stable : Dict ℕ Block) (b : ℕ) :
    (entries.foldl flushEntry stable).get? b =
      match Dict.assoc b entries with
      | none => stable.get? b
      | some data => data := by
  induction entries generalizing stable with
  | nil => rfl
  | cons e entries ih =>
    rw [List.map_cons, List.nodup_cons] at hn
    rw [List.foldl_cons, ih hn.2]
    by_cases he : e.1 = b
    · have hnone : Dict.assoc b entries = none := by
        cases ha : Dict.assoc b entries with
        | none => rfl
        | some v =>
          have hm := (Dict.assoc_eq_some_iff hn.2).mp ha
          exact absurd (List.mem_map.mpr ⟨_, hm, he.symm⟩) hn.1
      obtain ⟨k, data⟩ := e
      cases data <;> simp_all [Dict.assoc, flushEntry, Dict.get?_pop]
    · obtain ⟨k, data⟩ := e
      cases data <;> simp_all [Dict.assoc, flushEntry, Dict.get?_pop, Dict.get?_set]

theorem flush_stable_get? (d : ReferenceDevice) (b : ℕ) :
    d.flush.stable.get? b =
      match d.volatile.get? b with
      | none => d.stable.get? b
      | some data => data := flushEntries_get? _ d.volatile.nodup d.stable b

/-- Flushing makes the stable map hold what the overlay showed. -/
theorem flush_arrays (d : ReferenceDevice) :
    d.flush.arrays = ⟨d.arrays.visible, d.arrays.visible⟩ := by
  have h : ∀ b, d.flush.stable.getD b zeroBlock = d.load b := by
    intro b
    simp only [Dict.getD, flush_stable_get?, load]
    cases d.volatile.get? b <;> simp
  simp only [arrays, BlockArrays.mk.injEq]
  refine ⟨?_, funext h⟩
  funext b
  rw [← h b]
  simp [load, flush, Dict.getD]

theorem powerLoss_arrays (d : ReferenceDevice) :
    d.powerLoss.arrays = ⟨d.arrays.durable, d.arrays.durable⟩ := by
  simp only [arrays, BlockArrays.mk.injEq, powerLoss, and_true]
  funext b
  simp [load, Dict.getD]

/-- A loop that stores entry `i` at `lba + i` touches exactly that range of keys. -/
theorem foldl_set_get? {ν : Type} (lba nblocks : ℕ) (data : ℕ → ν) (v : Dict ℕ ν) (b : ℕ) :
    ((List.range nblocks).foldl (fun v i => v.set (lba + i) (data i)) v).get? b =
      if lba ≤ b ∧ b < lba + nblocks then some (data (b - lba)) else v.get? b := by
  induction nblocks with
  | zero => rw [if_neg (by omega)]; rfl
  | succ n ih =>
    rw [List.range_succ, List.foldl_append, List.foldl_cons, List.foldl_nil, Dict.get?_set, ih]
    by_cases hb : lba + n = b
    · subst hb
      rw [if_pos rfl, if_pos (by omega), Nat.add_sub_cancel_left]
    · rw [if_neg hb]
      congr 1
      simp only [eq_iff_iff]
      omega

theorem store_arrays (d : ReferenceDevice) (lba nblocks : ℕ) (buffer : List UInt8) :
    (d.store lba nblocks buffer).arrays =
      ⟨overwrite d.arrays.visible lba nblocks fun i =>
        slice buffer (i * blockSize) blockSize, d.arrays.durable⟩ := by
  simp only [arrays, store, BlockArrays.mk.injEq, and_true]
  funext b
  simp only [load, Dict.getD, foldl_set_get?, overwrite]
  split_ifs <;> rfl

theorem discard_arrays (d : ReferenceDevice) (lba nblocks : ℕ) :
    (d.discard lba nblocks).arrays =
      ⟨overwrite d.arrays.visible lba nblocks fun _ => zeroBlock, d.arrays.durable⟩ := by
  simp only [arrays, discard, BlockArrays.mk.injEq, and_true]
  funext b
  simp only [load, Dict.getD, foldl_set_get? lba nblocks (fun _ => none), overwrite]
  split_ifs <;> rfl

theorem fresh_sized (n : ℕ) (h : 0 < n) : (fresh n h).Sized := by
  constructor
  · intro b data hb
    simp [fresh] at hb
  · intro b data hb
    simp [fresh] at hb

theorem flush_sized (h : d.Sized) : d.flush.Sized := by
  constructor
  · intro b data hb
    rw [flush_stable_get?] at hb
    cases hv : d.volatile.get? b with
    | none => exact h.stable b data (by simpa [hv] using hb)
    | some x => exact h.volatile b data (by simpa [hv] using hb)
  · intro b data hb
    simp [flush] at hb

theorem store_sized {lba nblocks : ℕ} {buffer : List UInt8} (h : d.Sized)
    (hl : nblocks * blockSize ≤ buffer.length) : (d.store lba nblocks buffer).Sized := by
  refine ⟨h.stable, ?_⟩
  intro b data hb
  simp only [store, foldl_set_get?] at hb
  split_ifs at hb with hr
  · rw [← Option.some.inj (Option.some.inj hb)]
    apply length_slice
    have : (b - lba + 1) * blockSize ≤ nblocks * blockSize := Nat.mul_le_mul_right _ (by omega)
    rw [Nat.add_mul] at this
    omega
  · exact h.volatile b data hb

theorem discard_sized {lba nblocks : ℕ} (h : d.Sized) : (d.discard lba nblocks).Sized := by
  refine ⟨h.stable, ?_⟩
  intro b data hb
  simp only [discard, foldl_set_get? lba nblocks (fun _ => none)] at hb
  split_ifs at hb
  · simp at hb
  · exact h.volatile b data hb

theorem load_length (h : d.Sized) (b : ℕ) : (d.load b).length = blockSize := by
  have hz : zeroBlock.length = blockSize := List.length_replicate
  simp only [load, Dict.getD]
  cases hv : d.volatile.get? b with
  | none =>
    cases hs : d.stable.get? b with
    | none => exact hz
    | some data => exact h.stable b data hs
  | some x =>
    cases x with
    | none => exact hz
    | some data => exact h.volatile b data hv

/-- The read loop fills one block of the buffer per iteration and keeps its length. -/
theorem readInto_spec (h : d.Sized) {lba nblocks : ℕ} {buffer : List UInt8}
    (hl : nblocks * blockSize ≤ buffer.length) :
    (d.readInto lba nblocks buffer).length = buffer.length ∧
      ∀ i < nblocks, slice (d.readInto lba nblocks buffer) (i * blockSize) blockSize =
        d.load (lba + i) := by
  induction nblocks with
  | zero => exact ⟨rfl, fun i hi => absurd hi (Nat.not_lt_zero i)⟩
  | succ n ih =>
    rw [Nat.add_mul, Nat.one_mul] at hl
    obtain ⟨hlen, hslice⟩ := ih (by omega)
    have hstep : d.readInto lba (n + 1) buffer = assignSlice (d.readInto lba n buffer)
        (n * blockSize) blockSize (d.load (lba + n)) := by
      simp only [readInto, List.range_succ, List.foldl_append, List.foldl_cons, List.foldl_nil]
    have hroom : n * blockSize + blockSize ≤ (d.readInto lba n buffer).length := by omega
    have hdata := load_length h (lba + n)
    rw [hstep]
    refine ⟨(length_assignSlice hdata hroom).trans hlen, ?_⟩
    intro i hi
    rcases Nat.lt_succ_iff_lt_or_eq.mp hi with hi | rfl
    · have hle : (i + 1) * blockSize ≤ n * blockSize := Nat.mul_le_mul_right _ hi
      rw [Nat.add_mul, Nat.one_mul] at hle
      rw [slice_assignSlice_of_le hdata hroom hle]
      exact hslice i hi
    · exact slice_assignSlice_self hdata hroom

/-- Byte by byte, a read puts the visible image in front of the rest of the buffer. -/
theorem getElem?_readInto (h : d.Sized) {lba nblocks : ℕ} {buffer : List UInt8}
    (hl : nblocks * blockSize ≤ buffer.length) (i : ℕ) :
    (d.readInto lba nblocks buffer)[i]? = if i < nblocks * blockSize then
      some (flat blockSize 0 d.load (lba * blockSize + i)) else buffer[i]? := by
  induction nblocks with
  | zero => rw [Nat.zero_mul, if_neg (Nat.not_lt_zero i)]; rfl
  | succ n ih =>
    rw [Nat.add_mul, Nat.one_mul] at hl
    have hstep : d.readInto lba (n + 1) buffer = assignSlice (d.readInto lba n buffer)
        (n * blockSize) blockSize (d.load (lba + n)) := by
      simp only [readInto, List.range_succ, List.foldl_append, List.foldl_cons, List.foldl_nil]
    have hlen : (d.readInto lba n buffer).length = buffer.length :=
      (readInto_spec h (by omega)).1
    have hdata := load_length h (lba + n)
    rw [hstep, getElem?_assignSlice hdata (by omega), ih (by omega), Nat.add_mul, Nat.one_mul]
    by_cases hlast : n * blockSize ≤ i ∧ i < n * blockSize + blockSize
    · have hj : i - n * blockSize < blockSize := by omega
      have haddr : lba * blockSize + i = (lba + n) * blockSize + (i - n * blockSize) := by
        rw [Nat.add_mul]
        omega
      rw [if_pos hlast, if_pos hlast.2, haddr, flat_mul_add 0 d.load (lba + n) hj,
        List.getD_eq_getElem?_getD, List.getElem?_eq_getElem (by omega), Option.getD_some]
    · rw [if_neg hlast]
      split_ifs <;> first | rfl | omega

/-- A performed command acts on the arrays as its status says, and keeps blocks whole. -/
def Performs (d : ReferenceDevice) (command : Command) (dma : Dma)
    (r : (Status × ℕ) × ReferenceDevice × Dma) : Prop :=
  r.2.1.Sized ∧
    if r.1.1 = .success then
      r.2.1.arrays = d.arrays.next command dma ∧
        (Opcode.ofNat? command.opcode = some .read → d.arrays.Returns command r.2.2)
    else r.2.1.arrays = d.arrays

theorem performs_failure {command : Command} {dma : Dma} {status : Status} {n : ℕ} (h : d.Sized)
    (hs : status ≠ .success) : d.Performs command dma ((status, n), d, dma) := by
  refine ⟨h, ?_⟩
  rw [if_neg hs]

theorem performs_update {command : Command} {dma dma' : Dma} {n : ℕ} {d' : ReferenceDevice}
    (h : d'.Sized) (harr : d'.arrays = d.arrays.next command dma)
    (hop : Opcode.ofNat? command.opcode ≠ some .read) :
    d.Performs command dma ((.success, n), d', dma') := by
  refine ⟨h, ?_⟩
  rw [if_pos rfl]
  exact ⟨harr, fun hr => absurd hr hop⟩

theorem store_performs {command : Command} {dma : Dma} {buffer : List UInt8} (h : d.Sized)
    (hop : Opcode.ofNat? command.opcode = some .write)
    (hb : dma.get? command.dataAddr = some buffer)
    (hlen : command.nblocks * blockSize ≤ buffer.length) :
    d.Performs command dma ((.success, command.nblocks),
      (if command.flags &&& flagFua ≠ 0 then (d.store command.lba command.nblocks buffer).flush
        else d.store command.lba command.nblocks buffer), dma) := by
  have hs : (d.store command.lba command.nblocks buffer).Sized := store_sized h hlen
  have hbuf : dma.getD command.dataAddr [] = buffer := by rw [Dict.getD, hb, Option.getD_some]
  have hread : Opcode.ofNat? command.opcode ≠ some .read := by rw [hop]; decide
  split_ifs with hfua
  · apply performs_update (flush_sized hs) ?_ hread
    rw [flush_arrays, store_arrays]
    simp only [BlockArrays.next, hop, hbuf, if_pos hfua]
  · apply performs_update hs ?_ hread
    rw [store_arrays]
    simp only [BlockArrays.next, hop, hbuf, if_neg hfua]

theorem readInto_performs {command : Command} {dma : Dma} {buffer : List UInt8} (h : d.Sized)
    (hop : Opcode.ofNat? command.opcode = some .read)
    (hlen : command.nblocks * blockSize ≤ buffer.length) :
    d.Performs command dma ((.success, command.nblocks), d,
      dma.set command.dataAddr (d.readInto command.lba command.nblocks buffer)) := by
  refine ⟨h, ?_⟩
  rw [if_pos rfl]
  refine ⟨by simp only [BlockArrays.next, hop], fun _ i hi => ?_⟩
  simp only [Dict.getD, Dict.get?_set_self, Option.getD_some]
  exact (readInto_spec h hlen).2 i hi

theorem dispatchBuffer_performs {opcode : Opcode} {command : Command} {dma : Dma}
    {buffer : List UInt8} (h : d.Sized) (hop : Opcode.ofNat? command.opcode = some opcode)
    (hb : dma.get? command.dataAddr = some buffer) :
    d.Performs command dma (d.dispatchBuffer opcode command dma buffer) := by
  unfold dispatchBuffer
  by_cases hlen : buffer.length < command.nblocks * blockSize
  · rw [if_pos hlen]
    exact performs_failure h (by decide)
  · rw [if_neg hlen]
    cases opcode with
    | write => exact store_performs h hop hb (Nat.le_of_not_lt hlen)
    | read => exact readInto_performs h hop (Nat.le_of_not_lt hlen)
    | flush => exact performs_failure h (by decide)
    | discard => exact performs_failure h (by decide)
    | identify => exact performs_failure h (by decide)

theorem dispatch_performs {opcode : Opcode} {command : Command} (dma : Dma) (h : d.Sized)
    (hop : Opcode.ofNat? command.opcode = some opcode) :
    d.Performs command dma (d.dispatch opcode command dma) := by
  unfold dispatch
  split_ifs with hid hfl hn hcap hdis
  · subst hid
    exact performs_update h (by simp only [BlockArrays.next, hop]) (by rw [hop]; decide)
  · subst hfl
    exact performs_update (flush_sized h) (by simp only [flush_arrays, BlockArrays.next, hop])
      (by rw [hop]; decide)
  · exact performs_failure h (by decide)
  · exact performs_failure h (by decide)
  · subst hdis
    exact performs_update (discard_sized h) (by simp only [discard_arrays, BlockArrays.next, hop])
      (by rw [hop]; decide)
  · cases hb : dma.get? command.dataAddr with
    | none => exact performs_failure h (by decide)
    | some buffer => exact dispatchBuffer_performs h hop hb

theorem perform_performs (h : d.Sized) (command : Command) (dma : Dma) (hf : d.nextFault = none) :
    d.Performs command dma (d.perform command dma) := by
  unfold perform
  rw [hf]
  cases hop : Opcode.ofNat? command.opcode with
  | none => exact performs_failure h (by decide)
  | some opcode => exact dispatch_performs dma h hop

/-- Injected faults are never successes, so a faulted command changes nothing. -/
structure Inv (d : ReferenceDevice) : Prop where
  sized : d.Sized
  fault : d.nextFault ≠ some .success

theorem dispatch_nextFault (opcode : Opcode) (command : Command) (dma : Dma) :
    (d.dispatch opcode command dma).2.1.nextFault = d.nextFault := by
  have hbuf : ∀ buffer, (d.dispatchBuffer opcode command dma buffer).2.1.nextFault =
      d.nextFault := by
    intro buffer
    unfold dispatchBuffer
    split_ifs <;> rfl
  unfold dispatch
  split_ifs
  · rfl
  · rfl
  · rfl
  · rfl
  · rfl
  · cases dma.get? command.dataAddr with
    | none => rfl
    | some buffer => exact hbuf buffer

theorem execute_spec (h : d.Inv) (command : Command) (dma : Dma) :
    (d.execute command dma).2.1.Inv ∧
      d.arrays.Allows (.execute command dma)
        (.completed (d.execute command dma).1 (d.execute command dma).2.2)
        (d.execute command dma).2.1.arrays := by
  have hp : d.Performs command dma (d.perform command dma) ∧
      (d.perform command dma).2.1.nextFault = none := by
    cases hf : d.nextFault with
    | none =>
      refine ⟨perform_performs h.sized command dma hf, ?_⟩
      unfold perform
      rw [hf]
      cases Opcode.ofNat? command.opcode with
      | none => exact hf
      | some opcode => exact (dispatch_nextFault opcode command dma).trans hf
    | some status =>
      have hs : status ≠ .success := fun he => h.fault (he ▸ hf)
      unfold perform
      rw [hf]
      refine ⟨⟨⟨h.sized.stable, h.sized.volatile⟩, ?_⟩, rfl⟩
      rw [if_neg hs]
      rfl
  refine ⟨⟨⟨hp.1.1.stable, hp.1.1.volatile⟩, ?_⟩, hp.1.2⟩
  show (d.perform command dma).2.1.nextFault ≠ _
  rw [hp.2]
  exact nofun

theorem call_spec (h : d.Inv) (c : Call) :
    (d.call c).2.Inv ∧ d.arrays.Allows c (d.call c).1 (d.call c).2.arrays := by
  cases c with
  | execute command dma => exact execute_spec h command dma
  | injectNextFault status =>
    simp only [call, injectNextFault]
    split_ifs with hs
    · exact ⟨h, rfl⟩
    · exact ⟨⟨⟨h.sized.stable, h.sized.volatile⟩, fun he => hs (Option.some.inj he)⟩, rfl⟩
  | powerLoss =>
    refine ⟨⟨⟨h.sized.stable, ?_⟩, h.fault⟩, d.powerLoss_arrays⟩
    intro b data hb
    simp [call, powerLoss] at hb

/-- Every history of commands, faults and power losses is a history of two block
arrays that start at zero. -/
theorem referenceDevice_blockArrays (capacityBlocks : ℕ) (hcap : 0 < capacityBlocks)
    (calls : List Call) :
    Trace BlockArrays.Allows BlockArrays.zero (runOutputs call (fresh capacityBlocks hcap) calls).1
      (runOutputs call (fresh capacityBlocks hcap) calls).2.arrays :=
  runOutputs_trace (fun _ c h => (call_spec h c).1) (fun _ c h => (call_spec h c).2) calls
    ⟨fresh_sized capacityBlocks hcap, nofun⟩

def discardAcrossPowerLoss : List Call :=
  [.execute { opcode := 0x04, lba := 3, nblocks := 2 } .empty, .injectNextFault .mediaError,
    .execute { opcode := 0x03 } .empty, .powerLoss, .execute { opcode := 0x03 } .empty]

theorem discardAcrossPowerLoss_blockArrays :
    0 < 8 ∧ Trace BlockArrays.Allows BlockArrays.zero
      (runOutputs call (fresh 8 (by decide)) discardAcrossPowerLoss).1
      (runOutputs call (fresh 8 (by decide)) discardAcrossPowerLoss).2.arrays :=
  ⟨by decide, referenceDevice_blockArrays 8 (by decide) discardAcrossPowerLoss⟩

end ReferenceDevice
end OpenFlash.Reference
