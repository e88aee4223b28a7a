import OpenFlash.Reference.BlockArrays

/-! What a command of the reference device may change. A command that fails changes neither
the device nor a buffer, a read changes the front of its own buffer, and no other command
changes a buffer. -/
namespace OpenFlash.Reference
open Abi Support
namespace ReferenceDevice
variable {d : ReferenceDevice} {command : Command} {dma : Dma}

/-- Both maps have the same entries. -/
def SameContents (d d' : ReferenceDevice) : Prop :=
  d'.stable = d.stable ∧ d'.volatile = d.volatile

/-- The buffers agree but for the first `size` bytes of the one at `addr`. -/
structure FillsFront (addr size : ℕ) (dma dma' : Dma) : Prop where
  others : ∀ a ≠ addr, dma'.get? a = dma.get? a
  buffer : ∃ before after, dma.get? addr = some before ∧ dma'.get? addr = some after ∧
    after.length = before.length ∧ ∀ i, size ≤ i → after[i]? = before[i]?

/-- The effect of a command, by its status and its opcode. -/
structure Confined (d : ReferenceDevice) (command : Command) (dma : Dma)
    (r : (Status × ℕ) × ReferenceDevice × Dma) : Prop where
  failure : r.1.1 ≠ .success → SameContents d r.2.1 ∧ r.2.2 = dma
  read : r.1.1 = .success → Opcode.ofNat? command.opcode = some .read →
    SameContents d r.2.1 ∧ FillsFront command.dataAddr (command.nblocks * blockSize) dma r.2.2
  other : r.1.1 = .success → Opcode.ofNat? command.opcode ≠ some .read → r.2.2 = dma

/-- Every key of either map is a block of the device. -/
structure KeysInside (d : ReferenceDevice) : Prop where
  stable : ∀ lba, (d.stable.get? lba).isSome → lba < d.capacityBlocks
  volatile : ∀ lba, (d.volatile.get? lba).isSome → lba < d.capacityBlocks

theorem confined_failure {status : Status} {n : ℕ} {d' : ReferenceDevice} (h : status ≠ .success)
    (hsame : SameContents d d') : Confined d command dma ((status, n), d', dma) :=
  ⟨fun _ => ⟨hsame, rfl⟩, fun hs => absurd hs h, fun hs => absurd hs h⟩

theorem confined_update {n : ℕ} (d' : ReferenceDevice)
    (hop : Opcode.ofNat? command.opcode ≠ some .read) :
    Confined d command dma ((.success, n), d', dma) :=
  ⟨fun hs => absurd rfl hs, fun _ hread => absurd hread hop, fun _ _ => rfl⟩

theorem readInto_fillsFront (h : d.Sized) {lba nblocks addr : ℕ} {buffer : List UInt8}
    (hb : dma.get? addr = some buffer) (hlen : nblocks * blockSize ≤ buffer.length) :
    FillsFront addr (nblocks * blockSize) dma (dma.set addr (d.readInto lba nblocks buffer)) := by
  refine ⟨fun a ha => dma.get?_set_of_ne _ ha.symm, buffer, _, hb, dma.get?_set_self _ _,
    (readInto_spec h hlen).1, fun i hi => ?_⟩
  rw [getElem?_readInto h hlen, if_neg (Nat.not_lt.mpr hi)]

theorem dispatchBuffer_confined {opcode : Opcode} {buffer : List UInt8} (h : d.Sized)
    (hop : Opcode.ofNat? command.opcode = some opcode)
    (hb : dma.get? command.dataAddr = some buffer) :
    Confined d command dma (d.dispatchBuffer opcode command dma buffer) := by
  unfold dispatchBuffer
  by_cases hlen : buffer.length < command.nblocks * blockSize
  · rw [if_pos hlen]
    exact confined_failure (by decide) ⟨rfl, rfl⟩
  · rw [if_neg hlen]
    cases opcode with
    | write => exact confined_update _ (by rw [hop]; decide)
    | read =>
      refine ⟨fun hs => absurd rfl hs, fun _ _ => ⟨⟨rfl, rfl⟩, ?_⟩, fun _ hne => absurd hop hne⟩
      exact readInto_fillsFront h hb (Nat.le_of_not_lt hlen)
    | flush => exact confined_failure (by decide) ⟨rfl, rfl⟩
    | discard => exact confined_failure (by decide) ⟨rfl, rfl⟩
    | identify => exact confined_failure (by decide) ⟨rfl, rfl⟩

theorem dispatch_confined {opcode : Opcode} (h : d.Sized)
    (hop : Opcode.ofNat? command.opcode = some opcode) :
    Confined d command dma (d.dispatch opcode command dma) := by
  unfold dispatch
  split_ifs with hid hfl hn hcap hdis
  · exact confined_update _ (by rw [hop, hid]; decide)
  · exact confined_update _ (by rw [hop, hfl]; decide)
  · exact confined_failure (by decide) ⟨rfl, rfl⟩
  · exact confined_failure (by decide) ⟨rfl, rfl⟩
  · exact confined_update _ (by rw [hop, hdis]; decide)
  · cases hb : dma.get? command.dataAddr with
    | none => exact confined_failure (by decide) ⟨rfl, rfl⟩
    | some buffer => exact dispatchBuffer_confined h hop hb

/-- Injected faults are failures too. -/
theorem perform_confined (h : d.Inv) (command : Command) (dma : Dma) :
    Confined d command dma (d.perform command dma) := by
  unfold perform
  cases hf : d.nextFault with
  | some status => exact confined_failure (fun hs => h.fault (hs ▸ hf)) ⟨rfl, rfl⟩
  | none =>
    cases hop : Opcode.ofNat? command.opcode with
    | none => exact confined_failure (by decide) ⟨rfl, rfl⟩
    | some opcode => exact dispatch_confined h.sized hop

theorem flush_keysInside (h : d.KeysInside) : d.flush.KeysInside := by
  constructor
  · intro lba hlba
    rw [flush_stable_get?] at hlba
    cases hv : d.volatile.get? lba with
    | none =>
      rw [hv] at hlba
      exact h.stable lba hlba
    | some data => exact h.volatile lba (by rw [hv]; rfl)
  · intro lba hlba
    cases hlba

/-- A loop over the blocks of a range that ends inside the device. -/
theorem foldl_set_keysInside (h : d.KeysInside) {lba nblocks : ℕ} (data : ℕ → Option Block)
    (hrange : lba + nblocks ≤ d.capacityBlocks) :
    KeysInside { d with
      volatile :=
        (List.range nblocks).foldl (fun v i => v.set (lba + i) (data i)) d.volatile } := by
  refine ⟨h.stable, fun b hb => ?_⟩
  dsimp only at hb ⊢
  rw [foldl_set_get?] at hb
  split_ifs at hb with hin
  · omega
  · exact h.volatile b hb

theorem dispatchBuffer_keysInside (h : d.KeysInside) (opcode : Opcode) {buffer : List UInt8}
    (hrange : command.lba + command.nblocks ≤ d.capacityBlocks) :
    (d.dispatchBuffer opcode command dma buffer).2.1.KeysInside := by
  have hstore : (d.store command.lba command.nblocks buffer).KeysInside :=
    foldl_set_keysInside h _ hrange
  unfold dispatchBuffer
  dsimp only
  split_ifs
  · exact h
  · exact flush_keysInside hstore
  · exact hstore
  · exact h
  · exact h

theorem dispatch_keysInside (h : d.KeysInside) (opcode : Opcode) (command : Command) (dma : Dma) :
    (d.dispatch opcode command dma).2.1.KeysInside := by
  unfold dispatch
  split_ifs with hid hfl hn hcap hdis
  · exact h
  · exact flush_keysInside h
  · exact h
  · exact h
  · exact foldl_set_keysInside h (fun _ => none) (Nat.le_of_not_lt hcap)
  · cases dma.get? command.dataAddr with
    | none => exact h
    | some buffer => exact dispatchBuffer_keysInside h opcode (Nat.le_of_not_lt hcap)

theorem call_keysInside (h : d.KeysInside) (c : Call) : (d.call c).2.KeysInside := by
  cases c with
  | execute command dma =>
    have hperform : (d.perform command dma).2.1.KeysInside := by
      unfold perform
      cases d.nextFault with
      | some status => exact ⟨h.stable, h.volatile⟩
      | none =>
        cases Opcode.ofNat? command.opcode with
        | none => exact h
        | some opcode => exact dispatch_keysInside h opcode command dma
    exact ⟨hperform.stable, hperform.volatile⟩
  | injectNextFault status =>
    simp only [call, injectNextFault]
    split_ifs
    · exact h
    · exact ⟨h.stable, h.volatile⟩
  | powerLoss =>
    refine ⟨h.stable, fun lba hlba => ?_⟩
    cases hlba

theorem call_capacityBlocks (d : ReferenceDevice) (c : Call) :
    (d.call c).2.capacityBlocks = d.capacityBlocks := by
  cases c with
  | execute command dma =>
    show (d.perform command dma).2.1.capacityBlocks = d.capacityBlocks
    have hbuffer : ∀ opcode buffer,
        (d.dispatchBuffer opcode command dma buffer).2.1.capacityBlocks = d.capacityBlocks := by
      intro opcode buffer
      unfold dispatchBuffer
      dsimp only
      split_ifs <;> rfl
    unfold perform
    cases d.nextFault with
    | some status => rfl
    | none =>
      cases Opcode.ofNat? command.opcode with
      | none => rfl
      | some opcode =>
        show (d.dispatch opcode command dma).2.1.capacityBlocks = d.capacityBlocks
        unfold dispatch
        split_ifs
        · rfl
        · rfl
        · rfl
        · rfl
        · rfl
        · cases dma.get? command.dataAddr with
          | none => rfl
          | some buffer => exact hbuffer opcode buffer
  | injectNextFault status =>
    simp only [call, injectNextFault]
    split_ifs <;> rfl
  | powerLoss => rfl

/-- After any history the maps have keys below the capacity only, and every command, faulted
or not, is confined to what its status and opcode allow. -/
theorem execute_confined (capacityBlocks : ℕ) (hcap : 0 < capacityBlocks) (calls : List Call) :
    let d := (runOutputs call (fresh capacityBlocks hcap) calls).2
    (d.capacityBlocks = capacityBlocks ∧ d.KeysInside) ∧
      ∀ command dma, Confined d command dma
        (((d.execute command dma).1.status, (d.execute command dma).1.result),
          (d.execute command dma).2) := by
  intro d
  have hkeep : ∀ (d : ReferenceDevice) (c : Call),
      d.Inv ∧ d.KeysInside ∧ d.capacityBlocks = capacityBlocks →
        (d.call c).2.Inv ∧ (d.call c).2.KeysInside ∧
          (d.call c).2.capacityBlocks = capacityBlocks := by
    intro d c h
    exact ⟨(call_spec h.1 c).1, call_keysInside h.2.1 c, (d.call_capacityBlocks c).trans h.2.2⟩
  have hd : d.Inv ∧ d.KeysInside ∧ d.capacityBlocks = capacityBlocks := by
    apply runOutputs_invariant hkeep calls
    refine ⟨⟨fresh_sized capacityBlocks hcap, ?_⟩, ⟨?_, ?_⟩, rfl⟩
    · intro hfault
      cases hfault
    · intro lba hlba
      cases hlba
    · intro lba hlba
      cases hlba
  refine ⟨⟨hd.2.2, hd.2.1⟩, fun command dma => ?_⟩
  obtain ⟨hfailure, hread, hother⟩ := perform_confined hd.1 command dma
  exact ⟨hfailure, hread, hother⟩

theorem discardAcrossPowerLoss_confined :
    0 < 8 ∧
      let d := (runOutputs call (fresh 8 (by decide)) discardAcrossPowerLoss).2
      (d.capacityBlocks = 8 ∧ d.KeysInside) ∧
        ∀ command dma, Confined d command dma
          (((d.execute command dma).1.status, (d.execute command dma).1.result),
            (d.execute command dma).2) :=
  ⟨by decide, execute_confined 8 (by decide) discardAcrossPowerLoss⟩

end ReferenceDevice
end OpenFlash.Reference
