import OpenFlash.Support.Memory
import OpenFlash.Support.Ring

/-! Rings of fixed-size records in a byte memory. Slot `k` of a ring at `base` takes the `size`
bytes from `base + size * k` on. -/
namespace Support
variable {α : Type} {memory memory' : Memory} {base size depth slot : ℕ}

def slotBytes (memory : Memory) (base size slot : ℕ) : List UInt8 :=
  readBytes memory (base + size * slot) size

def writeSlot (memory : Memory) (base size slot : ℕ) (bytes : List UInt8) : Memory :=
  overwrite memory (base + size * slot) size fun i => bytes.getD i 0

theorem slot_end_le (size : ℕ) (h : slot < depth) : size * slot + size ≤ size * depth := by
  rw [← Nat.mul_succ]
  exact Nat.mul_le_mul_left size h

theorem slotBytes_writeSlot_self {bytes : List UInt8} (h : bytes.length = size) :
    slotBytes (writeSlot memory base size slot bytes) base size slot = bytes := by
  apply List.ext_getElem?
  intro i
  rw [slotBytes, getElem?_readBytes]
  by_cases hi : i < size
  · have hlt : i < bytes.length := h ▸ hi
    rw [if_pos hi, writeSlot, overwrite_add _ _ hi, List.getD_eq_getElem?_getD,
      List.getElem?_eq_getElem hlt, Option.getD_some]
  · rw [if_neg hi, List.getElem?_eq_none (by omega)]

/-- Records of different slots do not overlap. -/
theorem slotBytes_writeSlot_of_ne {other : ℕ} (bytes : List UInt8) (h : other ≠ slot) :
    slotBytes (writeSlot memory base size slot bytes) base size other
      = slotBytes memory base size other := by
  refine readBytes_congr fun i hi => overwrite_of_notMem _ _ ?_
  rcases Nat.lt_or_gt_of_ne h with hlt | hlt
  · have := slot_end_le size hlt
    left
    omega
  · have := slot_end_le size hlt
    right
    omega

/-- A write to a slot stays inside the ring. -/
theorem writeSlot_of_notMem {a : ℕ} (bytes : List UInt8) (hslot : slot < depth)
    (h : a < base ∨ base + size * depth ≤ a) :
    writeSlot memory base size slot bytes a = memory a := by
  have := slot_end_le size hslot
  apply overwrite_of_notMem
  omega

theorem slotBytes_congr (hslot : slot < depth)
    (h : ∀ a, base ≤ a → a < base + size * depth → memory' a = memory a) :
    slotBytes memory' base size slot = slotBytes memory base size slot := by
  have := slot_end_le size hslot
  exact readBytes_congr fun i hi => h _ (by omega) (by omega)

theorem holds_readBytes (memory : Memory) (addr n : ℕ) :
    Holds memory addr (readBytes memory addr n) := by
  apply holds_of_getD
  intro i hi
  rw [length_readBytes] at hi
  exact (getD_readBytes memory addr hi).symm

/-- The slots of a ring as the records that encode to them. -/
def slots (memory : Memory) (base size slot : ℕ) : Option (List UInt8) :=
  some (slotBytes memory base size slot)

namespace Ring
variable {lo : ℕ} {log : List α} {encode : α → Option (List UInt8)}

/-- Entries are found in any memory that agrees on the ring. -/
theorem Stored.congr (hd : 0 < depth)
    (h : Stored depth lo log encode (slots memory base size))
    (heq : ∀ a, base ≤ a → a < base + size * depth → memory' a = memory a) :
    Stored depth lo log encode (slots memory' base size) := by
  intro n a hlo ha
  rw [slots, slotBytes_congr (Nat.mod_lt n hd) heq]
  exact h n a hlo ha

/-- A ring with a free slot takes the bytes of the next entry. -/
theorem Stored.write {a : α} {bytes : List UInt8}
    (h : Stored depth lo log encode (slots memory base size)) (hroom : log.length - lo < depth)
    (hencode : encode a = some bytes) (hlen : bytes.length = size) :
    Stored depth lo (log ++ [a]) encode
      (slots (writeSlot memory base size (log.length % depth) bytes) base size) := by
  intro n b hlo hb
  rcases getElem?_append_singleton hb with hb | ⟨rfl, rfl⟩
  · have hn := (List.getElem?_eq_some_iff.mp hb).1
    rw [slots, slotBytes_writeSlot_of_ne _ (slot_ne_of_lt hlo hn hroom)]
    exact h n b hlo hb
  · rw [slots, slotBytes_writeSlot_self hlen, hencode]

end Ring
end Support
