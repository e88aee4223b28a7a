import Mathlib.Algebra.Order.Ring.Nat
import OpenFlash.Support.Bytes

/-! Total memories addressed by naturals: range updates, and little-endian numbers
stored in a byte memory. -/
namespace Support
variable {α : Type}

/-- Cells `lo, …, lo + n - 1` take the values `data 0, …, data (n - 1)`. -/
def overwrite (cells : ℕ → α) (lo n : ℕ) (data : ℕ → α) : ℕ → α :=
  fun a => if lo ≤ a ∧ a < lo + n then data (a - lo) else cells a

theorem overwrite_add (cells : ℕ → α) {lo n i : ℕ} (data : ℕ → α) (h : i < n) :
    overwrite cells lo n data (lo + i) = data i := by
  rw [overwrite, if_pos (by omega), Nat.add_sub_cancel_left]

theorem overwrite_of_notMem (cells : ℕ → α) {lo n a : ℕ} (data : ℕ → α)
    (h : a < lo ∨ lo + n ≤ a) : overwrite cells lo n data a = cells a := by
  rw [overwrite, if_neg (by omega)]

/-- Overwriting agreeing cells with agreeing data keeps them in agreement. -/
theorem overwrite_congr {cells cells' data data' : ℕ → α} {lo n size : ℕ}
    (hcells : ∀ a < size, cells a = cells' a) (hdata : ∀ i < n, data i = data' i) :
    ∀ a < size, overwrite cells lo n data a = overwrite cells' lo n data' a := by
  intro a ha
  unfold overwrite
  split_ifs with h
  · exact hdata _ (by omega)
  · exact hcells a ha

/-- Blocks of `size` cells laid out one after the other. -/
def flat (size : ℕ) (blank : α) (blocks : ℕ → List α) : ℕ → α :=
  fun a => (blocks (a / size)).getD (a % size) blank

/-- Overwriting whole blocks overwrites one range of cells. -/
theorem flat_overwrite {size : ℕ} (hsize : 0 < size) (blank : α) (blocks data : ℕ → List α)
    (lo n : ℕ) :
    flat size blank (overwrite blocks lo n data)
      = overwrite (flat size blank blocks) (lo * size) (n * size) (flat size blank data) := by
  funext a
  have hrange : (lo ≤ a / size ∧ a / size < lo + n) ↔
      (lo * size ≤ a ∧ a < lo * size + n * size) := by
    rw [Nat.le_div_iff_mul_le hsize, Nat.div_lt_iff_lt_mul hsize, Nat.add_mul]
  unfold flat overwrite
  by_cases h : lo * size ≤ a ∧ a < lo * size + n * size
  · have hmul : size * lo ≤ a := by
      rw [Nat.mul_comm]
      exact h.1
    rw [if_pos (hrange.mpr h), if_pos h]
    dsimp only
    rw [Nat.mul_comm lo, Nat.sub_mul_div, Nat.sub_mul_mod hmul]
  · rw [if_neg (fun hr => h (hrange.mp hr)), if_neg h]

/-- Cell `j` of block `b`. -/
theorem flat_mul_add {size : ℕ} (blank : α) (blocks : ℕ → List α) (b : ℕ) {j : ℕ}
    (hj : j < size) : flat size blank blocks (b * size + j) = (blocks b).getD j blank := by
  have hdiv : (b * size + j) / size = b := by
    rw [Nat.mul_comm, Nat.mul_add_div (by omega), Nat.div_eq_of_lt hj, Nat.add_zero]
  rw [flat, hdiv, Nat.mul_comm, Nat.mul_add_mod, Nat.mod_eq_of_lt hj]

/-- The slices of a buffer laid out again are the buffer. -/
theorem flat_slice {size : ℕ} (hsize : 0 < size) (buffer : List UInt8) (i : ℕ) :
    flat size 0 (fun b => slice buffer (b * size) size) i = buffer.getD i 0 := by
  simp only [flat, List.getD_eq_getElem?_getD, getElem?_slice, Nat.mod_lt i hsize, if_true]
  rw [Nat.div_add_mod']

abbrev Memory := ℕ → UInt8

/-- The bytes of a buffer in memory. -/
def readBytes (memory : Memory) (addr n : ℕ) : List UInt8 :=
  (List.range n).map fun i => memory (addr + i)

@[simp] theorem length_readBytes (memory : Memory) (addr n : ℕ) :
    (readBytes memory addr n).length = n := by simp [readBytes]

theorem getElem?_readBytes (memory : Memory) (addr n i : ℕ) :
    (readBytes memory addr n)[i]? = if i < n then some (memory (addr + i)) else none := by
  by_cases h : i < n <;> simp [readBytes, h]

theorem getD_readBytes (memory : Memory) (addr : ℕ) {n i : ℕ} (h : i < n) :
    (readBytes memory addr n).getD i 0 = memory (addr + i) := by
  simp [readBytes, h]

theorem readBytes_congr {memory memory' : Memory} {addr n : ℕ}
    (h : ∀ i < n, memory (addr + i) = memory' (addr + i)) :
    readBytes memory addr n = readBytes memory' addr n :=
  List.map_congr_left fun i hi => h i (List.mem_range.mp hi)

theorem readBytes_add (memory : Memory) (addr n k : ℕ) :
    readBytes memory addr (n + k) = readBytes memory addr n ++ readBytes memory (addr + n) k := by
  simp only [readBytes, List.range_add, List.map_append, List.map_map, List.append_cancel_left_eq]
  exact List.map_congr_left fun i _ => congrArg memory (Nat.add_assoc addr n i).symm

theorem readBytes_overwrite (memory source : Memory) (addr start n : ℕ) :
    readBytes (overwrite memory addr n fun i => source (start + i)) addr n
      = readBytes source start n :=
  List.map_congr_left fun _ hi => overwrite_add memory _ (List.mem_range.mp hi)

/-- A memory that holds the bytes of `source` in a range and agrees with `cells` elsewhere. -/
theorem eq_overwrite {memory cells source : Memory} {lo start n : ℕ}
    (hin : readBytes memory lo n = readBytes source start n)
    (hout : ∀ a, a < lo ∨ lo + n ≤ a → memory a = cells a) :
    memory = overwrite cells lo n fun i => source (start + i) := by
  funext a
  by_cases ha : lo ≤ a ∧ a < lo + n
  · obtain ⟨i, rfl⟩ := Nat.exists_eq_add_of_le ha.1
    have hi : i < n := by omega
    rw [overwrite_add cells _ hi, ← getD_readBytes memory lo hi, hin,
      getD_readBytes source start hi]
  · rw [overwrite_of_notMem cells _ (by omega)]
    exact hout a (by omega)

/-- Two ranges of addresses without a common element. -/
def Apart (a n b k : ℕ) : Prop := a + n ≤ b ∨ b + k ≤ a

instance (a n b k : ℕ) : Decidable (Apart a n b k) := inferInstanceAs (Decidable (_ ∨ _))

/-- The `n`-byte little-endian number at `addr`. -/
def readLE (memory : Memory) (addr : ℕ) : ℕ → ℕ
  | 0 => 0
  | n + 1 => (memory addr).toNat + 256 * readLE memory (addr + 1) n

theorem readLE_congr {memory memory' : Memory} {n addr : ℕ}
    (h : ∀ i < n, memory' (addr + i) = memory (addr + i)) :
    readLE memory' addr n = readLE memory addr n := by
  induction n generalizing addr with
  | zero => rfl
  | succ n ih =>
    have hrest : readLE memory' (addr + 1) n = readLE memory (addr + 1) n := by
      apply ih
      intro i hi
      rw [Nat.add_assoc, Nat.add_comm 1]
      exact h (i + 1) (by omega)
    have hfirst : memory' addr = memory addr := h 0 (by omega)
    rw [readLE, readLE, hrest, hfirst]

/-- The low `n` bytes of a number, least significant first. -/
def bytesLE : ℕ → ℕ → List UInt8
  | 0, _ => []
  | n + 1, value => UInt8.ofNat value :: bytesLE n (value / 256)

@[simp] theorem length_bytesLE (n value : ℕ) : (bytesLE n value).length = n := by
  induction n generalizing value with
  | zero => rfl
  | succ n ih => simp [bytesLE, ih]

/-- The bytes of a list stand at `addr` and after. -/
def Holds (memory : Memory) : ℕ → List UInt8 → Prop
  | _, [] => True
  | addr, byte :: rest => memory addr = byte ∧ Holds memory (addr + 1) rest

instance decidableHolds (memory : Memory) :
    (addr : ℕ) → (bytes : List UInt8) → Decidable (Holds memory addr bytes)
  | _, [] => isTrue trivial
  | addr, byte :: rest =>
      have := decidableHolds memory (addr + 1) rest
      inferInstanceAs (Decidable (memory addr = byte ∧ Holds memory (addr + 1) rest))

theorem holds_append {memory : Memory} {first second : List UInt8} {addr : ℕ} :
    Holds memory addr (first ++ second) ↔
      Holds memory addr first ∧ Holds memory (addr + first.length) second := by
  induction first generalizing addr with
  | nil => simp [Holds]
  | cons byte rest ih =>
    simp only [List.cons_append, Holds, ih, List.length_cons, and_assoc]
    rw [Nat.add_assoc, Nat.add_comm 1]

theorem readLE_of_holds {memory : Memory} {n addr value : ℕ}
    (h : Holds memory addr (bytesLE n value)) :
    readLE memory addr n = value % 2 ^ (8 * n) := by
  induction n generalizing addr value with
  | zero => simp [readLE, Nat.mod_one]
  | succ n ih =>
    have hbyte : (memory addr).toNat = value % 2 ^ 8 := by
      rw [h.1, UInt8.toNat_ofNat']
    have hpow : 2 ^ (8 * (n + 1)) = 2 ^ 8 * 2 ^ (8 * n) := by
      rw [← pow_add]
      congr 1
      omega
    rw [readLE, ih h.2, hbyte, hpow, Nat.mod_mul]
    rfl

/-- The memory that is zero except for the given bytes at `base`. -/
def placed (base : ℕ) (bytes : List UInt8) : Memory := fun a =>
  if a < base then 0 else bytes.getD (a - base) 0

theorem holds_of_getD {memory : Memory} {bytes : List UInt8} {addr : ℕ}
    (h : ∀ i < bytes.length, memory (addr + i) = bytes.getD i 0) : Holds memory addr bytes := by
  induction bytes generalizing addr with
  | nil => trivial
  | cons byte rest ih =>
    refine ⟨h 0 (by simp), ih fun i hi => ?_⟩
    have hshift : addr + 1 + i = addr + (i + 1) := by omega
    rw [hshift]
    exact h (i + 1) (by simpa using hi)

theorem placed_holds (base : ℕ) (bytes : List UInt8) : Holds (placed base bytes) base bytes := by
  apply holds_of_getD
  intro i _
  rw [placed, if_neg (by omega), Nat.add_sub_cancel_left]

end Support
