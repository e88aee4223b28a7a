import Mathlib.Data.List.Basic

/-! Byte buffers as lists: slices and slice assignment. -/
namespace Support

/-- `buffer[off : off + n]`. -/
def slice (buffer : List UInt8) (off n : ℕ) : List UInt8 := (buffer.drop off).take n

/-- `buffer[off : off + n] = data`. -/
def assignSlice (buffer : List UInt8) (off n : ℕ) (data : List UInt8) : List UInt8 :=
  buffer.take off ++ data ++ buffer.drop (off + n)

theorem length_slice {buffer : List UInt8} {off n : ℕ} (h : off + n ≤ buffer.length) :
    (slice buffer off n).length = n := by
  simp only [slice, List.length_take, List.length_drop]
  omega

theorem getElem?_slice (buffer : List UInt8) (off n i : ℕ) :
    (slice buffer off n)[i]? = if i < n then buffer[off + i]? else none := by
  simp only [slice, List.getElem?_take, List.getElem?_drop]

theorem length_assignSlice {buffer data : List UInt8} {off n : ℕ} (hd : data.length = n)
    (h : off + n ≤ buffer.length) : (assignSlice buffer off n data).length = buffer.length := by
  simp only [assignSlice, List.length_append, List.length_take, List.length_drop]
  omega

/-- Assigning as many bytes as the slice holds writes them in place. -/
theorem getElem?_assignSlice {buffer data : List UInt8} {off n : ℕ} (hd : data.length = n)
    (h : off + n ≤ buffer.length) (i : ℕ) :
    (assignSlice buffer off n data)[i]? =
      if off ≤ i ∧ i < off + n then data[i - off]? else buffer[i]? := by
  have hl : (buffer.take off ++ data).length = off + n := by
    simp only [List.length_append, List.length_take]
    omega
  unfold assignSlice
  by_cases h1 : i < off + n
  · rw [List.getElem?_append_left (by omega)]
    by_cases h2 : i < off
    · rw [List.getElem?_append_left (by simp only [List.length_take]; omega),
        List.getElem?_take_of_lt h2, if_neg (by omega)]
    · rw [List.getElem?_append_right (by simp only [List.length_take]; omega), if_pos (by omega)]
      congr 1
      simp only [List.length_take]
      omega
  · rw [List.getElem?_append_right (by omega), hl, if_neg (by omega), List.getElem?_drop]
    congr 1
    omega

theorem slice_assignSlice_self {buffer data : List UInt8} {off n : ℕ} (hd : data.length = n)
    (h : off + n ≤ buffer.length) : slice (assignSlice buffer off n data) off n = data := by
  apply List.ext_getElem?
  intro i
  rw [getElem?_slice, getElem?_assignSlice hd h]
  by_cases hi : i < n
  · rw [if_pos hi, if_pos (by omega), Nat.add_sub_cancel_left]
  · rw [if_neg hi, List.getElem?_eq_none (by omega)]

theorem slice_assignSlice_of_le {buffer data : List UInt8} {off n off' n' : ℕ}
    (hd : data.length = n) (h : off + n ≤ buffer.length) (hle : off' + n' ≤ off) :
    slice (assignSlice buffer off n data) off' n' = slice buffer off' n' := by
  apply List.ext_getElem?
  intro i
  rw [getElem?_slice, getElem?_slice, getElem?_assignSlice hd h]
  split_ifs with h1 h2
  · omega
  · rfl
  · rfl

end Support
