import Mathlib.Data.Nat.Log
import Mathlib.Tactic.Ring

/-! Natural numbers rounded to a number of significant bits, ties to even, and the least
number that rounds up to a given power of two. -/
namespace Support
variable {e k n p : ℕ}

/-- `n` to `p` significant bits, to the even neighbour when it is halfway. -/
def roundBits (p n : ℕ) : ℕ :=
  let unit := 2 ^ (n.log2 + 1 - p)
  let low := n / unit
  if unit < 2 * (n % unit) ∨ unit = 2 * (n % unit) ∧ low % 2 = 1 then (low + 1) * unit
  else low * unit

theorem floor_le_roundBits (p n : ℕ) :
    n / 2 ^ (n.log2 + 1 - p) * 2 ^ (n.log2 + 1 - p) ≤ roundBits p n := by
  unfold roundBits
  dsimp only
  split_ifs
  · exact Nat.mul_le_mul_right _ (Nat.le_succ _)
  · exact le_rfl

theorem roundBits_le_ceil (p n : ℕ) :
    roundBits p n ≤ (n / 2 ^ (n.log2 + 1 - p) + 1) * 2 ^ (n.log2 + 1 - p) := by
  unfold roundBits
  dsimp only
  split_ifs
  · exact le_rfl
  · exact Nat.mul_le_mul_right _ (Nat.le_succ _)

/-- A power of two below `n` is a multiple of the unit, so rounding does not cross it. -/
theorem le_roundBits (hp : 1 ≤ p) (h : 2 ^ e ≤ n) : 2 ^ e ≤ roundBits p n := by
  have hn : n ≠ 0 := fun h0 => by simp [h0] at h
  have hlog : e ≤ n.log2 := (Nat.le_log2 hn).mpr h
  have hself : 2 ^ n.log2 ≤ n := Nat.log2_self_le hn
  have hdvd : 2 ^ (n.log2 + 1 - p) ∣ 2 ^ n.log2 := Nat.pow_dvd_pow 2 (by omega)
  calc 2 ^ e ≤ 2 ^ n.log2 := Nat.pow_le_pow_right Nat.two_pos hlog
    _ = 2 ^ n.log2 / 2 ^ (n.log2 + 1 - p) * 2 ^ (n.log2 + 1 - p) :=
        (Nat.div_mul_cancel hdvd).symm
    _ ≤ n / 2 ^ (n.log2 + 1 - p) * 2 ^ (n.log2 + 1 - p) :=
        Nat.mul_le_mul_right _ (Nat.div_le_div_right hself)
    _ ≤ roundBits p n := floor_le_roundBits p n

theorem roundBits_le (hp : 1 ≤ p) (h : n < 2 ^ e) : roundBits p n ≤ 2 ^ e := by
  have hdvd : 2 ^ (n.log2 + 1 - p) ∣ 2 ^ e := by
    apply Nat.pow_dvd_pow
    by_cases hn : n = 0
    · simp [hn]
      omega
    · have := (Nat.log2_lt hn).mpr h
      omega
  have hlow : n / 2 ^ (n.log2 + 1 - p) < 2 ^ e / 2 ^ (n.log2 + 1 - p) :=
    Nat.div_lt_div_of_lt_of_dvd hdvd h
  calc roundBits p n ≤ (n / 2 ^ (n.log2 + 1 - p) + 1) * 2 ^ (n.log2 + 1 - p) :=
        roundBits_le_ceil p n
    _ ≤ 2 ^ e / 2 ^ (n.log2 + 1 - p) * 2 ^ (n.log2 + 1 - p) := Nat.mul_le_mul_right _ hlow
    _ = 2 ^ e := Nat.div_mul_cancel hdvd

/-- With `N` units to the next power of two, the last unit rounds up from its middle on. -/
theorem roundUp_iff {N unit half : ℕ} (hunit : unit = 2 * half) (hpos : 0 < half)
    (heven : N % 2 = 0) (hlt : n < N * unit) :
    (N * unit ≤ if unit < 2 * (n % unit) ∨ unit = 2 * (n % unit) ∧ n / unit % 2 = 1
        then (n / unit + 1) * unit else n / unit * unit) ↔ N * unit - half ≤ n := by
  have hposUnit : 0 < unit := by omega
  have hn : unit * (n / unit) + n % unit = n := Nat.div_add_mod n unit
  have hmod : n % unit < unit := Nat.mod_lt n hposUnit
  have hlow : n / unit < N := (Nat.div_lt_iff_lt_mul hposUnit).mpr hlt
  generalize n / unit = low at *
  generalize n % unit = rest at *
  have hlast : low + 1 = N → N * unit = unit * low + unit := fun h => by rw [← h]; ring
  constructor
  · intro h
    split_ifs at h with hup
    · have : N ≤ low + 1 := Nat.le_of_mul_le_mul_right h hposUnit
      have := hlast (by omega)
      omega
    · have : N ≤ low := Nat.le_of_mul_le_mul_right h hposUnit
      omega
  · intro h
    have hsucc : low + 1 = N := by
      by_contra hne
      have hle : (low + 2) * unit ≤ N * unit := Nat.mul_le_mul_right _ (by omega)
      have : (low + 2) * unit = unit * low + 2 * unit := by ring
      omega
    have := hlast hsucc
    rw [if_pos (by omega), hsucc]

/-- The least number that rounds to `2 ^ e` or more is half a unit below it. -/
theorem le_roundBits_iff (hp : 1 ≤ p) (hk : k + p + 1 = e) :
    2 ^ e ≤ roundBits p n ↔ 2 ^ e - 2 ^ k ≤ n := by
  have hpow : 2 ^ e = 2 ^ p * 2 ^ (k + 1) := by
    rw [← Nat.pow_add]
    congr 1
    omega
  rcases Nat.lt_or_ge n (2 ^ e) with hlt | hge
  · rcases Nat.lt_or_ge n (2 ^ (e - 1)) with hsmall | hlarge
    · have hround : roundBits p n ≤ 2 ^ (e - 1) := roundBits_le hp hsmall
      have hhalf : 2 ^ e = 2 * 2 ^ (e - 1) := by
        rw [← Nat.pow_succ']
        congr 1
        omega
      have hle : 2 ^ k ≤ 2 ^ (e - 1) := Nat.pow_le_pow_right Nat.two_pos (by omega)
      have hpos : 0 < 2 ^ k := Nat.two_pow_pos k
      omega
    · have hn : n ≠ 0 := fun h0 => by simp [h0] at hlarge
      have hlog : n.log2 + 1 - p = k + 1 := by
        have hlow : e - 1 ≤ n.log2 := (Nat.le_log2 hn).mpr hlarge
        have hhigh : n.log2 < e := (Nat.log2_lt hn).mpr hlt
        omega
      rw [hpow] at hlt ⊢
      unfold roundBits
      dsimp only
      rw [hlog]
      apply roundUp_iff (Nat.pow_succ') (Nat.two_pow_pos k) _ hlt
      rw [← Nat.sub_add_cancel hp, Nat.pow_succ]
      omega
  · exact iff_of_true (le_roundBits hp hge) ((Nat.sub_le _ _).trans hge)

end Support
