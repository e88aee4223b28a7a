import Mathlib.Algebra.Order.Ring.Int
import Mathlib.Data.Rat.Init
import Mathlib.Tactic.NormNum

/-! Controller geometry and the striped linear order of its physical pages. -/
namespace OpenFlash.Ftl

/-- A configuration that `__post_init__` accepts, with the defaults of the source.
The checks of `__post_init__` are the propositional fields, so a configuration it
rejects cannot be built; the remaining counters are natural numbers. What only the media
model uses (`base_raw_bit_errors`, `read_retry_limit` with its check, `random_seed`) is left
out. -/
structure ControllerConfig where
  channels : ℕ := 8
  diesPerChannel : ℕ := 4
  pagesPerBlock : ℕ := 256
  blocksPerDie : ℕ := 1024
  pageSize : ℕ := 16 * 1024
  readUs : ℚ := 65
  programUs : ℚ := 550
  eraseUs : ℚ := 3500
  channelTransferGbps : ℚ := 6 / 5
  queueDepth : ℕ := 128
  readBurstLimit : ℤ := 16
  latencySigma : ℚ := 9 / 50
  gcLowWatermarkBlocks : ℕ := 4
  maxEraseCycles : ℕ := 3000
  eccStrengthBits : ℕ := 80
  geometry_pos : 0 < channels ∧ 0 < diesPerChannel ∧ 0 < pagesPerBlock ∧ 0 < blocksPerDie ∧
    0 < pageSize ∧ 0 < queueDepth := by decide
  timing_pos : 0 < readUs ∧ 0 < programUs ∧ 0 < eraseUs ∧ 0 < channelTransferGbps := by norm_num
  sigma_nonneg : 0 ≤ latencySigma := by norm_num
  endurance_pos : 0 < maxEraseCycles ∧ 0 < eccStrengthBits := by decide

namespace ControllerConfig

def dies (c : ControllerConfig) : ℕ := c.channels * c.diesPerChannel

def capacityPages (c : ControllerConfig) : ℕ := c.dies * c.blocksPerDie * c.pagesPerBlock

end ControllerConfig

structure PhysicalPage where
  channel : ℤ
  die : ℤ
  block : ℤ
  page : ℤ
  deriving DecidableEq

abbrev BlockKey := ℤ × ℤ × ℤ

def blockKey (p : PhysicalPage) : BlockKey := (p.channel, p.die, p.block)

def physicalFromLinear (c : ControllerConfig) (linear : ℕ) : PhysicalPage :=
  let stripe := linear % c.dies
  let perDie := linear / c.dies
  { channel := (stripe % c.channels : ℕ)
    die := (stripe / c.channels : ℕ)
    block := (perDie / c.pagesPerBlock : ℕ)
    page := (perDie % c.pagesPerBlock : ℕ) }

/-- The mixed-radix digits of a linear page number determine it. -/
theorem physicalFromLinear_injective (c : ControllerConfig) :
    Function.Injective (physicalFromLinear c) := by
  intro i j h
  simp only [physicalFromLinear, PhysicalPage.mk.injEq, Nat.cast_inj] at h
  obtain ⟨hc, hd, hb, hp⟩ := h
  have hs : i % c.dies = j % c.dies := by
    rw [← Nat.div_add_mod (i % c.dies) c.channels, ← Nat.div_add_mod (j % c.dies) c.channels,
      hc, hd]
  have hq : i / c.dies = j / c.dies := by
    rw [← Nat.div_add_mod (i / c.dies) c.pagesPerBlock,
      ← Nat.div_add_mod (j / c.dies) c.pagesPerBlock, hb, hp]
  rw [← Nat.div_add_mod i c.dies, ← Nat.div_add_mod j c.dies, hs, hq]

/-- The page exists on the configured flash. -/
def InGeometry (c : ControllerConfig) (p : PhysicalPage) : Prop :=
  (0 ≤ p.channel ∧ p.channel < c.channels) ∧ (0 ≤ p.die ∧ p.die < c.diesPerChannel) ∧
    (0 ≤ p.block ∧ p.block < c.blocksPerDie) ∧ (0 ≤ p.page ∧ p.page < c.pagesPerBlock)

instance (c : ControllerConfig) (p : PhysicalPage) : Decidable (InGeometry c p) :=
  inferInstanceAs (Decidable ((_ ∧ _) ∧ (_ ∧ _) ∧ (_ ∧ _) ∧ (_ ∧ _)))

theorem ControllerConfig.dies_pos (c : ControllerConfig) : 0 < c.dies :=
  Nat.mul_pos c.geometry_pos.1 c.geometry_pos.2.1

theorem physicalFromLinear_inGeometry {c : ControllerConfig} {linear : ℕ}
    (h : linear < c.capacityPages) : InGeometry c (physicalFromLinear c linear) := by
  have hstripe : linear % c.dies < c.channels * c.diesPerChannel := Nat.mod_lt _ c.dies_pos
  have hperDie : linear / c.dies < c.pagesPerBlock * c.blocksPerDie := by
    rw [Nat.div_lt_iff_lt_mul c.dies_pos]
    calc linear < c.dies * c.blocksPerDie * c.pagesPerBlock := h
      _ = c.pagesPerBlock * c.blocksPerDie * c.dies := by
        rw [Nat.mul_assoc, Nat.mul_comm, Nat.mul_comm c.blocksPerDie]
  refine ⟨⟨Int.natCast_nonneg _, ?_⟩, ⟨Int.natCast_nonneg _, ?_⟩, ⟨Int.natCast_nonneg _, ?_⟩,
    ⟨Int.natCast_nonneg _, ?_⟩⟩
  · exact Int.ofNat_lt.mpr (Nat.mod_lt _ c.geometry_pos.1)
  · exact Int.ofNat_lt.mpr (Nat.div_lt_of_lt_mul hstripe)
  · exact Int.ofNat_lt.mpr (Nat.div_lt_of_lt_mul hperDie)
  · exact Int.ofNat_lt.mpr (Nat.mod_lt _ c.geometry_pos.2.2.1)

/-- The high digit of a mixed-radix number. -/
theorem digit_div {high low radix : ℕ} (hlow : low < radix) :
    (high * radix + low) / radix = high := by
  rw [Nat.mul_comm, Nat.mul_add_div (by omega), Nat.div_eq_of_lt hlow, Nat.add_zero]

/-- Every page of the geometry has a linear number below the capacity. -/
theorem exists_physicalFromLinear {c : ControllerConfig} {p : PhysicalPage}
    (h : InGeometry c p) : ∃ linear < c.capacityPages, physicalFromLinear c linear = p := by
  obtain ⟨channel, die, block, page⟩ := p
  obtain ⟨⟨hc, hc'⟩, ⟨hd, hd'⟩, ⟨hb, hb'⟩, hp, hp'⟩ := h
  lift channel to ℕ using hc
  lift die to ℕ using hd
  lift block to ℕ using hb
  lift page to ℕ using hp
  rw [Int.ofNat_lt] at hc' hd' hb' hp'
  have hstripe : die * c.channels + channel < c.dies := by
    rw [ControllerConfig.dies, Nat.mul_comm c.channels, Nat.mul_comm die]
    exact Nat.mul_add_lt_mul_of_lt_of_lt hd' hc'
  have hperDie : block * c.pagesPerBlock + page < c.blocksPerDie * c.pagesPerBlock := by
    rw [Nat.mul_comm block]
    exact Nat.mul_add_lt_mul_of_lt_of_lt hb' hp'
  refine ⟨(block * c.pagesPerBlock + page) * c.dies + (die * c.channels + channel), ?_, ?_⟩
  · rw [ControllerConfig.capacityPages, Nat.mul_assoc, Nat.mul_comm c.dies, Nat.mul_comm _ c.dies]
    exact Nat.mul_add_lt_mul_of_lt_of_lt hperDie hstripe
  · simp only [physicalFromLinear, digit_div hstripe, Nat.mul_add_mod_of_lt hstripe,
      digit_div hc', Nat.mul_add_mod_of_lt hc', digit_div hp', Nat.mul_add_mod_of_lt hp']

end OpenFlash.Ftl
