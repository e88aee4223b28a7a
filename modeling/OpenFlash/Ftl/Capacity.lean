import OpenFlash.Ftl.Outcomes

/-! Writing to a fresh FTL without collections: the linear cursor visits every page of the
flash once, stripe by stripe, and then there is none left. -/
namespace OpenFlash.Ftl
namespace PageMappingFTL
variable {c : ControllerConfig} {s : PageMappingFTL}

/-- The state after the first `n` writes of a sequence. -/
def written (c : ControllerConfig) (lpns : ℕ → ℤ) (n : ℕ) : PageMappingFTL :=
  run c ((List.range n).map fun i => .write (lpns i))

/-- What write number `n` of the sequence returns or raises. -/
def outcome (c : ControllerConfig) (lpns : ℕ → ℤ) (n : ℕ) :
    Except OutOfSpaceError PhysicalPage := ((written c lpns n).write c (lpns n)).1

theorem written_succ (c : ControllerConfig) (lpns : ℕ → ℤ) (n : ℕ) :
    written c lpns (n + 1) = ((written c lpns n).write c (lpns n)).2 := by
  simp only [written, run, List.range_succ, List.map_append, List.foldl_append, List.map_cons,
    List.map_nil, List.foldl_cons, List.foldl_nil]
  rfl

/-- With no reclaimed page an allocation is decided by the frontier. -/
theorem allocate_of_reclaimed_nil (h : s.reclaimed = []) (avoid : Option BlockKey) :
    allocate c avoid s =
      if c.capacityPages ≤ s.nextPage then
        (.error ⟨"FTL capacity exhausted; GC/reclamation is required"⟩, s)
      else (.ok (physicalFromLinear c s.nextPage), { s with nextPage := s.nextPage + 1 }) := by
  obtain ⟨mapping, invalidPages, validLpns, eraseCounts, nextPage, reclaimed⟩ := s
  obtain rfl : reclaimed = [] := h
  rfl

theorem write_of_reclaimed_nil (h : s.reclaimed = []) (hlt : s.nextPage < c.capacityPages)
    (lpn : ℤ) :
    (s.write c lpn).1 = .ok (physicalFromLinear c s.nextPage) ∧
      (s.write c lpn).2.reclaimed = [] ∧ (s.write c lpn).2.nextPage = s.nextPage + 1 := by
  obtain ⟨-, hrec, hnext⟩ := s.invalidatePrevious_frame lpn
  have ha := allocate_of_reclaimed_nil (hrec.trans h) (c := c) none
  rw [hnext, if_neg (Nat.not_le.mpr hlt)] at ha
  unfold write
  rw [ha]
  exact ⟨rfl, hrec.trans h, rfl⟩

theorem write_exhausted (h : s.reclaimed = []) (hfull : c.capacityPages ≤ s.nextPage) (lpn : ℤ) :
    (s.write c lpn).1 = .error ⟨"FTL capacity exhausted; GC/reclamation is required"⟩ := by
  obtain ⟨-, hrec, hnext⟩ := s.invalidatePrevious_frame lpn
  have ha := allocate_of_reclaimed_nil (hrec.trans h) (c := c) none
  rw [hnext, if_pos hfull] at ha
  unfold write
  rw [ha]

/-- Up to the capacity the cursor counts the writes. -/
theorem written_cursor (c : ControllerConfig) (lpns : ℕ → ℤ) {n : ℕ} (h : n ≤ c.capacityPages) :
    (written c lpns n).reclaimed = [] ∧ (written c lpns n).nextPage = n := by
  induction n with
  | zero => exact ⟨rfl, rfl⟩
  | succ n ih =>
    obtain ⟨hrec, hnext⟩ := ih (by omega)
    have hlt : (written c lpns n).nextPage < c.capacityPages := by omega
    obtain ⟨-, hrec', hnext'⟩ := write_of_reclaimed_nil hrec hlt (lpns n)
    rw [written_succ]
    exact ⟨hrec', by omega⟩

theorem outcome_of_lt (lpns : ℕ → ℤ) {n : ℕ} (h : n < c.capacityPages) :
    outcome c lpns n = .ok (physicalFromLinear c n) := by
  obtain ⟨hrec, hnext⟩ := written_cursor c lpns h.le
  have hwrite := (write_of_reclaimed_nil hrec (hnext.trans_lt h) (lpns n)).1
  rw [hnext] at hwrite
  exact hwrite

/-- The channel and die of a page. -/
def dieKey (p : PhysicalPage) : ℤ × ℤ := (p.channel, p.die)

/-- Inside a stripe the die is determined by the position, and determines it. -/
theorem dieKey_ne {k i j : ℕ} (hi : i < c.dies) (hj : j < c.dies) (hne : i ≠ j) :
    dieKey (physicalFromLinear c (k * c.dies + i)) ≠
      dieKey (physicalFromLinear c (k * c.dies + j)) := by
  intro h
  simp only [dieKey, physicalFromLinear, Nat.mul_add_mod_of_lt hi,
    Nat.mul_add_mod_of_lt hj, Prod.mk.injEq, Nat.cast_inj] at h
  apply hne
  rw [← Nat.div_add_mod i c.channels, ← Nat.div_add_mod j c.channels, h.1, h.2]

/-- The first `capacity_pages` writes return every page of the geometry once, each stripe of
`dies` writes goes to different dies, and the next write finds no page. -/
structure FillsStriped (c : ControllerConfig)
    (outcome : ℕ → Except OutOfSpaceError PhysicalPage) : Prop where
  succeeds : ∀ n < c.capacityPages, ∃ p, outcome n = .ok p ∧ InGeometry c p
  once : ∀ p, InGeometry c p → ∃! n, n < c.capacityPages ∧ outcome n = .ok p
  striped : ∀ k i j p q, (k + 1) * c.dies ≤ c.capacityPages → i < c.dies → j < c.dies → i ≠ j →
    outcome (k * c.dies + i) = .ok p → outcome (k * c.dies + j) = .ok q → dieKey p ≠ dieKey q
  exhausted : ∃ e, outcome c.capacityPages = .error e

/-- Whatever LPNs are written. -/
theorem outcome_fillsStriped (c : ControllerConfig) (lpns : ℕ → ℤ) :
    FillsStriped c (outcome c lpns) where
  succeeds := fun n hn =>
    ⟨physicalFromLinear c n, outcome_of_lt lpns hn, physicalFromLinear_inGeometry hn⟩
  once := by
    intro p hp
    obtain ⟨n, hn, rfl⟩ := exists_physicalFromLinear hp
    refine ⟨n, ⟨hn, outcome_of_lt lpns hn⟩, ?_⟩
    rintro m ⟨hm, hout⟩
    rw [outcome_of_lt lpns hm, Except.ok.injEq] at hout
    exact physicalFromLinear_injective c hout
  striped := by
    intro k i j p q hk hi hj hne hp hq
    have hlt : ∀ m < c.dies, k * c.dies + m < c.capacityPages := by
      intro m hm
      rw [Nat.succ_mul] at hk
      omega
    rw [outcome_of_lt lpns (hlt i hi), Except.ok.injEq] at hp
    rw [outcome_of_lt lpns (hlt j hj), Except.ok.injEq] at hq
    rw [← hp, ← hq]
    exact dieKey_ne hi hj hne
  exhausted := by
    obtain ⟨hrec, hnext⟩ := written_cursor c lpns le_rfl
    exact ⟨_, write_exhausted hrec hnext.ge _⟩

end PageMappingFTL
end OpenFlash.Ftl
