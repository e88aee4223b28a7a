import OpenFlash.Ftl.FreePool

/-! What a call of the page mapping can do: its outcomes, one by one, and the rule for
properties that every elementary update keeps. -/
namespace OpenFlash.Ftl
namespace PageMappingFTL
variable {c : ControllerConfig} {s s' : PageMappingFTL}

theorem write_ok {lpn : ℤ} {p : PhysicalPage} (h : s.write c lpn = (.ok p, s')) :
    ∃ t, allocate c none (s.invalidatePrevious lpn) = (.ok p, t) ∧ s' = t.place lpn p := by
  unfold write at h
  rcases hr : allocate c none (s.invalidatePrevious lpn) with ⟨r, t⟩
  rw [hr] at h
  cases r with
  | error e => simp at h
  | ok q =>
    simp only [Prod.mk.injEq, Except.ok.injEq] at h
    obtain ⟨rfl, rfl⟩ := h
    exact ⟨t, rfl, rfl⟩

theorem write_error {lpn : ℤ} {e : OutOfSpaceError} (h : s.write c lpn = (.error e, s')) :
    s' = s.invalidatePrevious lpn ∧ (s.invalidatePrevious lpn).freePages c = 0 := by
  unfold write at h
  rcases hr : allocate c none (s.invalidatePrevious lpn) with ⟨r, t⟩
  rw [hr] at h
  cases r with
  | ok q => simp at h
  | error e' =>
    simp only [Prod.mk.injEq] at h
    refine ⟨h.2.symm.trans (allocate_error hr).1, ?_⟩
    by_contra hfree
    obtain ⟨p, hp⟩ := allocate_none_ok (Nat.pos_of_ne_zero hfree)
    rw [hr] at hp
    cases hp

/-- The four ways a collection ends. -/
inductive Collects (c : ControllerConfig) (s : PageMappingFTL) :
    Except OutOfSpaceError GarbageCollectionResult × PageMappingFTL → Prop
  | noVictim (hv : s.victim? = none) :
      Collects c s (.error ⟨"no reclaimable block is available"⟩, s)
  | noWorkspace {victim : BlockKey} (hv : s.victim? = some victim)
      (hspace : s.freePages c < (s.liveLpns victim).length) :
      Collects c s (.error ⟨"insufficient workspace to relocate GC victim"⟩, s.touchVictim victim)
  | stuck {victim : BlockKey} {e : OutOfSpaceError} {t : PageMappingFTL}
      (hv : s.victim? = some victim) (hspace : (s.liveLpns victim).length ≤ s.freePages c)
      (hr : relocate c victim (s.liveLpns victim) (s.touchVictim victim) = (some e, t)) :
      Collects c s (.error e, t)
  | done {victim : BlockKey} {t : PageMappingFTL} (hv : s.victim? = some victim)
      (hspace : (s.liveLpns victim).length ≤ s.freePages c)
      (hr : relocate c victim (s.liveLpns victim) (s.touchVictim victim) = (none, t)) :
      Collects c s
        (.ok { victim := victim
               pagesMoved := (s.liveLpns victim).length
               pagesReclaimed := c.pagesPerBlock
               eraseCount := (t.erase c victim).eraseCounts.getD victim 0 }, t.erase c victim)

theorem garbageCollect_collects (c : ControllerConfig) (s : PageMappingFTL) :
    Collects c s (s.garbageCollect c) := by
  unfold garbageCollect
  cases hv : s.victim? with
  | none => exact .noVictim hv
  | some victim =>
    dsimp only
    split_ifs with hspace
    · exact .noWorkspace hv hspace
    · have hspace' : (s.liveLpns victim).length ≤ s.freePages c := Nat.le_of_not_lt hspace
      rcases hr : relocate c victim (s.liveLpns victim) (s.touchVictim victim) with ⟨r, t⟩
      cases r with
      | some e => exact .stuck hv hspace' hr
      | none => exact .done hv hspace' hr

/-- The rule for relocation: a property kept by allocating a page and placing an LPN on it. -/
theorem relocate_rule {P : PageMappingFTL → Prop} (victim : BlockKey) (live : List ℤ)
    (hplace : ∀ s t lpn p, P s → lpn ∈ live → allocate c (some victim) s = (.ok p, t) →
      P (t.place lpn p)) (h : P s) : P (relocate c victim live s).2 := by
  induction live generalizing s with
  | nil => exact h
  | cons lpn rest ih =>
    rw [relocate]
    rcases hr : allocate c (some victim) s with ⟨r, t⟩
    cases r with
    | error e =>
      rw [(allocate_error hr).1]
      exact h
    | ok p =>
      apply ih
      · intro s t l q hs hl
        exact hplace s t l q hs (List.mem_cons_of_mem lpn hl)
      · exact hplace s t lpn p h List.mem_cons_self hr

/-- The rule for a call: a property kept by each of the updates that calls are made of. -/
theorem after_rule {P : PageMappingFTL → Prop}
    (hprevious : ∀ s lpn, P s → P (s.invalidatePrevious lpn))
    (hplace : ∀ s t avoid lpn p, P s → allocate c avoid s = (.ok p, t) → P (t.place lpn p))
    (htouch : ∀ s victim, P s → P (s.touchVictim victim))
    (herase : ∀ t victim, s.victim? = some victim → P t → P (t.erase c victim)) (call : Call)
    (h : P s) :
    P (after c s call) := by
  cases call with
  | write lpn =>
    show P (s.write c lpn).2
    rcases hw : s.write c lpn with ⟨r, s'⟩
    cases r with
    | error e =>
      rw [(write_error hw).1]
      exact hprevious s lpn h
    | ok p =>
      obtain ⟨t, ha, rfl⟩ := write_ok hw
      exact hplace _ t none lpn p (hprevious s lpn h) ha
  | garbageCollect =>
    have hrelocate : ∀ victim live r t,
        relocate c victim live (s.touchVictim victim) = (r, t) → P t := by
      intro victim live r t hr
      have ht := relocate_rule victim live
        (fun s t lpn p hs _ ha => hplace s t (some victim) lpn p hs ha) (htouch s victim h)
      rw [hr] at ht
      exact ht
    have hcollects := garbageCollect_collects c s
    show P (s.garbageCollect c).2
    generalize s.garbageCollect c = r at hcollects ⊢
    cases hcollects with
    | noVictim hv => exact h
    | noWorkspace hv hspace => exact htouch s _ h
    | stuck hv hspace hr => exact hrelocate _ _ _ _ hr
    | done hv hspace hr => exact herase _ _ hv (hrelocate _ _ _ _ hr)

/-- The run rule that goes with `after_rule`. -/
theorem run_rule {P : PageMappingFTL → Prop} (hfresh : P fresh)
    (hafter : ∀ s call, P s → P (after c s call)) (calls : List Call) : P (run c calls) := by
  unfold run
  induction calls using List.reverseRecOn with
  | nil => exact hfresh
  | append_singleton calls call ih =>
    rw [List.foldl_append]
    exact hafter _ call ih

theorem allocate_nextPage_le {avoid : Option BlockKey} {p : PhysicalPage}
    (h : s.nextPage ≤ c.capacityPages) (ha : allocate c avoid s = (.ok p, s')) :
    s'.nextPage ≤ c.capacityPages := by
  rcases allocate_ok_cases ha with ⟨_, _, _, rfl⟩ | ⟨_, hlt, _, rfl⟩
  · exact h
  · exact hlt

theorem invalidatePrevious_frame (s : PageMappingFTL) (lpn : ℤ) :
    (s.invalidatePrevious lpn).mapping = s.mapping ∧
      (s.invalidatePrevious lpn).reclaimed = s.reclaimed ∧
      (s.invalidatePrevious lpn).nextPage = s.nextPage := by
  unfold invalidatePrevious
  split <;> exact ⟨rfl, rfl, rfl⟩

theorem after_nextPage_le (call : Call) (h : s.nextPage ≤ c.capacityPages) :
    (after c s call).nextPage ≤ c.capacityPages := by
  refine after_rule (P := fun s => s.nextPage ≤ c.capacityPages) ?_ ?_ ?_ ?_ call h
  · intro s lpn hs
    rw [(s.invalidatePrevious_frame lpn).2.2]
    exact hs
  · intro s t avoid lpn p hs ha
    show t.nextPage ≤ c.capacityPages
    exact allocate_nextPage_le hs ha
  · exact fun s victim hs => hs
  · exact fun t victim _ ht => ht

/-- The allocation cursor never passes the end of the flash. -/
theorem run_nextPage_le (c : ControllerConfig) (calls : List Call) :
    (run c calls).nextPage ≤ c.capacityPages :=
  run_rule (P := fun s => s.nextPage ≤ c.capacityPages) (Nat.zero_le _)
    (fun _ call h => after_nextPage_le call h) calls

end PageMappingFTL
end OpenFlash.Ftl
