import Mathlib.Data.Nat.Find
import Mathlib.Data.Nat.ModEq
import Mathlib.Logic.Function.Iterate

/-! Loops that test and then run a body, and readers of a ring that stop at the first entry
whose phase is not the one they expect. -/
namespace Support
variable {σ : Type} {test : σ → Prop} {body : σ → σ} {s : σ}

/-- When one round is a run of steps of another system, so are `n` rounds. -/
theorem iterate_runs {τ α : Type} {step : τ → α → τ} {R : σ → τ → Prop} {round : List α}
    (hround : ∀ s t, R s t → test s → R (body s) (round.foldl step t)) {t : τ} (h : R s t) {n : ℕ}
    (hrun : ∀ i < n, test (body^[i] s)) :
    R (body^[n] s) ((List.replicate n round).flatten.foldl step t) := by
  induction n with
  | zero => exact h
  | succ n ih =>
    have hbefore := ih fun i hi => hrun i (Nat.lt_succ_of_lt hi)
    rw [Function.iterate_succ_apply', List.replicate_succ', List.flatten_append, List.foldl_append,
      List.flatten_singleton]
    exact hround _ _ hbefore (hrun n (Nat.lt_succ_self n))

variable [DecidablePred test]

/-- `while (test) body` for at most `fuel` rounds, with the number of rounds it took. -/
def testLoop (test : σ → Prop) [DecidablePred test] (body : σ → σ) : ℕ → σ → Option (ℕ × σ)
  | 0, s => if test s then none else some (0, s)
  | fuel + 1, s =>
      if test s then (testLoop test body fuel (body s)).map fun r => (r.1 + 1, r.2)
      else some (0, s)

theorem testLoop_of_iterates {fuel n : ℕ} (hn : n ≤ fuel) (hrun : ∀ i < n, test (body^[i] s))
    (hstop : ¬ test (body^[n] s)) : testLoop test body fuel s = some (n, body^[n] s) := by
  induction n generalizing fuel s with
  | zero =>
    have hs : ¬ test s := hstop
    cases fuel with
    | zero => simp [testLoop, hs]
    | succ fuel => simp [testLoop, hs]
  | succ n ih =>
    have hs : test s := hrun 0 n.succ_pos
    cases fuel with
    | zero => cases hn
    | succ fuel =>
      have hrest : testLoop test body fuel (body s) = some (n, body^[n] (body s)) :=
        ih (Nat.le_of_succ_le_succ hn) (fun i hi => hrun (i + 1) (Nat.succ_lt_succ hi)) hstop
      simp [testLoop, hs, hrest]

theorem testLoop_eq_some {fuel n : ℕ} {s' : σ} (h : testLoop test body fuel s = some (n, s')) :
    s' = body^[n] s ∧ ∀ i < n, test (body^[i] s) := by
  induction fuel generalizing s n with
  | zero =>
    rw [testLoop] at h
    split_ifs at h
    cases h
    exact ⟨rfl, fun i hi => absurd hi (Nat.not_lt_zero i)⟩
  | succ fuel ih =>
    rw [testLoop] at h
    split_ifs at h with hs
    · obtain ⟨⟨m, s''⟩, hm, heq⟩ := Option.map_eq_some_iff.mp h
      cases heq
      obtain ⟨hend, hrun⟩ := ih hm
      refine ⟨hend, fun i hi => ?_⟩
      cases i with
      | zero => exact hs
      | succ i => exact hrun i (Nat.lt_of_succ_lt_succ hi)
    · cases h
      exact ⟨rfl, fun i hi => absurd hi (Nat.not_lt_zero i)⟩

/-- A loop whose test fails within a number of rounds stops at the first failure, and more
fuel makes no difference. -/
theorem testLoop_returns {bound : ℕ} (h : ∃ n ≤ bound, ¬ test (body^[n] s)) :
    ∃ n ≤ bound, (∀ i < n, test (body^[i] s)) ∧
      ∀ fuel, bound ≤ fuel → testLoop test body fuel s = some (n, body^[n] s) := by
  obtain ⟨k, hk, hfails⟩ := h
  have hex : ∃ n, ¬ test (body^[n] s) := ⟨k, hfails⟩
  have hle : Nat.find hex ≤ bound := (Nat.find_le hfails).trans hk
  have hrun : ∀ i < Nat.find hex, test (body^[i] s) := fun i hi => not_not.mp (Nat.find_min hex hi)
  exact ⟨Nat.find hex, hle, hrun, fun fuel hfuel =>
    testLoop_of_iterates (hle.trans hfuel) hrun (Nat.find_spec hex)⟩

/-- A reader of a ring: its slot, the phase it expects there, and the phases in the ring. -/
structure Reader where
  depth : ℕ
  head : ℕ
  phase : ℕ
  ring : ℕ → ℕ

namespace Reader
variable {r : Reader}

def Sees (r : Reader) : Prop := r.ring r.head = r.phase

def advance (r : Reader) : Reader :=
  let head := (r.head + 1) % r.depth
  { r with head := head, phase := if head = 0 then r.phase ^^^ 1 else r.phase }

theorem xor_one_ne (n : ℕ) : n ^^^ 1 ≠ n := by
  intro h
  have hbit := congrArg (Nat.testBit · 0) h
  simp at hbit
  omega

/-- Within one lap the expected phase toggles once, at the end of the ring. -/
theorem iterate_advance (h : r.head < r.depth) {n : ℕ} (hn : n ≤ r.depth) :
    advance^[n] r =
      { r with
        head := (r.head + n) % r.depth
        phase := if r.head + n < r.depth then r.phase else r.phase ^^^ 1 } := by
  induction n with
  | zero => simp [Nat.mod_eq_of_lt h, h]
  | succ n ih =>
    rw [Function.iterate_succ_apply', ih (Nat.le_of_succ_le hn), advance]
    dsimp only
    rw [Nat.mod_add_mod, Nat.add_assoc]
    by_cases hlap : r.head + (n + 1) < r.depth
    · have hne : (r.head + (n + 1)) % r.depth ≠ 0 := by
        rw [Nat.mod_eq_of_lt hlap]
        omega
      rw [if_neg hne, if_pos hlap, if_pos (by omega)]
    · rw [if_neg hlap]
      rcases Nat.eq_or_lt_of_not_lt hlap with heq | hlt
      · rw [heq, Nat.mod_self, if_pos rfl, if_pos (by omega)]
      · have hne : (r.head + (n + 1)) % r.depth ≠ 0 := by
          rw [Nat.mod_eq_sub_mod hlt.le, Nat.mod_eq_of_lt (by omega)]
          omega
        rw [if_neg hne, if_neg (by omega)]

/-- A reader that sees its phase comes back to the same slot with the other phase. -/
theorem exists_not_sees (h : r.head < r.depth) : ∃ n ≤ r.depth, ¬ (advance^[n] r).Sees := by
  by_cases hsees : r.Sees
  · refine ⟨r.depth, le_rfl, ?_⟩
    rw [iterate_advance h le_rfl, Sees, if_neg (by omega)]
    dsimp only
    rw [Nat.add_mod_right, Nat.mod_eq_of_lt h, show r.ring r.head = r.phase from hsees]
    exact (xor_one_ne r.phase).symm
  · exact ⟨0, Nat.zero_le _, hsees⟩

theorem iterate_depth (r : Reader) (n : ℕ) : (advance^[n] r).depth = r.depth := by
  induction n with
  | zero => rfl
  | succ n ih => rw [Function.iterate_succ_apply', advance, ih]

theorem iterate_head_lt (h : r.head < r.depth) (n : ℕ) : (advance^[n] r).head < r.depth := by
  cases n with
  | zero => exact h
  | succ n =>
    rw [Function.iterate_succ_apply', advance, iterate_depth]
    exact Nat.mod_lt _ (by omega)

/-- A loop that reads its entries as a reader does stops within one lap, inside the ring. -/
theorem drains (view : σ → Reader) (hbody : Function.Semiconj view body advance)
    (htest : ∀ s, test s ↔ (view s).Sees) (hhead : (view s).head < (view s).depth) :
    ∃ n ≤ (view s).depth, (∀ i < n, test (body^[i] s)) ∧
      (∀ i, (view (body^[i] s)).head < (view s).depth) ∧
      ∀ fuel, (view s).depth ≤ fuel → testLoop test body fuel s = some (n, body^[n] s) := by
  have hview : ∀ n, view (body^[n] s) = advance^[n] (view s) :=
    fun n => (hbody.iterate_right n).eq s
  have hstop : ∃ n ≤ (view s).depth, ¬ test (body^[n] s) := by
    obtain ⟨n, hn, hnot⟩ := exists_not_sees hhead
    exact ⟨n, hn, by rwa [htest, hview]⟩
  obtain ⟨n, hn, hrun, hloop⟩ := testLoop_returns hstop
  refine ⟨n, hn, hrun, fun i => ?_, hloop⟩
  rw [hview]
  exact iterate_head_lt hhead i

end Reader
end Support
