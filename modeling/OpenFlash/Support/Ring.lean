import Mathlib.Data.Nat.ModEq
import Mathlib.Logic.Function.Basic

/-! Rings addressed by unbounded sequence numbers. Entry `n` of a sequence lives in
slot `n % d` and carries the phase of lap `n / d`, which starts at one and toggles
on every wrap. -/
namespace Support.Ring
variable {α β : Type} {d n lo hi : ℕ}

def phase (d n : ℕ) : ℕ := if n / d % 2 = 0 then 1 else 0

theorem phase_lt_two (d n : ℕ) : phase d n < 2 := by
  unfold phase
  split_ifs <;> omega

theorem phase_eq_one_iff : phase d n = 1 ↔ n / d % 2 = 0 := by
  unfold phase
  split_ifs with h <;> simp [h]

@[simp] theorem phase_zero (d : ℕ) : phase d 0 = 1 := by simp [phase]

theorem succ_mod (d n : ℕ) : (n % d + 1) % d = (n + 1) % d := by simp

theorem succ_div_of_mod_ne (h : (n + 1) % d ≠ 0) : (n + 1) / d = n / d := by
  rw [Nat.succ_div, if_neg (fun hdvd => h (Nat.mod_eq_zero_of_dvd hdvd)), Nat.add_zero]

theorem succ_div_of_mod_eq (h : (n + 1) % d = 0) : (n + 1) / d = n / d + 1 := by
  rw [Nat.succ_div, if_pos (Nat.dvd_of_mod_eq_zero h)]

/-- Advancing past the last slot toggles the phase; every other step keeps it. -/
theorem phase_succ (d n : ℕ) :
    phase d (n + 1) = if (n + 1) % d = 0 then phase d n ^^^ 1 else phase d n := by
  split_ifs with h
  · unfold phase
    rw [succ_div_of_mod_eq h]
    rcases Nat.mod_two_eq_zero_or_one (n / d) with he | he
    · rw [if_neg (by omega), if_pos he]
      rfl
    · rw [if_pos (by omega), if_neg (by omega)]
      rfl
  · unfold phase
    rw [succ_div_of_mod_ne h]

/-- An entry of the previous lap shows the opposite phase. -/
theorem phase_add_depth (hd : 0 < d) (n : ℕ) : phase d (n + d) ≠ phase d n := by
  unfold phase
  rw [Nat.add_div_right n hd]
  split_ifs <;> omega

theorem slot_ne_of_lt (hlo : lo ≤ n) (hn : n < hi) (hroom : hi - lo < d) : n % d ≠ hi % d := by
  intro h
  have hdvd : d ∣ hi - n := (Nat.modEq_iff_dvd' hn.le).mp h
  have := Nat.le_of_dvd (by omega) hdvd
  omega

/-- The slots of `o` consecutive entries from number `a` on. -/
def window (d a o : ℕ) : List ℕ := (List.range' a o).map (· % d)

theorem window_succ (d a o : ℕ) : window d a (o + 1) = window d a o ++ [(a + o) % d] := by
  simp only [window, List.range'_concat, List.map_append, List.map_cons, List.map_nil,
    Nat.one_mul]

theorem drop_window (d a o k : ℕ) : (window d a o).drop k = window d (a + k) (o - k) := by
  rw [window, ← List.map_drop, List.drop_range', Nat.mul_one]
  rfl

/-- The next entry finds a free slot as long as the window is shorter than the ring. -/
theorem next_notMem_window (a : ℕ) {o : ℕ} (h : o < d) : (a + o) % d ∉ window d a o := by
  intro hmem
  obtain ⟨n, hn, hslot⟩ := List.mem_map.mp hmem
  obtain ⟨hlo, hhi⟩ := List.mem_range'_1.mp hn
  exact slot_ne_of_lt hlo hhi (by omega) hslot

/-- Stepping round the ring from anywhere, even from outside it, meets every slot within
one lap. -/
theorem exists_add_mod_eq (start : ℕ) {slot : ℕ} (hslot : slot < d) :
    ∃ k, 1 ≤ k ∧ k ≤ d ∧ (start + k) % d = slot := by
  have hr : (start + 1) % d < d := Nat.mod_lt _ (by omega)
  by_cases hle : (start + 1) % d ≤ slot
  · refine ⟨slot - (start + 1) % d + 1, by omega, by omega, ?_⟩
    have hsplit : start + (slot - (start + 1) % d + 1)
        = start + 1 + (slot - (start + 1) % d) := by omega
    rw [hsplit, ← Nat.mod_add_mod, Nat.add_sub_cancel' hle, Nat.mod_eq_of_lt hslot]
  · refine ⟨slot + d - (start + 1) % d + 1, by omega, by omega, ?_⟩
    have hsplit : start + (slot + d - (start + 1) % d + 1)
        = start + 1 + (slot + d - (start + 1) % d) := by omega
    rw [hsplit, ← Nat.mod_add_mod, Nat.add_sub_cancel' (by omega), Nat.add_mod_right,
      Nat.mod_eq_of_lt hslot]

/-- An entry of an extended log is an old one or the one just appended. -/
theorem getElem?_append_singleton {log : List α} {a b : α} (h : (log ++ [a])[n]? = some b) :
    log[n]? = some b ∨ n = log.length ∧ a = b := by
  rcases Nat.lt_trichotomy n log.length with hn | rfl | hn
  · rw [List.getElem?_append_left hn] at h
    exact Or.inl h
  · rw [List.getElem?_concat_length, Option.some.injEq] at h
    exact Or.inr ⟨rfl, h⟩
  · rw [List.getElem?_append_right hn.le, List.getElem?_singleton, if_neg (by omega)] at h
    cases h

/-- The entries of a log, from number `lo` on, are in their slots. -/
def Stored (d lo : ℕ) (log : List α) (cell : α → β) (ring : ℕ → β) : Prop :=
  ∀ n a, lo ≤ n → log[n]? = some a → ring (n % d) = cell a

section Stored
variable {log : List α} {cell : α → β} {ring : ℕ → β}

theorem Stored.get (h : Stored d lo log cell ring) (hlo : lo ≤ n) (hn : n < log.length) :
    ring (n % d) = cell log[n] := h n _ hlo (List.getElem?_eq_getElem hn)

theorem Stored.mono {lo' : ℕ} (h : Stored d lo log cell ring) (hle : lo ≤ lo') :
    Stored d lo' log cell ring := fun n a hlo ha => h n a (hle.trans hlo) ha

/-- A ring with a free slot takes the next entry without losing an older one. -/
theorem Stored.push (h : Stored d lo log cell ring) (hroom : log.length - lo < d) (a : α) :
    Stored d lo (log ++ [a]) cell (Function.update ring (log.length % d) (cell a)) := by
  intro n b hlo hb
  rcases getElem?_append_singleton hb with hb | ⟨rfl, rfl⟩
  · have hn := (List.getElem?_eq_some_iff.mp hb).1
    rw [Function.update_of_ne (slot_ne_of_lt hlo hn hroom)]
    exact h n b hlo hb
  · exact Function.update_self ..

/-- Clearing the oldest slot keeps the remaining entries. -/
theorem Stored.clear (h : Stored d lo log cell ring) (hroom : log.length - lo ≤ d) (b : β) :
    Stored d (lo + 1) log cell (Function.update ring (lo % d) b) := by
  intro n a hlo ha
  have hn := (List.getElem?_eq_some_iff.mp ha).1
  rw [Function.update_of_ne (Ne.symm (slot_ne_of_lt le_rfl hlo (by omega)))]
  exact h n a (by omega) ha

end Stored

/-- In a ring that starts with zeros, a reader that is at most one lap behind sees its own
phase exactly when the next entry has been written. -/
theorem phase_test {ring : ℕ → ℕ} (hd : 0 < d)
    (hring : ∀ n, hi - d ≤ n → n < hi → ring (n % d) = phase d n)
    (hzero : ∀ slot, hi ≤ slot → slot < d → ring slot = 0) (hlo : lo ≤ hi) (hlap : hi ≤ lo + d) :
    ring (lo % d) = phase d lo ↔ lo < hi := by
  rcases hlo.lt_or_eq with hlt | rfl
  · exact iff_of_true (hring lo (by omega) hlt) hlt
  · refine iff_of_false ?_ (Nat.lt_irrefl _)
    by_cases hfirst : lo < d
    · rw [Nat.mod_eq_of_lt hfirst, hzero lo le_rfl hfirst, phase, Nat.div_eq_of_lt hfirst]
      decide
    · have hold := hring (lo - d) le_rfl (by omega)
      have hne := phase_add_depth hd (lo - d)
      rw [Nat.sub_add_cancel (by omega)] at hne
      rw [Nat.mod_eq_sub_mod (by omega), hold]
      exact hne.symm

end Support.Ring
