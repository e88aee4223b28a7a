import OpenFlash.Support.StableSort

/-! Order statistics: the value at a place of a sorted list, described by how many values of
the list it bounds. -/
namespace Support
variable {α : Type} [LinearOrder α] {xs ys : List α} {a b : α} {i j : ℕ}

theorem sortedBy_id_perm (xs : List α) : (sortedBy id xs).Perm xs :=
  (sortedBy_stablySorted id xs).perm

theorem sortedBy_id_pairwise (xs : List α) : (sortedBy id xs).Pairwise (· ≤ ·) :=
  (sortedBy_stablySorted id xs).ordered

/-- A list in order does not remember the order it came in. -/
theorem sortedBy_id_congr (h : xs.Perm ys) : sortedBy id xs = sortedBy id ys := by
  apply List.Perm.eq_of_pairwise (fun a b _ _ hab hba => le_antisymm hab hba)
    (sortedBy_id_pairwise xs) (sortedBy_id_pairwise ys)
  exact (sortedBy_id_perm xs).trans (h.trans (sortedBy_id_perm ys).symm)

theorem mem_of_place (h : (sortedBy id xs)[i]? = some a) : a ∈ xs :=
  (sortedBy_id_perm xs).mem_iff.mp (List.mem_of_getElem? h)

theorem le_of_places (ha : (sortedBy id xs)[i]? = some a) (hb : (sortedBy id xs)[j]? = some b)
    (hij : i ≤ j) : a ≤ b := by
  obtain ⟨hi, rfl⟩ := List.getElem?_eq_some_iff.mp ha
  obtain ⟨hj, rfl⟩ := List.getElem?_eq_some_iff.mp hb
  rcases hij.eq_or_lt with rfl | hlt
  · exact le_refl _
  · exact List.pairwise_iff_getElem.mp (sortedBy_id_pairwise xs) i j hi hj hlt

/-- The values up to the place are among those that the value there bounds. -/
theorem place_lt_countP_le (h : (sortedBy id xs)[i]? = some a) : i < xs.countP (· ≤ a) := by
  have hi : i < (sortedBy id xs).length := (List.getElem?_eq_some_iff.mp h).1
  have hfirst : ((sortedBy id xs).take (i + 1)).countP (· ≤ a) = i + 1 := by
    rw [List.countP_eq_length.mpr, List.length_take, Nat.min_eq_left hi]
    intro b hb
    obtain ⟨j, hj⟩ := List.mem_iff_getElem?.mp hb
    rw [List.getElem?_take] at hj
    split_ifs at hj with hle
    exact decide_eq_true (le_of_places hj h (Nat.lt_succ_iff.mp hle))
  have hsub := (List.take_sublist (i + 1) (sortedBy id xs)).countP_le (p := fun b => b ≤ a)
  rw [hfirst, (sortedBy_id_perm xs).countP_eq] at hsub
  exact hsub

/-- The values below it all stand before the place. -/
theorem countP_lt_le_place (h : (sortedBy id xs)[i]? = some a) : xs.countP (· < a) ≤ i := by
  have hrest : ((sortedBy id xs).drop i).countP (· < a) = 0 := by
    rw [List.countP_eq_zero]
    intro b hb
    obtain ⟨j, hj⟩ := List.mem_iff_getElem?.mp hb
    rw [List.getElem?_drop] at hj
    simpa using le_of_places h hj (Nat.le_add_right i j)
  calc xs.countP (· < a)
      = (sortedBy id xs).countP (· < a) := ((sortedBy_id_perm xs).countP_eq _).symm
    _ = ((sortedBy id xs).take i).countP (· < a) + ((sortedBy id xs).drop i).countP (· < a) := by
        rw [← List.countP_append, List.take_append_drop]
    _ = ((sortedBy id xs).take i).countP (· < a) := by rw [hrest, Nat.add_zero]
    _ ≤ ((sortedBy id xs).take i).length := List.countP_le_length
    _ ≤ i := List.length_take_le i _

end Support
