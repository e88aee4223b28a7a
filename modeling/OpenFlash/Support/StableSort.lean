import Mathlib.Data.List.Sort
import Mathlib.Order.Defs.LinearOrder

/-! Stable sorting by a key: what it is, that it determines the result, and how it commutes
with filtering. -/
namespace Support
variable {α κ : Type} [LinearOrder κ]

/-- `sorted(xs, key=key)`. -/
def sortedBy (key : α → κ) (xs : List α) : List α := xs.insertionSort fun a b => key a ≤ key b

/-- `ys` has the elements of `xs` in the order of their keys, and elements with the same key
in the order of `xs`. -/
structure StablySorted (key : α → κ) (xs ys : List α) : Prop where
  perm : ys.Perm xs
  ordered : ys.Pairwise fun a b => key a ≤ key b
  stable : ∀ k, ys.filter (key · = k) = xs.filter (key · = k)

theorem sortedBy_stablySorted (key : α → κ) (xs : List α) :
    StablySorted key xs (sortedBy key xs) := by
  have hperm : (sortedBy key xs).Perm xs := List.perm_insertionSort ..
  have htotal : Std.Total fun a b => key a ≤ key b := ⟨fun a b => le_total (key a) (key b)⟩
  have htrans : IsTrans α fun a b => key a ≤ key b := ⟨fun _ _ _ => le_trans⟩
  refine ⟨hperm, List.pairwise_insertionSort _ xs, fun k => ?_⟩
  have hsame : (xs.filter (key · = k)).Pairwise fun a b => key a ≤ key b := by
    apply List.pairwise_of_forall_mem_list
    intro a ha b hb
    simp only [List.mem_filter, decide_eq_true_eq] at ha hb
    exact (ha.2.trans hb.2.symm).le
  have hsub : (xs.filter (key · = k)).Sublist (sortedBy key xs) :=
    List.sublist_insertionSort hsame List.filter_sublist
  have hfilter := hsub.filter (key · = k)
  rw [List.filter_filter] at hfilter
  simp only [Bool.and_self] at hfilter
  exact (hfilter.eq_of_length (hperm.filter _).length_eq.symm).symm

namespace StablySorted
variable {key : α → κ} {xs ys zs : List α}

theorem filter (h : StablySorted key xs ys) (p : α → Bool) :
    StablySorted key (xs.filter p) (ys.filter p) := by
  refine ⟨h.perm.filter p, h.ordered.filter p, fun k => ?_⟩
  rw [List.filter_comm, h.stable k, List.filter_comm]

/-- The key of the first element is the least one, and among the elements with that key
stability names the first. -/
theorem head_eq {y z : α} (hy : StablySorted key xs (y :: ys))
    (hz : StablySorted key xs (z :: zs)) : y = z := by
  have hle : ∀ {a b : α} {as bs : List α}, StablySorted key xs (a :: as) →
      StablySorted key xs (b :: bs) → key a ≤ key b := by
    intro a b as bs ha hb
    have hmem : b ∈ a :: as := ha.perm.mem_iff.mpr (hb.perm.mem_iff.mp List.mem_cons_self)
    rcases List.mem_cons.mp hmem with rfl | hmem
    · exact le_refl _
    · exact (List.pairwise_cons.mp ha.ordered).1 b hmem
  have hkey : key y = key z := le_antisymm (hle hy hz) (hle hz hy)
  have heq := (hy.stable (key z)).trans (hz.stable (key z)).symm
  rw [List.filter_cons_of_pos (by simpa using hkey), List.filter_cons_of_pos (by simp)] at heq
  exact (List.cons.inj heq).1

/-- There is one stably sorted arrangement of a list. -/
theorem unique (hy : StablySorted key xs ys) (hz : StablySorted key xs zs) : ys = zs := by
  induction ys generalizing xs zs with
  | nil => exact (hy.perm.trans hz.perm.symm).nil_eq
  | cons y ys ih =>
    cases zs with
    | nil => exact (hy.perm.trans hz.perm.symm).eq_nil
    | cons z zs =>
      obtain rfl := head_eq hy hz
      have htail : StablySorted key ys zs := by
        refine ⟨(hz.perm.trans hy.perm.symm).cons_inv, (List.pairwise_cons.mp hz.ordered).2,
          fun k => ?_⟩
        have heq := (hz.stable k).trans (hy.stable k).symm
        by_cases hk : key y = k
        · rw [List.filter_cons_of_pos (by simpa using hk),
            List.filter_cons_of_pos (by simpa using hk)] at heq
          exact (List.cons.inj heq).2
        · rwa [List.filter_cons_of_neg (by simpa using hk),
            List.filter_cons_of_neg (by simpa using hk)] at heq
      have hself : StablySorted key ys ys :=
        ⟨List.Perm.refl ys, (List.pairwise_cons.mp hy.ordered).2, fun _ => rfl⟩
      rw [ih hself htail]

end StablySorted
end Support
