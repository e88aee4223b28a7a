import Mathlib.Data.List.Nodup
import Mathlib.Data.List.Sort

/-! Insertion-ordered dictionaries and duplicate-free sets. An update of a present
key keeps its position and an update of an absent key appends, so that iteration
over `entries` follows the order of first insertion. -/
namespace Support

structure Dict (κ ν : Type) where
  entries : List (κ × ν)
  nodup : (entries.map Prod.fst).Nodup

namespace Dict
variable {κ ν : Type} [DecidableEq κ]

def assoc (k : κ) : List (κ × ν) → Option ν
  | [] => none
  | e :: es => if e.1 = k then some e.2 else assoc k es

def assocSet (k : κ) (v : ν) : List (κ × ν) → List (κ × ν)
  | [] => [(k, v)]
  | e :: es => if e.1 = k then (k, v) :: es else e :: assocSet k v es

theorem assoc_assocSet (k k' : κ) (v : ν) (es : List (κ × ν)) :
    assoc k' (assocSet k v es) = if k = k' then some v else assoc k' es := by
  induction es with
  | nil => simp [assocSet, assoc]
  | cons e es ih =>
    by_cases he : e.1 = k
    · subst he
      by_cases hk : e.1 = k' <;> simp [assocSet, assoc, hk]
    · by_cases hk : e.1 = k'
      · subst hk
        simp [assocSet, assoc, he, Ne.symm he]
      · simp [assocSet, assoc, he, hk, ih]

theorem mem_keys_assocSet {k k' : κ} {v : ν} {es : List (κ × ν)} :
    k' ∈ (assocSet k v es).map Prod.fst ↔ k' = k ∨ k' ∈ es.map Prod.fst := by
  induction es with
  | nil => simp [assocSet]
  | cons e es ih =>
    by_cases he : e.1 = k
    · subst he
      simp [assocSet]
    · simp only [assocSet, he, if_false, List.map_cons, List.mem_cons, ih]
      tauto

theorem nodup_assocSet {k : κ} {v : ν} {es : List (κ × ν)} (h : (es.map Prod.fst).Nodup) :
    ((assocSet k v es).map Prod.fst).Nodup := by
  induction es with
  | nil => simp [assocSet]
  | cons e es ih =>
    rw [List.map_cons, List.nodup_cons] at h
    by_cases he : e.1 = k
    · subst he
      simpa [assocSet] using h
    · simp only [assocSet, if_neg he, List.map_cons, List.nodup_cons, mem_keys_assocSet]
      exact ⟨fun hm => hm.elim he h.1, ih h.2⟩

theorem assoc_eq_some_iff {k : κ} {v : ν} {es : List (κ × ν)} (h : (es.map Prod.fst).Nodup) :
    assoc k es = some v ↔ (k, v) ∈ es := by
  induction es with
  | nil => simp [assoc]
  | cons e es ih =>
    rw [List.map_cons, List.nodup_cons] at h
    by_cases he : e.1 = k
    · subst he
      have hn : (e.1, v) ∉ es := fun hm => h.1 (List.mem_map.mpr ⟨_, hm, rfl⟩)
      simp only [assoc, if_true, List.mem_cons, hn, or_false, Option.some.injEq]
      exact ⟨fun hv => by rw [← hv], fun hv => by rw [← hv]⟩
    · have hn : (k, v) ≠ e := fun hv => he (by rw [← hv])
      simp [assoc, he, hn, ih h.2]

def empty : Dict κ ν := ⟨[], List.nodup_nil⟩

/-- `d.get(k)`. -/
def get? (d : Dict κ ν) (k : κ) : Option ν := assoc k d.entries

/-- `d.get(k, v)`. -/
def getD (d : Dict κ ν) (k : κ) (v : ν) : ν := (d.get? k).getD v

/-- `d[k] = v`. -/
def set (d : Dict κ ν) (k : κ) (v : ν) : Dict κ ν :=
  ⟨assocSet k v d.entries, nodup_assocSet d.nodup⟩

/-- The read `d[k]` of a `defaultdict`, which stores the default at an absent key. -/
def touch (d : Dict κ ν) (k : κ) (v : ν) : Dict κ ν := if (d.get? k).isSome then d else d.set k v

/-- `d.pop(k, None)`. -/
def pop (d : Dict κ ν) (k : κ) : Dict κ ν :=
  ⟨d.entries.filter (fun e => e.1 ≠ k), d.nodup.sublist (List.filter_sublist.map _)⟩

@[simp] theorem get?_empty (k : κ) : (empty : Dict κ ν).get? k = none := rfl

theorem get?_set (d : Dict κ ν) (k k' : κ) (v : ν) :
    (d.set k v).get? k' = if k = k' then some v else d.get? k' := assoc_assocSet k k' v d.entries

@[simp] theorem get?_set_self (d : Dict κ ν) (k : κ) (v : ν) : (d.set k v).get? k = some v := by
  simp [get?_set]

theorem get?_set_of_ne (d : Dict κ ν) {k k' : κ} (v : ν) (h : k ≠ k') :
    (d.set k v).get? k' = d.get? k' := by
  simp [get?_set, h]

theorem isSome_get?_set (d : Dict κ ν) (k k' : κ) (v : ν) :
    ((d.set k v).get? k').isSome ↔ k = k' ∨ (d.get? k').isSome := by
  rw [get?_set]
  split_ifs with h
  · simp [h]
  · simp [h]

theorem getD_set (d : Dict κ ν) (k k' : κ) (v w : ν) :
    (d.set k v).getD k' w = if k = k' then v else d.getD k' w := by
  unfold getD
  rw [get?_set]
  split_ifs <;> rfl

@[simp] theorem getD_touch (d : Dict κ ν) (k k' : κ) (v : ν) :
    (d.touch k v).getD k' v = d.getD k' v := by
  unfold touch
  split_ifs with h
  · rfl
  · rw [getD_set]
    split_ifs with hk
    · subst hk
      simp only [getD, Option.not_isSome_iff_eq_none.mp h, Option.getD_none]
    · rfl

theorem get?_eq_some_iff {d : Dict κ ν} {k : κ} {v : ν} :
    d.get? k = some v ↔ (k, v) ∈ d.entries := assoc_eq_some_iff d.nodup

theorem get?_pop (d : Dict κ ν) (k k' : κ) :
    (d.pop k).get? k' = if k = k' then none else d.get? k' := by
  apply Option.ext
  intro v
  split_ifs with h
  · subst h
    simp [get?_eq_some_iff, pop]
  · simp [get?_eq_some_iff, pop, Ne.symm h]

end Dict

/-- A finite set kept as a list without repetitions. -/
structure PySet (α : Type) where
  elems : List α
  nodup : elems.Nodup

namespace PySet
variable {α : Type}

instance : Membership α (PySet α) := ⟨fun s a => a ∈ s.elems⟩

instance [DecidableEq α] (a : α) (s : PySet α) : Decidable (a ∈ s) :=
  inferInstanceAs (Decidable (a ∈ s.elems))

def empty : PySet α := ⟨[], List.nodup_nil⟩

def add [DecidableEq α] (s : PySet α) (a : α) : PySet α := ⟨s.elems.insert a, s.nodup.insert⟩

def discard [DecidableEq α] (s : PySet α) (a : α) : PySet α := ⟨s.elems.erase a, s.nodup.erase a⟩

@[simp] theorem mem_add [DecidableEq α] {a b : α} {s : PySet α} : b ∈ s.add a ↔ b = a ∨ b ∈ s :=
  List.mem_insert_iff

@[simp] theorem mem_discard [DecidableEq α] {a b : α} {s : PySet α} :
    b ∈ s.discard a ↔ b ≠ a ∧ b ∈ s :=
  s.nodup.mem_erase_iff

/-- `sorted(s)`. -/
def sorted [LinearOrder α] (s : PySet α) : List α := s.elems.insertionSort (· ≤ ·)

@[simp] theorem mem_sorted [LinearOrder α] {a : α} {s : PySet α} : a ∈ s.sorted ↔ a ∈ s :=
  List.mem_insertionSort _

end PySet
end Support
