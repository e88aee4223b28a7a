import OpenFlash.Support.Dict
import Mathlib.Data.List.Dedup
import Mathlib.Data.List.MinMax

/-! Dictionaries and sets up to the order of their entries: dictionary displays, sorted
keys, and the queries that do not see the order. -/
namespace Support

/-- A maximum with respect to an injective key does not depend on the order of the list. -/
theorem argmax_perm {α β : Type} [LinearOrder β] {f : α → β} (hf : Function.Injective f)
    {l l' : List α} (h : l.Perm l') : l.argmax f = l'.argmax f := by
  cases hm : l.argmax f with
  | none =>
    rw [List.argmax_eq_none] at hm
    subst hm
    rw [← h.nil_eq, List.argmax_nil]
  | some m =>
    cases hm' : l'.argmax f with
    | none =>
      rw [List.argmax_eq_none] at hm'
      subst hm'
      rw [h.eq_nil, List.argmax_nil] at hm
      exact absurd hm (by simp)
    | some m' =>
      have hle : f m ≤ f m' := List.le_of_mem_argmax (h.mem_iff.mp (List.argmax_mem hm)) hm'
      have hge : f m' ≤ f m := List.le_of_mem_argmax (h.mem_iff.mpr (List.argmax_mem hm')) hm
      rw [hf (le_antisymm hle hge)]

theorem max?_perm {α : Type} [Max α] [LE α] [Std.IsLinearOrder α] [Std.LawfulOrderMax α]
    {l l' : List α} (h : l.Perm l') : l.max? = l'.max? := by
  cases hm : l.max? with
  | none =>
    rw [List.max?_eq_none_iff] at hm
    subst hm
    rw [← h.nil_eq]
    rfl
  | some m =>
    symm
    rw [List.max?_eq_some_iff] at hm ⊢
    exact ⟨h.mem_iff.mp hm.1, fun b hb => hm.2 b (h.mem_iff.mpr hb)⟩

namespace Dict
variable {κ κ' ν ν' : Type}

theorem nodup_entries (d : Dict κ ν) : d.entries.Nodup := d.nodup.of_map

section
variable [DecidableEq κ]

/-- Two dictionaries with the same items. -/
def Same (d d' : Dict κ ν) : Prop := ∀ k, d.get? k = d'.get? k

theorem Same.perm {d d' : Dict κ ν} (h : Same d d') : d.entries.Perm d'.entries := by
  apply (List.perm_ext_iff_of_nodup d.nodup_entries d'.nodup_entries).mpr
  rintro ⟨k, v⟩
  rw [← get?_eq_some_iff, ← get?_eq_some_iff, h k]

theorem Same.getD {d d' : Dict κ ν} (h : Same d d') (k : κ) (v : ν) : d.getD k v = d'.getD k v := by
  unfold Dict.getD
  rw [h k]

theorem Same.set {d d' : Dict κ ν} (h : Same d d') (k : κ) (v : ν) :
    Same (d.set k v) (d'.set k v) := by
  intro k'
  rw [get?_set, get?_set, h k']

theorem get?_touch (d : Dict κ ν) (k k' : κ) (v : ν) :
    (d.touch k v).get? k' = if k = k' then some (d.getD k v) else d.get? k' := by
  unfold touch
  split_ifs with hsome hk hk
  · subst hk
    obtain ⟨w, hw⟩ := Option.isSome_iff_exists.mp hsome
    rw [Dict.getD, hw, Option.getD_some]
  · rfl
  · subst hk
    rw [get?_set_self, Dict.getD, Option.not_isSome_iff_eq_none.mp hsome, Option.getD_none]
  · exact get?_set_of_ne d v hk

/-- Touching a list of keys fills in the default at those that were absent. -/
theorem get?_foldl_touch (ks : List κ) (v : ν) (d : Dict κ ν) (k : κ) :
    (ks.foldl (fun d k => d.touch k v) d).get? k =
      if k ∈ ks then some (d.getD k v) else d.get? k := by
  induction ks generalizing d with
  | nil => simp
  | cons k' ks ih =>
    rw [List.foldl_cons, ih, getD_touch, get?_touch]
    by_cases hk : k' = k
    · subst hk
      simp
    · simp [hk, Ne.symm hk]

theorem getD_foldl_touch (ks : List κ) (v : ν) (d : Dict κ ν) (k : κ) :
    (ks.foldl (fun d k => d.touch k v) d).getD k v = d.getD k v := by
  rw [getD, get?_foldl_touch]
  split_ifs
  · rfl
  · rfl

/-- `len(d)`. -/
def size (d : Dict κ ν) : ℕ := d.entries.length

/-- The sum of the values. -/
def total (d : Dict κ ℤ) : ℤ := (d.entries.map Prod.snd).foldr (· + ·) 0

theorem size_set (d : Dict κ ν) (k : κ) (v : ν) :
    (d.set k v).size = if (d.get? k).isSome then d.size else d.size + 1 := by
  show (assocSet k v d.entries).length = if (assoc k d.entries).isSome then _ else _
  unfold size
  induction d.entries with
  | nil => rfl
  | cons e es ih =>
    by_cases he : e.1 = k
    · simp [assocSet, assoc, he]
    · simp only [assocSet, assoc, if_neg he, List.length_cons, ih]
      split_ifs <;> rfl

theorem total_set (d : Dict κ ℤ) (k : κ) (v : ℤ) :
    (d.set k v).total = d.total + v - d.getD k 0 := by
  show ((assocSet k v d.entries).map Prod.snd).foldr (· + ·) 0
    = _ + v - (assoc k d.entries).getD 0
  unfold total
  induction d.entries with
  | nil => simp [assocSet, assoc]
  | cons e es ih =>
    rw [assocSet, assoc]
    split_ifs with he
    · simp only [List.map_cons, List.foldr_cons, Option.getD_some]
      omega
    · simp only [List.map_cons, List.foldr_cons, ih]
      omega

/-- The dictionary display `{k: v, ...}`: a later item with the same key wins. -/
def ofList (l : List (κ × ν)) : Dict κ ν := l.foldl (fun d e => d.set e.1 e.2) empty

theorem assocSet_of_notMem {k : κ} (v : ν) {es : List (κ × ν)} (h : k ∉ es.map Prod.fst) :
    assocSet k v es = es ++ [(k, v)] := by
  induction es with
  | nil => rfl
  | cons e es ih =>
    rw [List.map_cons, List.mem_cons, not_or] at h
    rw [assocSet, if_neg (Ne.symm h.1), ih h.2, List.cons_append]

theorem foldl_set_entries (l : List (κ × ν)) (d : Dict κ ν)
    (h : ((d.entries ++ l).map Prod.fst).Nodup) :
    (l.foldl (fun d e => d.set e.1 e.2) d).entries = d.entries ++ l := by
  induction l generalizing d with
  | nil => simp
  | cons e l ih =>
    have hnew : e.1 ∉ d.entries.map Prod.fst := by
      rw [List.map_append, List.map_cons] at h
      intro hmem
      exact (List.nodup_append.mp h).2.2 _ hmem _ List.mem_cons_self rfl
    have hset : (d.set e.1 e.2).entries = d.entries ++ [e] := assocSet_of_notMem e.2 hnew
    rw [List.foldl_cons, ih]
    · rw [hset, List.append_assoc, List.singleton_append]
    · rw [hset, List.append_assoc, List.singleton_append]
      exact h

theorem ofList_entries {l : List (κ × ν)} (h : (l.map Prod.fst).Nodup) :
    (ofList l).entries = l :=
  foldl_set_entries l empty h

/-- The items in the order of their keys. -/
def sortKeys [LinearOrder κ] (d : Dict κ ν) : Dict κ ν :=
  ⟨d.entries.insertionSort (fun a b => a.1 ≤ b.1),
    ((List.perm_insertionSort _ d.entries).map _).nodup_iff.mpr d.nodup⟩

end

section
variable [DecidableEq κ']

/-- `{f(k): g(v) for k, v in d.items()}`. -/
def comprehension (f : κ → κ') (g : ν → ν') (d : Dict κ ν) : Dict κ' ν' :=
  ofList (d.entries.map fun e => (f e.1, g e.2))

/-- The same display when reading a key or a value may raise. -/
def comprehension? (f : κ → Option κ') (g : ν → Option ν') (d : Dict κ ν) :
    Option (Dict κ' ν') :=
  (d.entries.mapM fun e : κ × ν => do return (← f e.1, ← g e.2)).map ofList

theorem comprehension_entries {f : κ → κ'} (hf : Function.Injective f) (g : ν → ν')
    (d : Dict κ ν) : (d.comprehension f g).entries = d.entries.map fun e => (f e.1, g e.2) := by
  apply ofList_entries
  rw [List.map_map]
  have h := d.nodup.map hf
  rw [List.map_map] at h
  exact h

end

theorem mapM_some {α β : Type} {f : α → Option β} {g : α → β} (h : ∀ a, f a = some (g a))
    (l : List α) : l.mapM f = some (l.map g) := by
  induction l with
  | nil => rfl
  | cons a l ih => simp [List.mapM_cons, h, ih]

theorem mapM_eq_some_iff {α β : Type} {f : α → Option β} {l : List α} {l' : List β} :
    l.mapM f = some l' ↔ l.map f = l'.map some := by
  induction l generalizing l' with
  | nil => cases l' <;> simp
  | cons a l ih =>
    cases l' with
    | nil => simp [List.mapM_cons, Option.bind_eq_some_iff]
    | cons b l' => simp [List.mapM_cons, Option.bind_eq_some_iff, ih]

theorem exists_mapM {α β : Type} {f : α → Option β} {l : List α} (h : ∀ a ∈ l, (f a).isSome) :
    ∃ l', l.mapM f = some l' := by
  induction l with
  | nil => exact ⟨[], rfl⟩
  | cons a l ih =>
    obtain ⟨b, hb⟩ := Option.isSome_iff_exists.mp (h a List.mem_cons_self)
    obtain ⟨l', hl⟩ := ih fun a' ha => h a' (List.mem_cons_of_mem a ha)
    exact ⟨b :: l', by simp [List.mapM_cons, hb, hl]⟩

theorem mem_of_mapM {α β : Type} {f : α → Option β} {l : List α} {l' : List β}
    (h : l.mapM f = some l') {b : β} : b ∈ l' ↔ ∃ a ∈ l, f a = some b := by
  have hmem : some b ∈ l.map f ↔ some b ∈ l'.map some := by rw [mapM_eq_some_iff.mp h]
  simpa [eq_comm] using hmem.symm

section
variable [DecidableEq κ'] {d : Dict κ ν} {d' : Dict κ' ν'}

/-- A display whose keys and values can all be read is read. -/
theorem exists_comprehension? {dec : κ → Option κ'} (decV : ν → Option ν')
    (hkey : ∀ e ∈ d.entries, (dec e.1).isSome)
    (hvalue : ∀ e ∈ d.entries, (decV e.2).isSome) :
    ∃ d', d.comprehension? dec decV = some d' := by
  have hread : ∀ e ∈ d.entries,
      (do return (← dec e.1, ← decV e.2) : Option (κ' × ν')).isSome := by
    intro e he
    obtain ⟨k, hk⟩ := Option.isSome_iff_exists.mp (hkey e he)
    obtain ⟨v, hv⟩ := Option.isSome_iff_exists.mp (hvalue e he)
    simp [hk, hv]
  obtain ⟨l, hl⟩ := exists_mapM hread
  exact ⟨ofList l, by rw [comprehension?, hl, Option.map_some]⟩

/-- Keys that stay apart when they are read keep their values. -/
theorem get?_comprehension? {dec : κ → Option κ'} {decV : ν → Option ν'}
    (h : d.comprehension? dec decV = some d')
    (hinj : ∀ e ∈ d.entries, ∀ e' ∈ d.entries, dec e.1 = dec e'.1 → e.1 = e'.1) {k : κ'} {v : ν'} :
    d'.get? k = some v ↔ ∃ e ∈ d.entries, dec e.1 = some k ∧ decV e.2 = some v := by
  obtain ⟨l, hl, rfl⟩ := Option.map_eq_some_iff.mp h
  have hread : ∀ (e : κ × ν) (x : κ' × ν'), (do return (← dec e.1, ← decV e.2)) = some x ↔
      dec e.1 = some x.1 ∧ decV e.2 = some x.2 := by
    rintro e ⟨k, v⟩
    simp [Option.bind_eq_some_iff]
  have hkeys : (l.map Prod.fst).map some = (d.entries.map Prod.fst).map dec := by
    have hmap := congrArg (List.map (Option.map Prod.fst)) (mapM_eq_some_iff.mp hl)
    rw [List.map_map, List.map_map] at hmap
    rw [List.map_map, List.map_map]
    refine hmap.symm.trans (List.map_congr_left fun e he => ?_)
    obtain ⟨x, -, hx⟩ : ∃ x ∈ l, some x = (do return (← dec e.1, ← decV e.2)) := by
      rw [← List.mem_map, ← mapM_eq_some_iff.mp hl]
      exact List.mem_map_of_mem he
    show Option.map Prod.fst (do return (← dec e.1, ← decV e.2)) = dec e.1
    rw [← hx, ((hread e x).mp hx.symm).1]
    rfl
  have hnodup : (l.map Prod.fst).Nodup := by
    apply List.Nodup.of_map some
    rw [hkeys]
    apply d.nodup.map_on
    intro k hk k' hk' heq
    obtain ⟨e, he, rfl⟩ := List.mem_map.mp hk
    obtain ⟨e', he', rfl⟩ := List.mem_map.mp hk'
    exact hinj e he e' he' heq
  rw [get?_eq_some_iff, ofList_entries hnodup, mem_of_mapM hl]
  simp only [hread]

end

/-- A dictionary whose keys and values were encoded, and whose keys were then sorted, is
read back with the same items. -/
theorem comprehension?_sortKeys [DecidableEq κ] [DecidableEq κ'] [LinearOrder κ'] {enc : κ → κ'}
    {dec : κ' → Option κ} (encV : ν → ν') (decV : ν' → Option ν) (norm : ν → ν)
    (hkey : ∀ k, dec (enc k) = some k) (hvalue : ∀ v, decV (encV v) = some (norm v))
    (d : Dict κ ν) :
    ∃ d', ((d.comprehension enc encV).sortKeys).comprehension? dec decV = some d' ∧
      ∀ k, d'.get? k = (d.get? k).map norm := by
  have hinj : Function.Injective enc := by
    intro k k' h
    have hdec := hkey k
    rw [h, hkey k'] at hdec
    exact (Option.some.inj hdec).symm
  set both : κ × ν → κ' × ν' := fun e => (enc e.1, encV e.2) with hboth
  set order := d.entries.insertionSort (fun a b => (both a).1 ≤ (both b).1) with horder
  have hsorted : ((d.comprehension enc encV).sortKeys).entries = order.map both := by
    rw [horder, List.map_insertionSort (fun a b => (both a).1 ≤ (both b).1)
      (fun a b : κ' × ν' => a.1 ≤ b.1) both d.entries (fun a _ b _ => Iff.rfl)]
    show (d.comprehension enc encV).entries.insertionSort _ = _
    rw [comprehension_entries hinj]
  have hread : ((d.comprehension enc encV).sortKeys).entries.mapM
      (fun e : κ' × ν' => do return (← dec e.1, ← decV e.2))
        = some (order.map fun e => (e.1, norm e.2)) := by
    rw [hsorted, List.mapM_map]
    apply mapM_some
    intro e
    simp [hboth, hkey, hvalue]
  have hperm : (order.map fun e => (e.1, norm e.2)).Perm
      (d.entries.map fun e => (e.1, norm e.2)) := (List.perm_insertionSort _ _).map _
  have hnodup : ((order.map fun e => (e.1, norm e.2)).map Prod.fst).Nodup := by
    rw [(hperm.map _).nodup_iff, List.map_map]
    exact d.nodup
  refine ⟨ofList (order.map fun e => (e.1, norm e.2)), ?_, fun k => ?_⟩
  · rw [comprehension?, hread, Option.map_some]
  · apply Option.ext
    intro v
    rw [get?_eq_some_iff, ofList_entries hnodup, hperm.mem_iff, List.mem_map,
      Option.map_eq_some_iff]
    constructor
    · rintro ⟨e, he, heq⟩
      obtain ⟨rfl, rfl⟩ := Prod.mk.inj heq
      exact ⟨e.2, get?_eq_some_iff.mpr he, rfl⟩
    · rintro ⟨w, hw, rfl⟩
      exact ⟨(k, w), get?_eq_some_iff.mp hw, rfl⟩

end Dict

namespace PySet
variable {α : Type}

/-- Two sets with the same members. -/
def Same (s t : PySet α) : Prop := ∀ a, a ∈ s ↔ a ∈ t

/-- `set(l)`. -/
def ofList [DecidableEq α] (l : List α) : PySet α := ⟨l.dedup, l.nodup_dedup⟩

@[simp] theorem mem_ofList [DecidableEq α] {a : α} {l : List α} : a ∈ ofList l ↔ a ∈ l :=
  List.mem_dedup

theorem Same.add [DecidableEq α] {s t : PySet α} (h : Same s t) (a : α) :
    Same (s.add a) (t.add a) := by
  intro b
  rw [mem_add, mem_add, h b]

theorem Same.discard [DecidableEq α] {s t : PySet α} (h : Same s t) (a : α) :
    Same (s.discard a) (t.discard a) := by
  intro b
  rw [mem_discard, mem_discard, h b]

theorem Same.sorted [LinearOrder α] {s t : PySet α} (h : Same s t) : s.sorted = t.sorted := by
  have hperm : s.elems.Perm t.elems := (List.perm_ext_iff_of_nodup s.nodup t.nodup).mpr h
  apply List.Perm.eq_of_pairwise' (r := (· ≤ ·))
  · exact List.pairwise_insertionSort _ _
  · exact List.pairwise_insertionSort _ _
  · exact (List.perm_insertionSort _ _).trans (hperm.trans (List.perm_insertionSort _ _).symm)

end PySet
end Support
