import Mathlib.Algebra.BigOperators.Group.List.Lemmas
import Mathlib.Algebra.BigOperators.Ring.Finset
import Mathlib.Data.List.Dedup
import Mathlib.Data.List.Perm.Lattice
import Mathlib.Tactic.Common
import Std.Data.TreeMap.Lemmas

namespace Bingit

variable {κ : Type} [Ord κ]

def findOrInsert (counter : Std.TreeMap κ ℤ) (key : κ) : Std.TreeMap κ ℤ :=
  if key ∈ counter then counter else counter.insert key 0

def increment (counter : Std.TreeMap κ ℤ) (key : κ) : Std.TreeMap κ ℤ :=
  counter.insert key (counter.getD key 0 + 1)

def countUp (counter : Std.TreeMap κ ℤ) (key : κ) : Std.TreeMap κ ℤ := increment (findOrInsert counter key) key

namespace Histogram

variable [DecidableEq κ] [Std.TransOrd κ] [Std.LawfulEqOrd κ]

def IsHistogram (counter : Std.TreeMap κ ℤ) (keys : List κ) : Prop :=
  ∀ k, counter[k]? = if keys.count k = 0 then none else some (keys.count k : ℤ)

omit [Std.LawfulEqOrd κ] in
theorem isHistogram_empty : IsHistogram (∅ : Std.TreeMap κ ℤ) [] := by
  intro k
  simp

theorem getElem?_countUp (counter : Std.TreeMap κ ℤ) (key k : κ) :
    (countUp counter key)[k]? = if key = k then some (counter[k]?.getD 0 + 1) else counter[k]? := by
  unfold countUp increment findOrInsert
  simp only [Std.TreeMap.getElem?_insert, Std.compare_eq_iff_eq, Std.TreeMap.getD_eq_getD_getElem?]
  by_cases hk : key = k
  · subst hk
    simp only [if_true]
    by_cases hmem : key ∈ counter
    · rw [if_pos hmem]
    · rw [if_neg hmem, Std.TreeMap.getElem?_insert_self, Std.TreeMap.getElem?_eq_none hmem]
      rfl
  · simp only [if_neg hk]
    split
    · rfl
    · rw [Std.TreeMap.getElem?_insert, if_neg (by rwa [Std.compare_eq_iff_eq])]

theorem isHistogram_countUp {counter : Std.TreeMap κ ℤ} {keys : List κ} (h : IsHistogram counter keys) (key : κ) :
    IsHistogram (countUp counter key) (keys ++ [key]) := by
  intro k
  rw [getElem?_countUp, h k, List.count_append, List.count_singleton]
  by_cases hk : key = k
  · subst hk
    by_cases hzero : keys.count key = 0 <;> simp [hzero]
  · simp [hk]

theorem IsHistogram.mem_toList {counter : Std.TreeMap κ ℤ} {keys : List κ} (h : IsHistogram counter keys) (k : κ)
    (n : ℤ) : (k, n) ∈ counter.toList ↔ k ∈ keys ∧ n = keys.count k := by
  rw [Std.TreeMap.mem_toList_iff_getElem?_eq_some, h k, ← List.count_pos_iff]
  by_cases hzero : keys.count k = 0
  · simp [hzero]
  · simp [hzero, Nat.pos_of_ne_zero hzero, eq_comm]

omit [Std.LawfulEqOrd κ] in
theorem IsHistogram.getD_eq {counter : Std.TreeMap κ ℤ} {keys : List κ} (h : IsHistogram counter keys) (k : κ) :
    counter.getD k 0 = keys.count k := by
  rw [Std.TreeMap.getD_eq_getD_getElem?, h k]
  split
  · next hzero => rw [hzero]; rfl
  · rfl

omit [Std.LawfulEqOrd κ] in
theorem IsHistogram.mem_iff {counter : Std.TreeMap κ ℤ} {keys : List κ} (h : IsHistogram counter keys) (k : κ) :
    k ∈ counter ↔ k ∈ keys := by
  rw [Std.TreeMap.mem_iff_isSome_getElem?, h k, ← List.count_pos_iff]
  by_cases hzero : keys.count k = 0
  · simp [hzero]
  · simp [hzero, Nat.pos_of_ne_zero hzero]

theorem IsHistogram.keys_perm {counter : Std.TreeMap κ ℤ} {keys : List κ} (h : IsHistogram counter keys) :
    counter.keys.Perm keys.dedup := by
  have hnodup : counter.keys.Nodup := by
    have hdistinct := Std.TreeMap.distinct_keys (t := counter)
    exact hdistinct.imp fun hne heq => hne (Std.compare_eq_iff_eq.mpr heq)
  apply (List.perm_ext_iff_of_nodup hnodup keys.nodup_dedup).mpr
  intro k
  rw [List.mem_dedup, Std.TreeMap.mem_keys, Std.TreeMap.mem_iff_isSome_getElem?, h k, ← List.count_pos_iff]
  by_cases hzero : keys.count k = 0
  · simp [hzero]
  · simp [hzero, Nat.pos_of_ne_zero hzero]

theorem IsHistogram.sum_eq {counter : Std.TreeMap κ ℤ} {keys : List κ} (h : IsHistogram counter keys) :
    (counter.toList.map Prod.snd).sum = keys.length := by
  have hvalues : counter.toList.map Prod.snd = counter.keys.map (fun k => (keys.count k : ℤ)) := by
    rw [← Std.TreeMap.map_fst_toList_eq_keys, List.map_map]
    apply List.map_congr_left
    rintro ⟨k, n⟩ hmem
    exact ((h.mem_toList k n).mp hmem).2
  rw [hvalues, (h.keys_perm.map _).sum_eq, ← List.sum_map_count_dedup_eq_length keys, Nat.cast_list_sum,
    List.map_map]
  rfl

end Histogram

end Bingit
