import Bingit.Text

namespace Bingit

open Text

/-- `boost::replace_all`: from left to right, without overlaps. -/
def replaceFrom (pattern replacement : Text) : ℕ → Text → Text
  | _, [] => []
  | skip + 1, _ :: s => replaceFrom pattern replacement skip s
  | 0, c :: s =>
    if pattern <+: c :: s then replacement ++ replaceFrom pattern replacement (pattern.length - 1) s
    else c :: replaceFrom pattern replacement 0 s

def replaceAll (pattern replacement s : Text) : Text := replaceFrom pattern replacement 0 s

theorem replaceFrom_skip (pattern replacement a b : Text) :
    replaceFrom pattern replacement a.length (a ++ b) = replaceFrom pattern replacement 0 b := by
  induction a with
  | nil => rfl
  | cons c a ih => exact ih

theorem replaceAll_pattern {pattern : Text} (hne : pattern ≠ []) (replacement s : Text) :
    replaceAll pattern replacement (pattern ++ s) = replacement ++ replaceAll pattern replacement s := by
  obtain ⟨c, w, rfl⟩ := List.exists_cons_of_ne_nil hne
  have hstart : c :: w <+: c :: (w ++ s) := List.prefix_append (c :: w) s
  rw [replaceAll, List.cons_append, replaceFrom, if_pos hstart]
  exact congrArg (replacement ++ ·) (replaceFrom_skip (c :: w) replacement w s)

theorem replaceAll_cons_of_not {pattern s : Text} {c : Char} (h : ¬ pattern <+: c :: s) (replacement : Text) :
    replaceAll pattern replacement (c :: s) = c :: replaceAll pattern replacement s := if_neg h

theorem replaceAll_append_of_notMem {d : Char} {pattern : Text} {a : Text} (h : d ∉ a) (replacement s : Text) :
    replaceAll (d :: pattern) replacement (a ++ s) = a ++ replaceAll (d :: pattern) replacement s := by
  induction a with
  | nil => rfl
  | cons c a ih =>
    rw [List.mem_cons, not_or] at h
    have hnot : ¬ d :: pattern <+: c :: (a ++ s) := fun hp => h.1 (List.cons_prefix_cons.mp hp).1
    rw [List.cons_append, replaceAll_cons_of_not hnot, ih h.2, List.cons_append]

theorem replaceAll_append_of_not_infix {pattern a s : Text} (h : ¬ pattern <:+: a) {d : Char} (hd : d ∉ pattern)
    (replacement : Text) :
    replaceAll pattern replacement (a ++ d :: s) = a ++ replaceAll pattern replacement (d :: s) := by
  induction a with
  | nil => rfl
  | cons c a ih =>
    have hnot : ¬ pattern <+: c :: (a ++ d :: s) := by
      intro hp
      have hshort := List.prefix_append (c :: a ++ [d]) s
      rw [List.append_assoc, List.singleton_append, List.cons_append] at hshort
      rcases List.prefix_or_prefix_of_prefix hp hshort with hin | hin
      · rw [← List.cons_append] at hin
        rcases List.prefix_concat_iff.mp hin with heq | hin
        · exact hd (by rw [heq]; simp)
        · exact h hin.isInfix
      · exact hd (hin.subset (by simp))
    have htail : ¬ pattern <:+: a := fun hp => h (hp.trans (List.suffix_cons c a).isInfix)
    rw [List.cons_append, replaceAll_cons_of_not hnot, ih htail, List.cons_append]

theorem replaceAll_other {d : Char} {pattern w : Text} (hw : d ∉ w) (s : Text) (h : ¬ pattern <+: w ++ s)
    (replacement : Text) :
    replaceAll (d :: pattern) replacement ((d :: w) ++ s) = (d :: w) ++ replaceAll (d :: pattern) replacement s := by
  have hnot : ¬ d :: pattern <+: d :: (w ++ s) := fun hp => h (List.cons_prefix_cons.mp hp).2
  rw [List.cons_append, replaceAll_cons_of_not hnot, replaceAll_append_of_notMem hw, List.cons_append]

theorem replaceAll_of_notMem {d : Char} {pattern a : Text} (h : d ∉ a) (replacement : Text) :
    replaceAll (d :: pattern) replacement a = a := by
  have happend := @replaceAll_append_of_notMem d pattern a h replacement []
  rw [List.append_nil] at happend
  rw [happend]
  exact List.append_nil a

end Bingit
