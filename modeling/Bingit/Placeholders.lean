import Bingit.ReplaceAll
import Mathlib.Logic.Function.Basic
import Mathlib.Tactic.Ring

namespace Bingit.Placeholders

open Text

variable {κ : Type}

/-- Placeholders begin with `d`, and none begins another. -/
structure Markers (mark : κ → Text) (d : Char) : Prop where
  begins : ∀ k, ∃ w, mark k = d :: w ∧ d ∉ w
  apart : ∀ k k', mark k <+: mark k' → k = k'

def fill (v : κ → Text) (l : List (Char ⊕ κ)) : Text := l.flatMap (Sum.elim (fun c => [c]) v)

@[simp] theorem fill_nil (v : κ → Text) : fill v [] = [] := rfl

@[simp] theorem fill_char (v : κ → Text) (c : Char) (l : List (Char ⊕ κ)) : fill v (.inl c :: l) = c :: fill v l := rfl

@[simp] theorem fill_slot (v : κ → Text) (k : κ) (l : List (Char ⊕ κ)) : fill v (.inr k :: l) = v k ++ fill v l := rfl

def parseFrom (mark : κ → Text) (keys : List κ) : ℕ → Text → List (Char ⊕ κ)
  | _, [] => []
  | skip + 1, _ :: s => parseFrom mark keys skip s
  | 0, c :: s =>
    match keys.find? (fun k => mark k <+: c :: s) with
    | some k => .inr k :: parseFrom mark keys ((mark k).length - 1) s
    | none => .inl c :: parseFrom mark keys 0 s

def parse (mark : κ → Text) (keys : List κ) (s : Text) : List (Char ⊕ κ) := parseFrom mark keys 0 s

def substitute (mark : κ → Text) (keys : List κ) (v : κ → Text) (s : Text) : Text := fill v (parse mark keys s)

def replaceEach (mark v : κ → Text) (order : List κ) (s : Text) : Text :=
  order.foldl (fun s k => replaceAll (mark k) (v k) s) s

theorem parseFrom_skip (mark : κ → Text) (keys : List κ) (a b : Text) :
    parseFrom mark keys a.length (a ++ b) = parse mark keys b := by
  induction a with
  | nil => rfl
  | cons c a ih => exact ih

theorem parse_cons_of_not {mark : κ → Text} {keys : List κ} {c : Char} {s : Text}
    (h : ∀ k, ¬ mark k <+: c :: s) : parse mark keys (c :: s) = .inl c :: parse mark keys s := by
  have hfind : keys.find? (fun k => mark k <+: c :: s) = none :=
    List.find?_eq_none.mpr fun k _ => by simpa using h k
  rw [parse, parseFrom, hfind]
  rfl

section Markers

variable {mark : κ → Text} {d : Char} {keys : List κ}

theorem Markers.ne_nil (hmark : Markers mark d) (k : κ) : mark k ≠ [] := by
  obtain ⟨w, hw, -⟩ := hmark.begins k
  rw [hw]
  exact List.cons_ne_nil d w

theorem Markers.eq_of_begins (hmark : Markers mark d) {k k' : κ} {s : Text} (h : mark k <+: s) (h' : mark k' <+: s) :
    k = k' := by
  rcases List.prefix_or_prefix_of_prefix h h' with hbegins | hbegins
  · exact hmark.apart k k' hbegins
  · exact (hmark.apart k' k hbegins).symm

theorem parse_mark (hmark : Markers mark d) (hkeys : ∀ k, k ∈ keys) (k : κ) (s : Text) :
    parse mark keys (mark k ++ s) = .inr k :: parse mark keys s := by
  obtain ⟨w, hw, -⟩ := hmark.begins k
  have hstart : mark k <+: d :: (w ++ s) := by
    rw [hw]
    exact List.prefix_append (d :: w) s
  have hsome : (keys.find? (fun k' => mark k' <+: d :: (w ++ s))).isSome = true := by
    rw [List.find?_isSome]
    exact ⟨k, hkeys k, by simpa using hstart⟩
  obtain ⟨k', hk'⟩ := Option.isSome_iff_exists.mp hsome
  have hfound : mark k' <+: d :: (w ++ s) := by simpa using List.find?_some hk'
  obtain rfl := hmark.eq_of_begins hfound hstart
  have htext : mark k' ++ s = d :: (w ++ s) := by
    rw [hw]
    rfl
  have hlength : (mark k').length - 1 = w.length := by
    rw [hw]
    rfl
  rw [htext, parse, parseFrom, hk']
  simp only [hlength, parseFrom_skip]

theorem parse_induction (hmark : Markers mark d) {P : Text → Prop} (nil : P []) (slot : ∀ k s, P s → P (mark k ++ s))
    (char : ∀ c s, (∀ k, ¬ mark k <+: c :: s) → P s → P (c :: s)) (s : Text) : P s := by
  induction hn : s.length using Nat.strong_induction_on generalizing s with
  | _ n ih =>
    by_cases hsome : ∃ k, mark k <+: s
    · obtain ⟨k, rest, rfl⟩ := hsome
      have hpos : 0 < (mark k).length := List.length_pos_iff.mpr (hmark.ne_nil k)
      rw [List.length_append] at hn
      exact slot k rest (ih rest.length (by omega) rest rfl)
    · cases s with
      | nil => exact nil
      | cons c s =>
        rw [List.length_cons] at hn
        exact char c s (not_exists.mp hsome) (ih s.length (by omega) s rfl)

theorem fill_parse (hmark : Markers mark d) (hkeys : ∀ k, k ∈ keys) (s : Text) : fill mark (parse mark keys s) = s := by
  induction s using parse_induction hmark with
  | nil => rfl
  | slot k s ih => rw [parse_mark hmark hkeys, fill_slot, ih]
  | char c s hnone ih => rw [parse_cons_of_not hnone, fill_char, ih]

theorem replaceAll_other_mark (hmark : Markers mark d) {k k' : κ} (hne : k ≠ k') (v s : Text) :
    replaceAll (mark k) v (mark k' ++ s) = mark k' ++ replaceAll (mark k) v s := by
  obtain ⟨w, hw, -⟩ := hmark.begins k
  obtain ⟨w', hw', hd⟩ := hmark.begins k'
  have hnot : ¬ w <+: w' ++ s := by
    intro hbegins
    have hstart : mark k <+: mark k' ++ s := by
      rw [hw, hw']
      exact List.cons_prefix_cons.mpr ⟨rfl, hbegins⟩
    exact hne (hmark.eq_of_begins hstart (List.prefix_append _ _))
  rw [hw, hw']
  exact replaceAll_other hd s hnot v

theorem replaceAll_eq_fill [DecidableEq κ] (hmark : Markers mark d) (hkeys : ∀ k, k ∈ keys) (k : κ) (v s : Text) :
    replaceAll (mark k) v s = fill (Function.update mark k v) (parse mark keys s) := by
  induction s using parse_induction hmark with
  | nil => rfl
  | slot k' s ih =>
    rw [parse_mark hmark hkeys, fill_slot]
    by_cases hk : k' = k
    · rw [hk, Function.update_self, replaceAll_pattern (hmark.ne_nil k), ih]
    · rw [Function.update_of_ne hk, replaceAll_other_mark hmark (Ne.symm hk), ih]
  | char c s hnone ih => rw [parse_cons_of_not hnone, fill_char, replaceAll_cons_of_not (hnone k), ih]

end Markers

section Occurrences

def occurrences (p s : Text) : ℕ := s.tails.countP (fun r => p <+: r)

/-- Place `i` weighs `t ^ i`. -/
def starts (t : ℕ) (p : Text) : Text → Text → ℕ
  | [], _ => 0
  | c :: a, s => (if p <+: c :: (a ++ s) then 1 else 0) + t * starts t p a s

theorem occurrences_eq_starts {p : Text} (hp : p ≠ []) (s : Text) : occurrences p s = starts 1 p s [] := by
  induction s with
  | nil => simp [occurrences, starts, hp]
  | cons c s ih =>
    rw [occurrences] at ih
    rw [occurrences, List.tails_cons, List.countP_cons, ih, starts, List.append_nil, one_mul, add_comm]
    simp only [decide_eq_true_eq]

theorem starts_append (t : ℕ) (p a b s : Text) :
    starts t p (a ++ b) s = starts t p a (b ++ s) + t ^ a.length * starts t p b s := by
  induction a with
  | nil => simp [starts]
  | cons c a ih =>
    rw [List.cons_append, starts, starts, ih, List.append_assoc, List.length_cons]
    ring

theorem starts_eq_zero_iff {t : ℕ} (ht : 0 < t) (p a s : Text) : starts t p a s = 0 ↔ starts 1 p a s = 0 := by
  induction a with
  | nil => rfl
  | cons c a ih =>
    simp only [starts, Nat.add_eq_zero_iff, Nat.mul_eq_zero, ht.ne', false_or, one_ne_zero, ih]

theorem starts_of_notMem (t : ℕ) {d : Char} {w a : Text} (h : d ∉ a) (s : Text) : starts t (d :: w) a s = 0 := by
  induction a with
  | nil => rfl
  | cons c a ih =>
    rw [List.mem_cons, not_or] at h
    have hnot : ¬ d :: w <+: c :: (a ++ s) := fun hp => h.1 (List.cons_prefix_cons.mp hp).1
    rw [starts, if_neg hnot, ih h.2, mul_zero, add_zero]

theorem replaceAll_append_of_starts {p a : Text} {s : Text} (h : starts 1 p a s = 0) (v : Text) :
    replaceAll p v (a ++ s) = a ++ replaceAll p v s := by
  induction a with
  | nil => rfl
  | cons c a ih =>
    rw [starts, Nat.add_eq_zero_iff, one_mul] at h
    have hnot : ¬ p <+: c :: (a ++ s) := by simpa using h.1
    rw [List.cons_append, replaceAll_cons_of_not hnot, ih h.2, List.cons_append]

variable {mark : κ → Text} {d : Char}

structure Replaces (mark : κ → Text) (t : ℕ) (u u' : κ → Text) : Prop where
  only : ∀ k, u' k = u k ∨ u k = mark k
  length : ∀ k, t ^ (u' k).length = t ^ (u k).length

def Continues (d : Char) (s s' : Text) : Prop := ∀ w, d ∉ w → w <+: s → w <+: s'

theorem Continues.append {s s' : Text} (h : Continues d s s') (a : Text) : Continues d (a ++ s) (a ++ s') := by
  induction a with
  | nil => exact h
  | cons c a ih =>
    intro w hw hbegins
    cases w with
    | nil => exact List.nil_prefix
    | cons e w =>
      obtain ⟨rfl, hrest⟩ := List.cons_prefix_cons.mp hbegins
      rw [List.mem_cons, not_or] at hw
      exact List.cons_prefix_cons.mpr ⟨rfl, ih w hw.2 hrest⟩

theorem Continues.marker {s s' : Text} (h : Continues d s s') {w : Text} (hw : d ∉ w) (c : Char) (a : Text)
    (hbegins : d :: w <+: c :: (a ++ s)) : d :: w <+: c :: (a ++ s') := by
  obtain ⟨rfl, hrest⟩ := List.cons_prefix_cons.mp hbegins
  exact List.cons_prefix_cons.mpr ⟨rfl, h.append a w hw hrest⟩

theorem continues_fill (hmark : Markers mark d) {t : ℕ} {u u' : κ → Text} (h : Replaces mark t u u')
    (l : List (Char ⊕ κ)) : Continues d (fill u l) (fill u' l) := by
  induction l with
  | nil => exact fun w _ hbegins => hbegins
  | cons piece l ih =>
    cases piece with
    | inl c => exact ih.append [c]
    | inr k =>
      rcases h.only k with hsame | hreplaced
      · rw [fill_slot, fill_slot, hsame]
        exact ih.append (u k)
      · obtain ⟨w, hw, -⟩ := hmark.begins k
        intro v hv hbegins
        cases v with
        | nil => exact List.nil_prefix
        | cons e v =>
          rw [fill_slot, hreplaced, hw] at hbegins
          obtain ⟨rfl, -⟩ := List.cons_prefix_cons.mp hbegins
          exact absurd List.mem_cons_self hv

variable [DecidableEq κ]

theorem starts_mark (hmark : Markers mark d) (t : ℕ) (k k' : κ) (s : Text) :
    starts t (mark k) (mark k') s = if k' = k then 1 else 0 := by
  obtain ⟨w, hw, hd⟩ := hmark.begins k'
  have hstart : mark k <+: d :: (w ++ s) ↔ k' = k := by
    have hself : mark k' <+: d :: (w ++ s) := by
      rw [hw]
      exact List.prefix_append (d :: w) s
    constructor
    · exact fun hbegins => hmark.eq_of_begins hself hbegins
    · rintro rfl
      exact hself
  obtain ⟨w', hw', -⟩ := hmark.begins k
  have hrest : starts t (mark k) w s = 0 := by
    rw [hw']
    exact starts_of_notMem t hd s
  rw [hw, starts, hrest, mul_zero, add_zero]
  simp only [hstart]

def slots (t : ℕ) (u : κ → Text) (k : κ) : List (Char ⊕ κ) → ℕ
  | [] => 0
  | .inl _ :: l => t * slots t u k l
  | .inr k' :: l => (if k' = k then 1 else 0) + t ^ (u k').length * slots t u k l

def fresh (t : ℕ) (u : κ → Text) (k : κ) : List (Char ⊕ κ) → ℕ
  | [] => 0
  | .inl c :: l => (if u k <+: c :: fill u l then 1 else 0) + t * fresh t u k l
  | .inr k' :: l => (if k' = k then 0 else starts t (u k) (u k') (fill u l)) + t ^ (u k').length * fresh t u k l

theorem starts_fill (hmark : Markers mark d) (t : ℕ) {u : κ → Text} {k : κ} (hk : u k = mark k)
    (l : List (Char ⊕ κ)) : starts t (mark k) (fill u l) [] = slots t u k l + fresh t u k l := by
  induction l with
  | nil => rfl
  | cons piece l ih =>
    cases piece with
    | inl c =>
      rw [fill_char, starts, slots, fresh, ih, List.append_nil, hk]
      ring
    | inr k' =>
      rw [fill_slot, starts_append, slots, fresh, ih, List.append_nil]
      by_cases hkk : k' = k
      · rw [if_pos hkk, if_pos hkk, hkk, hk, starts_mark hmark, if_pos rfl]
        ring
      · rw [if_neg hkk, if_neg hkk, hk]
        ring

theorem fresh_eq_zero_iff {t : ℕ} (ht : 0 < t) (u : κ → Text) (k : κ) (l : List (Char ⊕ κ)) :
    fresh t u k l = 0 ↔ fresh 1 u k l = 0 := by
  induction l with
  | nil => rfl
  | cons piece l ih =>
    cases piece with
    | inl c => simp only [fresh, Nat.add_eq_zero_iff, Nat.mul_eq_zero, ht.ne', one_ne_zero, false_or, ih]
    | inr k' =>
      have hpow : t ^ (u k').length ≠ 0 := pow_ne_zero _ ht.ne'
      have hstarts : (if k' = k then 0 else starts t (u k) (u k') (fill u l)) = 0 ↔
          (if k' = k then 0 else starts 1 (u k) (u k') (fill u l)) = 0 := by
        split
        · exact Iff.rfl
        · exact starts_eq_zero_iff ht _ _ _
      simp only [fresh, Nat.add_eq_zero_iff, Nat.mul_eq_zero, hpow, one_pow, one_ne_zero, false_or, ih, hstarts]

theorem fresh_parse (hmark : Markers mark d) {keys : List κ} (hkeys : ∀ k, k ∈ keys) (k : κ) (s : Text) :
    fresh 1 mark k (parse mark keys s) = 0 := by
  induction s using parse_induction hmark with
  | nil => rfl
  | slot k' s ih =>
    rw [parse_mark hmark hkeys, fresh, ih, mul_zero, starts_mark hmark]
    split <;> rfl
  | char c s hnone ih =>
    rw [parse_cons_of_not hnone, fresh, ih, mul_zero, fill_parse hmark hkeys, if_neg (hnone k), add_zero]

theorem slots_congr {t : ℕ} {u u' : κ → Text} (h : Replaces mark t u u') (k : κ) (l : List (Char ⊕ κ)) :
    slots t u' k l = slots t u k l := by
  induction l with
  | nil => rfl
  | cons piece l ih =>
    cases piece with
    | inl c => rw [slots, slots, ih]
    | inr k' => rw [slots, slots, ih, h.length]

theorem starts_mono {s s' : Text} (h : Continues d s s') (t : ℕ) {w : Text} (hw : d ∉ w) (a : Text) :
    starts t (d :: w) a s ≤ starts t (d :: w) a s' := by
  induction a with
  | nil => exact Nat.le_refl 0
  | cons c a ih =>
    rw [starts, starts]
    refine Nat.add_le_add ?_ (Nat.mul_le_mul_left t ih)
    by_cases hbegins : d :: w <+: c :: (a ++ s)
    · rw [if_pos hbegins, if_pos (h.marker hw c a hbegins)]
    · rw [if_neg hbegins]
      exact Nat.zero_le _

theorem fresh_mono (hmark : Markers mark d) {t : ℕ} {u u' : κ → Text} (h : Replaces mark t u u') {k : κ}
    (hk : u k = mark k) (hk' : u' k = mark k) (l : List (Char ⊕ κ)) : fresh t u k l ≤ fresh t u' k l := by
  obtain ⟨w, hw, hd⟩ := hmark.begins k
  induction l with
  | nil => exact Nat.le_refl 0
  | cons piece l ih =>
    have hrest := continues_fill hmark h l
    cases piece with
    | inl c =>
      rw [fresh, fresh, hk, hk', hw]
      refine Nat.add_le_add ?_ (Nat.mul_le_mul_left t ih)
      by_cases hbegins : d :: w <+: c :: fill u l
      · have hnext : d :: w <+: c :: fill u' l := hrest.marker hd c [] hbegins
        rw [if_pos hbegins, if_pos hnext]
      · rw [if_neg hbegins]
        exact Nat.zero_le _
    | inr k' =>
      rw [fresh, fresh, h.length, hk, hk']
      refine Nat.add_le_add ?_ (Nat.mul_le_mul_left _ ih)
      by_cases hkk : k' = k
      · rw [if_pos hkk]
        exact Nat.zero_le _
      · rw [if_neg hkk, if_neg hkk]
        rcases h.only k' with hsame | hreplaced
        · rw [hsame, hw]
          exact starts_mono hrest t hd (u k')
        · rw [hreplaced, starts_mark hmark, if_neg hkk]
          exact Nat.zero_le _

theorem replaceAll_fill (hmark : Markers mark d) {u : κ → Text} {k : κ} (hk : u k = mark k) (v : Text)
    {l : List (Char ⊕ κ)} (h : fresh 1 u k l = 0) :
    replaceAll (mark k) v (fill u l) = fill (Function.update u k v) l := by
  induction l with
  | nil => rfl
  | cons piece l ih =>
    cases piece with
    | inl c =>
      rw [fresh, Nat.add_eq_zero_iff, one_mul, hk] at h
      have hnot : ¬ mark k <+: c :: fill u l := by simpa using h.1
      rw [fill_char, fill_char, replaceAll_cons_of_not hnot, ih h.2]
    | inr k' =>
      rw [fresh, Nat.add_eq_zero_iff, one_pow, one_mul, hk] at h
      rw [fill_slot, fill_slot]
      by_cases hkk : k' = k
      · rw [hkk, hk, Function.update_self, replaceAll_pattern (hmark.ne_nil k), ih h.2]
      · rw [if_neg hkk] at h
        rw [Function.update_of_ne hkk, replaceAll_append_of_starts h.1, ih h.2]

end Occurrences

end Bingit.Placeholders
