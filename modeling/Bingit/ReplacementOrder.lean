import Bingit.Placeholders
import Mathlib.Tactic.Linarith

namespace Bingit.Placeholders

open Text

variable {κ : Type} [DecidableEq κ] {mark : κ → Text} {d : Char} {keys : List κ}

def Safe (mark v : κ → Text) (k : κ) (l : List (Char ⊕ κ)) : Prop :=
  v k = mark k ∨ fresh 1 (Function.update v k (mark k)) k l = 0

def partly (mark v : κ → Text) (done : List κ) (k : κ) : Text := if k ∈ done then v k else mark k

omit [DecidableEq κ] in
theorem replaces_of_only {u u' : κ → Text} (h : ∀ k, u' k = u k ∨ u k = mark k) : Replaces mark 1 u u' :=
  ⟨h, fun k => by rw [one_pow, one_pow]⟩

theorem replaces_update {t : ℕ} {u : κ → Text} {k : κ} {v : Text} (hk : u k = mark k)
    (hlength : t ^ v.length = t ^ (mark k).length) : Replaces mark t u (Function.update u k v) := by
  constructor
  · intro k'
    by_cases hkk : k' = k
    · exact .inr (by rw [hkk, hk])
    · exact .inl (Function.update_of_ne hkk _ _)
  · intro k'
    by_cases hkk : k' = k
    · rw [hkk, Function.update_self, hk, hlength]
    · rw [Function.update_of_ne hkk]

theorem replaceAll_self (hmark : Markers mark d) (hkeys : ∀ k, k ∈ keys) (k : κ) (s : Text) :
    replaceAll (mark k) (mark k) s = s := by
  rw [replaceAll_eq_fill hmark hkeys, Function.update_eq_self, fill_parse hmark hkeys]

theorem partly_concat (mark v : κ → Text) (done : List κ) (k : κ) :
    Function.update (partly mark v done) k (v k) = partly mark v (k :: done) := by
  funext k'
  by_cases hk : k' = k
  · rw [hk, Function.update_self, partly, if_pos List.mem_cons_self]
  · rw [Function.update_of_ne hk, partly, partly]
    simp only [List.mem_cons, hk, false_or]

theorem replaceAll_partly (hmark : Markers mark d) (hkeys : ∀ k, k ∈ keys) {v : κ → Text} {l : List (Char ⊕ κ)}
    {k : κ} (h : Safe mark v k l) {done : List κ} (hdone : k ∉ done) :
    replaceAll (mark k) (v k) (fill (partly mark v done) l) = fill (partly mark v (k :: done)) l := by
  have hk : partly mark v done k = mark k := if_neg hdone
  rw [← partly_concat]
  rcases h with hself | hsafe
  · have hsame : Function.update (partly mark v done) k (mark k) = partly mark v done := by
      rw [← hk, Function.update_eq_self]
    rw [hself, hsame]
    exact replaceAll_self hmark hkeys k _
  · apply replaceAll_fill hmark hk
    have hreplaces : Replaces mark 1 (partly mark v done) (Function.update v k (mark k)) := by
      apply replaces_of_only
      intro k'
      by_cases hkk : k' = k
      · rw [hkk, hk]
        exact .inr rfl
      · rw [Function.update_of_ne hkk, partly]
        split
        · exact .inl rfl
        · exact .inr rfl
    have hmono := fresh_mono hmark hreplaces hk (Function.update_self k _ v) l
    omega

theorem replaceEach_partly (hmark : Markers mark d) (hkeys : ∀ k, k ∈ keys) {v : κ → Text} {l : List (Char ⊕ κ)}
    (h : ∀ k, Safe mark v k l) {order done : List κ} (hnodup : order.Nodup) (hdone : ∀ k ∈ order, k ∉ done) :
    replaceEach mark v order (fill (partly mark v done) l) = fill (partly mark v (order.reverse ++ done)) l := by
  induction order generalizing done with
  | nil => rfl
  | cons k order ih =>
    rw [List.forall_mem_cons] at hdone
    rw [List.nodup_cons] at hnodup
    rw [replaceEach, List.foldl_cons, replaceAll_partly hmark hkeys (h k) hdone.1]
    have hrest : ∀ k' ∈ order, k' ∉ k :: done := by
      intro k' hk'
      rw [List.mem_cons, not_or]
      exact ⟨ne_of_mem_of_not_mem hk' hnodup.1, hdone.2 k' hk'⟩
    have hrec := ih hnodup.2 hrest
    rw [replaceEach] at hrec
    rw [hrec, List.reverse_cons, List.append_assoc, List.singleton_append]

theorem replaceEach_of_safe (hmark : Markers mark d) (hkeys : ∀ k, k ∈ keys) {v : κ → Text} {s : Text}
    (h : ∀ k, Safe mark v k (parse mark keys s)) {order : List κ} (hnodup : order.Nodup) (horder : ∀ k, k ∈ order) :
    replaceEach mark v order s = substitute mark keys v s := by
  have hstart : fill (partly mark v []) (parse mark keys s) = s := fill_parse hmark hkeys s
  have hend : partly mark v (order.reverse ++ []) = v := by
    funext k
    rw [partly, if_pos (by simpa using horder k)]
  have heach : replaceEach mark v order (fill (partly mark v []) (parse mark keys s)) =
      fill (partly mark v (order.reverse ++ [])) (parse mark keys s) :=
    replaceEach_partly hmark hkeys h hnodup (by simp)
  rwa [hstart, hend] at heach

section Weights

def weigh (f : Char → ℤ) (t : ℕ) : Text → ℤ
  | [] => 0
  | c :: s => f c + t * weigh f t s

theorem weigh_append (f : Char → ℤ) (t : ℕ) (a b : Text) :
    weigh f t (a ++ b) = weigh f t a + t ^ a.length * weigh f t b := by
  induction a with
  | nil => simp [weigh]
  | cons c a ih =>
    rw [List.cons_append, weigh, weigh, ih, List.length_cons]
    ring

theorem weigh_one (s : Text) : weigh (fun _ => 1) 1 s = s.length := by
  induction s with
  | nil => rfl
  | cons c s ih =>
    rw [weigh, ih, List.length_cons]
    push_cast
    ring

theorem eq_of_weigh_eq {a b : Text} (hlength : a.length = b.length)
    (h : weigh (fun c => c.toNat) 4294967296 a = weigh (fun c => c.toNat) 4294967296 b) : a = b := by
  induction a generalizing b with
  | nil => exact (List.length_eq_zero_iff.mp hlength.symm).symm
  | cons c a ih =>
    cases b with
    | nil => contradiction
    | cons e b =>
      rw [weigh, weigh] at h
      have hc : c.toNat < 4294967296 := c.val.toNat_lt
      have he : e.toNat < 4294967296 := e.val.toNat_lt
      push_cast at h
      have hdigit : c.toNat = e.toNat := by omega
      have hrest : weigh (fun c => c.toNat) 4294967296 a = weigh (fun c => c.toNat) 4294967296 b := by omega
      rw [Char.toNat_inj.mp hdigit, ih (Nat.succ.inj hlength) hrest]

theorem weigh_update (f : Char → ℤ) {t : ℕ} {u : κ → Text} {k : κ} {v : Text}
    (hlength : t ^ v.length = t ^ (u k).length) (l : List (Char ⊕ κ)) :
    weigh f t (fill (Function.update u k v) l) =
      weigh f t (fill u l) + slots t u k l * (weigh f t v - weigh f t (u k)) := by
  induction l with
  | nil => simp [weigh, slots]
  | cons piece l ih =>
    cases piece with
    | inl c =>
      rw [fill_char, fill_char, weigh, weigh, ih, slots]
      push_cast
      ring
    | inr k' =>
      have hlength' : (t : ℤ) ^ v.length = (t : ℤ) ^ (u k).length := by exact_mod_cast hlength
      rw [fill_slot, fill_slot, weigh_append, weigh_append, ih, slots]
      by_cases hk : k' = k
      · rw [hk, Function.update_self, if_pos rfl, hlength']
        push_cast
        ring
      · rw [Function.update_of_ne hk, if_neg hk]
        push_cast
        ring

theorem starts_parse (hmark : Markers mark d) (hkeys : ∀ k, k ∈ keys) {t : ℕ} (ht : 0 < t) (k : κ) (s : Text) :
    starts t (mark k) s [] = slots t mark k (parse mark keys s) := by
  have hfill := starts_fill hmark t (u := mark) (k := k) rfl (parse mark keys s)
  rwa [fill_parse hmark hkeys, (fresh_eq_zero_iff ht _ _ _).mpr (fresh_parse hmark hkeys k s), add_zero] at hfill

theorem weigh_replaceAll (hmark : Markers mark d) (hkeys : ∀ k, k ∈ keys) (f : Char → ℤ) {t : ℕ} (ht : 0 < t) {k : κ}
    {v : Text} (hlength : t ^ v.length = t ^ (mark k).length) (s : Text) :
    weigh f t (replaceAll (mark k) v s) =
      weigh f t s + starts t (mark k) s [] * (weigh f t v - weigh f t (mark k)) := by
  rw [replaceAll_eq_fill hmark hkeys, weigh_update f hlength, fill_parse hmark hkeys, starts_parse hmark hkeys ht]

theorem eq_of_weigh_all {a b : Text}
    (h : ∀ (f : Char → ℤ) (t : ℕ), 0 < t → t ^ a.length = t ^ b.length → weigh f t a = weigh f t b) : a = b := by
  have hlength : a.length = b.length := by
    have hone := h (fun _ => 1) 1 Nat.one_pos (by rw [one_pow, one_pow])
    rw [weigh_one, weigh_one] at hone
    exact_mod_cast hone
  exact eq_of_weigh_eq hlength (h _ _ (by omega) (by rw [hlength]))

theorem replaceAll_fill_iff (hmark : Markers mark d) (hkeys : ∀ k, k ∈ keys) {u : κ → Text} {k : κ}
    (hk : u k = mark k) (v : Text) (l : List (Char ⊕ κ)) :
    replaceAll (mark k) v (fill u l) = fill (Function.update u k v) l ↔ v = mark k ∨ fresh 1 u k l = 0 := by
  constructor
  · intro h
    by_contra hnot
    rw [not_or] at hnot
    apply hnot.1
    apply eq_of_weigh_all
    intro f t ht hlength
    have hpos : fresh t u k l ≠ 0 := (fresh_eq_zero_iff ht u k l).not.mpr hnot.2
    have hlength' : t ^ v.length = t ^ (u k).length := by rw [hk, hlength]
    have hweigh := congrArg (weigh f t) h
    rw [weigh_replaceAll hmark hkeys f ht hlength, weigh_update f hlength', starts_fill hmark t hk, hk] at hweigh
    push_cast at hweigh
    have hzero : (fresh t u k l : ℤ) * (weigh f t v - weigh f t (mark k)) = 0 := by linarith
    rcases mul_eq_zero.mp hzero with hfresh | hdiff
    · exact absurd (by exact_mod_cast hfresh) hpos
    · exact sub_eq_zero.mp hdiff
  · rintro (rfl | hfresh)
    · rw [replaceAll_self hmark hkeys, ← hk, Function.update_eq_self]
    · exact replaceAll_fill hmark hk v hfresh

theorem starts_replaceAll_mono (hmark : Markers mark d) (hkeys : ∀ k, k ∈ keys) {t : ℕ} {y z : κ} (hne : z ≠ y)
    {v : Text} (hlength : t ^ v.length = t ^ (mark y).length) (s : Text) :
    starts t (mark z) s [] ≤ starts t (mark z) (replaceAll (mark y) v s) [] := by
  have hreplaces : Replaces mark t mark (Function.update mark y v) := replaces_update rfl hlength
  have hz : Function.update mark y v z = mark z := Function.update_of_ne hne v mark
  have hbefore := starts_fill hmark t (u := mark) (k := z) rfl (parse mark keys s)
  rw [fill_parse hmark hkeys] at hbefore
  rw [replaceAll_eq_fill hmark hkeys, starts_fill hmark t hz, hbefore, slots_congr hreplaces]
  exact Nat.add_le_add_left (fresh_mono hmark hreplaces rfl hz _) _

def Opposed (a b : ℤ) : Prop := ∃ e g : ℤ, 0 < e ∧ 0 < g ∧ e * a + g * b = 0

theorem Opposed.neg_of_pos {a b : ℤ} (h : Opposed a b) (ha : 0 < a) : b < 0 := by
  obtain ⟨e, g, he, hg, hsum⟩ := h
  have hea : 0 < e * a := mul_pos he ha
  exact (pos_iff_neg_of_mul_neg (show g * b < 0 by linarith)).mp hg

theorem Opposed.pos_of_neg {a b : ℤ} (h : Opposed a b) (ha : a < 0) : 0 < b := by
  obtain ⟨e, g, he, hg, hsum⟩ := h
  have hea : e * a < 0 := mul_neg_of_pos_of_neg he ha
  exact (pos_iff_pos_of_mul_pos (show 0 < g * b by linarith)).mp hg

theorem weigh_balance (hmark : Markers mark d) (hkeys : ∀ k, k ∈ keys) {u v : κ → Text} {y z : κ} (hne : z ≠ y)
    (hy : u y = mark y) (hz : u z = mark z) {l : List (Char ⊕ κ)}
    (h : replaceAll (mark z) (v z) (replaceAll (mark y) (v y) (fill u l)) =
      fill (Function.update (Function.update u y (v y)) z (v z)) l)
    (hfreshy : fresh 1 u y l ≠ 0) (hfreshz : fresh 1 u z l ≠ 0) (f : Char → ℤ) {t : ℕ} (ht : 0 < t)
    (hlength : ∀ k, t ^ (v k).length = t ^ (mark k).length) :
    Opposed (weigh f t (v y) - weigh f t (mark y)) (weigh f t (v z) - weigh f t (mark z)) := by
  have hupdate : Replaces mark t u (Function.update u y (v y)) := replaces_update hy (hlength y)
  have hz' : Function.update u y (v y) z = mark z := by rw [Function.update_of_ne hne, hz]
  have hposy : 0 < fresh t u y l := Nat.pos_of_ne_zero ((fresh_eq_zero_iff ht u y l).not.mpr hfreshy)
  have hposz : 0 < fresh t u z l := Nat.pos_of_ne_zero ((fresh_eq_zero_iff ht u z l).not.mpr hfreshz)
  have hmono := starts_replaceAll_mono hmark hkeys hne (hlength y) (fill u l)
  rw [starts_fill hmark t hz] at hmono
  have hweigh := congrArg (weigh f t) h
  rw [weigh_replaceAll hmark hkeys f ht (hlength z), weigh_replaceAll hmark hkeys f ht (hlength y),
    weigh_update f (by rw [hz', hlength]), weigh_update f (by rw [hy, hlength]), slots_congr hupdate, hz', hy,
    starts_fill hmark t hy] at hweigh
  refine ⟨fresh t u y l,
    (starts t (mark z) (replaceAll (mark y) (v y) (fill u l)) [] : ℤ) - slots t u z l, by exact_mod_cast hposy, ?_, ?_⟩
  · have hlt : slots t u z l < starts t (mark z) (replaceAll (mark y) (v y) (fill u l)) [] := by omega
    exact sub_pos.mpr (by exact_mod_cast hlt)
  · push_cast at hweigh
    linarith

theorem Opposed.eq_zero {a b c : ℤ} (hab : Opposed a b) (hac : Opposed a c) (hbc : Opposed b c) : a = 0 := by
  rcases lt_trichotomy a 0 with hneg | hzero | hpos
  · exact absurd (hbc.neg_of_pos (hab.pos_of_neg hneg)) (hac.pos_of_neg hneg).not_gt
  · exact hzero
  · exact absurd (hbc.pos_of_neg (hab.neg_of_pos hpos)) (hac.neg_of_pos hpos).not_gt

end Weights

section ThreeKinds

structure Three (x y z : κ) : Prop where
  xy : x ≠ y
  xz : x ≠ z
  yz : y ≠ z
  all : ∀ k, k = x ∨ k = y ∨ k = z

omit [DecidableEq κ] in
theorem Three.swap {x y z : κ} (h : Three x y z) : Three y x z :=
  ⟨h.xy.symm, h.yz, h.xz, fun k => or_left_comm.mp (h.all k)⟩

omit [DecidableEq κ] in
theorem Three.rotate {x y z : κ} (h : Three x y z) : Three y z x :=
  ⟨h.yz, h.xy.symm, h.xz.symm, fun k => or_assoc.mp (h.all k).symm⟩

def Spoils (mark v : κ → Text) (l : List (Char ⊕ κ)) (x y : κ) : Prop :=
  v y ≠ mark y ∧ fresh 1 (Function.update mark x (v x)) y l ≠ 0

variable {v : κ → Text} {l : List (Char ⊕ κ)} {x y z : κ}

theorem Three.update_last (h : Three x y z) (v : κ → Text) :
    Function.update (Function.update mark x (v x)) y (v y) = Function.update v z (mark z) := by
  funext k
  rcases h.all k with rfl | rfl | rfl
  · rw [Function.update_of_ne h.xy, Function.update_self, Function.update_of_ne h.xz]
  · rw [Function.update_self, Function.update_of_ne h.yz]
  · rw [Function.update_of_ne h.yz.symm, Function.update_of_ne h.xz.symm, Function.update_self]

theorem Three.not_safe (h : Three x y z) (hmark : Markers mark d) (hspoils : Spoils mark v l x y) :
    ¬ Safe mark v y l := by
  rintro (hself | hsafe)
  · exact hspoils.1 hself
  · apply hspoils.2
    have hy : Function.update mark x (v x) y = mark y := Function.update_of_ne h.xy.symm _ _
    have hreplaces : Replaces mark 1 (Function.update mark x (v x)) (Function.update v y (mark y)) := by
      apply replaces_of_only
      intro k
      rcases h.all k with rfl | rfl | rfl
      · left
        rw [Function.update_of_ne h.xy, Function.update_self]
      · left
        rw [Function.update_self, hy]
      · right
        rw [Function.update_of_ne h.xz.symm]
    have hmono := fresh_mono hmark hreplaces hy (Function.update_self y _ v) l
    omega

def AnyOrder (mark v : κ → Text) (keys : List κ) (s : Text) : Prop :=
  ∀ order : List κ, order.Nodup → (∀ k, k ∈ order) → replaceEach mark v order s = substitute mark keys v s

theorem AnyOrder.three {s : Text} (hright : AnyOrder mark v keys s) (hmark : Markers mark d) (hkeys : ∀ k, k ∈ keys)
    (h : Three x y z) :
    replaceAll (mark z) (v z) (replaceAll (mark y) (v y) (fill (Function.update mark x (v x)) (parse mark keys s))) =
      fill v (parse mark keys s) := by
  have horder : [x, y, z].Nodup := by simp [h.xy, h.xz, h.yz]
  have heach := hright [x, y, z] horder (by simpa using h.all)
  rwa [replaceEach, List.foldl_cons, List.foldl_cons, List.foldl_cons, List.foldl_nil,
    replaceAll_eq_fill hmark hkeys x] at heach

theorem AnyOrder.spoils {s : Text} (hright : AnyOrder mark v keys s) (hmark : Markers mark d) (hkeys : ∀ k, k ∈ keys)
    (h : Three x y z) (hsafe : ¬ Safe mark v z (parse mark keys s)) : Spoils mark v (parse mark keys s) x y := by
  by_contra hnot
  have hy : Function.update mark x (v x) y = mark y := Function.update_of_ne h.xy.symm _ _
  have hsecond : v y = mark y ∨ fresh 1 (Function.update mark x (v x)) y (parse mark keys s) = 0 := by
    rwa [Spoils, not_and_or, not_not, not_not] at hnot
  have hthree := hright.three hmark hkeys h
  rw [(replaceAll_fill_iff hmark hkeys hy _ _).mpr hsecond, h.update_last] at hthree
  have hlast := (replaceAll_fill_iff hmark hkeys (u := Function.update v z (mark z)) (Function.update_self _ _ _)
    (v z) (parse mark keys s)).mp (by rw [hthree, Function.update_idem, Function.update_eq_self])
  exact hsafe hlast

theorem AnyOrder.opposed {s : Text} (hright : AnyOrder mark v keys s) (hmark : Markers mark d) (hkeys : ∀ k, k ∈ keys)
    (hspoils : ∀ x y z, Three x y z → Spoils mark v (parse mark keys s) x y) (h : Three x y z) (f : Char → ℤ) {t : ℕ}
    (ht : 0 < t) (hlength : ∀ k, t ^ (v k).length = t ^ (mark k).length) :
    Opposed (weigh f t (v y) - weigh f t (mark y)) (weigh f t (v z) - weigh f t (mark z)) := by
  have hy : Function.update mark x (v x) y = mark y := Function.update_of_ne h.xy.symm _ _
  have hz : Function.update mark x (v x) z = mark z := Function.update_of_ne h.xz.symm _ _
  have hspoilsz := hspoils x z y h.rotate.rotate.swap
  refine weigh_balance hmark hkeys h.yz.symm hy hz ?_ (hspoils x y z h).2 hspoilsz.2 f ht hlength
  rw [hright.three hmark hkeys h, h.update_last, Function.update_idem, Function.update_eq_self]

theorem AnyOrder.safe {s : Text} (hright : AnyOrder mark v keys s) (hmark : Markers mark d) (hkeys : ∀ k, k ∈ keys)
    (h : Three x y z) : Safe mark v z (parse mark keys s) := by
  by_contra hsafe
  have hxy := hright.spoils hmark hkeys h hsafe
  have hyx := hright.spoils hmark hkeys h.swap hsafe
  have hnot : ∀ k, ¬ Safe mark v k (parse mark keys s) := by
    intro k
    rcases h.all k with rfl | rfl | rfl
    · exact h.swap.not_safe hmark hyx
    · exact h.not_safe hmark hxy
    · exact hsafe
  have hspoils (x y z : κ) (h : Three x y z) := hright.spoils hmark hkeys h (hnot z)
  -- each two of the three would have to make good for each other, so no replacement changes any number
  have hequal (f : Char → ℤ) {t : ℕ} (ht : 0 < t) (hlength : ∀ k, t ^ (v k).length = t ^ (mark k).length)
      {x y z : κ} (h : Three x y z) : weigh f t (v y) = weigh f t (mark y) := by
    have hopposed {x y z : κ} (h : Three x y z) := hright.opposed hmark hkeys hspoils h f ht hlength
    exact sub_eq_zero.mp ((hopposed h).eq_zero (hopposed h.rotate.swap) (hopposed h.rotate))
  have hall {f : Char → ℤ} {t : ℕ} (ht : 0 < t) (hlength : ∀ k, t ^ (v k).length = t ^ (mark k).length) (k : κ) :
      weigh f t (v k) = weigh f t (mark k) := by
    rcases h.all k with rfl | rfl | rfl
    · exact hequal f ht hlength h.swap
    · exact hequal f ht hlength h
    · exact hequal f ht hlength h.rotate.rotate.swap
  have hlength (k : κ) : (v k).length = (mark k).length := by
    have hone := hall (f := fun _ => 1) Nat.one_pos (fun k => by rw [one_pow, one_pow]) k
    rw [weigh_one, weigh_one] at hone
    exact_mod_cast hone
  have hself : v y = mark y := eq_of_weigh_eq (hlength y) (hall (by omega) (fun k => by rw [hlength]) y)
  exact hxy.1 hself

theorem anyOrder_iff (hmark : Markers mark d) (hkeys : ∀ k, k ∈ keys) (h : Three x y z) (s : Text) :
    AnyOrder mark v keys s ↔ ∀ k, Safe mark v k (parse mark keys s) := by
  constructor
  · intro hright k
    rcases h.all k with rfl | rfl | rfl
    · exact hright.safe hmark hkeys h.rotate
    · exact hright.safe hmark hkeys h.rotate.rotate
    · exact hright.safe hmark hkeys h
  · intro hsafe order hnodup horder
    exact replaceEach_of_safe hmark hkeys hsafe hnodup horder

theorem safe_iff (hmark : Markers mark d) (hkeys : ∀ k, k ∈ keys) (k : κ) (s : Text) :
    Safe mark v k (parse mark keys s) ↔ v k = mark k ∨
      occurrences (mark k) (substitute mark keys (Function.update v k (mark k)) s) = occurrences (mark k) s := by
  have hk : Function.update v k (mark k) k = mark k := Function.update_self k _ v
  have hslots (l : List (Char ⊕ κ)) : slots 1 (Function.update v k (mark k)) k l = slots 1 mark k l := by
    induction l with
    | nil => rfl
    | cons piece l ih => cases piece <;> simp only [slots, one_pow, ih]
  have hcount : occurrences (mark k) (substitute mark keys (Function.update v k (mark k)) s) =
      occurrences (mark k) s + fresh 1 (Function.update v k (mark k)) k (parse mark keys s) := by
    rw [occurrences_eq_starts (hmark.ne_nil k), occurrences_eq_starts (hmark.ne_nil k), substitute,
      starts_fill hmark 1 hk, hslots, starts_parse hmark hkeys Nat.one_pos]
  rw [Safe, hcount]
  exact or_congr_right (by omega)

end ThreeKinds

end Bingit.Placeholders
