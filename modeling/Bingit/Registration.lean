import Bingit.ConfigTree

namespace Bingit

open Text

mutual

def NginxConfigStatement.handlerBlocks : NginxConfigStatement → List (Text × NginxConfig)
  | .mk _ none => []
  | .mk tokens (some child) =>
    match tokens with
    | [keyword, handlerType] =>
      if keyword = "handler".toList then
        if NginxConfig.getKeyValue "location".toList child ≠ [] then [(handlerType, child)] else []
      else NginxConfig.handlerBlocks child
    | _ => NginxConfig.handlerBlocks child
termination_by structural statement => statement

def NginxConfig.handlerBlocks : NginxConfig → List (Text × NginxConfig)
  | [] => []
  | statement :: rest => statement.handlerBlocks ++ NginxConfig.handlerBlocks rest
termination_by structural config => config

end

namespace Registration

def location (b : Text × NginxConfig) : Text := NginxConfig.getKeyValue "location".toList b.2

def register (map : HandlerPaths) (b : Text × NginxConfig) : HandlerPaths :=
  if b.1 ∈ map then map else map.insert (location b) b

theorem getHandlerPaths_eq_foldl (config : NginxConfig) (map : HandlerPaths) :
    config.getHandlerPaths map = config.handlerBlocks.foldl register map := by
  induction config, map using NginxConfig.getHandlerPaths.induct
    (fun statement map => statement.getHandlerPaths map = statement.handlerBlocks.foldl register map) with
  | case1 tokens map => rfl
  | case2 child map handlerType path hinsert =>
    simp only [NginxConfigStatement.getHandlerPaths, NginxConfigStatement.handlerBlocks, if_pos]
    rw [if_pos hinsert, if_pos hinsert.1]
    exact (if_neg hinsert.2).symm
  | case3 child map handlerType path hskip =>
    simp only [NginxConfigStatement.getHandlerPaths, NginxConfigStatement.handlerBlocks, if_pos]
    rw [if_neg hskip]
    split
    · next hpath =>
      have hmem : handlerType ∈ map := by
        by_contra hnot
        exact hskip ⟨hpath, hnot⟩
      exact (if_pos hmem).symm
    · rfl
  | case4 child map keyword handlerType hkeyword ih =>
    simp only [NginxConfigStatement.getHandlerPaths, NginxConfigStatement.handlerBlocks, if_neg hkeyword]
    exact ih
  | case5 tokens child map htokens ih =>
    rw [NginxConfigStatement.getHandlerPaths, NginxConfigStatement.handlerBlocks]
    · exact ih
    · exact htokens
    · exact htokens
  | case6 map => rfl
  | case7 statement rest map ihstatement ihrest =>
    rw [NginxConfig.getHandlerPaths, NginxConfig.handlerBlocks, List.foldl_append, ← ihstatement]
    exact ihrest

/-- No first block at a location has an earlier location as type. -/
def NoFirstDropped (seen : List Text) : List (Text × NginxConfig) → Prop
  | [] => True
  | b :: rest => (b.1 ∈ seen → location b ∈ seen) ∧ NoFirstDropped (location b :: seen) rest

def liveBlocks (seen : List Text) : List (Text × NginxConfig) → List (Text × NginxConfig)
  | [] => []
  | b :: rest =>
    if b.1 ∈ seen then liveBlocks (location b :: seen) rest else b :: liveBlocks (location b :: seen) rest

def firstAt (ℓ : Text) (bs : List (Text × NginxConfig)) : Option (Text × NginxConfig) :=
  bs.find? (fun b => decide (location b = ℓ))

def lastAt (ℓ : Text) (bs : List (Text × NginxConfig)) : Option (Text × NginxConfig) :=
  firstAt ℓ bs.reverse

theorem firstAt_cons_self (b : Text × NginxConfig) (bs : List (Text × NginxConfig)) :
    firstAt (location b) (b :: bs) = some b := by
  simp [firstAt]

theorem firstAt_cons_of_ne {ℓ : Text} {b : Text × NginxConfig} (bs : List (Text × NginxConfig))
    (h : location b ≠ ℓ) : firstAt ℓ (b :: bs) = firstAt ℓ bs := by
  simp [firstAt, h]

theorem firstAt_isSome_iff (ℓ : Text) (bs : List (Text × NginxConfig)) :
    (firstAt ℓ bs).isSome ↔ ∃ b ∈ bs, location b = ℓ := by
  simp [firstAt]

theorem lastAt_cons (ℓ : Text) (b : Text × NginxConfig) (bs : List (Text × NginxConfig)) :
    lastAt ℓ (b :: bs) = (lastAt ℓ bs).or (firstAt ℓ [b]) := by
  rw [lastAt, List.reverse_cons, firstAt, List.find?_append]
  rfl

theorem getElem?_register_of_live {map : HandlerPaths} {b : Text × NginxConfig} (h : b.1 ∉ map) (ℓ : Text) :
    (register map b)[ℓ]? = (firstAt ℓ [b]).or map[ℓ]? := by
  rw [register, if_neg h, Std.TreeMap.getElem?_insert]
  by_cases hℓ : location b = ℓ
  · subst hℓ
    rw [firstAt_cons_self]
    simp
  · rw [firstAt_cons_of_ne [] hℓ]
    simp [hℓ, firstAt]

theorem mem_register_iff {map : HandlerPaths} {seen : List Text} {b : Text × NginxConfig}
    (hkeys : ∀ ℓ, ℓ ∈ map ↔ ℓ ∈ seen) (hfirst : b.1 ∈ seen → location b ∈ seen) (ℓ : Text) :
    ℓ ∈ register map b ↔ ℓ ∈ location b :: seen := by
  rw [register, List.mem_cons]
  split
  · next hmem =>
    have hseen := hfirst ((hkeys b.1).mp hmem)
    rw [hkeys]
    constructor
    · exact .inr
    · rintro (rfl | h)
      · exact hseen
      · exact h
  · rw [Std.TreeMap.mem_insert, hkeys, Std.compare_eq_iff_eq, eq_comm]

theorem getElem?_foldl_register {bs : List (Text × NginxConfig)} {map : HandlerPaths} {seen : List Text}
    (hkeys : ∀ ℓ, ℓ ∈ map ↔ ℓ ∈ seen) (hfirst : NoFirstDropped seen bs) (ℓ : Text) :
    (bs.foldl register map)[ℓ]? = (lastAt ℓ (liveBlocks seen bs)).or map[ℓ]? := by
  induction bs generalizing map seen with
  | nil => rfl
  | cons b rest ih =>
    obtain ⟨hb, hrest⟩ := hfirst
    rw [List.foldl_cons, ih (mem_register_iff hkeys hb) hrest, liveBlocks]
    split
    · next hseen => rw [register, if_pos ((hkeys b.1).mpr hseen)]
    · next hseen =>
      have hlive : b.1 ∉ map := fun h => hseen ((hkeys b.1).mp h)
      rw [lastAt_cons, Option.or_assoc, getElem?_register_of_live hlive]

theorem getElem?_of_foldl_register {bs : List (Text × NginxConfig)} {map : HandlerPaths} {ℓ : Text}
    {v : Text × NginxConfig} (hmem : v.1 ∈ map) (h : (bs.foldl register map)[ℓ]? = some v) : map[ℓ]? = some v := by
  induction bs generalizing map with
  | nil => exact h
  | cons b rest ih =>
    rw [List.foldl_cons] at h
    by_cases hb : b.1 ∈ map
    · rw [register, if_pos hb] at h
      exact ih hmem h
    · have hstep : register map b = map.insert (location b) b := if_neg hb
      have hget := ih (by rw [hstep]; exact Std.TreeMap.mem_insert.mpr (.inr hmem)) h
      rw [getElem?_register_of_live hb] at hget
      by_cases hℓ : location b = ℓ
      · subst hℓ
        rw [firstAt_cons_self] at hget
        obtain rfl : b = v := Option.some.inj hget
        exact absurd hmem hb
      · rw [firstAt_cons_of_ne [] hℓ] at hget
        exact hget

theorem noFirstDropped_of_first {bs : List (Text × NginxConfig)} {map : HandlerPaths} {seen : List Text}
    (hkeys : ∀ ℓ, ℓ ∈ map ↔ ℓ ∈ seen) (h : ∀ ℓ ∉ seen, (bs.foldl register map)[ℓ]? = firstAt ℓ bs) :
    NoFirstDropped seen bs := by
  induction bs generalizing map seen with
  | nil => trivial
  | cons b rest ih =>
    have hb : b.1 ∈ seen → location b ∈ seen := by
      intro hseen
      by_contra hnew
      have hget := h _ hnew
      rw [firstAt_cons_self] at hget
      have hold := getElem?_of_foldl_register ((hkeys b.1).mpr hseen) hget
      exact hnew ((hkeys _).mp (Std.TreeMap.mem_iff_isSome_getElem?.mpr (by rw [hold]; rfl)))
    refine ⟨hb, ih (mem_register_iff hkeys hb) ?_⟩
    intro ℓ hℓ
    rw [List.mem_cons, not_or] at hℓ
    rw [← firstAt_cons_of_ne rest (Ne.symm hℓ.1)]
    exact h ℓ hℓ.2

theorem mem_liveBlocks_of_first {bs : List (Text × NginxConfig)} {seen : List Text} {ℓ : Text}
    {b : Text × NginxConfig} (hfirst : NoFirstDropped seen bs) (hℓ : ℓ ∉ seen) (h : firstAt ℓ bs = some b) :
    b ∈ liveBlocks seen bs := by
  induction bs generalizing seen with
  | nil => cases h
  | cons c rest ih =>
    rw [liveBlocks]
    by_cases hc : location c = ℓ
    · subst hc
      rw [firstAt_cons_self] at h
      obtain rfl : c = b := Option.some.inj h
      rw [if_neg (fun hseen => hℓ (hfirst.1 hseen))]
      exact List.mem_cons_self
    · rw [firstAt_cons_of_ne rest hc] at h
      have hin := ih hfirst.2 (by simp [hℓ, Ne.symm hc]) h
      split
      · exact hin
      · exact List.mem_cons_of_mem c hin

theorem location_of_firstAt {ℓ : Text} {bs : List (Text × NginxConfig)} {b : Text × NginxConfig}
    (h : firstAt ℓ bs = some b) : location b = ℓ := by
  simpa using List.find?_some h

theorem lastAt_liveBlocks_eq_firstAt {bs : List (Text × NginxConfig)} (hfirst : NoFirstDropped [] bs)
    (hlast : ∀ ℓ b, lastAt ℓ (liveBlocks [] bs) = some b → firstAt ℓ bs = some b) (ℓ : Text) :
    lastAt ℓ (liveBlocks [] bs) = firstAt ℓ bs := by
  cases hlive : lastAt ℓ (liveBlocks [] bs) with
  | some b => exact (hlast ℓ b hlive).symm
  | none =>
    cases hfind : firstAt ℓ bs with
    | none => rfl
    | some b =>
      have hmem := mem_liveBlocks_of_first hfirst List.not_mem_nil hfind
      have hsome : (lastAt ℓ (liveBlocks [] bs)).isSome :=
        (firstAt_isSome_iff ℓ _).mpr ⟨b, List.mem_reverse.mpr hmem, location_of_firstAt hfind⟩
      rw [hlive] at hsome
      cases hsome

theorem getElem?_getHandlerPaths {config : NginxConfig} (hfirst : NoFirstDropped [] config.handlerBlocks)
    (ℓ : Text) : (config.getHandlerPaths ∅)[ℓ]? = lastAt ℓ (liveBlocks [] config.handlerBlocks) := by
  have hempty : ∀ ℓ, ℓ ∈ (∅ : HandlerPaths) ↔ ℓ ∈ ([] : List Text) := by simp
  rw [getHandlerPaths_eq_foldl, getElem?_foldl_register hempty hfirst]
  simp

def FirstBlockWins (config : NginxConfig) : Prop :=
  (∀ ℓ, ℓ ∈ config.getHandlerPaths ∅ ↔ ∃ b ∈ config.handlerBlocks, location b = ℓ) ∧
  ∀ ℓ, (config.getHandlerPaths ∅)[ℓ]? = firstAt ℓ config.handlerBlocks

theorem firstBlockWins_iff (config : NginxConfig) :
    FirstBlockWins config ↔
      NoFirstDropped [] config.handlerBlocks ∧
      ∀ ℓ b, lastAt ℓ (liveBlocks [] config.handlerBlocks) = some b → firstAt ℓ config.handlerBlocks = some b := by
  constructor
  · rintro ⟨-, hget⟩
    have hfirst : NoFirstDropped [] config.handlerBlocks := by
      have hempty : ∀ ℓ, ℓ ∈ (∅ : HandlerPaths) ↔ ℓ ∈ ([] : List Text) := by simp
      apply noFirstDropped_of_first hempty
      intro ℓ _
      rw [← getHandlerPaths_eq_foldl, hget]
    refine ⟨hfirst, ?_⟩
    intro ℓ b hlast
    rw [← hget, getElem?_getHandlerPaths hfirst, hlast]
  · rintro ⟨hfirst, hlast⟩
    have hget (ℓ : Text) : (config.getHandlerPaths ∅)[ℓ]? = firstAt ℓ config.handlerBlocks := by
      rw [getElem?_getHandlerPaths hfirst, lastAt_liveBlocks_eq_firstAt hfirst hlast]
    refine ⟨?_, hget⟩
    intro ℓ
    rw [Std.TreeMap.mem_iff_isSome_getElem?, hget, firstAt_isSome_iff]

def twoAtOneLocation : NginxConfig :=
  [.mk ["handler".toList, "static".toList] (some [.mk ["location".toList, "/a".toList] none]),
    .mk ["handler".toList, "echo".toList] (some [.mk ["location".toList, "/a".toList] none])]

theorem not_firstBlockWins_twoAtOneLocation : ¬ FirstBlockWins twoAtOneLocation := by
  rintro ⟨-, hget⟩
  have htype := congrArg (Option.map Prod.fst) (hget "/a".toList)
  have hcode : Option.map Prod.fst (twoAtOneLocation.getHandlerPaths ∅)["/a".toList]? = some "echo".toList := by
    decide +kernel
  have hclaim : Option.map Prod.fst (firstAt "/a".toList twoAtOneLocation.handlerBlocks) = some "static".toList := by
    decide +kernel
  rw [hcode, hclaim] at htype
  exact absurd htype (by decide +kernel)

end Registration

end Bingit
