import Bingit.Session

namespace Bingit.Session

open Text Interleaving

def SegmentPrefix (k path : Text) : Prop := k = path ∨ k ++ "/".toList <+: path

theorem matches_iff (k path : Text) : Matches k path ↔ SegmentPrefix k path := by
  rw [Matches, SegmentPrefix, find_eq_zero_iff, eq_comm]

theorem SegmentPrefix.of_longer {k k' path : Text} (h : SegmentPrefix k' path) (hlonger : k ++ "/".toList <+: k') :
    SegmentPrefix k path := by
  rcases h with rfl | h
  · exact .inr hlonger
  · exact .inr (hlonger.trans ((List.prefix_append k' _).trans h))

theorem compare_ne_gt {k k' : Text} (h : k <+: k') : compare k k' ≠ .gt := by
  induction k generalizing k' with
  | nil =>
    cases k' with
    | nil => simp
    | cons c k' => exact fun hgt => by cases hgt
  | cons c k ih =>
    obtain ⟨t, rfl⟩ := h
    rw [List.cons_append, List.compare_eq_compareLex, List.compareLex_cons_cons, Std.compare_self]
    exact ih (List.prefix_append k t)

theorem dispatch_isSome_iff (paths : HandlerPaths) (path : Text) :
    (∃ entry, dispatch paths path = some entry) ↔ ∃ k ∈ paths, Matches k path := by
  rw [← Option.isSome_iff_exists, dispatch, List.find?_isSome]
  constructor
  · rintro ⟨⟨k, v⟩, hmem, hmatch⟩
    refine ⟨k, ?_, of_decide_eq_true hmatch⟩
    rw [Std.TreeMap.mem_iff_isSome_getElem?, Std.TreeMap.mem_toList_iff_getElem?_eq_some.mp hmem]
    rfl
  · rintro ⟨k, hmem, hmatch⟩
    obtain ⟨v, hv⟩ := Option.isSome_iff_exists.mp (Std.TreeMap.mem_iff_isSome_getElem?.mp hmem)
    exact ⟨(k, v), Std.TreeMap.mem_toList_iff_getElem?_eq_some.mpr hv, decide_eq_true hmatch⟩

theorem prefix_or_prefix_of_matches {k k' path : Text} (h : Matches k path) (h' : Matches k' path) :
    k <+: k' ∨ k' <+: k :=
  List.prefix_or_prefix_of_prefix (prefix_of_matches h) (prefix_of_matches h')

theorem prefix_of_dispatch {paths : HandlerPaths} {path k k' : Text} {v : Text × NginxConfig}
    (h : dispatch paths path = some (k, v)) (hmem : k' ∈ paths) (hmatch : Matches k' path) : k <+: k' := by
  obtain ⟨hk, before, after, hlist, hbefore⟩ := List.find?_eq_some_iff_append.mp h
  obtain ⟨v', hv'⟩ := Option.isSome_iff_exists.mp (Std.TreeMap.mem_iff_isSome_getElem?.mp hmem)
  have hin : (k', v') ∈ before ++ (k, v) :: after := by
    rw [← hlist]
    exact Std.TreeMap.mem_toList_iff_getElem?_eq_some.mpr hv'
  have hordered := Std.TreeMap.ordered_keys_toList (t := paths)
  rw [hlist] at hordered
  rcases List.mem_append.mp hin with hin | hin
  · have hno := hbefore _ hin
    simp [hmatch] at hno
  rcases List.mem_cons.mp hin with heq | hin
  · obtain ⟨rfl, -⟩ := Prod.mk.inj heq
    exact List.prefix_rfl
  have hlt : compare k k' = .lt := (List.pairwise_cons.mp (List.pairwise_append.mp hordered).2.1).1 _ hin
  rcases prefix_or_prefix_of_matches (of_decide_eq_true hk) hmatch with hle | hle
  · exact hle
  · have hgt : compare k' k = .gt := Std.OrientedCmp.gt_of_lt hlt
    exact absurd hgt (compare_ne_gt hle)

theorem mem_of_dispatch {paths : HandlerPaths} {path k : Text} {v : Text × NginxConfig}
    (h : dispatch paths path = some (k, v)) : paths[k]? = some v ∧ Matches k path := by
  refine ⟨Std.TreeMap.mem_toList_iff_getElem?_eq_some.mp (List.mem_of_find?_eq_some h), ?_⟩
  simpa using List.find?_some h

theorem not_dispatch_of_longer {paths : HandlerPaths} {k k' : Text} (hk : k ∈ paths) (hlonger : k ++ "/".toList <+: k')
    (path : Text) (v : Text × NginxConfig) : dispatch paths path ≠ some (k', v) := by
  intro h
  have hmatch := (matches_iff k' path).mp (mem_of_dispatch h).2
  have hshorter := prefix_of_dispatch h hk ((matches_iff k path).mpr (hmatch.of_longer hlonger))
  have hle := (hlonger.trans hshorter).length_le
  simp only [String.reduceToList, List.length_append, List.length_singleton] at hle
  omega

theorem selectHandler_of_none {params : ConfigParams} {path : Text} (h : dispatch params.handlerPaths path = none) :
    selectHandler params path = .badRequest := by
  rw [selectHandler, h]
  rfl

theorem respond_of_none {Db : Type} (env : Env Db) {params : ConfigParams} {request : Request}
    (hvalid : request.valid = true) (h : dispatch params.handlerPaths request.path = none) :
    respond env params request = .call Op.createHandler fun _ => .pure (badRequestReply request) := by
  rw [respond, if_pos hvalid, selectHandler_of_none h]
  rfl

theorem dispatch_shortest (paths : HandlerPaths) (path : Text) :
    ((∃ entry, dispatch paths path = some entry) ↔ ∃ k ∈ paths, SegmentPrefix k path) ∧
    (∀ k ∈ paths, ∀ k' ∈ paths, SegmentPrefix k path → SegmentPrefix k' path → k <+: k' ∨ k' <+: k) ∧
    (∀ k v, dispatch paths path = some (k, v) →
      paths[k]? = some v ∧ SegmentPrefix k path ∧
        ∀ k' ∈ paths, SegmentPrefix k' path → k <+: k' ∧ k.length ≤ k'.length) ∧
    (∀ k ∈ paths, ∀ k' ∈ paths, k ++ "/".toList <+: k' → ∀ v, dispatch paths path ≠ some (k', v)) ∧
    ((∀ k ∈ paths, ¬ SegmentPrefix k path) →
      ∀ (Db : Type) (env : Env Db) (serverRoot : Text) (request : Request),
        request.valid = true → request.path = path →
        selectHandler ⟨serverRoot, paths⟩ path = .badRequest ∧
          respond env ⟨serverRoot, paths⟩ request = .call Op.createHandler (fun _ => .pure (badRequestReply request)) ∧
          (badRequestReply request).code = 404) := by
  simp only [← matches_iff]
  refine ⟨dispatch_isSome_iff paths path, ?_, ?_, ?_, ?_⟩
  · intro k _ k' _ hk hk'
    exact prefix_or_prefix_of_matches hk hk'
  · intro k v h
    obtain ⟨hget, hmatch⟩ := mem_of_dispatch h
    refine ⟨hget, hmatch, ?_⟩
    intro k' hk' hmatch'
    have hinitial := prefix_of_dispatch h hk' hmatch'
    exact ⟨hinitial, hinitial.length_le⟩
  · intro k hk k' _ hlonger v
    exact not_dispatch_of_longer hk hlonger path v
  · intro hno Db env serverRoot request hvalid hpath
    have hnone : dispatch paths path = none := by
      rw [← Option.not_isSome_iff_eq_none, Option.isSome_iff_exists, dispatch_isSome_iff]
      rintro ⟨k, hk, hmatch⟩
      exact hno k hk hmatch
    subst hpath
    refine ⟨selectHandler_of_none hnone, ?_, rfl⟩
    exact respond_of_none env hvalid hnone

end Bingit.Session
