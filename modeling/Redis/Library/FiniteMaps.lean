import Mathlib.Data.Finmap
import Mathlib.Data.List.Nodup

/-! Lists of pairs with different keys, as the entries of finite maps. -/

namespace Redis.Library

variable {K V : Type}

/-- The pairs are the entries of a finite map, each key once. -/
structure Lists [DecidableEq K] (pairs : List (K × V)) (m : Finmap fun _ : K => V) : Prop where
  distinct : (pairs.map Prod.fst).Nodup
  entry : ∀ key value, m.lookup key = some value ↔ (key, value) ∈ pairs

section Pairs

variable [DecidableEq K] {pairs : List (K × V)} {m : Finmap fun _ : K => V} {key : K}
  {value old : V}

/-- The pairs with a value for a key: in the place of the old one, or at the end. -/
def setPair (pairs : List (K × V)) (key : K) (value : V) : List (K × V) :=
  if key ∈ pairs.map Prod.fst then
    pairs.map fun pair => if pair.1 = key then (pair.1, value) else pair
  else pairs ++ [(key, value)]

def erasePair (pairs : List (K × V)) (key : K) : List (K × V) :=
  pairs.filter fun pair => pair.1 ≠ key

theorem lists_nil : Lists ([] : List (K × V)) ∅ :=
  ⟨List.nodup_nil, fun key value => by simp [Finmap.lookup_empty]⟩

theorem Lists.mem_iff (lists : Lists pairs m) : key ∈ m ↔ key ∈ pairs.map Prod.fst := by
  rw [Finmap.mem_iff, List.mem_map]
  constructor
  · rintro ⟨value, found⟩
    exact ⟨(key, value), (lists.entry key value).mp found, rfl⟩
  · rintro ⟨⟨_, value⟩, member, rfl⟩
    exact ⟨value, (lists.entry _ value).mpr member⟩

theorem Lists.value_eq (lists : Lists pairs m) (member : (key, value) ∈ pairs)
    (other : (key, old) ∈ pairs)
    : value = old := by
  have first := (lists.entry key value).mpr member
  rw [(lists.entry key old).mpr other] at first
  exact (Option.some.inj first).symm

theorem Lists.card (lists : Lists pairs m) : m.keys.card = pairs.length := by
  have keys : m.keys = (pairs.map Prod.fst).toFinset := by
    ext key
    rw [Finmap.mem_keys, lists.mem_iff, List.mem_toFinset]
  rw [keys, List.toFinset_card_of_nodup lists.distinct, List.length_map]

theorem Lists.eq_empty_iff (lists : Lists pairs m) : m = ∅ ↔ pairs = [] := by
  constructor
  · rintro rfl
    have none := lists.card
    rw [Finmap.keys_empty, Finset.card_empty] at none
    exact List.eq_nil_of_length_eq_zero none.symm
  · rintro rfl
    refine Finmap.ext_lookup fun key => ?_
    rw [Finmap.lookup_empty, Finmap.lookup_eq_none, lists.mem_iff]
    exact List.not_mem_nil

theorem Lists.perm {other : List (K × V)} (lists : Lists pairs m) (perm : other.Perm pairs)
    : Lists other m :=
  ⟨(perm.map Prod.fst).nodup_iff.mpr lists.distinct,
    fun key value => by rw [lists.entry, perm.mem_iff]⟩

theorem map_fst_setPair_of_mem (member : key ∈ pairs.map Prod.fst)
    : (setPair pairs key value).map Prod.fst = pairs.map Prod.fst := by
  rw [setPair, if_pos member, List.map_map]
  refine List.map_congr_left fun pair _ => ?_
  rw [Function.comp_apply]
  split
  · rfl
  · rfl

/-- Setting a pair inserts it into the map. -/
theorem Lists.set (lists : Lists pairs m) (key : K) (value : V)
    : Lists (setPair pairs key value) (m.insert key value) := by
  by_cases member : key ∈ pairs.map Prod.fst
  · refine ⟨by rw [map_fst_setPair_of_mem member]; exact lists.distinct, fun other val => ?_⟩
    rw [setPair, if_pos member, List.mem_map]
    by_cases same : other = key
    · subst same
      rw [Finmap.lookup_insert, Option.some.injEq]
      constructor
      · rintro rfl
        obtain ⟨pair, inside, at_key⟩ := List.mem_map.mp member
        exact ⟨pair, inside, by rw [if_pos at_key, at_key]⟩
      · rintro ⟨pair, inside, result⟩
        split at result
        · exact (Prod.mk.inj result).2
        · rename_i different
          exact absurd (congrArg Prod.fst result) different
    · rw [Finmap.lookup_insert_of_ne _ same, lists.entry]
      constructor
      · exact fun inside => ⟨(other, val), inside, if_neg same⟩
      · rintro ⟨pair, inside, result⟩
        split at result
        · rename_i at_key
          exact absurd ((congrArg Prod.fst result).symm.trans at_key) same
        · rwa [← result]
  · rw [setPair, if_neg member]
    refine ⟨?_, fun other val => ?_⟩
    · rw [List.map_append]
      exact List.nodup_append_comm.mp (List.nodup_cons.mpr ⟨member, lists.distinct⟩)
    · rw [List.mem_append, List.mem_singleton, Prod.mk.injEq]
      by_cases same : other = key
      · subst same
        rw [Finmap.lookup_insert, Option.some.injEq]
        constructor
        · exact fun equal => .inr ⟨rfl, equal.symm⟩
        · rintro (inside | ⟨-, equal⟩)
          · exact absurd (List.mem_map.mpr ⟨_, inside, rfl⟩) member
          · exact equal.symm
      · rw [Finmap.lookup_insert_of_ne _ same, lists.entry]
        exact (or_iff_left fun at_key => same at_key.1).symm

theorem Lists.erase (lists : Lists pairs m) (key : K)
    : Lists (erasePair pairs key) (m.erase key) := by
  refine ⟨lists.distinct.sublist (List.filter_sublist.map Prod.fst), fun other val => ?_⟩
  rw [erasePair, List.mem_filter, decide_eq_true_eq]
  by_cases same : other = key
  · subst same
    rw [Finmap.lookup_erase]
    exact iff_of_false nofun fun inside => inside.2 rfl
  · rw [Finmap.lookup_erase_ne same, lists.entry]
    exact (and_iff_left same).symm

-- Places in the list

omit [DecidableEq K] in
theorem place_unique (distinct : (pairs.map Prod.fst).Nodup) {i j : Nat} {pair : K × V}
    (found : pairs[j]? = some (key, old)) (other : pairs[i]? = some pair) (same : pair.1 = key)
    : i = j := by
  have at_j : (pairs.map Prod.fst)[j]? = some key := by rw [List.getElem?_map, found]; rfl
  have at_i : (pairs.map Prod.fst)[i]? = some key := by rw [List.getElem?_map, other, ← same]; rfl
  obtain ⟨inside, _⟩ := List.getElem?_eq_some_iff.mp at_i
  exact (List.getElem?_inj inside distinct).mp (at_i.trans at_j.symm)

theorem setPair_eq_set (distinct : (pairs.map Prod.fst).Nodup) {j : Nat}
    (found : pairs[j]? = some (key, old))
    : setPair pairs key value = pairs.set j (key, value) := by
  have member : key ∈ pairs.map Prod.fst :=
    List.mem_map.mpr ⟨_, List.mem_of_getElem? found, rfl⟩
  obtain ⟨inside, _⟩ := List.getElem?_eq_some_iff.mp found
  rw [setPair, if_pos member]
  refine List.ext_getElem? fun i => ?_
  rw [List.getElem?_map]
  by_cases same : i = j
  · subst same
    rw [found, List.getElem?_set_self inside, Option.map_some, if_pos rfl]
  · rw [List.getElem?_set_ne (Ne.symm same)]
    cases other : pairs[i]? with
    | none => rfl
    | some pair =>
        have different : pair.1 ≠ key := fun equal => same (place_unique distinct found other equal)
        rw [Option.map_some, if_neg different]

theorem erasePair_eq_eraseIdx (distinct : (pairs.map Prod.fst).Nodup) {j : Nat}
    (found : pairs[j]? = some (key, old))
    : erasePair pairs key = pairs.eraseIdx j := by
  induction pairs generalizing j with
  | nil => cases found
  | cons pair rest ih =>
      obtain ⟨fresh, distinct'⟩ := List.nodup_cons.mp distinct
      cases j with
      | zero =>
          obtain rfl : pair = (key, old) := by simpa using found
          have others : ∀ pair ∈ rest, pair.1 ≠ key := fun pair inside same =>
            fresh (List.mem_map.mpr ⟨pair, inside, same⟩)
          rw [erasePair, List.filter_cons_of_neg (by simp), List.eraseIdx_zero, List.tail_cons]
          exact List.filter_eq_self.mpr fun pair inside => by simpa using others pair inside
      | succ j =>
          have behind : rest[j]? = some (key, old) := by simpa using found
          have different : pair.1 ≠ key := fun same =>
            fresh (same ▸ List.mem_map.mpr ⟨_, List.mem_of_getElem? behind, rfl⟩)
          rw [erasePair, List.filter_cons_of_pos (by simpa using different),
            List.eraseIdx_cons_succ]
          exact congrArg (pair :: ·) (ih distinct' behind)

theorem erasePair_of_not_mem (absent : key ∉ pairs.map Prod.fst) : erasePair pairs key = pairs := by
  refine List.filter_eq_self.mpr fun pair inside => decide_eq_true fun same => absent ?_
  exact List.mem_map.mpr ⟨pair, inside, same⟩

end Pairs

end Redis.Library
