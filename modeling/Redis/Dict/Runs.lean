import Redis.Dict.Refinement

/-! Whole runs of dictionary operations, and their refinement of map operations. -/

namespace Redis

open Redis.Library

variable {K V : Type} [DecidableEq K]

/-- A dictionary together with the global `dict_can_resize`. -/
structure DictState (K V : Type) where
  dict : Dict K V
  canResize : Bool

inductive DictOp (K V : Type) where
  | add (key : K) (val : V)
  | replace (key : K) (val : V)
  | delete (key : K)
  | find (key : K)
  | fetchValue (key : K)
  | expand (size : Nat)
  | resize
  | rehash (n : Nat)
  | rehashStep
  | enableResize
  | disableResize

/-- What a call returns; an entry pointer is shown as the entry it points at. -/
inductive DictReply (K V : Type) where
  | status (ok : Bool)
  | entry (found : Option (DictEntry K V))
  | value (found : Option V)
  | more (left : Nat)
  | done

variable (type : DictType K V)

def DictOp.step (s : DictState K V)
    : DictOp K V → Except Fault (DictReply K V × DictState K V)
  | .add key val => do
      let (ok, dict) ← dictAdd type s.canResize s.dict key val
      pure (.status ok, { s with dict })
  | .replace key val => do
      let (new, dict) ← dictReplace type s.canResize s.dict key val
      pure (.status new, { s with dict })
  | .delete key => do
      let (ok, dict) ← dictDelete type s.dict key
      pure (.status ok, { s with dict })
  | .find key => do
      match ← dictFind type s.dict key with
      | (some ref, dict) =>
          let entry ← dict.entryAt ref
          pure (.entry (some entry), { s with dict })
      | (none, dict) => pure (.entry none, { s with dict })
  | .fetchValue key => do
      let (val, dict) ← dictFetchValue type s.dict key
      pure (.value val, { s with dict })
  | .expand size => do
      let (ok, dict) ← dictExpand s.dict size
      pure (.status ok, { s with dict })
  | .resize => do
      let (ok, dict) ← dictResize s.canResize s.dict
      pure (.status ok, { s with dict })
  | .rehash n => do
      let (left, dict) ← dictRehash type s.dict n
      pure (.more left, { s with dict })
  | .rehashStep => do
      let dict ← dictRehashStep type s.dict
      pure (.done, { s with dict })
  | .enableResize => .ok (.done, { s with canResize := true })
  | .disableResize => .ok (.done, { s with canResize := false })

/-- The map operation a call stands for: its reply and the map it leaves. -/
def DictOp.Refines (map : K → Option V) (reply : DictReply K V) (next : K → Option V)
    : DictOp K V → Prop
  | .add key val =>
      (map key = none
        ∧ reply = .status true
        ∧ next = bindKey type map key (storedVal type val))
      ∨ (map key ≠ none ∧ reply = .status false ∧ next = map)
  | .replace key val =>
      reply = .status (map key).isNone ∧ next = bindKey type map key (storedVal type val)
  | .delete key => reply = .status (map key).isSome ∧ next = unbindKey type map key
  | .find key =>
      next = map
      ∧ ((map key = none ∧ reply = .entry none)
        ∨ ∃ entry,
            reply = .entry (some entry)
            ∧ dictCompareKeys type key entry.key = true
            ∧ map key = some entry.val)
  | .fetchValue key => next = map ∧ reply = .value (map key)
  | _ => next = map

/-- The byte count of the bucket array that the call asks for does not wrap. Only `dictExpand`
is given a size that can make it.
-/
def DictOp.ServesSize (s : DictState K V) : DictOp K V → Prop
  | .expand size => s.dict.ServesSize size
  | _ => True

/-- An insertion of an absent key goes to a bucket number that fits in an `int`, and a bucket
array that is asked for has its byte count.
-/
def DictOp.Fits (s : DictState K V) : DictOp K V → Prop
  | .add key _ | .replace key _ =>
      s.dict.lookup type key ≠ none ∨ IndexFits type s.canResize s.dict key
  | .expand size => s.dict.ServesSize size
  | _ => True

/-- A run whose steps all succeed, and in which no bucket array has a wrapped byte count. -/
inductive DictReachable : DictState K V → Prop
  | create (canResize : Bool) : DictReachable { dict := dictCreate, canResize }
  | step {s next : DictState K V} {op : DictOp K V} {reply : DictReply K V}
    (before : DictReachable s) (run : op.step type s = .ok (reply, next))
    (serves : op.ServesSize s)
    : DictReachable next

/-- A call that succeeds, keeps the dictionary well formed and does its map operation. -/
structure DictOp.Sound (op : DictOp K V) (s : DictState K V) (reply : DictReply K V)
    (next : DictState K V)
    : Prop where
  run : op.step type s = .ok (reply, next)
  wellFormed : next.dict.WellFormed type
  refines : op.Refines type (s.dict.lookup type) reply (next.dict.lookup type)

section Steps

variable {type} {s : DictState K V}

theorem unbindKey_absent (lawful : type.Lawful) {d : Dict K V} {key : K}
    (absent : d.lookup type key = none)
    : unbindKey type (d.lookup type) key = d.lookup type := by
  funext other
  unfold unbindKey
  split
  · rename_i equated
    rw [← absent]
    exact (lookupEntries_congr lawful equated).symm
  · rfl

omit [DecidableEq K] in
theorem index_lt_iff {hash : Nat} {ht : Dictht K V} (wf : ht.WellFormed type)
    (bound : hash < 2 ^ 32)
    : hash &&& ht.sizemask < 2 ^ 31 ↔ hash < 2 ^ 31 ∨ ht.size ≤ 2 ^ 31 := by
  rw [wf.mask]
  rcases wf.power with zero | ⟨bits, _, power⟩
  · simp [zero]
  · rw [power, Nat.and_two_pow_sub_one_eq_mod]
    constructor
    · intro small
      by_contra large
      push Not at large
      have exponent : 32 ≤ bits := by
        by_contra short
        have le : 2 ^ bits ≤ 2 ^ 31 := Nat.pow_le_pow_right (by decide) (by omega)
        omega
      have wide : 2 ^ 32 ≤ 2 ^ bits := Nat.pow_le_pow_right (by decide) exponent
      rw [Nat.mod_eq_of_lt (by omega)] at small
      omega
    · rintro (small | few)
      · exact lt_of_le_of_lt (Nat.mod_le _ _) small
      · exact lt_of_lt_of_le (Nat.mod_lt _ (Nat.two_pow_pos bits)) few

theorem indexFits_iff {canResize : Bool} {d mid : Dict K V} {key : K}
    (wf : mid.WellFormed type) (point : d.insertionPoint type canResize = .ok mid)
    : IndexFits type canResize d key
      ↔ dictHashKey type key &&& mid.insertTable.sizemask < 2 ^ 31 := by
  have table : mid.insertTable.WellFormed type := by
    unfold Dict.insertTable
    split
    · exact wf.ht1
    · exact wf.ht0
  have bound : dictHashKey type key < 2 ^ 32 := (type.hashFunction key).toNat_lt
  rw [index_lt_iff table bound]
  simp [IndexFits, point]

theorem DictOp.Sound.silent (lawful : type.Lawful) {op : DictOp K V}
    {reply : DictReply K V} {next : DictState K V}
    (run : op.step type s = .ok (reply, next))
    (same : s.dict.SameContents type next.dict)
    (identity : op.Refines type (s.dict.lookup type) reply (s.dict.lookup type))
    : op.Sound type s reply next := by
  refine ⟨run, same.wellFormed, ?_⟩
  rw [same.lookup_eq lawful]
  exact identity

theorem Dict.PointsTo.lookup_eq (lawful : type.Lawful) {d : Dict K V}
    (wf : d.WellFormed type) {ref : EntryRef} {entry : DictEntry K V}
    (points : d.PointsTo ref entry) {key : K}
    (equated : dictCompareKeys type key entry.key = true)
    : d.lookup type key = some entry.val :=
  (lookupEntries_eq_some_iff lawful wf.distinct).mpr ⟨entry, points.mem, equated, rfl⟩

theorem find_sound (lawful : type.Lawful) (wf : s.dict.WellFormed type) (key : K)
    : ∃ reply next, (DictOp.find key).Sound type s reply next := by
  obtain ⟨dict, same, ⟨run, absent⟩ | ⟨ref, entry, run, points, equated⟩⟩ :=
    dictFind_ok lawful wf key
  · refine ⟨.entry none, { s with dict }, .silent lawful ?_ same ⟨rfl, Or.inl ⟨?_, rfl⟩⟩⟩
    · simp [DictOp.step, run]
    · rw [← same.lookup_eq lawful]
      exact lookupEntries_eq_none_iff.mpr absent
  · refine ⟨.entry (some entry), { s with dict }, .silent lawful ?_ same
      ⟨rfl, Or.inr ⟨entry, rfl, equated, ?_⟩⟩⟩
    · simp [DictOp.step, run, points.entryAt]
    · rw [← same.lookup_eq lawful]
      exact points.lookup_eq lawful same.wellFormed equated

theorem fetchValue_sound (lawful : type.Lawful) (wf : s.dict.WellFormed type) (key : K)
    : ∃ reply next, (DictOp.fetchValue key).Sound type s reply next := by
  obtain ⟨dict, same, ⟨run, absent⟩ | ⟨ref, entry, run, points, equated⟩⟩ :=
    dictFind_ok lawful wf key
  · have value : s.dict.lookup type key = none := by
      rw [← same.lookup_eq lawful]
      exact lookupEntries_eq_none_iff.mpr absent
    refine ⟨.value none, { s with dict }, .silent lawful ?_ same ⟨rfl, by rw [value]⟩⟩
    simp [DictOp.step, dictFetchValue, run]
  · have value : s.dict.lookup type key = some entry.val := by
      rw [← same.lookup_eq lawful]
      exact points.lookup_eq lawful same.wellFormed equated
    refine ⟨.value (some entry.val), { s with dict }, .silent lawful ?_ same
      ⟨rfl, by rw [value]⟩⟩
    simp [DictOp.step, dictFetchValue, run, points.entryAt]

theorem delete_sound (lawful : type.Lawful) (wf : s.dict.WellFormed type) (key : K)
    : ∃ reply next, (DictOp.delete key).Sound type s reply next := by
  have missing {dict : Dict K V} (same : s.dict.SameContents type dict)
      (run : dictDelete type s.dict key = .ok (false, dict))
      (absent : s.dict.lookup type key = none)
      : ∃ reply next, (DictOp.delete key).Sound type s reply next := by
    refine ⟨.status false, { s with dict }, .silent lawful ?_ same ?_⟩
    · simp [DictOp.step, run]
    · exact ⟨by rw [absent]; rfl, (unbindKey_absent lawful absent).symm⟩
  by_cases empty : s.dict.ht0.size = 0
  · obtain ⟨dict, same, ⟨_, absent⟩ | ⟨ref, entry, run, _, _⟩⟩ := dictFind_ok lawful wf key
    · refine missing (.refl wf) (by simp [dictDelete, empty]) ?_
      rw [← same.lookup_eq lawful]
      exact lookupEntries_eq_none_iff.mpr absent
    · simp [dictFind, empty] at run
  obtain ⟨mid, stepped, same⟩ := rehashIfNeeded_ok lawful wf
  rcases findInTables_ok lawful same.wellFormed (same.allocated empty) key with
    ⟨search, absent⟩ | ⟨ref, entry, search, points, equated⟩
  · refine missing same (by simp [dictDelete, empty, stepped, search]) ?_
    rw [← same.lookup_eq lawful]
    exact lookupEntries_eq_none_iff.mpr absent
  · obtain ⟨chain, read, ⟨nextWf, removed⟩, _⟩ := points.edit lawful same.wellFormed equated
    refine ⟨.status true,
      { s with
        dict := mid.setChain ref.second ref.idx ((mid.table ref.second).used - 1)
          (chain.eraseIdx ref.pos) }, ?_, nextWf, ?_, ?_⟩
    · simp [DictOp.step, dictDelete, empty, stepped, search, read]
    · have value := points.lookup_eq lawful same.wellFormed equated
      rw [same.lookup_eq lawful] at value
      rw [value]
      rfl
    · rw [← same.lookup_eq lawful]
      exact removed

/-- The two outcomes of an insertion of which the caller has to be told apart: it does
what the map operation does, or its bucket number did not fit and it does not.
-/
theorem add_cases (lawful : type.Lawful) (wf : s.dict.WellFormed type) (key : K) (val : V)
    : (DictOp.add key val).step type s = .error .outOfMemory
      ∨ ((DictOp.add key val).Fits type s
          ∧ ∃ reply next, (DictOp.add key val).Sound type s reply next)
      ∨ (¬(DictOp.add key val).Fits type s
          ∧ ∀ reply next,
              (DictOp.add key val).step type s = .ok (reply, next)
              → next.dict.WellFormed type
                ∧ ¬(DictOp.add key val).Refines type (s.dict.lookup type) reply
                  (next.dict.lookup type)) := by
  rcases dictAddRaw_cases lawful wf s.canResize key (storedVal type val) with
    oom | ⟨mid, same, point, ⟨present, run⟩ | ⟨absent, fits, next, run, nextWf, bound⟩
      | ⟨absent, large, outcome⟩⟩
  · exact Or.inl (by simp [DictOp.step, dictAdd, oom])
  · refine Or.inr (Or.inl ⟨Or.inl present, .status false, { s with dict := mid },
      .silent lawful (by simp [DictOp.step, dictAdd, run]) same
        (Or.inr ⟨present, rfl, rfl⟩)⟩)
  · refine Or.inr (Or.inl ⟨Or.inr ((indexFits_iff same.wellFormed point).mpr fits),
      .status true, { s with dict := next }, by simp [DictOp.step, dictAdd, run], nextWf,
      Or.inl ⟨absent, rfl, bound⟩⟩)
  · refine Or.inr (Or.inr ⟨?_, ?_⟩)
    · rintro (bound | fits)
      · exact bound absent
      · have small := (indexFits_iff same.wellFormed point).mp fits
        omega
    · intro reply next run
      rcases outcome with refused | outside
      · simp only [DictOp.step, dictAdd, refused, ok_andThen, return_ok_iff, Prod.mk.injEq] at run
        obtain ⟨rfl, rfl⟩ := run
        exact ⟨same.wellFormed, by simp [DictOp.Refines, absent]⟩
      · simp [DictOp.step, dictAdd, outside] at run

/-- Replacing inserts a new key like `dictAdd` and rewrites the value of a present one. A
bucket number that does not fit ends in a null or a stray pointer.
-/
theorem replace_cases (lawful : type.Lawful) (wf : s.dict.WellFormed type) (key : K)
    (val : V)
    : (DictOp.replace key val).step type s = .error .outOfMemory
      ∨ ((DictOp.replace key val).Fits type s
          ∧ ∃ reply next, (DictOp.replace key val).Sound type s reply next)
      ∨ (¬(DictOp.replace key val).Fits type s
          ∧ ∃ fault, (DictOp.replace key val).step type s = .error fault) := by
  rcases dictAddRaw_cases lawful wf s.canResize key (storedVal type val) with
    oom | ⟨mid, same, point, ⟨present, run⟩ | ⟨absent, fits, next, run, nextWf, bound⟩
      | ⟨absent, large, outcome⟩⟩
  · exact Or.inl (by simp [DictOp.step, dictReplace, dictAdd, oom])
  · refine Or.inr (Or.inl ⟨Or.inl present, ?_⟩)
    obtain ⟨last, sameLast, ⟨_, gone⟩ | ⟨ref, entry, found, points, equated⟩⟩ :=
      dictFind_ok lawful same.wellFormed key
    · exfalso
      apply present
      rw [← (same.trans sameLast).lookup_eq lawful]
      exact lookupEntries_eq_none_iff.mpr gone
    obtain ⟨chain, read, _, rewritten⟩ := points.edit lawful sameLast.wellFormed equated
    obtain ⟨nextWf, rebound⟩ := rewritten (storedVal type val)
    refine ⟨.status false,
      { s with
        dict := last.setChain ref.second ref.idx (last.table ref.second).used
          (chain.set ref.pos { entry with val := storedVal type val }) }, ?_, nextWf, ?_, ?_⟩
    · simp [DictOp.step, dictReplace, dictAdd, run, found, points.entryAt, read]
    · obtain ⟨old, bound⟩ := Option.ne_none_iff_exists'.mp present
      rw [bound]
      rfl
    · rw [← (same.trans sameLast).lookup_eq lawful]
      exact rebound
  · refine Or.inr (Or.inl ⟨Or.inr ((indexFits_iff same.wellFormed point).mpr fits),
      .status true, { s with dict := next }, ?_, nextWf, ?_, bound⟩)
    · simp [DictOp.step, dictReplace, dictAdd, run]
    · rw [absent]
      rfl
  · refine Or.inr (Or.inr ⟨?_, ?_⟩)
    · rintro (bound | fits)
      · exact bound absent
      · have small := (indexFits_iff same.wellFormed point).mp fits
        omega
    · rcases outcome with refused | outside
      swap
      · exact ⟨.outOfBounds, by simp [DictOp.step, dictReplace, dictAdd, outside]⟩
      obtain ⟨last, sameLast, ⟨found, _⟩ | ⟨ref, entry, _, points, equated⟩⟩ :=
        dictFind_ok lawful same.wellFormed key
      · exact ⟨.nullPointer, by simp [DictOp.step, dictReplace, dictAdd, refused, found]⟩
      · have value := points.lookup_eq lawful sameLast.wellFormed equated
        rw [(same.trans sameLast).lookup_eq lawful, absent] at value
        cases value

/-- What one call can do in a well-formed state: run out of memory, do its map operation,
or be an insertion whose bucket number does not fit or an expansion whose bucket array
wraps.
-/
theorem DictOp.step_cases (lawful : type.Lawful) (wf : s.dict.WellFormed type)
    (op : DictOp K V)
    : op.step type s = .error .outOfMemory
      ∨ (op.Fits type s ∧ ∃ reply next, op.Sound type s reply next)
      ∨ (¬op.Fits type s
          ∧ ∀ reply next,
              op.step type s = .ok (reply, next)
              → (op.ServesSize s → next.dict.WellFormed type)
                ∧ ¬op.Sound type s reply next) := by
  cases op with
  | add key val =>
      rcases add_cases lawful wf key val with oom | sound | ⟨unfit, refused⟩
      · exact Or.inl oom
      · exact Or.inr (Or.inl sound)
      · refine Or.inr (Or.inr ⟨unfit, fun reply next run => ?_⟩)
        obtain ⟨after, different⟩ := refused reply next run
        exact ⟨fun _ => after, fun sound => different sound.refines⟩
  | replace key val =>
      rcases replace_cases lawful wf key val with oom | sound | ⟨unfit, fault, run⟩
      · exact Or.inl oom
      · exact Or.inr (Or.inl sound)
      · exact Or.inr (Or.inr ⟨unfit, by simp [run]⟩)
  | delete key => exact Or.inr (Or.inl ⟨trivial, delete_sound lawful wf key⟩)
  | find key => exact Or.inr (Or.inl ⟨trivial, find_sound lawful wf key⟩)
  | fetchValue key => exact Or.inr (Or.inl ⟨trivial, fetchValue_sound lawful wf key⟩)
  | expand size =>
      by_cases serves : s.dict.ServesSize size
      · rcases dictExpand_ok wf serves with oom | ⟨ok, dict, run, same, _⟩
        · exact Or.inl (by simp [DictOp.step, oom])
        · exact Or.inr (Or.inl ⟨serves, .status ok, { s with dict },
            .silent lawful (by simp [DictOp.step, run]) same rfl⟩)
      · refine Or.inr (Or.inr ⟨serves, fun reply next run => ?_⟩)
        obtain ⟨⟨ok, dict⟩, expanded, rest⟩ := andThen_ok_iff.mp run
        cases rest
        exact ⟨fun other => absurd other serves,
          fun sound => dictExpand_wraps wf serves expanded sound.wellFormed⟩
  | resize =>
      rcases dictResize_ok s.canResize wf with oom | ⟨ok, dict, run, same⟩
      · exact Or.inl (by simp [DictOp.step, oom])
      · exact Or.inr (Or.inl ⟨trivial, .status ok, { s with dict },
          .silent lawful (by simp [DictOp.step, run]) same rfl⟩)
  | rehash n =>
      obtain ⟨left, dict, run, same⟩ := dictRehash_ok lawful wf n
      exact Or.inr (Or.inl ⟨trivial, .more left, { s with dict },
        .silent lawful (by simp [DictOp.step, run]) same rfl⟩)
  | rehashStep =>
      refine Or.inr (Or.inl ⟨trivial, .done, ?_⟩)
      obtain ⟨left, dict, run, same⟩ := dictRehash_ok lawful wf 1
      by_cases iterated : s.dict.iterators = 0
      · exact ⟨{ s with dict },
          .silent lawful (by simp [DictOp.step, dictRehashStep, iterated, run]) same rfl⟩
      · exact ⟨s, .silent lawful (by simp [DictOp.step, dictRehashStep, iterated])
          (.refl wf) rfl⟩
  | enableResize =>
      exact Or.inr (Or.inl ⟨trivial, .done, { s with canResize := true },
        .silent lawful rfl (.refl wf) rfl⟩)
  | disableResize =>
      exact Or.inr (Or.inl ⟨trivial, .done, { s with canResize := false },
        .silent lawful rfl (.refl wf) rfl⟩)

theorem DictReachable.wellFormed (lawful : type.Lawful) (reached : DictReachable type s)
    : s.dict.WellFormed type := by
  induction reached with
  | create canResize => exact dictCreate_wellFormed
  | step before run serves ih =>
      rcases DictOp.step_cases lawful ih _ with oom | ⟨_, _, _, sound⟩ | ⟨_, refused⟩
      · rw [oom] at run
        cases run
      · rw [sound.run] at run
        cases run
        exact sound.wellFormed
      · exact (refused _ _ run).1 serves

end Steps

-- Runs and the calls that fit

/-- Over every run from `dictCreate` in which no bucket array has a wrapped byte count the
dictionary keeps its invariant, the assertion of `dictRehash` holds, and in every state
reached a call either ends the process for lack of memory or keeps the invariant and does
exactly its map operation, the latter precisely when its bucket number and the bucket array
that it asks for fit.
-/
theorem dict_refines_map {type : DictType K V} (lawful : type.Lawful) {s : DictState K V}
    (reached : DictReachable type s)
    : s.dict.WellFormed type
      ∧ (∀ i, s.dict.rehashidx = some i → s.dict.ht0.used ≠ 0 → i < s.dict.ht0.size)
      ∧ ∀ op : DictOp K V,
          op.step type s = .error .outOfMemory
          ∨ ((∃ reply next, op.Sound type s reply next) ↔ op.Fits type s) := by
  have wf := reached.wellFormed lawful
  refine ⟨wf, fun i rehashing left => wf.rehashidx_lt rehashing left, fun op => ?_⟩
  rcases DictOp.step_cases lawful wf op with oom | ⟨fits, sound⟩ | ⟨unfit, refused⟩
  · exact Or.inl oom
  · exact Or.inr ⟨fun _ => fits, fun _ => sound⟩
  · refine Or.inr ⟨?_, fun fits => absurd fits unfit⟩
    rintro ⟨reply, next, sound⟩
    exact absurd sound (refused reply next sound.run).2

/-- Natural keys hashed by their low 32 bits and compared as they are. -/
def natDictType : DictType Nat Nat where
  hashFunction := UInt32.ofNat
  keyDup := none
  valDup := none
  keyCompare := none

theorem natDictType_lawful : natDictType.Lawful where
  refl := by simp [dictCompareKeys, natDictType]
  symm := by simp [dictCompareKeys, natDictType, eq_comm]
  trans := by simp [dictCompareKeys, natDictType]
  hash := by simp [dictCompareKeys, natDictType]
  dup := by simp [dictCompareKeys, natDictType, storedKey]

/-- The theorem at the state after the first insertion into a new dictionary. -/
theorem dict_refines_map_first_add
    : ∃ s : DictState Nat Nat,
        DictReachable natDictType s
        ∧ s.dict.lookup natDictType 5 = some 7
        ∧ s.dict.WellFormed natDictType
        ∧ ∀ op : DictOp Nat Nat,
            op.step natDictType s = .error .outOfMemory
            ∨ ((∃ reply next, op.Sound natDictType s reply next) ↔ op.Fits natDictType s) := by
  let added : DictState Nat Nat :=
    { dict := {
        ht0 := { table := [[], [⟨5, 7⟩], [], []], size := 4, sizemask := 3, used := 1 }
        ht1 := dictReset
        rehashidx := none
        iterators := 0 }
      canResize := true }
  have reached : DictReachable natDictType added :=
    .step (.create true)
      (show (DictOp.add 5 7).step natDictType _ = .ok (.status true, added) by rfl) trivial
  have sound := dict_refines_map natDictType_lawful reached
  exact ⟨added, reached, rfl, sound.1, sound.2.2⟩

/-- Every key hashes to the largest `unsigned int`. -/
def topHashType : DictType Unit Unit where
  hashFunction := fun _ => 0xFFFFFFFF
  keyDup := none
  valDup := none
  keyCompare := none

def emptyTable (size : Nat) : Dict Unit Unit where
  ht0 := { table := List.replicate size [], size, sizemask := size - 1, used := 0 }
  ht1 := dictReset
  rehashidx := none
  iterators := 0

theorem dictExpand_emptyTable {size : Nat} (power : dictNextPower size = size)
    (positive : size ≠ 0) (fits : size * 8 < addressSpace)
    : dictExpand (dictCreate : Dict Unit Unit) size = .ok (true, emptyTable size) := by
  have served
      : zcallocTable size = .ok (List.replicate size ([] : List (DictEntry Unit Unit))) := by
    have bytes : size * 8 % 2 ^ 64 = size * 8 := Nat.mod_eq_of_lt (by
      simp only [addressSpace] at fits
      omega)
    simp only [zcallocTable, bytes, if_pos fits, Nat.mul_div_cancel size (show 0 < 8 by decide)]
  simp [dictExpand, power, Dict.isRehashing, dictCreate, dictReset, positive, served,
    emptyTable]

theorem dictAdd_emptyTable {size : Nat} (positive : size ≠ 0)
    (last : dictHashKey topHashType () &&& (size - 1) = 0xFFFFFFFF)
    (inside : 0xFFFFFFFF < size)
    : dictAdd topHashType true (emptyTable size) () () = .ok (false, emptyTable size) := by
  have bucket : (emptyTable size).ht0.bucket 0xFFFFFFFF = .ok [] := by
    simp [Dictht.bucket, emptyTable, inside]
  have search
      : findInTable topHashType (emptyTable size).ht0 () = .ok (0xFFFFFFFF, none) := by
    have index : dictHashKey topHashType () &&& (emptyTable size).ht0.sizemask = 0xFFFFFFFF :=
      last
    simp [findInTable, index, bucket]
  have idle : (emptyTable size).isRehashing = false := rfl
  have roomy : dictExpandIfNeeded true (emptyTable size) = .ok (true, emptyTable size) := by
    have none : (emptyTable size).ht0.used = 0 := rfl
    have some : (emptyTable size).ht0.size = size := rfl
    simp [dictExpandIfNeeded, idle, none, some, positive]
  have index
      : castInt (dictHashKey topHashType () &&& (emptyTable size).insertTable.sizemask)
        = -1 := by
    have mask : (emptyTable size).insertTable.sizemask = size - 1 := rfl
    rw [mask, last]
    rfl
  simp [dictAdd, dictAddRaw, rehashIfNeeded, idle, dictKeyIndex, roomy, findInTables, search,
    index]

/-- In a table of `2 ^ 32` buckets an absent key whose bucket is the last one is refused:
its bucket number, read as an `int`, is the `-1` that means "already present".
-/
theorem dictAdd_refuses_absent_key
    : ∃ s : DictState Unit Unit,
        DictReachable topHashType s
        ∧ s.dict.lookup topHashType () = none
        ∧ ∃ next,
            (DictOp.add () ()).step topHashType s = .ok (.status false, next)
            ∧ ¬(DictOp.add () ()).Refines topHashType (s.dict.lookup topHashType)
              (.status false) (next.dict.lookup topHashType) := by
  obtain ⟨size, large⟩ : ∃ size, size = 2 ^ 32 := ⟨_, rfl⟩
  have expanded : dictExpand (dictCreate : Dict Unit Unit) size = .ok (true, emptyTable size) :=
    dictExpand_emptyTable (by rw [large]; decide) (by omega) (by rw [large]; decide)
  have refused : dictAdd topHashType true (emptyTable size) () () = .ok (false, emptyTable size) :=
    dictAdd_emptyTable (by omega) (by rw [large]; decide) (by omega)
  have absent : (emptyTable size).lookup topHashType () = none := by
    refine lookupEntries_eq_none_iff.mpr (fun entry member => ?_)
    simp [Dict.entries, emptyTable, Dictht.entries, dictReset] at member
  refine ⟨{ dict := emptyTable size, canResize := true }, ?_, absent,
    { dict := emptyTable size, canResize := true }, ?_, ?_⟩
  · have run : (DictOp.expand size).step topHashType { dict := dictCreate, canResize := true }
        = .ok (.status true, { dict := emptyTable size, canResize := true }) := by
      simp [DictOp.step, expanded]
    exact .step (.create true) run (Or.inr (Or.inr (Or.inl (by omega))))
  · simp [DictOp.step, refused]
  · simp [DictOp.Refines, absent]

end Redis
