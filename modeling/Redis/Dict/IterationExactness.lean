import Redis.Dict.IteratorEdits

/-! Whole iterations with a safe iterator: which elements `dictNext` returns while its user finds,
adds and replaces keys and deletes the element returned last.
-/

namespace Redis

open Redis.Library

variable {K V : Type} [DecidableEq K]

-- Runs

/-- What happens in an iteration: `dictNext` returns a cell, or the user calls an operation. -/
inductive IterEvent (K V : Type) where
  | returned (cell : DictEntry K V)
  | called (op : DictOp K V)

/-- The dictionary, the iterator and the cell that it returned last. -/
structure IterConf (K V : Type) where
  s : DictState K V
  iter : DictIterator K
  last : Option (DictEntry K V)

/-- The start of an iteration with a safe iterator. -/
def IterConf.begin (s : DictState K V) : IterConf K V :=
  { s, iter := dictGetSafeIterator, last := none }

section Traces

variable (type : DictType K V)

/-- The calls that a user may make between two calls of `dictNext`. -/
def DictOp.AllowedAfter (last : DictEntry K V) : DictOp K V → Prop
  | .find _ | .add _ _ | .replace _ _ => True
  | .delete key => dictCompareKeys type key last.key = true
  | _ => False

inductive IterStep : IterConf K V → IterEvent K V → IterConf K V → Prop
  | next {s : DictState K V} {iter iter' : DictIterator K} {last : Option (DictEntry K V)}
    {cell : DictEntry K V} {dict : Dict K V}
    (call : dictNext s.dict iter = .ok (some cell, iter', dict))
    : IterStep ⟨s, iter, last⟩ (.returned cell) ⟨{ s with dict }, iter', some cell⟩
  | call {s next : DictState K V} {iter : DictIterator K} {last : DictEntry K V}
    {op : DictOp K V} {reply : DictReply K V} (allowed : op.AllowedAfter type last)
    (run : op.step type s = .ok (reply, next))
    : IterStep ⟨s, iter, some last⟩ (.called op) ⟨next, iter, some last⟩

/-- An iteration with its events, the latest first. -/
inductive IterRun (start : DictState K V) : List (IterEvent K V) → IterConf K V → Prop
  | start : IterRun start [] (.begin start)
  | step {events : List (IterEvent K V)} {conf next : IterConf K V} {event : IterEvent K V}
    (before : IterRun start events conf) (step : IterStep type conf event next)
    : IterRun start (event :: events) next

/-- The element of a key has been returned and has not been deleted since. -/
def Returned : List (IterEvent K V) → K → Prop
  | [], _ => False
  | .returned cell :: events, key => dictCompareKeys type cell.key key = true ∨ Returned events key
  | .called (.delete other) :: events, key =>
      dictCompareKeys type other key = false ∧ Returned events key
  | .called _ :: events, key => Returned events key

/-- No element is returned that has been returned before; an element that was deleted and whose key
was added again is another element.
-/
def NoneTwice : List (IterEvent K V) → Prop
  | [] => True
  | .returned cell :: events => ¬Returned type events cell.key ∧ NoneTwice events
  | .called _ :: events => NoneTwice events

/-- The event returns the element of a key or deletes it. -/
def IterEvent.Concerns (key : K) : IterEvent K V → Prop
  | .returned cell => dictCompareKeys type cell.key key = true
  | .called (.delete other) => dictCompareKeys type other key = true
  | .called _ => False

/-- The element is returned, and nothing has happened to it before. -/
def ReturnedInTurn (events : List (IterEvent K V)) (cell : DictEntry K V) : Prop :=
  ∃ later now before,
    events = later ++ .returned now :: before
    ∧ now.key = cell.key
    ∧ ∀ event ∈ before, ¬event.Concerns type cell.key

end Traces

section Invariant

variable {type : DictType K V} {start d : Dict K V} {events : List (IterEvent K V)}
  {coming : List (DictEntry K V)} {s : DictState K V} {cell : DictEntry K V} {last : DictEntry K V}
  {after : Dict K V} {op : DictOp K V}

/-- What has been returned and what is still to come. -/
structure Accounts (type : DictType K V) (start : Dict K V) (events : List (IterEvent K V))
    (d : Dict K V) (coming : List (DictEntry K V))
    : Prop where
  wf : d.WellFormed type
  part : coming.Sublist d.entries
  fresh : ∀ cell ∈ coming, ¬Returned type events cell.key
  present
    : ∀ key, Returned type events key → ∃ cell ∈ d.entries, dictCompareKeys type key cell.key = true
  covered
    : ∀ cell ∈ start.entries,
        ReturnedInTurn type events cell
        ∨ ((∀ event ∈ events, ¬event.Concerns type cell.key)
          ∧ ∃ there ∈ coming, there.key = cell.key)
  once : NoneTwice type events

theorem Accounts.initial (wf : d.WellFormed type) : Accounts type d [] d d.entries where
  wf := wf
  part := List.Sublist.refl _
  fresh := fun _ _ none => none
  present := fun _ none => none.elim
  covered := fun cell member => Or.inr ⟨by simp, cell, member, rfl⟩
  once := trivial

theorem ReturnedInTurn.cons (inTurn : ReturnedInTurn type events cell) (event : IterEvent K V)
    : ReturnedInTurn type (event :: events) cell := by
  obtain ⟨later, now, before, split, same, untouched⟩ := inTurn
  exact ⟨event :: later, now, before, by rw [split]; rfl, same, untouched⟩

theorem Accounts.next (lawful : type.Lawful)
    (accounts : Accounts type start events d (cell :: coming))
    (wf : after.WellFormed type) (same : after.entries = d.entries)
    : Accounts type start (.returned cell :: events) after coming := by
  have distinct := accounts.wf.distinct.sublist accounts.part
  obtain ⟨apart, _⟩ := List.pairwise_cons.mp distinct
  have member : cell ∈ d.entries := accounts.part.subset List.mem_cons_self
  refine ⟨wf, ?_, ?_, ?_, ?_, accounts.fresh cell List.mem_cons_self, accounts.once⟩
  · rw [same]
    exact (List.sublist_cons_self cell coming).trans accounts.part
  · rintro other inComing (equated | before)
    · exact Bool.false_ne_true ((apart other inComing).symm.trans equated)
    · exact accounts.fresh other (List.mem_cons_of_mem _ inComing) before
  · rw [same]
    rintro key (equated | before)
    · exact ⟨cell, member, lawful.symm equated⟩
    · exact accounts.present key before
  · intro origin inStart
    rcases accounts.covered origin inStart with inTurn | ⟨untouched, there, inComing, key⟩
    · exact Or.inl (inTurn.cons _)
    · rcases List.mem_cons.mp inComing with rfl | later
      · exact Or.inl ⟨[], there, events, rfl, key, untouched⟩
      · refine Or.inr ⟨?_, there, later, key⟩
        rintro event (_ | ⟨_, old⟩)
        · intro equated
          have same : dictCompareKeys type cell.key there.key = true := key ▸ equated
          exact Bool.false_ne_true ((apart there later).symm.trans same)
        · exact untouched event old

theorem Accounts.call (lawful : type.Lawful) (accounts : Accounts type start events d coming)
    (allowed : op.AllowedAfter type last)
    (returned : .returned last ∈ events) {left : List (DictEntry K V)}
    {gained lost : K → Prop} (wf : after.WellFormed type) (part : left.Sublist after.entries)
    (entries : KeysChange gained lost d.entries after.entries)
    (change : KeysChange gained lost coming left)
    (new : ∀ k, gained k → ∀ cell ∈ d.entries, dictCompareKeys type k cell.key = false)
    (deleted : ∀ k, lost k → ∃ key, op = .delete key ∧ dictCompareKeys type key k = true)
    : Accounts type start (.called op :: events) after left := by
  have older {key : K} (now : Returned type (.called op :: events) key)
      : Returned type events key := by
    cases op with
    | delete other => exact now.2
    | _ => exact now
  have concerns {key : K} (touched : (IterEvent.called op).Concerns type key)
      : dictCompareKeys type last.key key = true := by
    cases op with
    | delete other => exact lawful.trans (lawful.symm allowed) touched
    | _ => exact touched.elim
  refine ⟨wf, part, ?_, ?_, ?_, accounts.once⟩
  · intro cell member now
    rcases change.old cell member with ⟨before, inComing, same⟩ | gain
    · exact accounts.fresh before inComing (same ▸ older now)
    · obtain ⟨there, inEntries, equated⟩ := accounts.present _ (older now)
      exact Bool.false_ne_true ((new _ gain there inEntries).symm.trans equated)
  · intro key now
    obtain ⟨there, inEntries, equated⟩ := accounts.present _ (older now)
    rcases entries.kept there inEntries with ⟨cell, member, same⟩ | gone
    · exact ⟨cell, member, same ▸ equated⟩
    · obtain ⟨other, rfl, dropped⟩ := deleted _ gone
      have both := lawful.trans dropped (lawful.symm equated)
      exact absurd (now.1.symm.trans both) Bool.false_ne_true
  · intro origin inStart
    rcases accounts.covered origin inStart with inTurn | ⟨untouched, there, inComing, key⟩
    · exact Or.inl (inTurn.cons _)
    · have apart : ¬dictCompareKeys type last.key origin.key = true := untouched _ returned
      refine Or.inr ⟨?_, ?_⟩
      · rintro event (_ | ⟨_, old⟩)
        · exact fun touched => apart (concerns touched)
        · exact untouched event old
      · rcases change.kept there inComing with ⟨cell, member, same⟩ | gone
        · exact ⟨cell, member, same.trans key⟩
        · obtain ⟨other, rfl, dropped⟩ := deleted _ gone
          exact absurd (concerns (key ▸ dropped)) apart

theorem DictOp.AllowedAfter.servesSize (allowed : op.AllowedAfter type last) : op.ServesSize s := by
  cases op with
  | expand size => exact allowed.elim
  | _ => trivial

theorem DictOp.AllowedAfter.change (lawful : type.Lawful)
    (allowed : op.AllowedAfter type last) {s next : DictState K V} {reply : DictReply K V}
    (run : op.step type s = .ok (reply, next)) (wf : s.dict.WellFormed type)
    (allocated : s.dict.ht0.size ≠ 0) (busy : s.dict.iterators ≠ 0)
    : next.dict.WellFormed type
      ∧ ∃ gained lost : K → Prop,
          s.dict.Change next.dict gained lost
          ∧ (∀ k, gained k
            → ∀ cell ∈ s.dict.entries, dictCompareKeys type k cell.key = false)
          ∧ ∀ k, lost k → ∃ key, op = .delete key ∧ dictCompareKeys type key k = true := by
  have after : next.dict.WellFormed type := by
    rcases DictOp.step_cases lawful wf op with oom | ⟨_, _, _, sound⟩ | ⟨_, refused⟩
    · cases oom.symm.trans run
    · cases sound.run.symm.trans run
      exact sound.wellFormed
    · exact (refused _ _ run).1 allowed.servesSize
  have unequal {key k : K} (new : newKey type s.dict key k)
      : ∀ cell ∈ s.dict.entries, dictCompareKeys type k cell.key = false := by
    obtain ⟨rfl, absent⟩ := new
    intro cell member
    by_contra equated
    have same := lawful.trans (lawful.dup key) (by simpa using equated)
    exact Bool.false_ne_true ((absent cell member).symm.trans same)
  refine ⟨after, ?_⟩
  cases op with
  | find key =>
      obtain ⟨⟨found, dict⟩, find, rest⟩ := andThen_ok_iff.mp run
      cases dictFind_busy busy find
      have same : next.dict = s.dict := by
        cases found with
        | none =>
            cases rest
            rfl
        | some ref =>
            obtain ⟨_, _, rest⟩ := andThen_ok_iff.mp rest
            cases rest
            rfl
      rw [same]
      exact ⟨noKey, noKey, .refl _, fun _ => False.elim, fun _ => False.elim⟩
  | add key val =>
      obtain ⟨⟨added, dict⟩, add, rest⟩ := andThen_ok_iff.mp run
      cases rest
      exact ⟨_, _, dictAdd_change lawful wf allocated busy add, fun _ => unequal,
        fun _ => False.elim⟩
  | replace key val =>
      obtain ⟨⟨new, dict⟩, replace, rest⟩ := andThen_ok_iff.mp run
      cases rest
      exact ⟨_, _, dictReplace_change lawful wf allocated busy replace, fun _ => unequal,
        fun _ => False.elim⟩
  | delete key =>
      obtain ⟨⟨deleted, dict⟩, delete, rest⟩ := andThen_ok_iff.mp run
      cases rest
      obtain ⟨lost, change, equated⟩ := dictDelete_change lawful wf allocated busy delete
      exact ⟨noKey, lost, change, fun _ => False.elim, fun k gone => ⟨key, rfl, equated k gone⟩⟩
  | _ => exact allowed.elim

-- Steps

/-- How far the iteration is: whether the rehash that can start in it has started, the buckets left
and the cells left of the chain.
-/
def iterRank (d : Dict K V) (iter : DictIterator K) (idx : Nat) (suf : List (DictEntry K V))
    : Nat ×ₗ Nat ×ₗ Nat :=
  toLex (if d.isRehashing then 0 else 1,
    toLex (d.bucketsLeft iter.second (idx + 1), suf.length))

/-- The invariant after the first call of `dictNext`. -/
structure Iterating (type : DictType K V) (start : Dict K V) (events : List (IterEvent K V))
    (conf : IterConf K V) (rank : Nat ×ₗ Nat ×ₗ Nat)
    : Prop where
  busy : conf.s.dict.iterators ≠ 0
  returned : ∃ last, conf.last = some last ∧ .returned last ∈ events
  place
    : ∃ idx pre suf,
        conf.iter.Standing conf.s.dict idx pre suf
        ∧ rank = iterRank conf.s.dict conf.iter idx suf
        ∧ Accounts type start events conf.s.dict
            (suf ++ conf.s.dict.bucketsFrom conf.iter.second (idx + 1))
        ∧ ∀ last, conf.last = some last →
            ∀ cell ∈ suf, dictCompareKeys type last.key cell.key = false

omit [DecidableEq K] in
theorem DictIterator.Standing.part {iter : DictIterator K} {idx : Nat}
    {pre suf : List (DictEntry K V)} (standing : iter.Standing d idx pre suf)
    : (suf ++ d.bucketsFrom iter.second (idx + 1)).Sublist d.entries := by
  have chain := standing.chain
  have inside := (List.getElem?_eq_some_iff.mp chain).1
  have split
      : (d.table iter.second).entries
        = ((d.table iter.second).table.take idx).flatten ++ pre ++ suf
          ++ ((d.table iter.second).table.drop (idx + 1)).flatten := by
    have buckets := List.take_append_drop idx (d.table iter.second).table
    rw [List.drop_eq_getElem_cons inside, (List.getElem?_eq_some_iff.mp chain).2] at buckets
    rw [Dictht.entries]
    conv_lhs => rw [← buckets]
    simp
  have rest
      : (suf ++ ((d.table iter.second).table.drop (idx + 1)).flatten).Sublist
          (d.table iter.second).entries := by
    rw [split, List.append_assoc]
    exact List.sublist_append_right _ _
  unfold Dict.bucketsFrom Dict.entries
  rw [← List.append_assoc]
  unfold Dict.table at *
  cases second : iter.second with
  | false =>
      rw [second] at rest
      exact rest.append (List.Sublist.refl _)
  | true =>
      rw [second] at rest
      simp only [if_true, List.append_nil] at rest ⊢
      exact rest.trans (List.sublist_append_right _ _)

theorem DictIterator.Standing.allocated {iter : DictIterator K} {idx : Nat}
    {pre suf : List (DictEntry K V)} (standing : iter.Standing d idx pre suf)
    (wf : d.WellFormed type)
    : d.ht0.size ≠ 0 := by
  have inside := (List.getElem?_eq_some_iff.mp standing.chain).1
  have length := (wf.table iter.second).length
  cases second : iter.second with
  | false =>
      rw [second] at inside length
      simp only [Dict.table, Bool.false_eq_true, if_false] at inside length
      omega
  | true =>
      cases index : d.rehashidx with
      | some i => exact (wf.allocated index).1
      | none =>
          rw [second] at inside
          simp [Dict.table, wf.idle index, dictReset] at inside

theorem Iterating.of_next (lawful : type.Lawful) {iter' : DictIterator K} {left length : Nat}
    (accounts : Accounts type start events d coming) (wf : after.WellFormed type)
    (same : after.entries = d.entries) (busy : after.iterators ≠ 0)
    (result : NextResult after left length coming (some cell, iter', after))
    : ∃ rank,
        Iterating type start (.returned cell :: events) ⟨{ s with dict := after }, iter', some cell⟩
          rank
        ∧ rank < toLex (if after.isRehashing then 0 else 1, toLex (left, length)) := by
  cases result with
  | @cell _ _ idx pre suf standing progress =>
      obtain ⟨apart, _⟩ := List.pairwise_cons.mp (accounts.wf.distinct.sublist accounts.part)
      refine ⟨_, ⟨busy, ⟨cell, rfl, List.mem_cons_self⟩, idx, pre ++ [cell], suf, standing, rfl,
        accounts.next lawful wf same, ?_⟩, ?_⟩
      · rintro last' rfl' other member
        cases rfl'
        exact apart other (List.mem_append_left _ member)
      · refine Prod.Lex.toLex_lt_toLex.mpr (Or.inr ⟨rfl, ?_⟩)
        exact Prod.Lex.toLex_lt_toLex.mpr progress

theorem Iterating.step (lawful : type.Lawful) {conf next : IterConf K V} {event : IterEvent K V}
    {rank : Nat ×ₗ Nat ×ₗ Nat} (iterating : Iterating type start events conf rank)
    (step : IterStep type conf event next)
    : ∃ rank',
        Iterating type start (event :: events) next rank'
        ∧ rank' ≤ rank
        ∧ ∀ cell, event = .returned cell → rank' < rank := by
  obtain ⟨busy, ⟨previous, isLast, inEvents⟩, idx, pre, suf, standing, rfl, accounts, apart⟩ :=
    iterating
  cases step with
  | @next s iter iter' last cell dict call =>
      obtain ⟨result, run, next⟩ := dictNext_standing lawful accounts.wf standing
      cases call.symm.trans run
      obtain rfl : dict = s.dict := next.after
      obtain ⟨rank, iterating, less⟩ :=
        Iterating.of_next (s := s) lawful accounts accounts.wf rfl busy next
      exact ⟨rank, iterating, less.le, fun _ _ => less⟩
  | @call s next iter last op reply allowed run =>
      cases isLast
      obtain ⟨wf, gained, lost, change, new, deleted⟩ :=
        allowed.change lawful run accounts.wf (standing.allocated accounts.wf) busy
      have keeps : ∀ cell ∈ suf, ¬lost cell.key := by
        intro cell member gone
        obtain ⟨key, rfl, dropped⟩ := deleted _ gone
        have equated := lawful.trans (lawful.symm allowed) dropped
        exact Bool.false_ne_true ((apart _ rfl cell member).symm.trans equated)
      obtain ⟨pre', suf', kept⟩ := change.place standing keeps
      have length : suf'.length = suf.length := by
        simpa using congrArg List.length kept.rest
      have rank
          : iterRank next.dict iter idx suf' ≤ iterRank s.dict iter idx suf := by
        unfold iterRank
        rcases change.steady with ⟨idle, started⟩ | ⟨same, size0, size1⟩
        · rw [idle, started]
          exact (Prod.Lex.toLex_lt_toLex.mpr (Or.inl Nat.one_pos)).le
        · have buckets
              : next.dict.bucketsLeft iter.second (idx + 1)
                = s.dict.bucketsLeft iter.second (idx + 1) := by
            unfold Dict.bucketsLeft Dict.table
            cases iter.second <;> simp [size0, size1]
          rw [same, buckets, length]
      refine ⟨_, ⟨by rw [change.iterators]; exact busy, ⟨_, rfl, List.mem_cons_of_mem _ inEvents⟩,
        idx, pre', suf', kept.standing, rfl, ?_, ?_⟩, rank, fun cell other => by cases other⟩
      · exact accounts.call lawful allowed inEvents wf kept.standing.part change.entries kept.coming
          new deleted
      · rintro last' rfl' cell member
        cases rfl'
        obtain ⟨before, inSuf, same⟩ := mem_key_of_map_eq kept.rest member
        exact same ▸ apart _ rfl before inSuf

-- Whole iterations

theorem Iterating.first (lawful : type.Lawful) (wf : s.dict.WellFormed type)
    {next : IterConf K V} {event : IterEvent K V} (step : IterStep type (.begin s) event next)
    : ∃ rank, Iterating type s.dict [event] next rank := by
  cases step with
  | @next _ _ iter' _ cell dict call =>
      obtain ⟨result, run, next⟩ := dictNext_start lawful wf
      cases call.symm.trans run
      have counted : dict = { s.dict with iterators := s.dict.iterators + 1 } := next.after
      rw [← counted] at next
      have same : dict.entries = s.dict.entries := by
        rw [counted]
        rfl
      have busy : dict.iterators ≠ 0 := by
        rw [counted]
        exact Nat.succ_ne_zero _
      obtain ⟨rank, iterating, _⟩ :=
        Iterating.of_next (s := s) lawful (.initial wf) (counted ▸ wf.setIterators _) same busy next
      exact ⟨rank, iterating⟩

theorem IterRun.iterating (lawful : type.Lawful)
    (wf : s.dict.WellFormed type) {conf : IterConf K V} (run : IterRun type s events conf)
    : (events = [] ∧ conf = .begin s) ∨ ∃ rank, Iterating type s.dict events conf rank := by
  induction run with
  | start => exact Or.inl ⟨rfl, rfl⟩
  | step before step ih =>
      rcases ih with ⟨rfl, rfl⟩ | ⟨rank, iterating⟩
      · exact Or.inr (Iterating.first lawful wf step)
      · obtain ⟨rank', after, _⟩ := iterating.step lawful step
        exact Or.inr ⟨rank', after⟩

theorem Iterating.ends (lawful : type.Lawful) {conf : Nat → IterConf K V}
    {event : Nat → IterEvent K V} (steps : ∀ n, IterStep type (conf n) (event n) (conf (n + 1)))
    {rank : Nat ×ₗ Nat ×ₗ Nat} (iterating : Iterating type start events (conf 0) rank)
    : ∃ n, ∀ m ≥ n, ∀ cell, event m ≠ .returned cell := by
  induction rank using WellFoundedLT.induction generalizing conf event events with
  | ind rank ih =>
      have along (n : Nat)
          : ∃ events rank', Iterating type start events (conf n) rank' ∧ rank' ≤ rank := by
        induction n with
        | zero => exact ⟨events, rank, iterating, le_rfl⟩
        | succ n before =>
            obtain ⟨events, rank', here, below⟩ := before
            obtain ⟨rank'', after, below', _⟩ := here.step lawful (steps n)
            exact ⟨_, rank'', after, below'.trans below⟩
      by_cases quiet : ∀ m cell, event m ≠ .returned cell
      · exact ⟨0, fun m _ => quiet m⟩
      · push Not at quiet
        obtain ⟨m, cell, returned⟩ := quiet
        obtain ⟨events, rank', here, below⟩ := along m
        obtain ⟨rank'', after, _, less⟩ := here.step lawful (steps m)
        have shifted (n : Nat)
            : IterStep type (conf (m + 1 + n)) (event (m + 1 + n)) (conf (m + 1 + (n + 1))) :=
          steps (m + 1 + n)
        obtain ⟨n, rest⟩ := ih rank'' ((less cell returned).trans_le below) shifted after
        refine ⟨m + 1 + n, fun k late => ?_⟩
        obtain ⟨j, rfl⟩ := Nat.exists_eq_add_of_le (show m + 1 ≤ k by omega)
        exact rest j (by omega)

end Invariant

/-- Every iteration with a safe iterator is exact, whatever keys its user finds, adds and replaces
and whichever returned elements it deletes in between. `dictNext` does not fail; it returns no
element twice, and when it returns `NULL` every element that was present at the start has been
returned in its turn. It returns `NULL` after finitely many elements.
-/
theorem safe_iteration_exact {type : DictType K V} (lawful : type.Lawful) {start : DictState K V}
    (wf : start.dict.WellFormed type)
    : (∀ events conf, IterRun type start events conf →
        NoneTwice type events
        ∧ ∃ found iter dict,
            dictNext conf.s.dict conf.iter = .ok (found, iter, dict)
            ∧ (∀ cell, found = some cell → cell ∈ conf.s.dict.entries)
            ∧ (found = none → ∀ cell ∈ start.dict.entries, ReturnedInTurn type events cell))
      ∧ ∀ (conf : Nat → IterConf K V) (event : Nat → IterEvent K V),
          conf 0 = .begin start
          → (∀ n, IterStep type (conf n) (event n) (conf (n + 1)))
          → ∃ n, ∀ m ≥ n, ∀ cell, event m ≠ .returned cell := by
  have reply {events : List (IterEvent K V)} {d after : Dict K V} {coming : List (DictEntry K V)}
      {left length : Nat} {found : Option (DictEntry K V)} {iter : DictIterator K} {dict : Dict K V}
      (accounts : Accounts type start.dict events d coming)
      (next : NextResult after left length coming (found, iter, dict))
      : (∀ cell, found = some cell → cell ∈ d.entries)
        ∧ (found = none → ∀ cell ∈ start.dict.entries, ReturnedInTurn type events cell) := by
    cases next with
    | done =>
        refine ⟨nofun, fun _ cell member => ?_⟩
        rcases accounts.covered cell member with inTurn | ⟨_, there, inComing, _⟩
        · exact inTurn
        · cases inComing
    | cell =>
        refine ⟨?_, nofun⟩
        rintro cell same
        cases same
        exact accounts.part.subset List.mem_cons_self
  constructor
  · intro events conf run
    rcases run.iterating lawful wf with ⟨rfl, rfl⟩ | ⟨rank, iterating⟩
    · obtain ⟨⟨found, iter, dict⟩, call, next⟩ := dictNext_start lawful wf
      exact ⟨trivial, found, iter, dict, call, reply (.initial wf) next⟩
    · obtain ⟨idx, pre, suf, standing, _, accounts, _⟩ := iterating.place
      obtain ⟨⟨found, iter, dict⟩, call, next⟩ := dictNext_standing lawful accounts.wf standing
      exact ⟨accounts.once, found, iter, dict, call, reply accounts next⟩
  · intro conf event begins steps
    obtain ⟨rank, iterating⟩ := Iterating.first lawful wf (begins ▸ steps 0)
    obtain ⟨n, quiet⟩ := iterating.ends lawful (fun n => steps (n + 1))
    exact ⟨n + 1, fun m late => by
      obtain ⟨k, rfl⟩ := Nat.exists_eq_add_of_le' (show 1 ≤ m by omega)
      exact quiet k (by omega)⟩

/-- A dictionary in a rehash from four to eight buckets, with a chain in the first bucket of the old
table and one in the sixth of the new table.
-/
def rehashingTables (first sixth : List (DictEntry Nat Nat)) (iterators : Nat)
    : DictState Nat Nat where
  dict := {
    ht0 := { table := [first, [], [], []], size := 4, sizemask := 3, used := first.length }
    ht1 := {
      table := [[], [], [], [], [], sixth, [], []]
      size := 8
      sizemask := 7
      used := sixth.length }
    rehashidx := some 0
    iterators }
  canResize := true

/-- The theorem at an iteration that deletes the first key it is given and adds another one. -/
theorem safe_iteration_exact_rehashing
    : ∃ events conf,
        IterRun natDictType (rehashingTables [⟨4, 0⟩] [] 0) events conf
        ∧ events.length = 4
        ∧ NoneTwice natDictType events
        ∧ ReturnedInTurn natDictType events ⟨4, 0⟩ := by
  have added : DictReachable natDictType
      { dict := {
          ht0 := { table := [[⟨4, 0⟩], [], [], []], size := 4, sizemask := 3, used := 1 }
          ht1 := dictReset
          rehashidx := none
          iterators := 0 }
        canResize := true } :=
    .step (.create true) (show (DictOp.add 4 0).step natDictType _ = .ok (.status true, _) by rfl)
      trivial
  have reached : DictReachable natDictType (rehashingTables [⟨4, 0⟩] [] 0) :=
    .step added (show (DictOp.expand 8).step natDictType _ = .ok (.status true, _) by rfl)
      (Or.inr (Or.inr (Or.inl (by decide))))
  have first : IterStep natDictType (.begin (rehashingTables [⟨4, 0⟩] [] 0)) (.returned ⟨4, 0⟩)
      ⟨rehashingTables [⟨4, 0⟩] [] 1, ⟨false, some 0, some 4, none⟩, some ⟨4, 0⟩⟩ :=
    .next (show dictNext _ _ = .ok (some ⟨4, 0⟩, _, _) by rfl)
  have second : IterStep natDictType
      ⟨rehashingTables [⟨4, 0⟩] [] 1, ⟨false, some 0, some 4, none⟩, some ⟨4, 0⟩⟩
      (.called (.delete 4))
      ⟨rehashingTables [] [] 1, ⟨false, some 0, some 4, none⟩, some ⟨4, 0⟩⟩ :=
    .call (show dictCompareKeys natDictType 4 4 = true by decide)
      (show (DictOp.delete 4).step natDictType _ = .ok (.status true, _) by rfl)
  have third : IterStep natDictType
      ⟨rehashingTables [] [] 1, ⟨false, some 0, some 4, none⟩, some ⟨4, 0⟩⟩
      (.called (.add 5 0))
      ⟨rehashingTables [] [⟨5, 0⟩] 1, ⟨false, some 0, some 4, none⟩, some ⟨4, 0⟩⟩ :=
    .call trivial (show (DictOp.add 5 0).step natDictType _ = .ok (.status true, _) by rfl)
  have fourth : IterStep natDictType
      ⟨rehashingTables [] [⟨5, 0⟩] 1, ⟨false, some 0, some 4, none⟩, some ⟨4, 0⟩⟩
      (.returned ⟨5, 0⟩)
      ⟨rehashingTables [] [⟨5, 0⟩] 1, ⟨true, some 5, some 5, none⟩, some ⟨5, 0⟩⟩ :=
    .next (show dictNext _ _ = .ok (some ⟨5, 0⟩, _, _) by rfl)
  have run := IterRun.start.step first |>.step second |>.step third |>.step fourth
  obtain ⟨twice, found, iter, dict, call, _, ended⟩ :=
    (safe_iteration_exact natDictType_lawful (reached.wellFormed natDictType_lawful)).1 _ _ run
  have last
      : dictNext (rehashingTables [] [⟨5, 0⟩] 1).dict ⟨true, some 5, some 5, none⟩
        = .ok (none, ⟨true, some 8, none, none⟩, (rehashingTables [] [⟨5, 0⟩] 1).dict) := by
    rfl
  cases call.symm.trans last
  exact ⟨_, _, run, rfl, twice, ended rfl ⟨4, 0⟩ (by decide)⟩

end Redis
