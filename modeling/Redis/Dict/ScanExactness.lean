import Redis.Dict.ScanCompleteness

/-! An iteration with `dictScan` over a dictionary that does not change: it takes as many calls as
the smaller table has buckets and passes every entry to the callback once.
-/

namespace Redis

open Redis.Library

variable {K V : Type}

/-- Calling `dictScan` until it returns zero: the number of calls and the entries passed to the
callback, in order.
-/
def scanLoop (d : Dict K V)
    : (rounds : Nat) → (v : BitVec 64) → Except Fault (Nat × List (DictEntry K V))
  | 0, _ => .error .diverged
  | rounds + 1, v => do
      let (next, out) ← dictScan d v
      if next = 0 then pure (1, out)
      else do
        let (calls, rest) ← scanLoop d rounds next
        pure (calls + 1, out ++ rest)

/-- The number of buckets of the smaller table in use. -/
def Dict.scanSize (d : Dict K V) : Nat :=
  if d.isRehashing then min d.ht0.size d.ht1.size else d.ht0.size

-- Buckets by number

def Dictht.chain (ht : Dictht K V) (idx : Nat) : List (DictEntry K V) := ht.table[idx]?.getD []

theorem Dictht.flatMap_chain (ht : Dictht K V) {indices : List Nat}
    (all : indices.Perm (List.range ht.table.length))
    : (indices.flatMap ht.chain).Perm ht.entries := by
  have chains : (List.range ht.table.length).map ht.chain = ht.table := by
    apply List.ext_getElem
    · simp
    · intro i inside found
      simp [Dictht.chain, List.getElem?_eq_getElem found]
  have ordered : (List.range ht.table.length).flatMap ht.chain = ht.entries := by
    rw [List.flatMap_def, chains, Dictht.entries]
  rw [← ordered]
  exact all.flatMap_right _

section Calls

variable {type : DictType K V} {bits : Nat}

theorem Dictht.WellFormed.cursor_chain {ht : Dictht K V} (wf : ht.WellFormed type)
    (bound : bits ≤ 60) (size : ht.size = 2 ^ bits) (v : BitVec 64)
    : ht.bucket (v &&& ht.mask).toNat = .ok (ht.chain (v.toNat % 2 ^ bits)) := by
  have inside : v.toNat % 2 ^ bits < ht.table.length := by
    rw [wf.length, size]
    exact Nat.mod_lt _ (Nat.two_pow_pos bits)
  rw [wf.mask_eq size, toNat_and_lowMask bound, Dictht.bucket, Dictht.chain,
    List.getElem?_eq_getElem inside]
  rfl

theorem mod_high_eq {low high : Nat} (ordered : low ≤ high) (v : BitVec 64)
    : v.toNat % 2 ^ high = v.toNat % 2 ^ low + 2 ^ low * expansion low high v := by
  have split : (2 : Nat) ^ high = 2 ^ low * 2 ^ (high - low) := by
    rw [← Nat.pow_add, Nat.add_sub_cancel' ordered]
  rw [split, Nat.mod_mul, expansion]

theorem scanExpansions_exact {t1 : Dictht K V} (wf : t1.WellFormed type) {low high : Nat}
    (ordered : low ≤ high) (bound : high ≤ 60) (size : t1.size = 2 ^ high) (rounds : Nat)
    (v : BitVec 64) {left : Nat} (place : expansion low high v + left + 1 = 2 ^ (high - low))
    (enough : left < rounds)
    : ∃ next,
        scanExpansions t1 (lowMask low) rounds v
          = .ok (next, (List.range' (expansion low high v) (left + 1)).flatMap fun j =>
              t1.chain (v.toNat % 2 ^ low + 2 ^ low * j))
        ∧ next.toNat % 2 ^ low = v.toNat % 2 ^ low := by
  induction left generalizing rounds v with
  | zero =>
      obtain ⟨rounds, rfl⟩ : ∃ fewer, rounds = fewer + 1 := ⟨rounds - 1, by omega⟩
      obtain ⟨expanded, kept⟩ := expansion_next ordered bound v
      have read := wf.cursor_chain bound size v
      have top : expansion low high v + 1 = 2 ^ (high - low) := by omega
      rw [top, Nat.mod_self] at expanded
      have stops : nextExpansion v (lowMask low) &&& (lowMask low ^^^ lowMask high) = 0 :=
        (expansion_eq_zero_iff ordered bound _).mpr expanded
      refine ⟨nextExpansion v (lowMask low), ?_, kept⟩
      rw [wf.mask_eq size, mod_high_eq ordered] at read
      simp only [scanExpansions, wf.mask_eq size, read, ok_andThen]
      rw [if_pos stops]
      simp [pure, Except.pure]
  | succ left ih =>
      obtain ⟨rounds, rfl⟩ : ∃ fewer, rounds = fewer + 1 := ⟨rounds - 1, by omega⟩
      obtain ⟨expanded, kept⟩ := expansion_next ordered bound v
      have read := wf.cursor_chain bound size v
      rw [Nat.mod_eq_of_lt (by omega)] at expanded
      have continues : nextExpansion v (lowMask low) &&& (lowMask low ^^^ lowMask high) ≠ 0 := by
        rw [Ne, expansion_eq_zero_iff ordered bound, expanded]
        exact Nat.succ_ne_zero _
      obtain ⟨next, run, lows⟩ :=
        ih rounds (nextExpansion v (lowMask low)) (by rw [expanded]; omega) (by omega)
      refine ⟨next, ?_, lows.trans kept⟩
      rw [wf.mask_eq size, mod_high_eq ordered] at read
      simp only [scanExpansions, wf.mask_eq size, read, ok_andThen]
      rw [if_neg continues, run, expanded, kept]
      simp [pure, Except.pure, Bind.bind, Except.bind, List.range'_succ]

-- One call

def scanCursor (bits i : Nat) : BitVec 64 := reversedCount 64 bits i

theorem scanCursor_lt (bound : bits ≤ 60) (i : Nat) : (scanCursor bits i).toNat < 2 ^ bits :=
  toNat_reversedCount_lt (by omega) i

theorem scanCursor_mod (bound : bits ≤ 60) (i : Nat)
    : (scanCursor bits i).toNat % 2 ^ bits = (scanCursor bits i).toNat :=
  Nat.mod_eq_of_lt (scanCursor_lt bound i)

theorem nextCursor_scanCursor {bits i : Nat} (bound : bits ≤ 60) (inside : i < 2 ^ bits)
    {v : BitVec 64} (lows : v.toNat % 2 ^ bits = (scanCursor bits i).toNat)
    : nextCursor v (lowMask bits) = scanCursor bits (i + 1) := by
  have low : ∀ j < bits, v.getLsbD j = (reversedCount 64 bits i).getLsbD j := by
    intro j small
    have read := congrArg (Nat.testBit · j) lows
    simpa [Nat.testBit_mod_two_pow, small, BitVec.testBit_toNat, scanCursor] using read
  have fits : bits ≤ 64 := by omega
  have reversed : (nextCursor v (lowMask bits)).reverse = (scanCursor bits (i + 1)).reverse := by
    rw [nextCursor_reverse]
    exact reversedCount_succ fits (fun j _ => lowMask_getLsbD bound j) low inside
  rw [← BitVec.reverse_reverse_eq (x := nextCursor v (lowMask bits)), reversed,
    BitVec.reverse_reverse_eq]

/-- What the callbacks of the call with cursor number `i` receive: the chain of its bucket in the
smaller table, and those of all expansions in the larger one.
-/
def Dict.visited (d : Dict K V) (low high i : Nat) : List (DictEntry K V) :=
  if d.isRehashing then
    d.scanTables.1.chain (scanCursor low i).toNat
      ++ (List.range (2 ^ (high - low))).flatMap fun j =>
        d.scanTables.2.chain ((scanCursor low i).toNat + 2 ^ low * j)
  else d.ht0.chain (scanCursor low i).toNat

/-- The tables that a scan reads, as powers of two. -/
structure Dict.ScanShape (type : DictType K V) (d : Dict K V) (low high : Nat) : Prop where
  ordered : low ≤ high
  bound : high ≤ 60
  smaller : d.scanSize = 2 ^ low
  idle : d.isRehashing = false → d.ht0.size = 2 ^ low ∧ d.ht1.entries = []
  size0 : d.isRehashing = true → d.scanTables.1.size = 2 ^ low
  size1 : d.isRehashing = true → d.scanTables.2.size = 2 ^ high
  ht0 : d.ht0.WellFormed type
  first : d.scanTables.1.WellFormed type
  second : d.scanTables.2.WellFormed type

theorem Dict.scanShape [DecidableEq K] {d : Dict K V} (wf : d.WellFormed type)
    (nonempty : d.size ≠ 0)
    : ∃ low high, d.ScanShape type low high := by
  have both : d.scanTables.1.WellFormed type ∧ d.scanTables.2.WellFormed type := by
    unfold Dict.scanTables
    split
    · exact ⟨wf.ht1, wf.ht0⟩
    · exact ⟨wf.ht0, wf.ht1⟩
  cases rehashing : d.isRehashing with
  | false =>
      have quiet : d.rehashidx = none := by simpa [Dict.isRehashing] using rehashing
      have second := wf.idle quiet
      have allocated : d.ht0.size ≠ 0 := by
        intro zero
        have first := wf.ht0.used
        rw [Dictht.entries, List.eq_nil_of_length_eq_zero (wf.ht0.length.trans zero)] at first
        apply nonempty
        simp [Dict.size, second, dictReset, first]
      obtain ⟨bits, bound, size⟩ := wf.ht0.power.resolve_left allocated
      refine ⟨bits, bits, {
        ordered := le_rfl
        bound
        smaller := by simp [Dict.scanSize, rehashing, size]
        idle := fun _ => ⟨size, by rw [second]; rfl⟩
        size0 := fun busy => by simp [rehashing] at busy
        size1 := fun busy => by simp [rehashing] at busy
        ht0 := wf.ht0
        first := both.1
        second := both.2 }⟩
  | true =>
      obtain ⟨low, high, ordered, bound, size0, size1, _⟩ := Dict.scanTables_cases wf rehashing
      have smaller : d.scanSize = 2 ^ low := by
        rw [Dict.scanSize, if_pos rehashing, ← size0]
        unfold Dict.scanTables
        split
        · rename_i larger
          exact min_eq_right larger.le
        · rename_i small
          exact min_eq_left (Nat.le_of_not_lt small)
      exact ⟨low, high, ordered, bound, smaller, fun idle => by simp [rehashing] at idle,
        fun _ => size0, fun _ => size1, wf.ht0, both.1, both.2⟩

variable {d : Dict K V} {low high : Nat}

theorem Dict.ScanShape.call (shape : d.ScanShape type low high) (nonempty : d.size ≠ 0) {i : Nat}
    (inside : i < 2 ^ low)
    : dictScan d (scanCursor low i) = .ok (scanCursor low (i + 1), d.visited low high i) := by
  have bound : low ≤ 60 := le_trans shape.ordered shape.bound
  have self := scanCursor_mod bound i
  unfold dictScan Dict.visited
  rw [if_neg nonempty]
  cases rehashing : d.isRehashing with
  | false =>
      have size := (shape.idle rehashing).1
      have read := shape.ht0.cursor_chain bound size (scanCursor low i)
      rw [self] at read
      simp only [Bool.not_false, if_true, Bool.false_eq_true, if_false, read, ok_andThen]
      rw [shape.ht0.mask_eq size, nextCursor_scanCursor bound inside self]
      rfl
  | true =>
      obtain ⟨size0, size1⟩ := And.intro (shape.size0 rehashing) (shape.size1 rehashing)
      obtain ⟨wf0, wf1⟩ := And.intro shape.first shape.second
      generalize d.scanTables = tables at *
      obtain ⟨t0, t1⟩ := tables
      dsimp only at size0 size1 wf0 wf1 ⊢
      have read := wf0.cursor_chain bound size0 (scanCursor low i)
      have start : expansion low high (scanCursor low i) = 0 := by
        rw [expansion, Nat.div_eq_of_lt (scanCursor_lt bound i), Nat.zero_mod]
      have positive := Nat.two_pow_pos (high - low)
      have fewer : 2 ^ (high - low) ≤ 2 ^ high := Nat.pow_le_pow_right (by decide) (by omega)
      obtain ⟨after, run, lows⟩ :=
        scanExpansions_exact wf1 shape.ordered shape.bound size1 t1.size (scanCursor low i)
          (show _ + (2 ^ (high - low) - 1) + 1 = _ by omega) (by omega)
      rw [wf0.mask_eq size0, self] at read
      rw [self] at run lows
      rw [start, Nat.sub_add_cancel positive, ← List.range_eq_range'] at run
      simp only [Bool.not_true, Bool.false_eq_true, if_false, if_true, read, ok_andThen,
        wf0.mask_eq size0, run]
      rw [nextCursor_scanCursor bound inside lows]
      rfl

-- The whole iteration

theorem Dict.ScanShape.loop (shape : d.ScanShape type low high) (nonempty : d.size ≠ 0)
    (left : Nat) {rounds i : Nat} (place : i + left + 1 = 2 ^ low) (enough : left < rounds)
    : scanLoop d rounds (scanCursor low i)
      = .ok (left + 1, (List.range' i (left + 1)).flatMap (d.visited low high)) := by
  obtain ⟨rounds, rfl⟩ : ∃ fewer, rounds = fewer + 1 := ⟨rounds - 1, by omega⟩
  have fits : low ≤ 64 := by
    have ordered := shape.ordered
    have bound := shape.bound
    omega
  have call := shape.call nonempty (show i < 2 ^ low by omega)
  induction left generalizing i rounds with
  | zero =>
      have last : scanCursor low (i + 1) = 0 := by
        rw [show i + 1 = 2 ^ low by omega]
        exact reversedCount_round fits
      rw [scanLoop, call, ok_andThen]
      dsimp only
      rw [if_pos last]
      simp [pure, Except.pure]
  | succ left ih =>
      obtain ⟨rounds, rfl⟩ : ∃ fewer, rounds = fewer + 1 := ⟨rounds - 1, by omega⟩
      have more : scanCursor low (i + 1) ≠ 0 :=
        reversedCount_ne_zero fits (Nat.succ_ne_zero i) (by omega)
      have rest := ih (i := i + 1) (by omega) rounds (by omega)
        (shape.call nonempty (by omega))
      rw [scanLoop, call, ok_andThen]
      dsimp only
      rw [if_neg more, rest, ok_andThen, List.range'_succ, List.flatMap_cons]
      rfl

theorem perm_scanCursor (bound : bits ≤ 60)
    : ((List.range (2 ^ bits)).map fun i => (scanCursor bits i).toNat).Perm
        (List.range (2 ^ bits)) :=
  perm_reversedCount (by omega)

theorem perm_expansions (ordered : low ≤ high)
    : ((List.range (2 ^ low)).flatMap fun r =>
        (List.range (2 ^ (high - low))).map fun j => r + 2 ^ low * j).Perm
      (List.range (2 ^ high)) := by
  have split : (2 : Nat) ^ high = 2 ^ low * 2 ^ (high - low) := by
    rw [← Nat.pow_add, Nat.add_sub_cancel' ordered]
  have positive := Nat.two_pow_pos low
  have remainder {r j : Nat} (small : r < 2 ^ low) : (r + 2 ^ low * j) % 2 ^ low = r := by
    rw [Nat.add_mul_mod_self_left, Nat.mod_eq_of_lt small]
  have different
      : ((List.range (2 ^ low)).flatMap fun r =>
          (List.range (2 ^ (high - low))).map fun j => r + 2 ^ low * j).Nodup := by
    refine List.nodup_flatMap.mpr ⟨fun r _ => ?_, ?_⟩
    · refine List.Nodup.map (fun i j same => ?_) List.nodup_range
      exact Nat.eq_of_mul_eq_mul_left positive (Nat.add_left_cancel same)
    · refine List.nodup_range.imp_of_mem fun {r s} inR inS apart n left right => apart ?_
      obtain ⟨i, _, rfl⟩ := List.mem_map.mp left
      obtain ⟨j, _, same⟩ := List.mem_map.mp right
      have remainders := congrArg (· % 2 ^ low) same
      simp only [remainder (List.mem_range.mp inR), remainder (List.mem_range.mp inS)] at remainders
      exact remainders.symm
  have within
      : ((List.range (2 ^ low)).flatMap fun r =>
          (List.range (2 ^ (high - low))).map fun j => r + 2 ^ low * j)
        ⊆ List.range (2 ^ high) := by
    intro n member
    obtain ⟨r, inR, inner⟩ := List.mem_flatMap.mp member
    obtain ⟨j, inJ, rfl⟩ := List.mem_map.mp inner
    rw [List.mem_range] at inR inJ ⊢
    calc
      r + 2 ^ low * j < 2 ^ low + 2 ^ low * j := by omega
      _ = 2 ^ low * (j + 1) := by rw [Nat.mul_succ, Nat.add_comm]
      _ ≤ 2 ^ high := by
        rw [split]
        exact Nat.mul_le_mul_left _ inJ
  refine (List.subperm_of_subset different within).perm_of_length_le ?_
  simp [List.length_flatMap, split]

theorem Dict.ScanShape.visited_perm (shape : d.ScanShape type low high)
    : ((List.range (2 ^ low)).flatMap (d.visited low high)).Perm d.entries := by
  have bound : low ≤ 60 := le_trans shape.ordered shape.bound
  have cursors := perm_scanCursor bound
  have smaller (ht : Dictht K V) (wf : ht.WellFormed type) (size : ht.size = 2 ^ low)
      : ((List.range (2 ^ low)).flatMap fun i => ht.chain (scanCursor low i).toNat).Perm
          ht.entries := by
    have indices
        : ((List.range (2 ^ low)).map fun i => (scanCursor low i).toNat).Perm
            (List.range ht.table.length) := by
      rw [wf.length, size]
      exact cursors
    have all := ht.flatMap_chain indices
    rwa [List.flatMap_map] at all
  cases rehashing : d.isRehashing with
  | false =>
      obtain ⟨size, none⟩ := shape.idle rehashing
      have visits
          : d.visited low high = fun i => d.ht0.chain (scanCursor low i).toNat := by
        funext i
        simp [Dict.visited, rehashing]
      rw [visits, Dict.entries, none, List.append_nil]
      exact smaller d.ht0 shape.ht0 size
  | true =>
      have visits
          : d.visited low high = fun i =>
              d.scanTables.1.chain (scanCursor low i).toNat
                ++ (List.range (2 ^ (high - low))).flatMap fun j =>
                  d.scanTables.2.chain ((scanCursor low i).toNat + 2 ^ low * j) := by
        funext i
        simp [Dict.visited, rehashing]
      have larger
          : ((List.range (2 ^ low)).flatMap fun i =>
              (List.range (2 ^ (high - low))).flatMap fun j =>
                d.scanTables.2.chain ((scanCursor low i).toNat + 2 ^ low * j)).Perm
            d.scanTables.2.entries := by
        have indices := (cursors.flatMap_right fun r =>
          (List.range (2 ^ (high - low))).map fun j => r + 2 ^ low * j).trans
          (perm_expansions shape.ordered)
        rw [← shape.size1 rehashing, ← shape.second.length] at indices
        have all := d.scanTables.2.flatMap_chain indices
        simpa only [List.flatMap_map, List.flatMap_assoc] using all
      have tables : (d.scanTables.1.entries ++ d.scanTables.2.entries).Perm d.entries := by
        unfold Dict.scanTables
        split
        · exact List.perm_append_comm
        · exact .rfl
      rw [visits]
      calc
        (List.flatMap _ (List.range (2 ^ low))).Perm _ := (List.flatMap_append_perm _ _ _).symm
        List.Perm _ (d.scanTables.1.entries ++ d.scanTables.2.entries) :=
          (smaller _ shape.first (shape.size0 rehashing)).append larger
        List.Perm _ d.entries := tables

/-- An iteration with `dictScan` from zero over a dictionary that does not change, rehashing or not,
returns to zero after as many calls as the smaller table in use has buckets, and the callbacks
receive every entry of both tables exactly once.
-/
theorem scan_exact [DecidableEq K] (wf : d.WellFormed type) (nonempty : d.size ≠ 0)
    : ∃ out,
        (∀ rounds, d.scanSize ≤ rounds → scanLoop d rounds 0 = .ok (d.scanSize, out))
        ∧ out.Perm d.entries := by
  obtain ⟨low, high, shape⟩ := Dict.scanShape wf nonempty
  have positive := Nat.two_pow_pos low
  refine ⟨_, fun rounds enough => ?_, shape.visited_perm⟩
  have start : scanCursor low 0 = 0 := reversedCount_zero
  rw [shape.smaller] at enough ⊢
  have run : scanLoop d rounds (scanCursor low 0) = _ :=
    shape.loop nonempty (2 ^ low - 1) (by omega) (by omega)
  rwa [start, Nat.sub_add_cancel positive, ← List.range_eq_range'] at run

end Calls

/-- The theorem at a table of four buckets that grows to eight. -/
theorem scan_exact_growing
    : ∃ out,
        (∀ rounds, 4 ≤ rounds → scanLoop (holdingFour fourBuckets 8).dict rounds 0 = .ok (4, out))
        ∧ out.Perm [⟨4, 0⟩] := by
  have added : DictReachable natDictType (holdingFour fourBuckets 0) :=
    .step (.create true)
      (show (DictOp.add 4 0).step natDictType _ = .ok (.status true, _) by rfl) trivial
  have reached : DictReachable natDictType (holdingFour fourBuckets 8) :=
    .step added (show (DictOp.expand 8).step natDictType _ = .ok (.status true, _) by rfl)
      (Or.inr (Or.inr (Or.inl (by decide))))
  exact scan_exact (reached.wellFormed natDictType_lawful) (by decide)

end Redis
