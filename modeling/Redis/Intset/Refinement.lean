import Redis.Intset.Model

/-! The operations of `intset.c` as operations on sorted lists of integers. -/

namespace Redis

open Redis.Library

variable {pos : Nat}

/-- The values that an encoding can hold. -/
def IntsetEncoding.Holds (enc : IntsetEncoding) (v : Int) : Prop :=
  -(256 ^ enc.size : Nat) ≤ v * 2 ∧ v * 2 < (256 ^ enc.size : Nat)

theorem IntsetEncoding.Holds.wider {enc wide : IntsetEncoding} {v : Int} (held : enc.Holds v)
    (larger : enc.size ≤ wide.size)
    : wide.Holds v := by
  have powers : 256 ^ enc.size ≤ 256 ^ wide.size := Nat.pow_le_pow_right (by decide) larger
  obtain ⟨low, high⟩ := held
  exact ⟨by omega, by omega⟩

theorem holds_iff {enc : IntsetEncoding} {v : Int} (word : IntsetEncoding.int64.Holds v)
    : enc.Holds v ↔ (intsetValueEncoding v).size ≤ enc.size := by
  unfold intsetValueEncoding IntsetEncoding.Holds at *
  simp only [IntsetEncoding.size, Nat.reducePow, Nat.cast_ofNat] at word
  cases enc <;> split <;> (try split) <;>
    simp only [IntsetEncoding.size, Nat.reducePow, Nat.cast_ofNat] <;> omega

def encodeAll (enc : IntsetEncoding) (xs : List Int) : List UInt8 :=
  xs.flatMap (signedBytes enc.size)

section Encoded

variable {enc : IntsetEncoding}

@[simp] theorem encodeAll_nil : encodeAll enc [] = [] := rfl

@[simp] theorem encodeAll_cons (x : Int) (xs : List Int)
    : encodeAll enc (x :: xs) = signedBytes enc.size x ++ encodeAll enc xs := rfl

@[simp] theorem encodeAll_append (xs ys : List Int)
    : encodeAll enc (xs ++ ys) = encodeAll enc xs ++ encodeAll enc ys :=
  List.flatMap_append

@[simp] theorem length_encodeAll (xs : List Int)
    : (encodeAll enc xs).length = xs.length * enc.size := by
  induction xs with
  | nil => simp
  | cons x xs ih => simp [ih, Nat.succ_mul, Nat.add_comm]

theorem intsetGetEncoded_split {contents : List UInt8} {xs : List Int} {x : Int} {post : List UInt8}
    (split : contents = encodeAll enc xs ++ signedBytes enc.size x ++ post)
    (place : xs.length = pos) (held : enc.Holds x)
    : intsetGetEncoded contents pos enc = .ok x := by
  have read : readBytes contents (pos * enc.size) enc.size = .ok (signedBytes enc.size x) :=
    readBytes_split split (by simp [place]) (length_signedBytes _ _)
  rw [intsetGetEncoded, read, ok_andThen, signedValue_signedBytes held.1 held.2]
  rfl

end Encoded

/-- A block that holds a list of values in increasing order. -/
structure Intset.Represents (is : Intset) (xs : List Int) : Prop where
  length : is.length = xs.length
  contents : is.contents = encodeAll is.encoding xs
  sorted : xs.Pairwise (· < ·)
  wide : ∀ x ∈ xs, is.encoding.Holds x

section Represented

variable {is : Intset} {xs : List Int} (holds : is.Represents xs)
include holds

theorem Intset.Represents.get {x : Int} (found : xs[pos]? = some x)
    : intsetGetAt is pos = .ok x := by
  obtain ⟨inside, rfl⟩ := List.getElem?_eq_some_iff.mp found
  have parts : xs = xs.take pos ++ xs[pos] :: xs.drop (pos + 1) := by simp
  have split
      : is.contents
        = encodeAll is.encoding (xs.take pos) ++ signedBytes is.encoding.size xs[pos]
          ++ encodeAll is.encoding (xs.drop (pos + 1)) := by
    calc
      is.contents
      _ = encodeAll is.encoding (xs.take pos ++ xs[pos] :: xs.drop (pos + 1)) := by
        rw [← parts, holds.contents]
      _ = _ := by rw [encodeAll_append, encodeAll_cons, List.append_assoc]
  exact intsetGetEncoded_split split (by simp; omega) (holds.wide _ (List.getElem_mem inside))

theorem Intset.Represents.elements : is.elements = .ok xs := by
  have reads : ∀ (count : Nat), count ≤ xs.length →
      (List.range count).mapM (intsetGetAt is) = .ok (xs.take count) := by
    intro count
    induction count with
    | zero =>
        intro _
        rfl
    | succ count ih =>
        intro inside
        rw [List.range_succ, List.mapM_append, ih (by omega),
          List.take_succ_eq_append_getElem (by omega)]
        have here := holds.get (List.getElem?_eq_getElem (show count < xs.length by omega))
        simp [here]
  rw [Intset.elements, holds.length, reads _ (Nat.le_refl _), List.take_length]

end Represented

section Search

variable {xs : List Int} {value : Int}

/-- The bounds of a binary search: the values before `lo` are too small and those from `hi`
on too large.
-/
structure SearchBounds (xs : List Int) (value : Int) (lo hi : Nat) : Prop where
  ordered : lo ≤ hi
  inside : hi ≤ xs.length
  below : ∀ x ∈ xs.take lo, x < value
  above : ∀ x ∈ xs.drop hi, value < x

theorem sorted_around (sorted : xs.Pairwise (· < ·)) {m : Nat} (inside : m < xs.length)
    : (∀ x ∈ xs.take (m + 1), x ≤ xs[m]) ∧ ∀ x ∈ xs.drop m, xs[m] ≤ x := by
  have parts : xs = xs.take m ++ xs[m] :: xs.drop (m + 1) := by simp
  rw [parts, List.pairwise_append, List.pairwise_cons] at sorted
  obtain ⟨_, ⟨after, _⟩, across⟩ := sorted
  constructor
  · intro x member
    rw [List.take_succ_eq_append_getElem inside, List.mem_append, List.mem_singleton] at member
    rcases member with before | rfl
    · exact (across x before xs[m] List.mem_cons_self).le
    · exact le_rfl
  · intro x member
    rw [List.drop_eq_getElem_cons inside, List.mem_cons] at member
    rcases member with rfl | later
    · exact le_rfl
    · exact (after x later).le

theorem SearchBounds.raise {lo hi m : Nat} (bounds : SearchBounds xs value lo hi)
    (sorted : xs.Pairwise (· < ·)) (inside : m < xs.length) (small : m < hi)
    (greater : xs[m] < value)
    : SearchBounds xs value (m + 1) hi where
  ordered := small
  inside := bounds.inside
  below := fun x member => lt_of_le_of_lt ((sorted_around sorted inside).1 x member) greater
  above := bounds.above

theorem SearchBounds.lower {lo hi m : Nat} (bounds : SearchBounds xs value lo hi)
    (sorted : xs.Pairwise (· < ·)) (inside : m < xs.length) (large : lo ≤ m)
    (less : value < xs[m])
    : SearchBounds xs value lo m where
  ordered := large
  inside := inside.le
  below := bounds.below
  above := fun x member => lt_of_lt_of_le less ((sorted_around sorted inside).2 x member)

/-- What a search finds: the value at its place, or the place where it belongs. -/
inductive SearchOutcome (xs : List Int) (value : Int) : Bool → Nat → Prop
  | found {pos : Nat} (here : xs[pos]? = some value) : SearchOutcome xs value true pos
  | absent {pos : Nat} (bounds : SearchBounds xs value pos pos) : SearchOutcome xs value false pos

theorem SearchBounds.not_mem (bounds : SearchBounds xs value pos pos) : value ∉ xs := by
  intro member
  rw [← List.take_append_drop pos xs, List.mem_append] at member
  rcases member with before | after
  · exact lt_irrefl _ (bounds.below _ before)
  · exact lt_irrefl _ (bounds.above _ after)

theorem intsetSearchLoop_ok {is : Intset} (holds : is.Represents xs) (rounds : Nat)
    {lo hi : Nat} (bounds : SearchBounds xs value lo hi) (enough : hi - lo < rounds)
    (mid cur : Int) (stale : lo < hi ∨ cur ≠ value)
    : ∃ min mid' cur',
        intsetSearchLoop is value rounds lo (hi - 1) mid cur = .ok (min, mid', cur')
        ∧ SearchOutcome xs value (decide (value = cur'))
          (if value = cur' then mid'.toNat else min.toNat) := by
  induction rounds generalizing lo hi mid cur with
  | zero => omega
  | succ rounds ih =>
      rcases Nat.eq_or_lt_of_le bounds.ordered with rfl | nonempty
      · have differs : value ≠ cur := (stale.resolve_left (Nat.lt_irrefl _)).symm
        refine ⟨lo, mid, cur, ?_, ?_⟩
        · rw [intsetSearchLoop, if_neg (by omega)]
          rfl
        · simpa [differs] using SearchOutcome.absent bounds
      · obtain ⟨m, middle⟩ : ∃ m : Nat, ((lo : Int) + (hi - 1)) / 2 = m :=
          ⟨_, (Int.toNat_of_nonneg (by omega)).symm⟩
        have least : lo ≤ m := by omega
        have small : m < hi := by omega
        have inside : m < xs.length := lt_of_lt_of_le small bounds.inside
        have read := holds.get (List.getElem?_eq_getElem inside)
        rw [intsetSearchLoop, if_pos (by omega)]
        simp only [middle, Int.toNat_natCast, read, ok_andThen]
        rcases lt_trichotomy value xs[m] with less | same | greater
        · rw [if_neg (by omega), if_pos less]
          exact ih (bounds.lower holds.sorted inside least less) (by omega) m xs[m]
            (Or.inr less.ne')
        · rw [if_neg (by omega), if_neg (by omega)]
          refine ⟨lo, m, xs[m], rfl, ?_⟩
          simpa [same] using SearchOutcome.found (List.getElem?_eq_getElem inside)
        · rw [if_pos greater]
          have next := ih (bounds.raise holds.sorted inside small greater) (by omega) m xs[m]
            (Or.inr greater.ne)
          simpa using next

theorem intsetSearch_ok {is : Intset} (holds : is.Represents xs) (value : Int)
    : ∃ found pos,
        intsetSearch is value = .ok (found, pos) ∧ SearchOutcome xs value found pos := by
  unfold intsetSearch
  cases xs with
  | nil =>
      have empty : is.length = 0 := holds.length
      rw [if_pos empty]
      exact ⟨false, 0, rfl, .absent ⟨le_rfl, le_rfl, by simp, by simp⟩⟩
  | cons head rest =>
      have length : is.length = rest.length + 1 := holds.length
      have last :=
        holds.get (List.getElem?_eq_getElem (show rest.length < (head :: rest).length by simp))
      have first := holds.get (show (head :: rest)[0]? = some head from rfl)
      rw [if_neg (by omega), length, Nat.add_sub_cancel]
      simp only [last, first, ok_andThen]
      split
      · rename_i greater
        refine ⟨false, rest.length + 1, rfl, .absent ⟨le_rfl, le_rfl, fun x member => ?_, by simp⟩⟩
        exact lt_of_le_of_lt ((sorted_around holds.sorted (m := rest.length) (by simp)).1 x member)
          greater
      split
      · rename_i less
        refine ⟨false, 0, rfl, .absent ⟨le_rfl, Nat.zero_le _, by simp, fun x member => ?_⟩⟩
        exact lt_of_lt_of_le less ((sorted_around holds.sorted (m := 0) (by simp)).2 x member)
      · have bounds : SearchBounds (head :: rest) value 0 (rest.length + 1) :=
          ⟨Nat.zero_le _, by simp, by simp, by simp⟩
        obtain ⟨min, mid, cur, run, outcome⟩ := intsetSearchLoop_ok holds (rest.length + 1 + 1)
          bounds (by omega) (-1) (-1) (Or.inl (by omega))
        refine ⟨decide (value = cur), if value = cur then mid.toNat else min.toNat, ?_, outcome⟩
        simp only [Nat.cast_zero] at run
        rw [run, ok_andThen]
        split <;> simp_all

end Search

-- Changing the set

def Intset.encodingWith (is : Intset) (value : Int) : IntsetEncoding :=
  if (intsetValueEncoding value).size > is.encoding.size then intsetValueEncoding value
  else is.encoding

/-- The size of the grown block is below `2 ^ 32`. -/
def Intset.RoomFor (is : Intset) (value : Int) : Prop :=
  (is.length + 1) * (is.encodingWith value).size < 2 ^ 32

theorem SearchBounds.insert_sorted {xs : List Int} {value : Int}
    (bounds : SearchBounds xs value pos pos) (sorted : xs.Pairwise (· < ·))
    : (xs.take pos ++ value :: xs.drop pos).Pairwise (· < ·) := by
  have old := sorted
  rw [← List.take_append_drop pos xs, List.pairwise_append] at old
  obtain ⟨before, after, across⟩ := old
  refine List.pairwise_append.mpr ⟨before, List.pairwise_cons.mpr ⟨bounds.above, after⟩, ?_⟩
  intro x left y right
  rcases List.mem_cons.mp right with rfl | later
  · exact bounds.below x left
  · exact across x left y later

theorem mem_insert_at {xs : List Int} {value x : Int} (pos : Nat)
    : x ∈ xs.take pos ++ value :: xs.drop pos ↔ x = value ∨ x ∈ xs := by
  have parts : x ∈ xs ↔ x ∈ xs.take pos ∨ x ∈ xs.drop pos := by
    rw [← List.mem_append, List.take_append_drop]
  rw [List.mem_append, List.mem_cons, parts]
  exact or_left_comm

theorem extreme_of_wider {enc : IntsetEncoding} {value x : Int}
    (word : IntsetEncoding.int64.Holds value)
    (wider : (intsetValueEncoding value).size > enc.size) (held : enc.Holds x)
    : if value < 0 then value < x else x < value := by
  have outside : ¬enc.Holds value := by
    rw [holds_iff word]
    exact Nat.not_le.mpr wider
  unfold IntsetEncoding.Holds at held outside
  split <;> omega

/-- Re-encoding from the last element down: the unread elements stay in front of the bytes
already written, since an old element never ends after the new one.
-/
theorem intsetUpgradeLoop_ok {curenc newenc : IntsetEncoding} (prepend : Nat)
    (wider : curenc.size ≤ newenc.size) (xs : List Int) (wide : ∀ x ∈ xs, curenc.Holds x)
    (pref tail : List UInt8) (old : encodeAll curenc xs <+: pref)
    (length : pref.length = (xs.length + prepend) * newenc.size)
    : ∃ gap,
        intsetUpgradeLoop curenc newenc prepend xs.length (pref ++ tail)
          = .ok (gap ++ encodeAll newenc xs ++ tail)
        ∧ gap.length = prepend * newenc.size := by
  induction xs using List.reverseRecOn generalizing pref tail with
  | nil => exact ⟨pref, by simp [intsetUpgradeLoop], by simpa using length⟩
  | append_singleton ys x ih =>
      obtain ⟨rest, rfl⟩ := old
      rw [encodeAll_append, encodeAll_cons, encodeAll_nil, List.append_nil] at length ⊢
      have read
          : intsetGetEncoded
              (encodeAll curenc ys ++ signedBytes curenc.size x ++ rest ++ tail) ys.length curenc
            = .ok x :=
        intsetGetEncoded_split (by rw [List.append_assoc _ rest tail]) rfl
          (wide x (by simp))
      obtain ⟨block, blockEq⟩
          : ∃ block, block = encodeAll curenc ys ++ signedBytes curenc.size x ++ rest := ⟨_, rfl⟩
      rw [← blockEq] at length read ⊢
      have room : ys.length * curenc.size ≤ (ys.length + prepend) * newenc.size :=
        Nat.mul_le_mul (Nat.le_add_right _ _) wider
      have total : block.length = (ys.length + prepend) * newenc.size + newenc.size := by
        rw [length, List.length_append, List.length_singleton, Nat.add_right_comm, Nat.succ_mul]
      obtain ⟨kept, keptEq⟩ : ∃ kept, kept = block.take ((ys.length + prepend) * newenc.size) :=
        ⟨_, rfl⟩
      have keptLength : kept.length = (ys.length + prepend) * newenc.size := by
        rw [keptEq, List.length_take]
        omega
      have oldest : encodeAll curenc ys <+: kept := by
        refine List.prefix_of_prefix_length_le ?_ (keptEq ▸ List.take_prefix _ block)
          (by rw [length_encodeAll, keptLength]; exact room)
        rw [blockEq, List.append_assoc]
        exact List.prefix_append _ _
      have written
          : intsetSet (block ++ tail) newenc (ys.length + prepend) x
            = .ok (kept ++ signedBytes newenc.size x ++ tail) := by
        refine writeBytes_split
          (show block ++ tail
            = kept ++ block.drop ((ys.length + prepend) * newenc.size) ++ tail from ?_)
          keptLength ?_
        · rw [keptEq, List.take_append_drop]
        · rw [length_signedBytes, List.length_drop]
          omega
      obtain ⟨gap, run, gapLength⟩ := ih (fun y member => wide y (by simp [member])) kept
        (signedBytes newenc.size x ++ tail) oldest keptLength
      refine ⟨gap, ?_, gapLength⟩
      rw [List.length_append, List.length_singleton, intsetUpgradeLoop]
      simp only [read, ok_andThen, written]
      rw [List.append_assoc kept, run]
      simp

section Changes

variable {is : Intset} {xs : List Int} {value : Int}

theorem length_of_moveTail {source target : Nat} {moves : Prop} [Decidable moves] {next : Intset}
    (run : (if moves then intsetMoveTail is source target else pure is) = .ok next)
    : next.length = is.length
      ∧ next.encoding = is.encoding
      ∧ next.contents.length = is.contents.length := by
  split at run
  · obtain ⟨contents, moved, same⟩ := andThen_ok_iff.mp run
    cases same
    exact ⟨rfl, rfl, length_of_moveBytes moved⟩
  · cases run
    exact ⟨rfl, rfl, rfl⟩

theorem length_of_upgradeLoop {curenc newenc : IntsetEncoding} {prepend count : Nat}
    {contents next : List UInt8}
    (run : intsetUpgradeLoop curenc newenc prepend count contents = .ok next)
    : next.length = contents.length := by
  induction count generalizing contents with
  | zero => cases run; rfl
  | succ count ih =>
      obtain ⟨x, _, run⟩ := andThen_ok_iff.mp run
      obtain ⟨mid, written, run⟩ := andThen_ok_iff.mp run
      rw [ih run, length_of_writeBytes written]

theorem intsetUpgradeAndAdd_ok (fresh : Nat → UInt8) (holds : is.Represents xs)
    (word : IntsetEncoding.int64.Holds value)
    (wider : (intsetValueEncoding value).size > is.encoding.size)
    (room : (is.length + 1) * (intsetValueEncoding value).size < 2 ^ 32)
    : ∃ next pos,
        intsetUpgradeAndAdd fresh is value = .ok next
        ∧ next.encoding = intsetValueEncoding value
        ∧ SearchBounds xs value pos pos
        ∧ next.Represents (xs.take pos ++ value :: xs.drop pos) := by
  obtain ⟨newenc, new⟩ : ∃ newenc, newenc = intsetValueEncoding value := ⟨_, rfl⟩
  rw [← new] at wider room
  have held : newenc.Holds value := (holds_iff word).mpr (by rw [new])
  have others : ∀ x ∈ xs, newenc.Holds x := fun x member =>
    (holds.wide x member).wider wider.le
  have extreme := fun x member => extreme_of_wider word (new ▸ wider) (holds.wide x member)
  obtain ⟨block, resized⟩
      : ∃ block,
          block = (intsetResize fresh { is with encoding := newenc } (is.length + 1)).contents :=
    ⟨_, rfl⟩
  have length : block.length = (xs.length + 1) * newenc.size := by
    rw [resized, intsetResize, length_resizeBytes, ← holds.length]
    exact Nat.mod_eq_of_lt room
  have old : encodeAll is.encoding xs <+: block := by
    rw [resized, intsetResize, ← holds.contents]
    refine prefix_resizeBytes fresh ?_
    rw [Nat.mod_eq_of_lt room, holds.contents, length_encodeAll, holds.length]
    exact Nat.mul_le_mul (Nat.le_succ _) wider.le
  unfold intsetUpgradeAndAdd
  simp only [← new, ← resized]
  rcases lt_or_ge value 0 with negative | positive
  · -- The new value is the smallest: everything moves up by one place.
    simp only [negative, if_true] at extreme ⊢
    obtain ⟨gap, run, gapLength⟩ := intsetUpgradeLoop_ok 1 wider.le xs holds.wide block []
      old length
    have written
        : intsetSet (gap ++ encodeAll newenc xs ++ []) newenc 0 value
          = .ok (encodeAll newenc (value :: xs)) := by
      refine (writeBytes_split (show _ = [] ++ gap ++ encodeAll newenc xs by simp) (by simp)
        (by simp [gapLength])).trans ?_
      rfl
    rw [List.append_nil, ← holds.length] at run
    simp only [run, ok_andThen, written]
    have bounds : SearchBounds xs value 0 0 :=
      ⟨le_rfl, Nat.zero_le _, by simp, fun x member => extreme x (by simpa using member)⟩
    refine ⟨_, 0, rfl, rfl, bounds, ⟨?_, rfl, bounds.insert_sorted holds.sorted, ?_⟩⟩
    · simp [holds.length]
    · intro x member
      rcases (mem_insert_at 0).mp member with rfl | inside
      · exact held
      · exact others x inside
  · simp only [not_lt.mpr positive, if_false] at extreme ⊢
    have front : (block.take (xs.length * newenc.size)).length = xs.length * newenc.size := by
      rw [List.length_take, length, Nat.succ_mul]
      omega
    obtain ⟨gap, run, gapLength⟩ := intsetUpgradeLoop_ok 0 wider.le xs holds.wide
      (block.take (xs.length * newenc.size)) (block.drop (xs.length * newenc.size))
      (List.prefix_of_prefix_length_le old (List.take_prefix _ _) (by
        rw [front, length_encodeAll]
        exact Nat.mul_le_mul le_rfl wider.le)) front
    obtain rfl : gap = [] := List.eq_nil_of_length_eq_zero (by simpa using gapLength)
    have written
        : intsetSet ([] ++ encodeAll newenc xs ++ block.drop (xs.length * newenc.size)) newenc
            is.length value
          = .ok (encodeAll newenc (xs ++ [value])) := by
      refine (writeBytes_split
        (show _ = encodeAll newenc xs ++ block.drop (xs.length * newenc.size) ++ [] by simp)
        (by simp [holds.length]) ?_).trans (by simp)
      rw [length_signedBytes, List.length_drop, length, Nat.succ_mul]
      omega
    rw [List.take_append_drop, ← holds.length] at run
    rw [← holds.length] at written
    simp only [run, ok_andThen, written, Nat.zero_ne_one, if_false]
    have bounds : SearchBounds xs value xs.length xs.length :=
      ⟨le_rfl, le_rfl, fun x member => extreme x (by simpa using member), by simp⟩
    refine ⟨_, xs.length, rfl, rfl, bounds, ⟨?_, ?_, bounds.insert_sorted holds.sorted, ?_⟩⟩
    · simp [holds.length]
    · simp
    · intro x member
      rcases (mem_insert_at xs.length).mp member with rfl | inside
      · exact held
      · exact others x inside

theorem length_of_upgradeAndAdd {fresh : Nat → UInt8} {next : Intset}
    (run : intsetUpgradeAndAdd fresh is value = .ok next)
    : next.length = is.length + 1
      ∧ next.encoding = intsetValueEncoding value
      ∧ next.contents.length
        = (is.length + 1) * (intsetValueEncoding value).size % 2 ^ 32 := by
  obtain ⟨upgraded, loop, run⟩ := andThen_ok_iff.mp run
  obtain ⟨contents, written, run⟩ := andThen_ok_iff.mp run
  cases run
  refine ⟨rfl, rfl, ?_⟩
  rw [length_of_writeBytes written, length_of_upgradeLoop loop]
  simp [intsetResize]

theorem Intset.inside_of_elements {ys : List Int} (decoded : is.elements = .ok ys)
    (some : is.length ≠ 0)
    : is.length * is.encoding.size ≤ is.contents.length := by
  obtain ⟨count, succ⟩ := Nat.exists_eq_succ_of_ne_zero some
  rw [Intset.elements, succ, List.range_succ, List.mapM_append] at decoded
  obtain ⟨_, _, decoded⟩ := andThen_ok_iff.mp decoded
  obtain ⟨_, last, _⟩ := andThen_ok_iff.mp decoded
  simp only [List.mapM_cons, andThen_ok_iff] at last
  obtain ⟨_, read, _⟩ := last
  obtain ⟨_, bytes, _⟩ := andThen_ok_iff.mp read
  rw [succ, Nat.succ_mul]
  exact inside_of_readBytes bytes

theorem insertAt_ok (fresh : Nat → UInt8) (holds : is.Represents xs) (value : Int)
    (room : (is.length + 1) * is.encoding.size < 2 ^ 32) (inside : pos ≤ xs.length)
    : ∃ mid,
        (if pos < (intsetResize fresh is (is.length + 1)).length then
            intsetMoveTail (intsetResize fresh is (is.length + 1)) pos (pos + 1)
          else pure (intsetResize fresh is (is.length + 1)))
          = .ok { is with contents := mid }
        ∧ intsetSet mid is.encoding pos value
          = .ok (encodeAll is.encoding (xs.take pos ++ value :: xs.drop pos)) := by
  obtain ⟨enc, encEq⟩ : ∃ enc, enc = is.encoding := ⟨_, rfl⟩
  obtain ⟨block, resized⟩
      : ∃ block, block = (intsetResize fresh is (is.length + 1)).contents := ⟨_, rfl⟩
  have state : intsetResize fresh is (is.length + 1) = { is with contents := block } := by
    rw [resized]
    rfl
  have size : (is.length + 1) * is.encoding.size % 2 ^ 32 = (xs.length + 1) * enc.size := by
    rw [Nat.mod_eq_of_lt room, holds.length, encEq]
  have length : block.length = (xs.length + 1) * enc.size := by
    rw [resized, intsetResize, length_resizeBytes, size]
  obtain ⟨slack, old⟩ : encodeAll enc xs <+: block := by
    rw [resized, intsetResize, encEq, ← holds.contents]
    refine prefix_resizeBytes fresh ?_
    rw [size, holds.contents, length_encodeAll, encEq]
    exact Nat.mul_le_mul (Nat.le_succ _) le_rfl
  have slackLength : slack.length = enc.size := by
    have total := congrArg List.length old
    rw [List.length_append, length_encodeAll, length, Nat.succ_mul] at total
    omega
  have parts : encodeAll enc xs = encodeAll enc (xs.take pos) ++ encodeAll enc (xs.drop pos) := by
    rw [← encodeAll_append, List.take_append_drop]
  have taken : (xs.take pos).length = pos := by simp [inside]
  rw [state, ← encEq]
  dsimp only
  rcases Nat.lt_or_ge pos is.length with before | last
  · rw [if_pos before]
    have width : (xs.drop pos).length * enc.size < 2 ^ 32 := by
      refine lt_of_le_of_lt ?_ (encEq ▸ room)
      rw [List.length_drop, holds.length]
      exact Nat.mul_le_mul (by omega) le_rfl
    -- The bytes from the insertion point on, and the same place one element later.
    have source : block = encodeAll enc (xs.take pos) ++ encodeAll enc (xs.drop pos) ++ slack := by
      rw [← old, parts]
    obtain ⟨first, shifted, whole, firstLength⟩
        : ∃ first shifted,
            encodeAll enc (xs.drop pos) ++ slack = first ++ shifted ∧ first.length = enc.size := by
      refine ⟨_, _, (List.take_append_drop enc.size _).symm, ?_⟩
      rw [List.length_take, List.length_append, slackLength]
      omega
    have shiftedLength : shifted.length = (xs.drop pos).length * enc.size := by
      have total := congrArg List.length whole
      simp only [List.length_append, length_encodeAll] at total
      omega
    have target : block = encodeAll enc (xs.take pos) ++ first ++ shifted ++ [] := by
      rw [source, List.append_assoc, whole]
      simp
    have moved
        : moveBytes block ((pos + 1) * enc.size) (pos * enc.size)
            ((is.length - pos) * enc.size % 2 ^ 32)
          = .ok (encodeAll enc (xs.take pos) ++ first ++ encodeAll enc (xs.drop pos) ++ []) := by
      rw [holds.length, ← List.length_drop, Nat.mod_eq_of_lt width]
      refine moveBytes_split source ?_ (length_encodeAll _) target ?_ shiftedLength
      · rw [length_encodeAll, taken]
      · rw [List.length_append, length_encodeAll, taken, firstLength, Nat.succ_mul]
    refine ⟨encodeAll enc (xs.take pos) ++ first ++ encodeAll enc (xs.drop pos), ?_, ?_⟩
    · rw [intsetMoveTail]
      simp only [moved, ok_andThen, List.append_nil]
      rfl
    · rw [encodeAll_append, encodeAll_cons, ← List.append_assoc]
      refine writeBytes_split rfl ?_ ?_
      · rw [length_encodeAll, taken]
      · rw [length_signedBytes, firstLength]
  · obtain rfl : pos = xs.length := by
      have total := holds.length
      omega
    rw [if_neg (by omega)]
    refine ⟨block, rfl, ?_⟩
    rw [List.take_length, List.drop_length, encodeAll_append, encodeAll_cons, encodeAll_nil]
    have write := writeBytes_split (show block = encodeAll enc xs ++ slack ++ [] by simp [old])
      (length_encodeAll xs) (show (signedBytes enc.size value).length = slack.length by
        rw [length_signedBytes, slackLength])
    simpa [intsetSet] using write

theorem removeAt_ok (holds : is.Represents xs) (room : is.length * is.encoding.size < 2 ^ 32)
    (inside : pos < xs.length)
    : ∃ mid slack,
        (if pos < is.length - 1 then intsetMoveTail is (pos + 1) pos else pure is)
          = .ok { is with contents := mid }
        ∧ mid = encodeAll is.encoding (xs.take pos ++ xs.drop (pos + 1)) ++ slack := by
  obtain ⟨enc, encEq⟩ : ∃ enc, enc = is.encoding := ⟨_, rfl⟩
  have taken : (xs.take pos).length = pos := by simp [inside.le]
  have source
      : is.contents
        = encodeAll enc (xs.take (pos + 1)) ++ encodeAll enc (xs.drop (pos + 1)) ++ [] := by
    rw [← encodeAll_append, List.take_append_drop, holds.contents, encEq, List.append_nil]
  rw [← encEq]
  rcases Nat.lt_or_ge pos (is.length - 1) with before | last
  · rw [if_pos before]
    have width : (xs.drop (pos + 1)).length * enc.size < 2 ^ 32 := by
      refine lt_of_le_of_lt ?_ (encEq ▸ room)
      rw [List.length_drop, holds.length]
      exact Nat.mul_le_mul (Nat.sub_le _ _) le_rfl
    obtain ⟨shifted, slack, whole, shiftedLength⟩
        : ∃ shifted slack,
            encodeAll enc (xs.drop pos) = shifted ++ slack
            ∧ shifted.length = (xs.drop (pos + 1)).length * enc.size := by
      refine ⟨_, _, (List.take_append_drop ((xs.drop (pos + 1)).length * enc.size) _).symm, ?_⟩
      rw [List.length_take, length_encodeAll]
      refine Nat.min_eq_left (Nat.mul_le_mul ?_ le_rfl)
      simp only [List.length_drop]
      omega
    have target : is.contents = encodeAll enc (xs.take pos) ++ shifted ++ slack := by
      rw [List.append_assoc, ← whole, ← encodeAll_append, List.take_append_drop, holds.contents,
        encEq]
    have moved
        : moveBytes is.contents (pos * enc.size) ((pos + 1) * enc.size)
            ((is.length - (pos + 1)) * enc.size % 2 ^ 32)
          = .ok (encodeAll enc (xs.take pos) ++ encodeAll enc (xs.drop (pos + 1)) ++ slack) := by
      rw [holds.length, ← List.length_drop, Nat.mod_eq_of_lt width]
      refine moveBytes_split source ?_ (length_encodeAll _) target ?_ shiftedLength
      · rw [length_encodeAll, List.length_take, Nat.min_eq_left inside]
      · rw [length_encodeAll, taken]
    refine ⟨_, slack, ?_, by rw [encodeAll_append]⟩
    rw [intsetMoveTail, ← encEq]
    simp only [moved, ok_andThen]
    rfl
  · have final : xs.drop (pos + 1) = [] := by
      apply List.drop_eq_nil_of_le
      have total := holds.length
      omega
    rw [if_neg (by omega)]
    refine ⟨is.contents, encodeAll enc (xs.drop pos), by rw [encEq]; rfl, ?_⟩
    rw [final, List.append_nil, ← encodeAll_append, List.take_append_drop, holds.contents, encEq]

theorem intsetAdd_cases (fresh : Nat → UInt8) (holds : is.Represents xs)
    (word : IntsetEncoding.int64.Holds value)
    : (value ∈ xs ∧ intsetAdd fresh is value = .ok (false, is))
      ∨ (value ∉ xs
          ∧ is.RoomFor value
          ∧ ∃ next ys,
              intsetAdd fresh is value = .ok (true, next)
              ∧ next.Represents ys
              ∧ (∀ x, x ∈ ys ↔ x = value ∨ x ∈ xs)
              ∧ next.length = is.length + 1
              ∧ next.encoding = is.encodingWith value)
      ∨ (value ∉ xs
          ∧ ¬is.RoomFor value
          ∧ ∀ success next ys,
              intsetAdd fresh is value = .ok (success, next) → next.elements ≠ .ok ys) := by
  unfold intsetAdd Intset.RoomFor Intset.encodingWith
  rcases Nat.lt_or_ge is.encoding.size (intsetValueEncoding value).size with wider | narrow
  · simp only [gt_iff_lt, wider, if_true]
    have absent : value ∉ xs := by
      intro member
      have held := (holds_iff word).mp (holds.wide value member)
      omega
    by_cases room : (is.length + 1) * (intsetValueEncoding value).size < 2 ^ 32
    · obtain ⟨next, pos, run, encoding, bounds, represents⟩ :=
        intsetUpgradeAndAdd_ok fresh holds word wider room
      exact Or.inr (Or.inl ⟨absent, room, next, _, by simp [run], represents,
        fun x => mem_insert_at pos, (length_of_upgradeAndAdd run).1, encoding⟩)
    · refine Or.inr (Or.inr ⟨absent, room, fun success next ys run decoded => ?_⟩)
      obtain ⟨result, upgraded, same⟩ := andThen_ok_iff.mp run
      cases same
      obtain ⟨length, encoding, allocated⟩ := length_of_upgradeAndAdd upgraded
      have inside := Intset.inside_of_elements decoded (by omega)
      rw [length, encoding, allocated] at inside
      have truncated := Nat.mod_lt ((is.length + 1) * (intsetValueEncoding value).size)
        (show 0 < 2 ^ 32 by decide)
      omega
  · simp only [gt_iff_lt, Nat.not_lt.mpr narrow, if_false]
    obtain ⟨found, pos, search, outcome⟩ := intsetSearch_ok holds value
    simp only [search, ok_andThen]
    cases outcome with
    | found here => exact Or.inl ⟨List.mem_of_getElem? here, rfl⟩
    | absent bounds =>
        have absent := bounds.not_mem
        by_cases room : (is.length + 1) * is.encoding.size < 2 ^ 32
        · obtain ⟨mid, moved, written⟩ := insertAt_ok fresh holds value room bounds.inside
          refine Or.inr (Or.inl ⟨absent, room,
            { is with
              length := is.length + 1
              contents := encodeAll is.encoding (xs.take pos ++ value :: xs.drop pos) },
            xs.take pos ++ value :: xs.drop pos, ?_, ?_, fun x => mem_insert_at pos, rfl,
            rfl⟩)
          · simp only [Bool.false_eq_true, if_false, moved, ok_andThen, written]
            rfl
          · refine ⟨?_, rfl, bounds.insert_sorted holds.sorted, ?_⟩
            · have total := bounds.inside
              simp [holds.length]
              omega
            · intro x member
              rcases (mem_insert_at pos).mp member with rfl | inside
              · exact (holds_iff word).mpr narrow
              · exact holds.wide x inside
        · refine Or.inr (Or.inr ⟨absent, room, fun success next ys run decoded => ?_⟩)
          simp only [Bool.false_eq_true, if_false, andThen_ok_iff] at run
          obtain ⟨moved, tail, contents, written, same⟩ := run
          cases same
          obtain ⟨length, encoding, size⟩ := length_of_moveTail tail
          have inside := Intset.inside_of_elements decoded (Nat.succ_ne_zero _)
          simp only [length, encoding, length_of_writeBytes written, size, intsetResize,
            length_resizeBytes] at inside
          have truncated := Nat.mod_lt ((is.length + 1) * is.encoding.size)
            (show 0 < 2 ^ 32 by decide)
          omega

theorem intsetRemove_ok (fresh : Nat → UInt8) (holds : is.Represents xs)
    (room : is.length * is.encoding.size < 2 ^ 32) (word : IntsetEncoding.int64.Holds value)
    : ∃ next ys,
        intsetRemove fresh is value = .ok (decide (value ∈ xs), next)
        ∧ next.Represents ys
        ∧ (∀ x, x ∈ ys ↔ x ≠ value ∧ x ∈ xs)
        ∧ next.encoding = is.encoding
        ∧ next.length ≤ is.length := by
  have unchanged (absent : value ∉ xs) : ∀ x, x ∈ xs ↔ x ≠ value ∧ x ∈ xs := by
    intro x
    exact ⟨fun member => ⟨fun same => absent (same ▸ member), member⟩, And.right⟩
  unfold intsetRemove
  rcases Nat.lt_or_ge is.encoding.size (intsetValueEncoding value).size with wider | narrow
  · have absent : value ∉ xs := by
      intro member
      have held := (holds_iff word).mp (holds.wide value member)
      omega
    rw [if_neg (by omega)]
    exact ⟨is, xs, by simp [absent], holds, unchanged absent, rfl, le_rfl⟩
  · rw [if_pos narrow]
    obtain ⟨found, pos, search, outcome⟩ := intsetSearch_ok holds value
    simp only [search, ok_andThen]
    cases outcome with
    | absent bounds =>
        exact ⟨is, xs, by simp [bounds.not_mem], holds, unchanged bounds.not_mem, rfl, le_rfl⟩
    | @found pos here =>
        obtain ⟨inside, valueAt⟩ := List.getElem?_eq_some_iff.mp here
        obtain ⟨mid, slack, moved, split⟩ := removeAt_ok holds room inside
        have kept : xs.take pos ++ xs.drop (pos + 1) = xs.eraseIdx pos := by
          rw [List.eraseIdx_eq_take_drop_succ]
        have count : (xs.eraseIdx pos).length = is.length - 1 := by
          rw [List.length_eraseIdx_of_lt inside, holds.length]
        refine ⟨{ is with
            length := is.length - 1
            contents := encodeAll is.encoding (xs.eraseIdx pos) },
          xs.eraseIdx pos, ?_, ⟨count.symm, rfl, ?_, ?_⟩, ?_, rfl, Nat.sub_le _ _⟩
        · have shrunk
              : intsetResize fresh { is with contents := mid } (is.length - 1)
                = { is with contents := encodeAll is.encoding (xs.eraseIdx pos) } := by
            have small : (is.length - 1) * is.encoding.size < 2 ^ 32 :=
              lt_of_le_of_lt (Nat.mul_le_mul (Nat.sub_le _ _) le_rfl) room
            rw [intsetResize]
            simp only [Nat.mod_eq_of_lt small]
            rw [resizeBytes_shrink fresh (kept ▸ split) (by rw [length_encodeAll, count])]
          simp only [if_true, moved, ok_andThen, shrunk, List.mem_of_getElem? here, decide_true]
          rfl
        · exact holds.sorted.sublist (List.eraseIdx_sublist _ _)
        · exact fun x member => holds.wide x (List.mem_of_mem_eraseIdx member)
        · intro x
          have distinct : xs.Nodup := holds.sorted.imp (fun less => less.ne)
          rw [← distinct.erase_getElem pos inside, valueAt]
          exact distinct.mem_erase_iff

theorem intsetFind_ok (holds : is.Represents xs) (word : IntsetEncoding.int64.Holds value)
    : intsetFind is value = .ok (decide (value ∈ xs)) := by
  unfold intsetFind
  rcases Nat.lt_or_ge is.encoding.size (intsetValueEncoding value).size with wider | narrow
  · have absent : value ∉ xs := by
      intro member
      have held := (holds_iff word).mp (holds.wide value member)
      omega
    rw [if_neg (by omega)]
    simp [absent]
  · rw [if_pos narrow]
    obtain ⟨found, pos, search, outcome⟩ := intsetSearch_ok holds value
    simp only [search, ok_andThen]
    cases outcome with
    | found here => simp [List.mem_of_getElem? here]
    | absent bounds => simp [bounds.not_mem]

end Changes

end Redis
