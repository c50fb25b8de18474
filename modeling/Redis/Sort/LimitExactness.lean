import Redis.Sort.LimitSlice

/-! When `SORT` emits exactly the slice that `LIMIT` asks for. -/

namespace Redis.Sort

open Redis.Keyspace (Sds ObjectDb Element longLong)
open Redis.Library
open Redis.SideIndexes (Moment)

section Windows

variable {plan : Plan} {n : Nat}

theorem int32_le (n : Nat) : int32 n ≤ n ∧ int32 n < 2 ^ 31 ∧ (n < 2 ^ 31 ↔ int32 n = n) := by
  have most : (n : Int).bmod (2 ^ 32) < 2 ^ 31 :=
    lt_of_lt_of_eq (Int.bmod_lt (by decide)) (by norm_num)
  unfold int32
  by_cases short : n < 2 ^ 31
  · have same : (n : Int).bmod (2 ^ 32) = n := Int.bmod_eq_of_le (by omega) (by omega)
    omega
  · omega

theorem longLong_overflow {v : Int} (above : 2 ^ 63 ≤ v) (below : v < 2 ^ 64)
    : longLong v = v - 2 ^ 64 := by
  have cancel : longLong (v - 2 ^ 64) = longLong v := by
    have modulus : (2 : Int) ^ 64 = ((2 ^ 64 : Nat) : Int) := by norm_num
    rw [longLong, longLong, modulus, Int.sub_bmod_right]
  rw [← cancel]
  exact (Keyspace.longLong_eq_self_iff _).mpr ⟨by omega, by omega⟩

theorem limitWindow_eq (limitStart limitCount vectorlen : Int)
    : limitWindow limitStart limitCount vectorlen
      = if vectorlen ≤ limitStart.toNat then ⟨vectorlen - 1, vectorlen - 2⟩
        else
          ⟨limitStart.toNat,
            min (vectorlen - 1)
              (if limitCount < 0 then vectorlen - 1
                else longLong (limitStart.toNat + limitCount - 1))⟩ := by
  have start : (if limitStart < 0 then 0 else limitStart) = limitStart.toNat := by
    split <;> omega
  rw [limitWindow, start]
  generalize (if limitCount < 0 then _ else _) = last
  by_cases behind : vectorlen ≤ limitStart.toNat
  · rw [if_pos behind, if_pos behind, if_neg (by dsimp only; omega)]
  · rw [if_neg behind, if_neg behind]
    congr 1
    dsimp only
    split <;> omega

theorem limitWindow_size (bounded : plan.limitCount < 2 ^ 63) (n : Nat)
    : ((limitWindow plan.limitStart plan.limitCount (int32 n)).last
          - (limitWindow plan.limitStart plan.limitCount (int32 n)).start + 1 = limitSize plan n
        ↔ limitSize plan n = 0 ∨ WindowFits plan n)
      ∧ (0 < limitSize plan n → WindowFits plan n →
        (limitWindow plan.limitStart plan.limitCount (int32 n)).start = plan.limitStart.toNat) := by
  obtain ⟨least, most, same⟩ := int32_le n
  rw [limitWindow_eq]
  unfold limitSize WindowFits
  generalize int32 n = vectorlen at *
  generalize plan.limitStart.toNat = S
  generalize plan.limitCount = C at *
  by_cases behind : vectorlen ≤ S
  · rw [if_pos behind]
    dsimp only
    refine ⟨⟨fun size => ?_, fun fits => ?_⟩, fun some' fits => ?_⟩
    all_goals
      by_cases all : C < 0
      · rw [if_pos all] at *
        omega
      · rw [if_neg all] at *
        omega
  · rw [if_neg behind]
    dsimp only
    refine ⟨?_, fun _ _ => rfl⟩
    by_cases all : C < 0
    · rw [if_pos all, if_pos all]
      constructor
      · omega
      · omega
    · rw [if_neg all, if_neg all]
      by_cases small : S + C ≤ 2 ^ 63
      · rw [(Keyspace.longLong_eq_self_iff _).mpr ⟨by omega, by omega⟩]
        constructor
        · omega
        · omega
      · rw [longLong_overflow (by omega) (by omega)]
        constructor
        · omega
        · omega

theorem limitWindow_fits (bounded : plan.limitCount < 2 ^ 63) (some' : 0 < limitSize plan n)
    (fits : WindowFits plan n)
    : limitWindow plan.limitStart plan.limitCount (int32 n)
      = ⟨plan.limitStart.toNat, plan.limitStart.toNat + limitSize plan n - 1⟩ := by
  obtain ⟨size, start⟩ := limitWindow_size bounded n
  have sized := size.mpr (.inr fits)
  have started := start some' fits
  generalize limitWindow plan.limitStart plan.limitCount (int32 n) = w at sized started ⊢
  obtain ⟨first, last⟩ := w
  dsimp only at sized started
  rw [Window.mk.injEq]
  omega

end Windows

section Orders

variable {F : Type} [LinearOrder F] [Zero F] {env : Env F} {plan : Plan} {db next : ObjectDb Robj}
  {moment : Moment}
  {s : Weighing} {items : List Element} {sortval : Robj} {argv : List Sds}

/-- An element with what it is sorted by. -/
def weightedObject (env : Env F) (plan : Plan) (db : ObjectDb Robj) (moment : Moment)
    (obj : Element)
    : SortObject F :=
  match weightOf plan db moment obj with
  | none => ⟨obj, 0, none⟩
  | some byval =>
      if plan.alpha then ⟨obj, 0, if plan.sortby.isSome then some byval.text else none⟩
      else
        match byval with
        | .bytes text => ⟨obj, (env.strtod (Keyspace.cString text)).value.getD 0, none⟩
        | .integer v => ⟨obj, env.ofLong v, none⟩

/-- The elements as they are without sorting. -/
def nativeElements (desc : Bool) (items : List Element) : Robj → List Element
  | .zset zset => nativeOrder desc zset
  | _ => items

/-- The elements in their order: the native one, or one that sorting gives, where the slice is in
order with all others.
-/
def Arranged (env : Env F) (plan : Plan) (db : ObjectDb Robj) (moment : Moment) (sortval : Robj)
    (items s : List Element) : Prop :=
  if plan.dontsort then s = nativeElements plan.desc items sortval
  else
    ∃ t : List (SortObject F), t.Perm (items.map (weightedObject env plan db moment))
      ∧ InOrderAt (sortCompare env plan) plan.limitStart.toNat (limitSize plan items.length) t
      ∧ s = t.map SortObject.obj

omit [LinearOrder F] in
theorem weighAll_eq (env : Env F) (plan : Plan) (only : ObjectDb.OnlyExpired moment db s.db)
    (objs : List Element)
    : (weighAll env moment plan s objs).1 = objs.map (weightedObject env plan db moment)
      ∧ ObjectDb.OnlyExpired moment db (weighAll env moment plan s objs).2.db := by
  induction objs generalizing s with
  | nil => exact ⟨rfl, only⟩
  | cons obj rest ih =>
      obtain ⟨expired, -⟩ := weigh_ok env plan only obj
      obtain ⟨others, expired'⟩ := ih expired
      have first : (weigh env moment plan s obj).1 = weightedObject env plan db moment obj := by
        rw [weigh, weightedObject, ← (byValue_ok plan only obj).1]
        generalize byValue moment plan s obj = looked
        obtain ⟨after, byval⟩ := looked
        cases byval with
        | none => rfl
        | some byval =>
            dsimp only
            split
            · rfl
            · cases byval <;> rfl
      rw [weighAll]
      exact ⟨by rw [List.map_cons, ← first, ← others], expired'⟩

theorem Arranged.length {s' : List Element}
    (arranged : Arranged env plan db moment sortval items s')
    (is : sortable sortval = some items)
    : s'.length = items.length := by
  unfold Arranged at arranged
  split at arranged
  · rw [arranged]
    cases sortval with
    | zset zset =>
        cases is
        rw [zset.perm.length_eq, nativeElements]
        unfold nativeOrder
        split
        · rw [List.length_reverse]
        · rfl
    | _ => rfl
  · obtain ⟨t, perm, -, rfl⟩ := arranged
    rw [List.length_map, perm.length_eq, List.length_map]

theorem sortOptions_limit {clusterEnabled : Bool} {skip j : Nat} {args : List Sds}
    {read final : SortArguments}
    (bounded : read.limitCount < 2 ^ 63)
    (accepted : sortOptions clusterEnabled skip j args read = .ok final)
    : final.limitCount < 2 ^ 63 := by
  induction args generalizing skip j read with
  | nil =>
      have same : read = final := by
        cases skip <;> exact Except.ok.inj accepted
      rw [← same]
      exact bounded
  | cons word args ih =>
      cases skip with
      | succ skip => exact ih bounded accepted
      | zero =>
          obtain ⟨⟨skip, next⟩, option, rest⟩ := andThen_ok_iff.mp accepted
          refine ih ?_ rest
          unfold sortOption at option
          split_ifs at option
          all_goals
            try cases option
            try exact bounded
          split at option
          · rename_i start count first second
            cases option
            obtain ⟨_, inRange⟩ := Option.filter_eq_some_iff.mp second
            have range : -2 ^ 63 ≤ count ∧ count < 2 ^ 63 := by simpa using inRange
            exact range.2
          · cases option

-- The command

/-- The run replies that a score is not a number, or emits the slice of one of the arrangements in
`P`.
-/
def EmitsSlice (plan : Plan) (db : ObjectDb Robj) (moment : Moment) (P : List Element → Prop)
    (run : Except Fault Outcome) : Prop :=
  ∃ outcome, run = .ok outcome
    ∧ (outcome.reply = .error "One or more scores can't be converted into double"
      ∨ ∃ s, P s ∧ Emits plan outcome
          ((limitSlice plan.limitStart plan.limitCount s).flatMap (emitted plan db moment)))

/-- `SORT` of a value with accepted options emits the slice of an arrangement of the elements. -/
def SlicesExactly (env : Env F) (moment : Moment) (argv : List Sds) (db : ObjectDb Robj)
    (errno : Nat) : Prop :=
  ∀ items plan, sortable (sortedValue moment argv db) = some items →
    acceptedPlan env argv (sortedValue moment argv db) = .ok plan →
    EmitsSlice plan db moment (Arranged env plan db moment (sortedValue moment argv db) items)
      (sortCommand env moment argv db errno)

/-- A score cannot be converted, or `errno` says so. -/
def ConversionFails (env : Env F) (plan : Plan) (db : ObjectDb Robj) (moment : Moment)
    (items : List Element)
    (errno : Nat) : Prop :=
  plan.dontsort = false
    ∧ (items.any (fun obj => (convertedText plan db moment obj).any (failsAlone env))
      || (errno = ERANGE && items.any fun obj => (convertedText plan db moment obj).isSome)) = true

/-- The slice is empty, or it is not cut off and the header can tell its length. -/
def SliceFits (plan : Plan) (n : Nat)
    : Prop := limitSize plan n = 0 ∨ (WindowFits plan n ∧ HeaderFits plan n)

/-- The elements fit the vector, and the slice fits or is not emitted. -/
def SortFits (env : Env F) (plan : Plan) (db : ObjectDb Robj) (moment : Moment) (sortval : Robj)
    (items : List Element) (errno : Nat) : Prop :=
  (items.length < 2 ^ 31 ∨ (plan.dontsort = true ∧ ∃ zset, sortval = .zset zset))
    ∧ (ConversionFails env plan db moment items errno ∨ SliceFits plan items.length)

section Runs

variable {P : List Element → Prop} {n : Nat} {w : Window} {vector : List Element}

theorem not_emitsSlice_error (fault : Fault) : ¬EmitsSlice plan db moment P (.error fault) := by
  rintro ⟨outcome, run, -⟩
  cases run

theorem sortOutput_exact_iff (lengths : ∀ s, P s → s.length = n)
    (only : ObjectDb.OnlyExpired moment db s.db)
    (flag : s.intConvertionError = false)
    (size : w.last - w.start + 1 = limitSize plan n ↔ limitSize plan n = 0 ∨ WindowFits plan n)
    (holds : limitSize plan n = 0 ∨ WindowFits plan n → ∃ s, P s
      ∧ (0 < limitSize plan n → 0 ≤ w.start ∧ w.start.toNat + limitSize plan n ≤ vector.length
        ∧ (vector.drop w.start.toNat).take (limitSize plan n)
          = (s.drop plan.limitStart.toNat).take (limitSize plan n)))
    : EmitsSlice plan db moment P (sortOutput moment plan w vector s) ↔ SliceFits plan n := by
  have noError {outcome : Outcome} (run : sortOutput moment plan w vector s = .ok outcome)
      : outcome.reply ≠ .error "One or more scores can't be converted into double" := by
    intro error
    have failed :=
      replyOf_sortOutput_failed.mp ((congrArg replyOf run).trans (congrArg Except.ok error))
    rw [flag] at failed
    cases failed
  have total {s : List Element} (arranged : P s)
      : ((limitSlice plan.limitStart plan.limitCount s).flatMap (emitted plan db moment)).length
        = bulksEach plan * limitSize plan n := by
    rw [length_flatMap_emitted, length_limitSlice, lengths s arranged]
  by_cases fits : limitSize plan n = 0 ∨ WindowFits plan n
  · obtain ⟨s', arranged, inside⟩ := holds fits
    obtain ⟨outcome, run, emits, header⟩ := sortOutput_window only flag (size.mpr fits)
      fun some' => ⟨(inside some').1, (inside some').2.1⟩
    constructor
    · rintro ⟨outcome', run', error | ⟨s'', arranged', emits'⟩⟩
      · exact absurd error (noError run')
      · cases run.symm.trans run'
        rcases header _ (total arranged') emits' with none' | header'
        · exact .inl none'
        · exact fits.imp_right fun window => ⟨window, header'⟩
    · intro exact'
      refine ⟨outcome, run, .inr ⟨s', arranged, ?_⟩⟩
      have emitted := emits (exact'.imp_right And.right)
      rw [limitSlice_eq, lengths s' arranged]
      rcases Nat.eq_zero_or_pos (limitSize plan n) with none' | some'
      · rw [none', List.take_zero] at emitted ⊢
        exact emitted
      · rw [← (inside some').2.2]
        exact emitted
  · constructor
    · rintro ⟨outcome, run, error | ⟨s', arranged, emits⟩⟩
      · exact absurd error (noError run)
      · exact absurd emits (sortOutput_other flag (fun same => fits (size.mp same))
          (Nat.pos_of_ne_zero fun none' => fits (.inl none')) run (total arranged))
    · intro exact'
      exact absurd (exact'.imp_right And.left) fits

theorem whole_exact_iff (lengths : ∀ s, P s → s.length = n)
    (only : ObjectDb.OnlyExpired moment db s.db)
    (flag : s.intConvertionError = false) (bounded : plan.limitCount < 2 ^ 63)
    (arranged : limitSize plan n = 0 ∨ WindowFits plan n → P vector)
    : EmitsSlice plan db moment P
        (sortOutput moment plan (limitWindow plan.limitStart plan.limitCount (int32 n)) vector s)
      ↔ SliceFits plan n := by
  refine sortOutput_exact_iff lengths only flag (limitWindow_size bounded n).1 fun fits =>
    ⟨vector, arranged fits, fun some' => ?_⟩
  rw [limitWindow_fits bounded some' (fits.resolve_left some'.ne'), Int.toNat_natCast,
    lengths vector (arranged fits)]
  exact ⟨Int.natCast_nonneg _, limitSize_inside some', rfl⟩

theorem range_exact_iff {native : List Element} (lengths : native.length = n)
    (only : ObjectDb.OnlyExpired moment db s.db) (flag : s.intConvertionError = false)
    (bounded : plan.limitCount < 2 ^ 63)
    (window : w = limitWindow plan.limitStart plan.limitCount (int32 n))
    : EmitsSlice plan db moment (· = native)
        ((loadRange native w.start
          (if w.partial' (int32 n) then int32 (w.last - w.start + 1) else int32 n)).bind
          fun vector => sortOutput moment plan ⟨0, w.last - w.start⟩ vector s)
      ↔ SliceFits plan n := by
  have size := (limitWindow_size bounded n).1
  rw [← window] at size
  have output (vector : List Element) (holds) :=
    @sortOutput_exact_iff plan db moment s (· = native) n
    ⟨0, w.last - w.start⟩ vector (fun s same => by rw [same, lengths]) only flag
      (by rwa [Int.sub_zero]) holds
  by_cases fits : limitSize plan n = 0 ∨ WindowFits plan n
  · have small : limitSize plan n < 2 ^ 31 := by
      rcases fits with none' | window'
      · omega
      · obtain ⟨-, most, -⟩ := int32_le n
        unfold limitSize
        unfold WindowFits at window'
        split <;> omega
    have count : (if w.partial' (int32 n) then int32 (w.last - w.start + 1) else int32 n)
        = limitSize plan n := by
      have exact' := size.mpr fits
      split
      · rw [exact']
        exact (int32_le _).2.2.mp small
      · rename_i whole
        simp only [Window.partial', Bool.or_eq_true, decide_eq_true_eq, not_or, not_not] at whole
        omega
    have there (some' : 0 < limitSize plan n) : w.start.toNat = plan.limitStart.toNat := by
      rw [window, limitWindow_fits bounded some' (fits.resolve_left some'.ne'), Int.toNat_natCast]
    have inside := @limitSize_inside plan n
    have loaded : loadRange native w.start (limitSize plan n)
        = .ok ((native.drop w.start.toNat).take (limitSize plan n)) := by
      rw [loadRange, if_neg (by omega), if_neg (by rw [List.length_drop]; omega), Int.toNat_natCast]
    rw [count, loaded]
    refine (output _ fun _ => ⟨native, rfl, fun some' => ⟨Int.le_refl 0, ?_, ?_⟩⟩)
    · have := there some'
      simp only [Int.toNat_zero, List.length_take, List.length_drop]
      omega
    · rw [Int.toNat_zero, List.drop_zero, List.take_take, Nat.min_self, there some']
  · cases loadRange native w.start
      (if w.partial' (int32 n) then int32 (w.last - w.start + 1) else int32 n) with
    | error fault =>
        exact iff_of_false (not_emitsSlice_error fault) fun exact' =>
        fits (exact'.imp_right And.left)
    | ok vector => exact output vector fun fits' => absurd fits' fits

theorem fillVector_exact_iff (items : List Element) (next : List Element → Except Fault Outcome)
    {Q : Prop}
    (filled : items.length < 2 ^ 31 → (EmitsSlice plan db moment P (next items) ↔ Q))
    : EmitsSlice plan db moment P ((fillVector items (int32 items.length)).bind next)
      ↔ items.length < 2 ^ 31 ∧ Q := by
  cases run : fillVector items (int32 items.length) with
  | error fault =>
      refine iff_of_false (not_emitsSlice_error fault) fun short => ?_
      cases run.symm.trans ((fillVector_iff items items).mpr ⟨short.1, rfl⟩)
  | ok vector =>
      obtain ⟨short, rfl⟩ := (fillVector_iff items vector).mp run
      exact (filled short).trans (iff_and_self.mpr fun _ => short)

end Runs

theorem sorted_exact_iff (collates : Compares env.strcoll) (sorts : Sorts env.qsort)
    (only : ObjectDb.OnlyExpired moment db next) (bounded : plan.limitCount < 2 ^ 63)
    (memory : env.vectorAddress + items.length * sortObjectSize ≤ 2 ^ 64)
    (order : plan.dontsort = false)
    (is : sortable sortval = some items) (errno : Nat)
    : EmitsSlice plan db moment (Arranged env plan db moment sortval items)
        (sortValue env moment plan sortval items next errno)
      ↔ items.length < 2 ^ 31
        ∧ (ConversionFails env plan db moment items errno ∨ SliceFits plan items.length) := by
  rw [sortValue_sorted order is]
  refine fillVector_exact_iff items _ fun short => ?_
  have flag := weighAll_flag env plan (s := ⟨next, errno, false⟩) only items
  obtain ⟨weighed, only'⟩ := weighAll_eq env plan (s := ⟨next, errno, false⟩) only items
  rw [Bool.false_or] at flag
  generalize weighAll env moment plan _ items = result at *
  obtain ⟨vector, s⟩ := result
  dsimp only at flag weighed only' ⊢
  cases error : s.intConvertionError with
  | true =>
      rw [error] at flag
      refine iff_of_true ?_ (.inl ⟨order, flag.symm⟩)
      rw [sortOutput, error]
      exact ⟨_, rfl, .inl rfl⟩
  | false =>
      rw [error] at flag
      rw [or_iff_right fun failed => Bool.false_ne_true (flag.trans failed.2)]
      refine whole_exact_iff (fun s arranged => arranged.length is) only' error bounded fun fits =>
        ?_
      have length : vector.length = items.length := by rw [weighed, List.length_map]
      obtain ⟨perm, inOrder⟩ := sortVector_ok collates sorts plan vector plan.limitStart.toNat
        (limitSize plan items.length) (by rwa [length]) fun some' =>
          ⟨limitWindow_fits bounded some' (fits.resolve_left some'.ne'), by
            rw [length]
            exact limitSize_inside some'⟩
      unfold Arranged
      rw [order, if_neg Bool.false_ne_true]
      exact ⟨_, weighed ▸ perm, inOrder, rfl⟩

theorem native_exact_iff (only : ObjectDb.OnlyExpired moment db next)
    (bounded : plan.limitCount < 2 ^ 63)
    (order : plan.dontsort = true) (is : sortable sortval = some items) (errno : Nat)
    : EmitsSlice plan db moment (Arranged env plan db moment sortval items)
        (sortValue env moment plan sortval items next errno)
      ↔ (items.length < 2 ^ 31 ∨ ∃ zset, sortval = .zset zset) ∧ SliceFits plan items.length := by
  have native : Arranged env plan db moment sortval items
      = (· = nativeElements plan.desc items sortval) := by
    funext s
    unfold Arranged
    rw [order, if_pos rfl]
  have lengths (s : List Element) (same : s = nativeElements plan.desc items sortval) : s.length
      = items.length :=
    Arranged.length ((congrFun native s).mpr same) is
  rw [native]
  rw [sortValue, loadVector.eq_def, order]
  cases sortval with
  | string value => cases is
  | hash field => cases is
  | zset zset =>
      cases is
      have range := range_exact_iff (s := ⟨next, errno, false⟩) (lengths _ rfl) only rfl bounded rfl
      rw [and_iff_right (.inr ⟨zset, rfl⟩), ← range]
      dsimp only [nativeElements]
      cases loadRange (nativeOrder plan.desc zset) _ _ <;> rfl
  | list items' | set items' =>
      cases is
      have whole := fillVector_exact_iff items
        (fun vector => sortOutput moment plan
          (limitWindow plan.limitStart plan.limitCount (int32 items.length)) vector
            ⟨next, errno, false⟩)
        fun _ => whole_exact_iff lengths only rfl bounded fun _ => rfl
      rw [or_iff_left (by rintro ⟨zset, impossible⟩; cases impossible), ← whole]
      dsimp only
      cases fillVector items _ <;> rfl

end Orders

theorem insertingQsort_sorts : Sorts insertingQsort := by
  intro α cmp items compares
  have total : Std.Total fun x y : α => cmp x y ≤ 0 := ⟨compares.total⟩
  have trans : IsTrans α fun x y => cmp x y ≤ 0 := ⟨compares.trans⟩
  exact List.pairwise_insertionSort _ items

/-- The list `k` of 3, 1 and 2. -/
def threeDb : ObjectDb Robj where
  dict key := if key = [0x6B] then some (.list [.integer 3, .integer 1, .integer 2]) else none
  expires _ := none
  expires_in_dict _ _ := rfl

/-- `SORT k LIMIT 1 1`. -/
def middleLimit : List Sds := [[], [0x6B], limitText, [0x31], [0x31]]

/-- `SORT k LIMIT 2 9223372036854775807`. -/
def farLimit : List Sds :=
  [[], [0x6B], limitText, [0x32], [9, 2, 2, 3, 3, 7, 2, 0, 3, 6, 8, 5, 4, 7, 7, 5, 8, 0, 7].map
    (0x30 + ·)]

end Redis.Sort
