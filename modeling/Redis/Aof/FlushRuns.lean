import Redis.Aof.Flush

/-! What a flush leaves: the file and the buffer together, and a buffer to be written after an
error.
-/

namespace Redis.AofWrites

open Redis.BackgroundRewrite (AofState)
open Redis.Library (int32 int32_of_lt int32_of_ge)
open Redis.Util (sdscatlen sdscatlen_of_lt)

-- Strings

theorem sdsrange_eq_drop {s : List UInt8} (small : s.length < 2 ^ 31) {n : Nat}
    (inside : n < s.length)
    : sdsrange s (int32 n) (-1) = s.drop n := by
  have len : int32 s.length = s.length := int32_of_lt small
  have last : int32 (s.length + -1) = s.length - 1 := by
    have below : int32 (s.length - 1 : Nat) = (s.length - 1 : Nat) := int32_of_lt (by omega)
    have cast : ((s.length - 1 : Nat) : Int) = s.length + -1 := by omega
    rw [cast] at below
    rw [below]
    omega
  have some : s.length ≠ 0 := by omega
  unfold sdsrange
  rw [if_neg some]
  dsimp only
  have natural : ¬(n : Int) < 0 := by omega
  have negative : (-1 : Int) < 0 := by decide
  have nonempty : ¬(s.length : Int) - 1 < 0 := by omega
  have ordered : ¬(n : Int) > s.length - 1 := by omega
  have below : ¬(n : Int) ≥ s.length := by omega
  have least : ¬(s.length : Int) - 1 ≥ s.length := by omega
  rw [int32_of_lt (inside.trans small), len, last, if_neg natural, if_pos negative, if_neg nonempty,
    if_neg ordered, if_neg below, if_neg least, if_neg ordered, List.take_of_length_le]
  · rfl
  · rw [List.length_drop]
    omega

-- Flushes

/-- A flush that only notes its time, or not even that. -/
def Postpones (s : Writer) (call : FlushCall) : Prop :=
  s.fsync = .everysec ∧ call.force = false ∧ call.fsyncPending = true
    ∧ (s.postponedStart = 0 ∨ call.unixtime - s.postponedStart < 2)

/-- The casts of a write are harmless: the length of the buffer is an `int`, or nothing has to be
cut off because nothing is written or the file is truncated.
-/
def FitsCasts (s : Writer) (call : FlushCall) : Prop :=
  s.aofBuf.length < 2 ^ 31
    ∨ s.aofBuf.length < 2 ^ 32 - 1
      ∧ (s.fdOpen = false ∨ call.write = none ∨ call.write = some 0
        ∨ call.truncates = true ∧ 0 ≤ s.currentSize)

def Harmless (s : Writer) (call : FlushCall) : Prop := Postpones s call ∨ FitsCasts s call

structure Keeps (s s' : Writer) : Prop where
  state : s'.state = s.state
  hasFd : s'.hasFd = s.hasFd
  fsync : s'.fsync = s.fsync
  child : s'.child = s.child

/-- What a flush does: the first bytes of the buffer go to the file, and bytes are left after an
error.
-/
structure Flushed (s s' : Writer) : Prop extends Keeps s s' where
  retries : (s.lastWriteOk = false → s.aofBuf ≠ []) → s'.lastWriteOk = false → s'.aofBuf ≠ []
  empties : s.aofBuf = [] → s' = s
  shorter : s'.aofBuf.length ≤ s.aofBuf.length
  moves : s.currentSize = s.file.length
    → s'.currentSize = s'.file.length ∧ s'.file ++ s'.aofBuf = s.file ++ s.aofBuf

section Writes

variable {s s' : Writer} {call : FlushCall}

theorem Flushed.refl (s : Writer) : Flushed s s where
  state := rfl
  hasFd := rfl
  fsync := rfl
  child := rfl
  retries holds := holds
  empties _ := rfl
  shorter := le_refl _
  moves consistent := ⟨consistent, rfl⟩

theorem written_cases (s : Writer) (call : FlushCall)
    : s.written call = -1 ∨ ∃ n ≤ s.aofBuf.length, s.written call = n := by
  unfold Writer.written
  split
  · split
    · exact Or.inl rfl
    · exact Or.inr ⟨_, Nat.min_le_right _ _, rfl⟩
  · exact Or.inl rfl

theorem complete_eq (short : s.aofBuf.length < 2 ^ 32 - 1)
    (complete : s.written call = int32 s.aofBuf.length)
    : s.written call = s.aofBuf.length := by
  rcases Nat.lt_or_ge s.aofBuf.length (2 ^ 31) with small | long
  · rw [complete, int32_of_lt small]
  · rw [int32_of_ge long (by omega)] at complete
    rcases written_cases s call with nothing | ⟨n, inside, written⟩ <;> omega

theorem kept_lt (fits : FitsCasts s call) (short : s.written call ≠ int32 s.aofBuf.length) {n : Nat}
    (written : s.written call = n) (some : 0 < n) (kept : s.undoes call n = false)
    : s.aofBuf.length < 2 ^ 31 ∧ n < s.aofBuf.length := by
  have inside : n ≤ s.aofBuf.length := by
    rcases written_cases s call with nothing | ⟨m, inside, same⟩ <;> omega
  have small : s.aofBuf.length < 2 ^ 31 := by
    rcases fits with small | ⟨-, closed | none | zero | ⟨truncates, sized⟩⟩
    · exact small
    · rw [Writer.written, closed] at written
      cases written
    · rw [Writer.written, none] at written
      split at written <;> cases written
    · rw [Writer.written, zero] at written
      split at written
      · simp only [Nat.zero_min, Nat.cast_inj] at written
        omega
      · cases written
    · have positive : (n : Int) ≠ -1 := by omega
      simp [Writer.undoes, truncates, sized, positive] at kept
  rw [written, int32_of_lt small] at short
  exact ⟨small, by omega⟩

theorem truncated_eq {file more : List UInt8} {size : Int} (consistent : size = file.length)
    : (file ++ more).take size.toNat ++ List.replicate (size.toNat - (file ++ more).length) 0
      = file := by
  have none : file.length - (file ++ more).length = 0 := by
    rw [List.length_append]
    omega
  rw [consistent, Int.toNat_natCast, none, List.take_left, List.replicate_zero, List.append_nil]

/-- What a write that is not complete leaves of the file and the buffer. -/
inductive Recovers (s s' : Writer) (call : FlushCall) (nwritten : Int) : Prop where
  | undone (undoes : s.undoes call nwritten = true) (file : s'.file = s.truncated)
      (aofBuf : s'.aofBuf = s.aofBuf) (size : s'.currentSize = s.currentSize)
  | nothing (kept : s.undoes call nwritten = false) (none : nwritten ≤ 0) (file : s'.file = s.file)
      (aofBuf : s'.aofBuf = s.aofBuf) (size : s'.currentSize = s.currentSize)
  | part (kept : s.undoes call nwritten = false) (some : 0 < nwritten) (file : s'.file = s.file)
      (aofBuf : s'.aofBuf = sdsrange s.aofBuf (int32 nwritten) (-1))
      (size : s'.currentSize = s.currentSize + nwritten)

theorem writeFailed_recovers {t : Writer} {nwritten : Int}
    (ran : t.writeFailed call nwritten = some s')
    : Keeps t s' ∧ s'.lastWriteOk = false ∧ Recovers t s' call nwritten := by
  have same : (t.logWriteError call nwritten).undoes call nwritten = t.undoes call nwritten := rfl
  rw [Writer.writeFailed, Writer.takeBack, same] at ran
  cases undone : t.undoes call nwritten with
  | true =>
      rw [undone, if_pos rfl] at ran
      dsimp only at ran
      split at ran
      · cases ran
      · cases ran
        exact ⟨⟨rfl, rfl, rfl, rfl⟩, rfl, .undone undone rfl rfl rfl⟩
  | false =>
      rw [undone, if_neg (Ne.symm Bool.true_eq_false_eq_False)] at ran
      dsimp only at ran
      split at ran
      · cases ran
      cases ran
      by_cases some : nwritten > 0
      · rw [Writer.trim, if_pos some]
        exact ⟨⟨rfl, rfl, rfl, rfl⟩, rfl, .part undone some rfl rfl rfl⟩
      · rw [Writer.trim, if_neg some]
        exact ⟨⟨rfl, rfl, rfl, rfl⟩, rfl, .nothing undone (not_lt.mp some) rfl rfl rfl⟩

/-- The state behind `write`, whatever it has written. -/
def wroteTo (s : Writer) (call : FlushCall) : Writer :=
  { s with file := s.file ++ s.aofBuf.take (s.written call).toNat, postponedStart := 0 }

theorem writeFailed_flushed (nonempty : s.aofBuf ≠ []) (fits : FitsCasts s call)
    (short : s.written call ≠ int32 s.aofBuf.length)
    (ran : (wroteTo s call).writeFailed call (s.written call) = some s')
    : Flushed s s' := by
  obtain ⟨keeps, failed, outcome⟩ := writeFailed_recovers ran
  have same : Keeps s s' := ⟨keeps.state, keeps.hasFd, keeps.fsync, keeps.child⟩
  cases outcome with
  | undone undoes file aofBuf size =>
      refine ⟨same, fun _ _ => aofBuf ▸ nonempty, fun empty => absurd empty nonempty,
        (congrArg List.length aofBuf).le, fun consistent => ?_⟩
      have back : s'.file = s.file := file.trans (truncated_eq consistent)
      rw [size, back, aofBuf]
      exact ⟨consistent, rfl⟩
  | nothing kept none file aofBuf size =>
      refine ⟨same, fun _ _ => aofBuf ▸ nonempty, fun empty => absurd empty nonempty,
        (congrArg List.length aofBuf).le, fun consistent => ?_⟩
      have nowhere : s'.file = s.file := by
        rw [file, wroteTo, Int.toNat_of_nonpos none, List.take_zero, List.append_nil]
      rw [size, nowhere, aofBuf]
      exact ⟨consistent, rfl⟩
  | part kept some file aofBuf size =>
      obtain ⟨n, written⟩ := Int.eq_ofNat_of_zero_le some.le
      rw [written] at some kept
      obtain ⟨small, inside⟩ := kept_lt fits short written (Int.natCast_pos.mp some) kept
      have rest : s'.aofBuf = s.aofBuf.drop n := by
        rw [aofBuf, written]
        exact sdsrange_eq_drop small inside
      have front : s'.file = s.file ++ s.aofBuf.take n := by
        rw [file, wroteTo, written, Int.toNat_natCast]
      refine ⟨same, fun _ _ => ?_, fun empty => absurd empty nonempty, ?_, fun consistent => ?_⟩
      · rw [rest]
        exact fun empty => absurd (List.drop_eq_nil_iff.mp empty) (not_le.mpr inside)
      · rw [rest, List.length_drop]
        exact Nat.sub_le _ _
      · rw [size, front, rest, List.append_assoc, List.take_append_drop, List.length_append,
          List.length_take, Nat.min_eq_left inside.le, written]
        refine ⟨?_, rfl⟩
        show s.currentSize + n = _
        rw [consistent, Nat.cast_add]

theorem writeSucceeded_flushed (nonempty : s.aofBuf ≠ []) (fits : FitsCasts s call)
    (complete : s.written call = int32 s.aofBuf.length)
    : Flushed s ((wroteTo s call).writeSucceeded call (s.written call)) := by
  have short : s.aofBuf.length < 2 ^ 32 - 1 := by
    rcases fits with small | ⟨short, -⟩
    · omega
    · exact short
  have all := complete_eq short complete
  refine ⟨⟨rfl, rfl, rfl, rfl⟩, fun _ failed => ?_, fun empty => absurd empty nonempty,
    Nat.zero_le _,
    fun consistent => ?_⟩
  · cases failed
  · have file : ((wroteTo s call).writeSucceeded call (s.written call)).file = s.file
      ++ s.aofBuf := by
      show s.file ++ s.aofBuf.take (s.written call).toNat = _
      rw [all, Int.toNat_natCast, List.take_length]
    have size : ((wroteTo s call).writeSucceeded call (s.written call)).currentSize
        = s.currentSize + s.aofBuf.length := by
      show s.currentSize + s.written call = _
      rw [all]
    rw [file, size, consistent, List.length_append, Nat.cast_add]
    exact ⟨rfl, List.append_nil _⟩

theorem writeBuffer_flushed (nonempty : s.aofBuf ≠ []) (fits : FitsCasts s call)
    (ran : s.writeBuffer call = some s')
    : Flushed s s' := by
  rw [Writer.writeBuffer] at ran
  split at ran
  · rename_i short
    exact writeFailed_flushed nonempty fits short ran
  · rename_i complete
    cases ran
    exact writeSucceeded_flushed nonempty fits (not_not.mp complete)

theorem flush_flushed (harmless : Harmless s call) (ran : s.flushAppendOnlyFile call = some s')
    : Flushed s s' := by
  rw [Writer.flushAppendOnlyFile] at ran
  split at ran
  · cases ran
    exact .refl s
  rename_i some
  have nonempty : s.aofBuf ≠ [] := fun empty => some (congrArg List.length empty)
  split at ran
  · rename_i busy
    split at ran
    · cases ran
      exact ⟨⟨rfl, rfl, rfl, rfl⟩, id, fun empty => absurd empty nonempty, le_refl _,
        fun consistent => ⟨consistent, rfl⟩⟩
    rename_i started
    split at ran
    · cases ran
      exact .refl s
    rename_i late
    rcases harmless with ⟨-, -, -, first | soon⟩ | fits
    · exact absurd first started
    · exact absurd soon late
    · have flushed :=
        writeBuffer_flushed (s := { s with delayedFsync := s.delayedFsync + 1 }) nonempty fits ran
      exact ⟨⟨flushed.state, flushed.hasFd, flushed.fsync, flushed.child⟩, flushed.retries,
        fun empty => absurd empty nonempty, flushed.shorter, flushed.moves⟩
  · rename_i writes
    rcases harmless with ⟨everysec, unforced, pending, -⟩ | fits
    · exact absurd ⟨everysec, unforced, pending⟩ writes
    · exact writeBuffer_flushed nonempty fits ran

theorem flush_isSome (recovers : s.fsync ≠ .always) (call : FlushCall)
    : (s.flushAppendOnlyFile call).isSome = true := by
  have failed : ∀ (t : Writer) (n : Int), t.fsync ≠ .always
      → (t.writeFailed call n).isSome = true := by
    intro t n recovers
    have same : ((t.logWriteError call n).takeBack call n).1.fsync ≠ .always := by
      rw [Writer.takeBack]
      split <;> exact recovers
    rw [Writer.writeFailed]
    dsimp only
    rw [if_neg same]
    rfl
  have writes : ∀ t : Writer, t.fsync ≠ .always → (t.writeBuffer call).isSome = true := by
    intro t recovers
    rw [Writer.writeBuffer]
    split
    · exact failed _ _ recovers
    · rfl
  rw [Writer.flushAppendOnlyFile]
  split
  · rfl
  split
  · split
    · rfl
    split
    · rfl
    · exact writes _ recovers
  · exact writes _ recovers

end Writes

-- Nothing is lost

def Action.bytes : Action → List UInt8
  | .append buf => buf
  | .flush _ => []

def appendedBytes (actions : List Action) : List UInt8 := actions.flatMap Action.bytes

def Writer.actAll (s : Writer) (actions : List Action)
    : Option Writer := actions.foldlM Writer.act s

/-- The lengths of the buffer are small enough for the casts. -/
def Action.Harmless (s : Writer) : Action → Prop
  | .append buf => s.aofBuf.length + buf.length < 2 ^ 32
  | .flush call => AofWrites.Harmless s call

/-- Every action of a run is harmless in the state before it. -/
def HarmlessRun (s : Writer) : List Action → Prop
  | [] => True
  | action :: actions => action.Harmless s ∧ ∀ s', s.act action = some s' → HarmlessRun s' actions

theorem harmlessRun_of_short {s : Writer} {actions : List Action}
    (short : s.aofBuf.length + (appendedBytes actions).length < 2 ^ 31)
    : HarmlessRun s actions := by
  induction actions generalizing s with
  | nil => trivial
  | cons action actions ih =>
      rw [appendedBytes, List.flatMap_cons, List.length_append] at short
      cases action with
      | append buf =>
          have harmless : s.aofBuf.length + buf.length < 2 ^ 32 := by
            have some : (Action.append buf).bytes.length = buf.length := rfl
            omega
          refine ⟨harmless, fun s' ran => ih ?_⟩
          cases ran
          have more : (s.feedAppendOnlyFile buf).aofBuf.length ≤ s.aofBuf.length + buf.length := by
            rw [Writer.feedAppendOnlyFile]
            split
            · show (sdscatlen s.aofBuf buf).length ≤ _
              rw [sdscatlen_of_lt harmless, List.length_append]
            · exact Nat.le_add_right _ _
          have some : (Action.append buf).bytes.length = buf.length := rfl
          unfold appendedBytes
          omega
      | flush call =>
          have harmless : Harmless s call := Or.inr (Or.inl (by omega))
          refine ⟨harmless, fun s' ran => ih ?_⟩
          have less := (flush_flushed harmless ran).shorter
          unfold appendedBytes
          omega

/-- The file and the buffer hold these bytes, and the size is that of the file. -/
structure Holds (s : Writer) (bytes : List UInt8) : Prop where
  on : s.state = .on
  recovers : s.fsync ≠ .always
  bytes : s.file ++ s.aofBuf = bytes
  size : s.currentSize = s.file.length

section Lossless

variable {s s' : Writer} {bytes : List UInt8}

theorem Holds.act (holds : Holds s bytes) {action : Action} (harmless : action.Harmless s)
    : ∃ s', s.act action = some s' ∧ Holds s' (bytes ++ action.bytes) := by
  cases action with
  | append buf =>
      refine ⟨_, rfl, ?_⟩
      rw [Writer.feedAppendOnlyFile, if_pos holds.on]
      refine ⟨holds.on, holds.recovers, ?_, holds.size⟩
      show s.file ++ sdscatlen s.aofBuf buf = bytes ++ buf
      rw [sdscatlen_of_lt harmless, ← List.append_assoc, holds.bytes]
  | flush call =>
      obtain ⟨s', ran⟩ := Option.isSome_iff_exists.mp (flush_isSome holds.recovers call)
      have flushed := flush_flushed harmless ran
      obtain ⟨size, moved⟩ := flushed.moves holds.size
      refine ⟨s', ran, flushed.state.trans holds.on, ?_, ?_, size⟩
      · rw [flushed.fsync]
        exact holds.recovers
      · rw [moved, holds.bytes]
        exact (List.append_nil _).symm

theorem Holds.actAll (holds : Holds s bytes) {actions : List Action}
    (harmless : HarmlessRun s actions)
    : ∃ s', s.actAll actions = some s' ∧ Holds s' (bytes ++ appendedBytes actions) := by
  induction actions generalizing s bytes with
  | nil => exact ⟨s, rfl, by rwa [appendedBytes, List.flatMap_nil, List.append_nil]⟩
  | cons action actions ih =>
      obtain ⟨next, ran, kept⟩ := holds.act harmless.1
      obtain ⟨s', rest, done⟩ := ih kept (harmless.2 next ran)
      refine ⟨s', ?_, ?_⟩
      · rw [Writer.actAll, List.foldlM_cons, ran]
        exact rest
      · rwa [appendedBytes, List.flatMap_cons, ← List.append_assoc]

/-- In a run of appends and flushes whose casts are harmless, the file and the buffer together are
what was there and what was appended, and the size is that of the file.
-/
theorem failed_writes_lose_nothing (fsync : FsyncPolicy) (recovers : fsync ≠ .always)
    (file : List UInt8) (unixtime : Int) (actions : List Action)
    (harmless : HarmlessRun (startWriter .on fsync file unixtime) actions)
    : ∃ s, (startWriter .on fsync file unixtime).actAll actions = some s
      ∧ s.file ++ s.aofBuf = file ++ appendedBytes actions ∧ s.currentSize = s.file.length := by
  have started : Holds (startWriter .on fsync file unixtime) file :=
    ⟨rfl, recovers, List.append_nil file, rfl⟩
  obtain ⟨s, ran, holds⟩ := started.actAll harmless
  exact ⟨s, ran, holds.bytes, holds.size⟩

end Lossless

/-- A forced flush that writes so many bytes. -/
def flushes (write : Option Nat) (truncates : Bool) : FlushCall where
  force := true
  unixtime := 0
  fsyncPending := false
  write := write
  errno := 5
  truncates := truncates
  noFsync := false

/-- Two writes fail in a row, one of which can be undone, before the rest is written. -/
theorem failed_writes_lose_nothing_twice
    : ∃ s, (startWriter .on .everysec [] 0).actAll
        [.append [1, 2, 3], .flush (flushes (some 1) false), .append [4],
          .flush (flushes (some 2) true), .flush (flushes (some 3) true)] = some s
      ∧ s.file ++ s.aofBuf = [1, 2, 3, 4] ∧ s.currentSize = s.file.length :=
  failed_writes_lose_nothing .everysec (by decide) [] 0 _ (harmlessRun_of_short (by decide))

theorem sdsrange_long {s : List UInt8} (long : s.length = 2 ^ 31 + 1) : sdsrange s 1 (-1) = [] := by
  have some : s.length ≠ 0 := by omega
  rw [sdsrange, if_neg some, long]
  rfl

theorem short_write_of_long {text : List UInt8} (long : text.length = 2 ^ 31 + 1)
    : ∃ s, (startWriter .on .everysec [] 0).actAll [.append text, .flush (flushes (some 1) false)]
      = some s
      ∧ s.file ++ s.aofBuf = text.take 1 := by
  have appended : sdscatlen [] text = text := sdscatlen_of_lt (by rw [long]; decide)
  let s : Writer := { startWriter .on .everysec [] 0 with aofBuf := text }
  have fed : (startWriter .on .everysec [] 0).act (.append text) = some s := by
    show some { startWriter .on .everysec [] 0 with aofBuf := sdscatlen [] text } = some s
    rw [appended]
  have nonempty : s.aofBuf.length ≠ 0 := by
    show text.length ≠ 0
    omega
  have one : s.written (flushes (some 1) false) = 1 := by
    show ((min 1 text.length : Nat) : Int) = 1
    rw [long]
    rfl
  have short : (1 : Int) ≠ int32 s.aofBuf.length := by
    show (1 : Int) ≠ int32 text.length
    rw [long]
    decide
  have forced : ¬(s.fsync = .everysec ∧ (flushes (some 1) false).force = false
      ∧ (flushes (some 1) false).fsyncPending = true) := fun busy => by cases busy.2.1
  have cut : sdsrange text (int32 1) (-1) = [] := sdsrange_long long
  have flushed : (s.act (.flush (flushes (some 1) false))).map (fun t => (t.file, t.aofBuf))
      = some (text.take 1, []) := by
    show (s.flushAppendOnlyFile _).map _ = _
    rw [Writer.flushAppendOnlyFile, if_neg nonempty, if_neg forced, Writer.writeBuffer, one,
      if_pos short]
    show some (([] : List UInt8) ++ text.take 1, sdsrange text (int32 1) (-1)) = _
    rw [cut, List.nil_append]
  obtain ⟨t, ran, contents⟩ := Option.map_eq_some_iff.mp flushed
  obtain ⟨file, aofBuf⟩ := Prod.mk.inj contents
  refine ⟨t, ?_, ?_⟩
  · rw [Writer.actAll, List.foldlM_cons, fed]
    show [Action.flush _].foldlM Writer.act s = some t
    rw [List.foldlM_cons, ran]
    rfl
  · rw [file, aofBuf, List.append_nil]

/-- A short write of a buffer of 2147483649 bytes that cannot be undone empties the buffer. -/
theorem failed_writes_lose_bytes
    : ¬ ∀ (fsync : FsyncPolicy), fsync ≠ .always → ∀ file unixtime actions,
        ∃ s, (startWriter .on fsync file unixtime).actAll actions = some s
          ∧ s.file ++ s.aofBuf = file ++ appendedBytes actions ∧ s.currentSize = s.file.length := by
  intro all
  obtain ⟨text, long⟩ : ∃ text : List UInt8, text.length = 2 ^ 31 + 1 :=
    ⟨List.replicate (2 ^ 31 + 1) 0, List.length_replicate⟩
  obtain ⟨s, ran, lost⟩ := short_write_of_long long
  obtain ⟨s', ran', kept, -⟩ :=
    all .everysec (by decide) [] 0 [.append text, .flush (flushes (some 1) false)]
  have same : s' = s := Option.some.inj (ran'.symm.trans ran)
  rw [same, lost] at kept
  have lengths := congrArg List.length kept
  have total : appendedBytes [.append text, .flush (flushes (some 1) false)] = text :=
    List.append_nil text
  rw [total, List.nil_append, List.length_take, long] at lengths
  exact absurd lengths (by decide)

end Redis.AofWrites
