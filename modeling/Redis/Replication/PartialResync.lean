import Redis.Replication.Backlog

/-! The backlog holds the newest bytes of the replication stream, and partial
resynchronisation sends exactly the bytes that a slave lacks.
-/

namespace Redis

open Redis.Library
open Redis.Util

/-- The invariant of an allocated backlog, for the stream fed since it was created. -/
structure Backlog.Holds (b : Backlog) (buffer : List UInt8) (base : Int)
    (stream : List UInt8)
    : Prop where
  allocated : b.buffer = some buffer
  length : buffer.length = b.size
  inside : b.idx < b.size
  few : b.histlen ≤ b.size
  offset : b.masterOffset = base + stream.length
  first : b.off + b.histlen = b.masterOffset + 1
  history : ringHistory buffer b.idx b.histlen <:+ stream

-- Feeding

/-- The loop ends, writes inside the ring only, and leaves the bytes as if they had been
appended to the ring and as many had been dropped from its front.
-/
theorem feedLoop_ok {size : Nat} (rounds : Nat) {buffer : List UInt8} {idx : Nat} (histlen : Nat)
    {data : List UInt8} (length : buffer.length = size) (inside : idx < size)
    (enough : data.length ≤ rounds)
    : ∃ next idx',
        feedLoop size rounds buffer idx histlen data
          = .ok (next, idx', histlen + data.length)
        ∧ next.length = size
        ∧ idx' < size
        ∧ next.rotate idx' = (buffer.rotate idx ++ data).drop data.length := by
  induction rounds generalizing buffer idx histlen data with
  | zero =>
      obtain rfl : data = [] := List.eq_nil_of_length_eq_zero (by omega)
      exact ⟨buffer, idx, by simp [feedLoop], length, inside, by simp⟩
  | succ rounds ih =>
      cases data with
      | nil => exact ⟨buffer, idx, by simp [feedLoop], length, inside, by simp⟩
      | cons byte rest =>
          obtain ⟨data, whole⟩ : ∃ data, data = byte :: rest := ⟨_, rfl⟩
          obtain ⟨thislen, chunk⟩
              : ∃ thislen,
                  thislen = if size - idx > data.length then data.length else size - idx :=
            ⟨_, rfl⟩
          have nonempty : 0 < data.length := by simp [whole]
          have bounds : 0 < thislen ∧ thislen ≤ data.length ∧ idx + thislen ≤ size := by
            split at chunk <;> omega
          have taken : (data.take thislen).length = thislen := by
            rw [List.length_take]
            omega
          obtain ⟨mid, middle⟩
              : ∃ mid,
                  mid = buffer.take idx ++ data.take thislen ++ buffer.drop (idx + thislen) :=
            ⟨_, rfl⟩
          have written : writeBytes buffer idx (data.take thislen) = .ok mid := by
            rw [writeBytes, taken, if_pos (by omega), middle]
          have midLength : mid.length = size := by
            rw [length_of_writeBytes written, length]
          obtain ⟨start, rewound⟩
              : ∃ start, start = if idx + thislen = size then 0 else idx + thislen := ⟨_, rfl⟩
          have rotated
              : mid.rotate start = (buffer.rotate idx ++ data.take thislen).drop thislen := by
            have write := rotate_write (data.take thislen)
              (show idx + (data.take thislen).length ≤ buffer.length by omega)
            rw [taken, ← middle] at write
            rw [← write, rewound]
            split
            · rename_i atEnd
              rw [atEnd, ← midLength, List.rotate_zero, List.rotate_length]
            · rfl
          obtain ⟨next, idx', run, nextLength, nextInside, newest⟩ :=
            ih (histlen + thislen) midLength
              (show start < size by rw [rewound]; split <;> omega)
              (show (data.drop thislen).length
                ≤ rounds by rw [List.length_drop, whole]; simp at enough ⊢; omega)
          refine ⟨next, idx', ?_, nextLength, nextInside, ?_⟩
          · rw [feedLoop]
            simp only [← whole, ← chunk, written, ok_andThen, ← rewound, run]
            rw [List.length_drop]
            congr 3
            omega
          · rw [← whole, newest, rotated, List.length_drop]
            have whole : (buffer.rotate idx ++ data.take thislen).drop thislen ++ data.drop thislen
                = (buffer.rotate idx ++ data).drop thislen := by
              rw [← List.drop_append_of_le_length (by rw [List.length_append, taken]; omega),
                List.append_assoc, List.take_append_drop]
            rw [whole, List.drop_drop]
            congr 1
            omega

section Steps

variable {b : Backlog} {buffer : List UInt8} {base : Int} {stream : List UInt8}

theorem Backlog.Holds.feed (holds : b.Holds buffer base stream) (data : List UInt8)
    : ∃ next buffer',
        feedReplicationBacklog b data = .ok next
        ∧ next.Holds buffer' base (stream ++ data)
        ∧ b.off ≤ next.off
        ∧ b.masterOffset ≤ next.masterOffset
        ∧ next.histlen = min (b.histlen + data.length) b.size := by
  obtain ⟨buffer', idx', run, length, inside, newest⟩ :=
    feedLoop_ok data.length b.histlen holds.length holds.inside le_rfl
  have fewer := holds.few
  have first := holds.first
  have offset := holds.offset
  refine ⟨b.afterFeed (some buffer') idx' (b.histlen + data.length) (b.masterOffset + data.length),
    buffer', ?_, ⟨rfl, length, inside, ?_, ?_, ?_, ?_⟩, ?_, ?_, ?_⟩
  · simp only [feedReplicationBacklog, holds.allocated, run, ok_andThen]
    rfl
  all_goals dsimp only [Backlog.afterFeed]
  · split <;> omega
  · rw [List.length_append, offset]
    push_cast
    omega
  · omega
  · refine ringHistory_append (length.trans holds.length.symm) newest
      (holds.few.trans_eq holds.length.symm) ?_ ?_ holds.history
    · rw [holds.length]
      split <;> omega
    · split <;> omega
  · split <;> push_cast <;> omega
  · omega
  · split <;> omega

theorem Backlog.Holds.empty {fresh : Nat → UInt8} (positive : 0 < b.size)
    (allocated : b.buffer = some (zmallocBytes fresh b.size)) (none : b.histlen = 0)
    (rewound : b.idx = 0) (offset : b.masterOffset = base + stream.length)
    (first : b.off = b.masterOffset + 1)
    : b.Holds (zmallocBytes fresh b.size) base stream where
  allocated := allocated
  length := by simp [zmallocBytes]
  inside := by omega
  few := by omega
  offset := offset
  first := by omega
  history := by
    rw [none, List.eq_nil_of_length_eq_zero (length_ringHistory (Nat.zero_le _))]
    exact List.nil_suffix

end Steps

-- Reading

theorem replyLoop_piece {size : Nat} {buffer : List UInt8} (length : buffer.length = size)
    {j len : Nat} (inside : j + len ≤ size) (rounds : Nat)
    : replyLoop size buffer (rounds + 1) j len = .ok (sdsnewlen ((buffer.drop j).take len)) := by
  cases len with
  | zero => simp [replyLoop]
  | succ len =>
      have stop : replyLoop size buffer rounds 0 0 = .ok [] := by
        cases rounds <;> simp [replyLoop]
      have read : readBytes buffer j (len + 1) = .ok ((buffer.drop j).take (len + 1)) :=
        if_pos (length ▸ inside)
      rw [replyLoop, if_neg (by omega)]
      simp only [show ¬((size : Int) - j < ((len + 1 : Nat) : Int)) by omega, if_false,
        Int.toNat_natCast, read, ok_andThen, Int.sub_self, stop]
      rw [if_neg (by omega)]
      simp

/-- A text that is sent in two pieces, cut at `n`. -/
def sentPieces (n : Nat) (text : List UInt8) : List UInt8 :=
  sdsnewlen (text.take n) ++ sdsnewlen (text.drop n)

/-- Nothing is lost exactly when both pieces fit in a string. -/
theorem sentPieces_eq_iff {n : Nat} {text : List UInt8}
    : sentPieces n text = text ↔ min n text.length < 2 ^ 32 ∧ text.length - n < 2 ^ 32 := by
  rw [← List.length_take, ← List.length_drop]
  constructor
  · intro whole
    have counts := congrArg List.length whole
    have first := length_sdsnewlen_le (text.take n)
    have second := length_sdsnewlen_le (text.drop n)
    have total : (text.take n).length + (text.drop n).length = text.length := by
      rw [← List.length_append, List.take_append_drop]
    rw [sentPieces, List.length_append] at counts
    simp only [length_sdsnewlen] at counts first second
    omega
  · rintro ⟨first, second⟩
    rw [sentPieces, sdsnewlen_of_lt first, sdsnewlen_of_lt second, List.take_append_drop]

theorem length_sentPieces_le (n : Nat) (text : List UInt8)
    : (sentPieces n text).length ≤ text.length := by
  have first := length_sdsnewlen_le (text.take n)
  have second := length_sdsnewlen_le (text.drop n)
  rw [sentPieces, List.length_append]
  simp only [List.length_take, List.length_drop] at first second
  omega

theorem replyLoop_ok {size : Nat} {buffer : List UInt8} (length : buffer.length = size)
    {j len : Nat} (inside : j < size) (few : len ≤ size)
    : replyLoop size buffer (len + 1) j len
      = .ok (sentPieces (size - j) ((buffer.rotate j).take len)) := by
  rw [rotate_read (by omega) (by omega)]
  rcases Nat.lt_or_ge (size - j) len with wraps | straight
  · obtain ⟨rounds, succ⟩ : ∃ rounds, len = rounds + 1 := ⟨len - 1, by omega⟩
    obtain ⟨left, leftEq⟩ : ∃ left, left = len - (size - j) := ⟨_, rfl⟩
    have read : readBytes buffer j (size - j) = .ok ((buffer.drop j).take (size - j)) :=
      if_pos (by omega)
    have second := replyLoop_piece length (show 0 + left ≤ size by omega) rounds
    rw [replyLoop, if_neg (by omega)]
    simp only [show (size : Int) - j < (len : Int) by omega, if_true]
    rw [if_neg (by omega), Int.toNat_natCast, show ((size : Int) - j).toNat = size - j by omega,
      read, ok_andThen, show (len : Int) - (size - j) = (left : Nat) by omega]
    rw [Nat.cast_zero, ← succ, List.drop_zero] at second
    have tail : (buffer.drop j).length = size - j := by rw [List.length_drop, length]
    have first : (buffer.drop j).take (size - j) = buffer.drop j :=
      List.take_of_length_le tail.le
    have longer : (buffer.drop j).take len = buffer.drop j :=
      List.take_of_length_le (by omega)
    rw [second, ok_andThen, first, longer, length, ← leftEq, sentPieces,
      List.take_append_of_le_length tail.ge, first, List.drop_append_of_le_length tail.ge,
      List.drop_of_length_le tail.le, List.nil_append]
    rfl
  · rw [replyLoop_piece length (by omega), show len - (buffer.length - j) = 0 by omega]
    have whole : ((buffer.drop j).take len).length ≤ size - j := by
      rw [List.length_take, List.length_drop]
      omega
    rw [List.take_zero, List.append_nil, sentPieces, List.take_of_length_le whole,
      List.drop_of_length_le whole, sdsnewlen_nil, List.append_nil]

section Replies

variable {b : Backlog} {buffer : List UInt8} {base : Int} {stream : List UInt8}

theorem Backlog.Holds.history_eq (holds : b.Holds buffer base stream)
    : b.histlen ≤ stream.length
      ∧ ringHistory buffer b.idx b.histlen = stream.drop (stream.length - b.histlen) := by
  have size : (ringHistory buffer b.idx b.histlen).length = b.histlen :=
    length_ringHistory (holds.few.trans_eq holds.length.symm)
  have short := holds.history.length_le
  rw [size] at short
  refine ⟨short, ?_⟩
  have equal := List.suffix_iff_eq_drop.mp holds.history
  rwa [size] at equal

theorem Backlog.Holds.accepts_iff (holds : b.Holds buffer base stream) (offset : Int)
    : b.accepts offset = true
      ↔ b.masterOffset - b.histlen < offset ∧ offset ≤ b.masterOffset + 1 := by
  have first := holds.first
  simp only [Backlog.accepts, holds.allocated, Option.isNone_some, Bool.false_or, Bool.not_eq_true',
    Bool.or_eq_false_iff, decide_eq_false_iff_not]
  omega

/-- Where the byte that `len` bytes follow lies in the ring, and how many bytes are behind it up to
the end of the ring.
-/
theorem ring_position {idx size len : Nat} (inside : idx < size) (few : len ≤ size)
    : (len ≤ idx ∧ (idx + (size - len)) % size = idx - len)
      ∨ (idx < len ∧ (idx + (size - len)) % size = size - (len - idx)) := by
  rcases Nat.lt_or_ge idx len with beyond | before
  · refine Or.inr ⟨beyond, ?_⟩
    rw [Nat.mod_eq_of_lt (by omega)]
    omega
  · refine Or.inl ⟨before, ?_⟩
    rw [show idx + (size - len) = idx - len + size by omega, Nat.add_mod_right,
      Nat.mod_eq_of_lt (by omega)]

/-- The reply to an accepted offset is no longer than the bytes from it on, and it is these bytes
exactly when every piece of them fits in a string.
-/
theorem Backlog.Holds.reply (holds : b.Holds buffer base stream) {offset : Int}
    (accepted : b.accepts offset = true)
    : ∃ bytes,
        addReplyReplicationBacklog b offset = .ok (b.masterOffset + 1 - offset, bytes)
        ∧ bytes.length ≤ (stream.drop (offset - base - 1).toNat).length
        ∧ (bytes = stream.drop (offset - base - 1).toNat ↔ b.PiecesFit offset) := by
  obtain ⟨short, history⟩ := holds.history_eq
  obtain ⟨least, most⟩ := (holds.accepts_iff offset).mp accepted
  have first := holds.first
  have position := holds.offset
  unfold addReplyReplicationBacklog
  split
  · rename_i empty
    have atEnd : stream.drop (offset - base - 1).toNat = [] := List.drop_eq_nil_of_le (by omega)
    refine ⟨[], ?_, by simp, ?_⟩
    · congr 2
      omega
    · rw [atEnd, Backlog.PiecesFit, show (b.masterOffset + 1 - offset).toNat = 0 by omega]
      simp
  · rename_i some
    obtain ⟨skip, skipped⟩ : ∃ skip : Nat, offset - b.off = skip :=
      ⟨_, (Int.toNat_of_nonneg (by omega)).symm⟩
    have shorter : skip ≤ b.histlen := by omega
    obtain ⟨len, lenEq⟩ : ∃ len, len = b.histlen - skip := ⟨_, rfl⟩
    obtain ⟨j, jEq⟩ : ∃ j, j = ((b.idx + (b.size - b.histlen)) % b.size + skip) % b.size :=
      ⟨_, rfl⟩
    have few := holds.few
    have inside := holds.inside
    have physical
        : ((((b.idx : Int) + (b.size - b.histlen)).tmod b.size) + skip).tmod b.size
          = (j : Int) := by
      rw [jEq, show (b.idx : Int) + (b.size - b.histlen) = (b.idx + (b.size - b.histlen) : Nat) by
        omega]
      norm_cast
    have read := replyLoop_ok holds.length
      (show j < b.size by rw [jEq]; exact Nat.mod_lt _ (by omega)) (show len ≤ b.size by omega)
    have newest
        : (buffer.rotate j).take len = stream.drop (offset - base - 1).toNat := by
      calc
        (buffer.rotate j).take len
        _ = (buffer.rotate (b.idx + (buffer.length - b.histlen) + skip)).take len := by
          rw [jEq, Nat.mod_add_mod, ← holds.length, List.rotate_mod]
        _ = (ringHistory buffer b.idx b.histlen).drop skip := by
          rw [lenEq, ringHistory_drop (holds.few.trans_eq holds.length.symm) shorter]
        _ = stream.drop (offset - base - 1).toNat := by
          rw [history, List.drop_drop]
          congr 1
          omega
    have counted : (stream.drop (offset - base - 1).toNat).length = len := by
      rw [List.length_drop]
      omega
    refine ⟨sentPieces (b.size - j) (stream.drop (offset - base - 1).toNat), ?_,
      length_sentPieces_le _ _, ?_⟩
    · simp only [holds.allocated, skipped, physical]
      rw [show (b.histlen : Int) - skip = (len : Nat) by omega, Int.toNat_natCast, read, ok_andThen,
        newest]
      congr 2
      omega
    · have start : j = (b.idx + (b.size - len)) % b.size := by
        rw [jEq, Nat.mod_add_mod]
        congr 1
        omega
      rw [sentPieces_eq_iff, counted, Backlog.PiecesFit,
        show (b.masterOffset + 1 - offset).toNat = len by omega]
      rcases ring_position inside (show len ≤ b.size by omega) with ⟨before, at_j⟩ | ⟨beyond, at_j⟩
      · rw [start, at_j]
        omega
      · rw [start, at_j]
        omega

end Replies

-- Runs

def Backlog.Sound (b : Backlog) (base : Int) (stream : List UInt8) : Prop :=
  0 < b.size ∧ (b.buffer = none ∨ ∃ buffer, b.Holds buffer base stream)

section Runs

variable {b next : Backlog} {base : Int} {stream : List UInt8}

theorem create_sound {fresh : Nat → UInt8} (positive : 0 < b.size)
    (run : createReplicationBacklog fresh b = .ok next)
    : next.Sound next.masterOffset []
      ∧ next.masterOffset = b.masterOffset + 1
      ∧ next.off = b.masterOffset + 2 := by
  unfold createReplicationBacklog at run
  split at run
  · cases run
  · cases run
    refine ⟨⟨positive, Or.inr ⟨_, .empty positive rfl rfl rfl ?_ rfl⟩⟩, rfl, ?_⟩
    · simp
    · dsimp only
      omega

theorem resize_sound (fresh : Nat → UInt8) (newsize : Int) (sound : b.Sound base stream)
    : (resizeReplicationBacklog fresh b newsize).Sound base stream
      ∧ (resizeReplicationBacklog fresh b newsize).masterOffset = b.masterOffset
      ∧ (resizeReplicationBacklog fresh b newsize).buffer.isSome = b.buffer.isSome
      ∧ ((resizeReplicationBacklog fresh b newsize).off = b.off
        ∨ (resizeReplicationBacklog fresh b newsize).off = b.masterOffset + 1) := by
  unfold resizeReplicationBacklog
  obtain ⟨size, sizeEq⟩
      : ∃ size,
          size = if newsize < replBacklogMinSize then replBacklogMinSize else newsize.toNat :=
    ⟨_, rfl⟩
  have positive : 0 < size := by
    rw [sizeEq, replBacklogMinSize]
    split <;> omega
  simp only [← sizeEq]
  obtain ⟨_, freed | ⟨buffer, holds⟩⟩ := sound
  · split
    · exact ⟨⟨by omega, Or.inl freed⟩, rfl, rfl, Or.inl rfl⟩
    · rw [freed]
      exact ⟨⟨positive, Or.inl rfl⟩, rfl, rfl, Or.inl rfl⟩
  · split
    · exact ⟨⟨by omega, Or.inr ⟨buffer, holds⟩⟩, rfl, rfl, Or.inl rfl⟩
    · rw [holds.allocated]
      exact ⟨⟨positive, Or.inr ⟨_, .empty positive rfl rfl rfl holds.offset rfl⟩⟩, rfl, rfl,
        Or.inr rfl⟩

theorem feed_sound {data : List UInt8} (sound : b.Sound base stream)
    (run : feedReplicationBacklog b data = .ok next)
    : next.Sound base (stream ++ data)
      ∧ b.masterOffset ≤ next.masterOffset
      ∧ (next.buffer.isSome = true → b.buffer.isSome = true ∧ b.off ≤ next.off) := by
  obtain ⟨positive, freed | ⟨buffer, holds⟩⟩ := sound
  · simp only [feedReplicationBacklog, freed] at run
    split at run
    · cases run
      refine ⟨⟨positive, Or.inl rfl⟩, ?_, by simp [Backlog.afterFeed]⟩
      dsimp only [Backlog.afterFeed]
      omega
    · cases run
  · obtain ⟨after, buffer', ran, holds', first, later, _⟩ := holds.feed data
    cases run.symm.trans ran
    have inside := holds'.inside
    exact ⟨⟨by omega, Or.inr ⟨buffer', holds'⟩⟩, later, fun _ =>
      ⟨by simp [holds.allocated], first⟩⟩

theorem free_cases {slaves : Nat} (run : freeReplicationBacklog b slaves = .ok next)
    : next = { b with buffer := none } := by
  unfold freeReplicationBacklog at run
  split at run
  · cases run
    rfl
  · cases run

theorem BacklogRun.sound (reached : BacklogRun b base stream) : b.Sound base stream := by
  induction reached with
  | start => exact ⟨by decide, Or.inl rfl⟩
  | create before run ih => exact (create_sound ih.1 run).1
  | feed before run ih => exact (feed_sound ih run).1
  | @resize b next base newsize stream fresh before run ih =>
      cases run
      exact (resize_sound fresh newsize ih).1
  | free before run ih =>
      rw [free_cases run]
      exact ⟨ih.1, Or.inl rfl⟩

theorem BacklogSteps.after_free {freed : Backlog} (none : freed.buffer = none)
    (reached : ∃ base stream, BacklogRun freed base stream) (steps : BacklogSteps freed b)
    : (∃ base stream, BacklogRun b base stream)
      ∧ freed.masterOffset ≤ b.masterOffset
      ∧ (b.buffer.isSome = true
        → freed.masterOffset + 1 ≤ b.masterOffset ∧ freed.masterOffset + 2 ≤ b.off) := by
  induction steps with
  | refl => exact ⟨reached, le_rfl, by simp [none]⟩
  | @step mid next op before run ih =>
      obtain ⟨⟨base, stream, ran⟩, later, first⟩ := ih
      cases op with
      | create fresh =>
          obtain ⟨_, offset, start⟩ := create_sound ran.sound.1 run
          exact ⟨⟨_, _, ran.create run⟩, by omega, fun _ => by omega⟩
      | feed data =>
          obtain ⟨_, grown, kept⟩ := feed_sound ran.sound run
          refine ⟨⟨_, _, ran.feed run⟩, by omega, fun allocated => ?_⟩
          obtain ⟨was, monotone⟩ := kept allocated
          have start := first was
          omega
      | resize fresh newsize =>
          obtain ⟨_, offset, was, start⟩ := resize_sound fresh newsize ran.sound
          refine ⟨⟨_, _, ran.resize run⟩, ?_⟩
          rw [← Except.ok.inj run]
          refine ⟨by omega, fun allocated => ?_⟩
          have bounds := first (was ▸ allocated)
          omega
      | free slaves =>
          refine ⟨⟨_, _, ran.free run⟩, ?_, ?_⟩
          · rw [free_cases run]
            exact later
          · rw [free_cases run]
            simp

/-- Over every run the ring holds exactly the last `repl_backlog_histlen` bytes of the stream
and the four counters agree. A partial resynchronisation is granted only for an offset from
which on the whole stream is in the ring, and then ends, with exactly those bytes if and
only if each of their pieces in the ring fits in a string; an offset that was good for a
backlog freed earlier is refused.
-/
theorem partial_resync_exact_iff (reached : BacklogRun b base stream)
    : (∀ buffer,
        b.buffer = some buffer
        → ringHistory buffer b.idx b.histlen = stream.drop (stream.length - b.histlen)
          ∧ b.histlen ≤ stream.length
          ∧ b.idx < b.size
          ∧ b.masterOffset = base + stream.length
          ∧ b.off + b.histlen = b.masterOffset + 1)
      ∧ (∀ (runid : List UInt8) (request : PsyncRequest),
          (∀ written,
            masterTryPartialResynchronization b runid request written = .ok .fullResync)
          ∨ ∃ offset : Int64,
              request.offset = some offset
              ∧ b.buffer.isSome = true
              ∧ b.masterOffset - b.histlen < offset.toInt
              ∧ offset.toInt ≤ b.masterOffset + 1
              ∧ masterTryPartialResynchronization b runid request false = .ok .dropped
              ∧ ∃ bytes,
                  masterTryPartialResynchronization b runid request true = .ok (.resumed bytes)
                  ∧ (bytes = stream.drop (offset.toInt - base - 1).toNat
                    ↔ b.PiecesFit offset.toInt))
      ∧ ∀ (older freed : Backlog) (olderBase : Int) (olderStream : List UInt8) (slaves : Nat)
          (offset : Int),
          BacklogRun older olderBase olderStream
          → older.accepts offset = true
          → freeReplicationBacklog older slaves = .ok freed
          → BacklogSteps freed b
          → b.accepts offset = false := by
  have sound := reached.sound
  refine ⟨?_, ?_, ?_⟩
  · intro buffer allocated
    rcases sound.2 with freed | ⟨own, holds⟩
    · rw [freed] at allocated
      cases allocated
    · cases holds.allocated.symm.trans allocated
      exact ⟨holds.history_eq.2, holds.history_eq.1, holds.inside, holds.offset, holds.first⟩
  · intro runid request
    cases own : strcaseEqual request.runid runid with
    | false => exact Or.inl fun written => by simp [masterTryPartialResynchronization, own]
    | true =>
        cases asked : request.offset with
        | none =>
            exact Or.inl fun written => by simp [masterTryPartialResynchronization, own, asked]
        | some offset =>
            cases accepted : b.accepts offset.toInt with
            | false =>
                exact Or.inl fun written => by
                  simp [masterTryPartialResynchronization, own, asked, accepted]
            | true =>
                rcases sound.2 with freed | ⟨buffer, holds⟩
                · simp [Backlog.accepts, freed] at accepted
                · obtain ⟨least, most⟩ := (holds.accepts_iff offset.toInt).mp accepted
                  obtain ⟨bytes, reply, _, exactly⟩ := holds.reply accepted
                  refine Or.inr ⟨offset, rfl, by simp [holds.allocated], least, most, ?_, bytes,
                    ?_, exactly⟩
                  · simp [masterTryPartialResynchronization, own, asked, accepted]
                  · simp [masterTryPartialResynchronization, own, asked, accepted, reply]
  · intro older freed olderBase olderStream slaves offset ran accepted free steps
    have gone := free_cases free
    obtain ⟨_, _, beyond⟩ := steps.after_free (by rw [gone])
      ⟨olderBase, olderStream, ran.free free⟩
    have last : offset ≤ freed.masterOffset + 1 := by
      rcases ran.sound.2 with none | ⟨buffer, holds⟩
      · simp [Backlog.accepts, none] at accepted
      · rw [gone]
        exact ((holds.accepts_iff offset).mp accepted).2
    cases allocated : b.buffer with
    | none => simp [Backlog.accepts, allocated]
    | some buffer =>
        have first := (beyond (by simp [allocated])).2
        simp only [Backlog.accepts, Bool.not_eq_false', Bool.or_eq_true, decide_eq_true_eq]
        omega

end Runs

/-- What a backlog of `size` bytes holds after `data` was fed to it in one call, the first since it
was created: the offset behind it is one past the number of its bytes.
-/
theorem first_feed {size : Nat} (large : replBacklogMinSize ≤ size) (data : List UInt8)
    : ∃ b buffer,
        BacklogRun b 1 data
        ∧ b.Holds buffer 1 data
        ∧ b.histlen = min data.length size
        ∧ b.masterOffset = 1 + data.length := by
  have grown : (resizeReplicationBacklog (fun _ => 0) .initial size).size = size
      ∧ (resizeReplicationBacklog (fun _ => 0) .initial size).buffer = none
      ∧ (resizeReplicationBacklog (fun _ => 0) .initial size).masterOffset = 0 := by
    have kept
        : (if (size : Int) < replBacklogMinSize then replBacklogMinSize else (size : Int).toNat)
          = size := by
      rw [if_neg (by omega), Int.toNat_natCast]
    simp only [resizeReplicationBacklog, kept]
    split
    · rename_i same
      exact ⟨same, rfl, rfl⟩
    · exact ⟨rfl, rfl, rfl⟩
  obtain ⟨sized, resized⟩
      : ∃ sized, sized = resizeReplicationBacklog (fun _ => 0) .initial size := ⟨_, rfl⟩
  rw [← resized] at grown
  obtain ⟨sizeEq, freed, zero⟩ := grown
  have steps : (BacklogOp.resize (fun _ => 0) size).step .initial = .ok sized := by
    rw [resized]
    rfl
  have resizedRun : BacklogRun sized 0 [] := BacklogRun.start.resize steps
  obtain ⟨created, createdEq⟩
      : ∃ created, createReplicationBacklog (fun _ => 0) sized = .ok created := by
    simp [createReplicationBacklog, freed]
  have run := resizedRun.create createdEq
  obtain ⟨sound, offset, _⟩ :=
    create_sound (by rw [sizeEq, replBacklogMinSize] at *; omega) createdEq
  have shape : created.size = size ∧ created.histlen = 0 ∧ created.buffer ≠ none := by
    simp only [createReplicationBacklog, freed, Option.isSome_none, Bool.false_eq_true, if_false,
      Except.ok.injEq] at createdEq
    rw [← createdEq]
    exact ⟨sizeEq, rfl, by simp⟩
  obtain ⟨buffer, holds⟩ := sound.2.resolve_left shape.2.2
  obtain ⟨b, buffer', fed, holds', _, _, histlen⟩ := holds.feed data
  have one : created.masterOffset = 1 := by rw [offset, zero]; rfl
  have ran := run.feed fed
  rw [one, List.nil_append] at ran holds'
  refine ⟨b, buffer', ran, holds', ?_, holds'.offset⟩
  rw [histlen, shape.1, shape.2.1, Nat.zero_add]

/-- The theorem after five bytes were fed to a new backlog: a slave that has the first two
of them, numbered 2 and 3, gets the other three.
-/
theorem partial_resync_exact_iff_five_bytes
    : ∃ b,
        BacklogRun b 1 [1, 2, 3, 4, 5]
        ∧ masterTryPartialResynchronization b [0x41] { runid := [0x61], offset := some 4 } true
          = .ok (.resumed [3, 4, 5]) := by
  obtain ⟨b, buffer, ran, holds, five, six⟩ :=
    first_feed (show replBacklogMinSize ≤ 1024 * 1024 by decide) [1, 2, 3, 4, 5]
  have accepted : b.accepts (4 : Int64).toInt = true := by
    rw [holds.accepts_iff, five, six]
    decide
  refine ⟨b, ran, ?_⟩
  rcases (partial_resync_exact_iff ran).2.1 [0x41] { runid := [0x61], offset := some 4 } with
    refused | ⟨offset, asked, _, _, _, _, bytes, reply, exactly⟩
  · have refuses : b.accepts (4 : Int64).toInt = false := by
      simpa [masterTryPartialResynchronization, strcaseEqual, lowerCase] using refused true
    rw [accepted] at refuses
    cases refuses
  · cases asked
    rw [reply, exactly.mpr]
    · rfl
    · have three : (b.masterOffset + 1 - (4 : Int64).toInt).toNat = 3 := by
        rw [six]
        decide
      rw [Backlog.PiecesFit, three]
      omega

/-- A slave that asks for all of a full backlog of `2 ^ 33` bytes gets less: one of the two pieces
at least takes `2 ^ 32` bytes or more.
-/
theorem large_piece_loses_bytes
    : ∃ b stream bytes,
        BacklogRun b 1 stream
        ∧ masterTryPartialResynchronization b [0x61] { runid := [0x61], offset := some 2 } true
          = .ok (.resumed bytes)
        ∧ bytes ≠ stream.drop ((2 : Int64).toInt - 1 - 1).toNat := by
  obtain ⟨size, long⟩ : ∃ size, size = 2 ^ 33 := ⟨_, rfl⟩
  obtain ⟨b, buffer, ran, holds, full, position⟩ :=
    first_feed (show replBacklogMinSize ≤ size by rw [long]; decide) (List.replicate size 0)
  rw [List.length_replicate] at full position
  have two : (2 : Int64).toInt = 2 := rfl
  have accepted : b.accepts 2 = true := by
    rw [holds.accepts_iff]
    omega
  obtain ⟨bytes, reply, _, exactly⟩ := holds.reply accepted
  refine ⟨b, _, bytes, ran, ?_, fun same => ?_⟩
  · simp [masterTryPartialResynchronization, strcaseEqual, two, accepted, reply]
  · have fit := exactly.mp same
    rw [Backlog.PiecesFit] at fit
    omega

end Redis
