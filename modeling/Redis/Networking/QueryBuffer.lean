import Redis.Aof.Format

/-! `processMultibulkBuffer`: a command is taken from the query buffer in pieces, as the bytes
arrive.
-/

namespace Redis

open Redis.Library

-- The code

/-- `REDIS_INLINE_MAX_SIZE`. -/
def inlineMaxSize : Nat := 1024 * 64

/-- `REDIS_MBULK_BIG_ARG`. -/
def mbulkBigArg : Nat := 1024 * 32

/-- The largest `multibulklen` and the largest `bulklen` that are accepted. -/
def multibulkMax : Nat := 1024 * 1024
def bulkMax : Nat := 512 * 1024 * 1024

/-- What `processMultibulkBuffer` keeps in the client. -/
structure QueryClient where
  querybuf : List UInt8
  multibulklen : Nat
  /-- `-1` is none. -/
  bulklen : Option Nat
  argv : Argv
  closeAfterReply : Bool
deriving DecidableEq, Repr

/-- `strchr`, which does not look behind a zero byte. -/
def strchr (target : UInt8) : List UInt8 → Option Nat
  | [] => none
  | c :: rest =>
      if c = target then some 0 else if c = 0 then none else (strchr target rest).map (· + 1)

/-- Looking for `\r\n` in the query buffer. -/
inductive LineRead where
  /-- No `\r`. -/
  | missing
  /-- No byte behind the `\r`. -/
  | short
  /-- The line in front of the `\r` and the place behind the `\n`. -/
  | line (text : List UInt8) (next : Nat)

def readLine (querybuf : List UInt8) (pos : Nat) : LineRead :=
  match strchr 0x0D (querybuf.drop pos) with
  | none => .missing
  | some newline =>
      if querybuf.length < pos + newline + 2 then .short
      else .line ((querybuf.drop pos).take newline) (pos + newline + 2)

/-- The part of the loop that reads the length of an argument. -/
inductive BulkLength where
  | stop
  | protocolError (pos : Nat)
  | known (querybuf : List UInt8) (pos bulklen : Nat)

def readBulkLength (querybuf : List UInt8) (pos : Nat) : BulkLength :=
  match readLine querybuf pos with
  | .missing => if inlineMaxSize < querybuf.length then .protocolError 0 else .stop
  | .short => .stop
  | .line text next =>
      if text.head? ≠ some 0x24 then .protocolError pos
      else
        match string2ll text.tail with
        | none => .protocolError pos
        | some ll =>
            if ll < 0 ∨ (bulkMax : Int) < ll then .protocolError pos
            else if mbulkBigArg ≤ ll.toNat then .known (querybuf.drop next) 0 ll.toNat
            else .known querybuf next ll.toNat

/-- The length of the next argument, which an earlier call may have read. -/
def bulkLength (querybuf : List UInt8) (pos : Nat) : (bulklen : Option Nat) → BulkLength
  | some bulklen => .known querybuf pos bulklen
  | none => readBulkLength querybuf pos

/-- The loop over the arguments; it returns `REDIS_OK` if the command is whole. -/
def processBulks
    : (multibulklen : Nat) → (querybuf : List UInt8) → (pos : Nat) → (bulklen : Option Nat)
      → (argv : Argv) → QueryClient × Bool
  | 0, querybuf, pos, bulklen, argv => (⟨querybuf.drop pos, 0, bulklen, argv, false⟩, true)
  | left + 1, querybuf, pos, bulklen, argv =>
      match bulkLength querybuf pos bulklen with
      | .stop => (⟨querybuf.drop pos, left + 1, none, argv, false⟩, false)
      | .protocolError pos => (⟨querybuf.drop pos, left + 1, none, argv, true⟩, false)
      | .known querybuf pos bulklen =>
          if querybuf.length - pos < bulklen + 2 then
            (⟨querybuf.drop pos, left + 1, some bulklen, argv, false⟩, false)
          else if pos = 0 ∧ mbulkBigArg ≤ bulklen ∧ querybuf.length = bulklen + 2 then
            -- The buffer becomes the argument.
            processBulks left [] 0 none (argv ++ [querybuf.take bulklen])
          else
            processBulks left querybuf (pos + bulklen + 2) none
              (argv ++ [(querybuf.drop pos).take bulklen])

/-- The start of a command: the number of its arguments, and the arguments that are there. -/
def readMultibulkLength (c : QueryClient) : QueryClient × Bool :=
  match readLine c.querybuf 0 with
  | .missing =>
      if inlineMaxSize < c.querybuf.length then ({ c with closeAfterReply := true }, false)
      else (c, false)
  | .short => (c, false)
  | .line text next =>
      match string2ll text.tail with
      | none => ({ c with closeAfterReply := true }, false)
      | some ll =>
          if (multibulkMax : Int) < ll then ({ c with closeAfterReply := true }, false)
          else if ll ≤ 0 then ({ c with querybuf := c.querybuf.drop next }, true)
          else processBulks ll.toNat c.querybuf next none c.argv

def processMultibulkBuffer (c : QueryClient) : QueryClient × Bool :=
  if c.multibulklen = 0 then readMultibulkLength c
  else processBulks c.multibulklen c.querybuf 0 c.bulklen c.argv

def resetClient (c : QueryClient) : QueryClient :=
  { c with multibulklen := 0, bulklen := none, argv := [] }

section Lines

variable {querybuf front rest : List UInt8} {pos n : Nat} {mark : UInt8}

theorem strchr_found {target : UInt8} (clean : ∀ c ∈ front, c ≠ target ∧ c ≠ 0)
    : strchr target (front ++ target :: rest) = some front.length := by
  induction front with
  | nil => simp [strchr]
  | cons c front ih =>
      obtain ⟨other, nonzero⟩ := clean c (by simp)
      rw [List.cons_append, strchr, if_neg other, if_neg nonzero,
        ih (fun d member => clean d (by simp [member]))]
      rfl

theorem strchr_clean {target : UInt8} (clean : ∀ c ∈ front, c ≠ target ∧ c ≠ 0)
    : strchr target front = none := by
  induction front with
  | nil => rfl
  | cons c front ih =>
      obtain ⟨other, nonzero⟩ := clean c (by simp)
      rw [strchr, if_neg other, if_neg nonzero, ih (fun d member => clean d (by simp [member]))]
      rfl

/-- A mark that is neither the end of a line nor the end of a string. -/
structure Mark (mark : UInt8) : Prop where
  notReturn : mark ≠ 0x0D
  nonzero : mark ≠ 0

theorem digit_ne_return {c : UInt8} (digit : isDigitFrom 0x30 c = true) : c ≠ 0x0D ∧ c ≠ 0 := by
  refine ⟨?_, (digit_facts digit).2.2.2.2⟩
  rintro rfl
  exact absurd digit (by decide)

theorem markedText_clean (plain : Mark mark) (n : Nat)
    : ∀ c ∈ mark :: naturalText n, c ≠ 0x0D ∧ c ≠ 0 := by
  intro c member
  rcases List.mem_cons.mp member with rfl | digit
  · exact ⟨plain.notReturn, plain.nonzero⟩
  · exact digit_ne_return (naturalText_digits n c digit)

theorem markedLine_split (mark : UInt8) (n : Nat)
    : markedLine mark n = (mark :: naturalText n) ++ 0x0D :: [0x0A] := rfl

theorem readLine_line (plain : Mark mark) (content : querybuf.drop pos = markedLine mark n ++ rest)
    : readLine querybuf pos
      = .line (mark :: naturalText n) (pos + (markedLine mark n).length) := by
  have found : strchr 0x0D (querybuf.drop pos) = some (mark :: naturalText n).length := by
    rw [content, markedLine_split, List.append_assoc]
    exact strchr_found (markedText_clean plain n)
  have lengths := congrArg List.length content
  simp only [List.length_drop, List.length_append, markedLine_split, List.length_cons,
    List.length_nil] at lengths
  have enough : ¬ querybuf.length < pos + (mark :: naturalText n).length + 2 := by
    simp only [List.length_cons]
    omega
  simp only [readLine, found]
  rw [if_neg enough, content, markedLine_split, List.append_assoc, List.take_left]
  simp only [List.length_append, List.length_cons, List.length_nil, Nat.add_assoc]

theorem readLine_cut (plain : Mark mark) (cut : CutShort (querybuf.drop pos) (markedLine mark n))
    (inside : pos ≤ querybuf.length)
    : readLine querybuf pos = .missing ∨ readLine querybuf pos = .short := by
  rw [markedLine_split, List.append_cons] at cut
  obtain ⟨more, body⟩ := cut.line
  have clean := markedText_clean plain n
  rcases List.append_eq_append_iff.mp body with ⟨between, front, tail⟩ | ⟨between, front, tail⟩
  · -- The line is there up to its `\r` or a byte before it.
    cases between with
    | nil =>
        have none : strchr 0x0D (querybuf.drop pos) = none := by
          rw [front, List.append_nil]
          exact strchr_clean clean
        exact .inl (by simp only [readLine, none])
    | cons c others =>
        obtain ⟨rfl, rest⟩ := List.cons.inj tail
        obtain ⟨rfl, _⟩ := List.append_eq_nil_iff.mp rest.symm
        have found : strchr 0x0D (querybuf.drop pos) = some (mark :: naturalText n).length := by
          rw [front]
          exact strchr_found clean
        have lengths := congrArg List.length front
        simp only [List.length_drop, List.length_append, List.length_cons, List.length_nil]
          at lengths
        right
        simp only [readLine, found]
        rw [if_pos (by simp only [List.length_cons]; omega)]
  · have none : strchr 0x0D (querybuf.drop pos) = none := by
      refine strchr_clean ?_
      intro c member
      exact clean c (by rw [front]; exact List.mem_append_left _ member)
    exact .inl (by simp only [readLine, none])

end Lines

section Arguments

variable {querybuf rest missing : List UInt8} {pos n : Nat} {bulklen : Option Nat}
variable {left argv full : Argv} {c : QueryClient}

theorem dollarMark : Mark 0x24 := ⟨by decide, by decide⟩

theorem string2ll_naturalText (small : n < 2 ^ 63)
    : string2ll (naturalText n) = some (n : Int) := by
  have text : decimalText n = naturalText n := if_neg (by omega)
  rw [← text]
  exact string2ll_decimalText (by omega) (by omega)

theorem readBulkLength_line (small : n ≤ bulkMax)
    (content : querybuf.drop pos = markedLine 0x24 n ++ rest)
    : ∃ querybuf' pos', readBulkLength querybuf pos = .known querybuf' pos' n
        ∧ querybuf'.drop pos' = rest := by
  have word : n < 2 ^ 63 := Nat.lt_of_le_of_lt small (by decide)
  have behind : querybuf.drop (pos + (markedLine 0x24 n).length) = rest := by
    rw [← List.drop_drop, content, List.drop_left]
  unfold readBulkLength
  rw [readLine_line dollarMark content]
  simp only [List.head?_cons, ne_eq, not_true, if_false, List.tail_cons, string2ll_naturalText word]
  rw [if_neg (by omega), Int.toNat_natCast]
  split
  · exact ⟨_, _, rfl, behind⟩
  · exact ⟨_, _, rfl, behind⟩

theorem readBulkLength_cut (cut : CutShort (querybuf.drop pos) (markedLine 0x24 n))
    (inside : pos ≤ querybuf.length)
    : readBulkLength querybuf pos = .stop ∨ readBulkLength querybuf pos = .protocolError 0 := by
  unfold readBulkLength
  rcases readLine_cut dollarMark cut inside with none | short
  · rw [none]
    dsimp only
    split
    · exact .inr rfl
    · exact .inl rfl
  · rw [short]
    exact .inl rfl

/-- The bytes of the arguments that are left, without the length line of the first if its length
has been read.
-/
def bulkBytes : (bulklen : Option Nat) → (left : Argv) → List UInt8
  | none, left => left.flatMap aofArgument
  | some _, [] => []
  | some _, arg :: more => arg ++ crlf ++ more.flatMap aofArgument

/-- A length that has been read is that of the next argument. -/
def BulkKnown (bulklen : Option Nat) (left : Argv) : Prop :=
  ∀ len ∈ bulklen, ∃ arg more, left = arg :: more ∧ arg.length = len

/-- The arguments have lengths that are accepted. -/
def BulksAccepted (left : Argv) : Prop := ∀ arg ∈ left, arg.length ≤ bulkMax

theorem bulkLength_whole {arg : List UInt8} (accepted : arg.length ≤ bulkMax)
    (known : BulkKnown bulklen (arg :: left))
    (content : querybuf.drop pos = bulkBytes bulklen (arg :: left) ++ rest)
    : ∃ querybuf' pos', bulkLength querybuf pos bulklen = .known querybuf' pos' arg.length
        ∧ querybuf'.drop pos' = arg ++ crlf ++ (left.flatMap aofArgument ++ rest) := by
  cases bulklen with
  | none =>
      have line : querybuf.drop pos
          = markedLine 0x24 arg.length ++ (arg ++ crlf ++ (left.flatMap aofArgument ++ rest)) := by
        rw [content, bulkBytes, List.flatMap_cons, aofArgument]
        simp only [List.append_assoc]
      exact readBulkLength_line accepted line
  | some len =>
      obtain ⟨other, more, same, length⟩ := known len rfl
      obtain ⟨rfl, rfl⟩ := List.cons.inj same
      refine ⟨querybuf, pos, ?_, ?_⟩
      · rw [length]
        rfl
      · rw [content, bulkBytes, List.append_assoc]

theorem processBulks_whole (accepted : BulksAccepted left) (known : BulkKnown bulklen left)
    (content : querybuf.drop pos = bulkBytes bulklen left ++ rest)
    : processBulks left.length querybuf pos bulklen argv
      = (⟨rest, 0, none, argv ++ left, false⟩, true) := by
  induction left generalizing querybuf pos bulklen argv with
  | nil =>
      cases bulklen with
      | none => simpa [processBulks, bulkBytes] using content
      | some len =>
          obtain ⟨arg, more, same, _⟩ := known len rfl
          cases same
  | cons arg left ih =>
      obtain ⟨querybuf', pos', found, stands⟩ :=
        bulkLength_whole (accepted arg (by simp)) known content
      have lengths := congrArg List.length stands
      simp only [List.length_drop, List.length_append, crlf, List.length_cons, List.length_nil]
        at lengths
      have others : BulksAccepted left := fun other member => accepted other (by simp [member])
      have unknown : BulkKnown none left := by
        intro len member
        cases member
      rw [List.length_cons, processBulks, found]
      dsimp only
      rw [if_neg (by omega)]
      have taken : (querybuf'.drop pos').take arg.length = arg := by
        rw [stands, List.append_assoc, List.take_left]
      split
      · rename_i whole
        obtain ⟨rfl, _, exact⟩ := whole
        have empty : left.flatMap aofArgument ++ rest = [] := by
          refine List.eq_nil_of_length_eq_zero ?_
          rw [List.length_append]
          omega
        rw [List.drop_zero] at taken
        rw [taken, ih others unknown (by rw [bulkBytes, empty]; rfl), List.append_assoc]
        rfl
      · have behind : querybuf'.drop (pos' + arg.length + 2) = bulkBytes none left ++ rest := by
          rw [Nat.add_assoc, ← List.drop_drop, stands, ← List.drop_drop, List.append_assoc,
            List.drop_left]
          rfl
        rw [taken, ih others unknown behind, List.append_assoc]
        rfl

/-- The bytes of a command that the client has not taken from its buffer. -/
inductive Pending (full : Argv) (c : QueryClient) : List UInt8 → Prop
  | start (fresh : c.multibulklen = 0) (noBulk : c.bulklen = none) (noArgs : c.argv = [])
    : Pending full c (aofCommand full)
  | inside (left : Argv) (args : c.argv ++ left = full) (some : left ≠ [])
    (count : c.multibulklen = left.length) (known : BulkKnown c.bulklen left)
    : Pending full c (bulkBytes c.bulklen left)

/-- The client waits for the rest of a command, or it has met an error. -/
def Waits (full : Argv) (c : QueryClient) (missing : List UInt8) : Prop :=
  c.closeAfterReply = true
  ∨ c.closeAfterReply = false ∧ ∃ bytes, Pending full c bytes ∧ c.querybuf ++ missing = bytes

theorem processBulks_known {arg content : List UInt8} {count : Nat} {querybuf' : List UInt8}
    {pos' : Nat}
    (found : bulkLength querybuf pos bulklen = .known querybuf' pos' arg.length)
    (stands : querybuf'.drop pos' = content)
    (whole : content ++ missing = arg ++ crlf ++ rest)
    : (content.length < arg.length + 2
        ∧ processBulks (count + 1) querybuf pos bulklen argv
          = (⟨content, count + 1, some arg.length, argv, false⟩, false))
      ∨ ∃ querybuf'' pos'' more,
          processBulks (count + 1) querybuf pos bulklen argv
            = processBulks count querybuf'' pos'' none (argv ++ [arg])
          ∧ querybuf''.drop pos'' = more ∧ pos'' ≤ querybuf''.length ∧ more ++ missing = rest := by
  have length : querybuf'.length - pos' = content.length := by
    rw [← stands, List.length_drop]
  rw [processBulks, found]
  dsimp only
  rw [length, stands]
  split
  · rename_i short
    exact .inl ⟨short, rfl⟩
  · rename_i enough
    right
    have fits : (arg ++ crlf).length ≤ content.length := by
      simp only [List.length_append, crlf, List.length_cons, List.length_nil]
      omega
    obtain ⟨more, parts⟩ : ∃ more, content = arg ++ crlf ++ more := by
      rcases List.append_eq_append_iff.mp whole with ⟨between, front, tail⟩ | ⟨more, front, _⟩
      · have lengths := congrArg List.length front
        simp only [List.length_append] at lengths fits
        have empty : between = [] := List.eq_nil_of_length_eq_zero (by omega)
        exact ⟨[], by rw [front, empty]; simp⟩
      · exact ⟨more, front⟩
    have rests : more ++ missing = rest := by
      rw [parts, List.append_assoc, List.append_cancel_left_eq] at whole
      exact whole
    have taken : content.take arg.length = arg := by
      rw [parts, List.append_assoc, List.take_left]
    have lengths := congrArg List.length parts
    simp only [List.length_append, crlf, List.length_cons, List.length_nil] at lengths
    split
    · rename_i exactly
      obtain ⟨rfl, _, all⟩ := exactly
      rw [List.drop_zero] at stands
      refine ⟨[], 0, more, ?_, ?_, Nat.le_refl 0, rests⟩
      · rw [stands, taken]
      · have empty : more = [] := List.eq_nil_of_length_eq_zero (by omega)
        rw [empty]
        rfl
    · refine ⟨querybuf', pos' + arg.length + 2, more, ?_, ?_, by omega, rests⟩
      · rw [taken]
      · rw [Nat.add_assoc, ← List.drop_drop, stands, parts, ← List.drop_drop, List.append_assoc,
          List.drop_left]
        rfl

theorem processBulks_cut (accepted : BulksAccepted left) (known : BulkKnown bulklen left)
    (inside : pos ≤ querybuf.length) (absent : missing ≠ [])
    (content : querybuf.drop pos ++ missing = bulkBytes bulklen left)
    : ∃ c, processBulks left.length querybuf pos bulklen argv = (c, false)
        ∧ Waits (argv ++ left) c missing := by
  induction left generalizing querybuf pos bulklen argv with
  | nil =>
      have nothing : bulkBytes bulklen [] = [] := by cases bulklen <;> rfl
      rw [nothing] at content
      exact absurd (List.append_eq_nil_iff.mp content).2 absent
  | cons arg left ih =>
      have others : BulksAccepted left := fun other member => accepted other (by simp [member])
      have unknown : BulkKnown none left := by
        intro len member
        cases member
      have continue_ : ∀ querybuf' pos',
          bulkLength querybuf pos bulklen = .known querybuf' pos' arg.length
          → querybuf'.drop pos' ++ missing = arg ++ crlf ++ left.flatMap aofArgument
          → ∃ c, processBulks (arg :: left).length querybuf pos bulklen argv = (c, false)
              ∧ Waits (argv ++ arg :: left) c missing := by
        intro querybuf' pos' found whole
        rcases processBulks_known found rfl whole with
          ⟨short, stop⟩ | ⟨querybuf'', pos'', more, next, stands, room, rests⟩
        · refine ⟨_, stop, .inr ⟨rfl, _, .inside (arg :: left) rfl (by simp) rfl ?_, whole⟩⟩
          intro len member
          cases member
          exact ⟨arg, left, rfl, rfl⟩
        · obtain ⟨c, ran, waits⟩ := ih others unknown room (by rw [stands]; exact rests)
          refine ⟨c, next.trans ran, ?_⟩
          rwa [List.append_assoc, List.singleton_append] at waits
      cases bulklen with
      | some len =>
          obtain ⟨other, more, same, length⟩ := known len rfl
          obtain ⟨rfl, rfl⟩ := List.cons.inj same
          exact continue_ querybuf pos (by rw [length]; rfl) content
      | none =>
          have parts : bulkBytes none (arg :: left)
              = markedLine 0x24 arg.length ++ (arg ++ crlf ++ left.flatMap aofArgument) := by
            rw [bulkBytes, List.flatMap_cons, aofArgument]
            simp only [List.append_assoc]
          have cut : CutShort (querybuf.drop pos)
              (markedLine 0x24 arg.length ++ (arg ++ crlf ++ left.flatMap aofArgument)) :=
            ⟨missing, absent, content.trans parts⟩
          rcases cut.append with inLine | ⟨more, front, _⟩
          · rcases readBulkLength_cut inLine inside with stop | error
            · refine ⟨⟨querybuf.drop pos, left.length + 1, none, argv, false⟩, ?_,
                .inr ⟨rfl, _, .inside (arg :: left) rfl (by simp) rfl ?_, content⟩⟩
              · rw [List.length_cons, processBulks, bulkLength, stop]
              · intro len member
                cases member
            · refine ⟨⟨querybuf.drop 0, left.length + 1, none, argv, true⟩, ?_, .inl rfl⟩
              rw [List.length_cons, processBulks, bulkLength, error]
          · obtain ⟨querybuf', pos', found, stands⟩ :=
              readBulkLength_line (accepted arg (by simp)) front
            refine continue_ querybuf' pos' found ?_
            rw [stands]
            rw [front, parts, List.append_assoc, List.append_cancel_left_eq] at content
            exact content

-- Commands

/-- A command that the parser accepts. -/
structure StreamCommand (argv : Argv) : Prop where
  some : argv ≠ []
  argc_le : argv.length ≤ multibulkMax
  bulks : BulksAccepted argv

theorem starMark : Mark 0x2A := ⟨by decide, by decide⟩

theorem StreamCommand.argc_pos (command : StreamCommand full) : 0 < full.length :=
  List.length_pos_of_ne_nil command.some

theorem processMultibulkBuffer_line (command : StreamCommand full)
    (fresh : c.multibulklen = 0) (noArgs : c.argv = [])
    (content : c.querybuf = markedLine 0x2A full.length ++ rest)
    : processMultibulkBuffer c
      = processBulks full.length c.querybuf (markedLine 0x2A full.length).length none [] := by
  have word : full.length < 2 ^ 63 := Nat.lt_of_le_of_lt command.argc_le (by decide)
  have positive := command.argc_pos
  have small := command.argc_le
  have line : readLine c.querybuf 0 = _ :=
    readLine_line starMark (by rw [List.drop_zero]; exact content)
  unfold processMultibulkBuffer readMultibulkLength
  rw [if_pos fresh, line]
  simp only [List.tail_cons, string2ll_naturalText word]
  rw [if_neg (by omega), if_neg (by omega), Int.toNat_natCast, Nat.zero_add, noArgs]

/-- A whole command is parsed, wherever it was cut before. -/
theorem processMultibulkBuffer_whole {bytes : List UInt8}
    (command : StreamCommand full) (pending : Pending full c bytes)
    (content : c.querybuf = bytes ++ rest)
    : processMultibulkBuffer c = (⟨rest, 0, none, full, false⟩, true) := by
  cases pending with
  | start fresh noBulk noArgs =>
      rw [aofCommand, List.append_assoc] at content
      rw [processMultibulkBuffer_line command fresh noArgs content]
      refine processBulks_whole command.bulks (by intro len member; cases member) ?_
      rw [content, List.drop_left]
      rfl
  | inside left args nonempty count known =>
      have accepted : BulksAccepted left := by
        intro arg member
        exact command.bulks arg (by rw [← args]; exact List.mem_append_right _ member)
      have positive := List.length_pos_of_ne_nil nonempty
      rw [processMultibulkBuffer, if_neg (by omega), count, ← args]
      exact processBulks_whole accepted known (by rw [List.drop_zero]; exact content)

/-- A part of a command waits for the rest. -/
theorem processMultibulkBuffer_cut {bytes : List UInt8}
    (command : StreamCommand full) (pending : Pending full c bytes)
    (opened : c.closeAfterReply = false) (absent : missing ≠ [])
    (content : c.querybuf ++ missing = bytes)
    : ∃ c', processMultibulkBuffer c = (c', false) ∧ Waits full c' missing := by
  have whole := content
  cases pending with
  | start fresh noBulk noArgs =>
      rw [aofCommand] at content
      rcases CutShort.append ⟨missing, absent, content⟩ with inLine | ⟨more, front, _⟩
      · have waits : Waits full c missing :=
          .inr ⟨opened, _, .start fresh noBulk noArgs, whole⟩
        unfold processMultibulkBuffer readMultibulkLength
        rw [if_pos fresh]
        rcases readLine_cut starMark (by rw [List.drop_zero]; exact inLine) (Nat.zero_le _)
          with none | short
        · rw [none]
          dsimp only
          split
          · exact ⟨_, rfl, .inl rfl⟩
          · exact ⟨c, rfl, waits⟩
        · rw [short]
          exact ⟨c, rfl, waits⟩
      · rw [processMultibulkBuffer_line command fresh noArgs front]
        rw [front, List.append_assoc, List.append_cancel_left_eq] at content
        refine processBulks_cut command.bulks (by intro len member; cases member) ?_ absent ?_
        · rw [front, List.length_append]
          omega
        · rw [front, List.drop_left]
          exact content
  | inside left args nonempty count known =>
      have accepted : BulksAccepted left := by
        intro arg member
        exact command.bulks arg (by rw [← args]; exact List.mem_append_right _ member)
      have positive := List.length_pos_of_ne_nil nonempty
      rw [processMultibulkBuffer, if_neg (by omega), count, ← args]
      exact processBulks_cut accepted known (Nat.zero_le _) absent
        (by rw [List.drop_zero]; exact content)

end Arguments

end Redis
