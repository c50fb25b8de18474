import Redis.Commands.ProcessCommand
import Redis.Replication.Encoding

/-! The commands in an append only file: how they are written and how they are read back. -/

namespace Redis

open Redis.Library

-- Writing

/-- A mark and a number on a line of their own. -/
def markedLine (mark : UInt8) (n : Nat) : List UInt8 := mark :: naturalText n ++ crlf

/-- One argument of `catAppendOnlyGenericCommand`. -/
def aofArgument (arg : List UInt8) : List UInt8 := markedLine 0x24 arg.length ++ arg ++ crlf

/-- `catAppendOnlyGenericCommand`. -/
def aofCommand (argv : Argv) : List UInt8 := markedLine 0x2A argv.length ++ argv.flatMap aofArgument

def aofBytes (commands : List Argv) : List UInt8 := commands.flatMap aofCommand

/-- A command that can be in the file: `argc` is an `int`, lengths are below `2 ^ 63`. An argument
and the text of the command are an sds each, so the code only writes those that stay below `2 ^ 32`
bytes.
-/
structure AofWritable (argv : Argv) : Prop where
  some : argv ≠ []
  argc_lt : argv.length < 2 ^ 31
  length_lt : ∀ arg ∈ argv, arg.length < 2 ^ 63

-- Reading

/-- `fgets` with room for `size` bytes before the end of the string: the line and what is left. -/
def fgetsLine : (size : Nat) → List UInt8 → List UInt8 × List UInt8
  | 0, input => ([], input)
  | _ + 1, [] => ([], [])
  | size + 1, byte :: rest =>
      if byte = 0x0A then ([byte], rest)
      else (byte :: (fgetsLine size rest).1, (fgetsLine size rest).2)

/-- `fgets(buf,128,fp)`; it returns null at the end of the file. -/
def fgets (input : List UInt8) : Option (List UInt8 × List UInt8) :=
  if input = [] then none else some (fgetsLine 127 input)

/-- The bytes that `isspace` accepts. -/
def isSpace (byte : UInt8) : Bool := byte = 0x20 || (0x09 ≤ byte && byte ≤ 0x0D)

def leadingDigits (s : List UInt8) : Int := horner 0 (s.takeWhile (isDigitFrom 0x30))

/-- The signed number in front of a text, within the limits of a `long`. -/
def signedDigits (s : List UInt8) : Int :=
  if s.head? = some 0x2D then max (-2 ^ 63) (-leadingDigits s.tail)
  else if s.head? = some 0x2B then min (2 ^ 63 - 1) (leadingDigits s.tail)
  else min (2 ^ 63 - 1) (leadingDigits s)

/-- `strtol` in base ten. -/
def strtol (s : List UInt8) : Int := signedDigits (s.dropWhile isSpace)

def atoi (s : List UInt8) : Int := (strtol s).bmod (2 ^ 32)

/-- The ways in which the loader leaves its loop. -/
inductive AofStop where
  /-- The end of the file, in front of a command. -/
  | endOfFile
  /-- The end of the file inside a command. -/
  | shortRead
  /-- A read error that is not the end of the file. -/
  | readError
  | formatError
  | unknownCommand
deriving DecidableEq, Repr

/-- The body of the loop over the arguments of a command. -/
def loadArgument (input : List UInt8) : Except AofStop (List UInt8 × List UInt8) :=
  match fgets input with
  | none => .error .shortRead
  | some (line, rest) =>
      if line.head? ≠ some 0x24 then .error .formatError
      else
        -- A negative length becomes a large `unsigned long`.
        let len := (strtol line.tail % 2 ^ 64).toNat
        if rest.length < len then .error .shortRead
        else if (rest.drop len).length < 2 then .error .shortRead
        else .ok (rest.take len, (rest.drop len).drop 2)

/-- The loop over the arguments of a command. -/
def loadArguments : (argc : Nat) → List UInt8 → Except AofStop (Argv × List UInt8)
  | 0, input => pure ([], input)
  | argc + 1, input => do
      let (arg, input) ← loadArgument input
      let (args, input) ← loadArguments argc input
      pure (arg :: args, input)

def loadCommand (input : List UInt8) : Except AofStop (Argv × List UInt8) :=
  match fgets input with
  | none => .error .endOfFile
  | some (line, rest) =>
      if line.head? ≠ some 0x2A then .error .formatError
      else if line.tail.headD 0 = 0 then
        -- `feof` holds if `fgets` met the end of the file.
        if line.length < 127 ∧ line.getLast? ≠ some 0x0A then .error .shortRead
        else .error .readError
      else
        let argc := atoi line.tail
        if argc < 1 then .error .formatError else loadArguments argc.toNat rest

section Lines

variable {n : Nat} {rest line : List UInt8} {mark : UInt8}

theorem horner_append (v : Nat) (front back : List UInt8)
    : horner v (front ++ back) = horner (horner v front) back := by
  rw [horner, List.foldl_append]
  rfl

theorem naturalText_digits (n : Nat) : ∀ c ∈ naturalText n, isDigitFrom 0x30 c = true := by
  intro c member
  unfold naturalText at member
  obtain ⟨digit, inside, rfl⟩ := List.mem_map.mp member
  rw [List.mem_reverse] at inside
  refine (isDigitFrom_digitByte ?_).1
  split at inside
  · rw [List.mem_singleton.mp inside]
    decide
  · exact Nat.digits_lt_base (by decide) inside

theorem naturalText_ne_nil (n : Nat) : naturalText n ≠ [] := by
  unfold naturalText
  split
  · simp
  · rename_i nonzero
    simp [Nat.digits_ne_nil_iff_ne_zero.mpr nonzero]

theorem horner_naturalText (n : Nat) : horner 0 (naturalText n) = n := by
  induction n using Nat.strongRecOn with
  | ind n ih =>
      rcases Nat.lt_or_ge n 10 with small | large
      · rw [naturalText_of_lt small]
        simp [horner, (isDigitFrom_digitByte small).2]
      · have digit : n % 10 < 10 := Nat.mod_lt _ (by decide)
        rw [naturalText_of_ge large, horner_append, ih (n / 10) (by omega)]
        simp only [horner, List.foldl_cons, List.foldl_nil, (isDigitFrom_digitByte digit).2]
        omega

theorem digit_facts {c : UInt8} (digit : isDigitFrom 0x30 c = true)
    : isSpace c = false ∧ c ≠ 0x2D ∧ c ≠ 0x2B ∧ c ≠ 0x0A ∧ c ≠ 0 := by
  refine ⟨?_, ?_, ?_, ?_, ?_⟩
  · cases space : isSpace c with
    | false => rfl
    | true =>
        simp only [isDigitFrom, isSpace, Bool.and_eq_true, Bool.or_eq_true, decide_eq_true_eq,
          UInt8.le_iff_toNat_le, ← UInt8.toNat_inj] at digit space
        simp at digit space
        omega
  all_goals
    rintro rfl
    exact absurd digit (by decide)

theorem strtol_digits {digits : List UInt8} (all : ∀ c ∈ digits, isDigitFrom 0x30 c = true)
    (some : digits ≠ []) (stop : ∀ c ∈ rest.head?, isDigitFrom 0x30 c = false)
    (word : horner 0 digits < 2 ^ 63)
    : strtol (digits ++ rest) = horner 0 digits := by
  have taken : (digits ++ rest).takeWhile (isDigitFrom 0x30) = digits := by
    rw [List.takeWhile_append_of_pos all]
    cases rest with
    | nil => simp
    | cons next others =>
        rw [List.takeWhile_cons_of_neg (by simp [stop next (by simp)]), List.append_nil]
  obtain ⟨c, more, rfl⟩ := List.exists_cons_of_ne_nil some
  obtain ⟨notSpace, notMinus, notPlus, _⟩ := digit_facts (all c (by simp))
  have atDigits : strtol (c :: more ++ rest) = signedDigits (c :: more ++ rest) := by
    rw [strtol, List.cons_append, List.dropWhile_cons_of_neg (by simp [notSpace])]
  have value : leadingDigits (c :: more ++ rest) = horner 0 (c :: more) := by
    rw [leadingDigits, taken]
  rw [atDigits, signedDigits, if_neg (by simpa using notMinus), if_neg (by simpa using notPlus),
    value]
  omega

theorem length_naturalText_lt (word : n < 2 ^ 63) : (naturalText n).length ≤ 19 :=
  (length_naturalText_le (by decide)).mpr (by omega)

theorem fgetsLine_whole {size : Nat} (clean : ∀ c ∈ line, c ≠ 0x0A) (room : line.length < size)
    : fgetsLine size (line ++ 0x0A :: rest) = (line ++ [0x0A], rest) := by
  induction line generalizing size with
  | nil =>
      cases size with
      | zero => exact absurd room (Nat.not_lt_zero _)
      | succ size => simp [fgetsLine]
  | cons c more ih =>
      cases size with
      | zero => exact absurd room (Nat.not_lt_zero _)
      | succ size =>
          have others :=
            ih (fun d member => clean d (by simp [member])) (Nat.lt_of_succ_lt_succ room)
          rw [List.cons_append, fgetsLine, if_neg (clean c (by simp)), others]
          rfl

theorem fgetsLine_cut {size : Nat} (clean : ∀ c ∈ line, c ≠ 0x0A) (room : line.length < size)
    : fgetsLine size line = (line, []) := by
  induction line generalizing size with
  | nil =>
      cases size with
      | zero => exact absurd room (Nat.not_lt_zero _)
      | succ size => rfl
  | cons c more ih =>
      cases size with
      | zero => exact absurd room (Nat.not_lt_zero _)
      | succ size =>
          have others :=
            ih (fun d member => clean d (by simp [member])) (Nat.lt_of_succ_lt_succ room)
          rw [fgetsLine, if_neg (clean c (by simp)), others]

theorem markedLine_body (clean : mark ≠ 0x0A) (word : n < 2 ^ 63)
    : (∀ c ∈ mark :: naturalText n ++ [0x0D], c ≠ 0x0A)
      ∧ (mark :: naturalText n ++ [0x0D]).length < 127 := by
  constructor
  · intro c member
    rcases List.mem_append.mp member with front | last
    · rcases List.mem_cons.mp front with rfl | digit
      · exact clean
      · exact (digit_facts (naturalText_digits n c digit)).2.2.2.1
    · rw [List.mem_singleton.mp last]
      decide
  · have short := length_naturalText_lt word
    simp only [List.length_append, List.length_cons, List.length_nil]
    omega

theorem markedLine_eq (mark : UInt8) (n : Nat)
    : markedLine mark n = mark :: naturalText n ++ [0x0D] ++ [0x0A] := by
  simp [markedLine, crlf]

theorem fgets_markedLine (clean : mark ≠ 0x0A) (word : n < 2 ^ 63)
    : fgets (markedLine mark n ++ rest) = some (markedLine mark n, rest) := by
  obtain ⟨body, room⟩ := markedLine_body clean word
  rw [fgets, if_neg (by simp [markedLine]), markedLine_eq, List.append_assoc _ [0x0A] rest,
    List.singleton_append, fgetsLine_whole body room]

theorem fgets_markedLine_cut (clean : mark ≠ 0x0A) (word : n < 2 ^ 63) {more : List UInt8}
    (cut : mark :: naturalText n ++ [0x0D] = line ++ more) (nonempty : line ≠ [])
    : fgets line = some (line, []) := by
  obtain ⟨body, room⟩ := markedLine_body clean word
  rw [cut] at body room
  rw [fgets, if_neg nonempty, fgetsLine_cut]
  · intro c member
    exact body c (List.mem_append_left _ member)
  · rw [List.length_append] at room
    omega

theorem strtol_markedLine (word : n < 2 ^ 63) : strtol (markedLine mark n).tail = n := by
  have stop : ∀ c ∈ crlf.head?, isDigitFrom 0x30 c = false := by
    intro c member
    cases member
    decide
  have value := strtol_digits (naturalText_digits n) (naturalText_ne_nil n) stop
    (by rw [horner_naturalText]; exact word)
  rw [horner_naturalText] at value
  exact value

end Lines

section Commands

variable {argv : Argv} {arg rest front : List UInt8}

/-- The bytes in front of a place inside a text, less than the whole of it. -/
def CutShort (front whole : List UInt8) : Prop := ∃ missing, missing ≠ [] ∧ front ++ missing = whole

theorem CutShort.append {first second : List UInt8} (cut : CutShort front (first ++ second))
    : CutShort front first ∨ ∃ more, front = first ++ more ∧ CutShort more second := by
  obtain ⟨missing, nonempty, whole⟩ := cut
  rcases List.append_eq_append_iff.mp whole with ⟨between, inside, tail⟩ | ⟨more, inside, tail⟩
  · cases between with
    | nil =>
        rw [List.append_nil] at inside
        exact .inr ⟨[], by rw [inside, List.append_nil], missing, nonempty, by simpa using tail⟩
    | cons c others => exact .inl ⟨c :: others, by simp, inside.symm⟩
  · exact .inr ⟨more, inside, missing, nonempty, tail.symm⟩

theorem CutShort.line {first : List UInt8} {last : UInt8} (cut : CutShort front (first ++ [last]))
    : ∃ more, first = front ++ more := by
  rcases cut.append with ⟨missing, _, whole⟩ | ⟨more, rfl, missing, nonempty, whole⟩
  · exact ⟨missing, whole.symm⟩
  · cases more with
    | nil => exact ⟨[], by simp⟩
    | cons c others =>
        have lengths := congrArg List.length whole
        have positive := List.length_pos_of_ne_nil nonempty
        simp only [List.length_append, List.length_cons, List.length_nil] at lengths
        omega

theorem loadArgument_whole (word : arg.length < 2 ^ 63)
    : loadArgument (aofArgument arg ++ rest) = .ok (arg, rest) := by
  have length : ((arg.length : Int) % 2 ^ 64).toNat = arg.length := by omega
  rw [loadArgument, aofArgument, List.append_assoc, List.append_assoc,
    fgets_markedLine (by decide) word]
  simp only [strtol_markedLine word, length]
  rw [if_neg (by simp [markedLine]), if_neg (by simp), if_neg (by simp [crlf])]
  simp [crlf]

theorem loadArgument_cut (word : arg.length < 2 ^ 63) (cut : CutShort front (aofArgument arg))
    : loadArgument front = .error .shortRead := by
  have length : ((arg.length : Int) % 2 ^ 64).toNat = arg.length := by omega
  rw [aofArgument, List.append_assoc] at cut
  rcases cut.append with inLine | ⟨more, rfl, missing, nonempty, whole⟩
  · rw [markedLine_eq] at inLine
    obtain ⟨others, body⟩ := inLine.line
    cases front with
    | nil => rfl
    | cons c line =>
        have mark : c = 0x24 := by
          rw [List.cons_append, List.cons_append] at body
          exact (List.cons.inj body).1.symm
        rw [loadArgument, fgets_markedLine_cut (by decide) word body (by simp)]
        simp only [List.head?_cons, mark, ne_eq, not_true, if_false, List.length_nil,
          List.drop_nil]
        split <;> simp
  · have lengths := congrArg List.length whole
    have positive := List.length_pos_of_ne_nil nonempty
    simp only [List.length_append, crlf, List.length_cons, List.length_nil] at lengths
    rw [loadArgument, fgets_markedLine (by decide) word]
    simp only [strtol_markedLine word, length]
    rw [if_neg (by simp [markedLine])]
    split
    · rfl
    · rw [if_pos (by rw [List.length_drop]; omega)]

theorem loadArguments_whole (words : ∀ arg ∈ argv, arg.length < 2 ^ 63)
    : loadArguments argv.length (argv.flatMap aofArgument ++ rest) = .ok (argv, rest) := by
  induction argv with
  | nil => rfl
  | cons arg others ih =>
      have first : arg.length < 2 ^ 63 := words arg (by simp)
      have more := ih (fun other member => words other (by simp [member]))
      rw [List.length_cons, List.flatMap_cons, List.append_assoc, loadArguments,
        loadArgument_whole first]
      simp only [bind, Except.bind, more]
      rfl

theorem loadArguments_cut (words : ∀ arg ∈ argv, arg.length < 2 ^ 63)
    (cut : CutShort front (argv.flatMap aofArgument))
    : loadArguments argv.length front = .error .shortRead := by
  induction argv generalizing front with
  | nil =>
      obtain ⟨missing, nonempty, whole⟩ := cut
      exact absurd (List.append_eq_nil_iff.mp whole).2 nonempty
  | cons arg others ih =>
      have first : arg.length < 2 ^ 63 := words arg (by simp)
      rw [List.length_cons, loadArguments]
      rw [List.flatMap_cons] at cut
      rcases cut.append with inside | ⟨more, rfl, after⟩
      · rw [loadArgument_cut first inside]
        rfl
      · have rest := ih (fun other member => words other (by simp [member])) after
        rw [loadArgument_whole first]
        simp only [bind, Except.bind, rest]

theorem atoi_of_strtol {text : List UInt8} {n : Nat} (value : strtol text = n) (small : n < 2 ^ 31)
    : atoi text = n := by
  rw [atoi, value]
  exact Int.bmod_eq_of_le (by omega) (by omega)

theorem loadCommand_line {n : Nat} (positive : 0 < n) (small : n < 2 ^ 31)
    : loadCommand (markedLine 0x2A n ++ rest) = loadArguments n rest := by
  have word : n < 2 ^ 63 := Nat.lt_trans small (by decide)
  have argc : atoi (markedLine 0x2A n).tail = n := atoi_of_strtol (strtol_markedLine word) small
  have digit : (markedLine 0x2A n).tail.headD 0 ≠ 0 := by
    have digits := naturalText_digits n
    cases text : naturalText n with
    | nil => exact absurd text (naturalText_ne_nil n)
    | cons c others =>
        rw [text] at digits
        have nonzero := (digit_facts (digits c (by simp))).2.2.2.2
        simpa [markedLine, text] using nonzero
  rw [loadCommand, fgets_markedLine (by decide) word]
  simp only [argc]
  rw [if_neg (by simp [markedLine]), if_neg digit, if_neg (by omega), Int.toNat_natCast]

theorem loadCommand_whole (writable : AofWritable argv)
    : loadCommand (aofCommand argv ++ rest) = .ok (argv, rest) := by
  rw [aofCommand, List.append_assoc,
    loadCommand_line (List.length_pos_of_ne_nil writable.some) writable.argc_lt]
  exact loadArguments_whole writable.length_lt

theorem atoi_cut {n : Nat} (positive : n ≠ 0) (small : n < 2 ^ 31) {c : UInt8}
    {line more : List UInt8} (body : naturalText n ++ [0x0D] = c :: line ++ more)
    : 1 ≤ atoi (c :: line) ∧ c ≠ 0 := by
  obtain ⟨first, others, text, leading, digits, value⟩ := naturalText_cases positive
  rw [text, List.cons_append, List.cons_append] at body
  obtain ⟨same, digitsBody⟩ := List.cons.inj body
  subst same
  have big : 1 ≤ first.toNat - 48 ∧ isDigitFrom 0x30 first = true := by
    simp only [isDigitFrom, Bool.and_eq_true, decide_eq_true_eq, UInt8.le_iff_toNat_le]
      at leading ⊢
    simp at leading ⊢
    omega
  have start : ∀ digits, horner 0 (first :: digits) = horner (first.toNat - 48) digits := by
    intro digits
    simp [horner]
  -- The line has some of the digits and perhaps the carriage return.
  obtain ⟨front, back, tail, split, shape, stop⟩ : ∃ front back tail, others = front ++ back
      ∧ line = front ++ tail ∧ ∀ c ∈ tail.head?, isDigitFrom 0x30 c = false := by
    rcases List.append_eq_append_iff.mp digitsBody with ⟨tail, shape, rest⟩ | ⟨back, split, rest⟩
    · refine ⟨others, [], tail, by simp, shape, ?_⟩
      intro d member
      cases tail with
      | nil => cases member
      | cons e tail =>
          cases member
          obtain ⟨rfl, _⟩ := List.cons.inj rest
          decide
    · exact ⟨line, back, [], split, by simp, by simp⟩
  have least := le_horner (first.toNat - 48) front
  have most : horner (first.toNat - 48) front ≤ n := by
    rw [← value, split, horner_append]
    exact le_horner _ _
  have all : ∀ d ∈ first :: front, isDigitFrom 0x30 d = true := by
    intro d member
    rcases List.mem_cons.mp member with rfl | inside
    · exact big.2
    · exact digits d (by rw [split]; exact List.mem_append_left _ inside)
  have number := strtol_digits all (by simp) stop (by rw [start]; omega)
  have count := atoi_of_strtol number (by rw [start]; omega)
  rw [start, List.cons_append, ← shape] at count
  refine ⟨?_, (digit_facts big.2).2.2.2.2⟩
  rw [count]
  omega

theorem loadCommand_cut (writable : AofWritable argv) (cut : CutShort front (aofCommand argv))
    (nonempty : front ≠ [])
    : loadCommand front = .error .shortRead := by
  have positive := List.length_pos_of_ne_nil writable.some
  have small : argv.length < 2 ^ 63 := Nat.lt_trans writable.argc_lt (by decide)
  rcases cut.append with inLine | ⟨more, rfl, after⟩
  · rw [markedLine_eq] at inLine
    obtain ⟨others, body⟩ := inLine.line
    rw [loadCommand, fgets_markedLine_cut (by decide) small body nonempty]
    cases front with
    | nil => exact absurd rfl nonempty
    | cons mark line =>
        rw [List.cons_append, List.cons_append] at body
        obtain ⟨rfl, digits⟩ := List.cons.inj body
        cases line with
        | nil => simp
        | cons c line =>
            obtain ⟨argc, nonzero⟩ := atoi_cut (by omega) writable.argc_lt digits
            obtain ⟨count, known⟩ : ∃ count, (atoi (c :: line)).toNat = count + 1 :=
              ⟨(atoi (c :: line)).toNat - 1, by omega⟩
            simp only [List.head?_cons, ne_eq, not_true, if_false, List.tail_cons, List.headD_cons,
              nonzero, known]
            rw [if_neg (by omega)]
            rfl
  · rw [loadCommand_line positive writable.argc_lt]
    exact loadArguments_cut writable.length_lt after

theorem fgetsLine_shrinks (size : Nat) (input : List UInt8)
    : (fgetsLine size input).2.length ≤ input.length := by
  fun_induction fgetsLine size input with
  | case1 => exact Nat.le_refl _
  | case2 => exact Nat.le_refl _
  | case3 size rest => simp
  | case4 size byte rest _ ih => simpa using Nat.le_succ_of_le ih

theorem fgets_shrinks {line : List UInt8} (read : fgets front = some (line, rest))
    : rest.length < front.length := by
  unfold fgets at read
  cases front with
  | nil => cases read
  | cons byte others =>
      rw [if_neg (by simp)] at read
      have next := Option.some.inj read
      rw [fgetsLine] at next
      have shorter := fgetsLine_shrinks 126 others
      rw [List.length_cons]
      split at next
      · cases next
        exact Nat.lt_succ_self _
      · cases next
        exact Nat.lt_succ_of_le shorter

theorem loadArgument_shrinks (read : loadArgument front = .ok (arg, rest))
    : rest.length ≤ front.length := by
  unfold loadArgument at read
  split at read
  · cases read
  · rename_i line after fetched
    have shorter := fgets_shrinks fetched
    split at read
    · cases read
    · simp only at read
      split at read
      · cases read
      · split at read
        · cases read
        · cases read
          rw [List.length_drop, List.length_drop]
          omega

theorem loadArguments_shrinks {argc : Nat} (read : loadArguments argc front = .ok (argv, rest))
    : rest.length ≤ front.length := by
  induction argc generalizing front argv rest with
  | zero =>
      cases read
      exact Nat.le_refl _
  | succ argc ih =>
      rw [loadArguments] at read
      obtain ⟨⟨first, after⟩, one, read⟩ := andThen_ok_iff.mp read
      obtain ⟨⟨others, last⟩, more, read⟩ := andThen_ok_iff.mp read
      cases read
      exact Nat.le_trans (ih more) (loadArgument_shrinks one)

/-- A command that is read takes bytes from the file. -/
theorem loadCommand_shrinks (read : loadCommand front = .ok (argv, rest))
    : rest.length < front.length := by
  unfold loadCommand at read
  split at read
  · cases read
  · rename_i line after fetched
    have shorter := fgets_shrinks fetched
    split at read
    · cases read
    · split at read
      · split at read <;> cases read
      · simp only at read
        split at read
        · cases read
        · exact Nat.lt_of_le_of_lt (loadArguments_shrinks read) shorter

end Commands

end Redis
