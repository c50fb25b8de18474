import Redis.Aof.Format
import Redis.Keyspace.Model
import Redis.Util.Sds

/-! `sdscatrepr` and `sdssplitargs`: quoted texts, and a line that is split into them. A pointer
into the line is what is left of it with its terminating zero byte, so that reading behind that byte
is a fault.
-/

namespace Redis.Util

open Redis.Keyspace (Sds)
open Redis.Library

-- Quoting

/-- `isprint` in the C locale. -/
def isPrint (c : UInt8) : Bool := 0x20 ≤ c && c ≤ 0x7E

/-- A digit of `%x`. -/
def hexDigitOf (nibble : UInt8) : UInt8 := if nibble < 10 then 0x30 + nibble else 0x57 + nibble

/-- What `sdscatrepr` writes for a byte. -/
def reprByte (c : UInt8) : List UInt8 :=
  if c = 0x5C ∨ c = 0x22 then [0x5C, c]
  else if c = 0x0A then [0x5C, 0x6E]
  else if c = 0x0D then [0x5C, 0x72]
  else if c = 0x09 then [0x5C, 0x74]
  else if c = 0x07 then [0x5C, 0x61]
  else if c = 0x08 then [0x5C, 0x62]
  else if isPrint c then [c]
  else [0x5C, 0x78, hexDigitOf (c >>> 4), hexDigitOf (c &&& 0x0F)]

/-- The texts that `sdscatrepr` appends. -/
def reprPieces (p : Sds) : List (List UInt8) := [0x22] :: p.map reprByte ++ [[0x22]]

def sdscatrepr (s p : Sds) : Sds := (reprPieces p).foldl sdscatlen s

/-- Texts that are quoted on a line, with a space between them. -/
def catQuoted : (line : Sds) → (args : List Sds) → Sds
  | line, [] => line
  | line, [arg] => sdscatrepr line arg
  | line, arg :: other :: args => catQuoted (sdscatlen (sdscatrepr line arg) [0x20]) (other :: args)

def quotedLine (args : List Sds) : Sds := catQuoted [] args

-- Splitting

def isHexDigit (c : UInt8) : Bool :=
  (0x30 ≤ c && c ≤ 0x39) || (0x61 ≤ c && c ≤ 0x66) || (0x41 ≤ c && c ≤ 0x46)

def hexDigitToInt (c : UInt8) : UInt8 :=
  if 0x30 ≤ c ∧ c ≤ 0x39 then c - 0x30
  else if 0x61 ≤ c ∧ c ≤ 0x66 then c - 0x57
  else if 0x41 ≤ c ∧ c ≤ 0x46 then c - 0x37
  else 0

/-- The byte that a backslash and a letter stand for. -/
def unescape (c : UInt8) : UInt8 :=
  if c = 0x6E then 0x0A
  else if c = 0x72 then 0x0D
  else if c = 0x74 then 0x09
  else if c = 0x62 then 0x08
  else if c = 0x61 then 0x07
  else c

/-- `inq` and `insq`. -/
inductive Mode where
  | bare
  | inq
  | insq
deriving DecidableEq, Repr

/-- What a turn of `while(!done)` does. -/
inductive Turn where
  /-- Bytes are appended to the token, and the pointer moves on. -/
  | more (mode : Mode) (bytes : List UInt8) (taken : Nat)
  /-- The token ends. -/
  | done (taken : Nat)
  /-- `goto err`. -/
  | err
deriving DecidableEq, Repr

/-- Whether the pointer is at a hexadecimal escape. -/
def atHexEscape (p : List UInt8) : Except Fault Bool := do
  if (← readByte p 0) = 0x5C then
    if (← readByte p 1) = 0x78 then
      if isHexDigit (← readByte p 2) then do
        let low ← readByte p 3
        pure (isHexDigit low)
      else pure false
    else pure false
  else pure false

/-- A closing quote must be followed by a space or nothing at all. -/
def closeQuote (p : List UInt8) : Except Fault Turn := do
  let next ← readByte p 1
  if next ≠ 0 ∧ isSpace next = false then pure .err else pure (.done 1)

def turnInq (p : List UInt8) : Except Fault Turn := do
  if ← atHexEscape p then do
    let high ← readByte p 2
    let low ← readByte p 3
    pure (.more .inq [hexDigitToInt high * 16 + hexDigitToInt low] 4)
  else do
    let c ← readByte p 0
    let escaped ← if c = 0x5C then readByte p 1 else pure 0
    if c = 0x5C ∧ escaped ≠ 0 then pure (.more .inq [unescape escaped] 2)
    else if c = 0x22 then closeQuote p
    else if c = 0 then pure .err
    else pure (.more .inq [c] 1)

def turnInsq (p : List UInt8) : Except Fault Turn := do
  let c ← readByte p 0
  let escaped ← if c = 0x5C then readByte p 1 else pure 0
  if c = 0x5C ∧ escaped = 0x27 then pure (.more .insq [0x27] 2)
  else if c = 0x27 then closeQuote p
  else if c = 0 then pure .err
  else pure (.more .insq [c] 1)

def turnBare (p : List UInt8) : Except Fault Turn := do
  let c ← readByte p 0
  if c = 0x20 ∨ c = 0x0A ∨ c = 0x0D ∨ c = 0x09 then pure (.done 1)
  else if c = 0 then pure (.done 0)
  else if c = 0x22 then pure (.more .inq [] 1)
  else if c = 0x27 then pure (.more .insq [] 1)
  else pure (.more .bare [c] 1)

def turn : Mode → List UInt8 → Except Fault Turn
  | .bare => turnBare
  | .inq => turnInq
  | .insq => turnInsq

/-- `while(!done)`, in at most `turns` turns: the token and what is left of the line, nothing for
`goto err`.
-/
def readToken : (turns : Nat) → Mode → (p : List UInt8) → (current : Sds)
    → Except Fault (Option (Sds × List UInt8))
  | 0, _, _, _ => .error .diverged
  | turns + 1, mode, p, current => do
      match ← turn mode p with
      | .err => pure none
      | .done taken => pure (some (current, p.drop taken))
      | .more mode bytes taken => readToken turns mode (p.drop taken) (sdscatlen current bytes)

/-- `while(1)`, in at most `rounds` rounds of at most `turns` turns. -/
def splitLoop (turns : Nat) : (rounds : Nat) → (p : List UInt8) → (vector : List Sds)
    → Except Fault (Option (List Sds))
  | 0, _, _ => .error .diverged
  | rounds + 1, p, vector => do
      let p := p.dropWhile isSpace
      let c ← readByte p 0
      if c = 0 then pure (some vector)
      else do
        match ← readToken turns .bare p [] with
        | none => pure none
        | some (token, p) => splitLoop turns rounds p (vector ++ [token])

/-- `sdssplitargs` of a buffer with fewer than `2 ^ 31` tokens, nothing for `NULL`. -/
def sdssplitargs (buffer : List UInt8) : Except Fault (Option (List Sds)) :=
  splitLoop buffer.length buffer.length buffer []

example : sdssplitargs [0x61, 0x20, 0x22, 0x5C, 0x78, 0x30, 0x30, 0x22, 0]
  = .ok (some [[0x61], [0]]) := by
  decide

-- A quoted byte is read in one turn

theorem readByte_zero (c : UInt8) (p : List UInt8) : readByte (c :: p) 0 = .ok c := rfl

theorem readByte_succ (c : UInt8) (p : List UInt8) (i : Nat)
    : readByte (c :: p) (i + 1) = readByte p i := rfl

theorem hexDigits_value (c : UInt8)
    : isHexDigit (hexDigitOf (c >>> 4)) = true ∧ isHexDigit (hexDigitOf (c &&& 0x0F)) = true
      ∧ hexDigitToInt (hexDigitOf (c >>> 4)) * 16 + hexDigitToInt (hexDigitOf (c &&& 0x0F))
        = c := by
  have all : ∀ n : Fin 256,
      isHexDigit (hexDigitOf (UInt8.ofNat n >>> 4)) = true
      ∧ isHexDigit (hexDigitOf (UInt8.ofNat n &&& 0x0F)) = true
      ∧ hexDigitToInt (hexDigitOf (UInt8.ofNat n >>> 4)) * 16
          + hexDigitToInt (hexDigitOf (UInt8.ofNat n &&& 0x0F)) = UInt8.ofNat n := by
    decide +kernel
  simpa using all ⟨c.toNat, c.toNat_lt⟩

theorem turnInq_escape {letter : UInt8} (other : letter ≠ 0x78) (some : letter ≠ 0)
    (tail : List UInt8)
    : turnInq (0x5C :: letter :: tail) = .ok (.more .inq [unescape letter] 2) := by
  have plain : atHexEscape (0x5C :: letter :: tail) = .ok false := by
    simp [atHexEscape, readByte_zero, readByte_succ, other]
  rw [turnInq, plain]
  simp [readByte_zero, readByte_succ, some]

theorem turnInq_other {c : UInt8} (other : c ≠ 0x5C) (tail : List UInt8)
    : turnInq (c :: tail)
      = if c = 0x22 then closeQuote (c :: tail)
        else if c = 0 then .ok .err else .ok (.more .inq [c] 1) := by
  have plain : atHexEscape (c :: tail) = .ok false := by
    simp [atHexEscape, readByte_zero, other]
  rw [turnInq, plain]
  simp [readByte_zero, other]
  rfl

theorem turnInq_hex {high low : UInt8} (first : isHexDigit high = true)
    (second : isHexDigit low = true)
    (tail : List UInt8)
    : turnInq (0x5C :: 0x78 :: high :: low :: tail)
      = .ok (.more .inq [hexDigitToInt high * 16 + hexDigitToInt low] 4) := by
  have hex : atHexEscape (0x5C :: 0x78 :: high :: low :: tail) = .ok true := by
    simp [atHexEscape, readByte_zero, readByte_succ, first, second]
  rw [turnInq, hex]
  simp [readByte_zero, readByte_succ]

theorem turnInq_repr (c : UInt8) (tail : List UInt8)
    : turnInq (reprByte c ++ tail) = .ok (.more .inq [c] (reprByte c).length) := by
  unfold reprByte
  by_cases quote : c = 0x5C ∨ c = 0x22
  · rw [if_pos quote]
    rcases quote with rfl | rfl <;> exact turnInq_escape (by decide) (by decide) tail
  rw [if_neg quote]
  obtain ⟨backslash, closing⟩ := not_or.mp quote
  split
  · subst c
    exact turnInq_escape (by decide) (by decide) tail
  split
  · subst c
    exact turnInq_escape (by decide) (by decide) tail
  split
  · subst c
    exact turnInq_escape (by decide) (by decide) tail
  split
  · subst c
    exact turnInq_escape (by decide) (by decide) tail
  split
  · subst c
    exact turnInq_escape (by decide) (by decide) tail
  split
  · rename_i printable
    have nonzero : c ≠ 0 := by
      rintro rfl
      exact absurd printable (by decide)
    refine (turnInq_other backslash tail).trans ?_
    rw [if_neg closing, if_neg nonzero]
    rfl
  · obtain ⟨high, low, value⟩ := hexDigits_value c
    refine (turnInq_hex high low tail).trans ?_
    rw [value]
    rfl

section RoundTrip

variable {turns rounds : Nat} {arg current : Sds} {args vector : List Sds} {next : UInt8}
  {tail p : List UInt8}

theorem readToken_repr (ends : next = 0 ∨ isSpace next = true) (enough : arg.length < turns)
    (short : current.length + arg.length < 2 ^ 32)
    : readToken turns .inq (arg.flatMap reprByte ++ 0x22 :: next :: tail) current
      = .ok (some (current ++ arg, next :: tail)) := by
  induction arg generalizing turns current with
  | nil =>
      obtain ⟨turns, rfl⟩ := Nat.exists_eq_add_one_of_ne_zero (Nat.ne_zero_of_lt enough)
      have closes : turnInq (0x22 :: next :: tail) = .ok (.done 1) := by
        rw [turnInq_other (by decide), if_pos rfl]
        rcases ends with rfl | space
        · rfl
        · simp [closeQuote, readByte_zero, readByte_succ, space]
      rw [List.flatMap_nil, List.nil_append, readToken]
      change (turnInq _ >>= _) = _
      rw [closes, List.append_nil]
      rfl
  | cons c rest ih =>
      obtain ⟨turns, rfl⟩ := Nat.exists_eq_add_one_of_ne_zero (Nat.ne_zero_of_lt enough)
      rw [List.flatMap_cons, List.append_assoc, readToken]
      change (turnInq _ >>= _) = _
      rw [turnInq_repr, ok_andThen]
      dsimp only
      rw [List.length_cons] at enough short
      rw [List.drop_left, sdscatlen_of_lt (by rw [List.length_singleton]; omega),
        ih (by omega) (by rw [List.length_append, List.length_singleton]; omega), List.append_assoc]
      rfl

/-- The text of `sdscatrepr`. -/
def quotedText (arg : Sds) : List UInt8 := 0x22 :: arg.flatMap reprByte ++ [0x22]

/-- The text of a line of quoted texts. -/
def quotedTexts (args : List Sds) : List UInt8 := [0x20].intercalate (args.map quotedText)

theorem flatten_reprPieces (arg : Sds) : (reprPieces arg).flatten = quotedText arg := by
  simp [reprPieces, quotedText, List.flatMap_def]

theorem sdscatrepr_of_lt {s : Sds} (short : s.length + (quotedText arg).length < 2 ^ 32)
    : sdscatrepr s arg = s ++ quotedText arg := by
  rw [← flatten_reprPieces] at short ⊢
  exact foldl_sdscatlen short

theorem catQuoted_of_lt {line : Sds} (short : line.length + (quotedTexts args).length < 2 ^ 32)
    : catQuoted line args = line ++ quotedTexts args := by
  induction args generalizing line with
  | nil => exact (List.append_nil line).symm
  | cons arg rest ih =>
      cases rest with
      | nil =>
          have one : quotedTexts [arg] = quotedText arg := by simp [quotedTexts, List.intercalate]
          rw [one] at short ⊢
          exact sdscatrepr_of_lt short
      | cons other rest =>
          have first : quotedTexts (arg :: other :: rest)
              = quotedText arg ++ [0x20] ++ quotedTexts (other :: rest) := by
            simp [quotedTexts, List.intercalate]
          rw [first, List.length_append, List.length_append, List.length_singleton] at short
          rw [catQuoted, sdscatrepr_of_lt (by omega),
            sdscatlen_of_lt (by rw [List.length_append, List.length_singleton]; omega),
            ih (by simp only [List.length_append, List.length_singleton]; omega), first]
          simp only [List.append_assoc]

/-- A line that fits in an sds has the whole text. -/
theorem quotedLine_of_lt (short : (quotedTexts args).length < 2 ^ 32)
    : quotedLine args = quotedTexts args :=
  catQuoted_of_lt (by rwa [List.length_nil, Nat.zero_add])

theorem readToken_quoted (ends : next = 0 ∨ isSpace next = true) (enough : arg.length + 2 ≤ turns)
    (short : arg.length < 2 ^ 32)
    : readToken turns .bare (quotedText arg ++ next :: tail) []
      = .ok (some (arg, next :: tail)) := by
  obtain ⟨turns, rfl⟩ := Nat.exists_eq_add_of_le' (show 1 ≤ turns by omega)
  have opens : quotedText arg ++ next :: tail
      = 0x22 :: (arg.flatMap reprByte ++ 0x22 :: next :: tail) := by
    simp [quotedText]
  have first : turnBare (0x22 :: (arg.flatMap reprByte ++ 0x22 :: next :: tail))
      = .ok (.more .inq [] 1) := rfl
  rw [opens, readToken]
  change (turnBare _ >>= _) = _
  rw [first, ok_andThen]
  exact readToken_repr ends (by omega) (by simpa [sdscatlen] using short)

theorem quotedTexts_cons (arg : Sds) (args : List Sds)
    : ∃ next tail, quotedTexts (arg :: args) ++ [0] = quotedText arg ++ next :: tail
        ∧ (next = 0 ∨ isSpace next = true)
        ∧ (next :: tail).dropWhile isSpace = (quotedTexts args ++ [0]) := by
  cases args with
  | nil => exact ⟨0, [], by simp [quotedTexts, List.intercalate], .inl rfl, rfl⟩
  | cons other rest =>
      refine ⟨0x20, quotedTexts (other :: rest) ++ [0], ?_, .inr rfl, ?_⟩
      · simp [quotedTexts, List.intercalate]
      · rw [List.dropWhile_cons_of_pos rfl]
        have first : ∃ more, quotedTexts (other :: rest) ++ [0] = 0x22 :: more := by
          cases rest <;> exact ⟨_, by simp [quotedTexts, List.intercalate, quotedText]; rfl⟩
        obtain ⟨more, first⟩ := first
        rw [first, List.dropWhile_cons_of_neg (by decide)]

theorem splitLoop_quoted (line : p.dropWhile isSpace = quotedTexts args ++ [0])
    (rounded : args.length < rounds) (enough : ∀ arg ∈ args, arg.length + 2 ≤ turns)
    (short : ∀ arg ∈ args, arg.length < 2 ^ 32)
    : splitLoop turns rounds p vector = .ok (some (vector ++ args)) := by
  induction args generalizing p rounds vector with
  | nil =>
      obtain ⟨rounds, rfl⟩ := Nat.exists_eq_add_one_of_ne_zero (Nat.ne_zero_of_lt rounded)
      rw [splitLoop, line, List.append_nil]
      rfl
  | cons arg rest ih =>
      obtain ⟨rounds, rfl⟩ := Nat.exists_eq_add_one_of_ne_zero (Nat.ne_zero_of_lt rounded)
      obtain ⟨next, tail, split, ends, behind⟩ := quotedTexts_cons arg rest
      have first : readByte (quotedText arg ++ next :: tail) 0 = .ok 0x22 := rfl
      obtain ⟨fits, others⟩ := List.forall_mem_cons.mp short
      rw [splitLoop, line, split, first, ok_andThen, if_neg (by decide),
        readToken_quoted ends (enough arg List.mem_cons_self) fits, ok_andThen]
      dsimp only
      rw [ih behind (by simpa using rounded)
        (fun other inside => enough other (List.mem_cons_of_mem _ inside)) others,
          List.append_assoc]
      rfl

theorem length_reprByte (c : UInt8) : 0 < (reprByte c).length := by
  unfold reprByte
  split_ifs <;> simp

theorem length_quotedText (arg : Sds) : arg.length + 2 ≤ (quotedText arg).length := by
  have long : arg.length ≤ (arg.flatMap reprByte).length := by
    induction arg with
    | nil => exact Nat.zero_le _
    | cons c rest ih =>
        have one := length_reprByte c
        rw [List.flatMap_cons, List.length_append, List.length_cons]
        omega
  simp only [quotedText, List.length_append, List.length_cons, List.length_nil]
  omega

theorem length_quotedTexts (args : List Sds)
    : args.length ≤ (quotedTexts args).length
      ∧ ∀ arg ∈ args, arg.length + 2 ≤ (quotedTexts args).length + 1 := by
  induction args with
  | nil => exact ⟨Nat.zero_le _, nofun⟩
  | cons arg rest ih =>
      obtain ⟨next, tail, split, -, behind⟩ := quotedTexts_cons arg rest
      have one := length_quotedText arg
      have total := congrArg List.length split
      have shorter := (List.dropWhile_suffix isSpace (l := next :: tail)).length_le
      rw [behind] at shorter
      simp only [List.length_append, List.length_cons, List.length_nil] at total shorter ⊢
      refine ⟨by omega, fun other inside => ?_⟩
      rcases List.mem_cons.mp inside with rfl | inside
      · omega
      · have := ih.2 other inside
        omega

theorem sdssplitargs_quoted (fits : (quotedTexts args).length < 2 ^ 32)
    : sdssplitargs (quotedLine args ++ [0]) = .ok (some args) := by
  have length := length_quotedTexts args
  have first : (quotedTexts args ++ [0]).dropWhile isSpace = quotedTexts args ++ [0] := by
    cases args with
    | nil => rfl
    | cons arg rest =>
        obtain ⟨next, tail, split, -⟩ := quotedTexts_cons arg rest
        rw [split]
        rfl
  rw [quotedLine_of_lt fits]
  refine splitLoop_quoted first ?_ (fun arg inside => ?_) fun arg inside => ?_
  · rw [List.length_append, List.length_singleton]
    omega
  · rw [List.length_append, List.length_singleton]
    exact length.2 arg inside
  · have size := length.2 arg inside
    omega

end RoundTrip

end Redis.Util
