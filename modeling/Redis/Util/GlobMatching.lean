import Redis.Library.Faults

/-! `stringmatchlen`. A pointer into the pattern or the string is what is left of it with its
terminating zero byte, so that reading from an empty list is a read past the terminator.
-/

namespace Redis

open Redis.Library

/-- `pattern` and `patternLen`, or `string` and `stringLen`; the lengths are signed. -/
structure Scan where
  bytes : List UInt8
  len : Int
deriving DecidableEq, Repr

/-- The start of a string that is followed by a zero byte. -/
def Scan.start (text : List UInt8) : Scan := ⟨text ++ [0], text.length⟩

def Scan.peek (scan : Scan) : Except Fault UInt8 :=
  match scan.bytes with
  | [] => .error .outOfBounds
  | byte :: _ => .ok byte

/-- The pointer moves on. With `watch`, a length that gets negative is a fault. -/
def Scan.advance (watch : Bool) (count : Nat) (scan : Scan) : Except Fault Scan :=
  if watch ∧ scan.len < count then .error .assertion
  else .ok ⟨scan.bytes.drop count, scan.len - count⟩

/-- The value of a `char`, which is signed. -/
def charValue (c : UInt8) : Int := c.toInt8.toInt

/-- `tolower` of glibc in the C locale, for the value of a `char`. The table has a negative value
other than `EOF` as that of the `unsigned char`.
-/
def tolower (c : Int) : Int :=
  if 0x41 ≤ c ∧ c ≤ 0x5A then c + 0x20 else if c < -1 then c + 256 else c

section Characters

variable (nocase : Bool)

/-- The comparison of a character of the pattern with one of the string. -/
def sameChar (p c : UInt8) : Bool :=
  if nocase then tolower (charValue p) = tolower (charValue c) else p = c

def inRange (first last c : UInt8) : Bool :=
  let start := min (charValue first) (charValue last)
  let stop := max (charValue first) (charValue last)
  let fold := if nocase then tolower else id
  fold (charValue c) ≥ fold start && fold (charValue c) ≤ fold stop

end Characters

section Matching

variable (watch nocase : Bool)

/-- `while (pattern[1] == '*')`, with the pointer at a star. -/
def skipStars : (bytes : List UInt8) → (len : Int) → Except Fault Scan
  | first :: second :: rest, len =>
      if second = 0x2A then skipStars (second :: rest) (len - 1)
      else .ok ⟨first :: second :: rest, len⟩
  | _, _ => .error .outOfBounds

/-- `while(*pattern == '*')`. -/
def dropStars : (bytes : List UInt8) → (len : Int) → Except Fault Scan
  | first :: rest, len =>
      if first = 0x2A then dropStars rest (len - 1) else .ok ⟨first :: rest, len⟩
  | [], _ => .error .outOfBounds

/-- The loop over a class, up to the step behind the `switch`: an unterminated class steps back
before it leaves the loop, and that step takes it to the terminator again.
-/
def classLoop (string : Scan) : (bytes : List UInt8) → (len : Int) → (matched : Bool)
    → Except Fault (Scan × Bool)
  | [], _, _ => .error .outOfBounds
  | first :: rest, len, matched =>
      if first = 0x5C then
        match rest with
        | [] => .error .outOfBounds
        | escaped :: rest => do
            let c ← string.peek
            let next ← Scan.advance watch 2 ⟨first :: escaped :: rest, len⟩
            classLoop string rest next.len (matched || escaped = c)
      else if first = 0x5D then do
        let next ← Scan.advance watch 1 ⟨first :: rest, len⟩
        pure (next, matched)
      else if len = 0 then .ok (⟨first :: rest, len⟩, matched)
      else
        match rest with
        | [] => .error .outOfBounds
        | second :: rest =>
            if second = 0x2D ∧ len ≥ 3 then
              match rest with
              | [] => .error .outOfBounds
              | last :: rest => do
                  let c ← string.peek
                  let next ← Scan.advance watch 3 ⟨first :: second :: last :: rest, len⟩
                  classLoop string rest next.len (matched || inRange nocase first last c)
            else do
              let c ← string.peek
              let next ← Scan.advance watch 1 ⟨first :: second :: rest, len⟩
              classLoop string (second :: rest) next.len (matched || sameChar nocase first c)

/-- `case '['`, behind the bracket: whether the class matches, and the pattern behind it. -/
def matchClass (pattern string : Scan) : Except Fault (Bool × Scan) := do
  let first ← pattern.peek
  let pattern ← (if first = 0x5E then pattern.advance watch 1 else pure pattern)
  let (pattern, matched) ← classLoop watch nocase string pattern.bytes pattern.len false
  pure (matched != decide (first = 0x5E), pattern)

/-- The cases that compare one character: whether it matches, and the pattern behind it. -/
def matchChar (pattern string : Scan) : Except Fault (Bool × Scan) := do
  let first ← pattern.peek
  if first = 0x5B then do
    let pattern ← pattern.advance watch 1
    matchClass watch nocase pattern string
  else do
    -- A backslash that is not the last character.
    let pattern ← (if first = 0x5C ∧ pattern.len ≥ 2 then pattern.advance watch 1 else pure pattern)
    let p ← pattern.peek
    let c ← string.peek
    let next ← pattern.advance watch 1
    pure (sameChar nocase p c, next)

/-- `while(stringLen)` behind a star. -/
def starLoop (matchRest : Scan → Except Fault Bool)
    : (rounds : Nat) → (string : Scan) → Except Fault Bool
  | 0, _ => .error .diverged
  | rounds + 1, string =>
      if string.len = 0 then .ok false
      else do
        if ← matchRest string then pure true
        else do
          let string ← string.advance watch 1
          starLoop matchRest rounds string

/-- The loop of `stringmatchlen`. -/
def matchLoop : (rounds : Nat) → (pattern string : Scan) → Except Fault Bool
  | 0, _, _ => .error .diverged
  | rounds + 1, pattern, string =>
      if pattern.len = 0 then .ok (string.len = 0)
      else do
        let first ← pattern.peek
        if first = 0x2A then do
          let pattern ← skipStars pattern.bytes pattern.len
          if pattern.len = 1 then pure true
          else do
            let rest ← pattern.advance watch 1
            starLoop watch (matchLoop rounds rest) rounds string
        else if first = 0x3F ∧ string.len = 0 then pure false
        else do
          let (matched, pattern) ← (
            if first = 0x3F then do
              let next ← pattern.advance watch 1
              pure (true, next)
            else matchChar watch nocase pattern string)
          if matched then do
            let string ← string.advance watch 1
            if string.len = 0 then do
              let pattern ← dropStars pattern.bytes pattern.len
              pure (pattern.len = 0)
            else matchLoop rounds pattern string
          else pure false

end Matching

/-- `stringmatchlen`. A call takes a round for a character of the pattern, and the loop behind a
star one for a character of the string. The stack that the call behind each star takes is left out.
-/
def stringmatchlen (watch : Bool) (pattern string : List UInt8) (nocase : Bool)
    : Except Fault Bool :=
  matchLoop watch nocase (pattern.length + string.length + 2) (.start pattern) (.start string)

end Redis
