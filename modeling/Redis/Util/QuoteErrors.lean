import Mathlib.Data.List.TakeWhile
import Redis.Util.Quoting

/-! The lines for which `sdssplitargs` returns `NULL`: those with a quote that is left open, or with
a closing quote that neither a space nor the end follows.
-/

namespace Redis.Util

open Redis.Keyspace (Sds)
open Redis.Library

-- Quotes in a line

inductive Quote where
  | double
  | single
deriving DecidableEq, Repr

def Quote.char : Quote → UInt8
  | .double => 0x22
  | .single => 0x27

def Quote.mode : Quote → Mode
  | .double => .inq
  | .single => .insq

/-- A text in which a quote is not closed, and that does not end with a backslash that belongs to
what follows.
-/
inductive Inside : Quote → List UInt8 → Prop
  | nil (q : Quote) : Inside q []
  | plain {q : Quote} {c : UInt8} {rest : List UInt8} (other : c ≠ q.char) (noBackslash : c ≠ 0x5C)
    (inside : Inside q rest)
    : Inside q (c :: rest)
  /-- Any character behind a backslash in double quotes. -/
  | escaped {c : UInt8} {rest : List UInt8} (inside : Inside .double rest)
    : Inside .double (0x5C :: c :: rest)
  /-- A quote behind a backslash in single quotes. -/
  | escapedQuote {rest : List UInt8} (inside : Inside .single rest)
    : Inside .single (0x5C :: 0x27 :: rest)
  /-- A backslash that stands for itself in single quotes. -/
  | backslash {c : UInt8} {rest : List UInt8} (other : c ≠ 0x27)
      (inside : Inside .single (c :: rest))
    : Inside .single (0x5C :: c :: rest)

/-- A text in which a quote is not closed. -/
def LeftOpen (q : Quote) (text : List UInt8) : Prop :=
  ∀ body rest, text = body ++ q.char :: rest → ¬ Inside q body

/-- A text after which no quote is open, and in which a space follows every closing quote. -/
inductive Outside : List UInt8 → Prop
  | nil : Outside []
  | plain {c : UInt8} {rest : List UInt8} (noQuote : ∀ q : Quote, c ≠ q.char)
      (outside : Outside rest)
    : Outside (c :: rest)
  | quoted {q : Quote} {body : List UInt8} {c : UInt8} {rest : List UInt8} (inside : Inside q body)
    (space : isSpace c = true) (outside : Outside rest)
    : Outside (q.char :: (body ++ q.char :: c :: rest))

/-- A line with a quote that is left open, or with a closing quote that is directly followed by a
character that is no space.
-/
inductive QuoteError : List UInt8 → Prop
  | leftOpen {before text : List UInt8} {q : Quote} (outside : Outside before)
      (opened : LeftOpen q text)
    : QuoteError (before ++ q.char :: text)
  | followed {before body : List UInt8} {q : Quote} {c : UInt8} {rest : List UInt8}
    (outside : Outside before) (inside : Inside q body) (noSpace : isSpace c = false)
    : QuoteError (before ++ q.char :: (body ++ q.char :: c :: rest))

-- One turn in a quote

/-- What a turn takes from a text in a quote. -/
structure Piece (q : Quote) (front rest : List UInt8) : Prop where
  nonempty : front ≠ []
  inside : ∀ body more, rest = body ++ q.char :: more → Inside q body → Inside q (front ++ body)
  split : ∀ body more, front ++ rest = body ++ q.char :: more → Inside q body →
    ∃ behind, body = front ++ behind ∧ Inside q behind

/-- What a turn in a quote does. -/
inductive TurnIn (q : Quote) : List UInt8 → Turn → Prop
  | opened : TurnIn q [] .err
  | followed {c : UInt8} {rest : List UInt8} (noSpace : isSpace c = false)
    : TurnIn q (q.char :: c :: rest) .err
  | closed {rest : List UInt8} (ends : ∀ c ∈ rest.head?, isSpace c = true)
    : TurnIn q (q.char :: rest) (.done 1)
  | piece {front rest : List UInt8} (piece : Piece q front rest) (bytes : List UInt8)
    : TurnIn q (front ++ rest) (.more q.mode bytes front.length)

section Pieces

variable {q : Quote} {c high low : UInt8} {rest : List UInt8}

theorem piece_plain (other : c ≠ q.char) (noBackslash : c ≠ 0x5C) (rest : List UInt8)
    : Piece q [c] rest where
  nonempty := by simp
  inside _ _ _ inside := .plain other noBackslash inside
  split body more split inside := by
    cases inside with
    | nil => exact absurd (List.cons.inj split).1 other
    | plain _ _ behind =>
        obtain ⟨rfl, -⟩ := List.cons.inj split
        exact ⟨_, rfl, behind⟩
    | escaped | escapedQuote | backslash => exact absurd (List.cons.inj split).1 noBackslash

theorem piece_last (q : Quote) : Piece q [0x5C] [] where
  nonempty := by simp
  inside body more split := by simp at split
  split body more split inside := by
    cases body with
    | nil => cases q <;> cases split
    | cons c body => simp at split

theorem piece_escaped (c : UInt8) (rest : List UInt8) : Piece .double [0x5C, c] rest where
  nonempty := by simp
  inside _ _ _ inside := .escaped inside
  split body more split inside := by
    cases inside with
    | nil => cases split
    | plain _ noBackslash => exact absurd (List.cons.inj split).1.symm noBackslash
    | escaped behind =>
        obtain ⟨rfl, -⟩ := List.cons.inj (List.cons.inj split).2
        exact ⟨_, rfl, behind⟩

theorem hexDigit_plain (digit : isHexDigit c = true) : c ≠ 0x22 ∧ c ≠ 0x5C ∧ c ≠ 0 := by
  refine ⟨?_, ?_, ?_⟩ <;>
    · rintro rfl
      cases digit

theorem piece_hex (first : isHexDigit high = true) (second : isHexDigit low = true)
    (rest : List UInt8)
    : Piece .double [0x5C, 0x78, high, low] rest := by
  obtain ⟨highQuote, highBackslash, -⟩ := hexDigit_plain first
  obtain ⟨lowQuote, lowBackslash, -⟩ := hexDigit_plain second
  have front := piece_escaped 0x78 (high :: low :: rest)
  have mid : Piece .double [high] (low :: rest) := piece_plain highQuote highBackslash _
  have back : Piece .double [low] rest := piece_plain lowQuote lowBackslash _
  refine ⟨by simp, fun body more _ inside => ?_, fun body more split inside => ?_⟩
  · exact .escaped (.plain highQuote highBackslash (.plain lowQuote lowBackslash inside))
  · obtain ⟨behindX, rfl, insideX⟩ := front.split body more split inside
    have splitHigh : high :: low :: rest = behindX ++ Quote.double.char :: more := by
      simpa using split
    obtain ⟨behindHigh, rfl, insideHigh⟩ := mid.split behindX more splitHigh insideX
    have splitLow : low :: rest = behindHigh ++ Quote.double.char :: more := by
      simpa using splitHigh
    obtain ⟨behindLow, rfl, insideLow⟩ := back.split behindHigh more splitLow insideHigh
    exact ⟨behindLow, rfl, insideLow⟩

theorem piece_escapedQuote (rest : List UInt8) : Piece .single [0x5C, 0x27] rest where
  nonempty := by simp
  inside _ _ _ inside := .escapedQuote inside
  split body more split inside := by
    cases inside with
    | nil => cases split
    | plain _ noBackslash => exact absurd (List.cons.inj split).1.symm noBackslash
    | escapedQuote behind => exact ⟨_, rfl, behind⟩
    | backslash other => exact absurd (List.cons.inj (List.cons.inj split).2).1.symm other

theorem piece_backslash (other : c ≠ 0x27) (rest : List UInt8)
    : Piece .single [0x5C] (c :: rest) where
  nonempty := by simp
  inside body more split inside := by
    cases body with
    | nil => exact absurd (List.cons.inj split).1 other
    | cons first body =>
        obtain ⟨rfl, -⟩ := List.cons.inj split
        exact .backslash other inside
  split body more split inside := by
    cases inside with
    | nil => cases split
    | plain _ noBackslash => exact absurd (List.cons.inj split).1.symm noBackslash
    | escapedQuote => exact absurd (List.cons.inj (List.cons.inj split).2).1 other
    | backslash _ behind => exact ⟨_, rfl, behind⟩

theorem closeQuote_ok (q : Quote) (rest : List UInt8) (clean : 0 ∉ rest)
    : ∃ result, closeQuote (q.char :: rest ++ [0]) = .ok result
      ∧ TurnIn q (q.char :: rest) result := by
  cases rest with
  | nil => exact ⟨.done 1, rfl, .closed nofun⟩
  | cons c rest =>
      have nonzero : c ≠ 0 := fun zero => clean (zero ▸ List.mem_cons_self)
      cases space : isSpace c with
      | true =>
          refine ⟨.done 1, ?_, .closed ?_⟩
          · simp [closeQuote, readByte_succ, readByte_zero, space]
          · rintro _ ⟨⟩
            exact space
      | false =>
          refine ⟨.err, ?_, .followed space⟩
          simp [closeQuote, readByte_succ, readByte_zero, space, nonzero]

theorem atHexEscape_mono {letter : UInt8} (plain : atHexEscape (0x5C :: letter :: rest) = .ok false)
    (some : letter ≠ 0)
    : turnInq (0x5C :: letter :: rest) = .ok (.more .inq [unescape letter] 2) := by
  rw [turnInq, plain]
  simp [readByte_zero, readByte_succ, some]

theorem hex_or_not (rest : List UInt8)
    : (∃ high low behind, rest = high :: low :: behind ∧ isHexDigit high = true
      ∧ isHexDigit low = true)
      ∨ atHexEscape (0x5C :: 0x78 :: (rest ++ [0])) = .ok false := by
  cases rest with
  | nil => exact .inr rfl
  | cons high rest =>
      cases first : isHexDigit high with
      | false =>
          right
          simp [atHexEscape, readByte_zero, readByte_succ, first]
      | true =>
          cases rest with
          | nil =>
              right
              simp [atHexEscape, readByte_zero, readByte_succ, first]
              rfl
          | cons low behind =>
              cases second : isHexDigit low with
              | true => exact .inl ⟨high, low, behind, rfl, first, second⟩
              | false =>
                  right
                  simp [atHexEscape, readByte_zero, readByte_succ, first, second]

theorem turnInq_in (text : List UInt8) (clean : 0 ∉ text)
    : ∃ result, turnInq (text ++ [0]) = .ok result ∧ TurnIn .double text result := by
  cases text with
  | nil => exact ⟨.err, rfl, .opened⟩
  | cons c rest =>
      obtain ⟨nonzero, cleanRest⟩ := not_or.mp (mt List.mem_cons.mpr clean)
      by_cases backslash : c = 0x5C
      · subst backslash
        cases rest with
        | nil => exact ⟨.more .inq [0x5C] 1, rfl, .piece (piece_last .double) [0x5C]⟩
        | cons letter rest =>
            have some : letter ≠ 0 := fun zero => cleanRest (zero ▸ List.mem_cons_self)
            have pair (plain : atHexEscape (0x5C :: letter :: (rest ++ [0])) = .ok false)
                : ∃ result, turnInq (0x5C :: letter :: rest ++ [0]) = .ok result
                    ∧ TurnIn .double (0x5C :: letter :: rest) result :=
              ⟨_, atHexEscape_mono plain some, .piece (piece_escaped letter rest) _⟩
            by_cases hex : letter = 0x78
            · subst hex
              rcases hex_or_not rest with ⟨high, low, behind, rfl, first, second⟩ | plain
              · exact ⟨_, turnInq_hex first second (behind ++ [0]),
                  .piece (piece_hex first second behind) _⟩
              · exact pair plain
            · refine pair ?_
              simp [atHexEscape, readByte_zero, readByte_succ, hex]
      · rw [List.cons_append, turnInq_other backslash]
        by_cases closing : c = 0x22
        · subst closing
          rw [if_pos rfl]
          exact closeQuote_ok .double rest cleanRest
        · rw [if_neg closing, if_neg (Ne.symm nonzero)]
          exact ⟨_, rfl, .piece (piece_plain closing backslash rest) [c]⟩

theorem turnInsq_in (text : List UInt8) (clean : 0 ∉ text)
    : ∃ result, turnInsq (text ++ [0]) = .ok result ∧ TurnIn .single text result := by
  cases text with
  | nil => exact ⟨.err, rfl, .opened⟩
  | cons c rest =>
      obtain ⟨nonzero, cleanRest⟩ := not_or.mp (mt List.mem_cons.mpr clean)
      by_cases backslash : c = 0x5C
      · subst backslash
        cases rest with
        | nil => exact ⟨.more .insq [0x5C] 1, rfl, .piece (piece_last .single) [0x5C]⟩
        | cons next rest =>
            by_cases quote : next = 0x27
            · subst quote
              exact ⟨.more .insq [0x27] 2, rfl, .piece (piece_escapedQuote rest) [0x27]⟩
            · refine ⟨.more .insq [0x5C] 1, ?_, .piece (piece_backslash quote rest) [0x5C]⟩
              simp [turnInsq, readByte_zero, readByte_succ, quote]
      · by_cases closing : c = 0x27
        · subst closing
          obtain ⟨result, closed, turn⟩ := closeQuote_ok .single rest cleanRest
          exact ⟨result, closed, turn⟩
        · refine ⟨.more .insq [c] 1, ?_, .piece (piece_plain closing backslash rest) [c]⟩
          simp [turnInsq, readByte_zero, backslash, closing, Ne.symm nonzero]

theorem turn_in (q : Quote) (text : List UInt8) (clean : 0 ∉ text)
    : ∃ result, turn q.mode (text ++ [0]) = .ok result ∧ TurnIn q text result := by
  cases q with
  | double => exact turnInq_in text clean
  | single => exact turnInsq_in text clean

end Pieces

-- A quote up to its end

/-- How a quote ends: in an error when it is left open or followed, else with a token and the text
behind it.
-/
inductive QuoteOutcome (q : Quote) (text : List UInt8) : Option (Sds × List UInt8) → Prop
  | leftOpen (opened : LeftOpen q text) : QuoteOutcome q text none
  | followed {body : List UInt8} {c : UInt8} {rest : List UInt8}
    (split : text = body ++ q.char :: c :: rest) (inside : Inside q body)
    (noSpace : isSpace c = false)
    : QuoteOutcome q text none
  | closed {body rest : List UInt8} (split : text = body ++ q.char :: rest) (inside : Inside q body)
    (ends : ∀ c ∈ rest.head?, isSpace c = true) (token : Sds)
    : QuoteOutcome q text (some (token, rest ++ [0]))

section Quotes

variable {q : Quote} {text body rest : List UInt8}

theorem QuoteOutcome.extend {front : List UInt8} (piece : Piece q front rest)
    {result : Option (Sds × List UInt8)} (outcome : QuoteOutcome q rest result)
    : QuoteOutcome q (front ++ rest) result := by
  cases outcome with
  | leftOpen opened =>
      refine .leftOpen fun body more split inside => ?_
      obtain ⟨behind, rfl, insideBehind⟩ := piece.split body more split inside
      rw [List.append_assoc] at split
      exact opened behind more (List.append_cancel_left split) insideBehind
  | @followed body c behind split inside noSpace =>
      refine @QuoteOutcome.followed q _ (front ++ body) c behind ?_
        (piece.inside _ _ split inside) noSpace
      rw [split, List.append_assoc]
  | closed split inside ends token =>
      refine .closed ?_ (piece.inside _ _ split inside) ends token
      rw [split, List.append_assoc]

theorem readToken_in (q : Quote) (text : List UInt8) (clean : 0 ∉ text) (turns : Nat)
    (enough : text.length < turns) (current : Sds)
    : ∃ result, readToken turns q.mode (text ++ [0]) current = .ok result
        ∧ QuoteOutcome q text result := by
  induction turns generalizing text current with
  | zero => exact absurd enough (Nat.not_lt_zero _)
  | succ turns ih =>
      obtain ⟨done, ran, turned⟩ := turn_in q text clean
      rw [readToken, ran, ok_andThen]
      cases turned with
      | opened => exact ⟨none, rfl, .leftOpen fun body rest split => by simp at split⟩
      | @followed c rest noSpace =>
          exact ⟨none, rfl, @QuoteOutcome.followed q _ [] _ _ rfl (.nil q) noSpace⟩
      | @closed rest ends =>
          exact ⟨some (current, rest ++ [0]), rfl,
            @QuoteOutcome.closed q _ [] _ rfl (.nil q) ends current⟩
      | @piece front rest piece bytes =>
          dsimp only
          rw [List.append_assoc, List.drop_left]
          have positive := List.length_pos_iff.mpr piece.nonempty
          rw [List.length_append] at enough
          obtain ⟨result, finished, outcome⟩ :=
            ih rest (fun inside => clean (List.mem_append_right _ inside)) (by omega)
              (sdscatlen current bytes)
          exact ⟨result, finished, outcome.extend piece⟩

theorem Piece.unique {front behind body' rest' : List UInt8}
    (piece : Piece q front (behind ++ q.char :: rest)) (inside' : Inside q body')
    (same : front ++ behind ++ q.char :: rest = body' ++ q.char :: rest')
    (unique : ∀ {other : List UInt8}, Inside q other →
      behind ++ q.char :: rest = other ++ q.char :: rest' → behind = other ∧ rest = rest')
    : front ++ behind = body' ∧ rest = rest' := by
  rw [List.append_assoc] at same
  obtain ⟨other, rfl, insideOther⟩ := piece.split body' rest' same inside'
  rw [List.append_assoc] at same
  obtain ⟨rfl, rfl⟩ := unique insideOther (List.append_cancel_left same)
  exact ⟨rfl, rfl⟩

theorem closing_unique {body' rest' : List UInt8} (inside : Inside q body)
    (inside' : Inside q body')
    (same : body ++ q.char :: rest = body' ++ q.char :: rest')
    : body = body' ∧ rest = rest' := by
  induction inside generalizing body' with
  | nil q =>
      cases inside' with
      | nil => exact ⟨rfl, (List.cons.inj same).2⟩
      | plain other _ _ => exact absurd (List.cons.inj same).1.symm other
      | escaped | escapedQuote | backslash => cases same
  | plain other noBackslash _ ih =>
      exact (piece_plain other noBackslash _).unique inside' same fun insideOther same =>
        ih insideOther same
  | escaped _ ih =>
      exact (piece_escaped _ _).unique inside' same fun insideOther same => ih insideOther same
  | escapedQuote _ ih =>
      exact (piece_escapedQuote _).unique inside' same fun insideOther same => ih insideOther same
  | backslash other _ ih =>
      exact (piece_backslash other _).unique inside' same fun insideOther same =>
        ih insideOther same

-- Quotes of a line

theorem quote_char_inj {q q' : Quote} (same : q.char = q'.char) : q = q' := by
  cases q <;> cases q' <;> first | rfl | cases same

theorem quoteError_plain {c : UInt8} (noQuote : ∀ q : Quote, c ≠ q.char)
    : QuoteError (c :: text) ↔ QuoteError text := by
  constructor
  · intro error
    generalize whole : c :: text = line at error
    cases error with
    | leftOpen outside opened =>
        cases outside with
        | nil => exact absurd (List.cons.inj whole).1 (noQuote _)
        | plain _ outside =>
            rw [(List.cons.inj whole).2]
            exact .leftOpen outside opened
        | quoted => exact absurd (List.cons.inj whole).1 (noQuote _)
    | followed outside inside noSpace =>
        cases outside with
        | nil => exact absurd (List.cons.inj whole).1 (noQuote _)
        | plain _ outside =>
            rw [(List.cons.inj whole).2]
            exact .followed outside inside noSpace
        | quoted => exact absurd (List.cons.inj whole).1 (noQuote _)
  · intro error
    cases error with
    | leftOpen outside opened => exact .leftOpen (.plain noQuote outside) opened
    | followed outside inside noSpace => exact .followed (.plain noQuote outside) inside noSpace

theorem space_noQuote {c : UInt8} (space : isSpace c = true) (q : Quote) : c ≠ q.char := by
  rintro rfl
  cases q <;> cases space

theorem not_quoteError_nil : ¬ QuoteError [] := by
  intro error
  generalize whole : ([] : List UInt8) = line at error
  cases error <;> simp at whole

theorem quoteError_closed (inside : Inside q body) (ends : ∀ c ∈ rest.head?, isSpace c = true)
    : QuoteError (q.char :: (body ++ q.char :: rest)) ↔ QuoteError rest := by
  constructor
  · intro error
    generalize whole : q.char :: (body ++ q.char :: rest) = line at error
    cases error with
    | @leftOpen _ text q' outside opened =>
        cases outside with
        | nil =>
            obtain ⟨same, split⟩ := List.cons.inj whole
            cases quote_char_inj same
            exact absurd inside (opened body rest split.symm)
        | plain noQuote _ => exact absurd (List.cons.inj whole).1.symm (noQuote q)
        | @quoted q'' body' c rest' inside' space outside =>
            obtain ⟨same, split⟩ := List.cons.inj whole
            cases quote_char_inj same
            obtain ⟨-, rfl⟩ := closing_unique inside inside' (split.trans (List.append_assoc _ _ _))
            exact .leftOpen (.plain (space_noQuote space) outside) opened
    | @followed _ body'' q' c' rest'' outside inside'' noSpace =>
        cases outside with
        | nil =>
            obtain ⟨same, split⟩ := List.cons.inj whole
            cases quote_char_inj same
            obtain ⟨-, rfl⟩ := closing_unique inside inside'' split
            rw [ends c' rfl] at noSpace
            cases noSpace
        | plain noQuote _ => exact absurd (List.cons.inj whole).1.symm (noQuote q)
        | @quoted q'' body' c rest' inside' space outside =>
            obtain ⟨same, split⟩ := List.cons.inj whole
            cases quote_char_inj same
            obtain ⟨-, rfl⟩ := closing_unique inside inside' (split.trans (List.append_assoc _ _ _))
            exact .followed (.plain (space_noQuote space) outside) inside'' noSpace
  · intro error
    cases rest with
    | nil => exact absurd error not_quoteError_nil
    | cons c rest =>
        have space := ends c rfl
        have behind := (quoteError_plain (space_noQuote space)).mp error
        cases behind with
        | leftOpen outside opened =>
            have joined := QuoteError.leftOpen (.quoted inside space outside) opened
            simpa using joined
        | @followed before body' q' c' rest' outside inside' noSpace =>
            have joined :=
              @QuoteError.followed _ _ _ _ rest' (.quoted inside space outside) inside' noSpace
            simpa using joined

end Quotes

-- The loops

/-- A run that ends, with `NULL` for the lines with an error. -/
def Settles (run : Except Fault (Option (List Sds))) (line : List UInt8) : Prop :=
  ∃ result, run = .ok result ∧ (result = none ↔ QuoteError line)

/-- What the loop does after a token. -/
def afterToken (turns rounds : Nat) (vector : List Sds)
    : Option (Sds × List UInt8) → Except Fault (Option (List Sds))
  | none => .ok none
  | some (token, p) => splitLoop turns rounds p (vector ++ [token])

section Loops

variable {total : Nat} {line : List UInt8}

theorem settles_end (rounds : Nat) (some : 1 ≤ rounds) (vector : List Sds)
    : Settles (splitLoop total rounds [0] vector) [] := by
  obtain ⟨rounds, rfl⟩ := Nat.exists_eq_add_of_le' some
  exact ⟨Option.some vector, rfl, iff_of_false nofun not_quoteError_nil⟩

theorem dropWhile_space (line : List UInt8)
    : (line ++ [0]).dropWhile isSpace = line.dropWhile isSpace ++ [0] := by
  induction line with
  | nil => rfl
  | cons c rest ih =>
      rw [List.cons_append]
      by_cases space : isSpace c = true
      · rw [List.dropWhile_cons_of_pos space, List.dropWhile_cons_of_pos space, ih]
      · rw [List.dropWhile_cons_of_neg space, List.dropWhile_cons_of_neg space]
        rfl

theorem quoteError_dropWhile (line : List UInt8)
    : QuoteError (line.dropWhile isSpace) ↔ QuoteError line := by
  induction line with
  | nil => rfl
  | cons c rest ih =>
      by_cases space : isSpace c = true
      · rw [List.dropWhile_cons_of_pos space, ih, quoteError_plain (space_noQuote space)]
      · rw [List.dropWhile_cons_of_neg space]

theorem settles_bare (shorter : ∀ rest : List UInt8, rest.length < line.length → 0 ∉ rest →
      ∀ rounds vector, rest.length < rounds
        → Settles (splitLoop total rounds (rest ++ [0]) vector) rest)
    (clean : 0 ∉ line) (turns rounds : Nat) (enough : line.length < turns) (some : 1 ≤ rounds)
    (rounded : line.length ≤ rounds) (current : Sds) (vector : List Sds)
    : Settles (readToken turns .bare (line ++ [0]) current >>= afterToken total rounds vector)
      line := by
  induction line generalizing turns current with
  | nil =>
      obtain ⟨turns, rfl⟩ := Nat.exists_eq_add_one_of_ne_zero (Nat.ne_zero_of_lt enough)
      exact settles_end rounds some (vector ++ [current])
  | cons c rest ih =>
      obtain ⟨turns, rfl⟩ := Nat.exists_eq_add_one_of_ne_zero (Nat.ne_zero_of_lt enough)
      rw [List.length_cons] at enough rounded
      obtain ⟨nonzero, cleanRest⟩ := not_or.mp (mt List.mem_cons.mpr clean)
      have first : readByte (c :: rest ++ [0]) 0 = .ok c := rfl
      by_cases ends : c = 0x20 ∨ c = 0x0A ∨ c = 0x0D ∨ c = 0x09
      · have turned : turn .bare (c :: rest ++ [0]) = .ok (.done 1) := by
          rw [turn, turnBare, first, ok_andThen, if_pos ends]
          rfl
        have space : isSpace c = true := by
          rcases ends with rfl | rfl | rfl | rfl <;> rfl
        rw [readToken, turned, ok_andThen]
        have behind := shorter rest (by simp) cleanRest rounds (vector ++ [current]) (by omega)
        obtain ⟨result, ran, error⟩ := behind
        exact ⟨result, ran, error.trans (quoteError_plain (space_noQuote space)).symm⟩
      -- Behind a quote, and behind what the quote is closed in.
      have quoted (q : Quote) (same : c = q.char)
          (turned : turn .bare (c :: rest ++ [0]) = .ok (.more q.mode [] 1))
          : Settles
            (readToken (turns + 1) .bare (c :: rest ++ [0]) current >>= afterToken total rounds
            vector)
              (c :: rest) := by
        obtain ⟨result, ran, outcome⟩ :=
          readToken_in q rest cleanRest turns (by omega) (sdscatlen current [])
        have read : readToken (turns + 1) .bare (c :: rest ++ [0]) current = .ok result := by
          rw [readToken, turned]
          exact ran
        rw [read, ok_andThen]
        subst same
        cases outcome with
        | leftOpen opened => exact ⟨none, rfl, iff_of_true rfl (.leftOpen .nil opened)⟩
        | followed split inside noSpace =>
            subst split
            exact ⟨none, rfl, iff_of_true rfl (.followed .nil inside noSpace)⟩
        | @closed body behind split inside spaces token =>
            subst split
            have cleanBehind : 0 ∉ behind := fun zero =>
              cleanRest (List.mem_append_right _ (List.mem_cons_of_mem _ zero))
            rw [List.length_append, List.length_cons] at rounded
            obtain ⟨result, finished, error⟩ :=
              shorter behind (by simp; omega) cleanBehind rounds (vector ++ [token]) (by omega)
            exact ⟨result, finished, error.trans (quoteError_closed inside spaces).symm⟩
      by_cases double : c = 0x22
      · refine quoted .double double ?_
        subst double
        rfl
      by_cases single : c = 0x27
      · refine quoted .single single ?_
        subst single
        rfl
      have turned : turn .bare (c :: rest ++ [0]) = .ok (.more .bare [c] 1) := by
        rw [turn, turnBare, first, ok_andThen, if_neg ends, if_neg (Ne.symm nonzero), if_neg double,
          if_neg single]
        rfl
      rw [readToken, turned, ok_andThen]
      have plain : ∀ q : Quote, c ≠ q.char := by
        intro q
        cases q with
        | double => exact double
        | single => exact single
      obtain ⟨result, ran, error⟩ :=
        ih (fun other small => shorter other (by simp; omega)) cleanRest turns (by omega) (by omega)
          (sdscatlen current [c])
      exact ⟨result, ran, error.trans (quoteError_plain plain).symm⟩

theorem settles_split (clean : 0 ∉ line) (long : line.length < total) (rounds : Nat)
    (rounded : line.length < rounds) (vector : List Sds)
    : Settles (splitLoop total rounds (line ++ [0]) vector) line := by
  induction length : line.length using Nat.strong_induction_on generalizing line rounds vector with
  | h n ih =>
      subst length
      obtain ⟨rounds, rfl⟩ := Nat.exists_eq_add_one_of_ne_zero (Nat.ne_zero_of_lt rounded)
      have suffix := List.dropWhile_suffix isSpace (l := line)
      have shorter := suffix.length_le
      rw [splitLoop, dropWhile_space]
      suffices settled : Settles
          (do
            let c ← readByte (line.dropWhile isSpace ++ [0]) 0
            if c = 0 then pure (some vector)
            else
              readToken total .bare (line.dropWhile isSpace ++ [0]) []
                >>= afterToken total rounds vector)
          (line.dropWhile isSpace) by
        obtain ⟨result, ran, error⟩ := settled
        exact ⟨result, ran, error.trans (quoteError_dropWhile line)⟩
      cases rest : line.dropWhile isSpace with
      | nil =>
          exact ⟨some vector, rfl, iff_of_false (Option.some_ne_none vector) not_quoteError_nil⟩
      | cons c rest' =>
          have cleanRest : 0 ∉ c :: rest' := fun zero => clean (suffix.subset (rest ▸ zero))
          have nonzero : c ≠ 0 := fun zero => cleanRest (zero ▸ List.mem_cons_self)
          have first : readByte (c :: rest' ++ [0]) 0 = .ok c := rfl
          rw [rest] at shorter
          rw [first, ok_andThen, if_neg nonzero]
          refine settles_bare (fun other small cleanOther rounds vector rounded => ?_) cleanRest
            total rounds
            (by omega) (by rw [List.length_cons] at shorter; omega) (by omega) [] vector
          exact ih other.length (by omega) cleanOther (by omega) rounds rounded vector rfl

end Loops

/-- Texts that are quoted and joined with spaces are split into themselves when the line is shorter
than `2 ^ 32` bytes. And a line whose tokens an `int` counts is split, without a read behind its
NUL, unless it has a quote that is left open or a closing quote that a character follows which is no
space.
-/
theorem quoting_inverse_and_errors (args : List Sds) (text : Sds)
    : ((quotedTexts args).length < 2 ^ 32 →
        sdssplitargs (quotedLine args ++ [0]) = .ok (some args))
      ∧ ((Keyspace.cString text).length < 2 ^ 32 - 1 →
        ∃ result, sdssplitargs (Keyspace.cString text ++ [0]) = .ok result
          ∧ (result = none ↔ QuoteError (Keyspace.cString text))) := by
  refine ⟨fun fits => sdssplitargs_quoted fits, fun _ => ?_⟩
  have clean : 0 ∉ Keyspace.cString text := fun zero => by simpa using List.mem_takeWhile_imp zero
  exact settles_split clean (by simp) _ (by simp) []

/-- A text with a zero byte and an empty one, and a line with a quote that is left open. -/
theorem quoting_inverse_and_errors_pair
    : sdssplitargs (quotedLine [[0x61, 0, 0x22], []] ++ [0]) = .ok (some [[0x61, 0, 0x22], []])
      ∧ ∃ result, sdssplitargs (Keyspace.cString [0x61, 0x20, 0x22, 0x62] ++ [0]) = .ok result
          ∧ (result = none ↔ QuoteError (Keyspace.cString [0x61, 0x20, 0x22, 0x62])) :=
  ⟨(quoting_inverse_and_errors _ []).1 (by decide),
    (quoting_inverse_and_errors [] _).2 (by decide)⟩

/-- A quoted text of `2 ^ 30` zero bytes is longer than an sds: two quotes are left of it. -/
theorem long_quoted_text_lost
    : ∃ args, sdssplitargs (quotedLine args ++ [0]) ≠ .ok (some args) := by
  obtain ⟨n, count⟩ : ∃ n, n = 2 ^ 30 - 1 := ⟨_, rfl⟩
  have pieces : reprPieces (List.replicate n 0 ++ [0])
      = [0x22] :: List.replicate n (reprByte 0) ++ [reprByte 0, [0x22]] := by
    simp [reprPieces]
  have size : ([0x22] :: List.replicate n (reprByte 0)).flatten.length = 2 ^ 32 - 3 := by
    have four : (reprByte 0).length = 4 := by decide
    simp only [List.flatten_cons, List.length_append, List.length_flatten, List.map_replicate,
      List.sum_replicate, four, List.length_singleton, smul_eq_mul]
    omega
  have front : ([0x22] :: List.replicate n (reprByte 0)).foldl sdscatlen []
      = 0x22 :: (List.replicate n (reprByte 0)).flatten := by
    rw [foldl_sdscatlen (by rw [size, List.length_nil]; decide)]
    rfl
  have wrapped : sdscatlen (0x22 :: (List.replicate n (reprByte 0)).flatten) (reprByte 0)
      = [0x22] := by
    have length : (0x22 :: (List.replicate n (reprByte 0)).flatten ++ reprByte 0).length
        = 2 ^ 32 + 1 := by
      rw [List.length_append]
      exact congrArg (· + 4) size
    rw [sdscatlen, sdsnewlen, length]
    rfl
  have line : quotedLine [List.replicate n 0 ++ [0]] = [0x22, 0x22] := by
    rw [quotedLine, catQuoted, sdscatrepr, pieces, List.foldl_append, front, List.foldl_cons,
      wrapped]
    rfl
  refine ⟨[List.replicate n 0 ++ [0]], ?_⟩
  rw [line, show sdssplitargs ([0x22, 0x22] ++ [0]) = .ok (some [[]]) by decide]
  simp

end Redis.Util
