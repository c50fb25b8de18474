import Redis.Util.GlobCorrectness

/-! When `stringmatchlen` agrees with the grammar of its patterns, and when it stays in its bounds.
-/

namespace Redis

open Redis.Library

-- Every pattern can be read

theorem exists_items (text : List UInt8)
    : ∃ items closing rest,
        text = itemBytes items ++ (Closing.bytes closing ++ rest)
        ∧ ItemsValid closing items
        ∧ (closing ≠ .closed → rest = []) := by
  induction length : text.length using Nat.strong_induction_on generalizing text with
  | _ size ih =>
      subst length
      cases text with
      | nil => exact ⟨[], .unclosed, [], rfl, trivial, fun _ => rfl⟩
      | cons first text =>
          by_cases escape : first = 0x5C
          · subst escape
            cases text with
            | nil => exact ⟨[], .cut, [], rfl, trivial, fun _ => rfl⟩
            | cons p text =>
                obtain ⟨items, closing, rest, parts, valid, atEnd⟩ :=
                  ih text.length (by simp) text rfl
                exact ⟨.escaped p :: items, closing,
                  rest, by simp [parts, itemBytes, ClassItem.bytes], valid, atEnd⟩
          by_cases bracket : first = 0x5D
          · exact ⟨[], .closed, text, by rw [bracket]; rfl, trivial, fun open' => absurd rfl open'⟩
          cases text with
          | nil =>
              refine ⟨[.single first], .unclosed, [], rfl, ⟨escape, bracket, ?_, trivial⟩, fun _ =>
                rfl⟩
              rintro ⟨⟩
          | cons second text =>
              by_cases dash : second = 0x2D
              · subst dash
                cases text with
                | nil =>
                    refine ⟨[.single first, .single 0x2D], .unclosed, [], rfl, ?_, fun _ => rfl⟩
                    refine ⟨escape, bracket, fun _ => ⟨rfl, rfl⟩, by decide, by decide, ?_, trivial⟩
                    rintro ⟨⟩
                | cons last text =>
                    obtain ⟨items, closing, rest, parts, valid, atEnd⟩ :=
                      ih text.length (by simp; omega) text rfl
                    exact ⟨.range first last :: items, closing, rest,
                      by simp [parts, itemBytes, ClassItem.bytes], ⟨escape, bracket, valid⟩, atEnd⟩
              · obtain ⟨items, closing, rest, parts, valid, atEnd⟩ :=
                  ih (second :: text).length (by simp) (second :: text) rfl
                refine ⟨.single first :: items, closing,
                  rest, by simp [parts, itemBytes, ClassItem.bytes],
                  ⟨escape, bracket, fun head => ?_, valid⟩, atEnd⟩
                have heads : (itemBytes items ++ closing.bytes).head? = some second := by
                  have all := congrArg List.head? parts
                  cases found : itemBytes items ++ closing.bytes with
                  | nil => simp [found] at head
                  | cons byte more =>
                      rw [← List.append_assoc, found] at all
                      exact all.symm
                rw [heads] at head
                exact absurd (Option.some.inj head) dash

theorem exists_tokens (pattern : List UInt8)
    : ∃ tokens, PatternValid tokens ∧ globBytes tokens = pattern := by
  induction length : pattern.length using Nat.strong_induction_on generalizing pattern with
  | _ size ih =>
      subst length
      have extend (token : GlobToken) (rest : List UInt8) (bytes : pattern = token.bytes ++ rest)
          (valid : token.Valid (rest = []))
          : ∃ tokens, PatternValid tokens ∧ globBytes tokens = pattern := by
        have positive := token_length_pos token
        obtain ⟨tokens, others, text⟩ :=
          ih rest.length (by rw [bytes, List.length_append]; omega) rest rfl
        refine ⟨token :: tokens, ⟨?_, others⟩, ?_⟩
        · rwa [← text, globBytes_eq_nil] at valid
        · rw [bytes, ← text]
          rfl
      match pattern with
      | [] => exact ⟨[], trivial, rfl⟩
      | first :: rest =>
          by_cases star : first = 0x2A
          · exact extend .star rest (by rw [star]; rfl) trivial
          by_cases any : first = 0x3F
          · exact extend .any rest (by rw [any]; rfl) trivial
          by_cases escape : first = 0x5C
          · match rest with
            | [] =>
                exact extend (.plain first) [] rfl ⟨star, any, by rw [escape]; decide, fun _ => rfl⟩
            | p :: rest => exact extend (.escaped p) rest (by rw [escape]; rfl) trivial
          by_cases bracket : first = 0x5B
          · subst bracket
            by_cases caret : rest.head? = some 0x5E
            · obtain ⟨text, rfl⟩ : ∃ text, rest = 0x5E :: text := by
                cases rest with
                | nil => cases caret
                | cons byte text => exact ⟨text, by rw [Option.some.inj caret]⟩
              obtain ⟨items, closing, after, parts, valid, atEnd⟩ := exists_items text
              exact extend (.cls true items closing) after (by simp [parts, GlobToken.bytes])
                ⟨valid, nofun, atEnd⟩
            · obtain ⟨items, closing, after, parts, valid, atEnd⟩ := exists_items rest
              refine extend (.cls false items closing) after (by simp [parts, GlobToken.bytes])
                ⟨valid, fun _ head => caret ?_, atEnd⟩
              rw [parts]
              cases found : itemBytes items with
              | nil => simp [found] at head
              | cons byte more =>
                  rw [found] at head
                  exact head
          · exact extend (.plain first) rest rfl
              ⟨star, any, bracket, fun same => absurd same escape⟩

theorem PatternValid.split_cut {tokens : List GlobToken} (valid : PatternValid tokens)
    : (∀ token ∈ tokens, token.isCut = false)
      ∨ ∃ front cut,
          tokens = front ++ [cut] ∧ cut.isCut = true ∧ ∀ token ∈ front, token.isCut = false := by
  induction tokens with
  | nil => exact .inl nofun
  | cons token tokens ih =>
      cases isCut : token.isCut with
      | true =>
          have last : tokens = [] := by
            cases token with
            | cls negated items closing =>
                refine valid.1.2.2 ?_
                rintro rfl
                cases isCut
            | star => cases isCut
            | any => cases isCut
            | plain c => cases isCut
            | escaped c => cases isCut
          subst last
          exact .inr ⟨[], token, rfl, isCut, nofun⟩
      | false =>
          rcases ih valid.2 with whole | ⟨front, cut, rfl, cutLast, whole⟩
          · refine .inl fun other member => ?_
            rcases List.mem_cons.mp member with rfl | later
            · exact isCut
            · exact whole other later
          · refine .inr ⟨token :: front, cut, rfl, cutLast, fun other member => ?_⟩
            rcases List.mem_cons.mp member with rfl | later
            · exact isCut
            · exact whole other later

section Empty

variable {watch nocase : Bool} {tokens : List GlobToken} {token : GlobToken} {rounds : Nat}

theorem matchLoop_nil_star (valid : PatternValid tokens)
    : matchLoop watch nocase (rounds + 2) (.start (globBytes (.star :: tokens))) (.start [])
      = tokenRun nocase (cutFault watch) (.star :: tokens) [] := by
  induction tokens with
  | nil => rfl
  | cons second tokens ih =>
      by_cases again : second = .star
      · subst again
        have same : globBytes (.star :: .star :: tokens) = 0x2A :: 0x2A :: globBytes tokens := rfl
        rw [same, matchLoop_star_star]
        exact ih valid.2
      · obtain ⟨first, rest, head, plain⟩ := token_head again valid.1
        have whole : globBytes (.star :: second :: tokens)
            = 0x2A :: first :: (rest ++ globBytes tokens) := by
          have parts : globBytes (.star :: second :: tokens)
              = 0x2A :: (second.bytes ++ globBytes tokens) := rfl
          rw [parts, head, List.cons_append]
        have run : tokenRun nocase (cutFault watch) (.star :: second :: tokens) [] = .ok false := by
          cases second <;> first | rfl | exact absurd rfl again
        rw [whole, matchLoop_star _ plain, run]
        rfl

theorem matchLoop_nil_any (rest : List UInt8)
    : matchLoop watch nocase (rounds + 1) (.start (0x3F :: rest)) (.start []) = .ok false := by
  have some : ¬ (Scan.start (0x3F :: rest)).len = 0 := by
    simp only [start_len, List.length_cons]
    omega
  rw [matchLoop, if_neg some, peek_start_cons, ok_andThen, if_neg (by decide), if_pos ⟨rfl, rfl⟩]
  rfl

/-- Behind a token that takes the terminator, `stringLen` is -1. -/
def pastTerminator : Scan := ⟨[], -1⟩

theorem matchLoop_nil_one (notStar : token ≠ .star) (notAny : token ≠ .any) {more : List UInt8}
    (valid : token.Valid (more = []))
    : matchLoop watch nocase (rounds + 1) (.start (token.bytes ++ more)) (.start [])
      = if token.isCut then .error (cutFault watch)
        else if token.takes nocase 0 then
          if watch then .error .assertion
          else matchLoop watch nocase rounds (.start more) pastTerminator
        else .ok false := by
  obtain ⟨first, rest, bytes, plain⟩ := token_head notStar valid
  have peeked : (Scan.start (token.bytes ++ more)).peek = .ok first := by
    rw [bytes]
    rfl
  have positive := token_length_pos token
  have some : ¬ (Scan.start (token.bytes ++ more)).len = 0 := by
    simp only [start_len, List.length_append]
    omega
  have question : first ≠ 0x3F := by
    rintro rfl
    cases token with
    | plain p =>
        cases bytes
        exact valid.2.1 rfl
    | star => cases bytes
    | any => exact notAny rfl
    | escaped p => cases bytes
    | cls negated items closing => cases bytes
  rw [matchLoop, if_neg some, peeked, ok_andThen, if_neg plain,
    if_neg (fun both => question both.1),
    if_neg question, matchChar_token peek_start_nil notStar notAny valid]
  split
  · rfl
  · rw [ok_andThen]
    dsimp only
    split
    · cases watch with
      | true => rfl
      | false => rfl
    · rfl

/-- The tokens that the matcher passes without a look at the string and without success. -/
def quiet : List GlobToken → Bool
  | [] => true
  | .any :: rest => quiet rest
  | .cls true [] _ :: rest => quiet rest
  | .cls false [] _ :: _ => true
  | _ => false

theorem starLoop_negative {matchRest : Scan → Except Fault Bool} {n : Int} (negative : n < 0)
    : starLoop false matchRest rounds ⟨[], n⟩ ≠ .ok false := by
  induction rounds generalizing n with
  | zero => rintro ⟨⟩
  | succ rounds ih =>
      have some : ¬ (n = 0) := by omega
      rw [starLoop, if_neg some]
      cases matchRest ⟨[], n⟩ with
      | error fault => rintro ⟨⟩
      | ok matched =>
          cases matched with
          | true => rintro ⟨⟩
          | false => exact ih (by omega : n - 1 < 0)

variable (nocase) in
theorem matchChar_blind {p : UInt8} (notClass : p ≠ 0x5B) (more : List UInt8) (n : Int)
    : ∃ fault, matchChar false nocase (.start (p :: more)) ⟨[], n⟩ = .error fault := by
  have noChar : (⟨[], n⟩ : Scan).peek = .error .outOfBounds := rfl
  rw [matchChar, peek_start_cons, ok_andThen, if_neg notClass]
  split
  · rw [advance_one, ok_andThen]
    cases more with
    | nil => exact ⟨_, rfl⟩
    | cons second more => exact ⟨_, rfl⟩
  · exact ⟨_, rfl⟩

variable (nocase) in
theorem classLoop_blind {item : ClassItem} (notEscape : ∀ p, item = .single p → p ≠ 0x5C ∧ p ≠ 0x5D)
    (notStart : ∀ p q, item = .range p q → p ≠ 0x5C ∧ p ≠ 0x5D) {after : List UInt8}
    (some : after ≠ []) (n : Int) (matched : Bool)
    : ∃ fault,
        classLoop false nocase ⟨[], n⟩ (Scan.start (item.bytes ++ after)).bytes
          (Scan.start (item.bytes ++ after)).len matched
        = .error fault := by
  have noChar : (⟨[], n⟩ : Scan).peek = .error .outOfBounds := rfl
  cases item with
  | single p =>
      obtain ⟨second, rest, rfl⟩ := List.exists_cons_of_ne_nil some
      obtain ⟨escape, bracket⟩ := notEscape p rfl
      rw [ClassItem.bytes, List.singleton_append, Scan.start, List.cons_append, List.cons_append,
        classLoop.eq_def]
      dsimp only
      rw [if_neg escape, if_neg bracket, if_neg (by simp only [List.length_cons]; omega), noChar]
      split
      · split <;> exact ⟨_, rfl⟩
      · exact ⟨_, rfl⟩
  | escaped p =>
      rw [ClassItem.bytes, List.cons_append, List.singleton_append, Scan.start, List.cons_append,
        List.cons_append, classLoop.eq_def]
      dsimp only
      rw [if_pos rfl, noChar]
      exact ⟨_, rfl⟩
  | range first last =>
      obtain ⟨escape, bracket⟩ := notStart first last rfl
      rw [ClassItem.bytes, List.cons_append, List.cons_append, List.singleton_append, Scan.start,
        List.cons_append, List.cons_append, List.cons_append, classLoop.eq_def]
      dsimp only
      rw [if_neg escape, if_neg bracket, if_neg (by simp only [List.length_cons]; omega), noChar]
      split
      · exact ⟨_, rfl⟩
      · exact ⟨_, rfl⟩

variable (nocase) in
theorem matchClass_blind {negated : Bool} {item : ClassItem} {items : List ClassItem}
    (valid : ItemsValid .closed (item :: items))
    (positive : negated = false → (itemBytes (item :: items)).head? ≠ some 0x5E)
    (more : List UInt8) (n : Int)
    : ∃ fault,
        matchChar false nocase
          (.start ((GlobToken.cls negated (item :: items) .closed).bytes ++ more)) ⟨[], n⟩
        = .error fault := by
  obtain ⟨after, afterEq⟩ : ∃ after, after = itemBytes items ++ 0x5D :: more := ⟨_, rfl⟩
  have someAfter : after ≠ [] := by simp [afterEq]
  have single : ∀ p, item = .single p → p ≠ 0x5C ∧ p ≠ 0x5D := by
    rintro p rfl
    exact ⟨valid.1, valid.2.1⟩
  have range : ∀ p q, item = .range p q → p ≠ 0x5C ∧ p ≠ 0x5D := by
    rintro p q rfl
    exact ⟨valid.1, valid.2.1⟩
  obtain ⟨fault, blind⟩ := classLoop_blind nocase single range someAfter n false
  have split : (GlobToken.cls negated (item :: items) .closed).bytes ++ more
      = 0x5B :: ((if negated then [0x5E] else []) ++ (item.bytes ++ after)) := by
    simp [GlobToken.bytes, Closing.bytes, itemBytes, afterEq]
  refine ⟨fault, ?_⟩
  rw [split, matchChar, peek_start_cons, ok_andThen, if_pos rfl, advance_one, ok_andThen]
  cases negated with
  | true =>
      rw [if_pos rfl, List.singleton_append, matchClass, peek_start_cons, ok_andThen, if_pos rfl,
        advance_one, ok_andThen, blind, error_andThen]
  | false =>
      obtain ⟨byte, rest, head⟩ : ∃ byte rest, item.bytes = byte :: rest := by
        cases item <;> exact ⟨_, _, rfl⟩
      have plain : byte ≠ 0x5E := by
        rintro rfl
        refine positive rfl ?_
        simp [itemBytes, head]
      have peeked : (Scan.start (item.bytes ++ after)).peek = .ok byte := by
        rw [head]
        rfl
      rw [if_neg Bool.false_ne_true, List.nil_append, matchClass, peeked, ok_andThen, if_neg plain,
        pure_bind, blind, error_andThen]

theorem matchChar_empty (negated : Bool) (more : List UInt8) (string : Scan)
    : matchChar false nocase (.start ((GlobToken.cls negated [] .closed).bytes ++ more)) string
      = .ok (negated, .start more) := by
  have loop : classLoop false nocase string (Scan.start (0x5D :: more)).bytes
      (Scan.start (0x5D :: more)).len false = .ok (.start more, false) := by
    rw [Scan.start, List.cons_append, classLoop.eq_def]
    dsimp only
    rw [if_neg (by decide), if_pos rfl]
    exact congrArg (· >>= fun next => pure (next, false)) (advance_one false 0x5D more)
  have open' (rest : List UInt8)
      : matchChar false nocase (.start (0x5B :: rest)) string
        = matchClass false nocase (.start rest) string := by
    rw [matchChar, peek_start_cons, ok_andThen, if_pos rfl, advance_one, ok_andThen]
  cases negated with
  | true =>
      have bytes : (GlobToken.cls true [] .closed).bytes ++ more = 0x5B :: 0x5E :: 0x5D :: more :=
        rfl
      rw [bytes, open', matchClass, peek_start_cons, ok_andThen, if_pos rfl, advance_one,
        ok_andThen, loop]
      rfl
  | false =>
      have bytes : (GlobToken.cls false [] .closed).bytes ++ more = 0x5B :: 0x5D :: more := rfl
      rw [bytes, open', matchClass, peek_start_cons, ok_andThen, if_neg (by decide), pure_bind,
        loop]
      rfl

theorem matchLoop_negative_round {first : UInt8} (plain : first ≠ 0x2A) (rest : List UInt8)
    {n : Int}
    (negative : n < 0)
    : matchLoop false nocase (rounds + 1) (.start (first :: rest)) ⟨[], n⟩
      = (do
          let (matched, pattern) ← (
            if first = 0x3F then pure (true, Scan.start rest)
            else matchChar false nocase (.start (first :: rest)) ⟨[], n⟩)
          if matched then matchLoop false nocase rounds pattern ⟨[], n - 1⟩ else pure false) := by
  have some : ¬ (Scan.start (first :: rest)).len = 0 := by
    simp only [start_len, List.length_cons]
    omega
  have zero : ¬ (first = 0x3F ∧ n = 0) := by omega
  have next : ¬ (n - 1 = 0) := by omega
  have step : (⟨[], n⟩ : Scan).advance false 1 = .ok ⟨[], n - 1⟩ := rfl
  rw [matchLoop, if_neg some, peek_start_cons, ok_andThen, if_neg plain, if_neg zero, advance_one,
    step]
  simp only [ok_andThen, if_neg next]

variable (nocase rounds) in
theorem matchLoop_negative_star (valid : PatternValid tokens) {n : Int} (negative : n < 0)
    : matchLoop false nocase (rounds + 1) (.start (globBytes (.star :: tokens))) ⟨[], n⟩
      ≠ .ok false := by
  induction tokens with
  | nil => exact nofun
  | cons second tokens ih =>
      by_cases again : second = .star
      · subst again
        have same : globBytes (.star :: .star :: tokens) = 0x2A :: 0x2A :: globBytes tokens := rfl
        rw [same, matchLoop_star_star]
        exact ih valid.2
      · obtain ⟨first, rest, head, plain⟩ := token_head again valid.1
        have parts : globBytes (.star :: second :: tokens)
            = 0x2A :: (second.bytes ++ globBytes tokens) := rfl
        rw [parts, head, List.cons_append, matchLoop_star _ plain]
        exact starLoop_negative negative

variable (nocase) in
theorem matchLoop_negative (valid : PatternValid tokens) (whole : ∀ token ∈ tokens, token.Complete)
    {n : Int} (negative : n < 0) (enough : tokens.length < rounds)
    : matchLoop false nocase rounds (.start (globBytes tokens)) ⟨[], n⟩ = .ok false
      ↔ quiet tokens = true := by
  induction tokens generalizing n rounds with
  | nil =>
      obtain ⟨less, rfl⟩ : ∃ less, rounds = less + 1 := Nat.exists_eq_succ_of_ne_zero (by omega)
      have pattern : (Scan.start (globBytes [])).len = 0 := rfl
      rw [matchLoop, if_pos pattern]
      simp [quiet]
      omega
  | cons token tokens ih =>
      obtain ⟨less, rfl⟩ : ∃ less, rounds = less + 1 := Nat.exists_eq_succ_of_ne_zero (by omega)
      have others := ih valid.2 (fun other member => whole other (by simp [member]))
        (show n - 1 < 0 by omega) (Nat.lt_of_succ_lt_succ enough)
      have bytes : globBytes (token :: tokens) = token.bytes ++ globBytes tokens := rfl
      cases token with
      | star =>
          have fails := matchLoop_negative_star nocase less valid.2 negative
          simp [quiet, fails]
      | any =>
          rw [bytes, show GlobToken.any.bytes = [0x3F] from rfl, List.singleton_append,
            matchLoop_negative_round (by decide) _ negative, if_pos rfl]
          exact others
      | plain p =>
          obtain ⟨notStar, notAny, notClass, _⟩ := valid.1
          obtain ⟨fault, blind⟩ := matchChar_blind nocase notClass (globBytes tokens) n
          rw [bytes, GlobToken.bytes, List.singleton_append,
            matchLoop_negative_round notStar _ negative, if_neg notAny, blind]
          simp [quiet]
      | escaped p =>
          obtain ⟨fault, blind⟩ :=
            matchChar_blind nocase (by decide : (0x5C : UInt8) ≠ 0x5B) (p :: globBytes tokens) n
          rw [bytes, GlobToken.bytes, List.cons_append, List.singleton_append,
            matchLoop_negative_round (by decide) _ negative, if_neg (by decide), blind]
          simp [quiet]
      | cls negated items closing =>
          obtain ⟨itemsValid, positive, _⟩ := valid.1
          have complete : GlobToken.Complete (.cls negated items closing) :=
            whole _ List.mem_cons_self
          obtain rfl : closing = .closed := complete
          obtain ⟨rest, head⟩ : ∃ rest,
              (GlobToken.cls negated items .closed).bytes ++ globBytes tokens = 0x5B :: rest :=
            ⟨_, rfl⟩
          rw [bytes, head, matchLoop_negative_round (by decide) _ negative, if_neg (by decide),
            ← head]
          cases items with
          | nil =>
              rw [matchChar_empty, ok_andThen]
              cases negated with
              | true => exact others
              | false => simp [quiet]
          | cons item items =>
              obtain ⟨fault, blind⟩ :=
                matchClass_blind nocase itemsValid positive (globBytes tokens) n
              rw [blind]
              cases negated <;> simp [quiet]

end Empty

-- Outcomes

/-- The string is empty and the pattern starts with a token that is compared with its terminator. -/
def MeetsTerminator (token : GlobToken) (rest tokens : List GlobToken) (s : List UInt8) : Prop :=
  s = [] ∧ tokens = token :: rest ∧ token ≠ .star ∧ token ≠ .any

/-- The matcher comes to a class that is cut off, with a character left for it. -/
def ReachesCut (nocase : Bool) (tokens : List GlobToken) (s : List UInt8) : Prop :=
  ∃ front cut, tokens = front ++ [cut] ∧ cut.isCut = true ∧ Reaches nocase front s

section Outcomes

variable {watch nocase : Bool} {tokens rest : List GlobToken} {token : GlobToken} {s : List UInt8}

theorem stringmatchlen_run (valid : PatternValid tokens)
    (away : ∀ token rest, ¬ MeetsTerminator token rest tokens s)
    : stringmatchlen watch (globBytes tokens) s nocase
      = tokenRun nocase (cutFault watch) tokens s := by
  by_cases empty : s = []
  · subst empty
    cases tokens with
    | nil => rfl
    | cons token tokens =>
        by_cases isStar : token = .star
        · subst isStar
          exact matchLoop_nil_star valid.2
        · by_cases isAny : token = .any
          · subst isAny
            exact matchLoop_nil_any (globBytes tokens)
          · exact absurd ⟨rfl, rfl, isStar, isAny⟩ (away token tokens)
  · exact matchLoop_ok valid empty le_rfl

variable (watch nocase) in
theorem stringmatchlen_terminator (valid : PatternValid tokens)
    (meets : MeetsTerminator token rest tokens s)
    : stringmatchlen watch (globBytes tokens) s nocase
      = if token.isCut then .error (cutFault watch)
        else if token.takes nocase 0 then
          if watch then .error .assertion
          else matchLoop watch nocase ((globBytes tokens).length + 1)
            (.start (globBytes rest)) pastTerminator
        else .ok false := by
  obtain ⟨rfl, rfl, notStar, notAny⟩ := meets
  have ends : (globBytes rest = []) = (rest = []) := propext globBytes_eq_nil
  exact matchLoop_nil_one notStar notAny (ends ▸ valid.1)

theorem uncut_of_complete (complete : token.Complete) : token.isCut = false := by
  cases token with
  | cls negated items closing =>
      obtain rfl : closing = .closed := complete
      rfl
  | star => rfl
  | any => rfl
  | plain p => rfl
  | escaped p => rfl

theorem decides_iff_fails {run : Except Fault Bool} {property : Prop} (foreign : ¬ property)
    : Decides run property ↔ run = .ok false := by
  constructor
  · rintro ⟨result, ran, meaning⟩
    rw [ran, Bool.eq_false_iff.mpr fun yes => foreign (meaning.mp yes)]
  · rintro rfl
    exact .no foreign

theorem tokenRun_completes {fault : Fault} (valid : PatternValid tokens) (s : List UInt8)
    : (∃ result, tokenRun nocase fault tokens s = .ok result) ↔ ¬ ReachesCut nocase tokens s := by
  rcases valid.split_cut with whole | ⟨front, cut, rfl, isCut, whole⟩
  · obtain ⟨result, ran, _⟩ := tokenRun_decides nocase fault whole s
    refine iff_of_true ⟨result, ran⟩ ?_
    rintro ⟨front, cut, rfl, isCut, _⟩
    rw [whole cut (by simp)] at isCut
    cases isCut
  · have outcome := tokenRun_faults nocase fault isCut whole s
    by_cases reached : Reaches nocase front s
    · rw [outcome.faults reached]
      exact iff_of_false nofun fun not => not ⟨front, cut, rfl, isCut, reached⟩
    · rw [outcome.fails reached]
      refine iff_of_true ⟨false, rfl⟩ ?_
      rintro ⟨other, last, parts, _, found⟩
      obtain ⟨rfl, _⟩ := List.append_inj' parts rfl
      exact reached found

theorem tokens_le_bytes (tokens : List GlobToken) : tokens.length ≤ (globBytes tokens).length := by
  induction tokens with
  | nil => exact le_rfl
  | cons token tokens ih =>
      have positive := token_length_pos token
      have bytes : globBytes (token :: tokens) = token.bytes ++ globBytes tokens := rfl
      rw [bytes, List.length_append, List.length_cons]
      omega

/-- A character or class at the start of the pattern takes the terminator of an empty string, and
what follows it is not passed in silence.
-/
def TakesTerminator (nocase : Bool) (tokens : List GlobToken) : Prop :=
  ∃ token rest,
    tokens = token :: rest ∧ token ≠ .any ∧ token.takes nocase 0 = true ∧ quiet rest = false

/-- The pattern makes the matcher leave its bounds on the string. -/
def Overruns (nocase : Bool) (pattern s : List UInt8) : Prop :=
  ∃ tokens,
    PatternValid tokens ∧ globBytes tokens = pattern
    ∧ (ReachesCut nocase tokens s
      ∨ ∃ token rest,
          MeetsTerminator token rest tokens s ∧ (token.isCut = true ∨ token.takes nocase 0 = true))

theorem stringmatchlen_completes (nocase : Bool) (valid : PatternValid tokens) (s : List UInt8)
    : (∃ result, stringmatchlen true (globBytes tokens) s nocase = .ok result)
      ↔ ¬ (ReachesCut nocase tokens s
        ∨ ∃ token rest,
            MeetsTerminator token rest tokens s
              ∧ (token.isCut = true ∨ token.takes nocase 0 = true)) := by
  by_cases meets : ∃ token rest, MeetsTerminator token rest tokens s
  · obtain ⟨token, rest, meets⟩ := meets
    have single : (token.isCut = true ∨ token.takes nocase 0 = true)
        ↔ ∃ token rest,
            MeetsTerminator token rest tokens s
              ∧ (token.isCut = true ∨ token.takes nocase 0 = true) := by
      constructor
      · exact fun takes => ⟨token, rest, meets, takes⟩
      · rintro ⟨other, others, ⟨_, split, _⟩, takes⟩
        obtain ⟨rfl, rfl⟩ := List.cons.inj (meets.2.1.symm.trans split)
        exact takes
    have unreached : ¬ ReachesCut nocase tokens s := by
      rintro ⟨front, cut, _, _, reached⟩
      rw [meets.1] at reached
      exact not_reaches_nil reached
    rw [stringmatchlen_terminator true nocase valid meets, ← single, or_iff_right unreached]
    cases token.isCut with
    | true => exact iff_of_false nofun fun not => not (.inl rfl)
    | false =>
        cases token.takes nocase 0 with
        | true => exact iff_of_false nofun fun not => not (.inr rfl)
        | false => exact iff_of_true ⟨false, rfl⟩ (by simp)
  · have none : ¬ ∃ token rest,
        MeetsTerminator token rest tokens s
          ∧ (token.isCut = true ∨ token.takes nocase 0 = true) := by
      rintro ⟨token, rest, meets', _⟩
      exact meets ⟨token, rest, meets'⟩
    rw [stringmatchlen_run valid fun token rest meets' => meets ⟨token, rest, meets'⟩,
      or_iff_left none]
    exact tokenRun_completes valid s

end Outcomes

end Redis
