import Redis.Util.GlobGrammar

/-! `stringmatchlen` on every pattern and string: what it answers, and where it leaves its bounds.
-/

namespace Redis

open Redis.Library

section Pointers

variable {watch nocase : Bool} {c : UInt8} {more : List UInt8}

@[simp] theorem peek_start_cons (c : UInt8) (more : List UInt8) : (Scan.start (c :: more)).peek
    = .ok c :=
  rfl

@[simp] theorem peek_start_nil : (Scan.start []).peek = .ok 0 := rfl

@[simp] theorem start_len (text : List UInt8) : (Scan.start text).len = text.length := rfl

theorem advance_start (watch : Bool) (front more : List UInt8)
    : (Scan.start (front ++ more)).advance watch front.length = .ok (.start more) := by
  have within : ¬ ((front.length : Int) + more.length < front.length) := by omega
  simp [Scan.advance, Scan.start, within]

theorem advance_one (watch : Bool) (c : UInt8) (more : List UInt8)
    : (Scan.start (c :: more)).advance watch 1 = .ok (.start more) :=
  advance_start watch [c] more

/-- What the backslash of a cut class does: with `watch` the length gets negative, and without it
the terminator is passed.
-/
def cutFault (watch : Bool) : Fault := if watch then .assertion else .outOfBounds

-- Classes

variable {string : Scan} {items : List ClassItem} {closing : Closing}

variable (watch nocase) in
theorem classLoop_single (peeked : string.peek = .ok c) {p : UInt8} (notEscape : p ≠ 0x5C)
    (notClosing : p ≠ 0x5D) {after : List UInt8}
    (noRange : after.head? = some 0x2D → after.length = 1) (matched : Bool)
    : classLoop watch nocase string (Scan.start (p :: after)).bytes
      (Scan.start (p :: after)).len matched
      = classLoop watch nocase string (Scan.start after).bytes (Scan.start after).len
          (matched || sameChar nocase p c) := by
  cases after with
  | nil =>
      rw [Scan.start, List.cons_append, List.nil_append, classLoop.eq_def]
      simp [notEscape, notClosing, peeked, Scan.advance, Scan.start]
  | cons second rest =>
      have short : ¬ (second = 0x2D ∧ ((p :: second :: rest).length : Int) ≥ 3) := by
        rintro ⟨rfl, long⟩
        have one := noRange rfl
        simp only [List.length_cons] at one long
        omega
      rw [Scan.start, List.cons_append, List.cons_append, classLoop.eq_def]
      dsimp only
      rw [if_neg notEscape, if_neg notClosing, if_neg (by simp only [List.length_cons]; omega),
        if_neg short, peeked, ok_andThen]
      have step := advance_one watch p (second :: rest)
      rw [Scan.start, List.cons_append, List.cons_append] at step
      rw [step, ok_andThen]
      rfl

variable (watch nocase) in
theorem classLoop_escaped (peeked : string.peek = .ok c) (p : UInt8) (after : List UInt8)
    (matched : Bool)
    : classLoop watch nocase string (Scan.start (0x5C :: p :: after)).bytes
          (Scan.start (0x5C :: p :: after)).len matched
      = classLoop watch nocase string (Scan.start after).bytes (Scan.start after).len
          (matched || decide (p = c)) := by
  have step := advance_start watch [0x5C, p] after
  rw [Scan.start] at step
  rw [Scan.start, List.cons_append, List.cons_append, classLoop.eq_def]
  dsimp only
  rw [if_pos rfl, peeked, ok_andThen]
  simp only [List.length_cons, List.length_nil, List.cons_append, List.nil_append] at step ⊢
  rw [step, ok_andThen]
  rfl

variable (watch nocase) in
theorem classLoop_range (peeked : string.peek = .ok c) {first : UInt8} (notEscape : first ≠ 0x5C)
    (notClosing : first ≠ 0x5D) (last : UInt8) (after : List UInt8) (matched : Bool)
    : classLoop watch nocase string (Scan.start (first :: 0x2D :: last :: after)).bytes
          (Scan.start (first :: 0x2D :: last :: after)).len matched
      = classLoop watch nocase string (Scan.start after).bytes (Scan.start after).len
          (matched || inRange nocase first last c) := by
  have step := advance_start watch [first, 0x2D, last] after
  rw [Scan.start] at step
  rw [Scan.start, List.cons_append, List.cons_append, List.cons_append, classLoop.eq_def]
  dsimp only
  rw [if_neg notEscape, if_neg notClosing, if_neg (by simp only [List.length_cons]; omega),
    if_pos ⟨rfl, by simp only [List.length_cons]; omega⟩, peeked, ok_andThen]
  simp only [List.length_cons, List.length_nil, List.cons_append, List.nil_append] at step ⊢
  rw [step, ok_andThen]
  rfl

variable (watch nocase) in
theorem classLoop_items (peeked : string.peek = .ok c)
    (valid : ItemsValid closing items) (atEnd : closing ≠ .closed → more = []) (matched : Bool)
    : classLoop watch nocase string (Scan.start (itemBytes items ++ (closing.bytes ++ more))).bytes
          (Scan.start (itemBytes items ++ (closing.bytes ++ more))).len matched
      = classLoop watch nocase string (Scan.start (closing.bytes ++ more)).bytes
          (Scan.start (closing.bytes ++ more)).len
          (matched || items.any (ClassItem.takes nocase c)) := by
  induction items generalizing matched with
  | nil => simp [itemBytes]
  | cons item items ih =>
      have bytes : itemBytes (item :: items) = item.bytes ++ itemBytes items := rfl
      rw [bytes, List.append_assoc]
      cases item with
      | single p =>
          obtain ⟨notEscape, notClosing, noRange, rest⟩ := valid
          have short : (itemBytes items ++ (closing.bytes ++ more)).head? = some 0x2D →
              (itemBytes items ++ (closing.bytes ++ more)).length = 1 := by
            intro dash
            cases closing with
            | closed =>
                have alone : (itemBytes items ++ [0x5D]).head? = some 0x2D := by
                  cases found : itemBytes items <;> simp_all [Closing.bytes]
                have unclosed := (noRange alone).2
                cases unclosed
            | unclosed =>
                obtain rfl := atEnd (by decide)
                rw [List.append_nil] at dash ⊢
                exact (noRange dash).1
            | cut =>
                obtain rfl := atEnd (by decide)
                rw [List.append_nil] at dash
                have unclosed := (noRange dash).2
                cases unclosed
          have step := classLoop_single watch nocase peeked notEscape notClosing short matched
          rw [ClassItem.bytes, List.singleton_append, step, ih rest, List.any_cons, Bool.or_assoc]
          rfl
      | escaped p =>
          have step := classLoop_escaped watch nocase peeked p
            (itemBytes items ++ (closing.bytes ++ more)) matched
          rw [ClassItem.bytes, List.cons_append, List.singleton_append, step, ih valid,
            List.any_cons, Bool.or_assoc]
          rfl
      | range first last =>
          obtain ⟨notEscape, notClosing, rest⟩ := valid
          have step := classLoop_range watch nocase peeked notEscape notClosing last
            (itemBytes items ++ (closing.bytes ++ more)) matched
          rw [ClassItem.bytes, List.cons_append, List.cons_append, List.singleton_append, step,
            ih rest, List.any_cons, Bool.or_assoc]
          rfl

theorem classLoop_end (peeked : string.peek = .ok c)
    (atEnd : closing ≠ .closed → more = []) (matched : Bool)
    : classLoop watch nocase string (Scan.start (closing.bytes ++ more)).bytes
          (Scan.start (closing.bytes ++ more)).len matched
      = if closing = .cut then .error (cutFault watch) else .ok (.start more, matched) := by
  cases closing with
  | closed =>
      have step := advance_one watch 0x5D more
      rw [Scan.start, List.cons_append] at step
      rw [Closing.bytes, List.singleton_append, Scan.start, List.cons_append, classLoop.eq_def]
      dsimp only
      rw [if_neg (by decide), if_pos rfl, step, ok_andThen, if_neg (by decide)]
      rfl
  | unclosed =>
      obtain rfl := atEnd (by decide)
      rfl
  | cut =>
      obtain rfl := atEnd (by decide)
      cases watch with
      | true => simp [Closing.bytes, Scan.start, classLoop, peeked, Scan.advance, cutFault]
      | false => simp [Closing.bytes, Scan.start, classLoop, peeked, Scan.advance, cutFault]

-- One character

variable {token : GlobToken}

theorem matchChar_plain (peeked : string.peek = .ok c) {p : UInt8} (notClass : p ≠ 0x5B)
    (escapes : p = 0x5C → more = [])
    : matchChar watch nocase (.start (p :: more)) string
      = .ok (sameChar nocase p c, .start more) := by
  have alone : ¬ (p = 0x5C ∧ (Scan.start (p :: more)).len ≥ 2) := by
    rintro ⟨escape, long⟩
    rw [escapes escape] at long
    simp at long
  rw [matchChar, peek_start_cons, ok_andThen, if_neg notClass, if_neg alone, pure_bind,
    peek_start_cons, ok_andThen, peeked, ok_andThen, advance_one]
  rfl

theorem matchChar_escaped (peeked : string.peek = .ok c) (p : UInt8)
    : matchChar watch nocase (.start (0x5C :: p :: more)) string
      = .ok (sameChar nocase p c, .start more) := by
  have long : (0x5C : UInt8) = 0x5C ∧ (Scan.start (0x5C :: p :: more)).len ≥ 2 := by
    refine ⟨rfl, ?_⟩
    simp only [start_len, List.length_cons]
    omega
  rw [matchChar, peek_start_cons, ok_andThen, if_neg (by decide), if_pos long, advance_one,
    ok_andThen, peek_start_cons, ok_andThen, peeked, ok_andThen, advance_one]
  rfl

theorem matchChar_class (peeked : string.peek = .ok c) {negated : Bool}
    (valid : ItemsValid closing items)
    (positive : negated = false → (itemBytes items).head? ≠ some 0x5E)
    (atEnd : closing ≠ .closed → more = [])
    : matchChar watch nocase (.start ((GlobToken.cls negated items closing).bytes ++ more)) string
      = if closing = .cut then .error (cutFault watch)
        else .ok ((GlobToken.cls negated items closing).takes nocase c, .start more) := by
  obtain ⟨after, afterEq⟩ : ∃ after, after = itemBytes items ++ (closing.bytes ++ more) := ⟨_, rfl⟩
  have loop := (classLoop_items watch nocase peeked valid atEnd false).trans
    (classLoop_end peeked atEnd _)
  rw [← afterEq, Bool.false_or] at loop
  have run : matchClass watch nocase (.start ((if negated then [0x5E] else []) ++ after)) string
      = if closing = .cut then .error (cutFault watch)
        else .ok ((GlobToken.cls negated items closing).takes nocase c, .start more) := by
    cases negated with
    | true =>
        rw [if_pos rfl, List.singleton_append, matchClass, peek_start_cons, ok_andThen, if_pos rfl,
          advance_one, ok_andThen, loop]
        split
        · rfl
        · rfl
    | false =>
        have first : ∃ byte, (Scan.start after).peek = .ok byte ∧ byte ≠ 0x5E := by
          subst afterEq
          cases found : itemBytes items with
          | nil =>
              cases closing with
              | closed => exact ⟨0x5D, rfl, by decide⟩
              | unclosed =>
                  obtain rfl := atEnd (by decide)
                  exact ⟨0, rfl, by decide⟩
              | cut => exact ⟨0x5C, rfl, by decide⟩
          | cons byte rest =>
              refine ⟨byte, rfl, ?_⟩
              rintro rfl
              exact positive rfl (by rw [found]; rfl)
        obtain ⟨byte, peekedFirst, plain⟩ := first
        rw [if_neg Bool.false_ne_true, List.nil_append, matchClass, peekedFirst, ok_andThen,
          if_neg plain, pure_bind, loop]
        split
        · rfl
        · rw [ok_andThen, decide_eq_false plain]
          rfl
  have split : (GlobToken.cls negated items closing).bytes ++ more
      = 0x5B :: ((if negated then [0x5E] else []) ++ after) := by
    rw [afterEq]
    simp [GlobToken.bytes]
  rw [split, matchChar, peek_start_cons, ok_andThen, if_pos rfl, advance_one, ok_andThen, run]

theorem matchChar_token (peeked : string.peek = .ok c) (notStar : token ≠ .star)
    (notAny : token ≠ .any) (valid : token.Valid (more = []))
    : matchChar watch nocase (.start (token.bytes ++ more)) string
      = if token.isCut then .error (cutFault watch)
        else .ok (token.takes nocase c, .start more) := by
  cases token with
  | star => exact absurd rfl notStar
  | any => exact absurd rfl notAny
  | plain p =>
      obtain ⟨_, _, notClass, escapes⟩ := valid
      exact matchChar_plain peeked notClass escapes
  | escaped p => exact matchChar_escaped peeked p
  | cls negated items closing =>
      obtain ⟨itemsValid, positive, atEnd⟩ := valid
      rw [matchChar_class peeked itemsValid positive atEnd]
      cases closing <;> rfl

-- The loop

variable {tokens : List GlobToken} {s : List UInt8} {rounds : Nat}

theorem token_head (notStar : token ≠ .star) {atEnd : Prop} (valid : token.Valid atEnd)
    : ∃ first rest, token.bytes = first :: rest ∧ first ≠ 0x2A := by
  cases token with
  | star => exact absurd rfl notStar
  | any => exact ⟨0x3F, [], rfl, by decide⟩
  | plain p => exact ⟨p, [], rfl, valid.1⟩
  | escaped p => exact ⟨0x5C, [p], rfl, by decide⟩
  | cls negated items closing => exact ⟨0x5B, _, rfl, by decide⟩

theorem tokenRun_nil (notStar : token ≠ .star) (fault : Fault)
    : tokenRun nocase fault (token :: tokens) [] = .ok false := by
  cases token <;> first | rfl | exact absurd rfl notStar

theorem dropStars_ok (valid : PatternValid tokens) (fault : Fault)
    : (do
        let pattern ← dropStars (Scan.start (globBytes tokens)).bytes
          (Scan.start (globBytes tokens)).len
        pure (decide (pattern.len = 0)))
      = tokenRun nocase fault tokens [] := by
  induction tokens with
  | nil => rfl
  | cons token tokens ih =>
      by_cases isStar : token = .star
      · subst isStar
        have run : tokenRun nocase fault (.star :: tokens) []
            = tokenRun nocase fault tokens [] := by
          cases tokens with
          | nil => rfl
          | cons second tokens =>
              cases second <;> rfl
        have length : ((0x2A :: globBytes tokens).length : Int) - 1
            = (globBytes tokens).length := by
          simp
        rw [run, ← ih valid.2]
        show (do
            let pattern ← dropStars (0x2A :: (globBytes tokens ++ [0]))
              ((0x2A :: globBytes tokens).length)
            pure (decide (pattern.len = 0))) = _
        rw [dropStars, if_pos rfl, length]
        rfl
      · obtain ⟨first, rest, bytes, plain⟩ := token_head isStar valid.1
        have whole : globBytes (token :: tokens) = first :: (rest ++ globBytes tokens) := by
          simp [globBytes, bytes]
        rw [tokenRun_nil isStar, whole, Scan.start, List.cons_append, dropStars, if_neg plain,
          ok_andThen]
        simp only [List.length_cons]
        rw [decide_eq_false (by omega)]
        rfl

theorem starLoop_ok {matchRest : Scan → Except Fault Bool}
    {run : List UInt8 → Except Fault Bool}
    (same : ∀ c rest, (c :: rest).length ≤ s.length
      → matchRest (.start (c :: rest)) = run (c :: rest))
    (enough : s.length < rounds)
    : starLoop watch matchRest rounds (.start s) = anySuffix run s := by
  induction rounds generalizing s with
  | zero => exact absurd enough (Nat.not_lt_zero _)
  | succ rounds ih =>
      cases s with
      | nil => rfl
      | cons c rest =>
          have others := ih (s := rest)
            (fun c' rest' shorter => same c' rest' (Nat.le_succ_of_le shorter))
            (Nat.lt_of_succ_lt_succ enough)
          have nonempty : ¬ (Scan.start (c :: rest)).len = 0 := by
            simp only [start_len, List.length_cons]
            omega
          rw [starLoop, if_neg nonempty, same c rest le_rfl, anySuffix, advance_one, ok_andThen,
            others]

theorem matchLoop_star_star (string : Scan) (rest : List UInt8)
    : matchLoop watch nocase (rounds + 1) (.start (0x2A :: 0x2A :: rest)) string
      = matchLoop watch nocase (rounds + 1) (.start (0x2A :: rest)) string := by
  have skipped : skipStars (Scan.start (0x2A :: 0x2A :: rest)).bytes
      (Scan.start (0x2A :: 0x2A :: rest)).len
      = skipStars (Scan.start (0x2A :: rest)).bytes (Scan.start (0x2A :: rest)).len := by
    have length : ((0x2A :: 0x2A :: rest).length : Int) - 1 = (0x2A :: rest).length := by simp
    show skipStars (0x2A :: 0x2A :: (rest ++ [0])) ((0x2A :: 0x2A :: rest).length) = _
    rw [skipStars, if_pos rfl, length]
    rfl
  have some (more : List UInt8) : ¬ (Scan.start (0x2A :: more)).len = 0 := by
    simp only [start_len, List.length_cons]
    omega
  rw [matchLoop, matchLoop, if_neg (some _), if_neg (some _), peek_start_cons, peek_start_cons,
    ok_andThen, ok_andThen, if_pos rfl, if_pos rfl, skipped]

theorem matchLoop_star (string : Scan) {first : UInt8} (plain : first ≠ 0x2A) (rest : List UInt8)
    : matchLoop watch nocase (rounds + 1) (.start (0x2A :: first :: rest)) string
      = starLoop watch (matchLoop watch nocase rounds (.start (first :: rest))) rounds string := by
  have skipped : skipStars (Scan.start (0x2A :: first :: rest)).bytes
      (Scan.start (0x2A :: first :: rest)).len
      = .ok (.start (0x2A :: first :: rest)) := by
    show skipStars (0x2A :: first :: (rest ++ [0])) _ = _
    rw [skipStars, if_neg plain]
    rfl
  have some : ¬ (Scan.start (0x2A :: first :: rest)).len = 0 := by
    simp only [start_len, List.length_cons]
    omega
  have more : ¬ (Scan.start (0x2A :: first :: rest)).len = 1 := by
    simp only [start_len, List.length_cons]
    omega
  rw [matchLoop, if_neg some, peek_start_cons, ok_andThen, if_pos rfl, skipped, ok_andThen,
    if_neg more, advance_one, ok_andThen]

theorem token_length_pos (token : GlobToken) : 0 < token.bytes.length := by
  cases token <;> simp [GlobToken.bytes]

theorem globBytes_eq_nil : globBytes tokens = [] ↔ tokens = [] := by
  cases tokens with
  | nil => simp [globBytes]
  | cons token tokens =>
      have positive := token_length_pos token
      simp [globBytes, List.ne_nil_of_length_pos positive]

theorem matchLoop_one (notStar : token ≠ .star) (valid : token.Valid (more = [])) (c : UInt8)
    (s : List UInt8)
    : matchLoop watch nocase (rounds + 1) (.start (token.bytes ++ more)) (.start (c :: s))
      = if token.isCut then .error (cutFault watch)
        else if token.takes nocase c then
          if s = [] then do
            let pattern ← dropStars (Scan.start more).bytes (Scan.start more).len
            pure (decide (pattern.len = 0))
          else matchLoop watch nocase rounds (.start more) (.start s)
        else .ok false := by
  obtain ⟨first, rest, bytes, plain⟩ := token_head notStar valid
  have peeked : (Scan.start (token.bytes ++ more)).peek = .ok first := by
    rw [bytes]
    rfl
  have positive := token_length_pos token
  have some : ¬ (Scan.start (token.bytes ++ more)).len = 0 := by
    simp only [start_len, List.length_append]
    omega
  have left : (Scan.start s).len = 0 ↔ s = [] := by simp
  have nonempty : ¬ (first = 0x3F ∧ (Scan.start (c :: s)).len = 0) := by
    rintro ⟨_, empty⟩
    simp only [start_len, List.length_cons] at empty
    omega
  rw [matchLoop, if_neg some, peeked, ok_andThen, if_neg plain, if_neg nonempty]
  by_cases isAny : token = .any
  · subst isAny
    obtain rfl : first = 0x3F := by
      cases bytes
      rfl
    have step : (Scan.start (GlobToken.any.bytes ++ more)).advance watch 1 = .ok (.start more) :=
      advance_one watch 0x3F more
    rw [if_pos rfl, step, ok_andThen, pure_bind]
    simp only [GlobToken.isCut, GlobToken.takes, if_true, Bool.false_eq_true, if_false, advance_one,
      ok_andThen, left]
  · have notAny : first ≠ 0x3F := by
      rintro rfl
      cases token with
      | plain p =>
          cases bytes
          exact valid.2.1 rfl
      | star => cases bytes
      | any => exact isAny rfl
      | escaped p => cases bytes
      | cls negated items closing => cases bytes
    rw [if_neg notAny, matchChar_token (peek_start_cons c s) notStar isAny valid]
    split
    · rfl
    · rw [ok_andThen]
      dsimp only
      split
      · rw [advance_one, ok_andThen]
        simp only [left]
      · rfl

/-- On a valid pattern the loop is the backtracking over its tokens. -/
theorem matchLoop_ok (valid : PatternValid tokens) (some : s ≠ [])
    (enough : (globBytes tokens).length + s.length + 2 ≤ rounds)
    : matchLoop watch nocase rounds (.start (globBytes tokens)) (.start s)
      = tokenRun nocase (cutFault watch) tokens s := by
  induction tokens generalizing s rounds with
  | nil =>
      obtain ⟨c, rest, rfl⟩ := List.exists_cons_of_ne_nil some
      obtain ⟨less, rfl⟩ : ∃ less, rounds = less + 1 := Nat.exists_eq_succ_of_ne_zero (by omega)
      have pattern : (Scan.start (globBytes [])).len = 0 := rfl
      rw [matchLoop, if_pos pattern, decide_eq_false]
      · rfl
      · simp only [start_len, List.length_cons]
        omega
  | cons token tokens ih =>
      obtain ⟨less, rfl⟩ : ∃ less, rounds = less + 1 := Nat.exists_eq_succ_of_ne_zero (by omega)
      have positive := token_length_pos token
      have bytes : globBytes (token :: tokens) = token.bytes ++ globBytes tokens := rfl
      rw [bytes, List.length_append] at enough
      rw [bytes]
      by_cases isStar : token = .star
      · subst isStar
        rw [show GlobToken.star.bytes = [0x2A] from rfl, List.singleton_append]
        cases tokens with
        | nil => rfl
        | cons second tokens =>
            by_cases again : second = .star
            · subst again
              have same : globBytes (.star :: tokens) = 0x2A :: globBytes tokens := rfl
              rw [same, matchLoop_star_star, ← same]
              exact ih valid.2 some (by omega)
            · obtain ⟨first, rest, head, plain⟩ := token_head again valid.2.1
              have whole : globBytes (second :: tokens) = first :: (rest ++ globBytes tokens) := by
                simp [globBytes, head]
              have run : tokenRun nocase (cutFault watch) (.star :: second :: tokens) s
                  = anySuffix (tokenRun nocase (cutFault watch) (second :: tokens)) s := by
                cases second <;> first | rfl | exact absurd rfl again
              rw [whole, matchLoop_star _ plain, run, ← whole]
              refine starLoop_ok (fun c rest shorter => ?_) (by omega)
              exact ih valid.2 (List.cons_ne_nil c rest) (by omega)
      · obtain ⟨c, rest, rfl⟩ := List.exists_cons_of_ne_nil some
        have tokenValid : token.Valid (globBytes tokens = []) := by
          rw [globBytes_eq_nil]
          exact valid.1
        have run : tokenRun nocase (cutFault watch) (token :: tokens) (c :: rest)
            = if token.isCut then .error (cutFault watch)
              else if token.takes nocase c then tokenRun nocase (cutFault watch) tokens rest
              else .ok false := by
          cases token <;> first
            | exact absurd rfl isStar
            | rfl
        rw [matchLoop_one isStar tokenValid, run]
        by_cases last : rest = []
        · subst last
          rw [if_pos rfl, dropStars_ok valid.2]
        · rw [if_neg last, ih valid.2 last (by simp only [List.length_cons] at enough; omega)]

end Pointers

end Redis
