import Redis.Util.GlobMatching

/-! The grammar of glob patterns, the strings that a pattern describes, and the backtracking of the
matcher on the parts of a pattern.
-/

namespace Redis

open Redis.Library

-- Patterns

/-- What stands in a class. -/
inductive ClassItem where
  | single (c : UInt8)
  | escaped (c : UInt8)
  | range (first last : UInt8)
deriving DecidableEq, Repr

/-- How a class ends: with a bracket, with the pattern, or with a backslash as the last character of
the pattern.
-/
inductive Closing where
  | closed
  | unclosed
  | cut
deriving DecidableEq, Repr

/-- A part of a pattern. -/
inductive GlobToken where
  | star
  | any
  | plain (c : UInt8)
  | escaped (c : UInt8)
  | cls (negated : Bool) (items : List ClassItem) (closing : Closing)
deriving DecidableEq, Repr

def ClassItem.bytes : ClassItem → List UInt8
  | .single c => [c]
  | .escaped c => [0x5C, c]
  | .range first last => [first, 0x2D, last]

def itemBytes (items : List ClassItem) : List UInt8 := items.flatMap ClassItem.bytes

def Closing.bytes : Closing → List UInt8
  | .closed => [0x5D]
  | .unclosed => []
  | .cut => [0x5C]

def GlobToken.bytes : GlobToken → List UInt8
  | .star => [0x2A]
  | .any => [0x3F]
  | .plain c => [c]
  | .escaped c => [0x5C, c]
  | .cls negated items closing =>
      0x5B :: (if negated then [0x5E] else []) ++ (itemBytes items ++ closing.bytes)

def globBytes (tokens : List GlobToken) : List UInt8 := tokens.flatMap GlobToken.bytes

/-- The items of a class are read as they are meant: a single character is not the start of a range,
which takes three characters.
-/
def ItemsValid (closing : Closing) : List ClassItem → Prop
  | [] => True
  | .single c :: rest =>
      c ≠ 0x5C ∧ c ≠ 0x5D
      ∧ ((itemBytes rest ++ closing.bytes).head? = some 0x2D →
          (itemBytes rest ++ closing.bytes).length = 1 ∧ closing = .unclosed)
      ∧ ItemsValid closing rest
  | .escaped _ :: rest => ItemsValid closing rest
  | .range first _ :: rest => first ≠ 0x5C ∧ first ≠ 0x5D ∧ ItemsValid closing rest

/-- A token is read as it is meant; some only at the end of the pattern. -/
def GlobToken.Valid (atEnd : Prop) : GlobToken → Prop
  | .plain c => c ≠ 0x2A ∧ c ≠ 0x3F ∧ c ≠ 0x5B ∧ (c = 0x5C → atEnd)
  | .cls negated items closing =>
      ItemsValid closing items
      ∧ (negated = false → (itemBytes items).head? ≠ some 0x5E)
      ∧ (closing ≠ .closed → atEnd)
  | _ => True

/-- A way to read a pattern. Every byte string is read in one way or another. -/
def PatternValid : List GlobToken → Prop
  | [] => True
  | token :: rest => token.Valid (rest = []) ∧ PatternValid rest

/-- Every class is closed and every backslash escapes a character. -/
def GlobToken.Complete : GlobToken → Prop
  | .plain c => c ≠ 0x5C
  | .cls _ _ closing => closing = .closed
  | _ => True

def WellFormedPattern (tokens : List GlobToken) : Prop :=
  PatternValid tokens ∧ ∀ token ∈ tokens, token.Complete

section Languages

variable (nocase : Bool)

def ClassItem.takes (c : UInt8) : ClassItem → Bool
  | .single p => sameChar nocase p c
  | .escaped p => p = c
  | .range first last => inRange nocase first last c

/-- A token other than a star takes one character. -/
def GlobToken.takes (c : UInt8) : GlobToken → Bool
  | .star => false
  | .any => true
  | .plain p => sameChar nocase p c
  | .escaped p => sameChar nocase p c
  | .cls negated items _ => items.any (ClassItem.takes nocase c) != negated

/-- The string is in the language of the pattern. -/
inductive Matches : List GlobToken → List UInt8 → Prop
  | nil : Matches [] []
  | star {tokens : List GlobToken} {rest : List UInt8} (skipped : List UInt8)
    (matched : Matches tokens rest) : Matches (.star :: tokens) (skipped ++ rest)
  | one {token : GlobToken} {tokens : List GlobToken} {c : UInt8} {rest : List UInt8}
    (taken : token.takes nocase c = true) (matched : Matches tokens rest)
    : Matches (token :: tokens) (c :: rest)

-- Backtracking

/-- The first suffix with characters left on which a matcher succeeds. -/
def anySuffix (matchRest : List UInt8 → Except Fault Bool) : List UInt8 → Except Fault Bool
  | [] => .ok false
  | c :: rest => do
      if ← matchRest (c :: rest) then pure true else anySuffix matchRest rest

def GlobToken.isCut : GlobToken → Bool
  | .cls _ _ .cut => true
  | _ => false

/-- The matcher on the tokens; a class that is cut off is a fault once there is a character for it.
-/
def tokenRun (fault : Fault) : List GlobToken → List UInt8 → Except Fault Bool
  | [], s => .ok s.isEmpty
  | [.star], _ => .ok true
  | .star :: .star :: tokens, s => tokenRun fault (.star :: tokens) s
  | .star :: token :: tokens, s => anySuffix (tokenRun fault (token :: tokens)) s
  | _ :: _, [] => .ok false
  | token :: tokens, c :: s =>
      if token.isCut then .error fault
      else if token.takes nocase c then tokenRun fault tokens s
      else .ok false

end Languages

section Matching

variable {nocase : Bool} {fault : Fault} {tokens : List GlobToken} {token : GlobToken}
  {s : List UInt8} {c : UInt8} {matchRest : List UInt8 → Except Fault Bool}

theorem matches_nil_iff : Matches nocase [] s ↔ s = [] := by
  constructor
  · intro matched
    cases matched
    rfl
  · rintro rfl
    exact .nil

theorem matches_star_iff
    : Matches nocase (.star :: tokens) s ↔ ∃ skipped rest, s = skipped ++ rest
      ∧ Matches nocase tokens rest := by
  constructor
  · intro matched
    cases matched with
    | star skipped matched => exact ⟨skipped, _, rfl, matched⟩
    | one taken matched => cases taken
  · rintro ⟨skipped, rest, rfl, matched⟩
    exact .star skipped matched

theorem matches_one_iff (single : token ≠ .star)
    : Matches nocase (token :: tokens) s
      ↔ ∃ c rest, s = c :: rest ∧ token.takes nocase c = true ∧ Matches nocase tokens rest := by
  constructor
  · intro matched
    cases matched with
    | star skipped matched => exact absurd rfl single
    | one taken matched => exact ⟨_, _, rfl, taken, matched⟩
  · rintro ⟨c, rest, rfl, taken, matched⟩
    exact .one taken matched

theorem matches_star_cons
    : Matches nocase (.star :: tokens) (c :: s)
      ↔ Matches nocase tokens (c :: s) ∨ Matches nocase (.star :: tokens) s := by
  rw [matches_star_iff, matches_star_iff]
  constructor
  · rintro ⟨skipped, rest, split, matched⟩
    cases skipped with
    | nil =>
        rw [List.nil_append] at split
        exact .inl (split ▸ matched)
    | cons first skipped =>
        rw [List.cons_append, List.cons.injEq] at split
        exact .inr ⟨skipped, rest, split.2, matched⟩
  · rintro (matched | ⟨skipped, rest, rfl, matched⟩)
    · exact ⟨[], c :: s, rfl, matched⟩
    · exact ⟨c :: skipped, rest, rfl, matched⟩

theorem matches_star_star
    : Matches nocase (.star :: .star :: tokens) s ↔ Matches nocase (.star :: tokens) s := by
  rw [matches_star_iff, matches_star_iff]
  constructor
  · rintro ⟨skipped, rest, rfl, matched⟩
    obtain ⟨more, last, rfl, found⟩ := matches_star_iff.mp matched
    exact ⟨skipped ++ more, last, by rw [List.append_assoc], found⟩
  · rintro ⟨skipped, rest, rfl, matched⟩
    exact ⟨skipped, rest, rfl, .star [] matched⟩

/-- A run decides a property. -/
def Decides (run : Except Fault Bool) (property : Prop) : Prop :=
  ∃ result, run = .ok result ∧ (result = true ↔ property)

theorem Decides.yes {property : Prop} (holds : property) : Decides (.ok true) property :=
  ⟨true, rfl, by simp [holds]⟩

theorem Decides.no {property : Prop} (fails : ¬ property) : Decides (.ok false) property :=
  ⟨false, rfl, by simp [fails]⟩

theorem Decides.congr {run : Except Fault Bool} {property other : Prop}
    (decides : Decides run property) (same : property ↔ other)
    : Decides run other := by
  obtain ⟨result, ran, meaning⟩ := decides
  exact ⟨result, ran, meaning.trans same⟩

theorem anySuffix_decides (single : token ≠ .star)
    (decides : ∀ s, Decides (matchRest s) (Matches nocase (token :: tokens) s)) (s : List UInt8)
    : Decides (anySuffix matchRest s) (Matches nocase (.star :: token :: tokens) s) := by
  induction s with
  | nil =>
      refine .no fun matched => ?_
      obtain ⟨skipped, rest, split, matched⟩ := matches_star_iff.mp matched
      obtain ⟨c, more, restEq, _⟩ := (matches_one_iff single).mp matched
      simp [restEq] at split
  | cons c rest ih =>
      obtain ⟨result, ran, meaning⟩ := decides (c :: rest)
      rw [anySuffix, ran, ok_andThen]
      cases result with
      | true => exact .yes (matches_star_cons.mpr (.inl (meaning.mp rfl)))
      | false =>
          refine ih.congr ?_
          rw [matches_star_cons]
          simp [← meaning]

variable (nocase fault) in
/-- Backtracking decides whether the string is described. -/
theorem tokenRun_decides (whole : ∀ token ∈ tokens, token.isCut = false) (s : List UInt8)
    : Decides (tokenRun nocase fault tokens s) (Matches nocase tokens s) := by
  induction tokens generalizing s with
  | nil =>
      refine ⟨s.isEmpty, rfl, ?_⟩
      rw [matches_nil_iff, List.isEmpty_iff]
  | cons token tokens ih =>
      have others := ih fun other member => whole other (by simp [member])
      by_cases isStar : token = .star
      · subst isStar
        cases tokens with
        | nil => exact .yes (matches_star_iff.mpr ⟨s, [], by simp, .nil⟩)
        | cons second tokens =>
            by_cases again : second = .star
            · subst again
              exact (others s).congr matches_star_star.symm
            · have run : tokenRun nocase fault (.star :: second :: tokens) s
                  = anySuffix (tokenRun nocase fault (second :: tokens)) s := by
                cases second <;> first | rfl | exact absurd rfl again
              rw [run]
              exact anySuffix_decides again others s
      · cases s with
        | nil =>
            have run : tokenRun nocase fault (token :: tokens) [] = .ok false := by
              cases token <;> first | rfl | exact absurd rfl isStar
            rw [run]
            refine .no fun matched => ?_
            obtain ⟨c, rest, split, _⟩ := (matches_one_iff isStar).mp matched
            cases split
        | cons c rest =>
            have run : tokenRun nocase fault (token :: tokens) (c :: rest)
                = if token.takes nocase c then tokenRun nocase fault tokens rest
                  else .ok false := by
              have uncut := whole token (by simp)
              cases token <;> first
                | exact absurd rfl isStar
                | simp [tokenRun, uncut]
            rw [run]
            split
            · rename_i taken
              refine (others rest).congr ?_
              rw [matches_one_iff isStar]
              simp [taken]
            · rename_i refused
              refine .no fun matched => ?_
              obtain ⟨first, more, split, taken, _⟩ := (matches_one_iff isStar).mp matched
              cases split
              exact refused taken

-- Classes that are cut off

/-- The tokens take a part of the string that leaves a character. -/
def Reaches (nocase : Bool) (tokens : List GlobToken) (s : List UInt8) : Prop :=
  ∃ skipped rest, s = skipped ++ rest ∧ rest ≠ [] ∧ Matches nocase tokens skipped

theorem not_reaches_nil : ¬ Reaches nocase tokens [] := by
  rintro ⟨skipped, rest, split, some, _⟩
  exact some (List.append_eq_nil_iff.mp split.symm).2

theorem reaches_nil_iff : Reaches nocase [] s ↔ s ≠ [] := by
  constructor
  · rintro ⟨skipped, rest, rfl, some, matched⟩
    simp [some]
  · exact fun some => ⟨[], s, rfl, some, .nil⟩

theorem reaches_star_cons
    : Reaches nocase (.star :: tokens) (c :: s)
      ↔ Reaches nocase tokens (c :: s) ∨ Reaches nocase (.star :: tokens) s := by
  constructor
  · rintro ⟨skipped, rest, split, some, matched⟩
    cases skipped with
    | nil =>
        obtain ⟨front, back, parts, matched⟩ := matches_star_iff.mp matched
        obtain ⟨rfl, rfl⟩ := List.append_eq_nil_iff.mp parts.symm
        exact .inl ⟨[], rest, split, some, matched⟩
    | cons first skipped =>
        rw [List.cons_append, List.cons.injEq] at split
        obtain ⟨rfl, rfl⟩ := split
        rcases matches_star_cons.mp matched with here | later
        · exact .inl ⟨c :: skipped, rest, rfl, some, here⟩
        · exact .inr ⟨skipped, rest, rfl, some, later⟩
  · rintro (⟨skipped, rest, split, some, matched⟩ | ⟨skipped, rest, rfl, some, matched⟩)
    · exact ⟨skipped, rest, split, some, .star [] matched⟩
    · exact ⟨c :: skipped, rest, rfl, some, matches_star_cons.mpr (.inr matched)⟩

theorem reaches_star_star
    : Reaches nocase (.star :: .star :: tokens) s ↔ Reaches nocase (.star :: tokens) s := by
  unfold Reaches
  simp only [matches_star_star]

theorem reaches_one_iff (single : token ≠ .star)
    : Reaches nocase (token :: tokens) (c :: s)
      ↔ token.takes nocase c = true ∧ Reaches nocase tokens s := by
  constructor
  · rintro ⟨skipped, rest, split, some, matched⟩
    obtain ⟨first, more, rfl, taken, inner⟩ := (matches_one_iff single).mp matched
    rw [List.cons_append, List.cons.injEq] at split
    obtain ⟨rfl, rfl⟩ := split
    exact ⟨taken, more, rest, rfl, some, inner⟩
  · rintro ⟨taken, skipped, rest, rfl, some, matched⟩
    exact ⟨c :: skipped, rest, rfl, some, .one taken matched⟩

/-- A run ends in a fault exactly where a property holds, and does not succeed otherwise. -/
structure FaultsWhen (fault : Fault) (run : Except Fault Bool) (property : Prop) : Prop where
  faults : property → run = .error fault
  fails : ¬ property → run = .ok false

theorem FaultsWhen.congr {run : Except Fault Bool} {property other : Prop}
    (outcome : FaultsWhen fault run property) (same : property ↔ other)
    : FaultsWhen fault run other :=
  ⟨fun holds => outcome.faults (same.mpr holds), fun fails => outcome.fails fun holds =>
    fails (same.mp holds)⟩

theorem anySuffix_faults
    (outcome : ∀ s, FaultsWhen fault (matchRest s) (Reaches nocase tokens s)) (s : List UInt8)
    : FaultsWhen fault (anySuffix matchRest s) (Reaches nocase (.star :: tokens) s) := by
  induction s with
  | nil => exact ⟨fun reached => absurd reached not_reaches_nil, fun _ => rfl⟩
  | cons c rest ih =>
      rw [anySuffix]
      by_cases here : Reaches nocase tokens (c :: rest)
      · rw [(outcome (c :: rest)).faults here, error_andThen]
        exact ⟨fun _ => rfl, fun not => absurd (reaches_star_cons.mpr (.inl here)) not⟩
      · rw [(outcome (c :: rest)).fails here, ok_andThen]
        refine ih.congr ?_
        rw [reaches_star_cons]
        simp [here]

variable (nocase fault) in
theorem tokenRun_faults {cut : GlobToken} (isCut : cut.isCut = true)
    (whole : ∀ token ∈ tokens, token.isCut = false) (s : List UInt8)
    : FaultsWhen fault (tokenRun nocase fault (tokens ++ [cut]) s) (Reaches nocase tokens s) := by
  have cutSingle : cut ≠ .star := by
    rintro rfl
    cases isCut
  induction tokens generalizing s with
  | nil =>
      refine ⟨fun reached => ?_, fun not => ?_⟩
      · obtain ⟨c, rest, rfl⟩ := List.exists_cons_of_ne_nil (reaches_nil_iff.mp reached)
        cases cut <;> first
          | cases isCut
          | simp [tokenRun, isCut]
      · obtain rfl : s = [] := by simpa [reaches_nil_iff] using not
        cases cut <;> first
          | cases isCut
          | rfl
  | cons token tokens ih =>
      have others := ih fun other member => whole other (by simp [member])
      by_cases isStar : token = .star
      · subst isStar
        cases tokens with
        | nil =>
            have run : tokenRun nocase fault ([.star] ++ [cut]) s
                = anySuffix (tokenRun nocase fault [cut]) s := by
              cases cut <;> first | cases isCut | rfl
            rw [run]
            exact anySuffix_faults others s
        | cons second tokens =>
            by_cases again : second = .star
            · subst again
              exact (others s).congr reaches_star_star.symm
            · have run : tokenRun nocase fault (.star :: second :: tokens ++ [cut]) s
                  = anySuffix (tokenRun nocase fault (second :: tokens ++ [cut])) s := by
                cases second <;> first | rfl | exact absurd rfl again
              rw [run]
              exact anySuffix_faults others s
      · cases s with
        | nil =>
            have run : tokenRun nocase fault (token :: tokens ++ [cut]) [] = .ok false := by
              cases token <;> first | rfl | exact absurd rfl isStar
            rw [run]
            exact ⟨fun reached => absurd reached not_reaches_nil, fun _ => rfl⟩
        | cons c rest =>
            have run : tokenRun nocase fault (token :: tokens ++ [cut]) (c :: rest)
                = if token.takes nocase c then tokenRun nocase fault (tokens ++ [cut]) rest
                  else .ok false := by
              have uncut := whole token (by simp)
              cases token <;> first
                | exact absurd rfl isStar
                | simp [tokenRun, uncut]
            have split := @reaches_one_iff nocase tokens token rest c isStar
            rw [run]
            by_cases taken : token.takes nocase c = true
            · rw [if_pos taken]
              exact (others rest).congr (by rw [split]; simp [taken])
            · rw [if_neg taken]
              exact ⟨fun reached => absurd (split.mp reached).1 taken, fun _ => rfl⟩

end Matching

end Redis
