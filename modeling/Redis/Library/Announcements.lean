import Mathlib.Data.List.Basic
import Mathlib.Tactic

/-! Feeds of messages in which a definition is sent once and referred to by a key later on.
A reader that starts with the first message of its feed, or with any table of definitions,
has to find every key that is used among the definitions it was sent.
-/

namespace Redis.Library

/-- What a message does to the definitions that a reader holds. -/
inductive Role (κ : Type) where
  | announces (key : κ)
  | uses (key : κ)
  | forgets
  | silent
deriving DecidableEq, Repr

variable {α κ : Type} {role : α → Role κ} {key : κ} {feed : List α} {message : α}

-- Known keys

/-- The feed announces the key behind the last message that forgets. -/
def Known (role : α → Role κ) (key : κ) (feed : List α) : Prop :=
  ∃ before message after,
    feed = before ++ message :: after
    ∧ role message = .announces key
    ∧ ∀ later ∈ after, role later ≠ .forgets

theorem split_snoc {before after : List α} {last message : α}
    (split : feed ++ [last] = before ++ message :: after)
    : (after = [] ∧ feed = before ∧ last = message)
      ∨ ∃ front, after = front ++ [last] ∧ feed = before ++ message :: front := by
  rcases List.eq_nil_or_concat' after with rfl | ⟨front, final, rfl⟩
  · have parts := List.append_inj' split rfl
    exact Or.inl ⟨rfl, parts.1, by simpa using parts.2⟩
  · rw [← List.cons_append, ← List.append_assoc] at split
    have parts := List.append_inj' split rfl
    obtain rfl : last = final := by simpa using parts.2
    exact Or.inr ⟨front, rfl, parts.1⟩

theorem Known.snoc (known : Known role key feed) (keeps : role message ≠ .forgets)
    : Known role key (feed ++ [message]) := by
  obtain ⟨before, announcing, after, rfl, announces, kept⟩ := known
  refine ⟨before, announcing, after ++ [message], by simp, announces, fun later member => ?_⟩
  rcases List.mem_append.mp member with old | new
  · exact kept later old
  · rwa [List.mem_singleton.mp new]

theorem Known.announced (announces : role message = .announces key)
    : Known role key (feed ++ [message]) :=
  ⟨feed, message, [], rfl, announces, fun _ member => by cases member⟩

theorem Known.of_snoc (known : Known role key (feed ++ [message]))
    : role message = .announces key ∨ (Known role key feed ∧ role message ≠ .forgets) := by
  obtain ⟨before, announcing, after, split, announces, kept⟩ := known
  rcases split_snoc split with ⟨rfl, rfl, rfl⟩ | ⟨front, rfl, rfl⟩
  · exact Or.inl announces
  · refine Or.inr ⟨⟨before, announcing, front, rfl, announces, fun later member => ?_⟩, ?_⟩
    · exact kept later (List.mem_append_left _ member)
    · exact kept message (by simp)

-- Feeds that explain themselves

/-- Every key that is used behind the first messages is known where it is used. -/
def Announced (role : α → Role κ) (loaded : Nat) (feed : List α) : Prop :=
  ∀ before message after key,
    feed = before ++ message :: after
    → loaded ≤ before.length
    → role message = .uses key
    → Known role key before

theorem Announced.of_loaded {loaded : Nat} (short : feed.length ≤ loaded)
    : Announced role loaded feed := by
  rintro before message after key rfl behind _
  simp only [List.length_append, List.length_cons] at short
  omega

theorem Announced.snoc {loaded : Nat} (announced : Announced role loaded feed)
    (known : ∀ key, role message = .uses key → Known role key feed)
    : Announced role loaded (feed ++ [message]) := by
  intro before used after key split behind uses
  rcases split_snoc split with ⟨rfl, rfl, rfl⟩ | ⟨front, rfl, rfl⟩
  · exact known key uses
  · exact announced before used front key rfl behind uses

-- Replaying

variable [DecidableEq κ]

/-- A reader executes a message; it fails on a key that its table lacks. -/
def replayMessage (role : α → Role κ) (table : List κ) (message : α) : Option (List κ) :=
  match role message with
  | .announces key => some (key :: table)
  | .uses key => if key ∈ table then some table else none
  | .forgets => some []
  | .silent => some table

/-- A reader executes its feed. -/
def replay (role : α → Role κ) (table : List κ) (feed : List α) : Option (List κ) :=
  feed.foldlM (replayMessage role) table

theorem replay_snoc (table : List κ) (message : α)
    : replay role table (feed ++ [message])
      = (replay role table feed).bind (replayMessage role · message) := by
  simp [replay, List.foldlM_append, bind]

theorem mem_of_replay {table final : List κ} (run : replay role table feed = some final)
    (known : Known role key feed)
    : key ∈ final := by
  induction feed using List.reverseRecOn generalizing final with
  | nil =>
      obtain ⟨before, message, after, split, _⟩ := known
      cases before <;> cases split
  | append_singleton front message ih =>
      rw [replay_snoc] at run
      obtain ⟨mid, ran, last⟩ := Option.bind_eq_some_iff.mp run
      unfold replayMessage at last
      rcases known.of_snoc with announces | ⟨before, keeps⟩
      · simp only [announces, Option.some.injEq] at last
        exact last ▸ List.mem_cons_self
      · have member := ih ran before
        cases does : role message with
        | announces other =>
            simp only [does, Option.some.injEq] at last
            exact last ▸ List.mem_cons_of_mem _ member
        | uses other =>
            simp only [does] at last
            split at last
            · cases last
              exact member
            · cases last
        | forgets => exact absurd does keeps
        | silent =>
            simp only [does, Option.some.injEq] at last
            exact last ▸ member

/-- A reader of the feed knows every key that is used. -/
theorem Announced.replays {loaded : Nat} {table : List κ} (announced : Announced role loaded feed)
    (start : (replay role table (feed.take loaded)).isSome)
    : (replay role table feed).isSome := by
  induction feed using List.reverseRecOn with
  | nil => simpa using start
  | append_singleton front message ih =>
      by_cases behind : loaded ≤ front.length
      · rw [List.take_append_of_le_length behind] at start
        have earlier : Announced role loaded front := by
          intro before used after key split later uses
          exact announced before used (after ++ [message]) key (by simp [split]) later uses
        obtain ⟨mid, ran⟩ := Option.isSome_iff_exists.mp (ih earlier start)
        rw [replay_snoc, ran, Option.bind_some]
        unfold replayMessage
        split
        · rfl
        · rename_i key uses
          have known := announced front message [] key rfl behind uses
          rw [if_pos (mem_of_replay ran known)]
          rfl
        · rfl
        · rfl
      · rwa [List.take_of_length_le (by simp; omega)] at start

end Redis.Library
