import Mathlib.Data.List.Rotate
import Redis.Library.Faults

/-! Ring buffers.
A ring is a list of fixed length with a write position; rotated by that position it reads
from the oldest cell to the newest.
-/

namespace Redis.Library

variable {α : Type}

/-- The last `count` cells written to a ring. -/
def ringHistory (buffer : List α) (position count : Nat) : List α :=
  (buffer.rotate position).drop (buffer.length - count)

section Ring

variable {buffer : List α} {position : Nat}

theorem length_ringHistory {count : Nat} (few : count ≤ buffer.length)
    : (ringHistory buffer position count).length = count := by
  rw [ringHistory, List.length_drop, List.length_rotate]
  omega

theorem rotate_write (data : List α) (fits : position + data.length ≤ buffer.length)
    : (buffer.take position ++ data ++ buffer.drop (position + data.length)).rotate
        (position + data.length)
      = (buffer.rotate position ++ data).drop data.length := by
  have front : (buffer.take position ++ data).length = position + data.length := by
    rw [List.length_append, List.length_take]
    omega
  have old : buffer.rotate position = buffer.drop position ++ buffer.take position :=
    List.rotate_eq_drop_append_take (by omega)
  calc
    (buffer.take position ++ data ++ buffer.drop (position + data.length)).rotate
        (position + data.length)
    _ = buffer.drop (position + data.length) ++ (buffer.take position ++ data) := by
      rw [← front, List.rotate_append_length_eq]
    _ = (buffer.rotate position ++ data).drop data.length := by
      rw [old, List.append_assoc, List.drop_append_of_le_length (by rw [List.length_drop]; omega),
        List.drop_drop]

/-- A write keeps the history a suffix of the stream. -/
theorem ringHistory_append {next data : List α} {position' count : Nat}
    (length : next.length = buffer.length)
    (written : next.rotate position' = (buffer.rotate position ++ data).drop data.length)
    {count' : Nat} (few : count ≤ buffer.length) (fewer : count' ≤ buffer.length)
    (grown : count' ≤ count + data.length) {stream : List α}
    (suffix : ringHistory buffer position count <:+ stream)
    : ringHistory next position' count' <:+ stream ++ data := by
  have split
      : buffer.rotate position
        = (buffer.rotate position).take (buffer.length - count)
          ++ ringHistory buffer position count :=
    (List.take_append_drop _ _).symm
  have later : buffer.length - count ≤ data.length + (buffer.length - count') := by omega
  have front
      : ((buffer.rotate position).take (buffer.length - count)).length = buffer.length - count := by
    rw [List.length_take, List.length_rotate]
    omega
  have recent
      : ringHistory next position' count'
        = (ringHistory buffer position count ++ data).drop
            (data.length + (buffer.length - count') - (buffer.length - count)) := by
    rw [ringHistory, written, List.drop_drop, length]
    conv => lhs; rw [split, List.append_assoc]
    rw [List.drop_append, List.drop_eq_nil_of_le (by rw [front]; exact later), front,
      List.nil_append]
  rw [recent]
  exact (List.drop_suffix _ _).trans (List.suffix_append_self_iff.mpr suffix)

theorem rotate_read {count : Nat} (inside : position ≤ buffer.length)
    (few : count ≤ buffer.length)
    : (buffer.rotate position).take count
      = (buffer.drop position).take count ++ buffer.take (count - (buffer.length - position)) := by
  rw [List.rotate_eq_drop_append_take inside, List.take_append, List.length_drop, List.take_take]
  congr 2
  omega

theorem ringHistory_drop {count skip : Nat} (few : count ≤ buffer.length) (short : skip ≤ count)
    : (ringHistory buffer position count).drop skip
      = (buffer.rotate (position + (buffer.length - count) + skip)).take (count - skip) := by
  have start : buffer.length - count + skip ≤ (buffer.rotate position).length := by
    rw [List.length_rotate]
    omega
  rw [Nat.add_assoc, ← List.rotate_rotate, List.rotate_eq_drop_append_take start, ringHistory,
    List.drop_drop, List.take_left']
  rw [List.length_drop, List.length_rotate]
  omega

end Ring

end Redis.Library
