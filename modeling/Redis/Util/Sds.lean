import Redis.Library.Block

/-! The strings of `sds.c` are the bytes below their length, a field of 32 bits in the header: what
lies behind it is lost to every reader of the string.
-/

namespace Redis.Util

/-- `sdsnewlen`: the bytes are copied, and their number is cast into the length field. -/
def sdsnewlen (init : List UInt8) : List UInt8 := init.take (init.length % 2 ^ 32)

/-- `sdscatlen` for an `sds`, whose length is below `2 ^ 32`. -/
def sdscatlen (s t : List UInt8) : List UInt8 := sdsnewlen (s ++ t)

/-- A string keeps all its bytes exactly when their number fits in the length field. -/
theorem sdsnewlen_eq_iff {init : List UInt8} : sdsnewlen init = init ↔ init.length < 2 ^ 32 := by
  rw [sdsnewlen, List.take_eq_self_iff]
  omega

theorem sdsnewlen_of_lt {init : List UInt8} (short : init.length < 2 ^ 32)
    : sdsnewlen init = init :=
  sdsnewlen_eq_iff.mpr short

theorem length_sdsnewlen (init : List UInt8) : (sdsnewlen init).length = init.length % 2 ^ 32 := by
  rw [sdsnewlen, List.length_take]
  omega

/-- A string that loses bytes gets shorter. -/
theorem length_sdsnewlen_le (init : List UInt8) : (sdsnewlen init).length ≤ init.length := by
  rw [length_sdsnewlen]
  exact Nat.mod_le _ _

@[simp] theorem sdsnewlen_nil : sdsnewlen [] = [] := rfl

theorem sdscatlen_eq_iff {s t : List UInt8}
    : sdscatlen s t = s ++ t ↔ s.length + t.length < 2 ^ 32 := by
  rw [sdscatlen, sdsnewlen_eq_iff, List.length_append]

theorem sdscatlen_of_lt {s t : List UInt8} (short : s.length + t.length < 2 ^ 32)
    : sdscatlen s t = s ++ t :=
  sdscatlen_eq_iff.mpr short

/-- Texts that are appended one after the other are all kept if they fit together. -/
theorem foldl_sdscatlen {pieces : List (List UInt8)} {s : List UInt8}
    (short : s.length + pieces.flatten.length < 2 ^ 32)
    : pieces.foldl sdscatlen s = s ++ pieces.flatten := by
  induction pieces generalizing s with
  | nil => exact (List.append_nil s).symm
  | cons piece pieces ih =>
      rw [List.flatten_cons, List.length_append] at short
      rw [List.foldl_cons, sdscatlen_of_lt (by omega), ih (by rw [List.length_append]; omega),
        List.flatten_cons, List.append_assoc]

end Redis.Util
