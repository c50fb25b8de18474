import Redis.Hyperloglog.Model

/-! The registers that a string of opcodes stands for, and the walks over it: the walk of
`hllSparseToDense` and of `hllMerge` stores the registers that are not zero, one after the other.
-/

namespace Redis.Hyperloglog

open Redis.Library

-- The bytes of opcodes

theorem forall_byte {property : UInt8 → Prop} (all : ∀ b : Fin 256, property (UInt8.ofFin b))
    (p : UInt8)
    : property p := by
  simpa using all p.toFin

theorem isVal_eq (p : UInt8) : isVal p = (!isZero p && !isXzero p) :=
  @forall_byte (fun p => isVal p = (!isZero p && !isXzero p)) (by decide +kernel) p

theorem isXzero_eq_false {p : UInt8} (zero : isZero p = true) : isXzero p = false := by
  have top : p &&& 0xC0 = 0 := eq_of_beq zero
  rw [isXzero, top]
  rfl

theorem toNat_and_le (p mask : UInt8) : (p &&& mask).toNat ≤ mask.toNat := by
  rw [UInt8.toNat_and]
  exact Nat.and_le_right

theorem zeroLen_le (p : UInt8) : zeroLen p ≤ 64 :=
  Nat.succ_le_succ (toNat_and_le p 0x3F)

theorem valLen_le (p : UInt8) : valLen p ≤ 4 :=
  Nat.succ_le_succ (toNat_and_le p 0x03)

theorem valValue_le (p : UInt8) : valValue p ≤ 32 :=
  Nat.succ_le_succ (toNat_and_le (p >>> 2) 0x1F)

theorem valSet_opcode {val len : Nat} (valPositive : 0 < val) (valSmall : val ≤ 32)
    (lenPositive : 0 < len) (lenSmall : len ≤ 4)
    : isZero (valSet val len) = false ∧ isXzero (valSet val len) = false
      ∧ valValue (valSet val len) = val ∧ valLen (valSet val len) = len := by
  have all : ∀ v : Fin 32, ∀ l : Fin 4,
      isZero (valSet (v + 1) (l + 1)) = false ∧ isXzero (valSet (v + 1) (l + 1)) = false
      ∧ valValue (valSet (v + 1) (l + 1)) = v + 1 ∧ valLen (valSet (v + 1) (l + 1)) = l + 1 := by
    decide
  have here := all ⟨val - 1, by omega⟩ ⟨len - 1, by omega⟩
  rwa [show val - 1 + 1 = val by omega, show len - 1 + 1 = len by omega] at here

theorem zeroSet_opcode {len : Nat} (positive : 0 < len) (small : len ≤ 64)
    : isZero (zeroSet len) = true ∧ zeroLen (zeroSet len) = len := by
  have all : ∀ l : Fin 64, isZero (zeroSet (l + 1)) = true ∧ zeroLen (zeroSet (l + 1)) = l + 1 := by
    decide
  have here := all ⟨len - 1, by omega⟩
  rwa [show len - 1 + 1 = len by omega] at here

theorem xzeroSet_opcode {len : Nat} (positive : 0 < len) (small : len ≤ 16384)
    : ∃ p next, xzeroSet len = [p, next] ∧ isZero p = false ∧ isXzero p = true
      ∧ xzeroLen p next = len := by
  have high : ∀ h : Fin 64,
      isZero (UInt8.ofNat (h ||| 0x40)) = false ∧ isXzero (UInt8.ofNat (h ||| 0x40)) = true
      ∧ (UInt8.ofNat (h ||| 0x40) &&& 0x3F).toNat = h := by decide
  have quotient : (len - 1) >>> 8 = (len - 1) / 256 := Nat.shiftRight_eq_div_pow _ 8
  have remainder : (len - 1) &&& 0xFF = (len - 1) % 256 := Nat.and_two_pow_sub_one_eq_mod _ 8
  have ⟨notZero, long, bits⟩ := high ⟨(len - 1) / 256, by omega⟩
  refine ⟨_, _, rfl, ?_, ?_, ?_⟩
  · rwa [quotient]
  · rwa [quotient]
  · have low : (len - 1) % 256 < 2 ^ 8 := by omega
    rw [xzeroLen, quotient, remainder, bits, UInt8.toNat_ofNat_of_lt' low,
      ← Nat.shiftLeft_add_eq_or_of_lt low, Nat.shiftLeft_eq]
    change (len - 1) / 256 * 2 ^ 8 + (len - 1) % 256 + 1 = len
    omega

theorem xzeroLen_le {p next : UInt8} : xzeroLen p next ≤ 16384 := by
  have high : (p &&& 0x3F).toNat < 64 := Nat.lt_succ_of_le (toNat_and_le p 0x3F)
  have low : next.toNat < 2 ^ 8 := UInt8.toNat_lt next
  rw [xzeroLen, ← Nat.shiftLeft_add_eq_or_of_lt low, Nat.shiftLeft_eq]
  omega

-- Registers

/-- The opcodes of a string, less a cut one at its end. -/
def opcodes : List UInt8 → List Opcode
  | [] => []
  | p :: rest =>
      if isZero p then .zero (zeroLen p) :: opcodes rest
      else if isXzero p then
        match rest with
        | next :: rest => .xzero (xzeroLen p next) :: opcodes rest
        | [] => []
      else .val (valValue p) (valLen p) :: opcodes rest

/-- No opcode is cut by the end of the string. -/
def Whole : List UInt8 → Prop
  | [] => True
  | p :: rest =>
      if isZero p then Whole rest
      else if isXzero p then
        match rest with
        | _ :: rest => Whole rest
        | [] => False
      else Whole rest

def Opcode.run : Opcode → List Nat
  | .zero len => List.replicate len 0
  | .xzero len => List.replicate len 0
  | .val value len => List.replicate len value

/-- The registers that a string of opcodes stands for. -/
def registersOf (data : List UInt8) : List Nat := (opcodes data).flatMap Opcode.run

@[simp] theorem opcodes_nil : opcodes [] = [] := rfl

@[simp] theorem whole_nil : Whole [] := trivial

@[simp] theorem registersOf_nil : registersOf [] = [] := rfl

section Cons

variable {p : UInt8} {rest : List UInt8}

theorem opcodes_cons (p : UInt8) (rest : List UInt8)
    : opcodes (p :: rest)
      = if isZero p then .zero (zeroLen p) :: opcodes rest
        else if isXzero p then
          match rest with
          | next :: rest => .xzero (xzeroLen p next) :: opcodes rest
          | [] => []
        else .val (valValue p) (valLen p) :: opcodes rest := by
  cases rest <;> rfl

theorem whole_cons (p : UInt8) (rest : List UInt8)
    : Whole (p :: rest)
      = if isZero p then Whole rest
        else if isXzero p then
          match rest with
          | _ :: rest => Whole rest
          | [] => False
        else Whole rest := by
  cases rest <;> rfl

theorem opcodes_zero (zero : isZero p = true)
    : opcodes (p :: rest) = .zero (zeroLen p) :: opcodes rest
      ∧ (Whole (p :: rest) ↔ Whole rest) := by
  rw [opcodes_cons, whole_cons, if_pos zero, if_pos zero]
  exact ⟨rfl, Iff.rfl⟩

theorem opcodes_xzero (next : UInt8) (notZero : isZero p = false) (long : isXzero p = true)
    : opcodes (p :: next :: rest) = .xzero (xzeroLen p next) :: opcodes rest
      ∧ (Whole (p :: next :: rest) ↔ Whole rest) := by
  simp only [opcodes_cons p, whole_cons p, notZero, long, Bool.false_eq_true, if_false, if_true,
    and_self]

theorem opcodes_cut (notZero : isZero p = false) (long : isXzero p = true)
    : opcodes [p] = [] ∧ ¬ Whole [p] := by
  simp only [opcodes_cons p, whole_cons p, notZero, long, Bool.false_eq_true, if_false, if_true,
    not_false_eq_true, and_self]

theorem opcodes_val (notZero : isZero p = false) (notLong : isXzero p = false)
    : opcodes (p :: rest) = .val (valValue p) (valLen p) :: opcodes rest
      ∧ (Whole (p :: rest) ↔ Whole rest) := by
  simp only [opcodes_cons p, whole_cons p, notZero, notLong, Bool.false_eq_true, if_false, and_self]

end Cons

theorem opcodes_append {a : List UInt8} (whole : Whole a) (b : List UInt8)
    : opcodes (a ++ b) = opcodes a ++ opcodes b ∧ (Whole (a ++ b) ↔ Whole b) := by
  fun_induction opcodes a with
  | case1 => simp
  | case2 p rest zero ih =>
      obtain ⟨ops, kept⟩ := ih ((opcodes_zero zero).2.mp whole)
      rw [List.cons_append, (opcodes_zero zero).1, (opcodes_zero zero).2, ops, kept]
      exact ⟨rfl, Iff.rfl⟩
  | case3 p notZero long next rest ih =>
      have here (rest : List UInt8) :=
        @opcodes_xzero p rest next ((Bool.not_eq_true _).mp notZero) long
      obtain ⟨ops, kept⟩ := ih ((here _).2.mp whole)
      rw [List.cons_append, List.cons_append, (here _).1, (here _).2, ops, kept]
      exact ⟨rfl, Iff.rfl⟩
  | case4 p notZero long =>
      exact absurd whole (opcodes_cut ((Bool.not_eq_true _).mp notZero) long).2
  | case5 p rest notZero notLong ih =>
      have here (rest : List UInt8) :=
        @opcodes_val p rest ((Bool.not_eq_true _).mp notZero) ((Bool.not_eq_true _).mp notLong)
      obtain ⟨ops, kept⟩ := ih ((here _).2.mp whole)
      rw [List.cons_append, (here _).1, (here _).2, ops, kept]
      exact ⟨rfl, Iff.rfl⟩

theorem registersOf_append {a : List UInt8} (whole : Whole a) (b : List UInt8)
    : registersOf (a ++ b) = registersOf a ++ registersOf b := by
  rw [registersOf, (opcodes_append whole b).1, List.flatMap_append]
  rfl

theorem whole_append {a : List UInt8} (whole : Whole a) (b : List UInt8)
    : Whole (a ++ b) ↔ Whole b := (opcodes_append whole b).2

/-- A piece of whole opcodes that stand for the given registers. -/
def Piece (data : List UInt8) (run : List Nat) : Prop := Whole data ∧ registersOf data = run

theorem Piece.append {a b : List UInt8} {runA runB : List Nat} (first : Piece a runA)
    (second : Piece b runB)
    : Piece (a ++ b) (runA ++ runB) :=
  ⟨(whole_append first.1 b).mpr second.1,
    by rw [registersOf_append first.1, first.2, second.2]⟩

theorem piece_nil : Piece [] [] := ⟨whole_nil, rfl⟩

theorem piece_zero {p : UInt8} (zero : isZero p = true)
    : Piece [p] (List.replicate (zeroLen p) 0) := by
  simp [Piece, Whole, registersOf, opcodes, zero, Opcode.run]

theorem piece_xzero {p next : UInt8} (notZero : isZero p = false) (long : isXzero p = true)
    : Piece [p, next] (List.replicate (xzeroLen p next) 0) := by
  simp [Piece, Whole, registersOf, opcodes, notZero, long, Opcode.run]

theorem piece_val {p : UInt8} (notZero : isZero p = false) (notLong : isXzero p = false)
    : Piece [p] (List.replicate (valLen p) (valValue p)) := by
  simp [Piece, Whole, registersOf, opcodes, notZero, notLong, Opcode.run]

theorem piece_valSet {val len : Nat} (valPositive : 0 < val) (valSmall : val ≤ 32)
    (lenPositive : 0 < len) (lenSmall : len ≤ 4)
    : Piece [valSet val len] (List.replicate len val) := by
  obtain ⟨notZero, notLong, value, length⟩ :=
    valSet_opcode valPositive valSmall lenPositive lenSmall
  simpa [value, length] using piece_val notZero notLong

theorem piece_zeroSeq {len : Nat} (small : len ≤ 16384)
    : Piece (zeroSeq len) (List.replicate len 0) := by
  rw [zeroSeq]
  split
  · subst len
    exact piece_nil
  · split
    · obtain ⟨p, next, bytes, notZero, long, length⟩ :=
        xzeroSet_opcode (show 0 < len by omega) small
      rw [bytes, ← length]
      exact piece_xzero notZero long
    · obtain ⟨zero, length⟩ := zeroSet_opcode (show 0 < len by omega) (by omega)
      have piece := piece_zero zero
      rwa [length] at piece

theorem piece_valSeq {curval len : Nat} (positive : 0 < curval) (valSmall : curval ≤ 32)
    (small : len ≤ 4)
    : Piece (valSeq curval len) (List.replicate len curval) := by
  rw [valSeq]
  split
  · subst len
    exact piece_nil
  · exact piece_valSet positive valSmall (by omega) small

/-- An opcode of at most two bytes stands for a register at least. -/
theorem length_le_registersOf {data : List UInt8} (whole : Whole data)
    : data.length ≤ 2 * (registersOf data).length := by
  have step {op : Opcode} {ops : List Opcode} (some : 0 < op.run.length)
      : (ops.flatMap Opcode.run).length + 1 ≤ ((op :: ops).flatMap Opcode.run).length := by
    rw [List.flatMap_cons, List.length_append]
    omega
  unfold registersOf
  fun_induction opcodes data with
  | case1 => simp
  | case2 p rest zero ih =>
      have shorter := ih ((opcodes_zero zero).2.mp whole)
      have more := @step (.zero (zeroLen p)) (opcodes rest) (by simp [Opcode.run, zeroLen])
      rw [List.length_cons]
      omega
  | case3 p notZero long next rest ih =>
      have shorter :=
        ih ((opcodes_xzero next ((Bool.not_eq_true _).mp notZero) long).2.mp whole)
      have more := @step (.xzero (xzeroLen p next)) (opcodes rest) (by simp [Opcode.run, xzeroLen])
      rw [List.length_cons, List.length_cons]
      omega
  | case4 p notZero long =>
      exact absurd whole (opcodes_cut ((Bool.not_eq_true _).mp notZero) long).2
  | case5 p rest notZero notLong ih =>
      have shorter := ih
        ((opcodes_val ((Bool.not_eq_true _).mp notZero) ((Bool.not_eq_true _).mp notLong)).2.mp
          whole)
      have more :=
        @step (.val (valValue p) (valLen p)) (opcodes rest) (by simp [Opcode.run, valLen])
      rw [List.length_cons]
      omega

section Walk

variable {σ : Type} {round : σ → Opcode → Except Fault σ}

theorem walkOpcodes_eq (state : σ) (data : List UInt8)
    : (Whole data → walkOpcodes round state data = (opcodes data).foldlM round state)
      ∧ (¬ Whole data →
        walkOpcodes round state data
          = (opcodes data).foldlM round state >>= fun _ => .error .outOfBounds) := by
  fun_induction opcodes data generalizing state with
  | case1 => exact ⟨fun _ => rfl, fun cut => absurd trivial cut⟩
  | case2 p rest zero ih =>
      rw [walkOpcodes.eq_def, (opcodes_zero zero).2]
      cases ran : round state (.zero (zeroLen p)) with
      | error fault => simp [zero, ran]
      | ok next => simpa [zero, ran] using ih next
  | case3 p notZero long next rest ih =>
      rw [walkOpcodes.eq_def, (opcodes_xzero next ((Bool.not_eq_true _).mp notZero) long).2]
      cases ran : round state (.xzero (xzeroLen p next)) with
      | error fault => simp [notZero, long, ran]
      | ok after => simpa [notZero, long, ran] using ih after
  | case4 p notZero long =>
      refine ⟨fun whole => absurd whole (opcodes_cut ((Bool.not_eq_true _).mp notZero) long).2, ?_⟩
      intro _
      rw [walkOpcodes.eq_def]
      simp [notZero, long, pure, Except.pure]
  | case5 p rest notZero notLong ih =>
      rw [walkOpcodes.eq_def,
        (opcodes_val ((Bool.not_eq_true _).mp notZero) ((Bool.not_eq_true _).mp notLong)).2]
      cases ran : round state (.val (valValue p) (valLen p)) with
      | error fault => simp [notZero, notLong, ran]
      | ok after => simpa [notZero, notLong, ran] using ih after

end Walk

end Redis.Hyperloglog
