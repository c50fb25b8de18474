import Redis.Util.Decimal

/-! The two encoders of a propagated command: `replicationFeedSlaves` writes it to the backlog
by hand and to every slave through the reply functions of `networking.c`.
-/

namespace Redis

open Redis.Library

/-- A string object; `REDIS_ENCODING_INT` keeps the number in the pointer. -/
inductive StringObject where
  | sds (bytes : List UInt8)
  | int (value : Int64)
deriving DecidableEq, Repr

/-- The text that `ll2string` leaves in a local buffer of `dstlen` bytes. -/
def ll2text (dstlen : Nat) (value : Int) : Except Fault (List UInt8) := do
  let (length, dst) ← ll2string (List.replicate dstlen 0) value
  pure (dst.take length)

/-- `getDecodedObject`; also the bytes that `addReply` sends for an object. -/
def StringObject.decoded : StringObject → Except Fault (List UInt8)
  | .sds bytes => .ok bytes
  | .int value => ll2text 32 value.toInt

def stringObjectLen (o : StringObject) : Except Fault Nat :=
  match o with
  | .sds bytes => .ok bytes.length
  | .int value => do
      let text ← ll2text 32 value.toInt
      pure text.length

def crlf : List UInt8 := [0x0D, 0x0A]

/-- `*2\r\n$6\r\nSELECT\r\n$`. -/
def selectPrefix : List UInt8 :=
  [0x2A, 0x32, 0x0D, 0x0A, 0x24, 0x36, 0x0D, 0x0A, 0x53, 0x45, 0x4C, 0x45, 0x43, 0x54,
    0x0D, 0x0A, 0x24]

/-- The `SELECT` command for a database, one of `shared.select` or made on the spot. -/
def selectCommand (dictid : Int32) : Except Fault (List UInt8) := do
  let text ← ll2text (if 0 ≤ dictid ∧ dictid < 10 then 64 else 21) dictid.toInt
  pure (selectPrefix ++ decimalText text.length ++ crlf ++ text ++ crlf)

-- The backlog encoder

/-- A count with its mark, as put together in `aux`. -/
def auxLine (mark : UInt8) (count : Nat) : Except Fault (List UInt8) := do
  let text ← ll2text 23 count
  pure (mark :: text ++ crlf)

/-- The object bytes of `feedReplicationBacklogWithObject`. -/
def backlogObject (o : StringObject) : Except Fault (List UInt8) :=
  match o with
  | .sds bytes => .ok bytes
  | .int value => ll2text 21 value.toInt

/-- The chunks fed to the backlog for one argument. -/
def backlogArgument (o : StringObject) : Except Fault (List (List UInt8)) := do
  let objlen ← stringObjectLen o
  let header ← auxLine 0x24 objlen
  let bytes ← backlogObject o
  pure [header, bytes, crlf]

/-- The chunks fed to the backlog for a command. -/
def backlogCommand (argv : List StringObject) : Except Fault (List (List UInt8)) := do
  let header ← auxLine 0x2A argv.length
  let arguments ← argv.mapM backlogArgument
  pure (header :: arguments.flatten)

-- The slave encoder

/-- `REDIS_SHARED_BULKHDR_LEN`. -/
def sharedBulkhdrLen : Nat := 32

/-- A length line: `shared.mbulkhdr` and `shared.bulkhdr` hold the short ones, made by
`sdscatprintf`, and `addReplyLongLongWithPrefix` writes the others.
-/
def lengthLine (mark : UInt8) (count : Nat) : Except Fault (List UInt8) :=
  if count < sharedBulkhdrLen then .ok (mark :: decimalText count ++ crlf)
  else do
    let text ← ll2text 127 count
    pure (mark :: text ++ crlf)

/-- `while((n = n/10) != 0) len++`. -/
def countDigits : (rounds : Nat) → (n : Int) → (len : Nat) → Except Fault Nat
  | 0, _, _ => .error .diverged
  | rounds + 1, n, len =>
      let n := n.tdiv 10
      if n ≠ 0 then countDigits rounds n (len + 1) else .ok len

/-- The length that `addReplyBulkLen` announces. The negation of the least `PORT_LONG` wraps
to itself.
-/
def bulkLen (o : StringObject) : Except Fault Nat :=
  match o with
  | .sds bytes => .ok bytes.length
  | .int value =>
      let n := value.toInt
      if n < 0 then countDigits 20 (if n = -2 ^ 63 then n else -n) 2 else countDigits 20 n 1

/-- `addReplyBulk`. -/
def slaveArgument (o : StringObject) : Except Fault (List (List UInt8)) := do
  let len ← bulkLen o
  let header ← lengthLine 0x24 len
  let bytes ← o.decoded
  pure [header, bytes, crlf]

/-- The replies that send a command to a slave. -/
def slaveCommand (argv : List StringObject) : Except Fault (List (List UInt8)) := do
  let header ← lengthLine 0x2A argv.length
  let arguments ← argv.mapM slaveArgument
  pure (header :: arguments.flatten)

-- The encoders agree

def StringObject.text : StringObject → List UInt8
  | .sds bytes => bytes
  | .int value => decimalText value.toInt

/-- The request of a command: its argument count, and each argument after its length. -/
def commandChunks (argv : List StringObject) : List (List UInt8) :=
  (0x2A :: decimalText argv.length ++ crlf)
    :: argv.flatMap (fun o => [0x24 :: decimalText o.text.length ++ crlf, o.text, crlf])

/-- A command as the server can hold one: `argc` is an `int` and lengths are below `2 ^ 63`. -/
structure PropagatedCommand where
  argv : List StringObject
  argc_lt : argv.length < 2 ^ 31
  length_lt : ∀ o ∈ argv, o.text.length < 2 ^ 63

theorem ll2text_ok {dstlen : Nat} {value : Int} (word : value.natAbs < 2 ^ 64)
    (room : (decimalText value).length < dstlen)
    : ll2text dstlen value = .ok (decimalText value) := by
  have text :=
    ll2string_ok word (show (decimalText value).length < (List.replicate dstlen 0).length by
    simpa using room)
  rw [ll2text, text, ok_andThen]
  simp

theorem length_decimalText_natCast {n : Nat} (word : n < 2 ^ 63)
    : (decimalText n).length ≤ 19 := by
  rw [decimalText, if_neg (by omega), Int.natAbs_natCast, length_naturalText_le (by decide)]
  omega

theorem length_decimalText_le {v : Int} (low : -2 ^ 63 ≤ v) (high : v < 2 ^ 63)
    : (decimalText v).length ≤ 20 := by
  have digits : (naturalText v.natAbs).length ≤ 19 :=
    (length_naturalText_le (by decide)).mpr (by omega)
  unfold decimalText
  split
  · rw [List.length_cons]
    omega
  · omega

theorem ll2text_int64 {dstlen : Nat} (value : Int64) (room : 21 ≤ dstlen)
    : ll2text dstlen value.toInt = .ok (decimalText value.toInt) := by
  have low := value.le_toInt
  have high := value.toInt_lt
  have short := length_decimalText_le low high
  exact ll2text_ok (by omega) (by omega)

theorem countDigits_ok (rounds : Nat) {n : Int} (small : n.natAbs < 10 ^ rounds) (len : Nat)
    (positive : rounds ≠ 0)
    : countDigits rounds n len = .ok (len + (naturalText n.natAbs).length - 1) := by
  induction rounds generalizing n len with
  | zero => exact absurd rfl positive
  | succ rounds ih =>
      have tenth : (n.tdiv 10).natAbs = n.natAbs / 10 := Int.natAbs_tdiv n 10
      rw [countDigits]
      split
      · rename_i more
        have large : 10 ≤ n.natAbs := by omega
        have fewer : (n.tdiv 10).natAbs < 10 ^ rounds := by
          rw [tenth]
          rw [Nat.pow_succ] at small
          omega
        have some : rounds ≠ 0 := by
          rintro rfl
          omega
        rw [ih fewer (len + 1) some, tenth, naturalText_of_ge large, List.length_append,
          List.length_singleton]
        congr 1
        omega
      · rename_i done
        have single : n.natAbs < 10 := by omega
        rw [naturalText_of_lt single]
        rfl

theorem bulkLen_eq (o : StringObject) : bulkLen o = .ok o.text.length := by
  cases o with
  | sds bytes => rfl
  | int value =>
      have low := value.le_toInt
      have high := value.toInt_lt
      simp only [bulkLen, StringObject.text]
      have digits := length_naturalText_pos value.toInt.natAbs
      split
      · rename_i negative
        have magnitude
            : (if value.toInt = -2 ^ 63 then value.toInt else -value.toInt).natAbs
              = value.toInt.natAbs := by
          split <;> omega
        rw [countDigits_ok 20 (by omega) 2 (by decide), magnitude, decimalText, if_pos negative,
          List.length_cons]
        congr 1
        omega
      · rename_i natural
        rw [countDigits_ok 20 (by omega) 1 (by decide), decimalText, if_neg natural]
        congr 1
        omega

theorem mapM_ok {α β : Type} {f : α → Except Fault β} {g : α → β} {xs : List α}
    (each : ∀ x ∈ xs, f x = .ok (g x))
    : xs.mapM f = .ok (xs.map g) := by
  induction xs with
  | nil => rfl
  | cons x xs ih =>
      rw [List.mapM_cons, each x List.mem_cons_self, ok_andThen,
        ih (fun y member => each y (List.mem_cons_of_mem _ member))]
      rfl

section Agreement

theorem stringObjectLen_ok (o : StringObject) : stringObjectLen o = .ok o.text.length := by
  cases o with
  | sds bytes => rfl
  | int value =>
      rw [stringObjectLen, ll2text_int64 value (by decide)]
      rfl

theorem backlogObject_ok (o : StringObject) : backlogObject o = .ok o.text := by
  cases o with
  | sds bytes => rfl
  | int value => exact ll2text_int64 value (by decide)

theorem decoded_ok (o : StringObject) : o.decoded = .ok o.text := by
  cases o with
  | sds bytes => rfl
  | int value => exact ll2text_int64 value (by decide)

theorem auxLine_ok (mark : UInt8) {count : Nat} (word : count < 2 ^ 63)
    : auxLine mark count = .ok (mark :: decimalText count ++ crlf) := by
  have short := length_decimalText_natCast word
  rw [auxLine, ll2text_ok (by rw [Int.natAbs_natCast]; omega) (by omega)]
  rfl

theorem lengthLine_ok (mark : UInt8) {count : Nat} (word : count < 2 ^ 63)
    : lengthLine mark count = .ok (mark :: decimalText count ++ crlf) := by
  have short := length_decimalText_natCast word
  unfold lengthLine
  split
  · rfl
  · rw [ll2text_ok (by rw [Int.natAbs_natCast]; omega) (by omega)]
    rfl

/-- The backlog gets the text of the command. -/
theorem backlogCommand_ok (command : PropagatedCommand)
    : backlogCommand command.argv = .ok (commandChunks command.argv) := by
  have each : ∀ o ∈ command.argv,
      backlogArgument o = .ok [0x24 :: decimalText o.text.length ++ crlf, o.text, crlf] := by
    intro o member
    rw [backlogArgument, stringObjectLen_ok, ok_andThen,
      auxLine_ok _ (command.length_lt o member), ok_andThen, backlogObject_ok]
    rfl
  have argc := command.argc_lt
  rw [backlogCommand, auxLine_ok _ (by omega), ok_andThen, mapM_ok each, ok_andThen,
    commandChunks, List.flatMap_def]
  rfl

/-- The slaves get the same text. -/
theorem slaveCommand_ok (command : PropagatedCommand)
    : slaveCommand command.argv = .ok (commandChunks command.argv) := by
  have each : ∀ o ∈ command.argv,
      slaveArgument o = .ok [0x24 :: decimalText o.text.length ++ crlf, o.text, crlf] := by
    intro o member
    rw [slaveArgument, bulkLen_eq, ok_andThen, lengthLine_ok _ (command.length_lt o member),
      ok_andThen, decoded_ok]
    rfl
  have argc := command.argc_lt
  rw [slaveCommand, lengthLine_ok _ (by omega), ok_andThen, mapM_ok each, ok_andThen,
    commandChunks, List.flatMap_def]
  rfl

theorem selectCommand_ok (dictid : Int32) : ∃ bytes, selectCommand dictid = .ok bytes := by
  have low := dictid.le_toInt
  have high := dictid.toInt_lt
  have short := length_decimalText_le (v := dictid.toInt) (by omega) (by omega)
  have room : (decimalText dictid.toInt).length < if 0 ≤ dictid ∧ dictid < 10 then 64 else 21 := by
    split <;> omega
  exact ⟨_, by rw [selectCommand, ll2text_ok (by omega) room, ok_andThen]; rfl⟩

end Agreement

end Redis
