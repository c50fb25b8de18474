import Redis.Keyspace.Model
import Redis.Library.Announcements
import Redis.Replication.Encoding
import Redis.Scripting.ScriptCache

/-! The scripting commands as the master and the readers of its feeds see them. -/

namespace Redis.Scripting

open Redis.Keyspace (getLongLongFromObject)
open Redis.Library

-- Arguments

abbrev Argument := {text : List UInt8 // text.length < 2 ^ 63}

/-- `c->argv`. -/
def arguments (command : PropagatedCommand) : List Argument :=
  command.argv.attach.map (fun o => ⟨o.1.text, command.length_lt o.1 o.2⟩)

def rewriteClientCommandArgument (command : PropagatedCommand) (i : Nat) (newval : Argument)
    : PropagatedCommand where
  argv := command.argv.set i (.sds newval.1)
  argc_lt := by
    rw [List.length_set]
    exact command.argc_lt
  length_lt := fun o member => by
    rcases List.mem_or_eq_of_mem_set member with old | rfl
    · exact command.length_lt o old
    · exact newval.2

theorem map_val_arguments (command : PropagatedCommand)
    : (arguments command).map Subtype.val = command.argv.map StringObject.text := by
  simp [arguments, Function.comp_def]

theorem arguments_rewrite (command : PropagatedCommand) (i : Nat) (newval : Argument)
    : arguments (rewriteClientCommandArgument command i newval)
      = (arguments command).set i newval := by
  apply List.map_injective_iff.mpr Subtype.val_injective
  rw [map_val_arguments, List.map_set, map_val_arguments]
  exact List.map_set

-- The commands

def evalName : List UInt8 := [0x65, 0x76, 0x61, 0x6C]
def evalshaName : List UInt8 := [0x65, 0x76, 0x61, 0x6C, 0x73, 0x68, 0x61]
def scriptName : List UInt8 := [0x73, 0x63, 0x72, 0x69, 0x70, 0x74]
def flushName : List UInt8 := [0x66, 0x6C, 0x75, 0x73, 0x68]
def loadName : List UInt8 := [0x6C, 0x6F, 0x61, 0x64]

/-- The `EVAL` that `evalGenericCommand` writes into a command. -/
def evalArgument : Argument := ⟨[0x45, 0x56, 0x41, 0x4C], by decide⟩

/-- A command that changes or uses the scripts. -/
inductive ScriptCommand where
  | eval (script numkeys : Argument) (args : List Argument)
  | evalsha (sha numkeys : Argument) (args : List Argument)
  | load (script : Argument)
  | flush

/-- The command table and `scriptCommand` find the code of a command. -/
def scriptCommand : List Argument → Option ScriptCommand
  | name :: script :: numkeys :: args =>
      if strcaseEqual name.1 evalName then some (.eval script numkeys args)
      else if strcaseEqual name.1 evalshaName then some (.evalsha script numkeys args)
      else if strcaseEqual name.1 scriptName && strcaseEqual (Keyspace.cString script.1) loadName
          && args.isEmpty then
        some (.load numkeys)
      else none
  | [name, subcommand] =>
      if strcaseEqual name.1 scriptName && strcaseEqual
        (Keyspace.cString subcommand.1) flushName then
        some .flush
      else none
  | _ => none

/-- The number of keys that `evalGenericCommand` accepts. -/
def numkeysValid (numkeys : Argument) (args : List Argument) : Bool :=
  match getLongLongFromObject numkeys.1 with
  | none => false
  | some n => n ≤ args.length && 0 ≤ n

-- Digests

/-- A digit of `sha1hex`. -/
def hexDigit (nibble : UInt8) : UInt8 := if nibble < 10 then 0x30 + nibble else 0x57 + nibble

/-- `sha1hex`, over the hash of `sha1.c`. -/
def sha1hex (sha1 : List UInt8 → Fin 20 → UInt8) (script : List UInt8) : List UInt8 :=
  (List.ofFn (sha1 script)).flatMap
    (fun byte : UInt8 => [hexDigit (byte >>> 4), hexDigit (byte &&& 0x0F)])

theorem lowerCase_hexDigit {nibble : UInt8} (small : nibble < 16)
    : lowerCase (hexDigit nibble) = hexDigit nibble := by
  have all : ∀ n : Fin 16, lowerCase (hexDigit (UInt8.ofNat n)) = hexDigit (UInt8.ofNat n) := by
    decide
  have read := all ⟨nibble.toNat, UInt8.lt_iff_toNat_lt.mp small⟩
  simpa using read

theorem map_lowerCase_sha1hex (sha1 : List UInt8 → Fin 20 → UInt8) (script : List UInt8)
    : (sha1hex sha1 script).map lowerCase = sha1hex sha1 script := by
  rw [sha1hex, List.map_flatMap]
  refine List.flatMap_congr fun byte _ => ?_
  have high : byte >>> 4 < 16 := by
    rw [UInt8.lt_iff_toNat_lt, UInt8.toNat_shiftRight]
    have bound := byte.toNat_lt
    simp only [Nat.shiftRight_eq_div_pow]
    change byte.toNat / 2 ^ 4 < 16
    omega
  have low : byte &&& 0x0F < 16 := by
    rw [UInt8.lt_iff_toNat_lt, UInt8.toNat_and]
    exact lt_of_le_of_lt Nat.and_le_right (by decide)
  simp [lowerCase_hexDigit high, lowerCase_hexDigit low]

-- What the readers make of a command

/-- What a command does to the scripts of a reader. -/
def scriptRole (sha1 : List UInt8 → Fin 20 → UInt8) (command : PropagatedCommand)
    : Role (List UInt8) :=
  match scriptCommand (arguments command) with
  | none => .silent
  | some (.eval script numkeys args) =>
      if numkeysValid numkeys args then .announces (sha1hex sha1 script.1) else .silent
  | some (.evalsha sha _ _) => .uses (sha.1.map lowerCase)
  | some (.load script) => .announces (sha1hex sha1 script.1)
  | some .flush => .forgets

/-- An `EVALSHA` written anew as an `EVAL`. -/
def rewrittenAsEval (command : PropagatedCommand) (script : Argument) : PropagatedCommand :=
  rewriteClientCommandArgument (rewriteClientCommandArgument command 0 evalArgument) 1 script

/-- The rewritten command announces its script. -/
theorem scriptRole_rewritten {sha1 : List UInt8 → Fin 20 → UInt8}
    {command : PropagatedCommand} {script sha numkeys : Argument} {args : List Argument}
    (found : scriptCommand (arguments command) = some (.evalsha sha numkeys args))
    (valid : numkeysValid numkeys args = true)
    : scriptRole sha1 (rewrittenAsEval command script) = .announces (sha1hex sha1 script.1) := by
  have upper : strcaseEqual evalArgument.1 evalName = true := by decide
  rw [scriptRole, rewrittenAsEval, arguments_rewrite, arguments_rewrite]
  match listed : arguments command with
  | [] => simp [listed, scriptCommand] at found
  | [_] => simp [listed, scriptCommand] at found
  | [_, _] =>
      simp only [listed, scriptCommand] at found
      split at found <;> cases found
  | name :: digest :: keys :: rest =>
      simp only [listed, scriptCommand] at found
      simp only [List.set_cons_zero, List.set_cons_succ, scriptCommand, upper, if_true]
      split at found
      · cases found
      · split at found
        · cases found
          rw [if_pos valid]
        · split at found <;> cases found

end Redis.Scripting
