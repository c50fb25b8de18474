import Redis.Aof.BackgroundRewrite
import Redis.Util.Sds

/-! `flushAppendOnlyFile`: the write of `aof_buf` to the append only file, which may be short or
fail, and what switches the file or leaves it.
-/

namespace Redis.AofWrites

open Redis.BackgroundRewrite (AofState)
open Redis.Library (int32)
open Redis.Util (sdscatlen)

-- Strings

def sdsrange (s : List UInt8) (start last : Int) : List UInt8 :=
  if s.length = 0 then s
  else
    let len := int32 s.length
    let start := if start < 0 then (if int32 (len + start) < 0 then 0 else int32 (len + start))
      else start
    let last := if last < 0 then (if int32 (len + last) < 0 then 0 else int32 (len + last))
      else last
    if start > last then []
    else if start ≥ len then []
    else
      let last := if last ≥ len then len - 1 else last
      if start > last then [] else (s.drop start.toNat).take (last - start + 1).toNat

-- The server

/-- `server.aof_fsync`. -/
inductive FsyncPolicy where
  | always
  | everysec
  | no
deriving DecidableEq, Repr

/-- The fields of the server that the append only file has. -/
structure Writer where
  state : AofState
  fsync : FsyncPolicy
  /-- `aof_fd` is not -1. -/
  hasFd : Bool
  /-- `aof_fd` can be written. -/
  fdOpen : Bool
  file : List UInt8
  aofBuf : List UInt8
  currentSize : Int
  /-- `aof_last_write_status` is `REDIS_OK`. -/
  lastWriteOk : Bool
  lastWriteErrno : Nat
  /-- `last_write_error_log`. -/
  lastErrorLog : Int
  postponedStart : Int
  delayedFsync : Nat
  lastFsync : Int
  /-- `aof_child_pid` is not -1. -/
  child : Bool
  rewriteScheduled : Bool

/-- What a flush is called with, and what the system calls return. -/
structure FlushCall where
  force : Bool
  unixtime : Int
  /-- An `fsync` of the background thread is pending. -/
  fsyncPending : Bool
  /-- What `write` returns, at most the length of the buffer; nothing stands for -1. -/
  write : Option Nat
  errno : Nat
  /-- `ftruncate` succeeds. -/
  truncates : Bool
  /-- `aof_no_fsync_on_rewrite` is set and a child is active. -/
  noFsync : Bool
deriving DecidableEq, Repr

def enospc : Nat := 28

namespace Writer

variable (s : Writer) (call : FlushCall)

/-- `nwritten`. -/
def written : Int :=
  if s.fdOpen then
    match call.write with
    | none => -1
    | some n => (min n s.aofBuf.length : Nat)
  else -1

/-- `ftruncate` to `aof_current_size`. -/
def truncated : List UInt8 :=
  s.file.take s.currentSize.toNat ++ List.replicate (s.currentSize.toNat - s.file.length) 0

/-- The log of a failed write, at most once in 30 seconds, and `aof_last_write_errno`. -/
def logWriteError (nwritten : Int) : Writer :=
  let canLog := call.unixtime - s.lastErrorLog > 30
  { s with
    lastErrorLog := if canLog then call.unixtime else s.lastErrorLog
    lastWriteErrno :=
      if nwritten = -1 then (if canLog then call.errno else s.lastWriteErrno) else enospc }

/-- `ftruncate` undoes a short write. -/
def undoes (nwritten : Int) : Bool := nwritten ≠ -1 && call.truncates && 0 ≤ s.currentSize

def takeBack (nwritten : Int) : Writer × Int :=
  if s.undoes call nwritten then ({ s with file := s.truncated }, -1) else (s, nwritten)

/-- `Trim the sds buffer if there was a partial write` -/
def trim (nwritten : Int) : Writer :=
  if nwritten > 0 then
    { s with
      currentSize := s.currentSize + nwritten
      aofBuf := sdsrange s.aofBuf (int32 nwritten) (-1) }
  else s

/-- The branch of a write that is not complete. Nothing is returned when the process exits. -/
def writeFailed (nwritten : Int) : Option Writer :=
  let (s, nwritten) := (s.logWriteError call nwritten).takeBack call nwritten
  if s.fsync = .always then none else some ({ s with lastWriteOk := false }.trim nwritten)

/-- The branch of a complete write, with the `fsync`. -/
def writeSucceeded (nwritten : Int) : Writer :=
  { s with
    lastWriteOk := true
    currentSize := s.currentSize + nwritten
    aofBuf := []
    lastFsync :=
      if call.noFsync then s.lastFsync
      else if s.fsync = .always ∨ s.fsync = .everysec
        ∧ call.unixtime > s.lastFsync then call.unixtime
      else s.lastFsync }

/-- The write and what follows it. The buffer is compared as a `signed`. -/
def writeBuffer : Option Writer :=
  let nwritten := s.written call
  let s' := { s with file := s.file ++ s.aofBuf.take nwritten.toNat, postponedStart := 0 }
  if nwritten ≠ int32 s.aofBuf.length then s'.writeFailed call nwritten
  else some (s'.writeSucceeded call nwritten)

def flushAppendOnlyFile : Option Writer :=
  if s.aofBuf.length = 0 then some s
  else if s.fsync = .everysec ∧ call.force = false ∧ call.fsyncPending = true then
    if s.postponedStart = 0 then some { s with postponedStart := call.unixtime }
    else if call.unixtime - s.postponedStart < 2 then some s
    else { s with delayedFsync := s.delayedFsync + 1 }.writeBuffer call
  else s.writeBuffer call

def feedAppendOnlyFile (buf : List UInt8) : Writer :=
  if s.state = .on then { s with aofBuf := sdscatlen s.aofBuf buf } else s

/-- The end of `stopAppendOnly`, behind its flush. -/
def closeFile : Writer :=
  { s with hasFd := false, fdOpen := false, state := .off, child := false }

/-- `stopAppendOnly`, when `CONFIG SET appendonly no` finds the file in use. -/
def stopAppendOnly : Option Writer :=
  if s.state = .off then some s
  else (s.flushAppendOnlyFile { call with force := true }).map closeFile

/-- `startAppendOnly`, when `CONFIG SET appendonly yes` finds that the file is not in use: the file
is opened, and a child is forked unless there is one. Without a child the Windows build, which is
followed here, resets `aof_fd`.
-/
def startAppendOnly (unixtime : Int) (opens forks : Bool) : Writer :=
  if s.state ≠ .off then s
  else if opens = false then { s with lastFsync := unixtime, hasFd := false, fdOpen := false }
  else if s.child ∨ forks = false then
    { s with lastFsync := unixtime, hasFd := false, fdOpen := false }
  else
    { s with
      lastFsync := unixtime, hasFd := true, fdOpen := true, child := true, state := .waitRewrite }

def rewriteAppendOnlyFileBackground (forks : Bool) : Writer :=
  if s.child then s else { s with child := forks }

inductive RewriteResult where
  /-- The child failed, or the switch did, which may have closed the file. -/
  | failed (closed : Bool)
  /-- The file of the child is in place; its length may not be found out. -/
  | switched (content : List UInt8) (sized : Bool)
deriving DecidableEq, Repr

/-- The end of `backgroundRewriteDoneHandler`. -/
def cleanup : Writer :=
  { s with child := false, rewriteScheduled := s.rewriteScheduled || s.state = .waitRewrite }

/-- The new file takes the place of the old one. -/
def switchFile (content : List UInt8) (sized : Bool) : Writer :=
  let s :=
    if s.hasFd then
      { s with
        file := content
        fdOpen := true
        currentSize := if sized then content.length else s.currentSize
        aofBuf := [] }
    else { s with file := content }
  { s with state := if s.state = .waitRewrite then .on else s.state }

/-- `backgroundRewriteDoneHandler`, when there is a child. -/
def backgroundRewriteDoneHandler (result : RewriteResult) : Writer :=
  if s.child = false then s
  else
    match result with
    | .failed closed => { s with fdOpen := s.fdOpen && !closed }.cleanup
    | .switched content sized => (s.switchFile content sized).cleanup

end Writer

-- Runs

inductive Action where
  | append (buf : List UInt8)
  | flush (call : FlushCall)

def Writer.act (s : Writer) : Action → Option Writer
  | .append buf => some (s.feedAppendOnlyFile buf)
  | .flush call => s.flushAppendOnlyFile call

inductive Event where
  | act (action : Action)
  | fork (forks : Bool)
  | rewriteDone (result : Writer.RewriteResult)
  | disable (call : FlushCall)
  | enable (unixtime : Int) (opens forks : Bool)

def Writer.step (s : Writer) : Event → Option Writer
  | .act action => s.act action
  | .fork forks => some (s.rewriteAppendOnlyFileBackground forks)
  | .rewriteDone result => some (s.backgroundRewriteDoneHandler result)
  | .disable call => s.stopAppendOnly call
  | .enable unixtime opens forks => some (s.startAppendOnly unixtime opens forks)

/-- A run. There is no state once the process has exited. -/
def Writer.run (s : Writer) (events : List Event) : Option Writer := events.foldlM Writer.step s

def startWriter (state : AofState) (fsync : FsyncPolicy) (file : List UInt8) (unixtime : Int)
    : Writer where
  state := state
  fsync := fsync
  hasFd := state ≠ .off
  fdOpen := state ≠ .off
  file := file
  aofBuf := []
  currentSize := file.length
  lastWriteOk := true
  lastWriteErrno := 0
  lastErrorLog := 0
  postponedStart := 0
  delayedFsync := 0
  lastFsync := unixtime
  child := false
  rewriteScheduled := false

end Redis.AofWrites
