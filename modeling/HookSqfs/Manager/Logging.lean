import HookSqfs.Manager.Backing
import Mathlib.Tactic.Simps.Basic

/-! `logging.c`: the filter, the message buffer and the write loop. The log descriptor
has been opened by then: the constructor logs a line before it installs the hooks. -/
namespace HookSqfs.Manager
open Interaction

def comma : Byte := 0x2c

def isBlank (c : Byte) : Bool := c = 0x20 || c = 0x09

/-- The loop that takes blanks off the end of a token, from `tokenLen` down. -/
def trimEnd (start : CString) : Nat → Nat
  | 0 => 0
  | n + 1 => if (start[n]?.map isBlank).getD false then trimEnd start n else n + 1

/-- The three comparisons of one token. -/
def tokenMatches (funcName : Option CString) (token : CString) : Bool :=
  token = ascii "ALL" ||
  match funcName with
  | none => false
  | some name =>
    (name ≠ [] && token = name) ||
    ((ascii "sqfs_").isPrefixOf name && token = name.drop 5)

/-- What follows the token that starts at `start`, past its comma. -/
def afterToken (start : CString) : CString := (start.dropWhile (· ≠ comma)).drop 1

/-- The outer loop of `log_enabled`. -/
def logEnabledLoop (funcName : Option CString) : CString → Bool
  | [] => false
  | c :: p =>
    let start := (c :: p).dropWhile isBlank
    let token := start.take (trimEnd start (start.takeWhile (· ≠ comma)).length)
    if tokenMatches funcName token then true else logEnabledLoop funcName (afterToken start)
termination_by p => p.length
decreasing_by
  have h1 := (List.dropWhile_suffix isBlank (l := c :: p)).length_le
  have h2 := (List.dropWhile_suffix (· ≠ comma) (l := (c :: p).dropWhile isBlank)).length_le
  rw [afterToken, List.length_drop]
  simp only [List.length_cons] at h1 h2 ⊢
  omega

def logEnabledIn (value : Option CString) (funcName : Option CString) : Bool :=
  match value with
  | none => false
  | some value => logEnabledLoop funcName value

def logEnabled (funcName : Option CString) : Hook Bool := do
  let value ← getenv .hooksqfsLogInclude
  return logEnabledIn value funcName

/-- The loop of `log_write`: first the results given, then full writes. -/
def logWriteLoop : List WriteResult → CString → Hook Unit
  | _, [] => return ()
  | [], bytes => ask (.logged bytes)
  | .error e :: results, bytes => do
    setErrno e
    if e = Errno.EINTR then logWriteLoop results bytes else return ()
  | .ok 0 :: _, _ => return ()
  | .ok (n + 1) :: results, bytes => do
    ask (.logged (bytes.take (n + 1)))
    logWriteLoop results (bytes.drop (n + 1))

def logWrite (bytes : CString) : Hook Unit := do
  let fd : Int ← ask .logOutputFd
  if fd < 0 then return () else
    let results : List WriteResult ← ask .writeResults
    logWriteLoop results bytes

/-- `sizeof(buf)`. -/
def logBufSize : Nat := 1024

/-- `buf` after `snprintf` of `text`: what fits, and its terminator. -/
def logBuf (text : CString) : CString := text.take (logBufSize - 1) ++ [0]

/-- The bytes handed to `log_write` for a message after `leading`. The lengths are of type `int`:
no caller formats as much as 2^31 bytes. -/
def logBytes (leading message : CString) : CString :=
  (logBuf (leading ++ message)).take (min (leading.length + message.length) logBufSize)

def logLeading (funcName : Option CString) : CString :=
  match funcName with
  | none | some [] => []
  | some name => ascii "[hooklog] " ++ name ++ ascii ": "

def logHook (funcName : Option CString) : Hook Unit := do
  if ← logEnabled funcName then
    if (logLeading funcName).length ≥ logBufSize then return () else
      let message : CString ← ask .vsnprintf
      if message = [] then return () else logWrite (logBytes (logLeading funcName) message)
  else return ()

def logMsg : Hook Unit := do
  let message : CString ← ask .vsnprintf
  if message = [] then return () else logWrite (logBytes [] message)

/-- The bytes delivered by the write loop and the errno it leaves. -/
def writeEffect : List WriteResult → CString → Errno → CString × Errno
  | _, [], e => ([], e)
  | [], bytes, e => (bytes, e)
  | .error e :: results, bytes, _ =>
    if e = Errno.EINTR then writeEffect results bytes e else ([], e)
  | .ok 0 :: _, _, e => ([], e)
  | .ok (n + 1) :: results, bytes, e =>
    let out := writeEffect results (bytes.drop (n + 1)) e
    (bytes.take (n + 1) ++ out.1, out.2)

namespace World

/-- The state after bytes are written to the log. -/
def written (w : World) (out : CString × Errno) (n : Nat) : World :=
  { w with errno := out.2, logWrites := n, log := w.log ++ out.1 }

/-- Whether a message reaches the write system call. -/
def Writes (w : World) (o : Oracle) : Prop :=
  o.text w.logWrites ≠ [] ∧ ¬ w.env.logOutputFd < 0

instance (w : World) (o : Oracle) : Decidable (w.Writes o) := inferInstanceAs (Decidable (_ ∧ _))

/-- The bytes a logged line delivers, and the errno it leaves. -/
def lineEffect (w : World) (o : Oracle) (enabled : Bool) (leading : CString) : CString × Errno :=
  if enabled ∧ w.Writes o then
    writeEffect (o.writes w.logWrites) (logBytes leading (o.text w.logWrites)) w.errno
  else ([], w.errno)

/-- The state after a line is logged. -/
@[simps! env depth mgr fdMap dirMap fds streams tmpFiles tmpDirs used caller owner insertedBy
  ledger]
def logLine (w : World) (o : Oracle) (enabled : Bool) (leading : CString) : World :=
  w.written (w.lineEffect o enabled leading)
    (if enabled ∧ w.Writes o then w.logWrites + 1 else w.logWrites)

/-- Whether `log_hook` gets as far as formatting the message. -/
def logs (w : World) (funcName : Option CString) : Bool :=
  logEnabledIn w.env.hooksqfsLogInclude funcName && (logLeading funcName).length < logBufSize

/-- The state after `log_hook`. -/
@[simps! env depth mgr fdMap dirMap fds streams tmpFiles tmpDirs used caller owner insertedBy
  ledger]
def logHook (w : World) (o : Oracle) (funcName : Option CString) : World :=
  w.logLine o (w.logs funcName) (logLeading funcName)

/-- The errno that `log_hook` leaves where the caller had set `e`. -/
def loggedErrno (w : World) (o : Oracle) (funcName : Option CString) (e : Errno) : Errno :=
  ((w.withErrno e).lineEffect o (w.logs funcName) (logLeading funcName)).2

@[simp] theorem logHook_errno (w : World) (o : Oracle) (funcName : Option CString) :
    (w.logHook o funcName).errno = w.loggedErrno o funcName w.errno := rfl

theorem loggedErrno_congr {w w' : World} (o : Oracle) (funcName : Option CString) (e : Errno)
    (he : w'.env = w.env) (hn : w'.logWrites = w.logWrites) :
    w'.loggedErrno o funcName e = w.loggedErrno o funcName e := by
  simp only [loggedErrno, lineEffect, Writes, logs, withErrno_env, withErrno_logWrites,
    withErrno_errno, he, hn]

theorem written_same (w : World) : w.written ([], w.errno) w.logWrites = w := by
  rw [written, List.append_nil]

theorem logLine_of_not {w : World} {o : Oracle} {enabled : Bool} (leading : CString)
    (h : ¬ (enabled ∧ w.Writes o)) : w.logLine o enabled leading = w := by
  rw [logLine, lineEffect, if_neg h, if_neg h, written_same]

end World

private theorem run_logWriteLoop (o : Oracle) (results : List WriteResult) (bytes : CString)
    (w : World) :
    runAlone o (logWriteLoop results bytes) w =
      some ((), w.written (writeEffect results bytes w.errno) w.logWrites) := by
  induction results generalizing bytes w with
  | nil =>
    cases bytes with
    | nil => exact congrArg (fun u => some ((), u)) w.written_same.symm
    | cons c bytes => rfl
  | cons r results ih =>
    cases bytes with
    | nil => exact congrArg (fun u => some ((), u)) w.written_same.symm
    | cons c bytes =>
      cases r with
      | error e =>
        simp only [logWriteLoop, writeEffect, Program.ask_bind, runAlone_setErrno, runAlone_ite,
          Program.pure_eq, runAlone_ret]
        split
        · exact ih (c :: bytes) (w.withErrno e)
        · simp only [World.withErrno, World.written, List.append_nil]
      | ok n =>
        cases n with
        | zero => exact congrArg (fun u => some ((), u)) w.written_same.symm
        | succ n =>
          have hrest := ih ((c :: bytes).drop (n + 1))
            { w with log := w.log ++ (c :: bytes).take (n + 1) }
          simp only [logWriteLoop, Program.ask_bind, runAlone_logged]
          refine hrest.trans ?_
          simp only [World.written, writeEffect, List.append_assoc]

private theorem run_logWrite (o : Oracle) (bytes : CString) (w : World) :
    runAlone o (logWrite bytes) w =
      some ((), if w.env.logOutputFd < 0 then w
        else w.written (writeEffect (o.writes w.logWrites) bytes w.errno) (w.logWrites + 1)) := by
  simp only [logWrite, Program.ask_bind, runAlone_logOutputFd, runAlone_writeResults,
    runAlone_ite, run_logWriteLoop, Program.pure_eq, runAlone_ret]
  split <;> rfl

/-- The formatting and the write that `log_hook` and `log_msg` share. -/
private theorem run_message (o : Oracle) (leading : CString) (w : World) :
    (if o.text w.logWrites = [] then some ((), w)
      else runAlone o (logWrite (logBytes leading (o.text w.logWrites))) w) =
    some ((), w.logLine o true leading) := by
  rw [run_logWrite]
  by_cases hm : o.text w.logWrites = []
  · rw [if_pos hm, World.logLine_of_not _ (fun h => h.2.1 hm)]
  · rw [if_neg hm]
    by_cases hfd : w.env.logOutputFd < 0
    · rw [if_pos hfd, World.logLine_of_not _ (fun h => h.2.2 hfd)]
    · have hw : true = true ∧ w.Writes o := ⟨rfl, hm, hfd⟩
      rw [if_neg hfd, World.logLine, World.lineEffect, if_pos hw, if_pos hw]

@[simp] theorem run_logEnabled (o : Oracle) (funcName : Option CString) (w : World) :
    runAlone o (logEnabled funcName) w =
      some (logEnabledIn w.env.hooksqfsLogInclude funcName, w) := rfl

@[simp] theorem run_logMsg (o : Oracle) (w : World) :
    runAlone o logMsg w = some ((), w.logLine o true []) := by
  rw [← run_message, logMsg]
  simp only [Program.ask_bind, runAlone_vsnprintf, runAlone_ite, Program.pure_eq, runAlone_ret]

@[simp] theorem run_logHook (o : Oracle) (funcName : Option CString) (w : World) :
    runAlone o (logHook funcName) w = some ((), w.logHook o funcName) := by
  rw [logHook, runAlone_bind, run_logEnabled, Option.bind_some, World.logHook, World.logs]
  simp only [Program.ask_bind, runAlone_ite, runAlone_vsnprintf, Program.pure_eq,
    runAlone_ret, run_message]
  by_cases hen : logEnabledIn w.env.hooksqfsLogInclude funcName = true
  · by_cases hl : (logLeading funcName).length < logBufSize
    · simp [hen, hl]
    · simp [hen, hl, World.logLine_of_not]
  · simp [hen, World.logLine_of_not]

end HookSqfs.Manager
