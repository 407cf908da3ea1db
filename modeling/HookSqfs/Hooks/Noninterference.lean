import HookSqfs.Hooks.DirStreams
import HookSqfs.Hooks.FileSize
import HookSqfs.Hooks.LogTwins
import HookSqfs.Hooks.OpenOutcomes
import HookSqfs.Manager.LogFilter
import HookSqfs.Manager.LogText

/-! What of the log a caller can see: the errno of a failure, where a line is written
after it was set. -/
namespace HookSqfs.Hooks
open Manager Interaction Tables
variable {b : Bits} {o : Oracle}

/-- Two runs show their caller the same. -/
def Agree (r₁ r₂ : Option (HookedResult × World)) : Prop :=
  r₁ = none ∧ r₂ = none ∨
    ∃ r v₁ v₂, r₁ = some (r, v₁) ∧ r₂ = some (r, v₂) ∧ v₂.fdMap = v₁.fdMap ∧
      v₂.dirMap = v₁.dirMap ∧ (r.failed = true → v₂.errno = v₁.errno)

/-- The run of a call with a value of `HOOKSQFS_LOG_INCLUDE` and results of the log's writes. -/
abbrev HookedCall.loggedRun (call : HookedCall b) (o : Oracle) (w : World)
    (hooksqfsLogInclude : Option CString) (writes : Nat → List WriteResult) :
    Option (HookedResult × World) :=
  runAlone (o.logging writes) call.program (w.including hooksqfsLogInclude)

/-- Nothing of the log shows in the call. -/
def HookedCall.Noninterfering (call : HookedCall b) (o : Oracle) (w : World) : Prop :=
  ∀ include₁ writes₁ include₂ writes₂,
    Agree (call.loggedRun o w include₁ writes₁) (call.loggedRun o w include₂ writes₂)

/-- A failure, or the end of a stream, whose errno is settled before a line is logged. -/
def HookedCall.LoggedOver (o : Oracle) (w : World) : HookedCall b → Prop
  | .fd (.open pathname flags mode) =>
    ∃ real inode, w.outcome o (openCall pathname flags mode) = .error real ∧
      lowerOpen o w pathname real = .ok inode ∧ ¬ OpenRoom o w flags
  | .fd (.lseek key offset whence) =>
    ∃ entry e, lookup FDMapEntry.key key w.fdMap = some entry ∧
      lseekResult b entry offset whence = .error e
  | .fd (.lseek64 key offset whence) =>
    ∃ entry e, lookup FDMapEntry.key key w.fdMap = some entry ∧
      seekResult entry offset whence 0x7fffffffffffffff = .error e
  | .access pathname mode =>
    w.inside pathname = true ∧ ∃ e,
      orLower (w.outcome o (.access pathname mode)) (lowerAccess o w pathname mode) = .error e
  | .dir (.readdir dirp) =>
    ∃ entry, lookup DirMapEntry.key dirp w.dirMap = some entry ∧
      entry.dirEntryListReachedEnd = true ∧ (entry.isRealDir = true → realEntries w dirp = [])
  | _ => False

section
variable (w : World) (hooksqfsLogInclude : Option CString) (writes : Nat → List WriteResult)

private theorem tmpFdAnswer_relogged (flags : BitVec 32) (i k : Nat) :
    tmpFdAnswer (o.logging writes) (w.including hooksqfsLogInclude) flags i k =
      tmpFdAnswer o w flags i k := by
  induction i generalizing k with
  | zero => rfl
  | succ i ih =>
    rw [tmpFdAnswer, tmpFdAnswer, ih]
    rfl

private theorem openRoom_relogged (flags : BitVec 32) :
    OpenRoom (o.logging writes) (w.including hooksqfsLogInclude) flags ↔ OpenRoom o w flags := by
  have hanswer : backingFdAnswer (o.logging writes) (w.including hooksqfsLogInclude) flags =
      backingFdAnswer o w flags := by
    rw [backingFdAnswer, backingFdAnswer, tmpFdAnswer_relogged]
    rfl
  rw [OpenRoom, OpenRoom, hanswer]
  rfl

/-- The log plays no part in it. -/
private theorem loggedOver_relogged (call : HookedCall b) :
    call.LoggedOver (o.logging writes) (w.including hooksqfsLogInclude) ↔ call.LoggedOver o w := by
  cases call with
  | fd call =>
    cases call with
    | «open» pathname flags mode =>
      apply exists_congr
      intro real
      apply exists_congr
      intro inode
      exact and_congr Iff.rfl
        (and_congr Iff.rfl (not_congr (openRoom_relogged w hooksqfsLogInclude writes flags)))
    | _ => exact Iff.rfl
  | dir call => cases call <;> exact Iff.rfl
  | _ => exact Iff.rfl

end

/-- The value `ALL` turns every hook on. -/
private theorem logEnabledIn_all (funcName : Option CString) :
    logEnabledIn (some (ascii "ALL")) funcName = true := by
  have htoken : tokenAt (ascii "ALL") = ascii "ALL" := by decide +kernel
  rw [logEnabledIn, logEnabledLoop_cons _ (by decide), htoken, tokenMatches.eq_def,
    decide_eq_true rfl, Bool.true_or, Bool.true_or]

private theorem logBytes_ne_nil (leading : CString) {message : CString} (h : message ≠ []) :
    logBytes leading message ≠ [] := by
  rcases Nat.lt_or_ge (leading ++ message).length logBufSize with hlt | hge
  · rw [logBytes_of_lt hlt]
    exact List.append_ne_nil_of_right_ne_nil _ h
  · rw [logBytes_of_le hge]
    exact List.append_ne_nil_of_right_ne_nil _ (List.cons_ne_nil _ _)

/-- A failed write leaves its errno. -/
private theorem lineEffect_failed {w : World} {leading : CString} {x : Errno} (hw : w.Writes o)
    (hwrites : o.writes w.logWrites = [.error x]) (hx : x ≠ Errno.EINTR) :
    (w.lineEffect o true leading).2 = x := by
  rw [World.lineEffect, if_pos ⟨rfl, hw⟩, hwrites]
  cases hbytes : logBytes leading (o.text w.logWrites) with
  | nil => exact absurd hbytes (logBytes_ne_nil leading hw.1)
  | cons c bytes =>
    have heffect : writeEffect [.error x] (c :: bytes) w.errno =
        if x = Errno.EINTR then writeEffect [] (c :: bytes) x else ([], x) := rfl
    rw [heffect, if_neg hx]

/-- The run is a failure, and the last that happens to its errno is a line of the log. -/
def EndsWithLine (o : Oracle) (w : World) (run : Option (HookedResult × World)) : Prop :=
  ∃ (r : HookedResult) (v u : World) (func leading : CString), run = some (r, v) ∧
    r.failed = true ∧ u.env = w.env ∧ u.logWrites = w.logWrites ∧
    v.errno = (u.lineEffect o (logEnabledIn w.env.hooksqfsLogInclude (some func)) leading).2

/-- With everything logged and the write failing, the errno is the one of the write. -/
private theorem EndsWithLine.errno_of_failed {w : World} {run : Option (HookedResult × World)}
    (h : EndsWithLine o w run) {x : Errno} (hw : w.Writes o)
    (hinclude : w.env.hooksqfsLogInclude = some (ascii "ALL"))
    (hwrites : o.writes w.logWrites = [.error x]) (hx : x ≠ Errno.EINTR) :
    ∃ r v, run = some (r, v) ∧ r.failed = true ∧ v.errno = x := by
  obtain ⟨r, v, u, func, leading, hrun, hfail, henv, hcount, herrno⟩ := h
  have hu : u.Writes o := by
    rw [World.Writes, henv, hcount]
    exact hw
  refine ⟨r, v, hrun, hfail, ?_⟩
  rw [herrno, hinclude, logEnabledIn_all]
  exact lineEffect_failed hu (by rw [hcount]; exact hwrites) hx

private theorem logs_of_short {w : World} {func : CString}
    (h : (logLeading (some func)).length < logBufSize) :
    w.logs (some func) = logEnabledIn w.env.hooksqfsLogInclude (some func) := by
  rw [World.logs, decide_eq_true h, Bool.and_true]

/-- A failure behind which `log_hook` comes last. -/
private theorem endsWithLine_hook {w u v : World} {func : CString} {r : HookedResult}
    {run : Option (HookedResult × World)} (hshort : (logLeading (some func)).length < logBufSize)
    (hrun : run = some (r, v)) (hfail : r.failed = true) (henv : u.env = w.env)
    (hcount : u.logWrites = w.logWrites)
    (herrno : v.errno = (u.logHook o (some func)).errno) : EndsWithLine o w run := by
  refine ⟨r, v, u, func, logLeading (some func), hrun, hfail, henv, hcount, herrno.trans ?_⟩
  have hlogs := logs_of_short (w := u) hshort
  rw [← henv, ← hlogs]
  rfl

/-- The call runs the hook `p` and makes `f` of what it returns. -/
private def Wraps {α : Type} (call : HookedCall b) (p : Hook α) (f : α → HookedResult) : Prop :=
  call.program = p >>= fun a => Program.ret (f a)

private theorem Wraps.run {α : Type} {call : HookedCall b} {p : Hook α} {f : α → HookedResult}
    (h : Wraps call p f) {w v : World} {a : α} (hrun : runAlone o p w = some (a, v)) :
    runAlone o call.program w = some (f a, v) := by
  rw [h, runAlone_bind, hrun]
  rfl

private theorem open_wraps (pathname : Option CString) (flags mode : BitVec 32) :
    Wraps (HookedCall.fd (.open pathname flags mode) : HookedCall b)
      (sqfsOpen pathname flags mode) fun fd => .fd { ret := fd } :=
  Program.bind_assoc' _ _ _

private theorem lseek_wraps (fd : Int) (offset : BitVec b.width) (whence : Int) :
    Wraps (HookedCall.fd (.lseek fd offset whence)) (sqfsLseek b fd offset whence)
      fun ret => .fd { ret } :=
  Program.bind_assoc' _ _ _

private theorem lseek64_wraps (fd : Int) (offset : BitVec 64) (whence : Int) :
    Wraps (HookedCall.fd (.lseek64 fd offset whence) : HookedCall b)
      (sqfsLseek64 fd offset whence) fun ret => .fd { ret } :=
  Program.bind_assoc' _ _ _

private theorem access_wraps (pathname : Option CString) (mode : BitVec 32) :
    Wraps (HookedCall.access pathname mode : HookedCall b) (sqfsAccess b pathname mode) .access :=
  rfl

private theorem readdir_wraps (dirp : Nat) :
    Wraps (HookedCall.dir (.readdir dirp) : HookedCall b) (sqfsReaddir dirp)
      fun entry => .dir (.dirent entry) :=
  Program.bind_assoc' _ _ _

/-- A refused seek sets its errno and logs the line. -/
private theorem seek_endsWithLine {call : HookedCall b} {p : Hook Int}
    (hwraps : Wraps call p fun ret => .fd { ret }) {func : CString}
    (hshort : (logLeading (some func)).length < logBufSize) {w v : World}
    {result : Except Errno (BitVec 64)} {e : Errno}
    (hrun : runAlone o p w = some (seekReturn result, v)) (hresult : result = .error e)
    (herr : v.errno = w.loggedErrno o (some func) e) :
    EndsWithLine o w (runAlone o call.program w) := by
  rw [hresult] at hrun
  exact endsWithLine_hook (u := w.withErrno e) hshort (hwraps.run hrun) rfl rfl rfl herr

private theorem lseek_endsWithLine {w : World} {fd : Int} {offset : BitVec b.width} {whence : Int}
    (h : (HookedCall.fd (.lseek fd offset whence)).LoggedOver o w) :
    EndsWithLine o w (runAlone o (HookedCall.fd (.lseek fd offset whence)).program w) := by
  obtain ⟨entry, e, hmapped, hseek⟩ := h
  obtain ⟨v, hrun, -, herr⟩ := run_sqfsLseek o b hmapped offset whence
  exact seek_endsWithLine (lseek_wraps fd offset whence) (by decide) hrun hseek (herr e hseek)

private theorem lseek64_endsWithLine {w : World} {fd : Int} {offset : BitVec 64} {whence : Int}
    (h : (HookedCall.fd (.lseek64 fd offset whence) : HookedCall b).LoggedOver o w) :
    EndsWithLine o w
      (runAlone o (HookedCall.fd (.lseek64 fd offset whence) : HookedCall b).program w) := by
  obtain ⟨entry, e, hmapped, hseek⟩ := h
  obtain ⟨v, hrun, -, herr⟩ := run_sqfsLseek64 o hmapped offset whence
  exact seek_endsWithLine (lseek64_wraps fd offset whence) (by decide) hrun hseek (herr e hseek)

private theorem access_endsWithLine {w : World} {pathname : Option CString} {mode : BitVec 32}
    (h : (HookedCall.access pathname mode : HookedCall b).LoggedOver o w) :
    EndsWithLine o w (runAlone o (HookedCall.access pathname mode : HookedCall b).program w) := by
  obtain ⟨hinside, e, he⟩ := h
  obtain ⟨v, hrun, herr, -⟩ := run_sqfsAccess b o w pathname mode
  rw [he] at hrun
  have herrno := herr e he
  rw [refusedErrno, if_pos hinside] at herrno
  exact endsWithLine_hook (u := w.withErrno e) (by decide) ((access_wraps pathname mode).run hrun)
    rfl rfl rfl herrno

/-- The locked part of an open, then the line. -/
private theorem run_openFound_line (flags : BitVec 32) (inode : InodePtr) (w : World) :
    ∃ (r : Int) (u : World), runAlone o (openFound flags inode) w =
        some (r, u.logHook o (some (ascii "sqfs_open"))) ∧ u.env = w.env ∧
      u.logWrites = w.logWrites ∧ (r = -1 ↔ ¬ OpenRoom o w flags) := by
  obtain ⟨r, v, hrun, hends, hroom⟩ := run_openInsert o flags inode w
  have henv : v.env = w.env := by
    rcases hends with ⟨-, hfailed⟩ | ⟨n, addr, -, hserved⟩
    · exact hfailed.env
    · exact hserved.env
  have hkeeps : ∀ u e, forOpen e = true → (World.handle o u e).2.logWrites = u.logWrites :=
    fun u _ he => handle_logWrites o u (forOpen.plain he)
  have hcount : v.logWrites = w.logWrites := (openInsert_all flags inode).run_keeps hkeeps hrun
  refine ⟨r, v.unlocked, ?_, henv, hcount, hroom⟩
  rw [openFound, runAlone_bind, hrun]
  simp [runAlone_bind]

/-- An open of an inode that was found has its line last. -/
private theorem run_sqfsOpen_line {w : World} {pathname : Option CString} {flags mode : BitVec 32}
    {real : Errno} {inode : InodePtr}
    (hreal : w.outcome o (openCall pathname flags mode) = .error real)
    (hfound : lowerOpen o w pathname real = .ok inode) :
    ∃ (r : Int) (u : World), runAlone o (sqfsOpen pathname flags mode) w =
        some (r, u.logHook o (some (ascii "sqfs_open"))) ∧ u.env = w.env ∧
      u.logWrites = w.logWrites := by
  have hw1 := Undisturbed.failedCall o w (openCall pathname flags mode) (.error real) rfl
  have hcount1 : (w.afterCall o (openCall pathname flags mode) (.error real)).logWrites =
    w.logWrites := World.afterCall_logWrites w o _ _
  have hlookup : (w.routed pathname).1 = 0 ∧ w.lookup o 0 (w.routed pathname).2 = .ok inode := by
    unfold lowerOpen at hfound
    split at hfound
    · cases hfound
    · rename_i hrouted
      exact ⟨not_not.mp hrouted, hfound⟩
  rw [sqfsOpen, Program.ask_bind, runAlone_call, hreal]
  dsimp only
  have hrouted := World.routed_congr hw1.env pathname
  have hsame : (w.afterCall o (openCall pathname flags mode) (.error real)).lookup o 0
      (w.routed pathname).2 = w.lookup o 0 (w.routed pathname).2 := rfl
  generalize w.afterCall o (openCall pathname flags mode) (.error real) = w1 at *
  obtain ⟨v, hrun, -, hv, -⟩ := run_sqfsFindInode o (w1.routed pathname).2 w1.locked
  rw [World.lookup_locked, hrouted, hsame, hlookup.2] at hrun
  have hq := (Quiet.locked w1).trans hv
  obtain ⟨r, u, hrun', henv, hcount, -⟩ := run_openFound_line (o := o) flags inode v
  refine ⟨r, u, ?_, henv.trans (hq.env.trans hw1.env), hcount.trans (hq.logWrites.trans hcount1)⟩
  rw [openLower, Program.ask_bind, runAlone_getErrno, runAlone_bind, run_sqfsCheckPath,
    Option.bind_some, hrouted, if_neg (not_not.mpr hlookup.1), Program.ask_bind, runAlone_lock,
    runAlone_bind, hrun]
  exact hrun'

private theorem open_endsWithLine {w : World} {pathname : Option CString} {flags mode : BitVec 32}
    (h : (HookedCall.fd (.open pathname flags mode) : HookedCall b).LoggedOver o w) :
    EndsWithLine o w
      (runAlone o (HookedCall.fd (.open pathname flags mode) : HookedCall b).program w) := by
  obtain ⟨real, inode, hreal, hfound, hroom⟩ := h
  obtain ⟨r, u, hrun, henv, hcount⟩ := run_sqfsOpen_line hreal hfound
  obtain ⟨r', v, hrun', -, hiff⟩ := ((run_sqfsOpen o w pathname flags mode).2 real hreal).2 inode
    hfound
  have hr : r = -1 := by
    rw [hrun] at hrun'
    cases hrun'
    exact hiff.mpr hroom
  have hfail : (HookedResult.fd { ret := r }).failed = true := by
    rw [hr]
    rfl
  exact endsWithLine_hook (by decide) ((open_wraps pathname flags mode).run hrun) hfail henv hcount
    rfl

/-- The state in which a mapped stream without real entries left turns to its list. -/
private def turned (o : Oracle) (w : World) (dirp : Nat) (entry : DirMapEntry) : World :=
  if entry.isRealDir then w.locked.afterCall o (.readdir dirp) none else w.locked

/-- The real call, where there is one, gives nothing, and the list follows. -/
private theorem run_sqfsReaddir_turned {w : World} {dirp : Nat} {entry : DirMapEntry}
    (hentry : lookup DirMapEntry.key dirp w.dirMap = some entry)
    (hreal : entry.isRealDir = true → realEntries w dirp = []) :
    runAlone o (sqfsReaddir dirp) w = runAlone o (readdirLower
      (logEnabledIn w.env.hooksqfsLogInclude (some (ascii "sqfs_readdir"))) dirp)
      (turned o w dirp entry) := by
  rw [sqfsReaddir_eq, runAlone_bind, run_logEnabled, Option.bind_some, readdirLocked]
  simp only [Program.ask_bind, runAlone_lock, runAlone_dirMapFind, runAlone_dirMapEntry,
    World.locked_dirMap, hentry, Option.isSome_some, if_true, Option.getD_some]
  by_cases hr : entry.isRealDir = true
  · have hout : w.locked.outcome o (.readdir dirp) = none := by
      have hhead := (afterReaddir o w.locked dirp).1
      rw [hhead]
      exact congrArg List.head? (hreal hr)
    rw [turned, if_pos hr, if_pos hr, runAlone_call, hout]
  · rw [turned, if_neg hr, if_neg hr]

private theorem turned_kept (w : World) (dirp : Nat) (entry : DirMapEntry) :
    (turned o w dirp entry).dirMap = w.dirMap ∧ (turned o w dirp entry).env = w.env ∧
      (turned o w dirp entry).logWrites = w.logWrites := by
  rw [turned]
  split
  · exact ⟨World.afterCall_dirMap _ o _ _, World.afterCall_env _ o _ _,
      World.afterCall_logWrites _ o _ _⟩
  · exact ⟨rfl, rfl, rfl⟩

/-- The end of a stream that has been reached before is logged. -/
private theorem readdir_endsWithLine {w : World} {dirp : Nat}
    (h : (HookedCall.dir (.readdir dirp) : HookedCall b).LoggedOver o w) :
    EndsWithLine o w (runAlone o (HookedCall.dir (.readdir dirp) : HookedCall b).program w) := by
  obtain ⟨entry, hentry, hend, hreal⟩ := h
  obtain ⟨hmap, henv, hcount⟩ := turned_kept (o := o) w dirp entry
  have hrun : runAlone o (sqfsReaddir dirp) w = some (none, ((turned o w dirp entry).logLine o
      (logEnabledIn w.env.hooksqfsLogInclude (some (ascii "sqfs_readdir"))) []).unlocked) := by
    rw [run_sqfsReaddir_turned hentry hreal, readdirLower, Program.ask_bind, runAlone_dirMapEntry,
      hmap, hentry, Option.getD_some, hend]
    dsimp only
    rw [if_pos rfl, runAlone_bind, run_dumpDirent]
    rfl
  exact ⟨_, _, turned o w dirp entry, ascii "sqfs_readdir", [], (readdir_wraps dirp).run hrun, rfl,
    henv, hcount, rfl⟩

private theorem endsWithLine {call : HookedCall b} {w : World} (h : call.LoggedOver o w) :
    EndsWithLine o w (runAlone o call.program w) := by
  cases call with
  | fd call =>
    cases call with
    | «open» pathname flags mode => exact open_endsWithLine h
    | lseek fd offset whence => exact lseek_endsWithLine h
    | lseek64 fd offset whence => exact lseek64_endsWithLine h
    | _ => exact h.elim
  | access pathname mode => exact access_endsWithLine h
  | dir call =>
    cases call with
    | readdir dirp => exact readdir_endsWithLine h
    | _ => exact h.elim
  | xstat ver pathname buf => exact h.elim

/-- An errno that a write may fail with and that the run does not end with. -/
private theorem exists_other_errno (run : Option (HookedResult × World)) :
    ∃ x, x ≠ Errno.EINTR ∧ ∀ r v, run = some (r, v) → v.errno ≠ x := by
  cases run with
  | none =>
    refine ⟨Errno.EBADF, by decide, ?_⟩
    intro r v h
    cases h
  | some out =>
    obtain ⟨r, v⟩ := out
    by_cases he : v.errno = Errno.EBADF
    · refine ⟨Errno.EIO, by decide, ?_⟩
      intro r' v' h
      cases h
      rw [he]
      decide
    · refine ⟨Errno.EBADF, by decide, ?_⟩
      intro r' v' h
      cases h
      exact he

/-- A write that fails shows in the errno of such a call. -/
theorem not_noninterfering {call : HookedCall b} {w : World} (hw : w.Writes o)
    (hover : call.LoggedOver o w) : ¬ call.Noninterfering o w := by
  intro h
  obtain ⟨x, hx, hne⟩ := exists_other_errno (call.loggedRun o w none fun _ => [])
  have hover' := (loggedOver_relogged w (some (ascii "ALL")) (fun _ => [.error x]) call).mpr hover
  have hends : EndsWithLine (o.logging fun _ => [.error x]) (w.including (some (ascii "ALL")))
      (call.loggedRun o w (some (ascii "ALL")) fun _ => [.error x]) := endsWithLine hover'
  have hw' : (w.including (some (ascii "ALL"))).Writes (o.logging fun _ => [.error x]) := hw
  obtain ⟨r, v, hrun, hfail, herrno⟩ := hends.errno_of_failed hw' rfl rfl hx
  rcases h none (fun _ => []) (some (ascii "ALL")) (fun _ => [.error x]) with
    ⟨-, hnone⟩ | ⟨r', v₁, v₂, hrun₁, hrun₂, -, -, hsame⟩
  · rw [hrun] at hnone
    cases hnone
  · rw [hrun] at hrun₂
    cases hrun₂
    exact hne _ _ hrun₁ ((hsame hfail).symm.trans herrno)

/-- The hooks that set errno, or put it back, behind their last line. -/
def HookedCall.settles : HookedCall b → Bool
  | .fd (.open ..) | .fd (.lseek ..) | .fd (.lseek64 ..) | .access .. | .dir (.readdir _) => false
  | _ => true

section
variable {writes₁ writes₂ : Nat → List WriteResult} {quiet : Bool}

private theorem wrapped_twins {α : Type} {p : Hook α} {f : α → HookedResult} {Q : α → Bool → Prop}
    {R : HookedResult → Bool → Prop} (h : Twins o writes₁ writes₂ quiet true p p Q)
    (hR : ∀ a s, Q a s → R (f a) s) :
    Twins o writes₁ writes₂ quiet true (p >>= fun r => Program.ret (f r))
      (p >>= fun r => Program.ret (f r)) R :=
  h.bind fun a s hq => .ret (hR a s hq)

private theorem fdCall_twins (call : FdCall b) :
    Twins o writes₁ writes₂ quiet true call.program call.program fun _ s =>
      (quiet || (HookedCall.fd call).settles) = true → s = true := by
  have hsame {α : Type} {p : Hook α} {f : α → ReadResult} (h : SameErrno o writes₁ writes₂ quiet p) :
      SameErrno o writes₁ writes₂ quiet (p >>= fun r => Program.ret (f r)) :=
    h.bind fun _ _ hs => .ret hs
  have hquiet {α : Type} {p : Hook α} {f : α → ReadResult}
      (h : QuietErrno o writes₁ writes₂ quiet p) :
      Twins o writes₁ writes₂ quiet true (p >>= fun r => Program.ret (f r))
        (p >>= fun r => Program.ret (f r)) fun _ s => (quiet || false) = true → s = true :=
    h.bind fun _ _ hs => .ret fun hq => hs (by rwa [Bool.or_false] at hq)
  cases call with
  | «open» pathname flags mode => exact hquiet (sqfsOpen_quietErrno pathname flags mode)
  | lseek fd offset whence => exact hquiet (sqfsLseek_quietErrno fd offset whence)
  | lseek64 fd offset whence => exact hquiet (sqfsLseek64_quietErrno fd offset whence)
  | close fd => exact (hsame (sqfsClose_sameErrno fd)).mono fun _ _ hs _ => hs
  | closeNocancel fd => exact (hsame (sqfsCloseNocancel_sameErrno fd)).mono fun _ _ hs _ => hs
  | read fd count => exact (sqfsRead_sameErrno fd count).mono fun _ _ hs _ => hs
  | pread fd count offset => exact (sqfsPread_sameErrno fd count offset).mono fun _ _ hs _ => hs
  | pread64 fd count offset => exact (sqfsPread64_sameErrno fd count offset).mono fun _ _ hs _ => hs

private theorem dirCall_twins (call : DirCall) :
    Twins o writes₁ writes₂ quiet true (call.program b) (call.program b) fun r s =>
      (HookedResult.dir r).failed = true →
        (quiet || (HookedCall.dir call : HookedCall b).settles) = true → s = true := by
  cases call with
  | opendir name =>
    apply (sqfsOpendir_streamErrno name).bind
    intro dir s hs
    exact .ret fun hfail _ => hs (of_decide_eq_true hfail)
  | readdir dirp =>
    apply (sqfsReaddir_quietErrno dirp).bind
    intro entry s hs
    exact .ret fun _ hq => hs (by rwa [HookedCall.settles, Bool.or_false] at hq)
  | closedir dir =>
    apply (sqfsClosedir_twins dir).bind
    intro r s hs
    exact .ret fun hfail _ => hs (of_decide_eq_true hfail)

/-- Two runs give the same result; a failure leaves the same errno where the hook settles it
or where nothing is written to the log. -/
private theorem program_twins (call : HookedCall b) :
    Twins o writes₁ writes₂ quiet true call.program call.program fun r s =>
      r.failed = true → (quiet || call.settles) = true → s = true := by
  cases call with
  | fd call => exact wrapped_twins (fdCall_twins call) fun _ _ hs _ => hs
  | xstat ver pathname buf =>
    exact wrapped_twins (sqfsXstat_sameErrno ver pathname buf) fun _ _ hs _ _ => hs
  | access pathname mode =>
    apply wrapped_twins (sqfsAccess_quietErrno pathname mode)
    intro _ _ hs _ hq
    exact hs (by rwa [HookedCall.settles, Bool.or_false] at hq)
  | dir call => exact wrapped_twins (dirCall_twins call) fun _ _ hs => hs

end

/-- Both runs are undefined or give the same result and tables. -/
private theorem agree_but_errno {call : HookedCall b} {w : World} {quiet : Bool}
    (hquiet : quiet = true → ¬ w.Writes o) (include₁ include₂ : Option CString)
    (writes₁ writes₂ : Nat → List WriteResult) :
    call.loggedRun o w include₁ writes₁ = none ∧ call.loggedRun o w include₂ writes₂ = none ∨
      ∃ r v₁ v₂, call.loggedRun o w include₁ writes₁ = some (r, v₁) ∧
        call.loggedRun o w include₂ writes₂ = some (r, v₂) ∧ v₂.fdMap = v₁.fdMap ∧
        v₂.dirMap = v₁.dirMap ∧
        (r.failed = true → (quiet || call.settles) = true → v₂.errno = v₁.errno) := by
  have halike : Alike o quiet true (w.including include₁) (w.including include₂) :=
    ⟨⟨include₂, w.errno, w.logWrites, w.log, rfl⟩, fun _ => rfl, fun hq => ⟨hquiet hq, hquiet hq⟩⟩
  apply (program_twins call (w.including include₁) (w.including include₂) halike).imp id
  rintro ⟨r, v₁, v₂, s, hrun₁, hrun₂, hv, hs⟩
  refine ⟨r, v₁, v₂, hrun₁, hrun₂, ?_, ?_, fun hfail hq => hv.errno (hs hfail hq)⟩
  · obtain ⟨_, _, _, _, rfl⟩ := hv.same
    rfl
  · obtain ⟨_, _, _, _, rfl⟩ := hv.same
    rfl

/-- The errno of a failing run does not depend on the log. -/
def HookedCall.ErrnoSettled (call : HookedCall b) (o : Oracle) (w : World) : Prop :=
  ∃ e, ∀ hooksqfsLogInclude writes r v,
    call.loggedRun o w hooksqfsLogInclude writes = some (r, v) → r.failed = true → v.errno = e

private theorem Wraps.result {α : Type} {call : HookedCall b} {p : Hook α} {f : α → HookedResult}
    (h : Wraps call p f) {w v v' : World} {i : Option CString} {writes : Nat → List WriteResult}
    {a : α} {r : HookedResult}
    (hrun : runAlone (o.logging writes) p (w.including i) = some (a, v'))
    (hcall : call.loggedRun o w i writes = some (r, v)) : r = f a ∧ v = v' := by
  rw [HookedCall.loggedRun, h.run hrun] at hcall
  cases hcall
  exact ⟨rfl, rfl⟩

private theorem fd_failed_iff (r : ReadResult) : (HookedResult.fd r).failed = true ↔ r.ret = -1 :=
  decide_eq_true_iff

private theorem open_errnoSettled {w : World} {pathname : Option CString} {flags mode : BitVec 32}
    (h : ¬ (HookedCall.fd (.open pathname flags mode) : HookedCall b).LoggedOver o w) :
    (HookedCall.fd (.open pathname flags mode) : HookedCall b).ErrnoSettled o w := by
  cases hreal : w.outcome o (openCall pathname flags mode) with
  | ok fd =>
    refine ⟨0, ?_⟩
    intro i writes r v hcall hfail
    have hrun := (run_sqfsOpen (o.logging writes) (w.including i) pathname flags mode).1 fd hreal
    obtain ⟨rfl, -⟩ := (open_wraps pathname flags mode).result hrun hcall
    have hne : (fd : Int) ≠ -1 := by omega
    exact absurd ((fd_failed_iff _).mp hfail) hne
  | error real =>
    have hlogged (i : Option CString) (writes : Nat → List WriteResult) :=
      (run_sqfsOpen (o.logging writes) (w.including i) pathname flags mode).2 real hreal
    cases hlower : lowerOpen o w pathname real with
    | error e =>
      refine ⟨e, ?_⟩
      intro i writes r v hcall hfail
      obtain ⟨v', hrun, herrno, -⟩ := (hlogged i writes).1 e hlower
      obtain ⟨-, rfl⟩ := (open_wraps pathname flags mode).result hrun hcall
      exact herrno
    | ok inode =>
      refine ⟨0, ?_⟩
      intro i writes r v hcall hfail
      obtain ⟨ret, v', hrun, -, hroom⟩ := (hlogged i writes).2 inode hlower
      obtain ⟨rfl, -⟩ := (open_wraps pathname flags mode).result hrun hcall
      have hfull := hroom.mp ((fd_failed_iff _).mp hfail)
      rw [openRoom_relogged] at hfull
      exact absurd ⟨real, inode, hreal, hlower, hfull⟩ h

/-- A program that leaves one errno however it is logged. -/
private theorem errnoSettled_of_fails {call : HookedCall b} {w : World} {α : Type} {p : Hook α}
    {f : α → HookedResult} (hwraps : Wraps call p f) (e : Errno)
    (h : ∀ i writes, ∃ a v, runAlone (o.logging writes) p (w.including i) = some (a, v) ∧
      ((f a).failed = true → v.errno = e)) : call.ErrnoSettled o w := by
  refine ⟨e, ?_⟩
  intro i writes r v hcall hfail
  obtain ⟨a, v', hrun, herrno⟩ := h i writes
  obtain ⟨rfl, rfl⟩ := hwraps.result hrun hcall
  exact herrno hfail

private theorem seekReturn_ok_ne (newOffset : BitVec 64) : seekReturn (.ok newOffset) ≠ -1 := by
  have hnat : seekReturn (.ok newOffset) = (newOffset.toNat : Int) := rfl
  omega

/-- A run that does not concern the log. -/
private theorem errnoSettled_of_plain {call : HookedCall b} {w : World} {q : Hook HookedResult}
    (hq : q.All fun e => e.plain = true ∨ e = .getErrno)
    (hrun : ∀ i writes, call.loggedRun o w i writes = runAlone (o.logging writes) q (w.including i)) :
    call.ErrnoSettled o w := by
  refine ⟨((runAlone (o.logging fun _ => []) q (w.including none)).map (·.2.errno)).getD 0, ?_⟩
  intro i writes r v hcall _
  rw [hrun] at hcall
  have halike : Alike o false true (w.including none) (w.including i) :=
    ⟨⟨i, w.errno, w.logWrites, w.log, rfl⟩, fun _ => rfl, nofun⟩
  have htwins : Twins o (fun _ => []) writes false true q q fun _ s => s = true := Twins.of_plain hq
  rcases htwins _ _ halike with ⟨-, hnone⟩ | ⟨r', v₁, v₂, s, hrun₁, hrun₂, hv, rfl⟩
  · have himpossible := hnone.symm.trans hcall
    cases himpossible
  · have hfirst : runAlone (o.logging fun _ => []) q (w.including none) = some (r', v₁) := hrun₁
    have hsecond := hrun₂.symm.trans hcall
    cases hsecond
    rw [hfirst]
    exact hv.errno rfl

/-- A seek that goes through reports no failure. -/
private theorem seek_errnoSettled {call : HookedCall b} {p : Hook Int}
    (hwraps : Wraps call p fun ret => .fd { ret }) {w : World} {newOffset : BitVec 64}
    (hrun : ∀ i writes, ∃ v, runAlone (o.logging writes) p (w.including i) =
      some (seekReturn (.ok newOffset), v)) : call.ErrnoSettled o w := by
  apply errnoSettled_of_fails hwraps 0
  intro i writes
  obtain ⟨v, hrun⟩ := hrun i writes
  refine ⟨_, v, hrun, ?_⟩
  intro hfail
  exact absurd ((fd_failed_iff _).mp hfail) (seekReturn_ok_ne newOffset)

private theorem lseek_errnoSettled {w : World} {fd : Int} {offset : BitVec b.width} {whence : Int}
    (h : ¬ (HookedCall.fd (.lseek fd offset whence)).LoggedOver o w) :
    (HookedCall.fd (.lseek fd offset whence)).ErrnoSettled o w := by
  cases hentry : lookup FDMapEntry.key fd w.fdMap with
  | none =>
    apply errnoSettled_of_plain (q := .request (.call (.lseek fd offset.toInt whence))
      fun ret => .ret (.fd { ret := realSeek ret })) ⟨.inl rfl, fun _ => trivial⟩
    intro i writes
    have hmiss : lookup FDMapEntry.key fd (w.including i).fdMap = none := hentry
    rw [HookedCall.loggedRun, lseek_wraps, runAlone_bind, sqfsLseek_eq, run_dispatch_missed hmiss]
    rfl
  | some entry =>
    cases hseek : lseekResult b entry offset whence with
    | error e => exact absurd ⟨entry, e, hentry, hseek⟩ h
    | ok newOffset =>
      apply seek_errnoSettled (lseek_wraps fd offset whence)
      intro i writes
      have hmapped : lookup FDMapEntry.key fd (w.including i).fdMap = some entry := hentry
      obtain ⟨v, hrun, -⟩ := run_sqfsLseek (o.logging writes) b hmapped offset whence
      exact ⟨v, hseek ▸ hrun⟩

private theorem lseek64_errnoSettled {w : World} {fd : Int} {offset : BitVec 64} {whence : Int}
    (h : ¬ (HookedCall.fd (.lseek64 fd offset whence) : HookedCall b).LoggedOver o w) :
    (HookedCall.fd (.lseek64 fd offset whence) : HookedCall b).ErrnoSettled o w := by
  cases hentry : lookup FDMapEntry.key fd w.fdMap with
  | none =>
    have hfall : ((do
        let present ← realPresent .lseek64
        if present then do
          let ret : Except Errno Int ← Manager.call (.lseek64 fd offset.toInt whence)
          return realSeek ret
        else do
          setErrno Errno.ENOSYS
          return -1 : Hook Int) >>= fun ret => Program.ret (HookedResult.fd { ret })).All
        fun e => e.plain = true ∨ e = .getErrno := by
      refine ⟨.inl rfl, ?_⟩
      intro present
      cases present with
      | true => exact ⟨.inl rfl, fun _ => trivial⟩
      | false => exact ⟨.inl rfl, fun _ => trivial⟩
    apply errnoSettled_of_plain hfall
    intro i writes
    have hmiss : lookup FDMapEntry.key fd (w.including i).fdMap = none := hentry
    rw [HookedCall.loggedRun, lseek64_wraps, runAlone_bind, sqfsLseek64_eq,
      run_dispatch_missed hmiss]
    conv_rhs => rw [runAlone_bind]
  | some entry =>
    cases hseek : seekResult entry offset whence 0x7fffffffffffffff with
    | error e => exact absurd ⟨entry, e, hentry, hseek⟩ h
    | ok newOffset =>
      apply seek_errnoSettled (lseek64_wraps fd offset whence)
      intro i writes
      have hmapped : lookup FDMapEntry.key fd (w.including i).fdMap = some entry := hentry
      obtain ⟨v, hrun, -⟩ := run_sqfsLseek64 (o.logging writes) hmapped offset whence
      exact ⟨v, hseek ▸ hrun⟩

private theorem access_errnoSettled {w : World} {pathname : Option CString} {mode : BitVec 32}
    (h : ¬ (HookedCall.access pathname mode : HookedCall b).LoggedOver o w) :
    (HookedCall.access pathname mode : HookedCall b).ErrnoSettled o w := by
  cases hout : orLower (w.outcome o (.access pathname mode)) (lowerAccess o w pathname mode) with
  | ok u =>
    apply errnoSettled_of_fails (access_wraps pathname mode) 0
    intro i writes
    obtain ⟨v, hrun, -⟩ := run_sqfsAccess b (o.logging writes) (w.including i) pathname mode
    refine ⟨_, v, hrun, ?_⟩
    intro hfail
    have hok : orLower ((w.including i).outcome (o.logging writes) (.access pathname mode))
      (lowerAccess (o.logging writes) (w.including i) pathname mode) = .ok u := hout
    rw [hok] at hfail
    cases hfail
  | error e =>
    apply errnoSettled_of_fails (access_wraps pathname mode) e
    intro i writes
    obtain ⟨v, hrun, herrno, -⟩ := run_sqfsAccess b (o.logging writes) (w.including i) pathname mode
    refine ⟨_, v, hrun, ?_⟩
    intro _
    have hinside : ¬ (w.including i).inside pathname = true := fun hin => h ⟨hin, e, hout⟩
    rw [herrno e hout, refusedErrno, if_neg hinside]

/-- Without a node left and without the end marked, nothing is logged. -/
private theorem run_readdirLower_empty {u : World} {dirp : Nat} {entry : DirMapEntry} (l : Bool)
    (hentry : lookup DirMapEntry.key dirp u.dirMap = some entry)
    (hend : entry.dirEntryListReachedEnd = false) (hnone : pendingNodes entry = []) :
    ∃ v, runAlone o (readdirLower l dirp) u = some (none, v) ∧ v.errno = u.errno := by
  have hcurrent : (if entry.dirEntryCurrent = [] then entry.dirEntryList else entry.dirEntryCurrent) =
      [] := by
    refine Eq.trans ?_ hnone
    rw [pendingNodes, hend]
    rfl
  rw [readdirLower, Program.ask_bind, runAlone_dirMapEntry, hentry, Option.getD_some, hend]
  dsimp only
  rw [if_neg Bool.false_ne_true, hcurrent, Program.ask_bind, runAlone_dirMapSetCurrent]
  exact ⟨_, rfl, rfl⟩

private theorem readdir_errnoSettled {w : World} {dirp : Nat}
    (h : ¬ (HookedCall.dir (.readdir dirp) : HookedCall b).LoggedOver o w) :
    (HookedCall.dir (.readdir dirp) : HookedCall b).ErrnoSettled o w := by
  cases hpending : pending w dirp with
  | cons dirent rest =>
    apply errnoSettled_of_fails (readdir_wraps dirp) 0
    intro i writes
    obtain ⟨v, hrun, -⟩ := run_sqfsReaddir (o.logging writes) dirp (w.including i)
    refine ⟨_, v, hrun, ?_⟩
    intro hfail
    have hsame : pending (w.including i) dirp = dirent :: rest := hpending
    rw [hsame] at hfail
    cases hfail
  | nil =>
    cases hentry : lookup DirMapEntry.key dirp w.dirMap with
    | none =>
      apply errnoSettled_of_plain (q := .request (.call (.readdir dirp))
        fun entry => .ret (.dir (.dirent entry))) ⟨.inl rfl, fun _ => trivial⟩
      intro i writes
      rw [HookedCall.loggedRun, readdir_wraps, runAlone_bind, sqfsReaddir, runAlone_bind,
        run_logEnabled, Option.bind_some]
      have hmiss : lookup DirMapEntry.key dirp (w.including i).dirMap = none := hentry
      simp only [Program.ask_bind, runAlone_lock, runAlone_dirMapFind, World.locked_dirMap, hmiss,
        Option.isSome_none, Bool.false_eq_true, if_false, runAlone_unlock]
      rfl
    | some entry =>
      rw [pending_mapped hentry] at hpending
      obtain ⟨hreal, hnodes⟩ := List.append_eq_nil_iff.mp hpending
      have hnone : pendingNodes entry = [] := List.map_eq_nil_iff.mp hnodes
      have hempty : entry.isRealDir = true → realEntries w dirp = [] := by
        intro hr
        rwa [if_pos hr] at hreal
      have hend : entry.dirEntryListReachedEnd = false := by
        rw [← Bool.not_eq_true]
        exact fun he => h ⟨entry, hentry, he, hempty⟩
      apply errnoSettled_of_fails (readdir_wraps dirp) (turned o w dirp entry).errno
      intro i writes
      have hmapped : lookup DirMapEntry.key dirp (w.including i).dirMap = some entry := hentry
      obtain ⟨hmap, -⟩ := turned_kept (o := o.logging writes) (w.including i) dirp entry
      obtain ⟨v, hrun, herrno⟩ := run_readdirLower_empty (o := o.logging writes)
        (logEnabledIn (w.including i).env.hooksqfsLogInclude (some (ascii "sqfs_readdir")))
        (hmap ▸ hmapped) hend hnone
      refine ⟨none, v, (run_sqfsReaddir_turned hmapped hempty).trans hrun, ?_⟩
      intro _
      rw [herrno, turned, turned]
      split
      · rfl
      · rfl

private theorem errnoSettled {call : HookedCall b} {w : World} (hsettles : call.settles = false)
    (h : ¬ call.LoggedOver o w) : call.ErrnoSettled o w := by
  cases call with
  | fd call =>
    cases call with
    | «open» pathname flags mode => exact open_errnoSettled h
    | lseek fd offset whence => exact lseek_errnoSettled h
    | lseek64 fd offset whence => exact lseek64_errnoSettled h
    | _ => cases hsettles
  | access pathname mode => exact access_errnoSettled h
  | dir call =>
    cases call with
    | readdir dirp => exact readdir_errnoSettled h
    | _ => cases hsettles
  | xstat ver pathname buf => cases hsettles

/-- For every hooked call, every state and every outcome of the outside calls: the value of
`HOOKSQFS_LOG_INCLUDE` and the results of the log's writes show neither in what is returned,
nor in the tables, nor in the errno of a failure, exactly if no line is written or the call
does not log a line after the errno was set. -/
theorem noninterfering_iff (call : HookedCall b) (o : Oracle) (w : World) :
    call.Noninterfering o w ↔ ¬ (w.Writes o ∧ call.LoggedOver o w) := by
  constructor
  · rintro h ⟨hw, hover⟩
    exact not_noninterfering hw hover h
  · intro h include₁ writes₁ include₂ writes₂
    by_cases hw : w.Writes o
    · have hover : ¬ call.LoggedOver o w := fun hover => h ⟨hw, hover⟩
      have hquiet : false = true → ¬ w.Writes o := nofun
      apply (agree_but_errno hquiet include₁ include₂ writes₁ writes₂).imp id
      rintro ⟨r, v₁, v₂, hrun₁, hrun₂, hfd, hdir, herrno⟩
      refine ⟨r, v₁, v₂, hrun₁, hrun₂, hfd, hdir, ?_⟩
      intro hfail
      cases hsettles : call.settles with
      | true => exact herrno hfail hsettles
      | false =>
        obtain ⟨e, he⟩ := errnoSettled hsettles hover
        exact (he _ _ _ _ hrun₂ hfail).trans (he _ _ _ _ hrun₁ hfail).symm
    · have hquiet : true = true → ¬ w.Writes o := fun _ => hw
      apply (agree_but_errno hquiet include₁ include₂ writes₁ writes₂).imp id
      rintro ⟨r, v₁, v₂, hrun₁, hrun₂, hfd, hdir, herrno⟩
      exact ⟨r, v₁, v₂, hrun₁, hrun₂, hfd, hdir, fun hfail => herrno hfail rfl⟩

/-- A seek to a negative offset in a file of the image. -/
def negativeSeek : HookedCall .b64 := .fd (.lseek 3 (-1) SEEK_SET)

/-- With everything logged and standard output closed, its `EINVAL` becomes the `EBADF` of the
write. -/
theorem negative_seek_interfered :
    (negativeSeek.loggedRun .bare (withFileOpen 5) none fun _ => []).map
        (fun out => (out.1.failed, out.2.errno)) = some (true, Errno.EINVAL) ∧
      (negativeSeek.loggedRun .bare (withFileOpen 5) (some (ascii "ALL"))
          fun _ => [.error Errno.EBADF]).map
        (fun out => (out.1.failed, out.2.errno)) = some (true, Errno.EBADF) ∧
      ¬ negativeSeek.Noninterfering .bare (withFileOpen 5) := by
  refine ⟨by decide +kernel, by decide +kernel, ?_⟩
  exact not_noninterfering (by decide) ⟨_, Errno.EINVAL, rfl, by decide⟩

end HookSqfs.Hooks
