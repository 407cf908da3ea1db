import HookSqfs.Manager.LookupOutcome

/-! The outcomes of `create_backing_fd` and `create_backing_dir`. -/
namespace HookSqfs.Manager
open Interaction
variable (o : Oracle)

/-- What `create_unlinked_tmp_fd` gets in its last `i` iterations, the first `k` done. -/
def tmpFdAnswer (w : World) (flags : BitVec 32) : Nat → Nat → Option Nat
  | 0, _ => none
  | i + 1, k =>
    match w.grantFd (o.answer (w.used .openat + k)
      (.openat (backingFdPath w.env.pid (w.tmpFiles + k)) (tmpOpenFlags flags))) with
    | .ok n => some n
    | .error e => if e ≠ Errno.EEXIST then none else tmpFdAnswer w flags i (k + 1)

/-- The descriptor that the system has for `create_backing_fd`. -/
def backingFdAnswer (w : World) (flags : BitVec 32) : Option Nat :=
  match w.grantFd (o.answer (w.used .memfdCreate) (.memfdCreate (memfdFlags flags))) with
  | .ok n => some n
  | .error e =>
    if e ≠ Errno.ENOSYS ∧ e ≠ Errno.EINVAL then none else tmpFdAnswer o w flags 128 0

/-- `create_backing_fd` as the caller sees it. -/
def backingResult : Option Nat → Int
  | none => -1
  | some n => n

/-- A backing descriptor was made, or nothing changed. -/
def BackingMade (w w' : World) : Option Nat → Prop
  | none => Undisturbed w w'
  | some n => w.fds n = none ∧ Undisturbed (w.gain n (.backing w.caller)) w'

theorem BackingMade.before {u v w : World} {made : Option Nat} (h : Undisturbed u v)
    (k : BackingMade v w made) : BackingMade u w made := by
  cases made with
  | none => exact h.trans k
  | some n =>
    refine ⟨h.fds ▸ k.1, Undisturbed.trans ?_ k.2⟩
    refine ⟨h.env, h.mgr, h.fdMap, h.dirMap, ?_, h.streams, h.caller, ?_, h.insertedBy⟩
    · funext fd
      rw [World.gain_fds, World.gain_fds, h.fds, h.caller]
    · funext fd
      rw [World.gain_owner, World.gain_owner, h.owner, h.caller]

/-- A failed call that would have made a descriptor or a stream. -/
theorem Undisturbed.failedCall (w : World) (c : Ext) (a : c.Ans) (h : w.effect c a = w) :
    Undisturbed w (w.afterCall o c a) := by
  unfold World.afterCall
  rw [h]
  exact ⟨rfl, rfl, rfl, rfl, rfl, rfl, rfl, rfl, rfl⟩

private theorem grantFd_congr {w w' : World} (h : w'.fds = w.fds) (a : Except Errno Nat) :
    w'.grantFd a = w.grantFd a := by
  cases a with
  | error e => rfl
  | ok n => simp only [World.grantFd, h]

private theorem run_createUnlinkedTmpFdLoop (w : World) (flags : BitVec 32) (i k : Nat)
    (v : World) (hu : Undisturbed w v) (hcalls : v.used .openat = w.used .openat + k)
    (hid : v.tmpFiles = w.tmpFiles + k) :
    ∃ w', runAlone o (createUnlinkedTmpFdLoop flags i) v =
        some (backingResult (tmpFdAnswer o w flags i k), w') ∧
      BackingMade w w' (tmpFdAnswer o w flags i k) ∧ w'.used .malloc = v.used .malloc := by
  induction i generalizing k v with
  | zero => exact ⟨v.withErrno _, rfl, hu.trans (Quiet.withErrno v _).toUndisturbed, rfl⟩
  | succ i ih =>
    have hpath : backingFdPath v.env.pid v.tmpFiles = backingFdPath w.env.pid (w.tmpFiles + k) := by
      rw [hu.env, hid]
    have hu1 : Undisturbed w { v with tmpFiles := v.tmpFiles + 1 } := hu.trans
      ⟨rfl, rfl, rfl, rfl, rfl, rfl, rfl, rfl, rfl⟩
    have hid1 : ({ v with tmpFiles := v.tmpFiles + 1 } : World).tmpFiles = w.tmpFiles + (k + 1) := by
      rw [← Nat.add_assoc, ← hid]
    have hout : ({ v with tmpFiles := v.tmpFiles + 1 } : World).outcome o
        (.openat (backingFdPath v.env.pid v.tmpFiles) (tmpOpenFlags flags)) =
        w.grantFd (o.answer (w.used .openat + k)
          (.openat (backingFdPath w.env.pid (w.tmpFiles + k)) (tmpOpenFlags flags))) := by
      rw [← hpath, ← hcalls, ← grantFd_congr hu1.fds]
      rfl
    have hm1 : ({ v with tmpFiles := v.tmpFiles + 1 } : World).used = v.used := rfl
    simp only [createUnlinkedTmpFdLoop, Program.ask_bind, runAlone_nextTmpFile, runAlone_getpid,
      runAlone_call, tmpFdAnswer]
    generalize ({ v with tmpFiles := v.tmpFiles + 1 } : World) = v1 at hu1 hid1 hout hm1 ⊢
    rw [hout]
    generalize backingFdPath v.env.pid v.tmpFiles = path
    cases hg : w.grantFd (o.answer (w.used .openat + k)
        (.openat (backingFdPath w.env.pid (w.tmpFiles + k)) (tmpOpenFlags flags))) with
    | ok n =>
      have hgain : Undisturbed (v1.gain n (.backing v1.caller))
          (v1.afterCall o (.openat path (tmpOpenFlags flags)) (.ok n)) :=
        ⟨rfl, rfl, rfl, rfl, rfl, rfl, rfl, rfl, rfl⟩
      have hmade : ∀ a : Except Errno Unit, BackingMade v1 ((v1.afterCall o
          (.openat path (tmpOpenFlags flags)) (.ok n)).afterCall o (.unlinkat path) a) (some n) :=
        fun a => ⟨hu1.fds ▸ (World.grantFd_ok hg).2,
          hgain.trans (Quiet.afterCall _ o (.unlinkat path) a rfl rfl).toUndisturbed⟩
      simp only [runAlone_call]
      refine ⟨_, rfl, BackingMade.before hu1 (hmade _), ?_⟩
      simp [hm1, Ext.fn]
    | error e =>
      have hu2 := hu1.trans (.failedCall o v1 (.openat path (tmpOpenFlags flags)) (.error e) rfl)
      have herr : (v1.afterCall o (.openat path (tmpOpenFlags flags)) (.error e)).errno = e := rfl
      simp only [runAlone_getErrno, runAlone_ite, herr]
      by_cases he : e ≠ Errno.EEXIST
      · rw [if_pos he, if_pos he]
        exact ⟨_, rfl, hu2, by simp [hm1, Ext.fn]⟩
      · rw [if_neg he, if_neg he]
        obtain ⟨w', hrun, hmade, hm⟩ := ih (k + 1) _ hu2 (by simp [hm1, Ext.fn, hcalls]; omega)
          (by simpa using hid1)
        exact ⟨w', hrun, hmade, hm.trans (by simp [hm1, Ext.fn])⟩

/-- `create_backing_fd` makes the descriptor that the system has for it, or none. -/
theorem run_createBackingFd (flags : BitVec 32) (w : World) :
    ∃ w', runAlone o (createBackingFd flags) w =
        some (backingResult (backingFdAnswer o w flags), w') ∧
      BackingMade w w' (backingFdAnswer o w flags) ∧ w'.used .malloc = w.used .malloc := by
  have hout : w.outcome o (.memfdCreate (memfdFlags flags)) =
    w.grantFd (o.answer (w.used .memfdCreate) (.memfdCreate (memfdFlags flags))) := rfl
  rw [createBackingFd, createMemfd, Program.ask_bind, Program.request_bind, runAlone_call,
    backingFdAnswer, hout]
  cases hg : w.grantFd (o.answer (w.used .memfdCreate) (.memfdCreate (memfdFlags flags))) with
  | ok n =>
    have hn : (n : Int) ≥ 0 := by omega
    refine ⟨w.afterCall o (.memfdCreate (memfdFlags flags)) (.ok n), ?_,
      ⟨(World.grantFd_ok hg).2, ⟨rfl, rfl, rfl, rfl, rfl, rfl, rfl, rfl, rfl⟩⟩, by simp [Ext.fn]⟩
    simp [hn, backingResult]
  | error e =>
    have hu1 := Undisturbed.failedCall o w (.memfdCreate (memfdFlags flags)) (.error e) rfl
    have herr : (w.afterCall o (.memfdCreate (memfdFlags flags)) (.error e)).errno = e := rfl
    have hneg : ¬ ((-1 : Int) ≥ 0) := by decide
    simp only [Program.pure_eq, Program.ret_bind, hneg, if_false, Program.ask_bind,
      runAlone_getErrno, herr, runAlone_ite]
    split
    · exact ⟨_, rfl, hu1, by simp [Ext.fn]⟩
    · obtain ⟨w', hrun, hmade, hm⟩ := run_createUnlinkedTmpFdLoop o w flags 128 0 _ hu1
        (by simp [Ext.fn]) (by simp)
      exact ⟨w', hrun, hmade, hm.trans (by simp [Ext.fn])⟩

/-- The system's answer depends on nothing that a lookup changes. -/
theorem backingFdAnswer_congr {w w' : World} (flags : BitVec 32) (henv : w'.env = w.env)
    (hfds : w'.fds = w.fds) (htmp : w'.tmpFiles = w.tmpFiles)
    (hmemfd : w'.used .memfdCreate = w.used .memfdCreate)
    (hopenat : w'.used .openat = w.used .openat) :
    backingFdAnswer o w' flags = backingFdAnswer o w flags := by
  have hloop : ∀ i k, tmpFdAnswer o w' flags i k = tmpFdAnswer o w flags i k := by
    intro i
    induction i with
    | zero => exact fun _ => rfl
    | succ i ih =>
      intro k
      have hpath : backingFdPath w'.env.pid (w'.tmpFiles + k) =
          backingFdPath w.env.pid (w.tmpFiles + k) := by
        rw [henv, htmp]
      rw [tmpFdAnswer, tmpFdAnswer, hopenat, hpath, grantFd_congr hfds, ih]
  simp only [backingFdAnswer, hmemfd, grantFd_congr hfds, hloop]

/-- What the first `i` of the remaining iterations of `create_backing_dir` get, `k`
being done. -/
def dirAnswer (w : World) : Nat → Nat → Option Nat
  | 0, _ => none
  | i + 1, k =>
    match o.answer (w.used .mkdir + k) (.mkdir (backingDirPath w.env.pid (w.tmpDirs + k))) with
    | .error e => if e = Errno.EEXIST then dirAnswer w i (k + 1) else none
    | .ok _ =>
      match w.grantStream (o.answer (w.used .opendir)
        (.opendir (some (backingDirPath w.env.pid (w.tmpDirs + k))))) with
      | .error _ => none
      | .ok stream => some stream.addr

/-- The stream that the system has for `create_backing_dir`. -/
def backingDirAnswer (w : World) : Option Nat := dirAnswer o w 128 0

/-- A backing stream was opened, or nothing changed. -/
def StreamMade (w w' : World) : Option Nat → Prop
  | none => Undisturbed w w'
  | some dir => w.streams dir = none ∧ ∃ stream : DirStream, stream.addr = dir ∧
      Undisturbed { w with streams := Function.update w.streams dir (some stream) } w'

theorem StreamMade.before {u v w : World} {made : Option Nat} (h : Undisturbed u v)
    (k : StreamMade v w made) : StreamMade u w made := by
  cases made with
  | none => exact h.trans k
  | some dir =>
    obtain ⟨hfresh, stream, haddr, hw⟩ := k
    refine ⟨h.streams ▸ hfresh, stream, haddr, Undisturbed.trans ?_ hw⟩
    refine ⟨h.env, h.mgr, h.fdMap, h.dirMap, h.fds, ?_, h.caller, h.owner, h.insertedBy⟩
    simp only [h.streams]

private theorem grantStream_congr {w w' : World} (h : w'.streams = w.streams)
    (a : Except Errno DirStream) : w'.grantStream a = w.grantStream a := by
  cases a with
  | error e => rfl
  | ok s => simp only [World.grantStream, h]

/-- The rest of an iteration of `create_backing_dir` that has made its directory. -/
private def openMadeDir (path : CString) : Hook (Option Nat) := do
  let dir : Except Errno DirStream ← call (.opendir (some path))
  let savedErrno ← getErrno
  let _ ← call (.rmdir path)
  match dir with
  | .error _ => do
    setErrno savedErrno
    return none
  | .ok stream => return some stream.addr

private theorem run_openMadeDir_error {v : World} {path : CString} {e : Errno}
    (h : v.outcome o (.opendir (some path)) = .error e) :
    ∃ w', runAlone o (openMadeDir path) v = some (none, w') ∧ Undisturbed v w' ∧
      w'.used .malloc = v.used .malloc := by
  have hopened := Undisturbed.failedCall o v (.opendir (some path)) (.error e) rfl
  rw [openMadeDir, Program.ask_bind, runAlone_call, h]
  simp only [getErrno, setErrno, Program.ask_bind, runAlone_getErrno, runAlone_call,
    runAlone_setErrno]
  refine ⟨_, rfl, hopened.trans ((Quiet.afterCall _ o (.rmdir path) _ rfl rfl).trans
    (.withErrno _ _)).toUndisturbed, ?_⟩
  simp [Ext.fn]

private theorem run_openMadeDir_ok {v : World} {path : CString} {stream : DirStream}
    (h : v.outcome o (.opendir (some path)) = .ok stream) (hfresh : v.streams stream.addr = none) :
    ∃ w', runAlone o (openMadeDir path) v = some (some stream.addr, w') ∧
      StreamMade v w' (some stream.addr) ∧ w'.used .malloc = v.used .malloc := by
  have hopened : Undisturbed
      { v with streams := Function.update v.streams stream.addr (some stream) }
      (v.afterCall o (.opendir (some path)) (.ok stream)) :=
    ⟨rfl, rfl, rfl, rfl, rfl, rfl, rfl, rfl, rfl⟩
  rw [openMadeDir, Program.ask_bind, runAlone_call, h]
  simp only [getErrno, Program.ask_bind, runAlone_getErrno, runAlone_call]
  refine ⟨_, rfl, ⟨hfresh, stream, rfl,
    hopened.trans (Quiet.afterCall _ o (.rmdir path) _ rfl rfl).toUndisturbed⟩, ?_⟩
  simp [Ext.fn]

private theorem run_createBackingDirLoop (w : World) (i k : Nat) (v : World)
    (hu : Undisturbed w v) (hcalls : v.used .mkdir = w.used .mkdir + k)
    (hopen : v.used .opendir = w.used .opendir) (hid : v.tmpDirs = w.tmpDirs + k) :
    ∃ w', runAlone o (createBackingDirLoop i) v = some (dirAnswer o w i k, w') ∧
      StreamMade w w' (dirAnswer o w i k) ∧ w'.used .malloc = v.used .malloc := by
  induction i generalizing k v with
  | zero => exact ⟨v.withErrno _, rfl, hu.trans (Quiet.withErrno v _).toUndisturbed, rfl⟩
  | succ i ih =>
    have hpath : backingDirPath v.env.pid v.tmpDirs = backingDirPath w.env.pid (w.tmpDirs + k) := by
      rw [hu.env, hid]
    have hu1 : Undisturbed w { v with tmpDirs := v.tmpDirs + 1 } := hu.trans
      ⟨rfl, rfl, rfl, rfl, rfl, rfl, rfl, rfl, rfl⟩
    have hid1 : ({ v with tmpDirs := v.tmpDirs + 1 } : World).tmpDirs = w.tmpDirs + (k + 1) := by
      rw [← Nat.add_assoc, ← hid]
    have hmk : ∀ path, ({ v with tmpDirs := v.tmpDirs + 1 } : World).outcome o (.mkdir path) =
        o.answer (w.used .mkdir + k) (.mkdir path) := by
      intro path
      rw [← hcalls]
      rfl
    have hused : ({ v with tmpDirs := v.tmpDirs + 1 } : World).used = v.used := rfl
    simp only [createBackingDirLoop, Program.ask_bind, runAlone_nextTmpDir, runAlone_getpid,
      runAlone_call, dirAnswer]
    rw [← hpath]
    generalize backingDirPath v.env.pid v.tmpDirs = path
    generalize ({ v with tmpDirs := v.tmpDirs + 1 } : World) = v1 at hu1 hid1 hmk hused ⊢
    rw [hmk path]
    cases hg : o.answer (w.used .mkdir + k) (.mkdir path) with
    | error e =>
      have hu2 := hu1.trans (.failedCall o v1 (.mkdir path) (.error e) rfl)
      have herr : (v1.afterCall o (.mkdir path) (.error e)).errno = e := rfl
      simp only [runAlone_getErrno, runAlone_ite, herr]
      by_cases he : e = Errno.EEXIST
      · rw [if_pos he, if_pos he]
        obtain ⟨w', hrun, hmade, hm⟩ := ih (k + 1) _ hu2
          (by simp [hused, Ext.fn, hcalls]; omega) (by simp [hused, Ext.fn, hopen])
          (by simpa using hid1)
        exact ⟨w', hrun, hmade, hm.trans (by simp [hused, Ext.fn])⟩
      · rw [if_neg he, if_neg he]
        exact ⟨_, rfl, hu2, by simp [hused, Ext.fn]⟩
    | ok u =>
      have hu2 := hu1.trans (Quiet.afterCall v1 o (.mkdir path) (.ok u) rfl rfl).toUndisturbed
      have hod : (v1.afterCall o (.mkdir path) (.ok u)).outcome o (.opendir (some path)) =
          w.grantStream (o.answer (w.used .opendir) (.opendir (some path))) := by
        rw [← grantStream_congr hu2.streams, ← hopen, ← hused]
        rfl
      have hm2 : (v1.afterCall o (.mkdir path) (.ok u)).used .malloc = v.used .malloc := by
        simp [hused, Ext.fn]
      simp only [runAlone_call]
      cases hs : w.grantStream (o.answer (w.used .opendir) (.opendir (some path))) with
      | error e =>
        obtain ⟨w', hrun, hw', hm⟩ := run_openMadeDir_error o (hod.trans hs)
        exact ⟨w', hrun, hu2.trans hw', hm.trans hm2⟩
      | ok stream =>
        have hfresh := hu2.streams ▸ (World.grantStream_ok hs).2
        obtain ⟨w', hrun, hmade, hm⟩ := run_openMadeDir_ok o (hod.trans hs) hfresh
        exact ⟨w', hrun, hmade.before hu2, hm.trans hm2⟩

/-- `create_backing_dir` opens the stream that the system has for it, or none. -/
theorem run_createBackingDir (w : World) :
    ∃ w', runAlone o createBackingDir w = some (backingDirAnswer o w, w') ∧
      StreamMade w w' (backingDirAnswer o w) ∧ w'.used .malloc = w.used .malloc :=
  run_createBackingDirLoop o w 128 0 w (.refl w) rfl rfl rfl

/-- The system's answer depends on nothing else than the calls that ask for it. -/
theorem backingDirAnswer_congr {w w' : World} (henv : w'.env = w.env)
    (hstreams : w'.streams = w.streams) (htmp : w'.tmpDirs = w.tmpDirs)
    (hmkdir : w'.used .mkdir = w.used .mkdir) (hopendir : w'.used .opendir = w.used .opendir) :
    backingDirAnswer o w' = backingDirAnswer o w := by
  have hloop : ∀ i k, dirAnswer o w' i k = dirAnswer o w i k := by
    intro i
    induction i with
    | zero => exact fun _ => rfl
    | succ i ih =>
      intro k
      have hpath : backingDirPath w'.env.pid (w'.tmpDirs + k) =
          backingDirPath w.env.pid (w.tmpDirs + k) := by
        rw [henv, htmp]
      rw [dirAnswer, dirAnswer, hmkdir, hopendir, hpath]
      generalize backingDirPath w.env.pid (w.tmpDirs + k) = path
      cases o.answer (w.used .mkdir + k) (.mkdir path) with
      | error e => simp only [ih]
      | ok u => simp only [grantStream_congr hstreams]
  exact hloop 128 0

end HookSqfs.Manager
