import HookSqfs.Manager.Lookup
import HookSqfs.Paths.Containment

/-! What the routing and the lookup answer, as functions of the state before them. -/
namespace HookSqfs.Manager
open Interaction Paths

/-- What stays as it was when nothing is opened, closed or entered in the maps. -/
structure Undisturbed (w w' : World) : Prop where
  env : w'.env = w.env
  mgr : w'.mgr = w.mgr
  fdMap : w'.fdMap = w.fdMap
  dirMap : w'.dirMap = w.dirMap
  fds : w'.fds = w.fds
  streams : w'.streams = w.streams
  caller : w'.caller = w.caller
  owner : w'.owner = w.owner
  insertedBy : w'.insertedBy = w.insertedBy

namespace Undisturbed

theorem refl (w : World) : Undisturbed w w := ⟨rfl, rfl, rfl, rfl, rfl, rfl, rfl, rfl, rfl⟩

theorem trans {u v w : World} (h : Undisturbed u v) (k : Undisturbed v w) : Undisturbed u w :=
  ⟨k.env.trans h.env, k.mgr.trans h.mgr, k.fdMap.trans h.fdMap, k.dirMap.trans h.dirMap,
    k.fds.trans h.fds, k.streams.trans h.streams, k.caller.trans h.caller,
    k.owner.trans h.owner, k.insertedBy.trans h.insertedBy⟩

theorem withFdMap {w w' : World} (h : Undisturbed w w') (d : List FDMapEntry) :
    Undisturbed { w with fdMap := d } { w' with fdMap := d } :=
  ⟨h.env, h.mgr, rfl, h.dirMap, h.fds, h.streams, h.caller, h.owner, h.insertedBy⟩

theorem withDirMap {w w' : World} (h : Undisturbed w w') (d : List DirMapEntry) :
    Undisturbed { w with dirMap := d } { w' with dirMap := d } :=
  ⟨h.env, h.mgr, h.fdMap, rfl, h.fds, h.streams, h.caller, h.owner, h.insertedBy⟩

theorem logHook (w : World) (o : Oracle) (funcName : Option CString) :
    Undisturbed w (w.logHook o funcName) := ⟨rfl, rfl, rfl, rfl, rfl, rfl, rfl, rfl, rfl⟩

theorem logLine (w : World) (o : Oracle) (enabled : Bool) (leading : CString) :
    Undisturbed w (w.logLine o enabled leading) := ⟨rfl, rfl, rfl, rfl, rfl, rfl, rfl, rfl, rfl⟩

end Undisturbed

/-- The same with no line logged. -/
structure Quiet (w w' : World) : Prop extends Undisturbed w w' where
  logWrites : w'.logWrites = w.logWrites
  tmpFiles : w'.tmpFiles = w.tmpFiles
  tmpDirs : w'.tmpDirs = w.tmpDirs

namespace Quiet

theorem refl (w : World) : Quiet w w := ⟨.refl w, rfl, rfl, rfl⟩

theorem trans {u v w : World} (h : Quiet u v) (k : Quiet v w) : Quiet u w :=
  ⟨h.toUndisturbed.trans k.toUndisturbed, k.logWrites.trans h.logWrites,
    k.tmpFiles.trans h.tmpFiles, k.tmpDirs.trans h.tmpDirs⟩

theorem afterCall (w : World) (o : Oracle) (c : Ext) (a : c.Ans)
    (hf : c.fn.onDescriptors = false) (hs : c.fn.onStreams = false) :
    Quiet w (w.afterCall o c a) :=
  ⟨⟨by simp, by simp, by simp, by simp, w.afterCall_fds o c a hf, w.afterCall_streams o c a hs,
    by simp, w.afterCall_owner o c a hf, by simp⟩, by simp, by simp, by simp⟩

theorem withErrno (w : World) (e : Errno) : Quiet w (w.withErrno e) :=
  ⟨⟨rfl, rfl, rfl, rfl, rfl, rfl, rfl, rfl, rfl⟩, rfl, rfl, rfl⟩

theorem locked (w : World) : Quiet w w.locked := ⟨⟨rfl, rfl, rfl, rfl, rfl, rfl, rfl, rfl, rfl⟩, rfl, rfl, rfl⟩

theorem unlocked (w : World) : Quiet w w.unlocked := ⟨⟨rfl, rfl, rfl, rfl, rfl, rfl, rfl, rfl, rfl⟩, rfl, rfl, rfl⟩

end Quiet

namespace World

/-- The answer of `sqfs_check_path_then_convert` with a buffer of `PATH_MAX` bytes. -/
def routed (w : World) (pathname : Option CString) : Errno × CString :=
  let out := checkedPath (w.env.hooksqfsPrefix.getD defaultPrefix) w.env.hooksqfsFile pathname
    (some []) PATH_MAX
  (out.1, out.2.getD [])

/-- The answer of the check-only call. -/
def inside (w : World) (pathname : Option CString) : Bool :=
  (checkedPath (w.env.hooksqfsPrefix.getD defaultPrefix) w.env.hooksqfsFile pathname none 0).1 = 0

/-- What libsquashfs answers for the relative path. -/
def imageEntry (w : World) (o : Oracle) (relative : CString) : Except SqfsError InodePtr :=
  if relative = [] then o.answer (w.used .getRootInode) .getRootInode
  else o.answer (w.used .findByPath) (.findByPath relative)

/-- The answer of `sqfs_find_inode` when `k` directory readers are created before
its own: the inode or the errno. -/
def lookup (w : World) (o : Oracle) (k : Nat) (relative : CString) : Except Errno InodePtr :=
  if w.mgr.loaded then
    match o.answer (w.used .dirReaderCreate + k) .dirReaderCreate with
    | none => .error Errno.ENOMEM
    | some _ =>
      match w.imageEntry o relative with
      | .error e => .error (errnoFromSqfs e)
      | .ok inode => .ok inode
  else .error Errno.ENOENT

theorem lookup_congr {w w' : World} (o : Oracle) {k k' : Nat} (relative : CString)
    (hm : w'.mgr = w.mgr)
    (hr : w'.used .dirReaderCreate + k' = w.used .dirReaderCreate + k)
    (hi : w'.used .getRootInode = w.used .getRootInode)
    (hf : w'.used .findByPath = w.used .findByPath) :
    w'.lookup o k' relative = w.lookup o k relative := by
  simp only [lookup, imageEntry, hm, hr, hi, hf]

@[simp] theorem lookup_locked (w : World) (o : Oracle) (k : Nat) (relative : CString) :
    w.locked.lookup o k relative = w.lookup o k relative := rfl

@[simp] theorem lookup_logHook (w : World) (o : Oracle) (k : Nat) (funcName : Option CString)
    (relative : CString) :
    (w.logHook o funcName).lookup o k relative = w.lookup o k relative := rfl

/-- The check-only call tells whether the path is routed. -/
theorem inside_eq_routed (w : World) (pathname : Option CString) :
    w.inside pathname = decide ((w.routed pathname).1 = 0) := by
  unfold inside routed checkedPath
  cases pathname with
  | none => rfl
  | some path =>
    dsimp only
    split
    · rfl
    · rw [relative_modes_agree _ _ []]

theorem routed_congr {w w' : World} (h : w'.env = w.env) (pathname : Option CString) :
    w'.routed pathname = w.routed pathname := by
  simp only [routed, h]

end World

@[simp] theorem run_sqfsCheckPath (o : Oracle) (pathname : Option CString) (w : World) :
    runAlone o (sqfsCheckPath pathname) w = some (w.routed pathname, w) := rfl

@[simp] theorem run_sqfsCheckOnly (o : Oracle) (pathname : Option CString) (w : World) :
    runAlone o (sqfsCheckOnly pathname) w = some (w.inside pathname, w) := rfl

private theorem not_loaded_lookup {w : World} (o : Oracle) (k : Nat) (relative : CString)
    (h : w.mgr.loaded = false) : w.lookup o k relative = .error Errno.ENOENT := by
  rw [World.lookup, h]
  rfl

/-- A function that the lookup does not call. -/
def Fn.outsideLookup : Fn → Bool
  | .dirReaderCreate | .getRootInode | .findByPath | .sqfsDestroy => false
  | _ => true

theorem World.afterCall_used_of_ne (w : World) (o : Oracle) (c : Ext) (a : c.Ans) {f : Fn}
    (h : f ≠ c.fn) : (w.afterCall o c a).used f = w.used f := by
  rw [afterCall_used, Function.update_of_ne h]

private theorem run_findWithReader (o : Oracle) (relative : CString) (reader : Nat) (w : World) :
    ∃ w', runAlone o (findWithReader relative reader) w =
        some ((w.imageEntry o relative).toOption, w') ∧
      (∀ e, w.imageEntry o relative = .error e → w'.errno = errnoFromSqfs e) ∧
      Quiet w w' ∧ ∀ f, f.outsideLookup → w'.used f = w.used f := by
  obtain ⟨w1, hrun, hw1, hu1⟩ : ∃ w1, runAlone o
      (if relative = [] then call .getRootInode else call (.findByPath relative) :
        Hook (Except SqfsError InodePtr)) w = some (w.imageEntry o relative, w1) ∧
      Quiet w w1 ∧ ∀ f : Fn, f.outsideLookup → w1.used f = w.used f := by
    unfold World.imageEntry
    split
    · refine ⟨_, rfl, .afterCall _ _ _ _ rfl rfl, fun f hf => ?_⟩
      exact w.afterCall_used_of_ne o _ _ (by rintro rfl; cases hf)
    · refine ⟨_, rfl, .afterCall _ _ _ _ rfl rfl, fun f hf => ?_⟩
      exact w.afterCall_used_of_ne o _ _ (by rintro rfl; cases hf)
  have hw2 := hw1.trans (.afterCall w1 o (.sqfsDestroy reader) () rfl rfl)
  have hu2 : ∀ f : Fn, f.outsideLookup →
      (w1.afterCall o (.sqfsDestroy reader) ()).used f = w.used f := fun f hf =>
    (w1.afterCall_used_of_ne o _ _ (by rintro rfl; cases hf)).trans (hu1 f hf)
  rw [findWithReader, runAlone_bind, hrun, Option.bind_some, Program.ask_bind, runAlone_call]
  cases w.imageEntry o relative with
  | error e =>
    refine ⟨_, rfl, fun e' he => ?_, hw2.trans (.withErrno _ _), hu2⟩
    cases he
    rfl
  | ok inode => exact ⟨_, rfl, nofun, hw2, hu2⟩

/-- `sqfs_find_inode` answers as `lookup` says, leaves its errno on failure, and
touches nothing else. -/
theorem run_sqfsFindInode (o : Oracle) (relative : CString) (w : World) :
    ∃ w', runAlone o (sqfsFindInode (some relative)) w =
        some ((w.lookup o 0 relative).toOption, w') ∧
      (∀ e, w.lookup o 0 relative = .error e → w'.errno = e) ∧
      Quiet w w' ∧ ∀ f, f.outsideLookup → w'.used f = w.used f := by
  by_cases hm : w.mgr.loaded = true
  · cases hr : o.answer (w.used .dirReaderCreate) .dirReaderCreate with
    | none =>
      have hl : w.lookup o 0 relative = .error Errno.ENOMEM := by
        simp only [World.lookup, hm, if_true, Nat.add_zero, hr]
      have hw1 := Quiet.afterCall w o .dirReaderCreate none rfl rfl
      have ho : w.outcome o .dirReaderCreate = none := hr
      refine ⟨(w.afterCall o .dirReaderCreate none).withErrno Errno.ENOMEM, ?_, ?_,
        hw1.trans (.withErrno _ _), fun f hf => ?_⟩
      · simp [sqfsFindInode, hm, hl, ho, Except.toOption]
      · intro e he
        rw [hl] at he
        cases he
        rfl
      · exact w.afterCall_used_of_ne o .dirReaderCreate none (by rintro rfl; cases hf)
    | some reader =>
      have ho : w.outcome o .dirReaderCreate = some reader := hr
      have hentry : (w.afterCall o .dirReaderCreate (some reader)).imageEntry o relative =
          w.imageEntry o relative := by
        simp [World.imageEntry, Ext.fn]
      have hl : w.lookup o 0 relative =
          match w.imageEntry o relative with
          | .error e => .error (errnoFromSqfs e)
          | .ok inode => .ok inode := by
        simp only [World.lookup, hm, if_true, Nat.add_zero, hr]
      obtain ⟨w', hrun, herr, hw', hu⟩ := run_findWithReader o relative reader
        (w.afterCall o .dirReaderCreate (some reader))
      have hw1 := Quiet.afterCall w o .dirReaderCreate (some reader) rfl rfl
      rw [hentry] at hrun herr
      refine ⟨w', ?_, ?_, hw1.trans hw', fun f hf => ?_⟩
      · rw [hl]
        simp only [sqfsFindInode, Program.ask_bind, runAlone_getMgr, hm, if_true, runAlone_call,
          ho]
        refine hrun.trans ?_
        cases w.imageEntry o relative <;> rfl
      · intro e he
        rw [hl] at he
        cases hi : w.imageEntry o relative with
        | error e' =>
          rw [hi] at he
          cases he
          exact herr e' hi
        | ok inode =>
          rw [hi] at he
          cases he
      · exact (hu f hf).trans (w.afterCall_used_of_ne o _ _ (by rintro rfl; cases hf))
  · have hl := not_loaded_lookup o 0 relative (Bool.eq_false_iff.mpr hm)
    refine ⟨w.withErrno Errno.ENOENT, ?_, ?_, .withErrno _ _, fun _ _ => rfl⟩
    · simp [sqfsFindInode, hm, hl, Except.toOption]
    · intro e he
      rw [hl] at he
      cases he
      rfl

/-- `sqfs_stat_impl` fills the buffer from the inode that `lookup` gives. -/
theorem run_sqfsStatImpl (b : Bits) (o : Oracle) (relative : CString) (w : World) :
    ∃ w', runAlone o (sqfsStatImpl b (some relative)) w =
        some ((w.lookup o 0 relative).toOption.map fun p =>
          sqfsFillStat b w.mgr.blockSize p.inode, w') ∧
      (∀ e, w.lookup o 0 relative = .error e → w'.errno = e) ∧ Quiet w w' := by
  obtain ⟨w1, hrun, herr, hw1, -⟩ := run_sqfsFindInode o relative w
  rw [sqfsStatImpl, runAlone_bind, hrun, Option.bind_some]
  cases hl : w.lookup o 0 relative with
  | error e => exact ⟨w1, rfl, fun e' he => herr e' (hl.trans he), hw1⟩
  | ok p =>
    refine ⟨w1.afterCall o (.sqfsFree p.addr) (w1.outcome o (.sqfsFree p.addr)), ?_, ?_,
      hw1.trans (.afterCall _ _ _ _ rfl rfl)⟩
    · simp [Except.toOption, hw1.mgr]
    · intro e he
      cases he

/-- A path under the default prefix. -/
def hookFile : CString := ascii "/hook/f"

theorem hookFile_routed : World.initial.routed (some hookFile) = (0, ascii "f") := by
  decide +kernel

/-- A plain file of the given size. -/
def plainFile (size : BitVec 32) : Inode :=
  { mode := 0o644, modTime := 0, inodeNumber := 1, data := .file size }

end HookSqfs.Manager
