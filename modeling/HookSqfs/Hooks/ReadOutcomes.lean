import HookSqfs.Hooks.FileHooks
import HookSqfs.Manager.LookupOutcome

/-! The outcomes of `sqfs_read` and `sqfs_pread` on a mapped descriptor. -/
namespace HookSqfs.Hooks
open Manager Interaction Tables
variable (o : Oracle) (b : Bits)

/-- A read from the image as the caller sees it. -/
def readResult : Except SqfsError (List Byte) → ReadResult
  | .error _ => { ret := -1 }
  | .ok data => { ret := data.length, data }

/-- The errno that a read from the image leaves. -/
def readErrno : Except SqfsError (List Byte) → Errno
  | .error e => errnoFromSqfs e
  | .ok _ => 0

/-- The table after a read at the cursor of `entry`. -/
def readTable (fdMap : List FDMapEntry) (fd : Int) (entry : FDMapEntry) :
    Except SqfsError (List Byte) → List FDMapEntry
  | .error _ => fdMap
  | .ok data => adjust FDMapEntry.key fd
      (fun e => { e with offset := entry.offset + BitVec.ofNat 64 data.length }) fdMap

theorem readTable_keys (fdMap : List FDMapEntry) (fd : Int) (entry : FDMapEntry)
    (r : Except SqfsError (List Byte)) :
    (readTable fdMap fd entry r).map FDMapEntry.key = fdMap.map FDMapEntry.key := by
  cases r with
  | error e => rfl
  | ok data =>
    have hkey : ∀ e : FDMapEntry, ({ e with offset := entry.offset + BitVec.ofNat 64 data.length } : FDMapEntry).key = e.key := fun _ => rfl
    exact map_adjust hkey fd fdMap

/-- What libsquashfs gives for a read made now. -/
def readAnswer (w : World) (inode : InodePtr) (offset : BitVec 64) (count : BitVec b.width) :
    Except SqfsError (List Byte) :=
  o.answer (w.used .dataReaderRead) (.dataReaderRead inode offset (count.setWidth 32))

/-- `sqfs_read` reads at the cursor and moves it past what it got. -/
theorem run_sqfsReadMapped {w : World} {fd : Int} {entry : FDMapEntry}
    (hmapped : lookup FDMapEntry.key fd w.fdMap = some entry) (count : BitVec b.width) :
    ∃ w', runAlone o (sqfsReadMapped b fd count) w =
        some (readResult (readAnswer o b w entry.inode entry.offset count), w') ∧
      w'.errno = readErrno (readAnswer o b w entry.inode entry.offset count) ∧
      Undisturbed { w with
        fdMap := readTable w.fdMap fd entry (readAnswer o b w entry.inode entry.offset count) }
        w' := by
  have hout : w.outcome o (.dataReaderRead entry.inode entry.offset (count.setWidth 32)) =
    readAnswer o b w entry.inode entry.offset count := rfl
  rw [sqfsReadMapped, Program.ask_bind, runAlone_fdMapEntry, hmapped, Option.getD_some,
    Program.ask_bind, runAlone_call, hout]
  cases readAnswer o b w entry.inode entry.offset count with
  | error e =>
    have hw := ((Quiet.afterCall w o (.dataReaderRead entry.inode entry.offset
      (count.setWidth 32)) (.error e) rfl rfl).toUndisturbed.trans
        (.logHook _ o (some (ascii "sqfs_read")))).trans
          (Quiet.withErrno _ (errnoFromSqfs e)).toUndisturbed
    refine ⟨_, ?_, ?_, hw⟩
    · simp only [runAlone_bind, run_logHook, Option.bind_some, Program.ask_bind, runAlone_deref,
        runAlone_setErrno, Program.pure_eq, runAlone_ret]
      rfl
    · rfl
  | ok data =>
    have hw := (Quiet.afterCall w o (.dataReaderRead entry.inode entry.offset
      (count.setWidth 32)) (.ok data) rfl rfl).toUndisturbed.trans
        (.logHook _ o (some (ascii "sqfs_read")))
    refine ⟨_, ?_, ?_, (hw.withFdMap _).trans (Quiet.withErrno _ 0).toUndisturbed⟩
    · simp only [runAlone_bind, run_logHook, Option.bind_some, Program.ask_bind, runAlone_deref,
        runAlone_fdMapSetOffset, runAlone_setErrno, Program.pure_eq, runAlone_ret, hw.fdMap]
      rfl
    · rfl

/-- The outcome of a read at an offset: a negative one is refused. -/
def preadAnswer (w : World) (entry : FDMapEntry) (count : BitVec b.width) (offset : BitVec 64) :
    Except Errno (List Byte) :=
  if offset.slt 0 then .error Errno.EINVAL
  else (readAnswer o b w entry.inode offset count).mapError errnoFromSqfs

/-- `sqfs_pread` reads at its offset and moves nothing. -/
theorem run_sqfsPreadMapped (w : World) (func : CString) (entry : FDMapEntry)
    (count : BitVec b.width) (offset : BitVec 64) :
    ∃ w', runAlone o (sqfsPreadMapped b func entry count offset) w =
        some (realRead (preadAnswer o b w entry count offset), w') ∧
      (∀ e, preadAnswer o b w entry count offset = .error e → w'.errno = e) ∧
      Undisturbed w w' := by
  unfold sqfsPreadMapped preadAnswer
  by_cases hneg : offset.slt 0 = true
  · rw [if_pos hneg, if_pos hneg]
    refine ⟨w.withErrno Errno.EINVAL, rfl, fun e he => ?_, (Quiet.withErrno _ _).toUndisturbed⟩
    cases he
    rfl
  · have hout : w.outcome o (.dataReaderRead entry.inode offset (count.setWidth 32)) =
      readAnswer o b w entry.inode offset count := rfl
    rw [if_neg hneg, if_neg hneg, Program.ask_bind, runAlone_call, hout]
    cases readAnswer o b w entry.inode offset count with
    | error e =>
      refine ⟨_, ?_, fun e' he => ?_, ((Quiet.afterCall w o (.dataReaderRead entry.inode offset
        (count.setWidth 32)) (.error e) rfl rfl).toUndisturbed.trans
          (.logHook _ o (some func))).trans
            (Quiet.withErrno _ (errnoFromSqfs e)).toUndisturbed⟩
      · simp only [runAlone_bind, run_logHook, Option.bind_some, Program.ask_bind, runAlone_deref,
          runAlone_setErrno, Program.pure_eq, runAlone_ret]
        rfl
      · cases he
        rfl
    | ok data =>
      refine ⟨_, ?_, nofun, ((Quiet.afterCall w o (.dataReaderRead entry.inode offset
        (count.setWidth 32)) (.ok data) rfl rfl).toUndisturbed.trans
          (.logHook _ o (some func))).trans (Quiet.withErrno _ 0).toUndisturbed⟩
      simp only [runAlone_bind, run_logHook, Option.bind_some, Program.ask_bind, runAlone_deref,
        runAlone_setErrno, Program.pure_eq, runAlone_ret]
      rfl

end HookSqfs.Hooks
