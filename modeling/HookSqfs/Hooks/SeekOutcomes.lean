import HookSqfs.Hooks.FileHooks
import HookSqfs.Manager.LookupOutcome

/-! The outcomes of `sqfs_lseek` and `sqfs_lseek64` on a mapped descriptor. -/
namespace HookSqfs.Hooks
open Manager Interaction Tables
variable (o : Oracle)

/-- The offset that `sqfs_lseek_mapped` stores, or the errno it fails with. -/
def seekResult (entry : FDMapEntry) (offset : BitVec 64) (whence : Int) (maxReturn : BitVec 64) :
    Except Errno (BitVec 64) :=
  match sqfsSeekCalculate entry offset whence with
  | .error err => .error err
  | .ok newOffset => if newOffset > maxReturn then .error Errno.EOVERFLOW else .ok newOffset

theorem seekResult_le {entry : FDMapEntry} {offset : BitVec 64} {whence : Int}
    {maxReturn newOffset : BitVec 64}
    (h : seekResult entry offset whence maxReturn = .ok newOffset) : newOffset ≤ maxReturn := by
  unfold seekResult at h
  split at h
  · cases h
  · split at h
    · cases h
    · rename_i hle
      cases h
      exact BitVec.not_lt.mp hle

/-- The table after a seek. -/
def seekTable (fdMap : List FDMapEntry) (key : Int) : Except Errno (BitVec 64) → List FDMapEntry
  | .error _ => fdMap
  | .ok offset => adjust FDMapEntry.key key (fun e => { e with offset }) fdMap

theorem seekTable_keys (fdMap : List FDMapEntry) (key : Int) (r : Except Errno (BitVec 64)) :
    (seekTable fdMap key r).map FDMapEntry.key = fdMap.map FDMapEntry.key := by
  cases r with
  | error e => rfl
  | ok offset =>
    have hkey : ∀ e : FDMapEntry, ({ e with offset := offset } : FDMapEntry).key = e.key := fun _ => rfl
    exact map_adjust hkey key fdMap

/-- `sqfs_lseek_mapped` stores the offset it returns and nothing else; a failure
leaves its errno to the log line. -/
theorem run_sqfsLseekMapped (func : CString) (entry : FDMapEntry) (offset : BitVec 64)
    (whence : Int) (maxReturn : BitVec 64) (w : World) :
    ∃ w', runAlone o (sqfsLseekMapped func entry offset whence maxReturn) w =
        some ((seekResult entry offset whence maxReturn).toOption, w') ∧
      Undisturbed { w with
        fdMap := seekTable w.fdMap entry.key (seekResult entry offset whence maxReturn) } w' ∧
      (∀ e, seekResult entry offset whence maxReturn = .error e →
        w'.errno = w.loggedErrno o (some func) e) := by
  have hfail : ∀ e, Undisturbed { w with fdMap := w.fdMap }
      ((w.withErrno e).logHook o (some func)) := fun e =>
    (Quiet.withErrno w e).toUndisturbed.trans (.logHook _ _ _)
  unfold sqfsLseekMapped seekResult
  cases sqfsSeekCalculate entry offset whence with
  | error err =>
    refine ⟨(w.withErrno err).logHook o (some func), ?_, hfail err, fun e he => ?_⟩
    · simp [runAlone_bind, Except.toOption]
    · cases he
      rfl
  | ok newOffset =>
    by_cases hm : newOffset > maxReturn
    · simp only [hm, if_true]
      refine ⟨(w.withErrno Errno.EOVERFLOW).logHook o (some func), ?_, hfail _, fun e he => ?_⟩
      · simp [runAlone_bind, Except.toOption]
      · cases he
        rfl
    · simp only [hm, if_false]
      refine ⟨(World.withErrno { w with
        fdMap := adjust FDMapEntry.key entry.key (fun e => { e with offset := newOffset })
          w.fdMap } 0).logHook o (some func), ?_, ?_, fun e he => by cases he⟩
      · simp [runAlone_bind, Except.toOption]
      · exact (Quiet.withErrno _ 0).toUndisturbed.trans (.logHook _ _ _)

/-- The largest `off_t`. -/
def maxOff (b : Bits) : Nat := 2 ^ (b.width - 1) - 1

theorem maxSignedValueForSize_toNat (b : Bits) :
    (maxSignedValueForSize (b.width / 8)).toNat = maxOff b := by
  cases b <;> decide

theorem signed_of_le (b : Bits) {n : Nat} (h : n ≤ maxOff b) : b.signed n = n := by
  cases b <;> simp only [maxOff, Bits.width, Bits.signed] at h ⊢ <;>
    exact Int.bmod_eq_of_le (by omega) (by omega)

theorem toInt_signExtend {b : Bits} (offset : BitVec b.width) :
    (offset.signExtend 64).toInt = offset.toInt := by
  apply BitVec.toInt_signExtend_of_le
  cases b <;> decide

theorem toNat_of_nonneg {width : Nat} {offset : BitVec width} (h : 0 ≤ offset.toInt) :
    offset.toNat = offset.toInt.toNat := by
  have := BitVec.toInt_eq_toNat_cond offset
  have := offset.isLt
  split at * <;> omega

theorem toNat_signExtend {b : Bits} {offset : BitVec b.width} (h : 0 ≤ offset.toInt) :
    (offset.signExtend 64).toNat = offset.toNat := by
  rw [toNat_of_nonneg h, ← toInt_signExtend]
  exact toNat_of_nonneg ((toInt_signExtend offset).symm ▸ h)

def lseekResult (b : Bits) (entry : FDMapEntry) (offset : BitVec b.width) (whence : Int) :
    Except Errno (BitVec 64) :=
  seekResult entry (offset.signExtend 64) whence (maxSignedValueForSize (b.width / 8))

/-- What a seek returns for an offset that its type holds. -/
def seekReturn : Except Errno (BitVec 64) → Int
  | .error _ => -1
  | .ok newOffset => newOffset.toNat

private theorem lseek_return {b : Bits} {entry : FDMapEntry} {offset : BitVec b.width}
    {whence : Int} :
    (match lseekResult b entry offset whence with
      | .error _ => -1
      | .ok newOffset => b.signed newOffset.toNat) =
      seekReturn (lseekResult b entry offset whence) := by
  cases h : lseekResult b entry offset whence with
  | error e => rfl
  | ok n => exact signed_of_le b (maxSignedValueForSize_toNat b ▸ seekResult_le h)

private theorem lseek64_return {entry : FDMapEntry} {offset : BitVec 64} {whence : Int} :
    (match seekResult entry offset whence 0x7fffffffffffffff with
      | .error _ => -1
      | .ok newOffset => newOffset.toInt) =
    seekReturn (seekResult entry offset whence 0x7fffffffffffffff) := by
  cases h : seekResult entry offset whence 0x7fffffffffffffff with
  | error e => rfl
  | ok n =>
    have hle : n.toNat ≤ 2 ^ 63 - 1 := seekResult_le h
    exact BitVec.toInt_eq_toNat_of_lt (by omega)

/-- `sqfs_lseek` on a mapped descriptor. -/
theorem run_sqfsLseek (b : Bits) {w : World} {fd : Int} {entry : FDMapEntry}
    (hmapped : lookup FDMapEntry.key fd w.fdMap = some entry) (offset : BitVec b.width)
    (whence : Int) :
    ∃ w', runAlone o (sqfsLseek b fd offset whence) w =
        some (seekReturn (lseekResult b entry offset whence), w') ∧
      w'.fdMap = seekTable w.fdMap fd (lseekResult b entry offset whence) ∧
      (∀ e, lseekResult b entry offset whence = .error e →
        w'.errno = w.loggedErrno o (some (ascii "sqfs_lseek")) e) := by
  obtain ⟨w1, hrun, hw1, herr⟩ := run_sqfsLseekMapped o (ascii "sqfs_lseek") entry
    (offset.signExtend 64) whence (maxSignedValueForSize (b.width / 8)) w.locked
  rw [(lookup_some hmapped).2] at hw1
  refine ⟨w1.unlocked, ?_, hw1.fdMap, herr⟩
  rw [← lseek_return]
  simp only [sqfsLseek, Program.ask_bind, runAlone_lock, runAlone_fdMapFind, World.locked_fdMap,
    hmapped, Option.isSome_some, if_true, runAlone_fdMapEntry, Option.getD_some, runAlone_bind,
    hrun, Option.bind_some, runAlone_unlock, lseekResult]
  cases seekResult entry (offset.signExtend 64) whence (maxSignedValueForSize (b.width / 8)) <;>
    rfl

/-- `sqfs_lseek64` on a mapped descriptor. -/
theorem run_sqfsLseek64 {w : World} {fd : Int} {entry : FDMapEntry}
    (hmapped : lookup FDMapEntry.key fd w.fdMap = some entry) (offset : BitVec 64)
    (whence : Int) :
    ∃ w', runAlone o (sqfsLseek64 fd offset whence) w =
        some (seekReturn (seekResult entry offset whence 0x7fffffffffffffff), w') ∧
      w'.fdMap = seekTable w.fdMap fd (seekResult entry offset whence 0x7fffffffffffffff) ∧
      (∀ e, seekResult entry offset whence 0x7fffffffffffffff = .error e →
        w'.errno = w.loggedErrno o (some (ascii "sqfs_lseek64")) e) := by
  obtain ⟨w1, hrun, hw1, herr⟩ := run_sqfsLseekMapped o (ascii "sqfs_lseek64") entry offset whence
    0x7fffffffffffffff w.locked
  rw [(lookup_some hmapped).2] at hw1
  refine ⟨w1.unlocked, ?_, hw1.fdMap, herr⟩
  rw [← lseek64_return]
  simp only [sqfsLseek64, Program.ask_bind, runAlone_lock, runAlone_fdMapFind, World.locked_fdMap,
    hmapped, Option.isSome_some, if_true, runAlone_fdMapEntry, Option.getD_some, runAlone_bind,
    hrun, Option.bind_some, runAlone_unlock]
  cases seekResult entry offset whence 0x7fffffffffffffff <;> rfl

/-- The end of the file, as far as the return type holds it. -/
theorem lseekResult_end (b : Bits) (entry : FDMapEntry) :
    lseekResult b entry 0 SEEK_END =
      if sqfsInodeSize entry.inode.inode > maxSignedValueForSize (b.width / 8)
      then .error Errno.EOVERFLOW else .ok (sqfsInodeSize entry.inode.inode) := by
  have hzero : (0 : BitVec b.width).signExtend 64 = 0 := by
    cases b <;> decide
  have hadd : sqfsSeekCalculate entry 0 SEEK_END = .ok (sqfsInodeSize entry.inode.inode) := by
    simp [sqfsSeekCalculate, sqfsSeekAdd, SEEK_END, SEEK_SET, SEEK_CUR]
  rw [lseekResult, hzero, seekResult, hadd]

end HookSqfs.Hooks
