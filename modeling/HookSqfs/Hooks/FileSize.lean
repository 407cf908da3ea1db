import HookSqfs.Hooks.PathOutcomes
import HookSqfs.Hooks.SeekOutcomes

/-! The size of a file as `sqfs_xstat` and `sqfs_lseek` tell it. -/
namespace HookSqfs.Hooks
open Manager Interaction Tables

theorem blocks_of_le (b : Bits) {size : BitVec 64} (h : size.toNat ≤ maxOff b) :
    b.signed ((size + 511) / 512).toNat = ((size.toNat + 511) / 512 : Nat) := by
  have hmax : maxOff b ≤ 2 ^ 63 - 1 := by cases b <;> decide
  have hsum : ((size + 511) / 512).toNat = (size.toNat + 511) / 512 := by
    rw [BitVec.toNat_udiv, BitVec.toNat_add, Nat.mod_eq_of_lt]
    · rfl
    · have : (511 : BitVec 64).toNat = 511 := rfl
      omega
  rw [hsum, signed_of_le]
  omega

/-- The size of a regular file, as the image records it. -/
def fileSize (inode : Inode) : Option Nat :=
  match inode.data with
  | .file size => some size.toNat
  | .extFile size _ => some size.toNat
  | _ => none

theorem sqfsInodeSize_of_file {inode : Inode} {size : Nat} (h : fileSize inode = some size) :
    (sqfsInodeSize inode).toNat = size := by
  unfold fileSize at h
  unfold sqfsInodeSize
  split at h <;> cases h
  · rename_i hdata
    rw [hdata]
    exact BitVec.toNat_setWidth_of_le (by decide)
  · rename_i hdata
    rw [hdata]

/-- The two calls tell the size of a file of `size` bytes, or both refuse to. -/
def AgreeOnSize (b : Bits) (size : Nat) (stat : Int × Option Stat) (statErrno : Errno)
    (seek : Int) (seekErrno : Errno) : Prop :=
  (stat.1 = 0 → ∃ st, stat.2 = some st ∧ st.stSize = size ∧
    st.stBlocks = ((size + 511) / 512 : Nat) ∧ seek = size) ∧
  (maxOff b < size → stat.1 = -1 ∧ statErrno = Errno.EOVERFLOW ∧ seek = -1 ∧
    seekErrno = Errno.EOVERFLOW)

/-- `sqfs_xstat` and `sqfs_lseek` agree on the size of a regular file exactly when
`off_t` holds it. -/
theorem stat_lseek_agree_iff (b : Bits) (o o' : Oracle) {w v : World}
    {pathname : Option CString} {st : Stat} {e : Errno} {p : InodePtr} {fd : Int}
    {entry : FDMapEntry} {size : Nat} (hreal : w.outcome o (.xstat 3 pathname) = .error e)
    (hrouted : (w.routed pathname).1 = 0)
    (hlookup : w.lookup o 0 (w.routed pathname).2 = .ok p) (hsize : fileSize p.inode = some size)
    (hmapped : lookup FDMapEntry.key fd v.fdMap = some entry)
    (hsame : entry.inode.inode = p.inode) :
    ∃ stat w' seek v', runAlone o (sqfsXstat b 3 pathname (some st)) w = some (stat, w') ∧
      runAlone o' (sqfsLseek b fd 0 SEEK_END) v = some (seek, v') ∧
      (AgreeOnSize b size stat w'.errno seek v'.errno ↔ size ≤ maxOff b) := by
  obtain ⟨w', hstat, -, -⟩ := run_sqfsXstat b o w 3 pathname (some st)
  obtain ⟨v', hseek, -⟩ := run_sqfsLseek o' b hmapped 0 SEEK_END
  have hlower : lowerStat b o w 3 pathname (some st) =
      .ok (sqfsFillStat b w.mgr.blockSize p.inode) := by
    simp [lowerStat, hrouted, hlookup, Except.map]
  have hinode := sqfsInodeSize_of_file hsize
  rw [hreal, hlower] at hstat
  refine ⟨_, w', _, v', hstat, hseek, ?_⟩
  rw [lseekResult_end, hsame]
  have hmax := maxSignedValueForSize_toNat b
  constructor
  · intro h
    by_contra hbig
    have hfail := (h.2 (by omega)).1
    cases hfail
  · intro h
    have hle : ¬ sqfsInodeSize p.inode > maxSignedValueForSize (b.width / 8) := by
      rw [gt_iff_lt, BitVec.lt_def]
      omega
    have hexact : b.signed (sqfsInodeSize p.inode).toNat = size := by
      rw [hinode, signed_of_le b h]
    refine ⟨fun _ => ⟨_, rfl, hexact, ?_, ?_⟩, fun hbig => absurd h (by omega)⟩
    · have hblocks := blocks_of_le b (hinode ▸ h : (sqfsInodeSize p.inode).toNat ≤ maxOff b)
      rw [hinode] at hblocks
      exact hblocks
    · rw [if_neg hle]
      exact congrArg Nat.cast hinode

/-- The process with that file open on descriptor 3. -/
def withFileOpen (size : BitVec 32) : World :=
  { World.initial with
    fdMap := [{ addr := 16, key := 3, inode := { addr := 1024, inode := plainFile size }
                offset := 0 }] }

theorem stat_lseek_agree_iff_small :
    ∃ stat w' seek v',
      runAlone (.serving (plainFile 5)) (sqfsXstat .b32 3 (some hookFile) (some {})) .initial =
        some (stat, w') ∧
      runAlone .bare (sqfsLseek .b32 3 0 SEEK_END) (withFileOpen 5) = some (seek, v') ∧
      (AgreeOnSize .b32 5 stat w'.errno seek v'.errno ↔ 5 ≤ maxOff .b32) :=
  stat_lseek_agree_iff .b32 (.serving (plainFile 5)) .bare rfl (congrArg Prod.fst hookFile_routed) rfl
    rfl rfl rfl

/-- A file of 2 GiB in the 32-bit build: `sqfs_xstat` returns 0 with a negative size,
`sqfs_lseek` refuses. -/
theorem large_file_disagrees :
    ∃ stat w' seek v',
      runAlone (.serving (plainFile 0x80000000)) (sqfsXstat .b32 3 (some hookFile) (some {}))
        .initial = some (stat, w') ∧
      runAlone .bare (sqfsLseek .b32 3 0 SEEK_END) (withFileOpen 0x80000000) = some (seek, v') ∧
      stat.1 = 0 ∧ stat.2.map Stat.stSize = some (-2147483648) ∧ seek = -1 ∧
      ¬ AgreeOnSize .b32 0x80000000 stat w'.errno seek v'.errno := by
  refine ⟨_, _, _, _, rfl, rfl, rfl, by decide +kernel, rfl, ?_⟩
  intro h
  exact absurd (h.2 (by decide)).1 (by decide)

end HookSqfs.Hooks
