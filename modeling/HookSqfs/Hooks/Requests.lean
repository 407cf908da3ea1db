import HookSqfs.Hooks.DirHooks
import HookSqfs.Hooks.FileHooks
import HookSqfs.Manager.LogTwins

/-! What the locked part of an open and the hooks on directory streams request. -/
namespace HookSqfs.Hooks
open Manager Interaction

/-- What `sqfs_open` requests for the inode it has found. -/
def forOpen : Req → Bool
  | .fdMapAdd _ | .call .malloc | .call (.sqfsFree _) | .call (.close _) => true
  | e => e.isBacking

theorem forOpen.of_backing {e : Req} (h : e.isBacking = true) : forOpen e = true := by
  unfold forOpen
  split <;> first | rfl | exact h

theorem forOpen.keepsDepth {e : Req} (h : forOpen e = true) : e.keepsDepth = true := by
  cases e with
  | lock => cases h
  | unlock => cases h
  | _ => rfl

theorem forOpen.plain {e : Req} (h : forOpen e = true) : e.plain = true ∨ e = .getErrno := by
  cases e with
  | getErrno => exact .inr rfl
  | getenv v => cases h
  | logOutputFd => cases h
  | vsnprintf => cases h
  | writeResults => cases h
  | logged bytes => cases h
  | _ => exact .inl rfl

theorem openInsert_all (flags : BitVec 32) (inode : InodePtr) :
    (openInsert flags inode).All fun e => forOpen e := by
  apply ((createBackingFd_all flags).mono fun _ he => forOpen.of_backing he).bind
  intro fd
  apply Program.All.ite
  · exact ⟨rfl, fun _ => trivial⟩
  · refine ⟨rfl, fun fdEntry => ?_⟩
    cases fdEntry with
    | none => exact ⟨rfl, fun _ => ⟨rfl, fun _ => ⟨rfl, fun _ => trivial⟩⟩⟩
    | some addr => exact ⟨rfl, fun _ => ⟨rfl, fun _ => trivial⟩⟩

theorem openInsert_keepsDepth (flags : BitVec 32) (inode : InodePtr) :
    (openInsert flags inode).All fun e => e.keepsDepth :=
  (openInsert_all flags inode).mono fun _ he => forOpen.keepsDepth he

/-- What `sqfs_readdir` requests. -/
def forReaddir : Req → Bool
  | .call (.readdir _) | .lock | .unlock | .dirMapFind _ | .dirMapEntry _ | .dirMapSetCurrent ..
  | .dirMapSetReachedEnd _ | .deref _ => true
  | e => e.isLog

/-- The release of an inode or of a node, and the look at the node before. -/
def isFree : Req → Bool
  | .deref _ | .call (.sqfsFree _) | .call (.free _) => true
  | _ => false

theorem isFree.keepsDepth {e : Req} (h : isFree e = true) : e.keepsDepth = true := by
  cases e with
  | lock => cases h
  | unlock => cases h
  | _ => rfl

theorem isFree.plain {e : Req} (h : isFree e = true) : e.plain = true := by
  cases e with
  | call c => rfl
  | deref objects => rfl
  | _ => cases h

theorem freeSqfsDirEntryList_all (list : List SqfsDirEntryNode) :
    (freeSqfsDirEntryList list).All fun e => isFree e := by
  induction list with
  | nil => trivial
  | cons node next ih => exact ⟨rfl, fun _ => ⟨rfl, fun _ => ⟨rfl, fun _ => ih⟩⟩⟩

private theorem dumpDirent_all (logReaddir : Bool) (shown : List Object) :
    (dumpDirent logReaddir shown).All fun e => forReaddir e := by
  cases logReaddir with
  | false => trivial
  | true =>
    refine ⟨rfl, fun _ => logMsg_all.mono fun e he => ?_⟩
    unfold forReaddir
    split <;> first | rfl | exact he

private theorem readdirLower_all (logReaddir : Bool) (dirp : Nat) :
    (readdirLower logReaddir dirp).All fun e => forReaddir e := by
  have hdump (shown : List Object) (r : Option Dirent) :
      (dumpDirent logReaddir shown >>= fun _ => sqfsUnlock >>= fun _ => pure r).All
        fun e => forReaddir e :=
    (dumpDirent_all logReaddir shown).bind fun _ => ⟨rfl, fun _ => trivial⟩
  refine ⟨rfl, fun found => Program.All.ite (hdump [] none) ⟨rfl, fun _ => ?_⟩⟩
  split
  · exact ⟨rfl, fun _ => trivial⟩
  · rename_i node next _
    refine ⟨rfl, fun _ => ⟨rfl, fun _ => ?_⟩⟩
    split
    · exact ⟨rfl, fun _ => hdump [node.object] (some node.dirent)⟩
    · exact hdump [node.object] (some node.dirent)

theorem sqfsReaddir_all (dirp : Nat) : (sqfsReaddir dirp).All fun e => forReaddir e := by
  refine ⟨rfl, fun value => ⟨rfl, fun _ => ⟨rfl, fun mapped => ?_⟩⟩⟩
  cases mapped with
  | false => exact ⟨rfl, fun _ => ⟨rfl, fun _ => trivial⟩⟩
  | true =>
    refine ⟨rfl, fun found => Program.All.ite ⟨rfl, fun result => ?_⟩ (readdirLower_all _ dirp)⟩
    cases result with
    | none => exact readdirLower_all _ dirp
    | some dirent => exact (dumpDirent_all _ _).bind fun _ => ⟨rfl, fun _ => trivial⟩

end HookSqfs.Hooks
