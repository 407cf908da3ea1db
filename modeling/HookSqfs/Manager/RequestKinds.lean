import HookSqfs.Interaction.Sections
import HookSqfs.Manager.Lookup

/-! Kinds of requests, and the functions that make only requests of a kind. -/
namespace HookSqfs.Manager
open Interaction

/-- What a line of the log takes. -/
def Req.isLog : Req → Bool
  | .getenv .hooksqfsLogInclude | .setErrno _ | .logOutputFd | .vsnprintf | .writeResults
  | .logged _ => true
  | _ => false

/-- What the backing object takes. -/
def Req.isBacking : Req → Bool
  | .nextTmpDir | .nextTmpFile | .getpid | .getErrno | .setErrno _ => true
  | .call c =>
    match c.fn with
    | .mkdir | .opendir | .rmdir | .memfdCreate | .openat | .unlinkat => true
    | _ => false
  | _ => false

/-- What the lookup of an inode takes. -/
def Req.isLookup : Req → Bool
  | .getMgr | .setErrno _ => true
  | .call c =>
    match c.fn with
    | .dirReaderCreate | .getRootInode | .findByPath | .sqfsDestroy => true
    | _ => false
  | _ => false

/-- A request that leaves the lock alone. -/
def Req.keepsDepth : Req → Bool
  | .lock | .unlock => false
  | _ => true

/-- A request that leaves the lock, the descriptors and `fd_map` alone. -/
def Req.calm : Req → Bool
  | .lock | .unlock | .fdMapAdd _ | .fdMapDel _ | .fdMapSetOffset .. => false
  | .call c => !c.fn.onDescriptors
  | _ => true

theorem Req.isLog.calm {e : Req} (h : e.isLog = true) : e.calm = true := by
  unfold isLog at h
  split at h <;> first | rfl | cases h

theorem Req.calm.keepsDepth {e : Req} (h : e.calm = true) : e.keepsDepth = true := by
  cases e with
  | lock => cases h
  | unlock => cases h
  | _ => rfl

theorem Req.isBacking.keepsDepth {e : Req} (h : e.isBacking = true) : e.keepsDepth = true := by
  cases e with
  | lock => cases h
  | unlock => cases h
  | _ => rfl

theorem Req.isLookup.keepsDepth {e : Req} (h : e.isLookup = true) : e.keepsDepth = true := by
  cases e with
  | lock => cases h
  | unlock => cases h
  | _ => rfl

/-- The lock, the descriptors and `fd_map` are as they were. -/
structure Calm (w w' : World) : Prop where
  depth : w'.depth = w.depth
  fdMap : w'.fdMap = w.fdMap
  fds : w'.fds = w.fds
  owner : w'.owner = w.owner
  insertedBy : w'.insertedBy = w.insertedBy

theorem Calm.trans {u v w : World} (h : Calm u v) (k : Calm v w) : Calm u w :=
  ⟨k.depth.trans h.depth, k.fdMap.trans h.fdMap, k.fds.trans h.fds, k.owner.trans h.owner,
    k.insertedBy.trans h.insertedBy⟩

theorem handle_depth (o : Oracle) (w : World) {e : Req} (h : e.keepsDepth = true) :
    (World.handle o w e).2.depth = w.depth := by
  cases e with
  | getenv v => cases v <;> rfl
  | call c => exact w.afterCall_depth o c _
  | lock => cases h
  | unlock => cases h
  | _ => rfl

theorem handle_calm (o : Oracle) (w : World) {e : Req} (h : e.calm = true) :
    Calm w (World.handle o w e).2 := by
  cases e with
  | getenv v => cases v <;> exact ⟨rfl, rfl, rfl, rfl, rfl⟩
  | call c =>
    have hc : c.fn.onDescriptors = false := by simpa [Req.calm] using h
    exact ⟨w.afterCall_depth o c _, w.afterCall_fdMap o c _, w.afterCall_fds o c _ hc,
      w.afterCall_owner o c _ hc, w.afterCall_insertedBy o c _⟩
  | lock => cases h
  | unlock => cases h
  | fdMapAdd entry => cases h
  | fdMapDel key => cases h
  | fdMapSetOffset key offset => cases h
  | _ => exact ⟨rfl, rfl, rfl, rfl, rfl⟩

/-- A program that leaves the lock alone runs to its end in a section. -/
theorem settle_section (o : Oracle) {α β : Type} {p : Hook α}
    (hp : p.All fun e => e.keepsDepth) (f : α → Hook β) {w w' : World} {a : α}
    (hw : w.depth ≠ 0) (hrun : runAlone o p w = some (a, w')) :
    (p >>= f).settle (World.handle o) World.depth w =
      (f a).settle (World.handle o) World.depth w' ∧ w'.depth = w.depth :=
  Program.settle_bind (h := World.handle o) (fun w _ he => handle_depth o w he) hp f hw hrun

private theorem logWriteLoop_all (results : List WriteResult) (bytes : CString) :
    (logWriteLoop results bytes).All fun e => e.isLog := by
  induction results generalizing bytes with
  | nil => cases bytes <;> simp [logWriteLoop, Req.isLog]
  | cons r results ih =>
    cases bytes with
    | nil => simp [logWriteLoop]
    | cons c bytes =>
      cases r with
      | error e => exact ⟨rfl, fun _ => (ih _).ite trivial⟩
      | ok n =>
        cases n with
        | zero => simp [logWriteLoop]
        | succ n => exact ⟨rfl, fun _ => ih _⟩

private theorem logWrite_all (bytes : CString) : (logWrite bytes).All fun e => e.isLog :=
  ⟨rfl, fun _ => Program.All.ite trivial ⟨rfl, fun results => logWriteLoop_all results bytes⟩⟩

theorem logMsg_all : logMsg.All fun e => e.isLog :=
  ⟨rfl, fun _ => Program.All.ite trivial (logWrite_all _)⟩

theorem logHook_all (funcName : Option CString) : (logHook funcName).All fun e => e.isLog :=
  ⟨rfl, fun _ => Program.All.ite (Program.All.ite trivial
    ⟨rfl, fun _ => Program.All.ite trivial (logWrite_all _)⟩) trivial⟩

theorem logHook_calm (funcName : Option CString) : (logHook funcName).All fun e => e.calm :=
  (logHook_all funcName).mono fun _ he => Req.isLog.calm he

theorem logHook_keepsDepth (funcName : Option CString) :
    (logHook funcName).All fun e => e.keepsDepth :=
  (logHook_calm funcName).mono fun _ he => Req.calm.keepsDepth he

theorem sqfsCheckPath_all (pathname : Option CString) :
    (sqfsCheckPath pathname).All fun e => e.calm :=
  ⟨rfl, fun _ => ⟨rfl, fun _ => trivial⟩⟩

theorem sqfsFindInode_all (relative : Option CString) :
    (sqfsFindInode relative).All fun e => e.isLookup := by
  have hreader : ∀ relative reader,
      (findWithReader relative reader).All fun e => e.isLookup := by
    intro relative reader
    refine Program.All.bind (Program.All.ite ⟨rfl, fun _ => trivial⟩ ⟨rfl, fun _ => trivial⟩) ?_
    intro ret
    refine ⟨rfl, fun _ => ?_⟩
    cases ret with
    | error e => exact ⟨rfl, fun _ => trivial⟩
    | ok inode => trivial
  cases relative with
  | none => exact ⟨rfl, fun _ => trivial⟩
  | some relative =>
    refine ⟨rfl, fun mgr => Program.All.ite ⟨rfl, fun reader => ?_⟩ ⟨rfl, fun _ => trivial⟩⟩
    cases reader with
    | none => exact ⟨rfl, fun _ => trivial⟩
    | some reader => exact hreader relative reader

theorem sqfsFindInode_keepsDepth (relative : Option CString) :
    (sqfsFindInode relative).All fun e => e.keepsDepth :=
  (sqfsFindInode_all relative).mono fun _ he => Req.isLookup.keepsDepth he

theorem createBackingFd_all (flags : BitVec 32) :
    (createBackingFd flags).All fun e => e.isBacking := by
  have hloop : ∀ i, (createUnlinkedTmpFdLoop flags i).All fun e => e.isBacking := by
    intro i
    induction i with
    | zero => exact ⟨rfl, fun _ => trivial⟩
    | succ i ih =>
      refine ⟨rfl, fun _ => ⟨rfl, fun _ => ⟨rfl, fun fd => ?_⟩⟩⟩
      cases fd with
      | error e => exact ⟨rfl, fun _ => Program.All.ite trivial ih⟩
      | ok fd => exact ⟨rfl, fun _ => trivial⟩
  have hmemfd : (createMemfd flags).All fun e => e.isBacking := by
    refine ⟨rfl, fun fd => ?_⟩
    cases fd <;> trivial
  exact hmemfd.bind fun _ => Program.All.ite trivial
    ⟨rfl, fun _ => Program.All.ite trivial (hloop 128)⟩

theorem createBackingDir_all : createBackingDir.All fun e => e.isBacking := by
  have hloop : ∀ i, (createBackingDirLoop i).All fun e => e.isBacking := by
    intro i
    induction i with
    | zero => exact ⟨rfl, fun _ => trivial⟩
    | succ i ih =>
      refine ⟨rfl, fun id => ⟨rfl, fun pid => ⟨rfl, fun made => ?_⟩⟩⟩
      cases made with
      | error e => exact ⟨rfl, fun _ => ih.ite trivial⟩
      | ok u =>
        refine ⟨rfl, fun dir => ⟨rfl, fun _ => ⟨rfl, fun _ => ?_⟩⟩⟩
        cases dir with
        | error e => exact ⟨rfl, fun _ => trivial⟩
        | ok stream => trivial
  exact hloop 128

end HookSqfs.Manager
