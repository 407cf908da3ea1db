import HookSqfs.Hooks.OpenCloseOutlines
import HookSqfs.Hooks.PathHooks
import HookSqfs.Interaction.Tracking
import HookSqfs.Manager.ImageLoading

/-! The depth of the recursive lock along every path of an entry point. -/
namespace HookSqfs.Hooks
open Manager Interaction

/-- A request that reads or writes a map, an entry of it, the image handles or the
superblock. The fields of an entry, of its list and of its inode are reached through
pointers; the readers made from the handles and the objects that entries hold are used and
released in the place of what they belong to. -/
def guarded : Req → Bool
  | .getMgr | .fdMapFind _ | .fdMapEntry _ | .fdMapAdd _ | .fdMapDel _ | .fdMapSetOffset ..
  | .dirMapFind _ | .dirMapEntry _ | .dirMapAdd _ | .dirMapDel _ | .dirMapSetList ..
  | .dirMapSetCurrent .. | .dirMapSetReachedEnd _ | .deref _ => true
  | .call c =>
    match c.fn with
    | .dirReaderCreate | .getRootInode | .findByPath | .openDir | .dirReaderRead
    | .dirReaderGetInode | .dataReaderRead | .sqfsFree | .sqfsDestroy | .free => true
    | _ => false
  | _ => false

/-- The same of a request that loads the image. -/
def guardedLoad : ImageReq → Bool
  | .hook e => guarded e
  | .setFile _ | .setCompressor _ | .setDataReader _ | .getSuper => true
  | .call c =>
    match c with
    | .openFile _ => false
    | _ => true

/-- The depth, followed through a program: the lock is not released where it is not held,
and a guarded request is made where it is. -/
def lockDepth : Tracker Req Answer Nat
  | .lock, _, depth => some (depth + 1)
  | .unlock, _, depth => if depth = 0 then none else some (depth - 1)
  | e, _, depth => if guarded e = true ∧ depth = 0 then none else some depth

def loadDepth : Tracker ImageReq ImageAnswer Nat
  | .hook e, a, depth => lockDepth e a depth
  | e, _, depth => if guardedLoad e = true ∧ depth = 0 then none else some depth

/-- From any depth, every path makes its guarded requests under the lock and, where it
returns, returns at that depth. -/
def Balanced {α : Type} (p : Hook α) : Prop :=
  ∀ depth, p.Tracks lockDepth depth fun _ depth' => depth' = depth

section
variable {α β : Type} {depth : Nat} {Q : α → Nat → Prop}

private theorem lockDepth_open {e : Req} (a : Answer e) (hk : e.keepsDepth = true)
    (hg : guarded e = false) : lockDepth e a depth = some depth := by
  cases e with
  | lock => cases hk
  | unlock => cases hk
  | _ => simp [lockDepth, hg]

private theorem lockDepth_held {e : Req} (a : Answer e) (hk : e.keepsDepth = true) :
    lockDepth e a (depth + 1) = some (depth + 1) := by
  cases e with
  | lock => cases hk
  | unlock => cases hk
  | _ => simp [lockDepth]

private theorem lockDepth_kept {depth' : Nat} {e : Req} {a : Answer e} (hk : e.keepsDepth = true)
    (he : lockDepth e a depth = some depth') : depth = depth' := by
  cases e with
  | lock => cases hk
  | unlock => cases hk
  | _ =>
    simp only [lockDepth, Option.ite_none_left_eq_some, Option.some.injEq] at he
    exact he.2

private theorem tracks_lock {k : Unit → Hook α} (h : (k ()).Tracks lockDepth (depth + 1) Q) :
    (Program.request .lock k : Hook α).Tracks lockDepth depth Q :=
  fun _ => ⟨depth + 1, rfl, h⟩

private theorem tracks_unlock {k : Unit → Hook α} (h : (k ()).Tracks lockDepth depth Q) :
    (Program.request .unlock k : Hook α).Tracks lockDepth (depth + 1) Q :=
  fun _ => ⟨depth, rfl, h⟩

/-- A request while the lock is held. -/
private theorem tracks_held {e : Req} {k : Answer e → Hook α} (hk : e.keepsDepth = true)
    (h : ∀ a, (k a).Tracks lockDepth (depth + 1) Q) :
    (Program.request e k : Hook α).Tracks lockDepth (depth + 1) Q :=
  .idle (fun a => lockDepth_held a hk) h

/-- A request that needs no lock. -/
private theorem tracks_open {e : Req} {k : Answer e → Hook α} (hk : e.keepsDepth = true)
    (hg : guarded e = false) (h : ∀ a, (k a).Tracks lockDepth depth Q) :
    (Program.request e k : Hook α).Tracks lockDepth depth Q :=
  .idle (fun a => lockDepth_open a hk hg) h

/-- A program that leaves the lock alone, run while it is held. -/
private theorem tracks_section {p : Hook α} (hp : p.All fun e => e.keepsDepth) :
    p.Tracks lockDepth (depth + 1) fun _ depth' => depth' = depth + 1 :=
  .of_all (fun _ a he => lockDepth_held a he) hp

theorem Balanced.ret (a : α) : Balanced (.ret a) := fun _ => rfl

theorem Balanced.bind {p : Hook α} {f : α → Hook β} (hp : Balanced p) (hf : ∀ a, Balanced (f a)) :
    Balanced (p >>= f) := by
  intro depth
  apply (hp depth).bind
  intro a depth' he
  rw [he]
  exact hf a depth

theorem Balanced.request {e : Req} {k : Answer e → Hook α} (hk : e.keepsDepth = true)
    (hg : guarded e = false) (h : ∀ a, Balanced (k a)) : Balanced (.request e k : Hook α) :=
  fun depth => tracks_open hk hg fun a => h a depth

theorem Balanced.ite {c : Prop} [Decidable c] {p q : Hook α} (hp : Balanced p)
    (hq : Balanced q) : Balanced (if c then p else q) := by
  split
  · exact hp
  · exact hq

private theorem balanced_log {p : Hook α} (hp : p.All fun e => e.isLog) : Balanced p := by
  intro depth
  refine .of_all (fun e a he => lockDepth_open a (Req.calm.keepsDepth (Req.isLog.calm he)) ?_) hp
  unfold Req.isLog at he
  split at he <;> first | rfl | cases he

/-- A hook that looks its descriptor up. -/
private theorem balanced_dispatch {fd : Int} {mapped : Hook α} {after : α → Hook β}
    {fall : Hook β} (hmapped : mapped.All fun e => e.keepsDepth) (hafter : ∀ a, Balanced (after a))
    (hfall : Balanced fall) : Balanced (dispatch fd mapped after fall) := by
  intro depth
  apply tracks_lock
  apply tracks_held rfl
  intro found
  apply Program.Tracks.ite
  · intro _
    apply (tracks_section hmapped).bind
    rintro a _ rfl
    exact tracks_unlock (hafter a depth)
  · intro _
    exact tracks_unlock (hfall depth)

end

section
variable {b : Bits}

theorem sqfsRead_balanced (fd : Int) (count : BitVec b.width) : Balanced (sqfsRead b fd count) := by
  rw [sqfsRead_eq]
  exact balanced_dispatch (sqfsReadMapped_all fd count) .ret (.request rfl rfl fun _ => .ret _)

theorem sqfsPread_balanced (fd : Int) (count offset : BitVec b.width) :
    Balanced (sqfsPread b fd count offset) := by
  rw [sqfsPread_eq]
  exact balanced_dispatch ⟨rfl, fun entry => sqfsPreadMapped_all _ entry count _⟩ .ret
    (.request rfl rfl fun _ => .ret _)

theorem sqfsPread64_balanced (fd : Int) (count : BitVec b.width) (offset : BitVec 64) :
    Balanced (sqfsPread64 b fd count offset) := by
  rw [sqfsPread64_eq]
  refine balanced_dispatch ⟨rfl, fun entry => sqfsPreadMapped_all _ entry count _⟩ .ret ?_
  exact .request rfl rfl fun present => .ite (.request rfl rfl fun _ => .ret _)
    (.request rfl rfl fun _ => .ret _)

theorem sqfsLseek_balanced (fd : Int) (offset : BitVec b.width) (whence : Int) :
    Balanced (sqfsLseek b fd offset whence) := by
  rw [sqfsLseek_eq]
  refine balanced_dispatch ⟨rfl, fun entry => sqfsLseekMapped_all _ entry _ whence _⟩
    (fun a => ?_) ?_
  · cases a with
    | none => exact .ret _
    | some newOffset => exact .ret _
  · exact .request rfl rfl fun _ => .ret _

theorem sqfsLseek64_balanced (fd : Int) (offset : BitVec 64) (whence : Int) :
    Balanced (sqfsLseek64 fd offset whence) := by
  rw [sqfsLseek64_eq]
  refine balanced_dispatch ⟨rfl, fun entry => sqfsLseekMapped_all _ entry _ whence _⟩
    (fun a => ?_) ?_
  · cases a with
    | none => exact .ret _
    | some newOffset => exact .ret _
  · exact .request rfl rfl fun present => .ite (.request rfl rfl fun _ => .ret _)
      (.request rfl rfl fun _ => .ret _)

end

private theorem sqfsCheckPath_balanced (pathname : Option CString) :
    Balanced (sqfsCheckPath pathname) :=
  .request rfl rfl fun _ => .request rfl rfl fun _ => .ret _

private theorem logHook_balanced (funcName : Option CString) : Balanced (logHook funcName) :=
  balanced_log (logHook_all funcName)

theorem sqfsOpen_balanced (pathname : Option CString) (flags mode : BitVec 32) :
    Balanced (sqfsOpen pathname flags mode) := by
  refine .request rfl rfl fun fd => ?_
  cases fd with
  | ok fd => exact .ret _
  | error e =>
    refine .request rfl rfl fun savedErrno => (sqfsCheckPath_balanced pathname).bind fun checked => ?_
    apply Balanced.ite
    · exact .request rfl rfl fun _ => .ret _
    · intro depth
      apply tracks_lock
      apply (tracks_section (sqfsFindInode_keepsDepth _)).bind
      rintro inode _ rfl
      cases inode with
      | none =>
        apply tracks_held rfl
        intro findErrno
        apply tracks_unlock
        exact (logHook_balanced _).bind (fun _ => .request rfl rfl fun _ => .ret _) depth
      | some inode =>
        apply (tracks_section (openInsert_keepsDepth flags inode)).bind
        rintro fd _ rfl
        exact tracks_unlock ((logHook_balanced _).bind (fun _ => .ret _) depth)

private theorem sqfsCloseImpl_balanced (func : CString) (fd : Int)
    {realClose : Hook (Except Errno Unit)} (hclose : Balanced realClose) :
    Balanced (sqfsCloseImpl func fd (some realClose)) := by
  intro depth
  apply tracks_lock
  apply tracks_held rfl
  intro found
  apply Program.Tracks.ite
  · intro _
    apply (tracks_section (sqfsCloseMapped_all fd)).bind
    rintro _ _ rfl
    apply tracks_unlock
    refine hclose.bind (fun ret => .request rfl rfl fun savedErrno => ?_) depth
    exact (logHook_balanced _).bind fun _ => .request rfl rfl fun _ => .ret _
  · intro _
    exact tracks_unlock (hclose.bind (fun ret => .ret _) depth)

private theorem sqfsCloseImpl_null (func : CString) (fd : Int) :
    Balanced (sqfsCloseImpl func fd none) :=
  .request rfl rfl fun _ => .ret _

theorem sqfsClose_balanced (fd : Int) : Balanced (sqfsClose fd) := by
  refine .request rfl rfl fun present => ?_
  cases present with
  | false => exact sqfsCloseImpl_null (ascii "sqfs_close") fd
  | true => exact sqfsCloseImpl_balanced _ fd (.request rfl rfl fun _ => .ret _)

theorem sqfsCloseNocancel_balanced (fd : Int) : Balanced (sqfsCloseNocancel fd) := by
  refine .request rfl rfl fun nocancel => .request rfl rfl fun present => ?_
  cases nocancel with
  | true => exact sqfsCloseImpl_balanced _ fd (.request rfl rfl fun _ => .ret _)
  | false =>
    cases present with
    | false => exact sqfsCloseImpl_null (ascii "sqfs_close_nocancel") fd
    | true => exact sqfsCloseImpl_balanced _ fd (.request rfl rfl fun _ => .ret _)

theorem sqfsStatImpl_all (b : Bits) (relative : Option CString) :
    (sqfsStatImpl b relative).All fun e => e.keepsDepth := by
  apply (sqfsFindInode_keepsDepth relative).bind
  intro inode
  cases inode with
  | none => trivial
  | some inode => exact ⟨rfl, fun _ => ⟨rfl, fun _ => ⟨rfl, fun _ => trivial⟩⟩⟩

section
variable (b : Bits)

theorem sqfsXstat_balanced (ver : Int) (pathname : Option CString) (buf : Option Stat) :
    Balanced (sqfsXstat b ver pathname buf) := by
  refine .request rfl rfl fun real => ?_
  cases real with
  | ok st => exact .ret _
  | error e =>
    apply (sqfsCheckPath_balanced pathname).bind
    intro checked
    apply Balanced.ite
    · exact .request rfl rfl fun _ => .ret _
    · cases buf with
      | none => exact .request rfl rfl fun _ => .ret _
      | some st =>
        apply Balanced.ite
        · exact (logHook_balanced _).bind fun _ => .request rfl rfl fun _ => .ret _
        · intro depth
          apply tracks_lock
          apply (tracks_section (sqfsStatImpl_all b _)).bind
          rintro ok _ rfl
          apply tracks_held rfl
          intro savedErrno
          apply tracks_unlock
          apply tracks_open rfl rfl
          intro _
          cases ok <;> rfl

private theorem accessLog_balanced (pathname : Option CString) : Balanced (accessLog pathname) :=
  .request rfl rfl fun _ => .request rfl rfl fun _ => .ite (logHook_balanced _) (.ret _)

theorem sqfsAccess_balanced (pathname : Option CString) (mode : BitVec 32) :
    Balanced (sqfsAccess b pathname mode) := by
  have herr : Balanced (accessReturnErr pathname) :=
    (accessLog_balanced pathname).bind fun _ => .ret _
  refine .request rfl rfl fun real => ?_
  cases real with
  | ok u => exact (accessLog_balanced pathname).bind fun _ => .ret _
  | error e =>
    apply (sqfsCheckPath_balanced pathname).bind
    intro checked
    apply Balanced.ite
    · exact .request rfl rfl fun _ => herr
    · intro depth
      apply tracks_lock
      apply (tracks_section (sqfsStatImpl_all b _)).bind
      rintro stat _ rfl
      apply tracks_held rfl
      intro savedErrno
      apply tracks_unlock
      cases stat with
      | none => exact tracks_open rfl rfl fun _ => herr depth
      | some st =>
        dsimp only [Program.bind]
        cases accessDecision st.stMode mode with
        | none => exact (logHook_balanced _).bind (fun _ => .ret _) depth
        | some e => exact tracks_open rfl rfl fun _ => herr depth

end

private theorem freeSqfsDirEntryList_depth (list : List SqfsDirEntryNode) :
    (freeSqfsDirEntryList list).All fun e => e.keepsDepth :=
  (freeSqfsDirEntryList_all list).mono fun _ he => isFree.keepsDepth he

section
variable {depth : Nat}

private theorem enumerateDiscard_depth (key : Nat) (list : List SqfsDirEntryNode) :
    (enumerateDiscard key list).All fun e => e.keepsDepth :=
  (freeSqfsDirEntryList_depth list).bind fun _ => ⟨rfl, fun _ => trivial⟩

private theorem logMsg_depth : logMsg.All fun e => e.keepsDepth :=
  logMsg_all.mono fun _ he => Req.calm.keepsDepth (Req.isLog.calm he)

/-- The loop, up to a name that overruns `d_name`. -/
private theorem tracks_enumerateDirLoop (b : Bits) (key : Nat) (final : Except SqfsError Unit)
    (items : List DirItem) (list : List SqfsDirEntryNode) :
    (enumerateDirLoop b key final items list).Tracks lockDepth (depth + 1)
      fun _ depth' => depth' = depth + 1 := by
  have hdiscard (addr : Nat) (list : List SqfsDirEntryNode) :
      (logMsg >>= fun _ => call (.sqfsFree addr) >>= fun _ => enumerateDiscard key list).Tracks
        lockDepth (depth + 1) fun _ depth' => depth' = depth + 1 :=
    tracks_section (logMsg_depth.bind fun _ => ⟨rfl, fun _ => enumerateDiscard_depth key list⟩)
  induction items generalizing list with
  | nil =>
    apply tracks_held rfl
    intro _
    cases final with
    | ok u => rfl
    | error e => exact tracks_section (logMsg_depth.bind fun _ => enumerateDiscard_depth key list)
  | cons item items ih =>
    apply tracks_held rfl
    intro _
    apply tracks_held rfl
    intro node
    cases node with
    | none => exact hdiscard _ list
    | some addr =>
      apply tracks_held rfl
      intro _
      dsimp only [Program.bind]
      cases item.inode with
      | error e => exact tracks_held rfl fun _ => hdiscard _ list
      | ok inode =>
        apply tracks_held rfl
        intro _
        dsimp only [Program.bind]
        split
        · trivial
        · exact tracks_held rfl fun _ => tracks_held rfl fun _ => ih _

private theorem tracks_opendirOutUnlockOnly (underlyingDir result : Option Nat) :
    (opendirOutUnlockOnly underlyingDir result).Tracks lockDepth (depth + 1)
      fun _ depth' => depth' = depth := by
  apply tracks_held rfl
  intro savedErrno
  apply tracks_unlock
  cases underlyingDir with
  | none => rfl
  | some dir =>
    cases result with
    | some r => rfl
    | none => exact tracks_open rfl rfl fun _ => tracks_open rfl rfl fun _ => rfl

private theorem tracks_opendirOut (underlyingDir : Option Nat) (dirReader : Nat)
    (inode : Option Nat) :
    (opendirOut underlyingDir dirReader inode).Tracks lockDepth (depth + 1)
      fun _ depth' => depth' = depth := by
  have hfree : (sqfsFree inode).All fun e => e.keepsDepth := by
    cases inode with
    | none => trivial
    | some addr => exact ⟨rfl, fun _ => trivial⟩
  apply tracks_held rfl
  intro savedErrno
  apply (tracks_section hfree).bind
  rintro _ _ rfl
  apply tracks_held rfl
  intro _
  apply tracks_held rfl
  intro _
  exact tracks_opendirOutUnlockOnly underlyingDir none

private theorem opendirBacking_depth (realDir : Option Nat) :
    (opendirBacking realDir).All fun e => e.keepsDepth := by
  cases realDir with
  | some dir => trivial
  | none => exact createBackingDir_all.mono fun _ he => Req.isBacking.keepsDepth he

private theorem tracks_opendirInsert (b : Bits) (realDir : Option Nat) (dirReader : Nat)
    (inode : InodePtr) (cursor : DirCursor) :
    (opendirInsert b realDir dirReader inode cursor).Tracks lockDepth (depth + 1)
      fun _ depth' => depth' = depth := by
  apply (tracks_section (opendirBacking_depth realDir)).bind
  rintro underlyingDir _ rfl
  cases underlyingDir with
  | none => exact tracks_opendirOut none dirReader (some inode.addr)
  | some dir =>
    apply tracks_held rfl
    intro dirEntry
    cases dirEntry with
    | none => exact tracks_held rfl fun _ => tracks_opendirOut (some dir) dirReader (some inode.addr)
    | some addr =>
      apply tracks_held rfl
      intro _
      apply (tracks_enumerateDirLoop b dir cursor.final cursor.items []).bind
      rintro _ _ rfl
      exact tracks_held rfl fun _ => tracks_opendirOutUnlockOnly (some dir) (some dir)

private theorem tracks_opendirLookup (b : Bits) (realDir : Option Nat) (relative : CString)
    (dirReader : Nat) :
    (opendirLookup b realDir relative dirReader).Tracks lockDepth (depth + 1)
      fun _ depth' => depth' = depth := by
  apply (tracks_section (sqfsFindInode_keepsDepth (some relative))).bind
  rintro inode _ rfl
  cases inode with
  | none =>
    apply tracks_held rfl
    intro savedErrno
    apply (tracks_section (logHook_keepsDepth _)).bind
    rintro _ _ rfl
    cases realDir with
    | some dir =>
      apply tracks_held rfl
      intro _
      apply tracks_held rfl
      intro _
      exact tracks_opendirOutUnlockOnly (some dir) (some dir)
    | none => exact tracks_held rfl fun _ => tracks_opendirOut none dirReader none
  | some inode =>
    apply tracks_held rfl
    intro _
    apply Program.Tracks.ite
    · intro _
      apply tracks_held rfl
      intro ret
      cases ret with
      | error e =>
        apply (tracks_section logMsg_depth).bind
        rintro _ _ rfl
        exact tracks_held rfl fun _ => tracks_opendirOut realDir dirReader (some inode.addr)
      | ok cursor => exact tracks_opendirInsert b realDir dirReader inode cursor
    · intro _
      exact tracks_held rfl fun _ => tracks_opendirOut realDir dirReader (some inode.addr)

theorem sqfsOpendir_balanced (b : Bits) (name : Option CString) : Balanced (sqfsOpendir b name) := by
  refine .request rfl rfl fun real => (sqfsCheckPath_balanced name).bind fun checked => ?_
  apply Balanced.ite
  · exact .request rfl rfl fun _ => .ret _
  · apply (logHook_balanced _).bind
    intro _ depth
    apply tracks_lock
    apply tracks_held rfl
    intro mgr
    apply Program.Tracks.ite
    · intro _
      apply tracks_held rfl
      intro dirReader
      cases dirReader with
      | none => exact tracks_held rfl fun _ => tracks_opendirOutUnlockOnly _ none
      | some dirReader => exact tracks_opendirLookup b _ _ dirReader
    · intro _
      exact tracks_held rfl fun _ => tracks_opendirOutUnlockOnly _ _

theorem dumpDirent_depth (logReaddir : Bool) (shown : List Object) :
    (dumpDirent logReaddir shown).All fun e => e.keepsDepth :=
  .ite ⟨rfl, fun _ => logMsg_depth⟩ trivial

private theorem tracks_dump (logReaddir : Bool) (shown : List Object) (r : Option Dirent) :
    (dumpDirent logReaddir shown >>= fun _ => sqfsUnlock >>= fun _ => .ret r).Tracks lockDepth
      (depth + 1) fun _ depth' => depth' = depth := by
  apply (tracks_section (dumpDirent_depth logReaddir shown)).bind
  rintro _ _ rfl
  exact tracks_unlock rfl

private theorem tracks_readdirLower (logReaddir : Bool) (dirp : Nat) :
    (readdirLower logReaddir dirp).Tracks lockDepth (depth + 1)
      fun _ depth' => depth' = depth := by
  apply tracks_held rfl
  intro found
  apply Program.Tracks.ite
  · intro _
    exact tracks_dump logReaddir [] none
  · intro _
    apply tracks_held rfl
    intro _
    dsimp only [Program.bind]
    split
    · exact tracks_unlock rfl
    · rename_i node next _
      apply tracks_held rfl
      intro _
      apply tracks_held rfl
      intro _
      have hmark : (if next = [] then ask (.dirMapSetReachedEnd dirp) else pure () : Hook Unit).All
          fun e => e.keepsDepth := Program.All.ite ⟨rfl, fun _ => trivial⟩ trivial
      apply (tracks_section hmark).bind
      rintro _ _ rfl
      exact tracks_dump logReaddir [node.object] (some node.dirent)

theorem sqfsReaddir_balanced (dirp : Nat) : Balanced (sqfsReaddir dirp) := by
  refine .request rfl rfl fun value => fun depth => ?_
  apply tracks_lock
  apply tracks_held rfl
  intro mapped
  apply Program.Tracks.ite
  · intro _
    apply tracks_held rfl
    intro found
    apply Program.Tracks.ite
    · intro _
      apply tracks_held rfl
      intro result
      cases result with
      | some dirent => exact tracks_dump _ [] (some dirent)
      | none => exact tracks_readdirLower _ dirp
    · intro _
      exact tracks_readdirLower _ dirp
  · intro _
    exact tracks_unlock (tracks_open rfl rfl fun _ => rfl)

theorem sqfsClosedir_balanced (dir : Nat) : Balanced (sqfsClosedir dir) := by
  have hclose (key : Nat) {k : Except Errno Unit → Hook Int} (herror : ∀ e, Balanced (k (.error e)))
      (hok : Balanced (k (.ok ()))) : Balanced (call (.closedir key) >>= k) := by
    refine .request rfl rfl fun ret => ?_
    cases ret with
    | error e => exact herror e
    | ok u => exact hok
  intro depth
  apply tracks_lock
  apply tracks_held rfl
  intro mapped
  apply Program.Tracks.ite
  · intro _
    apply tracks_held rfl
    intro found
    apply tracks_held rfl
    intro _
    apply tracks_held rfl
    intro _
    apply tracks_held rfl
    intro _
    apply tracks_held rfl
    intro _
    apply (tracks_section (freeSqfsDirEntryList_depth found.dirEntryList)).bind
    rintro _ _ rfl
    apply tracks_held rfl
    intro _
    apply tracks_held rfl
    intro _
    apply (tracks_section (logHook_keepsDepth _)).bind
    rintro _ _ rfl
    exact tracks_unlock (hclose found.key (fun _ => .ret _) (.ret _) depth)
  · intro _
    exact tracks_unlock (hclose dir (fun _ => .ret _) (.ret _) depth)

end

/-! `sqfs_mgr_load_image`. -/

theorem tracks_relay {α : Type} {p : Hook α} {depth : Nat} {Q : α → Nat → Prop}
    (hp : p.Tracks lockDepth depth Q) : (relay p).Tracks loadDepth depth Q := by
  apply Program.Tracks.interpret _ hp
  intro e depth h a
  obtain ⟨depth', hdepth⟩ := h a
  exact ⟨depth', hdepth, hdepth⟩

private def keepsLoadDepth : ImageReq → Bool
  | .hook e => e.keepsDepth
  | _ => true

private theorem loadDepth_held {e : ImageReq} (a : ImageAnswer e) {depth : Nat}
    (h : keepsLoadDepth e = true) : loadDepth e a (depth + 1) = some (depth + 1) := by
  cases e with
  | hook e => exact lockDepth_held a h
  | _ => simp [loadDepth]

private theorem relay_logMsg_all : (relay logMsg).All fun e => keepsLoadDepth e :=
  logMsg_depth.interpret fun _ he => ⟨he, fun _ => trivial⟩

private theorem sqfsMgrUnloadImage_all : sqfsMgrUnloadImage.All fun e => keepsLoadDepth e := by
  refine ⟨rfl, fun mgr => ?_⟩
  obtain ⟨file, compressor, dataReader, blockSize⟩ := mgr
  cases dataReader <;> cases compressor <;> cases file <;>
    simp [Program.bind, load, Program.ask, Program.All, keepsLoadDepth]

private theorem loadFailed_all : loadFailed.All fun e => keepsLoadDepth e :=
  relay_logMsg_all.bind fun _ => sqfsMgrUnloadImage_all.bind fun _ => trivial

private theorem loadDataReader_all (file compressor : Nat) (super : Super) :
    (loadDataReader file compressor super).All fun e => keepsLoadDepth e := by
  refine ⟨rfl, fun dataReader => ⟨rfl, fun _ => ?_⟩⟩
  cases dataReader with
  | none => exact loadFailed_all
  | some dataReader =>
    refine ⟨rfl, fun ret => ?_⟩
    cases ret with
    | error e => exact loadFailed_all
    | ok u => trivial

private theorem loadOptions_all (file compressor : Nat) (super : Super) :
    (loadOptions file compressor super).All fun e => keepsLoadDepth e := by
  refine Program.All.ite ⟨rfl, fun ret => ?_⟩ (loadDataReader_all file compressor super)
  cases ret with
  | error e => exact loadFailed_all
  | ok u => exact loadDataReader_all file compressor super

private theorem loadCompressor_all (file : Nat) (super : Super) :
    (loadCompressor file super).All fun e => keepsLoadDepth e := by
  refine ⟨rfl, fun ret => ?_⟩
  cases ret with
  | error e => exact loadFailed_all
  | ok u =>
    refine ⟨rfl, fun ret => ?_⟩
    cases ret with
    | error e => exact loadFailed_all
    | ok compressor => exact loadOptions_all file compressor super

private theorem sqfsUtilSuperInfo_all : sqfsUtilSuperInfo.All fun e => keepsLoadDepth e :=
  relay_logMsg_all.bind fun _ => relay_logMsg_all.bind fun _ => relay_logMsg_all.bind fun _ =>
    relay_logMsg_all.bind fun _ => relay_logMsg_all

private theorem loadSuper_all (file : Nat) : (loadSuper file).All fun e => keepsLoadDepth e := by
  refine ⟨rfl, fun ret => ?_⟩
  cases ret with
  | error e => exact loadFailed_all
  | ok super =>
    apply relay_logMsg_all.bind
    exact fun _ => ⟨rfl, fun super => sqfsUtilSuperInfo_all.bind fun _ => loadCompressor_all file super⟩

private theorem loadFile_all : loadFile.All fun e => keepsLoadDepth e := by
  refine ⟨rfl, fun sqfsPath => ?_⟩
  cases sqfsPath with
  | none => exact relay_logMsg_all.bind fun _ => trivial
  | some sqfsPath =>
    refine ⟨rfl, fun file => ⟨rfl, fun _ => ?_⟩⟩
    cases file with
    | none => exact relay_logMsg_all.bind fun _ => trivial
    | some file => exact loadSuper_all file

theorem sqfsMgrLoadImage_all : sqfsMgrLoadImage.All fun _ => True := by
  have hbranch (mgr : Mgr) : (if mgr.loaded then pure true else loadFile : Loader Bool).All
      fun _ => True := Program.All.ite trivial (loadFile_all.mono fun _ _ => trivial)
  exact ⟨trivial, fun _ => ⟨trivial, fun mgr => (hbranch mgr).bind fun _ => ⟨trivial, fun _ => trivial⟩⟩⟩

theorem tracks_sqfsMgrLoadImage (depth : Nat) :
    sqfsMgrLoadImage.Tracks loadDepth depth fun _ depth' => depth' = depth := by
  refine fun _ => ⟨depth + 1, rfl, ?_⟩
  apply Program.Tracks.idle (fun a => loadDepth_held a rfl)
  intro mgr
  have hbranch : (if mgr.loaded then pure true else loadFile : Loader Bool).All
      fun e => keepsLoadDepth e := Program.All.ite trivial loadFile_all
  apply (Program.Tracks.of_all (fun _ a he => loadDepth_held a he) hbranch).bind
  rintro ok _ rfl
  exact fun _ => ⟨depth, rfl, rfl⟩

/-- A call of an entry point of the manager. -/
inductive EntryPoint (b : Bits) : {α : Type} → Loader α → Prop
  | loadImage : EntryPoint b sqfsMgrLoadImage
  | open (pathname : Option CString) (flags mode : BitVec 32) :
    EntryPoint b (relay (sqfsOpen pathname flags mode))
  | read (fd : Int) (count : BitVec b.width) : EntryPoint b (relay (sqfsRead b fd count))
  | pread (fd : Int) (count offset : BitVec b.width) :
    EntryPoint b (relay (sqfsPread b fd count offset))
  | pread64 (fd : Int) (count : BitVec b.width) (offset : BitVec 64) :
    EntryPoint b (relay (sqfsPread64 b fd count offset))
  | lseek (fd : Int) (offset : BitVec b.width) (whence : Int) :
    EntryPoint b (relay (sqfsLseek b fd offset whence))
  | lseek64 (fd : Int) (offset : BitVec 64) (whence : Int) :
    EntryPoint b (relay (sqfsLseek64 fd offset whence))
  | close (fd : Int) : EntryPoint b (relay (sqfsClose fd))
  | closeNocancel (fd : Int) : EntryPoint b (relay (sqfsCloseNocancel fd))
  | xstat (ver : Int) (pathname : Option CString) (buf : Option Stat) :
    EntryPoint b (relay (sqfsXstat b ver pathname buf))
  | access (pathname : Option CString) (mode : BitVec 32) :
    EntryPoint b (relay (sqfsAccess b pathname mode))
  | opendir (name : Option CString) : EntryPoint b (relay (sqfsOpendir b name))
  | readdir (dirp : Nat) : EntryPoint b (relay (sqfsReaddir dirp))
  | closedir (dir : Nat) : EntryPoint b (relay (sqfsClosedir dir))

theorem EntryPoint.tracks {b : Bits} {α : Type} {p : Loader α} (h : EntryPoint b p)
    (depth : Nat) : p.Tracks loadDepth depth fun _ depth' => depth' = depth := by
  cases h with
  | loadImage => exact tracks_sqfsMgrLoadImage depth
  | «open» pathname flags mode => exact tracks_relay (sqfsOpen_balanced pathname flags mode depth)
  | read fd count => exact tracks_relay (sqfsRead_balanced fd count depth)
  | pread fd count offset => exact tracks_relay (sqfsPread_balanced fd count offset depth)
  | pread64 fd count offset => exact tracks_relay (sqfsPread64_balanced fd count offset depth)
  | lseek fd offset whence => exact tracks_relay (sqfsLseek_balanced fd offset whence depth)
  | lseek64 fd offset whence => exact tracks_relay (sqfsLseek64_balanced fd offset whence depth)
  | close fd => exact tracks_relay (sqfsClose_balanced fd depth)
  | closeNocancel fd => exact tracks_relay (sqfsCloseNocancel_balanced fd depth)
  | xstat ver pathname buf => exact tracks_relay (sqfsXstat_balanced b ver pathname buf depth)
  | access pathname mode => exact tracks_relay (sqfsAccess_balanced b pathname mode depth)
  | opendir name => exact tracks_relay (sqfsOpendir_balanced b name depth)
  | readdir dirp => exact tracks_relay (sqfsReaddir_balanced dirp depth)
  | closedir dir => exact tracks_relay (sqfsClosedir_balanced dir depth)

/-- The followed depth is the depth of the lock. -/
private theorem lockDepth_handle (o : Oracle) (w : World) (e : Req) {depth depth' : Nat}
    (hw : w.depth = depth) (he : lockDepth e (World.handle o w e).1 depth = some depth') :
    (World.handle o w e).2.depth = depth' := by
  by_cases hk : e.keepsDepth = true
  · exact ((handle_depth o w hk).trans hw).trans (lockDepth_kept hk he)
  · cases e with
    | lock =>
      rw [← Option.some.inj he, ← hw]
      rfl
    | unlock =>
      have hd : (if depth = 0 then none else some (depth - 1)) = some depth' := he
      rw [Option.ite_none_left_eq_some] at hd
      rw [← Option.some.inj hd.2, ← hw]
      rfl
    | _ => exact absurd rfl hk

/-- A hook that returns leaves the lock as deep as it was. -/
theorem Balanced.run_depth (o : Oracle) {α : Type} {p : Hook α} (hp : Balanced p) {w w' : World}
    {r : α} (hrun : runAlone o p w = some (r, w')) : w'.depth = w.depth := by
  obtain ⟨depth, hd, hw⟩ := (hp w.depth).run
    (fun w e depth depth' hw he => lockDepth_handle o w e hw he) rfl hrun
  exact hw.trans hd

private theorem loadDepth_handle (o : Oracle) (i : ImageOracle) (s : Loading) (e : ImageReq)
    {depth depth' : Nat} (hs : s.world.depth = depth)
    (he : loadDepth e (Loading.handle o i s e).1 depth = some depth') :
    (Loading.handle o i s e).2.world.depth = depth' := by
  cases e with
  | hook e => exact lockDepth_handle o s.world e hs he
  | call c =>
    have heffect : (s.effect c (i.answer c)).world.depth = s.world.depth := by
      unfold Loading.effect
      split <;> rfl
    simp only [loadDepth, Option.ite_none_left_eq_some, Option.some.injEq] at he
    exact (heffect.trans hs).trans he.2
  | _ =>
    simp only [loadDepth, Option.ite_none_left_eq_some, Option.some.injEq] at he
    exact hs.trans he.2

/-- Every entry point keeps to the lock on every path, and where it returns the lock is as
deep as it was. -/
theorem lock_discipline {b : Bits} {α : Type} {p : Loader α} (h : EntryPoint b p) :
    (∀ depth, p.Tracks loadDepth depth fun _ depth' => depth' = depth) ∧
      ∀ o i s r s', p.run (Loading.handle o i) s = some (r, s') →
        s'.world.depth = s.world.depth := by
  refine ⟨h.tracks, fun o i s r s' hrun => ?_⟩
  obtain ⟨depth, hd, hs⟩ := (h.tracks s.world.depth).run
    (fun s e depth depth' hs he => loadDepth_handle o i s e hs he) rfl hrun
  exact hs.trans hd

theorem lock_discipline_closedir :
    (∀ depth, (relay (sqfsClosedir 16)).Tracks loadDepth depth fun _ depth' => depth' = depth) ∧
      ∀ o i s r s', (relay (sqfsClosedir 16)).run (Loading.handle o i) s = some (r, s') →
        s'.world.depth = s.world.depth :=
  lock_discipline (b := .b64) (.closedir 16)

end HookSqfs.Hooks
