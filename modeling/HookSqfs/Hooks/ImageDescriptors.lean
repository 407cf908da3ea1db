import HookSqfs.Hooks.OpenCloseOutlines
import HookSqfs.Hooks.PathHooks
import HookSqfs.Hooks.ThreadPool
import HookSqfs.Interaction.Contracts

/-! The descriptors that libsquashfs reads the image by: as long as no client closes one, no
hook closes it or enters it in `fd_map`, whatever threads do. -/
namespace HookSqfs.Hooks
open Manager Interaction Tables Program

/-- A request that closes no descriptor and enters none in `fd_map`. -/
def keepsFds : Req → Bool
  | .fdMapAdd _ | .call (.close _) | .call (.closeNocancel _) => false
  | _ => true

theorem keepsFds.of_log {e : Req} (h : e.isLog = true) : keepsFds e = true := by
  unfold Req.isLog at h
  split at h <;> first | rfl | cases h

theorem keepsFds.of_backing {e : Req} (h : e.isBacking = true) : keepsFds e = true := by
  cases e with
  | call c => cases c <;> first | rfl | cases h
  | _ => first | rfl | cases h

theorem keepsFds.of_lookup {e : Req} (h : e.isLookup = true) : keepsFds e = true := by
  cases e with
  | call c => cases c <;> first | rfl | cases h
  | _ => first | rfl | cases h

/-- The descriptors of the image are open and not in `fd_map`, and the 64-bit functions were
found. -/
structure ImageOpen (image : Set Int) (w : World) : Prop where
  opened : ∀ fd ∈ image, (w.fds fd).isSome
  unmapped : ∀ fd ∈ image, fd ∉ fdKeys w
  present : w.env.realPresent .pread64 = true ∧ w.env.realPresent .lseek64 = true

/-- No descriptor of the image is closed or entered in `fd_map`, as long as none is given out. -/
def sparing (image : Set Int) : Contract ImageReq ImageAnswer Unit where
  permits _ _
    | .hook (.call (.close fd)) | .hook (.call (.closeNocancel fd)) => fd ∉ image
    | .hook (.fdMapAdd entry) => entry.key ∉ image
    | _ => True
  answers _ _
    | .hook (.call (.open ..)), .ok fd, _ | .hook (.call (.memfdCreate _)), .ok fd, _
    | .hook (.call (.openat ..)), .ok fd, _ => (fd : Int) ∉ image
    | _, _, _ => True
  undefined := True

section
variable {image : Set Int} {o : Oracle} {i : Nat → ImageOracle} {w : World}

namespace ImageOpen

private theorem congr {w' : World} (h : ImageOpen image w) (henv : w'.env = w.env)
    (hfds : w'.fds = w.fds) (hmap : w'.fdMap = w.fdMap) : ImageOpen image w' where
  opened fd hfd := hfds ▸ h.opened fd hfd
  unmapped fd hfd := by
    rw [fdKeys, hmap]
    exact h.unmapped fd hfd
  present := henv ▸ h.present

private theorem granted (h : ImageOpen image w) {a : Except Errno Nat} {fd : Nat}
    (ha : w.grantFd a = .ok fd) : (fd : Int) ∉ image := by
  intro hfd
  have hopen := h.opened fd hfd
  rw [(World.grantFd_ok ha).2] at hopen
  cases hopen

private theorem gained (h : ImageOpen image w) {w' : World} {fd : Nat} {d : Descriptor}
    (henv : w'.env = w.env) (hfds : w'.fds = Function.update w.fds fd (some d))
    (hmap : w'.fdMap = w.fdMap) : ImageOpen image w' where
  opened fd' hfd := by
    rw [hfds, Function.update_apply]
    split
    · rfl
    · exact h.opened fd' hfd
  unmapped fd' hfd := by
    rw [fdKeys, hmap]
    exact h.unmapped fd' hfd
  present := henv ▸ h.present

private theorem lost (h : ImageOpen image w) {w' : World} {fd : Int} (hfd : fd ∉ image)
    (henv : w'.env = w.env) (hfds : w'.fds = Function.update w.fds fd none)
    (hmap : w'.fdMap = w.fdMap) : ImageOpen image w' where
  opened fd' hfd' := by
    have hne : fd' ≠ fd := by
      rintro rfl
      exact hfd hfd'
    rw [hfds, Function.update_of_ne hne]
    exact h.opened fd' hfd'
  unmapped fd' hfd' := by
    rw [fdKeys, hmap]
    exact h.unmapped fd' hfd'
  present := henv ▸ h.present

private theorem call (h : ImageOpen image w) {c : Ext}
    (hp : (sparing image).permits 0 () (.hook (.call c))) :
    (sparing image).answers 0 () (.hook (.call c)) (w.outcome o c) () ∧
      ImageOpen image (w.afterCall o c (w.outcome o c)) := by
  cases hc : c.fn.onDescriptors with
  | false =>
    refine ⟨?_, h.congr (w.afterCall_env o c _) (w.afterCall_fds o c _ hc) (w.afterCall_fdMap o c _)⟩
    cases c <;> trivial
  | true =>
    cases c with
    | «open» pathname flags mode =>
      cases hout : w.outcome o (.open pathname flags mode) with
      | error e => exact ⟨trivial, h.congr rfl rfl rfl⟩
      | ok fd => exact ⟨h.granted hout, h.gained rfl rfl rfl⟩
    | memfdCreate flags =>
      cases hout : w.outcome o (.memfdCreate flags) with
      | error e => exact ⟨trivial, h.congr rfl rfl rfl⟩
      | ok fd => exact ⟨h.granted hout, h.gained rfl rfl rfl⟩
    | openat path flags =>
      cases hout : w.outcome o (.openat path flags) with
      | error e => exact ⟨trivial, h.congr rfl rfl rfl⟩
      | ok fd => exact ⟨h.granted hout, h.gained rfl rfl rfl⟩
    | close fd => exact ⟨trivial, h.lost hp rfl rfl rfl⟩
    | closeNocancel fd => exact ⟨trivial, h.lost hp rfl rfl rfl⟩
    | _ => cases hc

/-- A request that spares the descriptors of the image. -/
private theorem handle (h : ImageOpen image w) {e : Req}
    (hp : (sparing image).permits 0 () (.hook e)) :
    (sparing image).answers 0 () (.hook e) (World.handle o w e).1 () ∧
      ImageOpen image (World.handle o w e).2 := by
  cases e with
  | call c => exact h.call hp
  | getenv v => cases v <;> exact ⟨trivial, h.congr rfl rfl rfl⟩
  | fdMapAdd entry =>
    refine ⟨trivial, h.opened, fun fd hfd => ?_, h.present⟩
    have hne : fd ≠ entry.key := by
      rintro rfl
      exact hp hfd
    exact List.not_mem_cons_of_ne_of_not_mem hne (h.unmapped fd hfd)
  | fdMapDel key =>
    refine ⟨trivial, h.opened, fun fd hfd hmem => h.unmapped fd hfd ?_, h.present⟩
    exact ((remove_sublist key w.fdMap).map FDMapEntry.key).subset hmem
  | fdMapSetOffset key offset =>
    refine ⟨trivial, h.opened, fun fd hfd => ?_, h.present⟩
    have hkeys : fdKeys (World.handle o w (.fdMapSetOffset key offset)).2 = fdKeys w :=
      map_adjust (f := fun e : FDMapEntry => { e with offset }) (fun _ => rfl) key w.fdMap
    rw [hkeys]
    exact h.unmapped fd hfd
  | _ => exact ⟨trivial, h.congr rfl rfl rfl⟩

end ImageOpen

theorem sparing_upheld : (threadMachine o i).Upholds (sparing image) (fun _ _ => True)
    fun s _ => ImageOpen image s.world where
  serves := by
    intro s n l before after held g e h hpermits _ _ _ _
    have henter : ImageOpen image { s.world with errno := l, caller := n } := h.congr rfl rfl rfl
    cases e with
    | hook e =>
      obtain ⟨hanswer, hopen⟩ := henter.handle (o := o) (e := e) hpermits
      exact ⟨(), hanswer, hopen⟩
    | call c =>
      refine ⟨(), trivial, ?_⟩
      have heffect : ∀ (s : Loading) (a : c.Ans), ImageOpen image s.world →
          ImageOpen image (s.effect c a).world := by
        intro s a h
        unfold Loading.effect
        split <;> exact h.congr rfl rfl rfl
      exact heffect _ _ henter
    | _ => exact ⟨(), trivial, henter.congr rfl rfl rfl⟩

end

section
variable {b : Bits} {image : Set Int} {α β : Type} {p : Hook α} {Q S : α → Prop}

/-- Whatever depth the lock is at and whatever is answered, the hook spares the descriptors of
the image, and its result has `Q`. -/
def Respects (image : Set Int) (p : Hook α) (Q : α → Prop) : Prop :=
  ∀ n, (relay p).Meets managerLocking (sparing image) n () fun a _ _ => Q a

namespace Respects

theorem ret {a : α} (h : Q a) : Respects image (.ret a) Q := fun _ => h

theorem request {e : Req} {k : Answer e → Hook α} (hp : (sparing image).permits 0 () (.hook e))
    (h : ∀ a, (sparing image).answers 0 () (.hook e) a () → Respects image (k a) Q) :
    Respects image (.request e k) Q :=
  fun _ => ⟨hp, fun a _ ha => h a ha _⟩

theorem mono (hp : Respects image p S) (h : ∀ a, S a → Q a) : Respects image p Q :=
  fun n => (hp n).mono fun a _ _ => h a

theorem bind {f : α → Hook β} {Q : β → Prop} (hp : Respects image p S)
    (hf : ∀ a, S a → Respects image (f a) Q) : Respects image (p >>= f) Q := by
  intro n
  rw [relay_bind]
  exact (hp n).bind fun a n' _ h => hf a h n'

theorem ite {c : Prop} [Decidable c] {q : Hook α} (hp : c → Respects image p Q)
    (hq : ¬ c → Respects image q Q) : Respects image (if c then p else q) Q :=
  fun n => by
    split
    · rename_i h
      exact hp h n
    · rename_i h
      exact hq h n

private theorem permits_of_keeps {e : Req} (h : keepsFds e = true) :
    (sparing image).permits 0 () (.hook e) := by
  cases e with
  | call c => cases c <;> trivial
  | fdMapAdd entry => cases h
  | _ => trivial

theorem of_makes (hp : p.Makes fun e => keepsFds e) : Respects image p fun _ => True := by
  induction p with
  | ret a => exact .ret trivial
  | undefined => exact fun _ => trivial
  | request e k ih => exact .request (permits_of_keeps hp.1) fun a _ => ih a (hp.2 a)

end Respects

/-! The hooks that neither open nor close. -/

theorem logHook_keepsFds (funcName : Option CString) : (logHook funcName).Makes fun e => keepsFds e :=
  ((logHook_all funcName).mono fun _ he => keepsFds.of_log he).makes

private theorem Respects.log {f : Unit → Hook β} {Q : β → Prop} (funcName : Option CString)
    (h : Respects image (f ()) Q) : Respects image (logHook funcName >>= f) Q :=
  (of_makes (logHook_keepsFds funcName)).bind fun _ _ => h

theorem sqfsFindInode_keepsFds (relative : Option CString) :
    (sqfsFindInode relative).Makes fun e => keepsFds e :=
  ((sqfsFindInode_all relative).mono fun _ he => keepsFds.of_lookup he).makes

theorem sqfsCheckPath_keepsFds (pathname : Option CString) :
    (sqfsCheckPath pathname).Makes fun e => keepsFds e :=
  ⟨rfl, fun _ => ⟨rfl, fun _ => trivial⟩⟩

private theorem dispatch_keepsFds {fd : Int} {mapped : Hook α} {after : α → Hook β} {fall : Hook β}
    (hmapped : mapped.Makes fun e => keepsFds e) (hafter : ∀ a, (after a).Makes fun e => keepsFds e)
    (hfall : fall.Makes fun e => keepsFds e) :
    (dispatch fd mapped after fall).Makes fun e => keepsFds e :=
  ⟨rfl, fun _ => ⟨rfl, fun _ => .ite (hmapped.bind fun a => ⟨rfl, fun _ => hafter a⟩)
    ⟨rfl, fun _ => hfall⟩⟩⟩

theorem sqfsRead_keepsFds (fd : Int) (count : BitVec b.width) :
    (sqfsRead b fd count).Makes fun e => keepsFds e := by
  rw [sqfsRead_eq]
  refine dispatch_keepsFds ⟨rfl, fun entry => ⟨rfl, fun ret => ⟨rfl, fun _ => ?_⟩⟩⟩
    (fun _ => trivial) ⟨rfl, fun _ => trivial⟩
  cases ret with
  | error e => exact (logHook_keepsFds _).bind fun _ => ⟨rfl, fun _ => trivial⟩
  | ok data => exact (logHook_keepsFds _).bind fun _ => ⟨rfl, fun _ => ⟨rfl, fun _ => trivial⟩⟩

private theorem sqfsPreadMapped_keepsFds (func : CString) (entry : FDMapEntry)
    (count : BitVec b.width) (offset : BitVec 64) :
    (sqfsPreadMapped b func entry count offset).Makes fun e => keepsFds e := by
  refine .ite ⟨rfl, fun _ => trivial⟩ ⟨rfl, fun ret => ⟨rfl, fun _ => ?_⟩⟩
  cases ret with
  | error e => exact (logHook_keepsFds _).bind fun _ => ⟨rfl, fun _ => trivial⟩
  | ok data => exact (logHook_keepsFds _).bind fun _ => ⟨rfl, fun _ => trivial⟩

theorem sqfsPread_keepsFds (fd : Int) (count offset : BitVec b.width) :
    (sqfsPread b fd count offset).Makes fun e => keepsFds e := by
  rw [sqfsPread_eq]
  exact dispatch_keepsFds ⟨rfl, fun entry => sqfsPreadMapped_keepsFds _ entry count _⟩
    (fun _ => trivial) ⟨rfl, fun _ => trivial⟩

theorem sqfsPread64_keepsFds (fd : Int) (count : BitVec b.width) (offset : BitVec 64) :
    (sqfsPread64 b fd count offset).Makes fun e => keepsFds e := by
  rw [sqfsPread64_eq]
  exact dispatch_keepsFds ⟨rfl, fun entry => sqfsPreadMapped_keepsFds _ entry count _⟩
    (fun _ => trivial) ⟨rfl, fun _ => .ite ⟨rfl, fun _ => trivial⟩ ⟨rfl, fun _ => trivial⟩⟩

private theorem sqfsLseekMapped_keepsFds (func : CString) (entry : FDMapEntry) (offset : BitVec 64)
    (whence : Int) (maxReturn : BitVec 64) :
    (sqfsLseekMapped func entry offset whence maxReturn).Makes fun e => keepsFds e := by
  have hlog (r : Option (BitVec 64)) : (deref [entry.object, entry.inode.object] >>= fun _ =>
      logHook (some func) >>= fun _ => (pure r : Hook (Option (BitVec 64)))).Makes
        fun e => keepsFds e :=
    ⟨rfl, fun _ => (logHook_keepsFds _).bind fun _ => trivial⟩
  refine ⟨rfl, fun _ => ?_⟩
  cases sqfsSeekCalculate entry offset whence with
  | error err => exact ⟨rfl, fun _ => hlog none⟩
  | ok newOffset =>
    exact .ite ⟨rfl, fun _ => hlog none⟩ ⟨rfl, fun _ => ⟨rfl, fun _ => hlog (some newOffset)⟩⟩

theorem sqfsLseek_keepsFds (fd : Int) (offset : BitVec b.width) (whence : Int) :
    (sqfsLseek b fd offset whence).Makes fun e => keepsFds e := by
  rw [sqfsLseek_eq]
  refine dispatch_keepsFds ⟨rfl, fun entry => sqfsLseekMapped_keepsFds _ entry _ whence _⟩
    (fun r => ?_) ⟨rfl, fun _ => trivial⟩
  cases r <;> trivial

theorem sqfsLseek64_keepsFds (fd : Int) (offset : BitVec 64) (whence : Int) :
    (sqfsLseek64 fd offset whence).Makes fun e => keepsFds e := by
  rw [sqfsLseek64_eq]
  refine dispatch_keepsFds ⟨rfl, fun entry => sqfsLseekMapped_keepsFds _ entry _ whence _⟩
    (fun r => ?_) ⟨rfl, fun _ => .ite ⟨rfl, fun _ => trivial⟩ ⟨rfl, fun _ => trivial⟩⟩
  cases r <;> trivial

private theorem sqfsStatImpl_keepsFds (relative : Option CString) :
    (sqfsStatImpl b relative).Makes fun e => keepsFds e := by
  refine (sqfsFindInode_keepsFds relative).bind fun inode => ?_
  cases inode with
  | none => trivial
  | some inode => exact ⟨rfl, fun _ => ⟨rfl, fun _ => ⟨rfl, fun _ => trivial⟩⟩⟩

theorem sqfsXstat_keepsFds (ver : Int) (pathname : Option CString) (buf : Option Stat) :
    (sqfsXstat b ver pathname buf).Makes fun e => keepsFds e := by
  refine ⟨rfl, fun real => ?_⟩
  cases real with
  | ok st => trivial
  | error e =>
    refine (sqfsCheckPath_keepsFds pathname).bind fun checked => .ite ⟨rfl, fun _ => trivial⟩ ?_
    cases buf with
    | none => exact ⟨rfl, fun _ => trivial⟩
    | some st =>
      refine .ite ((logHook_keepsFds _).bind fun _ => ⟨rfl, fun _ => trivial⟩) ⟨rfl, fun _ =>
        (sqfsStatImpl_keepsFds _).bind fun ok => ⟨rfl, fun _ => ⟨rfl, fun _ => ⟨rfl, fun _ => ?_⟩⟩⟩⟩
      cases ok <;> trivial

theorem sqfsAccess_keepsFds (pathname : Option CString) (mode : BitVec 32) :
    (sqfsAccess b pathname mode).Makes fun e => keepsFds e := by
  have hlog : (accessLog pathname).Makes fun e => keepsFds e :=
    ⟨rfl, fun _ => ⟨rfl, fun _ => .ite (logHook_keepsFds _) trivial⟩⟩
  have hreturn : (accessReturnErr pathname).Makes fun e => keepsFds e := hlog.bind fun _ => trivial
  refine ⟨rfl, fun real => ?_⟩
  cases real with
  | ok _ => exact hlog.bind fun _ => trivial
  | error e =>
    refine (sqfsCheckPath_keepsFds pathname).bind fun checked => .ite ⟨rfl, fun _ => hreturn⟩
      ⟨rfl, fun _ => (sqfsStatImpl_keepsFds _).bind fun stat => ⟨rfl, fun _ => ⟨rfl, fun _ => ?_⟩⟩⟩
    cases stat with
    | none => exact ⟨rfl, fun _ => hreturn⟩
    | some st =>
      dsimp only
      cases accessDecision st.stMode mode with
      | some e => exact ⟨rfl, fun _ => hreturn⟩
      | none => exact (logHook_keepsFds _).bind fun _ => trivial

theorem sqfsReaddir_keepsFds (dirp : Nat) : (sqfsReaddir dirp).Makes fun e => keepsFds e := by
  refine ((sqfsReaddir_all dirp).mono fun e he => ?_).makes
  unfold forReaddir at he
  split at he <;> first | rfl | exact keepsFds.of_log he

private theorem freeList_keepsFds (list : List SqfsDirEntryNode) :
    (freeSqfsDirEntryList list).Makes fun e => keepsFds e := by
  induction list with
  | nil => trivial
  | cons node next ih => exact ⟨rfl, fun _ => ⟨rfl, fun _ => ⟨rfl, fun _ => ih⟩⟩⟩

theorem sqfsClosedir_keepsFds (dir : Nat) : (sqfsClosedir dir).Makes fun e => keepsFds e := by
  refine ⟨rfl, fun _ => ⟨rfl, fun mapped => .ite ⟨rfl, fun found => ⟨rfl, fun _ => ⟨rfl, fun _ =>
    ⟨rfl, fun _ => ⟨rfl, fun _ => ?_⟩⟩⟩⟩⟩ ⟨rfl, fun _ => ⟨rfl, fun ret => ?_⟩⟩⟩⟩
  · refine (freeList_keepsFds _).bind fun _ => ⟨rfl, fun _ => ⟨rfl, fun _ =>
      (logHook_keepsFds _).bind fun _ => ⟨rfl, fun _ => ⟨rfl, fun ret => ?_⟩⟩⟩⟩
    cases ret <;> trivial
  · cases ret <;> trivial

private theorem enumerateDirLoop_keepsFds (key : Nat) (final : Except SqfsError Unit)
    (items : List DirItem) (list : List SqfsDirEntryNode) :
    (enumerateDirLoop b key final items list).Makes fun e => keepsFds e := by
  have hlog : logMsg.Makes fun e => keepsFds e :=
    (logMsg_all.mono fun _ he => keepsFds.of_log he).makes
  have hdiscard : ∀ list, (enumerateDiscard key list).Makes fun e => keepsFds e :=
    fun list => (freeList_keepsFds list).bind fun _ => ⟨rfl, fun _ => trivial⟩
  induction items generalizing list with
  | nil =>
    refine ⟨rfl, fun _ => ?_⟩
    cases final with
    | ok _ => trivial
    | error e => exact hlog.bind fun _ => hdiscard list
  | cons item items ih =>
    refine ⟨rfl, fun _ => ⟨rfl, fun node => ?_⟩⟩
    cases node with
    | none => exact hlog.bind fun _ => ⟨rfl, fun _ => hdiscard list⟩
    | some addr =>
      refine ⟨rfl, fun _ => ?_⟩
      dsimp only
      cases item.inode with
      | error e => exact ⟨rfl, fun _ => hlog.bind fun _ => ⟨rfl, fun _ => hdiscard list⟩⟩
      | ok inode =>
        refine ⟨rfl, fun _ => ?_⟩
        dsimp only
        split
        · trivial
        · exact ⟨rfl, fun _ => ⟨rfl, fun _ => ih _⟩⟩

private theorem opendirOutUnlockOnly_keepsFds (underlyingDir result : Option Nat) :
    (opendirOutUnlockOnly underlyingDir result).Makes fun e => keepsFds e := by
  refine ⟨rfl, fun _ => ⟨rfl, fun _ => ?_⟩⟩
  cases underlyingDir with
  | none => trivial
  | some dir =>
    cases result with
    | none => exact ⟨rfl, fun _ => ⟨rfl, fun _ => trivial⟩⟩
    | some r => trivial

private theorem opendirOut_keepsFds (underlyingDir : Option Nat) (dirReader : Nat)
    (inode : Option Nat) : (opendirOut underlyingDir dirReader inode).Makes fun e => keepsFds e := by
  refine ⟨rfl, fun savedErrno => ?_⟩
  cases inode with
  | none => exact ⟨rfl, fun _ => ⟨rfl, fun _ => opendirOutUnlockOnly_keepsFds underlyingDir none⟩⟩
  | some inode =>
    exact ⟨rfl, fun _ => ⟨rfl, fun _ => ⟨rfl, fun _ => opendirOutUnlockOnly_keepsFds underlyingDir none⟩⟩⟩

private theorem opendirInsert_keepsFds (realDir : Option Nat) (dirReader : Nat) (inode : InodePtr)
    (cursor : DirCursor) : (opendirInsert b realDir dirReader inode cursor).Makes fun e => keepsFds e := by
  have hbacking : (opendirBacking realDir).Makes fun e => keepsFds e := by
    cases realDir with
    | some dir => trivial
    | none => exact (createBackingDir_all.mono fun _ he => keepsFds.of_backing he).makes
  refine hbacking.bind fun underlyingDir => ?_
  cases underlyingDir with
  | none => exact opendirOut_keepsFds none dirReader _
  | some dir =>
    refine ⟨rfl, fun dirEntry => ?_⟩
    cases dirEntry with
    | none => exact ⟨rfl, fun _ => opendirOut_keepsFds _ dirReader _⟩
    | some addr =>
      exact ⟨rfl, fun _ => (enumerateDirLoop_keepsFds dir cursor.final cursor.items []).bind fun _ =>
        ⟨rfl, fun _ => opendirOutUnlockOnly_keepsFds (some dir) (some dir)⟩⟩

private theorem opendirLookup_keepsFds (realDir : Option Nat) (relative : CString) (dirReader : Nat) :
    (opendirLookup b realDir relative dirReader).Makes fun e => keepsFds e := by
  refine (sqfsFindInode_keepsFds _).bind fun inode => ?_
  cases inode with
  | none =>
    refine ⟨rfl, fun savedErrno => (logHook_keepsFds _).bind fun _ => ?_⟩
    cases realDir with
    | some dir => exact ⟨rfl, fun _ => ⟨rfl, fun _ => opendirOutUnlockOnly_keepsFds (some dir) (some dir)⟩⟩
    | none => exact ⟨rfl, fun _ => opendirOut_keepsFds none dirReader none⟩
  | some inode =>
    refine ⟨rfl, fun _ => .ite ⟨rfl, fun ret => ?_⟩
      ⟨rfl, fun _ => opendirOut_keepsFds realDir dirReader _⟩⟩
    cases ret with
    | error e =>
      exact (logMsg_all.mono fun _ he => keepsFds.of_log he).makes.bind fun _ =>
        ⟨rfl, fun _ => opendirOut_keepsFds realDir dirReader _⟩
    | ok cursor => exact opendirInsert_keepsFds realDir dirReader inode cursor

theorem sqfsOpendir_keepsFds (name : Option CString) :
    (sqfsOpendir b name).Makes fun e => keepsFds e := by
  refine ⟨rfl, fun real => (sqfsCheckPath_keepsFds name).bind fun checked =>
    .ite ⟨rfl, fun _ => trivial⟩ ((logHook_keepsFds _).bind fun _ => ⟨rfl, fun _ => ⟨rfl, fun mgr =>
      .ite ⟨rfl, fun dirReader => ?_⟩ ⟨rfl, fun _ => opendirOutUnlockOnly_keepsFds _ _⟩⟩⟩)⟩
  cases dirReader with
  | none => exact ⟨rfl, fun _ => opendirOutUnlockOnly_keepsFds _ none⟩
  | some dirReader => exact opendirLookup_keepsFds _ _ dirReader

/-! The hooks that open and close. -/

/-- A backing descriptor is none of the image's. -/
private theorem createBackingFd_respects (flags : BitVec 32) :
    Respects image (createBackingFd flags) fun fd => fd < 0 ∨ fd ∉ image := by
  have hfailed : ∀ fd : Int, fd = -1 → fd < 0 ∨ fd ∉ image := fun fd hfd => .inl (by omega)
  have hloop : ∀ i, Respects image (createUnlinkedTmpFdLoop flags i) fun fd => fd < 0 ∨ fd ∉ image := by
    intro i
    induction i with
    | zero => exact .request trivial fun _ _ => .ret (hfailed _ rfl)
    | succ i ih =>
      refine .request trivial fun _ _ => .request trivial fun _ _ => .request trivial fun fd hfd => ?_
      cases fd with
      | ok fd => exact .request trivial fun _ _ => .ret (.inr hfd)
      | error e =>
        exact .request trivial fun _ _ => .ite (fun _ => .ret (hfailed _ rfl)) fun _ => ih
  have hmemfd : Respects image (createMemfd flags) fun fd => fd < 0 ∨ fd ∉ image := by
    refine .request trivial fun fd hfd => ?_
    cases fd with
    | ok fd => exact .ret (.inr hfd)
    | error e => exact .ret (hfailed _ rfl)
  exact hmemfd.bind fun fd hfd => .ite (fun _ => .ret hfd) fun _ => .request trivial fun _ _ =>
    .ite (fun _ => .ret (hfailed _ rfl)) fun _ => hloop 128

private theorem openInsert_respects (flags : BitVec 32) (inode : InodePtr) :
    Respects image (openInsert flags inode) fun _ => True := by
  refine (createBackingFd_respects flags).bind fun fd hfd => .ite (fun _ => ?_) fun hpos => ?_
  · exact .request trivial fun _ _ => .ret trivial
  · have hfd : fd ∉ image := hfd.resolve_left hpos
    refine .request trivial fun fdEntry _ => ?_
    cases fdEntry with
    | none =>
      exact .request trivial fun _ _ => .request hfd fun _ _ => .request trivial fun _ _ => .ret trivial
    | some addr => exact .request hfd fun _ _ => .request trivial fun _ _ => .ret trivial

theorem sqfsOpen_respects (pathname : Option CString) (flags mode : BitVec 32) :
    Respects image (sqfsOpen pathname flags mode) fun _ => True := by
  rw [sqfsOpen_eq]
  refine .request trivial fun fd _ => ?_
  cases fd with
  | ok fd => exact .ret trivial
  | error e =>
    rw [openRest, openLower_eq]
    refine .request trivial fun _ _ => (Respects.of_makes (sqfsCheckPath_keepsFds pathname)).bind
      fun checked _ => .ite (fun _ => .request trivial fun _ _ => .ret trivial) fun _ => ?_
    refine .request trivial fun _ _ => (Respects.of_makes (sqfsFindInode_keepsFds _)).bind
      fun inode _ => ?_
    cases inode with
    | none =>
      exact .request trivial fun _ _ => .request trivial fun _ _ =>
        .log _ (.request trivial fun _ _ => .ret trivial)
    | some inode =>
      exact (openInsert_respects flags inode).bind fun fd _ => .request trivial fun _ _ =>
        .log _ (.ret trivial)

private theorem sqfsCloseImpl_respects (func : CString) (fd : Int)
    {realClose : Option (Hook (Except Errno Unit))}
    (hreal : ∀ p, realClose = some p → Respects image p fun _ => True) :
    Respects image (sqfsCloseImpl func fd realClose) fun _ => True := by
  cases realClose with
  | none => exact .request trivial fun _ _ => .ret trivial
  | some realClose =>
    have hclose := hreal realClose rfl
    refine .request trivial fun _ _ => .request trivial fun found _ => .ite (fun _ => ?_) fun _ => ?_
    · refine .request trivial fun entry _ => .request trivial fun _ _ => .request trivial fun _ _ =>
        .request trivial fun _ _ => .request trivial fun _ _ => .request trivial fun _ _ =>
        .request trivial fun _ _ => hclose.bind fun ret _ => ?_
      exact .request trivial fun _ _ => .log _ (.request trivial fun _ _ => .ret trivial)
    · exact .request trivial fun _ _ => hclose.bind fun ret _ => .ret trivial

theorem sqfsClose_respects {fd : Int} (hfd : fd ∉ image) :
    Respects image (sqfsClose fd) fun _ => True := by
  refine .request trivial fun present _ => sqfsCloseImpl_respects _ fd fun p hp => ?_
  cases present with
  | false => cases hp
  | true =>
    cases hp
    exact .request hfd fun _ _ => .ret trivial

theorem sqfsCloseNocancel_respects {fd : Int} (hfd : fd ∉ image) :
    Respects image (sqfsCloseNocancel fd) fun _ => True := by
  refine .request trivial fun nocancel _ => .request trivial fun present _ =>
    sqfsCloseImpl_respects _ fd fun p hp => ?_
  cases nocancel with
  | true =>
    cases hp
    exact .request hfd fun _ _ => .ret trivial
  | false =>
    cases present with
    | false => cases hp
    | true =>
      cases hp
      exact .request hfd fun _ _ => .ret trivial

end
end HookSqfs.Hooks
