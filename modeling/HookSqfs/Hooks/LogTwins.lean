import HookSqfs.Hooks.DirStreams
import HookSqfs.Hooks.DirSystem
import HookSqfs.Hooks.FdOutlines
import HookSqfs.Hooks.PathHooks
import HookSqfs.Hooks.Requests

/-! What two runs of a hook that differ in the log have in common. -/
namespace HookSqfs.Hooks
open Manager Interaction
variable {b : Bits} {o : Oracle} {writes₁ writes₂ : Nat → List WriteResult} {quiet : Bool}

/-- A hooked call. -/
inductive HookedCall (b : Bits) where
  | fd (call : FdCall b)
  | xstat (ver : Int) (pathname : Option CString) (buf : Option Stat)
  | access (pathname : Option CString) (mode : BitVec 32)
  | dir (call : DirCall)

inductive HookedResult where
  | fd (r : ReadResult)
  | xstat (r : Int × Option Stat)
  | access (r : Int)
  | dir (r : DirResult)

def HookedCall.program : HookedCall b → Hook HookedResult
  | .fd call => do
    let r ← call.program
    return .fd r
  | .xstat ver pathname buf => do
    let r ← sqfsXstat b ver pathname buf
    return .xstat r
  | .access pathname mode => do
    let r ← sqfsAccess b pathname mode
    return .access r
  | .dir call => do
    let r ← call.program b
    return .dir r

/-- The call reports a failure, or a stream its end. -/
def HookedResult.failed : HookedResult → Bool
  | .fd r => r.ret = -1
  | .xstat r => r.1 = -1
  | .access r => r = -1
  | .dir (.stream stream) => stream = none
  | .dir (.dirent entry) => entry = none
  | .dir (.ret r) => r = -1

section
variable {α β : Type}

/-- Both runs end with the same errno, whatever the log does. -/
abbrev SameErrno (o : Oracle) (writes₁ writes₂ : Nat → List WriteResult) (quiet : Bool)
    (p : Hook α) : Prop :=
  Twins o writes₁ writes₂ quiet true p p fun _ s => s = true

private theorem sameErrno_bind {p : Hook α} {f : α → Hook β} (hp : SameErrno o writes₁ writes₂ quiet p)
    (hf : ∀ a, SameErrno o writes₁ writes₂ quiet (f a)) :
    SameErrno o writes₁ writes₂ quiet (p >>= f) := by
  apply Program.Twin.bind hp
  rintro a _ rfl
  exact hf a

private theorem sameErrno_dispatch {fd : Int} {mapped : Hook α} {after : α → Hook β}
    {fall : Hook β} (hmapped : SameErrno o writes₁ writes₂ quiet mapped)
    (hafter : ∀ a, SameErrno o writes₁ writes₂ quiet (after a))
    (hfall : SameErrno o writes₁ writes₂ quiet fall) :
    SameErrno o writes₁ writes₂ quiet (dispatch fd mapped after fall) := by
  apply Twins.plain rfl
  intro _
  apply Twins.plain rfl
  intro found
  apply Program.Twin.ite
  · intro _
    apply sameErrno_bind hmapped
    exact fun a => Twins.plain rfl fun _ => hafter a
  · intro _
    exact Twins.plain rfl fun _ => hfall

/-- A line of the log, after which `errno` is set. -/
private theorem log_setErrno {funcName : Option CString} {e : Errno} {k : Hook α} {Q : α → Bool → Prop}
    {sure : Bool} (h : Twins o writes₁ writes₂ quiet true k k Q) :
    Twins o writes₁ writes₂ quiet sure (logHook funcName >>= fun _ => setErrno e >>= fun _ => k)
      (logHook funcName >>= fun _ => setErrno e >>= fun _ => k) Q := by
  apply (Twins.logHook funcName).bind
  exact fun _ _ _ => Twins.plain rfl fun _ => h

end

section
variable (fd : Int)

theorem sqfsRead_sameErrno (count : BitVec b.width) :
    SameErrno o writes₁ writes₂ quiet (sqfsRead b fd count) := by
  rw [sqfsRead_eq]
  refine sameErrno_dispatch ?_ (fun _ => .ret rfl) (Twins.plain rfl fun _ => .ret rfl)
  apply Twins.plain rfl
  intro entry
  apply Twins.plain rfl
  intro ret
  apply Twins.plain rfl
  intro _
  cases ret with
  | ok data =>
    apply (Twins.logHook _).bind
    intro _ _ _
    exact Twins.plain rfl fun _ => Twins.plain rfl fun _ => .ret rfl
  | error e => exact log_setErrno (.ret rfl)

private theorem sqfsPreadMapped_sameErrno (func : CString) (entry : FDMapEntry)
    (count : BitVec b.width) (offset : BitVec 64) :
    SameErrno o writes₁ writes₂ quiet (sqfsPreadMapped b func entry count offset) := by
  apply Program.Twin.ite
  · exact fun _ => Twins.plain rfl fun _ => .ret rfl
  · intro _
    apply Twins.plain rfl
    intro ret
    apply Twins.plain rfl
    intro _
    cases ret with
    | ok data => exact log_setErrno (.ret rfl)
    | error e => exact log_setErrno (.ret rfl)

theorem sqfsPread_sameErrno (count offset : BitVec b.width) :
    SameErrno o writes₁ writes₂ quiet (sqfsPread b fd count offset) := by
  rw [sqfsPread_eq]
  refine sameErrno_dispatch ?_ (fun _ => .ret rfl) (Twins.plain rfl fun _ => .ret rfl)
  exact Twins.plain rfl fun entry => sqfsPreadMapped_sameErrno _ entry count _

theorem sqfsPread64_sameErrno (count : BitVec b.width) (offset : BitVec 64) :
    SameErrno o writes₁ writes₂ quiet (sqfsPread64 b fd count offset) := by
  rw [sqfsPread64_eq]
  refine sameErrno_dispatch ?_ (fun _ => .ret rfl) ?_
  · exact Twins.plain rfl fun entry => sqfsPreadMapped_sameErrno _ entry count _
  · apply Twins.plain rfl
    intro present
    apply Program.Twin.ite
    · exact fun _ => Twins.plain rfl fun _ => .ret rfl
    · exact fun _ => Twins.plain rfl fun _ => .ret rfl

/-- The errno of the real close is put back after the line. -/
private theorem sqfsCloseImpl_sameErrno (func : CString) {realClose : Hook (Except Errno Unit)}
    (hclose : SameErrno o writes₁ writes₂ quiet realClose) :
    SameErrno o writes₁ writes₂ quiet (sqfsCloseImpl func fd (some realClose)) := by
  apply Twins.plain rfl
  intro _
  apply Twins.plain rfl
  intro found
  apply Program.Twin.ite
  · intro _
    apply Twins.plain rfl
    intro entry
    apply Twins.plain rfl
    intro _
    apply Twins.plain rfl
    intro _
    apply Twins.plain rfl
    intro _
    apply Twins.plain rfl
    intro _
    apply Twins.plain rfl
    intro _
    apply Twins.plain rfl
    intro _
    apply sameErrno_bind hclose
    intro ret
    exact Twins.getErrno fun savedErrno => log_setErrno (.ret rfl)
  · intro _
    apply Twins.plain rfl
    intro _
    apply sameErrno_bind hclose
    exact fun _ => .ret rfl

private theorem sqfsCloseImpl_missing (func : CString) :
    SameErrno o writes₁ writes₂ quiet (sqfsCloseImpl func fd none) :=
  Twins.plain rfl fun _ => .ret rfl

theorem sqfsClose_sameErrno : SameErrno o writes₁ writes₂ quiet (sqfsClose fd) := by
  apply Twins.plain rfl
  intro present
  cases present with
  | false => exact sqfsCloseImpl_missing fd (ascii "sqfs_close")
  | true => exact sqfsCloseImpl_sameErrno fd _ (Twins.plain rfl fun _ => .ret rfl)

theorem sqfsCloseNocancel_sameErrno : SameErrno o writes₁ writes₂ quiet (sqfsCloseNocancel fd) := by
  apply Twins.plain rfl
  intro nocancel
  apply Twins.plain rfl
  intro present
  cases nocancel with
  | true => exact sqfsCloseImpl_sameErrno fd _ (Twins.plain rfl fun _ => .ret rfl)
  | false =>
    cases present with
    | false => exact sqfsCloseImpl_missing fd (ascii "sqfs_close_nocancel")
    | true => exact sqfsCloseImpl_sameErrno fd _ (Twins.plain rfl fun _ => .ret rfl)

end

/-- Both runs end with the same errno where no line of the log is written. -/
abbrev QuietErrno {α : Type} (o : Oracle) (writes₁ writes₂ : Nat → List WriteResult) (quiet : Bool)
    (p : Hook α) : Prop :=
  Twins o writes₁ writes₂ quiet true p p fun _ s => quiet = true → s = true

section
variable {α β : Type}

private theorem quietErrno_of_same {p : Hook α} (h : SameErrno o writes₁ writes₂ quiet p) :
    QuietErrno o writes₁ writes₂ quiet p :=
  Program.Twin.mono h fun _ _ hs _ => hs

/-- A line of the log at the end. -/
private theorem log_last {funcName : Option CString} (r : α) :
    QuietErrno o writes₁ writes₂ quiet (logHook funcName >>= fun _ => Program.ret r) := by
  apply (Twins.logHook funcName).bind
  rintro _ _ rfl
  exact .ret fun hquiet => hquiet

private theorem sqfsLseekMapped_quietErrno (func : CString) (entry : FDMapEntry) (offset : BitVec 64)
    (whence : Int) (maxReturn : BitVec 64) :
    QuietErrno o writes₁ writes₂ quiet (sqfsLseekMapped func entry offset whence maxReturn) := by
  have hlog (r : Option (BitVec 64)) : QuietErrno o writes₁ writes₂ quiet
      (deref [entry.object, entry.inode.object] >>= fun _ => logHook (some func) >>= fun _ =>
        Program.ret r) :=
    Twins.plain rfl fun _ => log_last r
  apply Twins.plain rfl
  intro _
  cases sqfsSeekCalculate entry offset whence with
  | error err => exact Twins.plain rfl fun _ => hlog none
  | ok newOffset =>
    apply Program.Twin.ite
    · exact fun _ => Twins.plain rfl fun _ => hlog none
    · intro _
      apply Twins.plain rfl
      intro _
      exact Twins.plain rfl fun _ => hlog (some newOffset)

private theorem quietErrno_dispatch {fd : Int} {mapped : Hook α} {after : α → Hook β}
    {fall : Hook β} (hmapped : QuietErrno o writes₁ writes₂ quiet mapped)
    (hafter : ∀ a sure, Twins o writes₁ writes₂ quiet sure (after a) (after a) fun _ s => s = sure)
    (hfall : SameErrno o writes₁ writes₂ quiet fall) :
    QuietErrno o writes₁ writes₂ quiet (dispatch fd mapped after fall) := by
  apply Twins.plain rfl
  intro _
  apply Twins.plain rfl
  intro found
  apply Program.Twin.ite
  · intro _
    apply hmapped.bind
    intro a s hs
    apply Twins.plain rfl
    intro _
    exact (hafter a s).mono fun _ _ hr hquiet => hr.trans (hs hquiet)
  · intro _
    exact Twins.plain rfl fun _ => quietErrno_of_same hfall

end

theorem sqfsLseek_quietErrno (fd : Int) (offset : BitVec b.width) (whence : Int) :
    QuietErrno o writes₁ writes₂ quiet (sqfsLseek b fd offset whence) := by
  rw [sqfsLseek_eq]
  refine quietErrno_dispatch ?_ (fun a _ => ?_) (Twins.plain rfl fun _ => .ret rfl)
  · exact Twins.plain rfl fun entry => sqfsLseekMapped_quietErrno _ entry _ whence _
  · cases a <;> exact .ret rfl

theorem sqfsLseek64_quietErrno (fd : Int) (offset : BitVec 64) (whence : Int) :
    QuietErrno o writes₁ writes₂ quiet (sqfsLseek64 fd offset whence) := by
  rw [sqfsLseek64_eq]
  refine quietErrno_dispatch ?_ (fun a _ => ?_) ?_
  · exact Twins.plain rfl fun entry => sqfsLseekMapped_quietErrno _ entry _ whence _
  · cases a <;> exact .ret rfl
  · apply Twins.plain rfl
    intro present
    apply Program.Twin.ite
    · exact fun _ => Twins.plain rfl fun _ => .ret rfl
    · exact fun _ => Twins.plain rfl fun _ => .ret rfl

private theorem sqfsCheckPath_sameErrno (pathname : Option CString) :
    SameErrno o writes₁ writes₂ quiet (sqfsCheckPath pathname) :=
  Twins.plain rfl fun _ => Twins.plain rfl fun _ => .ret rfl

private theorem lookup_plain {e : Req} (h : e.isLookup = true) : e.plain = true ∨ e = .getErrno := by
  cases e with
  | call c => exact .inl rfl
  | getMgr => exact .inl rfl
  | setErrno e => exact .inl rfl
  | _ => cases h

/-- The lookup from any `errno`: it sets it where it finds nothing. -/
private theorem findWithReader_twins {sure : Bool} (relative : CString) (dirReader : Nat) :
    Twins o writes₁ writes₂ quiet sure (findWithReader relative dirReader)
      (findWithReader relative dirReader) fun inode s => inode = none → s = true := by
  have hentry : Twins o writes₁ writes₂ quiet sure
      (if relative = [] then call .getRootInode else call (.findByPath relative) :
        Hook (Except SqfsError InodePtr))
      (if relative = [] then call .getRootInode else call (.findByPath relative))
      fun _ _ => True := by
    apply Program.Twin.ite
    · exact fun _ => Twins.plain rfl fun _ => .ret trivial
    · exact fun _ => Twins.plain rfl fun _ => .ret trivial
  apply hentry.bind
  intro ret _ _
  apply Twins.plain rfl
  intro _
  cases ret with
  | error e => exact Twins.plain rfl fun _ => .ret fun _ => rfl
  | ok inode => exact .ret nofun

private theorem sqfsFindInode_twins {sure : Bool} (relative : Option CString) :
    Twins o writes₁ writes₂ quiet sure (sqfsFindInode relative) (sqfsFindInode relative)
      fun inode s => inode = none → s = true := by
  cases relative with
  | none => exact Twins.plain rfl fun _ => .ret fun _ => rfl
  | some relative =>
    apply Twins.plain rfl
    intro mgr
    apply Program.Twin.ite
    · intro _
      apply Twins.plain rfl
      intro dirReader
      cases dirReader with
      | none => exact Twins.plain rfl fun _ => .ret fun _ => rfl
      | some dirReader => exact findWithReader_twins relative dirReader
    · exact fun _ => Twins.plain rfl fun _ => .ret fun _ => rfl

private theorem sqfsFindInode_sameErrno (relative : Option CString) :
    SameErrno o writes₁ writes₂ quiet (sqfsFindInode relative) :=
  Twins.of_plain ((sqfsFindInode_all relative).mono fun _ he => lookup_plain he)

private theorem sqfsStatImpl_sameErrno (relative : Option CString) :
    SameErrno o writes₁ writes₂ quiet (sqfsStatImpl b relative) := by
  apply sameErrno_bind (sqfsFindInode_sameErrno relative)
  intro inode
  cases inode with
  | none => exact .ret rfl
  | some inode =>
    exact Twins.plain rfl fun _ => Twins.plain rfl fun _ => Twins.plain rfl fun _ => .ret rfl

private theorem xstatLower_sameErrno (relative : CString) (buf : Stat) :
    SameErrno o writes₁ writes₂ quiet (xstatLower b relative buf) := by
  apply Twins.plain rfl
  intro _
  apply sameErrno_bind (sqfsStatImpl_sameErrno (some relative))
  intro ok
  apply Twins.getErrno
  intro savedErrno
  apply Twins.plain rfl
  intro _
  apply Twins.plain rfl
  intro _
  cases ok <;> exact .ret rfl

theorem sqfsXstat_sameErrno (ver : Int) (pathname : Option CString) (buf : Option Stat) :
    SameErrno o writes₁ writes₂ quiet (sqfsXstat b ver pathname buf) := by
  apply Twins.plain rfl
  intro real
  cases real with
  | ok st => exact .ret rfl
  | error e =>
    apply sameErrno_bind (sqfsCheckPath_sameErrno pathname)
    intro checked
    apply Program.Twin.ite
    · exact fun _ => Twins.plain rfl fun _ => .ret rfl
    · intro _
      cases buf with
      | none => exact Twins.plain rfl fun _ => .ret rfl
      | some st =>
        apply Program.Twin.ite
        · exact fun _ => log_setErrno (.ret rfl)
        · exact fun _ => xstatLower_sameErrno checked.2 st

private theorem accessLog_twins {sure : Bool} (pathname : Option CString) :
    Twins o writes₁ writes₂ quiet sure (accessLog pathname) (accessLog pathname)
      fun _ s => quiet = true → s = sure := by
  apply Twins.plain rfl
  intro root
  apply Twins.plain rfl
  intro sqfsPath
  change Twins o writes₁ writes₂ quiet sure (if _ then _ else _) (if _ then _ else _) _
  apply Program.Twin.ite
  · intro _
    apply (Twins.logHook _).mono
    rintro _ _ rfl hquiet
    rw [hquiet, Bool.and_true]
  · exact fun _ => .ret fun _ => rfl

private theorem accessReturnErr_quietErrno (pathname : Option CString) :
    QuietErrno o writes₁ writes₂ quiet (accessReturnErr pathname) := by
  apply (accessLog_twins pathname).bind
  exact fun _ _ hs => .ret hs

private theorem quietErrno_bind {α β : Type} {p : Hook α} {f : α → Hook β}
    (hp : SameErrno o writes₁ writes₂ quiet p)
    (hf : ∀ a, QuietErrno o writes₁ writes₂ quiet (f a)) :
    QuietErrno o writes₁ writes₂ quiet (p >>= f) := by
  apply Program.Twin.bind hp
  rintro a _ rfl
  exact hf a

private theorem accessLower_quietErrno (pathname : Option CString) (mode : BitVec 32)
    (relative : CString) :
    QuietErrno o writes₁ writes₂ quiet (accessLower b pathname mode relative) := by
  apply Twins.plain rfl
  intro _
  apply quietErrno_bind (sqfsStatImpl_sameErrno (some relative))
  intro stat
  apply Twins.getErrno
  intro savedErrno
  apply Twins.plain rfl
  intro _
  cases stat with
  | none => exact Twins.plain rfl fun _ => accessReturnErr_quietErrno pathname
  | some st =>
    dsimp only
    cases accessDecision st.stMode mode with
    | some e => exact Twins.plain rfl fun _ => accessReturnErr_quietErrno pathname
    | none => exact log_last 0

theorem sqfsAccess_quietErrno (pathname : Option CString) (mode : BitVec 32) :
    QuietErrno o writes₁ writes₂ quiet (sqfsAccess b pathname mode) := by
  apply Twins.plain rfl
  intro real
  cases real with
  | ok u =>
    apply (accessLog_twins pathname).bind
    exact fun _ _ hs => .ret hs
  | error e =>
    apply quietErrno_bind (sqfsCheckPath_sameErrno pathname)
    intro checked
    apply Program.Twin.ite
    · exact fun _ => Twins.plain rfl fun _ => accessReturnErr_quietErrno pathname
    · exact fun _ => accessLower_quietErrno pathname mode checked.2

/-- The locked part of an open logs nothing. -/
private theorem openInsert_sameErrno (flags : BitVec 32) (inode : InodePtr) :
    SameErrno o writes₁ writes₂ quiet (openInsert flags inode) :=
  Twins.of_plain ((openInsert_all flags inode).mono fun _ he => forOpen.plain he)

theorem sqfsOpen_quietErrno (pathname : Option CString) (flags mode : BitVec 32) :
    QuietErrno o writes₁ writes₂ quiet (sqfsOpen pathname flags mode) := by
  apply Twins.plain rfl
  intro fd
  cases fd with
  | ok fd => exact .ret fun _ => rfl
  | error e =>
    apply Twins.getErrno
    intro savedErrno
    apply quietErrno_bind (sqfsCheckPath_sameErrno pathname)
    intro checked
    apply Program.Twin.ite
    · exact fun _ => Twins.plain rfl fun _ => .ret fun _ => rfl
    · intro _
      apply Twins.plain rfl
      intro _
      apply quietErrno_bind (sqfsFindInode_sameErrno (some checked.2))
      intro inode
      cases inode with
      | none =>
        apply Twins.getErrno
        intro findErrno
        apply Twins.plain rfl
        exact fun _ => log_setErrno (.ret fun _ => rfl)
      | some inode =>
        apply quietErrno_bind (openInsert_sameErrno flags inode)
        exact fun fd => Twins.plain rfl fun _ => log_last fd

/-- The loop sets `errno` where it makes no directory. -/
private theorem createBackingDirLoop_twins (i : Nat) {sure : Bool} :
    Twins o writes₁ writes₂ quiet sure (createBackingDirLoop i) (createBackingDirLoop i)
      fun dir s => dir = none → s = true := by
  induction i generalizing sure with
  | zero => exact Twins.plain rfl fun _ => .ret fun _ => rfl
  | succ i ih =>
    apply Twins.weaken
    apply Twins.plain rfl
    intro id
    apply Twins.plain rfl
    intro pid
    apply Twins.plain rfl
    intro made
    cases made with
    | error e =>
      apply Twins.getErrno
      intro e
      apply Program.Twin.ite
      · exact fun _ => ih
      · exact fun _ => .ret fun _ => rfl
    | ok u =>
      apply Twins.plain rfl
      intro dir
      cases dir with
      | error e =>
        apply Twins.getErrno
        intro savedErrno
        exact Twins.plain rfl fun _ => Twins.plain rfl fun _ => .ret fun _ => rfl
      | ok stream =>
        apply Twins.getSomeErrno
        intro savedErrno₁ savedErrno₂
        exact Twins.plain rfl fun _ => .ret nofun

private theorem enumerateDiscard_twins {sure : Bool} (key : Nat) (list : List SqfsDirEntryNode) :
    Twins o writes₁ writes₂ quiet sure (enumerateDiscard key list) (enumerateDiscard key list)
      fun _ _ => True := by
  apply Twins.of_plain_any
  apply Program.All.bind ((freeSqfsDirEntryList_all list).mono fun _ he => isFree.plain he)
  exact fun _ => ⟨rfl, fun _ => trivial⟩

private theorem enumerateDirLoop_twins {sure : Bool} (key : Nat) (final : Except SqfsError Unit)
    (items : List DirItem) (list : List SqfsDirEntryNode) :
    Twins o writes₁ writes₂ quiet sure (enumerateDirLoop b key final items list)
      (enumerateDirLoop b key final items list) fun _ _ => True := by
  induction items generalizing list sure with
  | nil =>
    apply Twins.plain rfl
    intro _
    cases final with
    | ok u => exact .ret trivial
    | error e => exact Twins.logMsg.bind fun _ _ _ => enumerateDiscard_twins key list
  | cons item items ih =>
    apply Twins.plain rfl
    intro _
    apply Twins.plain rfl
    intro node
    cases node with
    | none =>
      apply Twins.logMsg.bind
      exact fun _ _ _ => Twins.plain rfl fun _ => enumerateDiscard_twins key list
    | some addr =>
      apply Twins.plain rfl
      intro _
      dsimp only
      cases item.inode with
      | error e =>
        apply Twins.plain rfl
        intro _
        apply Twins.logMsg.bind
        exact fun _ _ _ => Twins.plain rfl fun _ => enumerateDiscard_twins key list
      | ok inode =>
        apply Twins.plain rfl
        intro _
        dsimp only [Program.bind]
        cases copyName item.entry with
        | none => exact .undefined
        | some dName => exact Twins.plain rfl fun _ => Twins.plain rfl fun _ => ih _

/-- A stream, or an `errno` that is the same. -/
private abbrev StreamErrno (o : Oracle) (writes₁ writes₂ : Nat → List WriteResult)
    (quiet sure : Bool) (p : Hook (Option Nat)) : Prop :=
  Twins o writes₁ writes₂ quiet sure p p fun dir s => dir = none → s = true

private theorem opendirOutUnlockOnly_streamErrno (underlyingDir result : Option Nat) {sure : Bool}
    (hsure : result = none → sure = true) :
    StreamErrno o writes₁ writes₂ quiet sure (opendirOutUnlockOnly underlyingDir result) := by
  cases result with
  | some dir =>
    apply Twins.getSomeErrno
    intro savedErrno₁ savedErrno₂
    apply Twins.plain rfl
    intro _
    cases underlyingDir <;> exact .ret nofun
  | none =>
    cases hsure rfl
    apply Twins.getErrno
    intro savedErrno
    apply Twins.plain rfl
    intro _
    cases underlyingDir with
    | none => exact .ret fun _ => rfl
    | some dir => exact Twins.plain rfl fun _ => Twins.plain rfl fun _ => .ret fun _ => rfl

private theorem opendirOut_streamErrno (underlyingDir : Option Nat) (dirReader : Nat)
    (inode : Option Nat) :
    StreamErrno o writes₁ writes₂ quiet true (opendirOut underlyingDir dirReader inode) := by
  apply Twins.getErrno
  intro savedErrno
  have hfree : SameErrno o writes₁ writes₂ quiet (sqfsFree inode) := by
    cases inode with
    | none => exact .ret rfl
    | some addr => exact Twins.plain rfl fun _ => .ret rfl
  apply hfree.bind
  rintro _ _ rfl
  apply Twins.plain rfl
  intro _
  apply Twins.plain rfl
  exact fun _ => opendirOutUnlockOnly_streamErrno underlyingDir none fun _ => rfl

private theorem opendirInsert_streamErrno {sure : Bool} (realDir : Option Nat) (dirReader : Nat)
    (inode : InodePtr) (cursor : DirCursor) :
    StreamErrno o writes₁ writes₂ quiet sure (opendirInsert b realDir dirReader inode cursor) := by
  have hbacking : StreamErrno o writes₁ writes₂ quiet sure (opendirBacking realDir) := by
    cases realDir with
    | none => exact createBackingDirLoop_twins 128
    | some dir => exact .ret nofun
  apply hbacking.bind
  intro underlyingDir s hs
  cases underlyingDir with
  | none =>
    cases hs rfl
    exact opendirOut_streamErrno none dirReader (some inode.addr)
  | some dir =>
    apply Twins.plain rfl
    intro dirEntry
    cases dirEntry with
    | none =>
      exact Twins.plain rfl fun _ => opendirOut_streamErrno (some dir) dirReader (some inode.addr)
    | some addr =>
      apply Twins.plain rfl
      intro _
      apply (enumerateDirLoop_twins dir cursor.final cursor.items []).bind
      intro _ _ _
      apply Twins.plain rfl
      exact fun _ => opendirOutUnlockOnly_streamErrno (some dir) (some dir) nofun

private theorem opendirLookup_streamErrno {sure : Bool} (realDir : Option Nat)
    (relative : CString) (dirReader : Nat) :
    StreamErrno o writes₁ writes₂ quiet sure (opendirLookup b realDir relative dirReader) := by
  apply (sqfsFindInode_twins (some relative)).bind
  intro inode s hs
  cases inode with
  | none =>
    cases hs rfl
    apply Twins.getErrno
    intro savedErrno
    apply (Twins.logHook _).bind
    intro _ _ _
    cases realDir with
    | some dir =>
      apply Twins.plain rfl
      intro _
      apply Twins.plain rfl
      exact fun _ => opendirOutUnlockOnly_streamErrno (some dir) (some dir) nofun
    | none => exact Twins.plain rfl fun _ => opendirOut_streamErrno none dirReader none
  | some inode =>
    apply Twins.plain rfl
    intro _
    apply Program.Twin.ite
    · intro _
      apply Twins.plain rfl
      intro ret
      cases ret with
      | error e =>
        apply Twins.logMsg.bind
        intro _ _ _
        exact Twins.plain rfl fun _ => opendirOut_streamErrno realDir dirReader (some inode.addr)
      | ok cursor => exact opendirInsert_streamErrno realDir dirReader inode cursor
    · intro _
      exact Twins.plain rfl fun _ => opendirOut_streamErrno realDir dirReader (some inode.addr)

private theorem opendirLower_streamErrno {sure : Bool} (realDir : Option Nat)
    (relative : CString) :
    StreamErrno o writes₁ writes₂ quiet sure (opendirLower b realDir relative) := by
  apply (Twins.logHook _).bind
  intro _ _ _
  apply Twins.plain rfl
  intro _
  apply Twins.plain rfl
  intro mgr
  apply Program.Twin.ite
  · intro _
    apply Twins.plain rfl
    intro dirReader
    cases dirReader with
    | none =>
      exact Twins.plain rfl fun _ => opendirOutUnlockOnly_streamErrno realDir none fun _ => rfl
    | some dirReader => exact opendirLookup_streamErrno realDir relative dirReader
  · intro _
    exact Twins.plain rfl fun _ => opendirOutUnlockOnly_streamErrno realDir realDir fun _ => rfl

theorem sqfsOpendir_streamErrno (name : Option CString) :
    Twins o writes₁ writes₂ quiet true (sqfsOpendir b name) (sqfsOpendir b name)
      fun dir s => dir = none → s = true := by
  apply Twins.plain rfl
  intro real
  apply (sqfsCheckPath_sameErrno name).bind
  rintro checked _ -
  apply Program.Twin.ite
  · exact fun _ => Twins.plain rfl fun _ => .ret fun _ => rfl
  · exact fun _ => opendirLower_streamErrno (realStream real) checked.2

/-- The end of a `sqfs_readdir` under the lock, each run with its own filter. -/
private theorem dumpDirent_quietErrno (logReaddir₁ logReaddir₂ : Bool) (shown : List Object)
    (r : Option Dirent) :
    Twins o writes₁ writes₂ quiet true
      (do dumpDirent logReaddir₁ shown; sqfsUnlock; return r)
      (do dumpDirent logReaddir₂ shown; sqfsUnlock; return r) fun _ s => quiet = true → s = true := by
  have hline : Twins o writes₁ writes₂ quiet true (dumpDirent logReaddir₁ shown)
      (dumpDirent logReaddir₂ shown) fun _ s => s = (true && quiet) :=
    Twins.line (run_dumpDirent _ logReaddir₁ shown) (run_dumpDirent _ logReaddir₂ shown)
  apply hline.bind
  rintro _ _ rfl
  exact Twins.plain rfl fun _ => .ret fun hquiet => hquiet

private theorem readdirLower_quietErrno (logReaddir₁ logReaddir₂ : Bool) (dirp : Nat) :
    Twins o writes₁ writes₂ quiet true (readdirLower logReaddir₁ dirp)
      (readdirLower logReaddir₂ dirp) fun _ s => quiet = true → s = true := by
  apply Twins.plain rfl
  intro found
  apply Program.Twin.ite
  · exact fun _ => dumpDirent_quietErrno logReaddir₁ logReaddir₂ [] none
  · intro _
    apply Twins.plain rfl
    intro _
    generalize (if found.dirEntryCurrent = [] then found.dirEntryList else found.dirEntryCurrent) =
      current
    cases current with
    | nil => exact Twins.plain rfl fun _ => .ret fun _ => rfl
    | cons node next =>
      apply Twins.plain rfl
      intro _
      apply Twins.plain rfl
      intro _
      have hend : SameErrno o writes₁ writes₂ quiet
          (if next = [] then ask (.dirMapSetReachedEnd dirp) else pure () : Hook Unit) := by
        apply Program.Twin.ite
        · exact fun _ => Twins.plain rfl fun _ => .ret rfl
        · exact fun _ => .ret rfl
      apply hend.bind
      rintro _ _ rfl
      exact dumpDirent_quietErrno logReaddir₁ logReaddir₂ [node.object] (some node.dirent)

theorem sqfsReaddir_quietErrno (dirp : Nat) :
    QuietErrno o writes₁ writes₂ quiet (sqfsReaddir dirp) := by
  apply Twins.getInclude
  intro include₁ include₂
  apply Twins.plain rfl
  intro _
  apply Twins.plain rfl
  intro mapped
  cases mapped with
  | false => exact Twins.plain rfl fun _ => Twins.plain rfl fun _ => .ret fun _ => rfl
  | true =>
    apply Twins.plain rfl
    intro found
    apply Program.Twin.ite
    · intro _
      apply Twins.plain rfl
      intro result
      cases result with
      | some dirent => exact dumpDirent_quietErrno _ _ [] (some dirent)
      | none => exact readdirLower_quietErrno _ _ dirp
    · exact fun _ => readdirLower_quietErrno _ _ dirp

/-- Success, or an `errno` that is the same. -/
theorem sqfsClosedir_twins (dir : Nat) :
    Twins o writes₁ writes₂ quiet true (sqfsClosedir dir) (sqfsClosedir dir)
      fun r s => r = -1 → s = true := by
  apply Twins.plain rfl
  intro _
  apply Twins.plain rfl
  intro mapped
  cases mapped with
  | false =>
    apply Twins.plain rfl
    intro _
    apply Twins.plain rfl
    intro ret
    cases ret <;> exact .ret fun _ => rfl
  | true =>
    apply Twins.plain rfl
    intro found
    apply Twins.plain rfl
    intro _
    apply Twins.plain rfl
    intro _
    apply Twins.plain rfl
    intro _
    apply Twins.plain rfl
    intro _
    have hfree := (freeSqfsDirEntryList_all found.dirEntryList).mono fun _ he => isFree.plain he
    apply (Twins.of_plain_any hfree).bind
    intro _ _ _
    apply Twins.plain rfl
    intro _
    apply Twins.plain rfl
    intro _
    apply (Twins.logHook _).bind
    intro _ _ _
    apply Twins.weaken
    apply Twins.plain rfl
    intro _
    apply Twins.plain rfl
    intro ret
    cases ret with
    | error e => exact .ret fun _ => rfl
    | ok u => exact .ret fun h => absurd h (by decide)

end HookSqfs.Hooks
