import HookSqfs.Hooks.ThreadPool

/-! Where undefined behaviour can be: only at a directory entry whose name overruns
`d_name`. In a process that meets none every thread comes to its end. -/
namespace HookSqfs.Hooks
open Manager Interaction

/-- The names of an opened directory leave room for their terminators. -/
def NamesFit : (e : Req) → Answer e → Prop
  | .call (.openDir _), .ok cursor => ∀ item ∈ cursor.items, item.entry.name.length < dNameSize
  | _, _ => True

private theorem namesFit_openDir {inode : InodePtr} {ret : Except SqfsError DirCursor}
    (h : ∀ cursor, ret = .ok cursor → ∀ item ∈ cursor.items, item.entry.name.length < dNameSize) :
    NamesFit (.call (.openDir inode)) ret := by
  cases ret with
  | error e => trivial
  | ok cursor => exact h cursor rfl

/-- The same for the requests of loading. -/
def NamesFitLoad : (e : ImageReq) → ImageAnswer e → Prop
  | .hook e, a => NamesFit e a
  | _, _ => True

/-- It runs into no undefined behaviour but by such a name. -/
abbrev Sound {α : Type} (p : Hook α) : Prop := p.Defined NamesFit

private theorem relay_defined {α : Type} {p : Hook α} (hp : Sound p) :
    (relay p).Defined NamesFitLoad := by
  induction p with
  | ret a => trivial
  | undefined => exact hp.elim
  | request e k ih => exact fun a ha => ih a (hp a ha)

section
variable {b : Bits}

private theorem dispatch_sound {α β : Type} {fd : Int} {mapped : Hook α} {after : α → Hook β}
    {fall : Hook β} (hmapped : Sound mapped) (hafter : ∀ a, Sound (after a)) (hfall : Sound fall) :
    Sound (dispatch fd mapped after fall) :=
  fun _ _ _ _ => .ite (hmapped.bind fun a _ _ => hafter a) fun _ _ => hfall

private theorem logHook_sound (funcName : Option CString) : Sound (logHook funcName) :=
  (logHook_all funcName).defined

theorem sqfsRead_sound (fd : Int) (count : BitVec b.width) : Sound (sqfsRead b fd count) := by
  rw [sqfsRead_eq]
  exact dispatch_sound (sqfsReadMapped_all fd count).defined (fun _ => trivial)
    fun _ _ => trivial

theorem sqfsPread_sound (fd : Int) (count offset : BitVec b.width) :
    Sound (sqfsPread b fd count offset) := by
  rw [sqfsPread_eq]
  exact dispatch_sound (fun entry _ => (sqfsPreadMapped_all _ entry count _).defined)
    (fun _ => trivial) fun _ _ => trivial

theorem sqfsPread64_sound (fd : Int) (count : BitVec b.width) (offset : BitVec 64) :
    Sound (sqfsPread64 b fd count offset) := by
  rw [sqfsPread64_eq]
  exact dispatch_sound (fun entry _ => (sqfsPreadMapped_all _ entry count _).defined)
    (fun _ => trivial) fun _ _ => .ite (fun _ _ => trivial) fun _ _ => trivial

theorem sqfsLseek_sound (fd : Int) (offset : BitVec b.width) (whence : Int) :
    Sound (sqfsLseek b fd offset whence) := by
  rw [sqfsLseek_eq]
  refine dispatch_sound (fun entry _ => (sqfsLseekMapped_all _ entry _ whence _).defined)
    (fun a => ?_) fun _ _ => trivial
  cases a <;> trivial

theorem sqfsLseek64_sound (fd : Int) (offset : BitVec 64) (whence : Int) :
    Sound (sqfsLseek64 fd offset whence) := by
  rw [sqfsLseek64_eq]
  refine dispatch_sound (fun entry _ => (sqfsLseekMapped_all _ entry _ whence _).defined)
    (fun a => ?_) fun _ _ => .ite (fun _ _ => trivial) fun _ _ => trivial
  cases a <;> trivial

theorem sqfsOpen_sound (pathname : Option CString) (flags mode : BitVec 32) :
    Sound (sqfsOpen pathname flags mode) := by
  intro fd _
  cases fd with
  | ok fd => trivial
  | error e =>
    refine fun _ _ => (sqfsCheckPath_all pathname).defined.bind fun checked => ?_
    refine .ite (fun _ _ => trivial) fun _ _ => (sqfsFindInode_all _).defined.bind fun inode => ?_
    cases inode with
    | none => exact fun _ _ _ _ => (logHook_sound _).bind fun _ _ _ => trivial
    | some inode =>
      exact (openInsert_all flags inode).defined.bind fun fd _ _ =>
        (logHook_sound _).bind fun _ => trivial

private theorem sqfsCloseImpl_sound (func : CString) (fd : Int)
    {realClose : Option (Hook (Except Errno Unit))} (hclose : ∀ p ∈ realClose, Sound p) :
    Sound (sqfsCloseImpl func fd realClose) := by
  cases realClose with
  | none => exact fun _ _ => trivial
  | some realClose =>
    have hclose := hclose realClose rfl
    exact fun _ _ found _ => .ite
      ((sqfsCloseMapped_all fd).defined.bind fun _ _ _ => hclose.bind fun ret savedErrno _ =>
        (logHook_sound _).bind fun _ _ _ => trivial)
      fun _ _ => hclose.bind fun ret => trivial

theorem sqfsClose_sound (fd : Int) : Sound (sqfsClose fd) := by
  refine fun present _ => sqfsCloseImpl_sound _ fd fun p hp => ?_
  cases present with
  | false => cases hp
  | true =>
    cases hp
    exact fun _ _ => trivial

theorem sqfsCloseNocancel_sound (fd : Int) : Sound (sqfsCloseNocancel fd) := by
  refine fun nocancel _ present _ => sqfsCloseImpl_sound _ fd fun p hp => ?_
  cases nocancel with
  | true =>
    cases hp
    exact fun _ _ => trivial
  | false =>
    cases present with
    | false => cases hp
    | true =>
      cases hp
      exact fun _ _ => trivial

theorem sqfsXstat_sound (ver : Int) (pathname : Option CString) (buf : Option Stat) :
    Sound (sqfsXstat b ver pathname buf) := by
  intro real _
  cases real with
  | ok st => trivial
  | error e =>
    refine (sqfsCheckPath_all pathname).defined.bind fun checked => .ite (fun _ _ => trivial) ?_
    cases buf with
    | none => exact fun _ _ => trivial
    | some st =>
      refine .ite ((logHook_sound _).bind fun _ _ _ => trivial) fun _ _ =>
        (sqfsStatImpl_all b _).defined.bind fun ok _ _ _ _ _ _ => ?_
      cases ok <;> trivial

private theorem accessLog_sound (pathname : Option CString) : Sound (accessLog pathname) :=
  fun _ _ _ _ => .ite (logHook_sound _) trivial

theorem sqfsAccess_sound (pathname : Option CString) (mode : BitVec 32) :
    Sound (sqfsAccess b pathname mode) := by
  have herr : Sound (accessReturnErr pathname) := (accessLog_sound pathname).bind fun _ => trivial
  intro real _
  cases real with
  | ok u => exact (accessLog_sound pathname).bind fun _ => trivial
  | error e =>
    refine (sqfsCheckPath_all pathname).defined.bind fun checked => .ite (fun _ _ => herr) ?_
    refine fun _ _ => (sqfsStatImpl_all b _).defined.bind fun stat savedErrno _ _ _ => ?_
    cases stat with
    | none => exact fun _ _ => herr
    | some st =>
      dsimp only [Program.bind]
      cases accessDecision st.stMode mode with
      | none => exact (logHook_sound _).bind fun _ => trivial
      | some e => exact fun _ _ => herr

private theorem enumerateDiscard_sound (key : Nat) (list : List SqfsDirEntryNode) :
    Sound (enumerateDiscard key list) :=
  (freeSqfsDirEntryList_all list).defined.bind fun _ _ _ => trivial

private theorem logMsg_sound : Sound logMsg := logMsg_all.defined

private theorem enumerateDirLoop_sound (key : Nat) (final : Except SqfsError Unit)
    (items : List DirItem) (list : List SqfsDirEntryNode)
    (hnames : ∀ item ∈ items, item.entry.name.length < dNameSize) :
    Sound (enumerateDirLoop b key final items list) := by
  have hdiscard (addr : Nat) (list : List SqfsDirEntryNode) :
      Sound (logMsg >>= fun _ => call (.sqfsFree addr) >>= fun _ => enumerateDiscard key list) :=
    logMsg_sound.bind fun _ _ _ => enumerateDiscard_sound key list
  induction items generalizing list with
  | nil =>
    cases final with
    | ok u => exact fun _ _ => trivial
    | error e => exact fun _ _ => logMsg_sound.bind fun _ => enumerateDiscard_sound key list
  | cons item items ih =>
    intro _ _ node _
    cases node with
    | none => exact hdiscard _ list
    | some addr =>
      intro _ _
      dsimp only [Program.bind]
      cases item.inode with
      | error e => exact fun _ _ => hdiscard _ list
      | ok inode =>
        intro _ _
        dsimp only [Program.bind]
        rw [copyName_of_lt (hnames item List.mem_cons_self)]
        exact fun _ _ _ _ => ih _ fun other h => hnames other (List.mem_cons_of_mem _ h)

private theorem opendirOutUnlockOnly_sound (underlyingDir result : Option Nat) :
    Sound (opendirOutUnlockOnly underlyingDir result) := by
  intro savedErrno _ _ _
  cases underlyingDir with
  | none => trivial
  | some dir =>
    cases result with
    | none => exact fun _ _ _ _ => trivial
    | some r => trivial

private theorem opendirOut_sound (underlyingDir : Option Nat) (dirReader : Nat)
    (inode : Option Nat) : Sound (opendirOut underlyingDir dirReader inode) := by
  intro savedErrno _
  cases inode with
  | none => exact fun _ _ _ _ => opendirOutUnlockOnly_sound underlyingDir none
  | some addr => exact fun _ _ _ _ _ _ => opendirOutUnlockOnly_sound underlyingDir none

private theorem opendirInsert_sound (realDir : Option Nat) (dirReader : Nat) (inode : InodePtr)
    {cursor : DirCursor} (hnames : ∀ item ∈ cursor.items, item.entry.name.length < dNameSize) :
    Sound (opendirInsert b realDir dirReader inode cursor) := by
  have hbacking : Sound (opendirBacking realDir) := by
    cases realDir with
    | some dir => trivial
    | none => exact createBackingDir_all.defined
  refine hbacking.bind fun underlyingDir => ?_
  cases underlyingDir with
  | none => exact opendirOut_sound none dirReader (some inode.addr)
  | some dir =>
    intro dirEntry _
    cases dirEntry with
    | none => exact fun _ _ => opendirOut_sound (some dir) dirReader (some inode.addr)
    | some addr =>
      exact fun _ _ => (enumerateDirLoop_sound dir cursor.final cursor.items [] hnames).bind
        fun _ _ _ => opendirOutUnlockOnly_sound (some dir) (some dir)

private theorem opendirLookup_sound (realDir : Option Nat) (relative : CString)
    (dirReader : Nat) : Sound (opendirLookup b realDir relative dirReader) := by
  refine (sqfsFindInode_all _).defined.bind fun inode => ?_
  cases inode with
  | none =>
    refine fun savedErrno _ => (logHook_sound _).bind fun _ => ?_
    cases realDir with
    | some dir => exact fun _ _ _ _ => opendirOutUnlockOnly_sound (some dir) (some dir)
    | none => exact fun _ _ => opendirOut_sound none dirReader none
  | some inode =>
    refine fun _ _ => .ite (fun ret hnames => ?_) fun _ _ =>
      opendirOut_sound realDir dirReader (some inode.addr)
    cases ret with
    | error e => exact logMsg_sound.bind fun _ _ _ => opendirOut_sound realDir dirReader _
    | ok cursor => exact opendirInsert_sound realDir dirReader inode hnames

theorem sqfsOpendir_sound (name : Option CString) : Sound (sqfsOpendir b name) := by
  refine fun real _ => (sqfsCheckPath_all name).defined.bind fun checked =>
    .ite (fun _ _ => trivial) ?_
  refine (logHook_sound _).bind fun _ _ _ mgr _ => .ite (fun dirReader _ => ?_)
    fun _ _ => opendirOutUnlockOnly_sound _ _
  cases dirReader with
  | none => exact fun _ _ => opendirOutUnlockOnly_sound _ none
  | some dirReader => exact opendirLookup_sound _ _ dirReader

theorem sqfsClosedir_sound (dir : Nat) : Sound (sqfsClosedir dir) := by
  have hclose (key : Nat) {k : Except Errno Unit → Hook Int} (hk : ∀ ret, Sound (k ret)) :
      Sound (call (.closedir key) >>= k) := fun ret _ => hk ret
  refine fun _ _ mapped _ => .ite (fun found _ _ _ _ _ _ _ _ _ => ?_)
    fun _ _ => hclose dir fun ret => ?_
  · refine (freeSqfsDirEntryList_all found.dirEntryList).defined.bind fun _ _ _ _ _ =>
      (logHook_sound _).bind fun _ _ _ => hclose found.key fun ret => ?_
    cases ret <;> trivial
  · cases ret <;> trivial

/-- Every entry point runs into no other undefined behaviour. -/
theorem EntryPoint.defined {α : Type} {p : Loader α} (h : EntryPoint b p) :
    p.Defined NamesFitLoad := by
  cases h with
  | loadImage => exact sqfsMgrLoadImage_all.defined
  | «open» pathname flags mode => exact relay_defined (sqfsOpen_sound pathname flags mode)
  | read fd count => exact relay_defined (sqfsRead_sound fd count)
  | pread fd count offset => exact relay_defined (sqfsPread_sound fd count offset)
  | pread64 fd count offset => exact relay_defined (sqfsPread64_sound fd count offset)
  | lseek fd offset whence => exact relay_defined (sqfsLseek_sound fd offset whence)
  | lseek64 fd offset whence => exact relay_defined (sqfsLseek64_sound fd offset whence)
  | close fd => exact relay_defined (sqfsClose_sound fd)
  | closeNocancel fd => exact relay_defined (sqfsCloseNocancel_sound fd)
  | xstat ver pathname buf => exact relay_defined (sqfsXstat_sound ver pathname buf)
  | access pathname mode => exact relay_defined (sqfsAccess_sound pathname mode)
  | opendir name => exact relay_defined (sqfsOpendir_sound name)
  | readdir dirp => exact relay_defined (sqfsReaddir_all dirp).defined
  | closedir dir => exact relay_defined (sqfsClosedir_sound dir)

theorem Client.defined {R : Type} {p : Loader R} (h : Client b p) : p.Defined NamesFitLoad := by
  induction h with
  | done r => trivial
  | getErrno rest ih => exact fun e _ => ih e
  | setErrno e rest ih => exact fun _ _ => ih
  | call h rest ih => exact h.defined.bind ih

end

section pool
variable {b : Bits} {o : Oracle} {i : Nat → ImageOracle}
  {R : Type} {threads : List (Thread ImageReq ImageAnswer Errno R)} {s : Process}
  {turns : List (Turn ImageReq ImageAnswer)} {c : Pool ImageReq ImageAnswer Process Errno R}

theorem namesFit_handle (hnames : ∀ n inode cursor, o.answer n (.openDir inode) = .ok cursor →
    ∀ item ∈ cursor.items, item.entry.name.length < dNameSize) (s : Process) (e : ImageReq) :
    NamesFitLoad e ((threadMachine o i).handle s e).1 := by
  cases e with
  | hook e =>
    cases e with
    | call c =>
      cases c with
      | openDir inode => exact namesFit_openDir fun cursor h => hnames _ inode cursor h
      | _ => trivial
    | _ => trivial
  | _ => trivial

/-- However they are interleaved, no thread runs into undefined behaviour, and the threads do
not wait for one another: where none of them can have a turn, each has made its last call. -/
theorem no_deadlock (hfree : ∀ t ∈ threads, t.held = 0)
    (hclients : ∀ t ∈ threads, Client b t.rest)
    (hnames : ∀ n inode cursor, o.answer n (.openDir inode) = .ok cursor →
      ∀ item ∈ cursor.items, item.entry.name.length < dNameSize)
    (hsteps : (threadMachine o i).Steps ⟨s, threads⟩ turns c) :
    (∀ t ∈ c.threads, t.rest ≠ .undefined) ∧
    ((∀ turn c', ¬ (threadMachine o i).Step c turn c') → ∀ t ∈ c.threads, ∃ r, t.rest = .ret r) := by
  have horder : Orderly (threadMachine o i).locking c.threads :=
    (orderly_clients hfree hclients).steps hsteps
  have hdefined : ∀ t ∈ c.threads, t.rest.Defined NamesFitLoad :=
    Orderly.defined_steps (namesFit_handle hnames) (fun t ht => (hclients t ht).defined) hsteps
  exact ⟨fun t ht => (hdefined t ht).ne_undefined, horder.all_returned hdefined⟩

end pool

/-- The first reader takes the lock; from there both come to their ends. -/
theorem no_deadlock_readers :
    ∃ more c, (threadMachine .bare fun _ => .sound).Steps ⟨⟨.blank, 0⟩, twoReaders⟩
        ([⟨0, .hook .lock, ()⟩] ++ more) c ∧
      (∀ turn c', ¬ (threadMachine .bare fun _ => .sound).Step c turn c') ∧
      ∀ t ∈ c.threads, ∃ r, t.rest = .ret r := by
  obtain ⟨c, hlocks, -⟩ := twoReaders_locks .bare (fun _ => .sound) ⟨.blank, 0⟩
  obtain ⟨more, c', hsteps, hstuck⟩ := Machine.comes_to_rest hlocks
  refine ⟨more, c', hsteps, hstuck,
    (no_deadlock (b := .b64) twoReaders_free twoReaders_clients ?_ hsteps).2 hstuck⟩
  intro n inode cursor h
  cases h

end HookSqfs.Hooks
