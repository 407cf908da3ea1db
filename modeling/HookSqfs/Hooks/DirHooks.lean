import HookSqfs.Manager.Lookup

/-! The hooks on directory streams: `opendir`, `readdir` and `closedir`. -/
namespace HookSqfs.Hooks
open Manager Memory

/-- The loop of `free_sqfs_dir_entry_list`. -/
def freeSqfsDirEntryList : List SqfsDirEntryNode → Hook Unit
  | [] => return ()
  | node :: next => do
    deref [node.object]
    call (.sqfsFree node.inode.addr)
    call (.free node.addr)
    freeSqfsDirEntryList next

/-- The end of `enumerate_dir` that discards what was read. -/
def enumerateDiscard (key : Nat) (list : List SqfsDirEntryNode) : Hook Unit := do
  freeSqfsDirEntryList list
  ask (.dirMapSetList key [])

/-- `memcpy(d_name, dir_entry->name, dir_entry->size + 1)` and the terminator behind. -/
def fillDName (entry : SqfsDirEntry) : Option (Region Byte) := do
  let dName ← copy (uninitialized dNameSize) 0 entry.name
  store dName (entry.size.toNat + 1) NUL

theorem fillDName_some {entry : SqfsDirEntry} {cells : Region Byte}
    (h : fillDName entry = some cells) :
    cells.length = dNameSize ∧ Filled cells (entry.name ++ [NUL]) := by
  obtain ⟨copied, hcopy, hstore⟩ := Option.bind_eq_some_iff.mp h
  obtain ⟨hlen, hfilled⟩ := filled_copy hcopy
  rw [← entry.name_length] at hstore
  obtain ⟨hlen', hfilled'⟩ := hfilled.of_store hstore
  exact ⟨hlen'.trans (hlen.trans List.length_replicate), hfilled'⟩

/-- `d_name` with the name of an entry; none where the writes leave the array. -/
def copyName (entry : SqfsDirEntry) : Option DName :=
  match h : fillDName entry with
  | none => none
  | some cells =>
    some { cells, name := entry.name, size := (fillDName_some h).1, filled := (fillDName_some h).2 }

private theorem fillDName_of_lt {entry : SqfsDirEntry} (h : entry.name.length < dNameSize) :
    fillDName entry = some (DName.of entry.name h).cells := by
  have hcopy : copy (uninitialized dNameSize) 0 entry.name =
      some (entry.name.map some ++ uninitialized (dNameSize - entry.name.length)) := by
    have hfit : 0 + entry.name.length ≤ (uninitialized dNameSize : Region Byte).length := by
      rw [uninitialized, List.length_replicate]
      omega
    rw [copy, if_pos hfit]
    simp [uninitialized]
  have hstore : store (entry.name.map some ++ uninitialized (dNameSize - entry.name.length))
      (entry.size.toNat + 1) NUL = some (DName.of entry.name h).cells := by
    have hroom : dNameSize - entry.name.length = dNameSize - (entry.name.length + 1) + 1 := by
      omega
    rw [← entry.name_length, store_of_lt (by simp [uninitialized]; omega), hroom]
    simp [DName.of, uninitialized, List.replicate_succ]
  rw [fillDName, hcopy]
  exact hstore

private theorem fillDName_of_ge {entry : SqfsDirEntry} (h : dNameSize ≤ entry.name.length) :
    fillDName entry = none := by
  cases hfill : fillDName entry with
  | none => rfl
  | some cells =>
    obtain ⟨hlen, hfilled⟩ := fillDName_some hfill
    have hle := hfilled.length_le
    rw [List.length_append, List.length_singleton] at hle
    omega

/-- A name that leaves room for the terminator is copied. -/
theorem copyName_of_lt {entry : SqfsDirEntry} (h : entry.name.length < dNameSize) :
    copyName entry = some (.of entry.name h) := by
  have hfill := fillDName_of_lt h
  unfold copyName
  split
  · rename_i hnone
    cases hnone.symm.trans hfill
  · rename_i cells hsome
    cases hsome.symm.trans hfill
    rfl

/-- The writes for a longer name leave the array. -/
theorem copyName_of_ge {entry : SqfsDirEntry} (h : dNameSize ≤ entry.name.length) :
    copyName entry = none := by
  have hfill := fillDName_of_ge h
  unfold copyName
  split
  · rfl
  · rename_i cells hsome
    cases hsome.symm.trans hfill

/-- The entry that the loop fills in. -/
def direntOf (b : Bits) (inode : Inode) (dName : DName) : Dirent :=
  { dIno := inode.inodeNumber.toNat
    dOff := 114514
    dReclen := b.sizeofDirent
    dType := if inode.isDir then DT_DIR else DT_REG
    dName }

/-- The loop of `enumerate_dir`; `list` is what the entry's list holds. A write past
`d_name` is undefined. `LL_APPEND` walks the list to its end. -/
def enumerateDirLoop (b : Bits) (key : Nat) (final : Except SqfsError Unit) :
    List DirItem → List SqfsDirEntryNode → Hook Unit
  | [], list => do
    call (.dirReaderRead none)
    match final with
    | .ok _ => return ()
    | .error _ => do
      logMsg
      enumerateDiscard key list
  | item :: items, list => do
    call (.dirReaderRead (some item))
    let node : Option Nat ← call .malloc
    match node with
    | none => do
      logMsg
      call (.sqfsFree item.entry.addr)
      enumerateDiscard key list
    | some addr => do
      call (.dirReaderGetInode item.inode)
      match item.inode with
      | .error _ => do
        deref [item.entry.object]
        logMsg
        call (.sqfsFree item.entry.addr)
        enumerateDiscard key list
      | .ok inode => do
        deref [⟨.malloc, addr⟩, inode.object, item.entry.object]
        match copyName item.entry with
        | none => .undefined
        | some dName => do
          let node := { addr, inode, dirent := direntOf b inode.inode dName }
          deref (list.map SqfsDirEntryNode.object)
          ask (.dirMapSetList key (list ++ [node]))
          enumerateDirLoop b key final items (list ++ [node])

def enumerateDir (b : Bits) (key : Nat) (cursor : DirCursor) : Hook Unit :=
  enumerateDirLoop b key cursor.final cursor.items []

/-- The label `out_unlock_only`. -/
def opendirOutUnlockOnly (underlyingDir result : Option Nat) : Hook (Option Nat) := do
  let savedErrno ← getErrno
  sqfsUnlock
  match underlyingDir, result with
  | some dir, none => do
    let _ ← call (.closedir dir)
    setErrno savedErrno
    return none
  | _, result => return result

/-- The label `out`. -/
def opendirOut (underlyingDir : Option Nat) (dirReader : Nat) (inode : Option Nat) :
    Hook (Option Nat) := do
  let savedErrno ← getErrno
  sqfsFree inode
  call (.sqfsDestroy dirReader)
  setErrno savedErrno
  opendirOutUnlockOnly underlyingDir none

/-- The backing directory, unless the real one is there. -/
def opendirBacking (realDir : Option Nat) : Hook (Option Nat) :=
  match realDir with
  | some dir => return some dir
  | none => createBackingDir

/-- `sqfs_opendir` from the opened directory reader on. -/
def opendirInsert (b : Bits) (realDir : Option Nat) (dirReader : Nat) (inode : InodePtr)
    (cursor : DirCursor) : Hook (Option Nat) := do
  let underlyingDir ← opendirBacking realDir
  match underlyingDir with
  | none => opendirOut none dirReader (some inode.addr)
  | some dir => do
    let dirEntry : Option Nat ← call .malloc
    match dirEntry with
    | none => do
      setErrno Errno.ENOMEM
      opendirOut (some dir) dirReader (some inode.addr)
    | some addr => do
      ask (.dirMapAdd
        { addr, key := dir, dirReader, isRealDir := realDir.isSome, dirEntryList := []
          dirEntryCurrent := [], dirEntryListReachedEnd := false })
      enumerateDir b dir cursor
      sqfsFree (some inode.addr)
      opendirOutUnlockOnly (some dir) (some dir)

/-- `sqfs_opendir` with its directory reader, under the lock. -/
def opendirLookup (b : Bits) (realDir : Option Nat) (relative : CString) (dirReader : Nat) :
    Hook (Option Nat) := do
  let inode ← sqfsFindInode (some relative)
  match inode with
  | none => do
    let savedErrno ← getErrno
    logHook (some (ascii "sqfs_opendir"))
    match realDir with
    | some dir => do
      call (.sqfsDestroy dirReader)
      setErrno 0
      opendirOutUnlockOnly (some dir) (some dir)
    | none => do
      setErrno savedErrno
      opendirOut none dirReader none
  | some inode => do
    deref [inode.object]
    if inode.inode.isDir then do
      let ret : Except SqfsError DirCursor ← call (.openDir inode)
      match ret with
      | .error e => do
        logMsg
        setErrno (errnoFromSqfs e)
        opendirOut realDir dirReader (some inode.addr)
      | .ok cursor => opendirInsert b realDir dirReader inode cursor
    else do
      setErrno Errno.ENOTDIR
      opendirOut realDir dirReader (some inode.addr)

/-- `sqfs_opendir` for a path under the prefix. -/
def opendirLower (b : Bits) (realDir : Option Nat) (relative : CString) : Hook (Option Nat) := do
  logHook (some (ascii "sqfs_opendir"))
  sqfsLock
  let mgr ← getMgr
  if mgr.loaded then do
    let dirReader : Option Nat ← call .dirReaderCreate
    match dirReader with
    | none => do
      setErrno Errno.ENOMEM
      opendirOutUnlockOnly realDir none
    | some dirReader => opendirLookup b realDir relative dirReader
  else do
    setErrno (if realDir.isSome then 0 else Errno.ENOENT)
    opendirOutUnlockOnly realDir realDir

def realStream : Except Errno DirStream → Option Nat
  | .error _ => none
  | .ok stream => some stream.addr

def sqfsOpendir (b : Bits) (name : Option CString) : Hook (Option Nat) := do
  let real : Except Errno DirStream ← call (.opendir name)
  let checked ← sqfsCheckPath name
  if checked.1 ≠ 0 then do
    setErrno (if (realStream real).isSome then 0 else Errno.ENOENT)
    return realStream real
  else opendirLower b (realStream real) checked.2

/-- `dump_dirent` where the filter, read before, lets it through; the line shows what is
in the given objects. -/
def dumpDirent (logReaddir : Bool) (shown : List Object) : Hook Unit :=
  if logReaddir then do
    deref shown
    logMsg
  else return ()

/-- `sqfs_readdir` on the squashfs part of a mapped stream. -/
def readdirLower (logReaddir : Bool) (dirp : Nat) : Hook (Option Dirent) := do
  let found : DirMapEntry ← ask (.dirMapEntry dirp)
  if found.dirEntryListReachedEnd then do
    dumpDirent logReaddir []
    sqfsUnlock
    return none
  else do
    let current := if found.dirEntryCurrent = [] then found.dirEntryList
      else found.dirEntryCurrent
    ask (.dirMapSetCurrent dirp current)
    match current with
    | [] => do
      sqfsUnlock
      return none
    | node :: next => do
      deref [node.object]
      ask (.dirMapSetCurrent dirp next)
      (if next = [] then ask (.dirMapSetReachedEnd dirp) else pure ())
      dumpDirent logReaddir [node.object]
      sqfsUnlock
      return some node.dirent

def sqfsReaddir (dirp : Nat) : Hook (Option Dirent) := do
  let logReaddir ← logEnabled (some (ascii "sqfs_readdir"))
  sqfsLock
  let mapped : Bool ← ask (.dirMapFind dirp)
  if mapped then do
    let found : DirMapEntry ← ask (.dirMapEntry dirp)
    if found.isRealDir then do
      let result : Option Dirent ← call (.readdir dirp)
      match result with
      | some dirent => do
        dumpDirent logReaddir []
        sqfsUnlock
        return some dirent
      | none => readdirLower logReaddir dirp
    else readdirLower logReaddir dirp
  else do
    sqfsUnlock
    let result : Option Dirent ← call (.readdir dirp)
    return result

def sqfsClosedir (dir : Nat) : Hook Int := do
  sqfsLock
  let mapped : Bool ← ask (.dirMapFind dir)
  if mapped then do
    let found : DirMapEntry ← ask (.dirMapEntry dir)
    ask (.dirMapDel dir)
    deref [found.object]
    call (.sqfsDestroy found.dirReader)
    deref [found.object]
    let underlyingDir := found.key
    freeSqfsDirEntryList found.dirEntryList
    deref [found.object]
    call (.free found.addr)
    logHook (some (ascii "sqfs_closedir"))
    sqfsUnlock
    let ret : Except Errno Unit ← call (.closedir underlyingDir)
    match ret with
    | .error _ => return -1
    | .ok _ => return 0
  else do
    sqfsUnlock
    let ret : Except Errno Unit ← call (.closedir dir)
    match ret with
    | .error _ => return -1
    | .ok _ => return 0

end HookSqfs.Hooks
