import HookSqfs.Manager.Lookup

/-! The hooks on descriptors: `open`, `read`, `pread`, `lseek` and `close` with their
64-bit and `nocancel` variants. -/
namespace HookSqfs.Hooks
open Manager

/-- `open_flags_need_mode`. -/
def openFlagsNeedMode (flags : BitVec 32) : Bool :=
  flags &&& O_TMPFILE = O_TMPFILE || flags &&& O_CREAT ≠ 0

/-- `sqfs_open` once the inode is found, up to the unlock: the backing descriptor
with its entry, or -1 by way of the labels `error_and_free_fd` and
`error_and_free_inode`. -/
def openInsert (flags : BitVec 32) (inode : InodePtr) : Hook Int := do
  let fd ← createBackingFd flags
  if fd < 0 then do
    call (.sqfsFree inode.addr)
    return -1
  else do
    let fdEntry : Option Nat ← call .malloc
    match fdEntry with
    | none => do
      setErrno Errno.ENOMEM
      let _ ← call (.close fd)
      call (.sqfsFree inode.addr)
      return -1
    | some addr => do
      ask (.fdMapAdd { addr, key := fd, inode, offset := 0 })
      setErrno 0
      return fd

/-- `sqfs_open` once the inode is found, under the lock. -/
def openFound (flags : BitVec 32) (inode : InodePtr) : Hook Int := do
  let fd ← openInsert flags inode
  sqfsUnlock
  logHook (some (ascii "sqfs_open"))
  return fd

/-- `sqfs_open` after the real open failed. -/
def openLower (pathname : Option CString) (flags : BitVec 32) : Hook Int := do
  let savedErrno ← getErrno
  let checked ← sqfsCheckPath pathname
  if checked.1 ≠ 0 then do
    setErrno savedErrno
    return -1
  else do
    sqfsLock
    let inode ← sqfsFindInode (some checked.2)
    match inode with
    | none => do
      let findErrno ← getErrno
      sqfsUnlock
      logHook (some (ascii "sqfs_open"))
      setErrno findErrno
      return -1
    | some inode => openFound flags inode

/-- The real call: the mode goes along where the flags need one. -/
abbrev openCall (pathname : Option CString) (flags mode : BitVec 32) : Ext :=
  .open pathname flags (if openFlagsNeedMode flags then some mode else none)

def sqfsOpen (pathname : Option CString) (flags mode : BitVec 32) : Hook Int := do
  let fd : Except Errno Nat ← call (openCall pathname flags mode)
  match fd with
  | .ok fd => return fd
  | .error _ => openLower pathname flags

/-- The result of a read and the bytes it stored. -/
structure ReadResult where
  ret : Int
  data : List Byte := []
  deriving DecidableEq, Repr

/-- A result of the real function. -/
def realRead : Except Errno (List Byte) → ReadResult
  | .error _ => { ret := -1 }
  | .ok data => { ret := data.length, data }

variable (b : Bits)

/-- `sqfs_read` on a mapped descriptor, up to the unlock. -/
def sqfsReadMapped (fd : Int) (count : BitVec b.width) : Hook ReadResult := do
  let entry : FDMapEntry ← ask (.fdMapEntry fd)
  let ret : Except SqfsError (List Byte) ←
    call (.dataReaderRead entry.inode entry.offset (count.setWidth 32))
  deref [entry.object, entry.inode.object]
  match ret with
  | .ok data => do
    logHook (some (ascii "sqfs_read"))
    ask (.fdMapSetOffset fd (entry.offset + BitVec.ofNat 64 data.length))
    setErrno 0
    return { ret := data.length, data }
  | .error e => do
    logHook (some (ascii "sqfs_read"))
    setErrno (errnoFromSqfs e)
    return { ret := -1 }

def sqfsRead (fd : Int) (count : BitVec b.width) : Hook ReadResult := do
  sqfsLock
  let found : Bool ← ask (.fdMapFind fd)
  if found then do
    let result ← sqfsReadMapped b fd count
    sqfsUnlock
    return result
  else do
    sqfsUnlock
    let ret : Except Errno (List Byte) ← call (.read fd count.toNat)
    return realRead ret

def sqfsPreadMapped (func : CString) (entry : FDMapEntry) (count : BitVec b.width)
    (offset : BitVec 64) : Hook ReadResult :=
  if offset.slt 0 then do
    setErrno Errno.EINVAL
    return { ret := -1 }
  else do
    let ret : Except SqfsError (List Byte) ←
      call (.dataReaderRead entry.inode offset (count.setWidth 32))
    deref [entry.object, entry.inode.object]
    match ret with
    | .ok data => do
      logHook (some func)
      setErrno 0
      return { ret := data.length, data }
    | .error e => do
      logHook (some func)
      setErrno (errnoFromSqfs e)
      return { ret := -1 }

def sqfsPread (fd : Int) (count offset : BitVec b.width) : Hook ReadResult := do
  sqfsLock
  let found : Bool ← ask (.fdMapFind fd)
  if found then do
    let entry : FDMapEntry ← ask (.fdMapEntry fd)
    let result ← sqfsPreadMapped b (ascii "sqfs_pread") entry count (offset.signExtend 64)
    sqfsUnlock
    return result
  else do
    sqfsUnlock
    let ret : Except Errno (List Byte) ← call (.pread fd count.toNat offset.toInt)
    return realRead ret

def sqfsPread64 (fd : Int) (count : BitVec b.width) (offset : BitVec 64) : Hook ReadResult := do
  sqfsLock
  let found : Bool ← ask (.fdMapFind fd)
  if found then do
    let entry : FDMapEntry ← ask (.fdMapEntry fd)
    let result ← sqfsPreadMapped b (ascii "sqfs_pread64") entry count offset
    sqfsUnlock
    return result
  else do
    sqfsUnlock
    let present ← realPresent .pread64
    if present then do
      let ret : Except Errno (List Byte) ← call (.pread64 fd count.toNat offset.toInt)
      return realRead ret
    else do
      setErrno Errno.ENOSYS
      return { ret := -1 }

/-- `max_signed_value_for_size` for a type of `size` bytes. -/
def maxSignedValueForSize (size : Nat) : BitVec 64 :=
  if size ≥ 8 then 0x7fffffffffffffff else (1 <<< (size * 8 - 1)) - 1

def sqfsSeekAdd (base offset : BitVec 64) : Except Errno (BitVec 64) :=
  if offset.slt 0 then
    let distance := -(offset + 1) + 1
    if distance > base then .error Errno.EINVAL else .ok (base - distance)
  else if BitVec.allOnes 64 - base < offset then .error Errno.EOVERFLOW
  else .ok (base + offset)

def SEEK_SET : Int := 0
def SEEK_CUR : Int := 1
def SEEK_END : Int := 2
def SEEK_DATA : Int := 3
def SEEK_HOLE : Int := 4

def sqfsSeekCalculate (entry : FDMapEntry) (offset : BitVec 64) (whence : Int) :
    Except Errno (BitVec 64) :=
  let size := sqfsInodeSize entry.inode.inode
  if whence = SEEK_SET then sqfsSeekAdd 0 offset
  else if whence = SEEK_CUR then sqfsSeekAdd entry.offset offset
  else if whence = SEEK_END then sqfsSeekAdd size offset
  else if whence = SEEK_DATA then
    if offset.slt 0 then .error Errno.EINVAL
    else if offset ≥ size then .error Errno.ENXIO
    else .ok offset
  else if whence = SEEK_HOLE then
    if offset.slt 0 then .error Errno.EINVAL
    else if offset > size then .error Errno.ENXIO
    else .ok size
  else .error Errno.EINVAL

/-- The new offset, or `none` when it returns -1. -/
def sqfsLseekMapped (func : CString) (entry : FDMapEntry) (offset : BitVec 64) (whence : Int)
    (maxReturn : BitVec 64) : Hook (Option (BitVec 64)) := do
  deref [entry.object, entry.inode.object]
  match sqfsSeekCalculate entry offset whence with
  | .error err => do
    setErrno err
    deref [entry.object, entry.inode.object]
    logHook (some func)
    return none
  | .ok newOffset =>
    if newOffset > maxReturn then do
      setErrno Errno.EOVERFLOW
      deref [entry.object, entry.inode.object]
      logHook (some func)
      return none
    else do
      ask (.fdMapSetOffset entry.key newOffset)
      setErrno 0
      deref [entry.object, entry.inode.object]
      logHook (some func)
      return some newOffset

def realSeek : Except Errno Int → Int
  | .error _ => -1
  | .ok offset => offset

def sqfsLseek (fd : Int) (offset : BitVec b.width) (whence : Int) : Hook Int := do
  sqfsLock
  let found : Bool ← ask (.fdMapFind fd)
  if found then do
    let entry : FDMapEntry ← ask (.fdMapEntry fd)
    let result ← sqfsLseekMapped (ascii "sqfs_lseek") entry (offset.signExtend 64) whence
      (maxSignedValueForSize (b.width / 8))
    sqfsUnlock
    match result with
    | none => return -1
    | some newOffset => return b.signed newOffset.toNat
  else do
    sqfsUnlock
    let ret : Except Errno Int ← call (.lseek fd offset.toInt whence)
    return realSeek ret

def sqfsLseek64 (fd : Int) (offset : BitVec 64) (whence : Int) : Hook Int := do
  sqfsLock
  let found : Bool ← ask (.fdMapFind fd)
  if found then do
    let entry : FDMapEntry ← ask (.fdMapEntry fd)
    let result ← sqfsLseekMapped (ascii "sqfs_lseek64") entry offset whence 0x7fffffffffffffff
    sqfsUnlock
    match result with
    | none => return -1
    | some newOffset => return newOffset.toInt
  else do
    sqfsUnlock
    let present ← realPresent .lseek64
    if present then do
      let ret : Except Errno Int ← call (.lseek64 fd offset.toInt whence)
      return realSeek ret
    else do
      setErrno Errno.ENOSYS
      return -1

def realClosed : Except Errno Unit → Int
  | .error _ => -1
  | .ok _ => 0

/-- `real_close` is the call through the pointer, `none` for NULL. -/
def sqfsCloseImpl (func : CString) (fd : Int) (realClose : Option (Hook (Except Errno Unit))) :
    Hook Int :=
  match realClose with
  | none => do
    setErrno Errno.ENOSYS
    return -1
  | some realClose => do
    sqfsLock
    let found : Bool ← ask (.fdMapFind fd)
    if found then do
      let entry : FDMapEntry ← ask (.fdMapEntry fd)
      deref [entry.object, entry.inode.object]
      ask (.fdMapDel fd)
      deref [entry.object]
      call (.sqfsFree entry.inode.addr)
      call (.free entry.addr)
      sqfsUnlock
      let ret ← realClose
      let savedErrno ← getErrno
      logHook (some func)
      setErrno savedErrno
      return realClosed ret
    else do
      sqfsUnlock
      let ret ← realClose
      return realClosed ret

def sqfsClose (fd : Int) : Hook Int := do
  let present ← realPresent .close
  sqfsCloseImpl (ascii "sqfs_close") fd (if present then some (call (.close fd)) else none)

def sqfsCloseNocancel (fd : Int) : Hook Int := do
  let nocancel ← realPresent .closeNocancel
  let present ← realPresent .close
  sqfsCloseImpl (ascii "sqfs_close_nocancel") fd
    (if nocancel then some (call (.closeNocancel fd))
      else if present then some (call (.close fd)) else none)

end HookSqfs.Hooks
