import HookSqfs.Manager.Logging
import HookSqfs.Paths.LexicalFunctions

/-! The routing of a path, the lookup in the image and the `stat` view of an inode. -/
namespace HookSqfs.Manager
open Paths

/-- The default of `sqfs_mgr_get_prefix`. -/
def defaultPrefix : CString := ascii "/hook"

def sqfsMgrGetPrefix : Hook CString := do
  let value ← getenv .hooksqfsPrefix
  return value.getD defaultPrefix

/-- The decision of `sqfs_check_path_then_convert` and the buffer it leaves. -/
def checkedPath (root : CString) (sqfsPath pathname relativeOut : Option CString) (len : Nat) :
    Errno × Option CString :=
  match pathname with
  | none => (Errno.EFAULT, relativeOut)
  | some pathname =>
    if pathEqualsNormalized (some pathname) sqfsPath then (Errno.ENOENT, relativeOut)
    else
      let out := pathRelativeToRoot (some root) (some pathname) relativeOut len
      (if out.1 then 0 else Errno.ENOENT, out.2)

def sqfsCheckPathThenConvert (pathname relativeOut : Option CString) (len : Nat) :
    Hook (Errno × Option CString) := do
  let root ← sqfsMgrGetPrefix
  let sqfsPath ← getenv .hooksqfsFile
  return checkedPath root sqfsPath pathname relativeOut len

/-- The call with the caller's `char relative[PATH_MAX]`: the code and the text. -/
def sqfsCheckPath (pathname : Option CString) : Hook (Errno × CString) := do
  let out ← sqfsCheckPathThenConvert pathname (some []) PATH_MAX
  return (out.1, out.2.getD [])

/-- The check-only call that guards a log line. -/
def sqfsCheckOnly (pathname : Option CString) : Hook Bool := do
  let out ← sqfsCheckPathThenConvert pathname none 0
  return out.1 = 0

/-- `sqfs_free`, which ignores NULL. -/
def sqfsFree (addr : Option Nat) : Hook Unit :=
  match addr with
  | none => pure ()
  | some addr => call (.sqfsFree addr)

/-- The rest of `sqfs_find_inode` once its directory reader exists. -/
def findWithReader (relative : CString) (dirReader : Nat) : Hook (Option InodePtr) := do
  let ret : Except SqfsError InodePtr ←
    (if relative = [] then call .getRootInode else call (.findByPath relative))
  call (.sqfsDestroy dirReader)
  match ret with
  | .error e => do
    setErrno (errnoFromSqfs e)
    return none
  | .ok inode => return some inode

def sqfsFindInode (relative : Option CString) : Hook (Option InodePtr) :=
  match relative with
  | none => do
    setErrno Errno.EFAULT
    return none
  | some relative => do
    let mgr ← getMgr
    if mgr.loaded then
      let dirReader : Option Nat ← call .dirReaderCreate
      match dirReader with
      | none => do
        setErrno Errno.ENOMEM
        return none
      | some dirReader => findWithReader relative dirReader
    else
      setErrno Errno.ENOENT
      return none

def S_IFDIR : BitVec 32 := 0x4000
def S_IFREG : BitVec 32 := 0x8000
def S_IFLNK : BitVec 32 := 0xa000
def S_IFBLK : BitVec 32 := 0x6000
def S_IFCHR : BitVec 32 := 0x2000
def S_IFIFO : BitVec 32 := 0x1000
def S_IFSOCK : BitVec 32 := 0xc000

def sqfsInodeMode (inode : Inode) : BitVec 32 :=
  let mode := inode.mode.setWidth 32 &&& 0xfff
  match inode.data with
  | .dir .. | .extDir .. => mode ||| S_IFDIR
  | .file .. | .extFile .. => mode ||| S_IFREG
  | .slink .. | .extSlink .. => mode ||| S_IFLNK
  | .bdev .. | .extBdev .. => mode ||| S_IFBLK
  | .cdev .. | .extCdev .. => mode ||| S_IFCHR
  | .fifo .. | .extFifo .. => mode ||| S_IFIFO
  | .socket .. | .extSocket .. => mode ||| S_IFSOCK
  | .unknown _ => mode

def sqfsInodeNlink (inode : Inode) : Nat :=
  match inode.data with
  | .dir nlink _ | .extDir nlink _ | .extFile _ nlink | .slink nlink _ | .extSlink nlink _
  | .bdev nlink | .cdev nlink | .extBdev nlink | .extCdev nlink | .fifo nlink | .socket nlink
  | .extFifo nlink | .extSocket nlink => nlink.toNat
  | .file _ | .unknown _ => 1

def sqfsInodeSize (inode : Inode) : BitVec 64 :=
  match inode.data with
  | .file size => size.setWidth 64
  | .extFile size _ => size
  | .dir _ size => size.setWidth 64
  | .extDir _ size => size.setWidth 64
  | .slink _ size | .extSlink _ size => size.setWidth 64
  | _ => 0

def sqfsFillStat (b : Bits) (blockSize : BitVec 32) (inode : Inode) : Stat :=
  let size := sqfsInodeSize inode
  let mtime := b.signed inode.modTime.toNat
  { stIno := inode.inodeNumber.toNat
    stMode := sqfsInodeMode inode
    stNlink := sqfsInodeNlink inode
    stSize := b.signed size.toNat
    stBlksize := b.signed blockSize.toNat
    stBlocks := b.signed ((size + 511) / 512).toNat
    stAtime := mtime
    stMtime := mtime
    stCtime := mtime }

theorem sqfsFillStat_stMode (b : Bits) (blockSize : BitVec 32) (inode : Inode) :
    (sqfsFillStat b blockSize inode).stMode = sqfsInodeMode inode := rfl

def sqfsStatImpl (b : Bits) (relative : Option CString) : Hook (Option Stat) := do
  let inode ← sqfsFindInode relative
  match inode with
  | none => return none
  | some inode => do
    deref [inode.object]
    let mgr ← getMgr
    let st := sqfsFillStat b mgr.blockSize inode.inode
    call (.sqfsFree inode.addr)
    return some st

end HookSqfs.Manager
