import HookSqfs.Memory.Regions
import Mathlib.Data.BitVec

/-! The records of `sqfs_mgr.c` and of the interfaces it calls. Widths that the
two builds of the Makefile change are functions of `Bits`. -/
namespace HookSqfs.Manager
open Memory

abbrev Byte := UInt8

def NUL : Byte := 0

/-- The bytes of a C string before its terminating NUL. -/
abbrev CString := List Byte

abbrev Errno := Nat

namespace Errno
def ENOENT : Errno := 2
def EINTR : Errno := 4
def EIO : Errno := 5
def ENXIO : Errno := 6
def EBADF : Errno := 9
def ENOMEM : Errno := 12
def EACCES : Errno := 13
def EFAULT : Errno := 14
def EEXIST : Errno := 17
def ENOTDIR : Errno := 20
def EISDIR : Errno := 21
def EINVAL : Errno := 22
def EMFILE : Errno := 24
def EROFS : Errno := 30
def ENOSYS : Errno := 38
def EOVERFLOW : Errno := 75
def ENOTSUP : Errno := 95
end Errno

/-- `BITS` of the Makefile: the width of `long`, `size_t`, `off_t`, `blkcnt_t`
and `time_t`. -/
inductive Bits where
  | b32
  | b64
  deriving DecidableEq, Repr

namespace Bits

def width : Bits → Nat
  | .b32 => 32
  | .b64 => 64

/-- `sizeof(struct dirent)`. -/
def sizeofDirent : Bits → Nat
  | .b32 => 268
  | .b64 => 280

/-- A cast to the signed type of the build's width. -/
def signed (b : Bits) (x : Int) : Int := x.bmod (2 ^ b.width)

end Bits

/-- The error codes of libsquashfs that the manager names. -/
inductive SqfsError where
  | alloc | io | compressor | internal | corrupted | unsupported | overflow | outOfBounds
  | superMagic | superVersion | superBlockSize | notDir | noEntry | linkLoop | notFile
  | argInvalid | sequence
  | other (code : Nat)
  deriving DecidableEq, Repr

def errnoFromSqfs : SqfsError → Errno
  | .alloc => Errno.ENOMEM
  | .noEntry => Errno.ENOENT
  | .notDir => Errno.ENOTDIR
  | .notFile => Errno.EISDIR
  | .unsupported => Errno.ENOTSUP
  | .argInvalid => Errno.EINVAL
  | _ => Errno.EIO

/-- The type tag of an inode with the member of the data union it selects. -/
inductive InodeData where
  | dir (nlink : BitVec 32) (size : BitVec 16)
  | extDir (nlink size : BitVec 32)
  | file (fileSize : BitVec 32)
  | extFile (fileSize : BitVec 64) (nlink : BitVec 32)
  | slink (nlink targetSize : BitVec 32)
  | extSlink (nlink targetSize : BitVec 32)
  | bdev (nlink : BitVec 32)
  | extBdev (nlink : BitVec 32)
  | cdev (nlink : BitVec 32)
  | extCdev (nlink : BitVec 32)
  | fifo (nlink : BitVec 32)
  | extFifo (nlink : BitVec 32)
  | socket (nlink : BitVec 32)
  | extSocket (nlink : BitVec 32)
  | unknown (type : BitVec 16)
  deriving DecidableEq, Repr, Inhabited

/-- `sqfs_inode_generic_t`: the fields of `base` the manager reads, and the union. -/
structure Inode where
  mode : BitVec 16
  modTime : BitVec 32
  inodeNumber : BitVec 32
  data : InodeData
  deriving DecidableEq, Repr, Inhabited

/-- The test that the manager makes in `enumerate_dir` and `sqfs_opendir`. -/
def Inode.isDir (inode : Inode) : Bool :=
  match inode.data with
  | .dir _ _ | .extDir _ _ => true
  | _ => false

/-- Who hands an object out, and so which function takes it back: `free`, `sqfs_free` or
`sqfs_destroy`. -/
inductive Allocator where
  | malloc
  | library
  | reader
  deriving DecidableEq, Repr

/-- An object on the heap. -/
structure Object where
  allocator : Allocator
  addr : Nat
  deriving DecidableEq, Repr

/-- A directory reader of libsquashfs. -/
def readerObject (addr : Nat) : Object := ⟨.reader, addr⟩

/-- A heap object with the address the library returned. -/
structure InodePtr where
  addr : Nat
  inode : Inode
  deriving DecidableEq, Repr, Inhabited

def InodePtr.object (p : InodePtr) : Object := ⟨.library, p.addr⟩

/-- `struct stat`, each field as the exact number a reader of the field sees. -/
structure Stat where
  stIno : Nat := 0
  stMode : BitVec 32 := 0
  stNlink : Nat := 0
  stUid : Nat := 0
  stGid : Nat := 0
  stSize : Int := 0
  stBlksize : Int := 0
  stBlocks : Int := 0
  stAtime : Int := 0
  stMtime : Int := 0
  stCtime : Int := 0
  deriving DecidableEq, Repr

/-- `sizeof(d_name)`. -/
def dNameSize : Nat := 256

/-- `char d_name[256]` that starts with a name and its terminator. -/
structure DName where
  cells : Region Byte
  name : CString
  size : cells.length = dNameSize
  filled : Filled cells (name ++ [NUL])
  deriving DecidableEq, Repr

namespace DName

/-- The terminator is in the array too. -/
theorem length_lt (d : DName) : d.name.length < dNameSize := by
  have hle := d.filled.length_le
  rw [List.length_append, List.length_singleton, d.size] at hle
  exact hle

/-- An array that was written up to the terminator only. -/
def of (name : CString) (h : name.length < dNameSize) : DName where
  cells := (name ++ [NUL]).map some ++ uninitialized (dNameSize - (name.length + 1))
  name := name
  size := by
    simp only [uninitialized, List.length_append, List.length_map, List.length_singleton,
      List.length_replicate]
    omega
  filled := List.prefix_append _ _

@[simp] theorem of_name (name : CString) (h : name.length < dNameSize) : (of name h).name = name :=
  rfl

end DName

instance : Inhabited DName := ⟨.of [] (by decide)⟩

structure Dirent where
  dIno : Nat
  dOff : Int
  dReclen : Nat
  dType : Nat
  dName : DName
  deriving DecidableEq, Repr, Inhabited

def DT_DIR : Nat := 4
def DT_REG : Nat := 8

/-- `sqfs_dir_entry_t`: the 16-bit size field is one less than the name's length. -/
structure SqfsDirEntry where
  addr : Nat
  size : BitVec 16
  name : CString
  name_length : name.length = size.toNat + 1

def SqfsDirEntry.object (e : SqfsDirEntry) : Object := ⟨.library, e.addr⟩

/-- What the directory reader gives for one entry: the entry and its inode. -/
structure DirItem where
  entry : SqfsDirEntry
  inode : Except SqfsError InodePtr

/-- The results an opened directory reader will give, up to the end marker
(`.ok`) or to a reader error. -/
structure DirCursor where
  items : List DirItem
  final : Except SqfsError Unit

/-- A real directory stream: its address and the entries it still has. -/
structure DirStream where
  addr : Nat
  entries : List Dirent
  deriving DecidableEq, Repr

structure SqfsDirEntryNode where
  addr : Nat
  inode : InodePtr
  dirent : Dirent
  deriving DecidableEq, Repr, Inhabited

def SqfsDirEntryNode.object (node : SqfsDirEntryNode) : Object := ⟨.malloc, node.addr⟩

/-- A pointer into the singly linked list is the rest of the list from there,
`[]` being NULL. -/
structure DirMapEntry where
  addr : Nat
  key : Nat
  dirReader : Nat
  isRealDir : Bool
  dirEntryList : List SqfsDirEntryNode
  dirEntryCurrent : List SqfsDirEntryNode
  dirEntryListReachedEnd : Bool
  deriving DecidableEq, Repr, Inhabited

def DirMapEntry.object (e : DirMapEntry) : Object := ⟨.malloc, e.addr⟩

structure FDMapEntry where
  addr : Nat
  key : Int
  inode : InodePtr
  offset : BitVec 64
  deriving DecidableEq, Repr, Inhabited

def FDMapEntry.object (e : FDMapEntry) : Object := ⟨.malloc, e.addr⟩

/-- The image handles of `g_xSqfsMgr` and the superblock field the hooks read. -/
structure Mgr where
  file : Option Nat
  compressor : Option Nat
  dataReader : Option Nat
  blockSize : BitVec 32
  deriving DecidableEq, Repr

def Mgr.loaded (m : Mgr) : Bool := m.file.isSome && m.compressor.isSome && m.dataReader.isSome

end HookSqfs.Manager
