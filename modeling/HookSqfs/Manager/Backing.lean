import HookSqfs.Manager.World

/-! `utils.c`: the throw-away objects that stand behind a served descriptor or stream. -/
namespace HookSqfs.Manager

def ascii (s : String) : CString := s.toList.map fun c => UInt8.ofNat c.toNat

def O_WRONLY : BitVec 32 := 1
def O_RDWR : BitVec 32 := 2
def O_ACCMODE : BitVec 32 := 3
def O_CREAT : BitVec 32 := 0x40
def O_EXCL : BitVec 32 := 0x80
def O_TRUNC : BitVec 32 := 0x200
def O_CLOEXEC : BitVec 32 := 0x80000
def O_TMPFILE : BitVec 32 := 0x410000
def MFD_CLOEXEC : BitVec 32 := 1

def backingDirPath (pid id : Nat) : CString :=
  ascii "/tmp/hooksqfs-dir-" ++ ascii (toString pid) ++ ascii "-" ++ ascii (toString id)

def backingFdPath (pid id : Nat) : CString :=
  ascii "/tmp/hooksqfs-" ++ ascii (toString pid) ++ ascii "-" ++ ascii (toString id)

/-- The loop of `create_backing_dir` with the iterations left. -/
def createBackingDirLoop : Nat → Hook (Option Nat)
  | 0 => do
    setErrno Errno.EEXIST
    return none
  | i + 1 => do
    let id : Nat ← ask .nextTmpDir
    let pid ← getpid
    let made : Except Errno Unit ← call (.mkdir (backingDirPath pid id))
    match made with
    | .error _ => do
      let e ← getErrno
      if e = Errno.EEXIST then createBackingDirLoop i else return none
    | .ok _ => do
      let dir : Except Errno DirStream ← call (.opendir (some (backingDirPath pid id)))
      let savedErrno ← getErrno
      let _ ← call (.rmdir (backingDirPath pid id))
      match dir with
      | .error _ => do
        setErrno savedErrno
        return none
      | .ok stream => return some stream.addr

def createBackingDir : Hook (Option Nat) := createBackingDirLoop 128

def memfdFlags (flags : BitVec 32) : BitVec 32 :=
  if flags &&& O_CLOEXEC ≠ 0 then MFD_CLOEXEC else 0

def createMemfd (flags : BitVec 32) : Hook Int := do
  let fd : Except Errno Nat ← call (.memfdCreate (memfdFlags flags))
  match fd with
  | .error _ => return -1
  | .ok fd => return fd

def tmpOpenFlags (flags : BitVec 32) : BitVec 32 :=
  if flags &&& O_CLOEXEC ≠ 0 then O_RDWR ||| O_CREAT ||| O_EXCL ||| O_CLOEXEC
  else O_RDWR ||| O_CREAT ||| O_EXCL

/-- The loop of `create_unlinked_tmp_fd` with the iterations left. -/
def createUnlinkedTmpFdLoop (flags : BitVec 32) : Nat → Hook Int
  | 0 => do
    setErrno Errno.EEXIST
    return -1
  | i + 1 => do
    let id : Nat ← ask .nextTmpFile
    let pid ← getpid
    let fd : Except Errno Nat ← call (.openat (backingFdPath pid id) (tmpOpenFlags flags))
    match fd with
    | .ok fd => do
      let _ ← call (.unlinkat (backingFdPath pid id))
      return fd
    | .error _ => do
      let e ← getErrno
      if e ≠ Errno.EEXIST then return -1 else createUnlinkedTmpFdLoop flags i

def createUnlinkedTmpFd (flags : BitVec 32) : Hook Int := createUnlinkedTmpFdLoop flags 128

def createBackingFd (flags : BitVec 32) : Hook Int := do
  let fd ← createMemfd flags
  if fd ≥ 0 then return fd else
    let e ← getErrno
    if e ≠ Errno.ENOSYS ∧ e ≠ Errno.EINVAL then return -1 else createUnlinkedTmpFd flags

end HookSqfs.Manager
