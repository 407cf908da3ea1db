import HookSqfs.Interaction.Program
import HookSqfs.Manager.DataModel
import HookSqfs.Tables.KeyedList
import Mathlib.Logic.Function.Basic
import Mathlib.Tactic.Simps.Basic

/-! What the hooks ask of their surroundings, and the process state that answers.
Calls that leave the process are answered by an oracle; everything else, the two
maps included, is determined by the state. -/
namespace HookSqfs.Manager
open Interaction Tables

/-- Calls to the real libc, to the kernel, to libsquashfs and to the allocator. -/
inductive Ext where
  | open (pathname : Option CString) (flags : BitVec 32) (mode : Option (BitVec 32))
  | read (fd : Int) (count : Nat)
  | pread (fd : Int) (count : Nat) (offset : Int)
  | pread64 (fd : Int) (count : Nat) (offset : Int)
  | lseek (fd : Int) (offset whence : Int)
  | lseek64 (fd : Int) (offset whence : Int)
  | close (fd : Int)
  | closeNocancel (fd : Int)
  | opendir (name : Option CString)
  | readdir (dirp : Nat)
  | closedir (dirp : Nat)
  | access (pathname : Option CString) (mode : BitVec 32)
  | xstat (ver : Int) (pathname : Option CString)
  | memfdCreate (flags : BitVec 32)
  | openat (path : CString) (flags : BitVec 32)
  | unlinkat (path : CString)
  | mkdir (path : CString)
  | rmdir (path : CString)
  | malloc
  | free (addr : Nat)
  | dirReaderCreate
  | getRootInode
  | findByPath (path : CString)
  | openDir (inode : InodePtr)
  | dirReaderRead (item : Option DirItem)
  | dirReaderGetInode (inode : Except SqfsError InodePtr)
  | dataReaderRead (inode : InodePtr) (offset : BitVec 64) (size : BitVec 32)
  | sqfsFree (addr : Nat)
  | sqfsDestroy (addr : Nat)

/-- The function a call names, without its arguments. -/
inductive Fn where
  | open | read | pread | pread64 | lseek | lseek64 | close | closeNocancel | opendir | readdir
  | closedir | access | xstat | memfdCreate | openat | unlinkat | mkdir | rmdir | malloc | free
  | dirReaderCreate | getRootInode | findByPath | openDir | dirReaderRead | dirReaderGetInode
  | dataReaderRead | sqfsFree | sqfsDestroy
  deriving DecidableEq, Repr

/-- The functions that open or close descriptors. -/
def Fn.onDescriptors : Fn → Bool
  | .open | .memfdCreate | .openat | .close | .closeNocancel => true
  | _ => false

/-- The functions that change a directory stream. -/
def Fn.onStreams : Fn → Bool
  | .opendir | .readdir | .closedir => true
  | _ => false

namespace Ext

def fn : Ext → Fn
  | .open .. => .open
  | .read .. => .read
  | .pread .. => .pread
  | .pread64 .. => .pread64
  | .lseek .. => .lseek
  | .lseek64 .. => .lseek64
  | .close _ => .close
  | .closeNocancel _ => .closeNocancel
  | .opendir _ => .opendir
  | .readdir _ => .readdir
  | .closedir _ => .closedir
  | .access .. => .access
  | .xstat .. => .xstat
  | .memfdCreate _ => .memfdCreate
  | .openat .. => .openat
  | .unlinkat _ => .unlinkat
  | .mkdir _ => .mkdir
  | .rmdir _ => .rmdir
  | .malloc => .malloc
  | .free _ => .free
  | .dirReaderCreate => .dirReaderCreate
  | .getRootInode => .getRootInode
  | .findByPath _ => .findByPath
  | .openDir _ => .openDir
  | .dirReaderRead _ => .dirReaderRead
  | .dirReaderGetInode _ => .dirReaderGetInode
  | .dataReaderRead .. => .dataReaderRead
  | .sqfsFree _ => .sqfsFree
  | .sqfsDestroy _ => .sqfsDestroy

/-- A libc call answers with its result or with the errno it fails with, a
libsquashfs call with its result or with its error code, an allocation with an
address or NULL. -/
@[reducible] def Ans : Ext → Type
  | .open .. | .memfdCreate _ | .openat .. => Except Errno Nat
  | .read .. | .pread .. | .pread64 .. => Except Errno (List Byte)
  | .lseek .. | .lseek64 .. => Except Errno Int
  | .close _ | .closeNocancel _ | .closedir _ | .access .. | .unlinkat _ | .mkdir _
  | .rmdir _ => Except Errno Unit
  | .opendir _ => Except Errno DirStream
  | .readdir _ => Option Dirent
  | .xstat .. => Except Errno Stat
  | .malloc | .dirReaderCreate => Option Nat
  | .getRootInode | .findByPath _ => Except SqfsError InodePtr
  | .openDir _ => Except SqfsError DirCursor
  | .dataReaderRead .. => Except SqfsError (List Byte)
  | .free _ | .dirReaderRead _ | .dirReaderGetInode _ | .sqfsFree _ | .sqfsDestroy _ => Unit

private def errnoOf {α : Type} : Except Errno α → Option Errno
  | .error e => some e
  | .ok _ => none

/-- The errno a failed call leaves behind. -/
def failure : (c : Ext) → c.Ans → Option Errno
  | .open .., a | .memfdCreate _, a | .openat .., a | .read .., a | .pread .., a
  | .pread64 .., a | .lseek .., a | .lseek64 .., a | .close _, a | .closeNocancel _, a
  | .closedir _, a | .access .., a | .unlinkat _, a | .mkdir _, a | .rmdir _, a
  | .opendir _, a | .xstat .., a => errnoOf a
  | .malloc, a => if a = none then some Errno.ENOMEM else none
  | _, _ => none

end Ext

inductive EnvVar where
  | hooksqfsPrefix
  | hooksqfsFile
  | hooksqfsLogInclude
  deriving DecidableEq, Repr

/-- The pointers of `g_xLibcFuncs` that the hooks compare with NULL. -/
inductive RealFn where
  | pread64
  | lseek64
  | close
  | closeNocancel
  deriving DecidableEq, Repr

/-- A result of the write system call on the log descriptor. -/
abbrev WriteResult := Except Errno Nat

/-- What a hook asks: its environment, `errno`, the mutex, the manager's state
under the mutex, outside calls, and the log descriptor. `deref` is an access to fields
of objects on the heap, through pointers to them: an entry, an inode, a list node. What
the fields hold is known from where the pointer was read. -/
inductive Req where
  | getenv (v : EnvVar)
  | getpid
  | getErrno
  | setErrno (e : Errno)
  | lock
  | unlock
  | getMgr
  | fdMapFind (key : Int)
  | fdMapEntry (key : Int)
  | fdMapAdd (entry : FDMapEntry)
  | fdMapDel (key : Int)
  | fdMapSetOffset (key : Int) (offset : BitVec 64)
  | dirMapFind (key : Nat)
  | dirMapEntry (key : Nat)
  | dirMapAdd (entry : DirMapEntry)
  | dirMapDel (key : Nat)
  | dirMapSetList (key : Nat) (list : List SqfsDirEntryNode)
  | dirMapSetCurrent (key : Nat) (current : List SqfsDirEntryNode)
  | dirMapSetReachedEnd (key : Nat)
  | deref (objects : List Object)
  | nextTmpFile
  | nextTmpDir
  | realPresent (f : RealFn)
  | call (c : Ext)
  | logOutputFd
  | vsnprintf
  | writeResults
  | logged (bytes : List Byte)

@[reducible] def Answer : Req → Type
  | .getenv _ => Option CString
  | .getpid | .nextTmpFile | .nextTmpDir => Nat
  | .getErrno => Errno
  | .getMgr => Mgr
  | .fdMapFind _ | .dirMapFind _ | .realPresent _ => Bool
  | .fdMapEntry _ => FDMapEntry
  | .dirMapEntry _ => DirMapEntry
  | .call c => c.Ans
  | .logOutputFd => Int
  | .vsnprintf => CString
  | .writeResults => List WriteResult
  | _ => Unit

/-- A function of the library: a program over these requests. -/
abbrev Hook (α : Type) := Program Req Answer α

abbrev ask (e : Req) : Hook (Answer e) := Program.ask e

abbrev getenv (v : EnvVar) : Hook (Option CString) := ask (.getenv v)
abbrev getpid : Hook Nat := ask .getpid
abbrev getErrno : Hook Errno := ask .getErrno
abbrev setErrno (e : Errno) : Hook Unit := ask (.setErrno e)
abbrev getMgr : Hook Mgr := ask .getMgr
abbrev realPresent (f : RealFn) : Hook Bool := ask (.realPresent f)
abbrev call (c : Ext) : Hook c.Ans := ask (.call c)
abbrev deref (objects : List Object) : Hook Unit := ask (.deref objects)

/-- `sqfs_mutex_init_once`, with whether the attributes can be initialized and set: whether the
mutex is a recursive one. -/
def sqfsMutexInitOnce (attrInit attrSettype : Bool) : Bool :=
  if !attrInit then false
  else if attrSettype then true
  else false

theorem sqfsMutexInitOnce_iff {attrInit attrSettype : Bool} :
    sqfsMutexInitOnce attrInit attrSettype = true ↔ attrInit = true ∧ attrSettype = true := by
  cases attrInit <;> cases attrSettype <;> decide

/-- `sqfs_lock` and `sqfs_unlock`. -/
abbrev sqfsLock : Hook Unit := ask .lock
abbrev sqfsUnlock : Hook Unit := ask .unlock

/-- The process environment and the constants fixed before the hooks are installed.
The log descriptor is one of them: the constructor has already logged a line. -/
structure Env where
  hooksqfsPrefix : Option CString
  hooksqfsFile : Option CString
  hooksqfsLogInclude : Option CString
  realPresent : RealFn → Bool
  pid : Nat
  logOutputFd : Int

/-- An open file description, with the hook call that created it. -/
inductive Descriptor where
  | opened (call : Nat)
  | backing (call : Nat)
  | image
  | other
  deriving DecidableEq, Repr

/-- Who may close a descriptor: a hook call still at work, the client program
(any thread of it), or nobody. -/
inductive Owner where
  | call (n : Nat)
  | client
  | system
  deriving DecidableEq, Repr

/-- That something is obtained, and that it is given back. -/
inductive LedgerEvent (α : Type) where
  | acquired (x : α)
  | released (x : α)
  deriving DecidableEq, Repr

/-- The process as one thread sees it. `caller`, `owner`, `insertedBy` and `ledger`
are history that no hook reads. -/
structure World where
  env : Env
  errno : Errno
  depth : Nat
  mgr : Mgr
  fdMap : List FDMapEntry
  dirMap : List DirMapEntry
  fds : Int → Option Descriptor
  streams : Nat → Option DirStream
  tmpFiles : Nat
  tmpDirs : Nat
  used : Fn → Nat
  logWrites : Nat
  log : List Byte
  caller : Nat
  owner : Int → Option Owner
  insertedBy : Int → Option Nat
  ledger : List (LedgerEvent Object)

/-- The outcomes of everything outside the process: the result of the `n`-th call
of each function, an errno a successful call may leave behind, the texts that the
log's formatting produces and the results of the log's own writes. -/
structure Oracle where
  answer : (n : Nat) → (c : Ext) → c.Ans
  clobber : Nat → Ext → Option Errno
  text : Nat → CString
  writes : Nat → List WriteResult

namespace World

def grantFd (w : World) : Except Errno Nat → Except Errno Nat
  | .ok fd => if (w.fds fd).isSome then .error Errno.EMFILE else .ok fd
  | .error e => .error e

def grantStream (w : World) : Except Errno DirStream → Except Errno DirStream
  | .ok s => if (w.streams s.addr).isSome then .error Errno.EMFILE else .ok s
  | .error e => .error e

/-- A number or a stream address that is still in use is not given out again: the
call then fails for want of a free one. A real stream gives its entries in order. -/
def granted (w : World) : (c : Ext) → c.Ans → c.Ans
  | .open .., a | .memfdCreate _, a | .openat .., a => w.grantFd a
  | .opendir _, a => w.grantStream a
  | .readdir dirp, _ => (w.streams dirp).bind (·.entries.head?)
  | _, a => a

theorem grantFd_ok {w : World} {a : Except Errno Nat} {fd : Nat} (h : w.grantFd a = .ok fd) :
    a = .ok fd ∧ w.fds fd = none := by
  cases a with
  | error e => cases h
  | ok n =>
    rw [grantFd] at h
    split at h
    · cases h
    · rename_i hn
      cases h
      exact ⟨rfl, by simpa using hn⟩

theorem grantStream_ok {w : World} {a : Except Errno DirStream} {s : DirStream}
    (h : w.grantStream a = .ok s) : a = .ok s ∧ w.streams s.addr = none := by
  cases a with
  | error e => cases h
  | ok t =>
    rw [grantStream] at h
    split at h
    · cases h
    · rename_i ht
      cases h
      exact ⟨rfl, by simpa using ht⟩

/-- The answer of an outside call made now. -/
def outcome (w : World) (o : Oracle) (c : Ext) : c.Ans :=
  w.granted c (o.answer (w.used c.fn) c)

/-- A new descriptor, held by the call that made it. -/
@[simps] def gain (w : World) (fd : Nat) (d : Descriptor) : World :=
  { w with
    fds := Function.update w.fds fd (some d)
    owner := Function.update w.owner fd (some (.call w.caller)) }

@[simps] def lose (w : World) (fd : Int) : World :=
  { w with fds := Function.update w.fds fd none, owner := Function.update w.owner fd none }

@[simps] def note (w : World) (e : LedgerEvent Object) : World := { w with ledger := w.ledger ++ [e] }

/-- What an outside call changes. A close releases the number even when it reports
an error, as on Linux. -/
def effect (w : World) : (c : Ext) → c.Ans → World
  | .open .., .ok fd => w.gain fd (.opened w.caller)
  | .memfdCreate _, .ok fd | .openat .., .ok fd => w.gain fd (.backing w.caller)
  | .close fd, _ | .closeNocancel fd, _ => w.lose fd
  | .opendir _, .ok s => { w with streams := Function.update w.streams s.addr (some s) }
  | .readdir dirp, _ =>
    { w with
      streams := Function.update w.streams dirp
        ((w.streams dirp).map fun s => { s with entries := s.entries.tail }) }
  | .closedir dirp, _ => { w with streams := Function.update w.streams dirp none }
  | .malloc, some addr => w.note (.acquired ⟨.malloc, addr⟩)
  | .dirReaderCreate, some addr => w.note (.acquired (readerObject addr))
  | .getRootInode, .ok p | .findByPath _, .ok p => w.note (.acquired p.object)
  | .dirReaderRead (some item), _ => w.note (.acquired item.entry.object)
  | .dirReaderGetInode (.ok p), _ => w.note (.acquired p.object)
  | .free addr, _ => w.note (.released ⟨.malloc, addr⟩)
  | .sqfsFree addr, _ => w.note (.released ⟨.library, addr⟩)
  | .sqfsDestroy addr, _ => w.note (.released (readerObject addr))
  | _, _ => w

/-- The state after an outside call that gave `a`. -/
def afterCall (w : World) (o : Oracle) (c : Ext) (a : c.Ans) : World :=
  { w.effect c a with
    errno := (c.failure a).getD ((o.clobber (w.used c.fn) c).getD w.errno)
    used := Function.update w.used c.fn (w.used c.fn + 1) }

section
variable (w : World) (o : Oracle) (c : Ext) (a : c.Ans)

/-- A call changes no other fields than these. -/
private theorem afterCall_eq : w.afterCall o c a = { w with
    errno := (w.afterCall o c a).errno
    used := (w.afterCall o c a).used
    fds := (w.effect c a).fds
    streams := (w.effect c a).streams
    owner := (w.effect c a).owner
    ledger := (w.effect c a).ledger } := by
  unfold afterCall effect
  split <;> rfl

@[simp] theorem afterCall_env : (w.afterCall o c a).env = w.env := by
  rw [afterCall_eq]

@[simp] theorem afterCall_depth : (w.afterCall o c a).depth = w.depth := by
  rw [afterCall_eq]

@[simp] theorem afterCall_mgr : (w.afterCall o c a).mgr = w.mgr := by
  rw [afterCall_eq]

@[simp] theorem afterCall_fdMap : (w.afterCall o c a).fdMap = w.fdMap := by
  rw [afterCall_eq]

@[simp] theorem afterCall_dirMap : (w.afterCall o c a).dirMap = w.dirMap := by
  rw [afterCall_eq]

@[simp] theorem afterCall_tmpFiles : (w.afterCall o c a).tmpFiles = w.tmpFiles := by
  rw [afterCall_eq]

@[simp] theorem afterCall_tmpDirs : (w.afterCall o c a).tmpDirs = w.tmpDirs := by
  rw [afterCall_eq]

@[simp] theorem afterCall_logWrites : (w.afterCall o c a).logWrites = w.logWrites := by
  rw [afterCall_eq]

@[simp] theorem afterCall_log : (w.afterCall o c a).log = w.log := by
  rw [afterCall_eq]

@[simp] theorem afterCall_caller : (w.afterCall o c a).caller = w.caller := by
  rw [afterCall_eq]

@[simp] theorem afterCall_insertedBy : (w.afterCall o c a).insertedBy = w.insertedBy := by
  rw [afterCall_eq]

@[simp] theorem afterCall_errno : (w.afterCall o c a).errno =
    (c.failure a).getD ((o.clobber (w.used c.fn) c).getD w.errno) := rfl

@[simp] theorem afterCall_used : (w.afterCall o c a).used =
    Function.update w.used c.fn (w.used c.fn + 1) := rfl

private theorem effect_descriptors (h : c.fn.onDescriptors = false) :
    (w.effect c a).fds = w.fds ∧ (w.effect c a).owner = w.owner := by
  unfold effect
  split <;> first | exact ⟨rfl, rfl⟩ | cases h

theorem afterCall_fds (h : c.fn.onDescriptors = false) : (w.afterCall o c a).fds = w.fds :=
  (w.effect_descriptors c a h).1

theorem afterCall_owner (h : c.fn.onDescriptors = false) :
    (w.afterCall o c a).owner = w.owner :=
  (w.effect_descriptors c a h).2

theorem afterCall_streams (h : c.fn.onStreams = false) :
    (w.afterCall o c a).streams = w.streams := by
  unfold afterCall effect
  split <;> first | rfl | cases h

end

@[simps] def withErrno (w : World) (e : Errno) : World := { w with errno := e }

@[simps] def locked (w : World) : World := { w with depth := w.depth + 1 }

@[simps] def unlocked (w : World) : World := { w with depth := w.depth - 1 }

/-- Answer a request and change the state accordingly. -/
def handle (o : Oracle) : Handler Req Answer World
  | w, .getenv .hooksqfsPrefix => (w.env.hooksqfsPrefix, w)
  | w, .getenv .hooksqfsFile => (w.env.hooksqfsFile, w)
  | w, .getenv .hooksqfsLogInclude => (w.env.hooksqfsLogInclude, w)
  | w, .getpid => (w.env.pid, w)
  | w, .getErrno => (w.errno, w)
  | w, .setErrno e => ((), w.withErrno e)
  | w, .lock => ((), w.locked)
  | w, .unlock => ((), w.unlocked)
  | w, .getMgr => (w.mgr, w)
  | w, .fdMapFind key => ((lookup FDMapEntry.key key w.fdMap).isSome, w)
  | w, .fdMapEntry key => ((lookup FDMapEntry.key key w.fdMap).getD default, w)
  | w, .fdMapAdd e =>
    ((), { w with
      fdMap := e :: w.fdMap, insertedBy := Function.update w.insertedBy e.key (some w.caller) })
  | w, .fdMapDel key =>
    ((), { w with
      fdMap := remove FDMapEntry.key key w.fdMap
      insertedBy := Function.update w.insertedBy key none })
  | w, .fdMapSetOffset key offset =>
    ((), { w with fdMap := adjust FDMapEntry.key key (fun e => { e with offset }) w.fdMap })
  | w, .dirMapFind key => ((lookup DirMapEntry.key key w.dirMap).isSome, w)
  | w, .dirMapEntry key => ((lookup DirMapEntry.key key w.dirMap).getD default, w)
  | w, .dirMapAdd e => ((), { w with dirMap := e :: w.dirMap })
  | w, .dirMapDel key => ((), { w with dirMap := remove DirMapEntry.key key w.dirMap })
  | w, .dirMapSetList key list =>
    ((), { w with
      dirMap := adjust DirMapEntry.key key (fun e => { e with dirEntryList := list }) w.dirMap })
  | w, .dirMapSetCurrent key current =>
    ((), { w with
      dirMap := adjust DirMapEntry.key key
        (fun e => { e with dirEntryCurrent := current }) w.dirMap })
  | w, .dirMapSetReachedEnd key =>
    ((), { w with
      dirMap := adjust DirMapEntry.key key
        (fun e => { e with dirEntryListReachedEnd := true }) w.dirMap })
  | w, .deref _ => ((), w)
  | w, .nextTmpFile => (w.tmpFiles, { w with tmpFiles := w.tmpFiles + 1 })
  | w, .nextTmpDir => (w.tmpDirs, { w with tmpDirs := w.tmpDirs + 1 })
  | w, .realPresent f => (w.env.realPresent f, w)
  | w, .call c => (w.outcome o c, w.afterCall o c (w.outcome o c))
  | w, .logOutputFd => (w.env.logOutputFd, w)
  | w, .vsnprintf => (o.text w.logWrites, w)
  | w, .writeResults => (o.writes w.logWrites, { w with logWrites := w.logWrites + 1 })
  | w, .logged bytes => ((), { w with log := w.log ++ bytes })

end World

/-- A hook call run alone, every outside call answered by the oracle. -/
def runAlone {α : Type} (o : Oracle) (p : Hook α) (w : World) : Option (α × World) :=
  p.run (World.handle o) w

section
variable {α β : Type} (o : Oracle) (w : World)

@[simp] theorem runAlone_ret (a : α) : runAlone o (.ret a) w = some (a, w) := rfl

@[simp] theorem runAlone_undefined : runAlone o (.undefined : Hook α) w = none := rfl

/-! What each request does, the answer already in place. -/

@[simp] theorem runAlone_getenv_prefix (k : Answer (.getenv .hooksqfsPrefix) → Hook α) :
    runAlone o (.request (.getenv .hooksqfsPrefix) k) w = runAlone o (k w.env.hooksqfsPrefix) w := rfl

@[simp] theorem runAlone_getenv_file (k : Answer (.getenv .hooksqfsFile) → Hook α) :
    runAlone o (.request (.getenv .hooksqfsFile) k) w = runAlone o (k w.env.hooksqfsFile) w := rfl

@[simp] theorem runAlone_getenv_include (k : Answer (.getenv .hooksqfsLogInclude) → Hook α) :
    runAlone o (.request (.getenv .hooksqfsLogInclude) k) w = runAlone o (k w.env.hooksqfsLogInclude) w := rfl

@[simp] theorem runAlone_getpid (k : Answer .getpid → Hook α) :
    runAlone o (.request .getpid k) w = runAlone o (k w.env.pid) w := rfl

@[simp] theorem runAlone_getErrno (k : Answer .getErrno → Hook α) :
    runAlone o (.request .getErrno k) w = runAlone o (k w.errno) w := rfl

@[simp] theorem runAlone_lock (k : Answer .lock → Hook α) :
    runAlone o (.request .lock k) w = runAlone o (k ()) w.locked := rfl

@[simp] theorem runAlone_unlock (k : Answer .unlock → Hook α) :
    runAlone o (.request .unlock k) w = runAlone o (k ()) w.unlocked := rfl

@[simp] theorem runAlone_getMgr (k : Answer .getMgr → Hook α) :
    runAlone o (.request .getMgr k) w = runAlone o (k w.mgr) w := rfl

@[simp] theorem runAlone_nextTmpFile (k : Answer .nextTmpFile → Hook α) :
    runAlone o (.request .nextTmpFile k) w = runAlone o (k w.tmpFiles) { w with tmpFiles := w.tmpFiles + 1 } := rfl

@[simp] theorem runAlone_nextTmpDir (k : Answer .nextTmpDir → Hook α) :
    runAlone o (.request .nextTmpDir k) w = runAlone o (k w.tmpDirs) { w with tmpDirs := w.tmpDirs + 1 } := rfl

@[simp] theorem runAlone_logOutputFd (k : Answer .logOutputFd → Hook α) :
    runAlone o (.request .logOutputFd k) w = runAlone o (k w.env.logOutputFd) w := rfl

@[simp] theorem runAlone_vsnprintf (k : Answer .vsnprintf → Hook α) :
    runAlone o (.request .vsnprintf k) w = runAlone o (k (o.text w.logWrites)) w := rfl

@[simp] theorem runAlone_writeResults (k : Answer .writeResults → Hook α) :
    runAlone o (.request .writeResults k) w = runAlone o (k (o.writes w.logWrites)) { w with logWrites := w.logWrites + 1 } := rfl

@[simp] theorem runAlone_setErrno (e : Errno) (k : Answer (.setErrno e) → Hook α) :
    runAlone o (.request (.setErrno e) k) w = runAlone o (k ()) (w.withErrno e) := rfl

@[simp] theorem runAlone_fdMapFind (key : Int) (k : Answer (.fdMapFind key) → Hook α) :
    runAlone o (.request (.fdMapFind key) k) w = runAlone o (k (lookup FDMapEntry.key key w.fdMap).isSome) w := rfl

@[simp] theorem runAlone_fdMapEntry (key : Int) (k : Answer (.fdMapEntry key) → Hook α) :
    runAlone o (.request (.fdMapEntry key) k) w = runAlone o (k ((lookup FDMapEntry.key key w.fdMap).getD default)) w := rfl

@[simp] theorem runAlone_fdMapAdd (e : FDMapEntry) (k : Answer (.fdMapAdd e) → Hook α) :
    runAlone o (.request (.fdMapAdd e) k) w = runAlone o (k ()) { w with
      fdMap := e :: w.fdMap, insertedBy := Function.update w.insertedBy e.key (some w.caller) } := rfl

@[simp] theorem runAlone_fdMapDel (key : Int) (k : Answer (.fdMapDel key) → Hook α) :
    runAlone o (.request (.fdMapDel key) k) w = runAlone o (k ()) { w with
      fdMap := remove FDMapEntry.key key w.fdMap
      insertedBy := Function.update w.insertedBy key none } := rfl

@[simp] theorem runAlone_fdMapSetOffset (key : Int) (offset : BitVec 64) (k : Answer (.fdMapSetOffset key offset) → Hook α) :
    runAlone o (.request (.fdMapSetOffset key offset) k) w = runAlone o (k ()) { w with
      fdMap := adjust FDMapEntry.key key (fun e => { e with offset }) w.fdMap } := rfl

@[simp] theorem runAlone_dirMapFind (key : Nat) (k : Answer (.dirMapFind key) → Hook α) :
    runAlone o (.request (.dirMapFind key) k) w = runAlone o (k (lookup DirMapEntry.key key w.dirMap).isSome) w := rfl

@[simp] theorem runAlone_dirMapEntry (key : Nat) (k : Answer (.dirMapEntry key) → Hook α) :
    runAlone o (.request (.dirMapEntry key) k) w = runAlone o (k ((lookup DirMapEntry.key key w.dirMap).getD default)) w := rfl

@[simp] theorem runAlone_dirMapAdd (e : DirMapEntry) (k : Answer (.dirMapAdd e) → Hook α) :
    runAlone o (.request (.dirMapAdd e) k) w = runAlone o (k ()) { w with dirMap := e :: w.dirMap } := rfl

@[simp] theorem runAlone_dirMapDel (key : Nat) (k : Answer (.dirMapDel key) → Hook α) :
    runAlone o (.request (.dirMapDel key) k) w = runAlone o (k ()) { w with dirMap := remove DirMapEntry.key key w.dirMap } := rfl

@[simp] theorem runAlone_dirMapSetList (key : Nat) (list : List SqfsDirEntryNode) (k : Answer (.dirMapSetList key list) → Hook α) :
    runAlone o (.request (.dirMapSetList key list) k) w = runAlone o (k ()) { w with
      dirMap := adjust DirMapEntry.key key (fun e => { e with dirEntryList := list }) w.dirMap } := rfl

@[simp] theorem runAlone_dirMapSetCurrent (key : Nat) (current : List SqfsDirEntryNode) (k : Answer (.dirMapSetCurrent key current) → Hook α) :
    runAlone o (.request (.dirMapSetCurrent key current) k) w = runAlone o (k ()) { w with
      dirMap := adjust DirMapEntry.key key
        (fun e => { e with dirEntryCurrent := current }) w.dirMap } := rfl

@[simp] theorem runAlone_dirMapSetReachedEnd (key : Nat) (k : Answer (.dirMapSetReachedEnd key) → Hook α) :
    runAlone o (.request (.dirMapSetReachedEnd key) k) w = runAlone o (k ()) { w with
      dirMap := adjust DirMapEntry.key key
        (fun e => { e with dirEntryListReachedEnd := true }) w.dirMap } := rfl

@[simp] theorem runAlone_deref (objects : List Object) (k : Answer (.deref objects) → Hook α) :
    runAlone o (.request (.deref objects) k) w = runAlone o (k ()) w := rfl

@[simp] theorem runAlone_realPresent (f : RealFn) (k : Answer (.realPresent f) → Hook α) :
    runAlone o (.request (.realPresent f) k) w = runAlone o (k (w.env.realPresent f)) w := rfl

@[simp] theorem runAlone_call (c : Ext) (k : Answer (.call c) → Hook α) :
    runAlone o (.request (.call c) k) w = runAlone o (k (w.outcome o c)) (w.afterCall o c (w.outcome o c)) := rfl

@[simp] theorem runAlone_logged (bytes : List Byte) (k : Answer (.logged bytes) → Hook α) :
    runAlone o (.request (.logged bytes) k) w = runAlone o (k ()) { w with log := w.log ++ bytes } := rfl

@[simp] theorem runAlone_ask (e : Req) :
    runAlone o (Program.ask e : Hook (Answer e)) w = some (World.handle o w e) := rfl

theorem runAlone_bind (p : Hook α) (f : α → Hook β) :
    runAlone o (p >>= f) w = (runAlone o p w).bind fun out => runAlone o (f out.1) out.2 :=
  Program.run_bind _ p f w

/-- A run in sequence that ends is a run of the first part and a run of the second. -/
theorem runAlone_bind_some {p : Hook α} {f : α → Hook β} {out : β × World}
    (h : runAlone o (p >>= f) w = some out) :
    ∃ a w', runAlone o p w = some (a, w') ∧ runAlone o (f a) w' = some out := by
  rw [runAlone_bind] at h
  obtain ⟨⟨a, w'⟩, hp, hf⟩ := Option.bind_eq_some_iff.mp h
  exact ⟨a, w', hp, hf⟩

@[simp] theorem runAlone_ite (c : Prop) [Decidable c] (p q : Hook α) :
    runAlone o (if c then p else q) w = if c then runAlone o p w else runAlone o q w := by
  split <;> rfl

end

/-- A process with an image loaded, the default prefix, nothing open and no log. -/
def World.initial : World where
  env :=
    { hooksqfsPrefix := none, hooksqfsFile := none, hooksqfsLogInclude := none
      realPresent := fun _ => true, pid := 1, logOutputFd := 1 }
  errno := 0
  depth := 0
  mgr := { file := some 1, compressor := some 2, dataReader := some 3, blockSize := 0x20000 }
  fdMap := []
  dirMap := []
  fds := fun _ => none
  streams := fun _ => none
  tmpFiles := 0
  tmpDirs := 0
  used := fun _ => 0
  logWrites := 0
  log := []
  caller := 0
  owner := fun _ => none
  insertedBy := fun _ => none
  ledger := []

/-- The answers of a process whose real calls find nothing and whose image is empty;
descriptors count up from 3 and addresses from 16. -/
def bareAnswer (n : Nat) : (c : Ext) → c.Ans
  | .open .. | .openat .. => .error Errno.ENOENT
  | .memfdCreate _ => .ok (n + 3)
  | .read .. | .pread .. | .pread64 .. => .error Errno.EBADF
  | .lseek .. | .lseek64 .. => .error Errno.EBADF
  | .close _ | .closeNocancel _ | .closedir _ | .unlinkat _ | .mkdir _ | .rmdir _ => .ok ()
  | .access .. => .error Errno.ENOENT
  | .opendir _ => .error Errno.ENOENT
  | .readdir _ => none
  | .xstat .. => .error Errno.ENOENT
  | .malloc | .dirReaderCreate => some (n + 16)
  | .getRootInode | .findByPath _ => .error .noEntry
  | .openDir _ => .error .notDir
  | .dataReaderRead .. => .ok []
  | .free _ | .dirReaderRead _ | .dirReaderGetInode _ | .sqfsFree _ | .sqfsDestroy _ => ()

def Oracle.bare : Oracle where
  answer := bareAnswer
  clobber := fun _ _ => none
  text := fun _ => [0x78]
  writes := fun _ => []

/-- The same with an inode at every path of the image. -/
def Oracle.serving (inode : Inode) : Oracle where
  answer := fun n c =>
    match c with
    | .findByPath _ => .ok { addr := n + 1024, inode }
    | c => bareAnswer n c
  clobber := fun _ _ => none
  text := fun _ => [0x78]
  writes := fun _ => []

end HookSqfs.Manager
