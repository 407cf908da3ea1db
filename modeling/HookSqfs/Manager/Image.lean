import HookSqfs.Manager.Logging

/-! `sqfs_mgr_load_image` and `sqfs_mgr_unload_image`: the three handles of the image. -/
namespace HookSqfs.Manager
open Interaction

/-- `sqfs_super_t`: the fields that loading reads. -/
structure Super where
  compressionId : BitVec 16
  blockSize : BitVec 32
  flags : BitVec 16
  deriving DecidableEq, Repr

def SQFS_FLAG_COMPRESSOR_OPTIONS : BitVec 16 := 0x400

/-- The calls to libsquashfs. `superRead` fills the manager's superblock, and
`compressorCreate` its compressor from the configuration that `compressorConfigInit` made. -/
inductive ImageCall where
  | openFile (path : CString)
  | superRead (file : Nat)
  | compressorConfigInit (id : BitVec 16) (blockSize : BitVec 32)
  | compressorCreate
  | readOptions (compressor file : Nat)
  | dataReaderCreate (file : Nat) (blockSize : BitVec 32) (compressor : Nat)
  | loadFragmentTable (dataReader : Nat)
  | destroy (addr : Nat)
  | free (addr : Nat)

@[reducible] def ImageCall.Ans : ImageCall → Type
  | .openFile _ | .dataReaderCreate .. => Option Nat
  | .superRead _ => Except SqfsError Super
  | .compressorCreate => Except SqfsError Nat
  | .compressorConfigInit .. | .readOptions .. | .loadFragmentTable _ => Except SqfsError Unit
  | .destroy _ | .free _ => Unit

/-- What loading asks for: what the hooks ask for, the assignments to the handles, the
superblock and these calls. -/
inductive ImageReq where
  | hook (e : Req)
  | setFile (file : Option Nat)
  | setCompressor (compressor : Option Nat)
  | setDataReader (dataReader : Option Nat)
  | getSuper
  | call (c : ImageCall)

@[reducible] def ImageAnswer : ImageReq → Type
  | .hook e => Answer e
  | .getSuper => Super
  | .call c => c.Ans
  | _ => Unit

abbrev Loader (α : Type) := Program ImageReq ImageAnswer α

abbrev load (e : ImageReq) : Loader (ImageAnswer e) := Program.ask e

/-- A function that the hooks share. -/
def relay {α : Type} (p : Hook α) : Loader α := p.interpret fun e => load (.hook e)

theorem relay_bind {α β : Type} (p : Hook α) (f : α → Hook β) :
    relay (p >>= f) = relay p >>= fun a => relay (f a) := by
  induction p with
  | ret a => rfl
  | undefined => rfl
  | request e k ih => exact congrArg (Program.request (ImageReq.hook e)) (funext ih)

/-- `sqfs_mgr_unload_image`. The file object goes to `sqfs_free`. -/
def sqfsMgrUnloadImage : Loader Unit := do
  let mgr : Mgr ← load (.hook .getMgr)
  (match mgr.dataReader with
    | none => pure ()
    | some dataReader => do
      load (.call (.destroy dataReader))
      load (.setDataReader none))
  (match mgr.compressor with
    | none => pure ()
    | some compressor => do
      load (.call (.destroy compressor))
      load (.setCompressor none))
  (match mgr.file with
    | none => pure ()
    | some file => load (.call (.free file)))
  load (.setFile none)

/-- `sqfs_util_super_info`. -/
def sqfsUtilSuperInfo : Loader Unit := do
  relay logMsg
  relay logMsg
  relay logMsg
  relay logMsg
  relay logMsg

/-- A step that fails with the file open: a line of the log, then the unload. -/
def loadFailed : Loader Bool := do
  relay logMsg
  sqfsMgrUnloadImage
  return false

/-- `sqfs_mgr_load_image` from the data reader on. -/
def loadDataReader (file compressor : Nat) (super : Super) : Loader Bool := do
  let dataReader : Option Nat ← load (.call (.dataReaderCreate file super.blockSize compressor))
  load (.setDataReader dataReader)
  match dataReader with
  | none => loadFailed
  | some dataReader => do
    let ret : Except SqfsError Unit ← load (.call (.loadFragmentTable dataReader))
    match ret with
    | .error _ => loadFailed
    | .ok _ => return true

/-- `sqfs_mgr_load_image` with the compressor created. -/
def loadOptions (file compressor : Nat) (super : Super) : Loader Bool :=
  if super.flags &&& SQFS_FLAG_COMPRESSOR_OPTIONS ≠ 0 then do
    let ret : Except SqfsError Unit ← load (.call (.readOptions compressor file))
    match ret with
    | .error _ => loadFailed
    | .ok _ => loadDataReader file compressor super
  else loadDataReader file compressor super

/-- `sqfs_mgr_load_image` with the superblock read. -/
def loadCompressor (file : Nat) (super : Super) : Loader Bool := do
  let ret : Except SqfsError Unit ←
    load (.call (.compressorConfigInit super.compressionId super.blockSize))
  match ret with
  | .error _ => loadFailed
  | .ok _ => do
    let ret : Except SqfsError Nat ← load (.call .compressorCreate)
    match ret with
    | .error _ => loadFailed
    | .ok compressor => loadOptions file compressor super

/-- `sqfs_mgr_load_image` with the file opened. -/
def loadSuper (file : Nat) : Loader Bool := do
  let ret : Except SqfsError Super ← load (.call (.superRead file))
  match ret with
  | .error _ => loadFailed
  | .ok _ => do
    relay logMsg
    let super : Super ← load .getSuper
    sqfsUtilSuperInfo
    loadCompressor file super

/-- `sqfs_mgr_load_image` where the image is not loaded. -/
def loadFile : Loader Bool := do
  let sqfsPath : Option CString ← load (.hook (.getenv .hooksqfsFile))
  match sqfsPath with
  | none => do
    relay logMsg
    return false
  | some sqfsPath => do
    let file : Option Nat ← load (.call (.openFile sqfsPath))
    load (.setFile file)
    match file with
    | none => do
      relay logMsg
      return false
    | some file => loadSuper file

def sqfsMgrLoadImage : Loader Bool := do
  load (.hook .lock)
  let mgr : Mgr ← load (.hook .getMgr)
  let ok ← (if mgr.loaded then pure true else loadFile)
  load (.hook .unlock)
  return ok

end HookSqfs.Manager
