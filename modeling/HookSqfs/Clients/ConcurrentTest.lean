import HookSqfs.Hooks.FileHooks
import HookSqfs.Hooks.PathHooks

/-! `test_concurrent.c`, with the hooks in place of the functions it calls. What it prints is
left out. Reading more than a buffer holds is undefined behaviour. -/
namespace HookSqfs.Clients
open Manager Hooks

def PREFIX_LIMIT : Nat := 1024 * 1024
def SAMPLE_COUNT : Nat := 128
def SAMPLE_CHUNK : Nat := 4096
def READ_CHUNK : Nat := 8192

def FNV_OFFSET : BitVec 64 := 1469598103934665603
def FNV_PRIME : BitVec 64 := 1099511628211

/-- `struct TestConfig`. -/
structure TestConfig where
  path : CString
  size : Int
  prefixSize : Nat
  prefixHash : BitVec 64
  sampleHash : BitVec 64
  iterations : Nat

def hashUpdate (hash : BitVec 64) (data : List Byte) : BitVec 64 :=
  data.foldl (fun hash c => (hash ^^^ BitVec.ofNat 64 c.toNat) * FNV_PRIME) hash

def sampleOffset (size : Int) (index : Nat) : Nat :=
  if size ≤ 0 then 0
  else ((BitVec.ofNat 64 index * 1103515245 + 12345) % BitVec.ofInt 64 size).toNat

/-- The flags of every `open` here, `O_RDONLY` being 0. -/
def readFlags : BitVec 32 := O_CLOEXEC

variable (b : Bits)

def callPreadVariant (fd : Int) (count offset : Nat) (usePread64 : Bool) : Hook ReadResult :=
  if usePread64 then sqfsPread64 b fd (BitVec.ofNat b.width count) (BitVec.ofNat 64 offset)
  else sqfsPread b fd (BitVec.ofNat b.width count) (BitVec.ofNat b.width offset)

/-- The size, or `none` where it returns -1. -/
def getPathSize (path : CString) : Hook (Option Int) := do
  let fd ← sqfsOpen (some path) readFlags 0
  if fd < 0 then return none
  else do
    let size ← sqfsLseek b fd 0 SEEK_END
    let savedErrno ← getErrno
    let closed ← sqfsClose fd
    if closed ≠ 0 ∧ size ≥ 0 then return none
    else if size < 0 then do
      setErrno savedErrno
      return none
    else return some size

/-- The way out of an error: the descriptor is closed and `errno` kept. -/
def closeKeepingErrno (fd : Int) : Hook Unit := do
  let savedErrno ← getErrno
  let _ ← sqfsClose fd
  setErrno savedErrno

/-- The loop of `hash_prefix_with_read`: how much it read and the hash, or `none` where it
returns -1. -/
def hashPrefixLoop (fd : Int) (prefixSize total : Nat) (hash : BitVec 64) :
    Hook (Option (Nat × BitVec 64)) :=
  if total < prefixSize then do
    let want := min READ_CHUNK (prefixSize - total)
    let got ← sqfsRead b fd (BitVec.ofNat b.width want)
    if got.ret < 0 then do
      closeKeepingErrno fd
      return none
    else if got.ret = 0 then return some (total, hash)
    else if got.ret ≤ want then
      hashPrefixLoop fd prefixSize (total + got.ret.toNat) (hashUpdate hash got.data)
    else .undefined
  else return some (total, hash)
termination_by prefixSize - total
decreasing_by omega

def hashPrefixWithRead (path : CString) (prefixSize : Nat) : Hook (Option (BitVec 64)) := do
  let fd ← sqfsOpen (some path) readFlags 0
  if fd < 0 then return none
  else do
    let read ← hashPrefixLoop b fd prefixSize 0 FNV_OFFSET
    match read with
    | none => return none
    | some (total, hash) => do
      let closed ← sqfsClose fd
      if closed ≠ 0 then return none
      else if total ≠ prefixSize then do
        setErrno Errno.EIO
        return none
      else return some hash

/-- The loop that fills `buf` with one sample: `buf`, or `none` where it returns -1. -/
def sampleLoop (fd : Int) (usePread64 : Bool) (offset want done : Nat) (buf : List Byte) :
    Hook (Option (List Byte)) :=
  if done < want then do
    let got ← callPreadVariant b fd (want - done) (offset + done) usePread64
    if got.ret < 0 then do
      closeKeepingErrno fd
      return none
    else if got.ret = 0 then do
      let _ ← sqfsClose fd
      setErrno Errno.EIO
      return none
    else if got.ret ≤ (want - done : Nat) then
      sampleLoop fd usePread64 offset want (done + got.ret.toNat) (buf ++ got.data)
    else .undefined
  else return some buf
termination_by want - done
decreasing_by omega

/-- The loop of `hash_samples_with_pread` over the samples that are left. -/
def hashSamplesLoop (fd : Int) (size : Int) (usePread64 : Bool) :
    List Nat → BitVec 64 → Hook (Option (BitVec 64))
  | [], hash => return some hash
  | i :: samples, hash =>
    let offset := sampleOffset size i
    if size ≤ 0 then return some hash
    else do
      let want := min SAMPLE_CHUNK (size.toNat - offset)
      let sample ← sampleLoop b fd usePread64 offset want 0 []
      match sample with
      | none => return none
      | some buf => hashSamplesLoop fd size usePread64 samples (hashUpdate hash buf)

def hashSamplesWithPread (path : CString) (size : Int) (usePread64 : Bool) :
    Hook (Option (BitVec 64)) := do
  let fd ← sqfsOpen (some path) readFlags 0
  if fd < 0 then return none
  else do
    let hash ← hashSamplesLoop b fd size usePread64 (List.range SAMPLE_COUNT) FNV_OFFSET
    match hash with
    | none => return none
    | some hash => do
      let closed ← sqfsClose fd
      if closed ≠ 0 then return none else return some hash

/-- `sizeof(via_read)`. -/
def probeSize : Nat := 256

/-- `probe_lseek` once both reads are done: the result. -/
def probeCompare (fd : Int) (viaRead viaPread : List Byte) : Hook Int := do
  let closed ← sqfsClose fd
  if closed ≠ 0 then return -1
  else if viaRead ≠ viaPread then do
    setErrno Errno.EIO
    return -1
  else return 0

/-- `probe_lseek` from its first read on. -/
def probeReads (fd : Int) (offset want : Nat) : Hook Int := do
  let gotRead ← sqfsRead b fd (BitVec.ofNat b.width want)
  if gotRead.ret < 0 then do
    closeKeepingErrno fd
    return -1
  else if gotRead.ret > probeSize then .undefined
  else do
    let gotPread ← callPreadVariant b fd want offset true
    if gotPread.ret < 0 then do
      closeKeepingErrno fd
      return -1
    else if gotPread.ret > probeSize then .undefined
    else probeCompare fd gotRead.data gotPread.data

def probeLseek (cfg : TestConfig) : Hook Int :=
  if cfg.size ≤ 0 then return 0
  else do
    let offset := cfg.size / 2
    let want := min probeSize (cfg.size - offset).toNat
    let fd ← sqfsOpen (some cfg.path) readFlags 0
    if fd < 0 then return -1
    else do
      let sought ← sqfsLseek b fd (BitVec.ofInt b.width offset) SEEK_SET
      if sought ≠ offset then do
        closeKeepingErrno fd
        return -1
      else probeReads b fd offset.toNat want

/-- `st` is what the stack holds where `struct stat st` is. -/
def probeXstatAccess (cfg : TestConfig) (st : Stat) : Hook Int := do
  let stat ← sqfsXstat b 3 (some cfg.path) (some st)
  if stat.1 ≠ 0 then return -1
  else if (stat.2.map Stat.stSize) ≠ some cfg.size then do
    setErrno Errno.EIO
    return -1
  else do
    let granted ← sqfsAccess b (some cfg.path) R_OK
    if granted ≠ 0 then return -1 else return 0

/-- One iteration of `worker_main`: the errors it counts. -/
def workerIteration (cfg : TestConfig) (st : Stat) (i : Nat) : Hook Nat := do
  let usePread64 := i % 2 ≠ 0
  let read ← hashPrefixWithRead b cfg.path cfg.prefixSize
  let sampled ← hashSamplesWithPread b cfg.path cfg.size usePread64
  let sought ← probeLseek b cfg
  let statted ← probeXstatAccess b cfg st
  return (if read = some cfg.prefixHash then 0 else 1) +
    (if sampled = some cfg.sampleHash then 0 else 1) +
    (if sought = 0 then 0 else 1) + (if statted = 0 then 0 else 1)

/-- The loop of `worker_main` with the iterations left. -/
def workerLoop (cfg : TestConfig) (st : Stat) : Nat → Nat → Hook Nat
  | 0, errors => return errors
  | left + 1, errors => do
    let found ← workerIteration b cfg st (cfg.iterations - (left + 1))
    workerLoop cfg st left (errors + found)

def workerMain (cfg : TestConfig) (st : Stat) : Hook Nat := workerLoop b cfg st cfg.iterations 0

/-- What `main` finds out before it starts the workers, or `none` where it gives up. -/
def baseline (path : CString) (iterations : Nat) : Hook (Option TestConfig) := do
  let size ← getPathSize b path
  match size with
  | none => return none
  | some size => do
    let prefixSize := min size.toNat PREFIX_LIMIT
    let prefixHash ← hashPrefixWithRead b path prefixSize
    match prefixHash with
    | none => return none
    | some prefixHash => do
      let sampleHash ← hashSamplesWithPread b path size true
      match sampleHash with
      | none => return none
      | some sampleHash => return some { path, size, prefixSize, prefixHash, sampleHash, iterations }

/-- `run_shared_fd_read` before the threads are started: the descriptor that they share, or
`none` where it returns -1. -/
def sharedReadOpen (path : CString) : Hook (Option Int) := do
  let fd ← sqfsOpen (some path) readFlags 0
  if fd < 0 then return none
  else do
    let sought ← sqfsLseek b fd 0 SEEK_SET
    if sought ≠ 0 then do
      closeKeepingErrno fd
      return none
    else return some fd

/-- `shared_read_main` for at most `fuel` reads, after which it gives `none`: what the thread
has added to `ctx->total`, and to `ctx->errors`. -/
def sharedReadMain (fd : Int) : Nat → Nat → Hook (Option (Nat × Nat))
  | 0, _ => return none
  | fuel + 1, total => do
    let got ← sqfsRead b fd (BitVec.ofNat b.width READ_CHUNK)
    if got.ret < 0 then return some (total, 1)
    else if got.ret = 0 then return some (total, 0)
    else if got.ret ≤ READ_CHUNK then sharedReadMain fd fuel (total + got.ret.toNat)
    else .undefined

/-- `run_shared_fd_read` after all threads were started and have ended. -/
def sharedReadClose (cfg : TestConfig) (fd : Int) (total errors : Nat) : Hook Int := do
  let closed ← sqfsClose fd
  if closed ≠ 0 then return -1
  else if errors ≠ 0 ∨ BitVec.ofNat 64 total ≠ BitVec.ofInt 64 cfg.size then do
    setErrno Errno.EIO
    return -1
  else return 0

end HookSqfs.Clients
