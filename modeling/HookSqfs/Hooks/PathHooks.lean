import HookSqfs.Manager.Lookup

/-! The hooks on paths: `__xstat` and `access`. -/
namespace HookSqfs.Hooks
open Manager
variable (b : Bits)

/-- `sqfs_xstat` under the lock. -/
def xstatLower (relative : CString) (buf : Stat) : Hook (Int × Option Stat) := do
  sqfsLock
  let ok ← sqfsStatImpl b (some relative)
  let savedErrno ← getErrno
  sqfsUnlock
  setErrno savedErrno
  match ok with
  | none => return (-1, some buf)
  | some st => return (0, some st)

/-- `sqfs_xstat` after the real call failed. -/
def xstatFallback (ver : Int) (pathname : Option CString) (buf : Option Stat) :
    Hook (Int × Option Stat) := do
  let checked ← sqfsCheckPath pathname
  if checked.1 ≠ 0 then do
    setErrno checked.1
    return (-1, buf)
  else
    match buf with
    | none => do
      setErrno Errno.EFAULT
      return (-1, none)
    | some st =>
      if ver ≠ 3 then do
        logHook (some (ascii "sqfs_xstat"))
        setErrno Errno.EFAULT
        return (-1, some st)
      else xstatLower b checked.2 st

/-- `buf` is the caller's structure before the call, `none` for NULL; the second
result is its content afterwards. -/
def sqfsXstat (ver : Int) (pathname : Option CString) (buf : Option Stat) :
    Hook (Int × Option Stat) := do
  let real : Except Errno Stat ← call (.xstat ver pathname)
  match real with
  | .ok st => return (0, buf.map fun _ => st)
  | .error _ => xstatFallback b ver pathname buf

def X_OK : BitVec 32 := 1
def W_OK : BitVec 32 := 2
def R_OK : BitVec 32 := 4

/-- `log_hook` behind the check-only call. -/
def accessLog (pathname : Option CString) : Hook Unit := do
  let inside ← sqfsCheckOnly pathname
  if inside then logHook (some (ascii "sqfs_access")) else return ()

/-- The label `return_err`. -/
def accessReturnErr (pathname : Option CString) : Hook Int := do
  accessLog pathname
  return -1

/-- The decision on the mode bits: the errno of a refusal. -/
def accessDecision (stMode mode : BitVec 32) : Option Errno :=
  if mode &&& W_OK ≠ 0 then some Errno.EROFS
  else if mode &&& R_OK ≠ 0 ∧ stMode &&& 0o444 = 0 then some Errno.EACCES
  else if mode &&& X_OK ≠ 0 ∧ stMode &&& 0o111 = 0 then some Errno.EACCES
  else none

/-- `sqfs_access` on a path under the prefix. -/
def accessLower (pathname : Option CString) (mode : BitVec 32) (relative : CString) :
    Hook Int := do
  sqfsLock
  let stat ← sqfsStatImpl b (some relative)
  let savedErrno ← getErrno
  sqfsUnlock
  match stat with
  | none => do
    setErrno savedErrno
    accessReturnErr pathname
  | some st =>
    match accessDecision st.stMode mode with
    | some e => do
      setErrno e
      accessReturnErr pathname
    | none => do
      logHook (some (ascii "sqfs_access"))
      return 0

/-- `sqfs_access` after the real call failed. -/
def accessFallback (pathname : Option CString) (mode : BitVec 32) : Hook Int := do
  let checked ← sqfsCheckPath pathname
  if checked.1 ≠ 0 then do
    setErrno checked.1
    accessReturnErr pathname
  else accessLower b pathname mode checked.2

def sqfsAccess (pathname : Option CString) (mode : BitVec 32) : Hook Int := do
  let real : Except Errno Unit ← call (.access pathname mode)
  match real with
  | .ok _ => do
    accessLog pathname
    return 0
  | .error _ => accessFallback b pathname mode

end HookSqfs.Hooks
