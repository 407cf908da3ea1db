import Mathlib.Data.List.Basic
import Mathlib.Logic.Function.Basic

/-! `hooksqfs.c`: the table of the real functions and the installation of the hooks. -/
namespace HookSqfs.Install

/-- The fields of `struct LibcFunctions`. -/
inductive LibcFunction where
  | open | read | pread | pread64 | lseek | lseek64 | close | closeNocancel | opendir | readdir
  | closedir | access | xstat
  deriving DecidableEq, Repr

/-- `struct LibcFunctions`: the address in each field, 0 being NULL. -/
abbrev LibcFunctions := LibcFunction → Nat

/-- The outcomes of the hooking library: whether a handle is created, the trampoline
that a prepare gives or its failure, and whether the others succeed. -/
structure Funchook where
  create : Bool
  prepare : LibcFunction → Option Nat
  install : Bool
  uninstall : Bool
  destroy : Bool

/-- A call of the hooking library, with its outcome. A prepare is given the address that
the table has for a function and the hook of that function, and gives a trampoline. -/
inductive FunchookCall where
  | create (ok : Bool)
  | prepare (name : LibcFunction) (address : Nat) (target : Option Nat)
  | install (ok : Bool)
  | uninstall (ok : Bool)
  | destroy (ok : Bool)
  deriving DecidableEq, Repr

/-- A call of `funchook_prepare`: the address it was to patch, and its success. -/
structure PrepareCall where
  address : Nat
  ok : Bool
  deriving DecidableEq, Repr

def FunchookCall.prepareCall : FunchookCall → Option PrepareCall
  | .prepare _ address target => some { address, ok := target.isSome }
  | _ => none

/-- `g_xLibcFuncs`, `g_xTrampoline` and whether `hooks_funchook` is set; `history` is what
was called with that handle, which no function reads. -/
structure Hooking where
  libcFuncs : LibcFunctions
  trampoline : LibcFunctions
  hooksFunchook : Bool
  history : List FunchookCall

def Hooking.calls (s : Hooking) : List PrepareCall := s.history.filterMap FunchookCall.prepareCall

/-- `vPopulateLibcFuncPtrs`, with what `dlsym` finds. -/
def populateLibcFuncPtrs (dlsym : LibcFunctions) : LibcFunctions :=
  if dlsym .closeNocancel = 0 then Function.update dlsym .closeNocancel (dlsym .close) else dlsym

def libcFuncPtrsLoaded (funcs : LibcFunctions) : Bool :=
  funcs .open ≠ 0 && funcs .read ≠ 0 && funcs .pread ≠ 0 && funcs .pread64 ≠ 0 &&
    funcs .lseek ≠ 0 && funcs .lseek64 ≠ 0 && funcs .close ≠ 0 && funcs .closeNocancel ≠ 0 &&
    funcs .opendir ≠ 0 && funcs .readdir ≠ 0 && funcs .closedir ≠ 0 && funcs .access ≠ 0 &&
    funcs .xstat ≠ 0

/-- `prepare_hook`: whether it fails, and the state after it. -/
def prepareHook (f : Funchook) (name : LibcFunction) (s : Hooking) : Bool × Hooking :=
  let history := s.history ++ [.prepare name (s.libcFuncs name) (f.prepare name)]
  match f.prepare name with
  | none => (true, { s with history })
  | some target =>
    (false, { s with libcFuncs := Function.update s.libcFuncs name target, history })

/-- What stands before `&&` in front of a prepare of the chain, read when the chain
gets there. -/
def prepareTest (s : Hooking) : LibcFunction → Bool
  | .pread64 => s.libcFuncs .pread64 ≠ s.libcFuncs .pread
  | .lseek64 => s.libcFuncs .lseek64 ≠ s.libcFuncs .lseek
  | .closeNocancel =>
    s.trampoline .closeNocancel ≠ 0 && s.trampoline .closeNocancel ≠ s.trampoline .close
  | _ => true

/-- The order of the chain in `install_hooks`. -/
def prepareOrder : List LibcFunction :=
  [.open, .read, .pread, .lseek, .pread64, .lseek64, .close, .closeNocancel, .opendir, .readdir,
    .closedir, .access, .xstat]

/-- The chain of prepares, left at the first failure. -/
def prepareChain (f : Funchook) : List LibcFunction → Hooking → Bool × Hooking
  | [], s => (false, s)
  | name :: names, s =>
    if prepareTest s name then
      let out := prepareHook f name s
      if out.1 then (true, out.2) else prepareChain f names out.2
    else prepareChain f names s

/-- `uninstall_hooks`; what the library answers is only logged. -/
def uninstallHooks (f : Funchook) (s : Hooking) : Hooking :=
  if s.hooksFunchook then
    { s with
      hooksFunchook := false
      libcFuncs := s.trampoline
      history := s.history ++ [.uninstall f.uninstall, .destroy f.destroy] }
  else s

def installHooks (f : Funchook) (s : Hooking) : Hooking :=
  if libcFuncPtrsLoaded s.libcFuncs then
    let s :=
      { s with
        trampoline := s.libcFuncs
        hooksFunchook := f.create
        history := s.history ++ [.create f.create] }
    if f.create then
      let out := prepareChain f prepareOrder s
      if out.1 then uninstallHooks f out.2
      else
        let s := { out.2 with history := out.2.history ++ [.install f.install] }
        if f.install then s
        else uninstallHooks f s
    else s
  else s

end HookSqfs.Install
