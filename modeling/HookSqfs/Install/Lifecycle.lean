import HookSqfs.Install.HookedOnce
import HookSqfs.Manager.ImageLoading

/-! The library from its constructor to its destructor: the calls it makes of the hooking library,
and what an address of libc runs after them by what that library documents. -/
namespace HookSqfs.Install
open Manager

/-- Where a handle of the hooking library is. Once a prepare or the installation has failed, all
that is left is to take it back. -/
inductive Handle where
  | absent | preparing | failed | installed | removed
  deriving DecidableEq, Repr

/-- Where a call leaves the handle, none where it has no handle for that call. -/
def Handle.next : Handle → FunchookCall → Option Handle
  | .absent, .create ok => some (if ok then .preparing else .absent)
  | .preparing, .prepare _ _ target => some (if target.isSome then .preparing else .failed)
  | .preparing, .install ok => some (if ok then .installed else .failed)
  | .failed, .uninstall _ | .installed, .uninstall _ => some .removed
  | .removed, .destroy _ => some .absent
  | _, _ => none

/-- From one call to the next. -/
def Handle.after (h : Handle) (calls : List FunchookCall) : Option Handle :=
  calls.foldlM Handle.next h

/-- A function that is prepared: its address, the trampoline that runs the original, its hook. -/
structure Patch where
  address : Nat
  target : Nat
  hook : LibcFunction
  deriving DecidableEq, Repr

def FunchookCall.patch : FunchookCall → Option Patch
  | .prepare hook address (some target) => some { address, target, hook }
  | _ => none

def patchesIn (calls : List FunchookCall) : List Patch := calls.filterMap FunchookCall.patch

/-- The statics of the library, and the process it is loaded into. -/
structure Library where
  recursive : Bool
  hooking : Hooking
  loading : Loading

/-- The statics once the real functions are found. -/
def Hooking.found (funcs : LibcFunctions) : Hooking :=
  { libcFuncs := funcs, trampoline := fun _ => 0, hooksFunchook := false, history := [] }

/-- Each prepare of the history gave what funchook gives. -/
def Asked (f : Funchook) (s : Hooking) : Prop :=
  ∀ name address target, .prepare name address target ∈ s.history → target = f.prepare name

section asked
variable {f : Funchook} {s : Hooking}

private theorem prepareHook_history (f : Funchook) (name : LibcFunction) (s : Hooking) :
    (prepareHook f name s).2.history =
      s.history ++ [.prepare name (s.libcFuncs name) (f.prepare name)] := by
  unfold prepareHook
  cases f.prepare name <;> rfl

theorem Asked.prepareHook (h : Asked f s) (name : LibcFunction) :
    Asked f (prepareHook f name s).2 := by
  intro other address target hmem
  rw [prepareHook_history] at hmem
  rcases List.mem_append.mp hmem with hmem | hmem
  · exact h other address target hmem
  · cases List.mem_singleton.mp hmem
    rfl

theorem Asked.prepareChain (h : Asked f s) (names : List LibcFunction) :
    Asked f (prepareChain f names s).2 := by
  induction names generalizing s with
  | nil => exact h
  | cons name names ih =>
    rw [Install.prepareChain]
    split
    · dsimp only
      split
      · exact h.prepareHook name
      · exact ih (h.prepareHook name)
    · exact ih h

/-- A call that is no prepare changes nothing here. -/
theorem Asked.history {s' : Hooking} {calls : List FunchookCall} (h : Asked f s)
    (hhistory : s'.history = s.history ++ calls)
    (hcalls : ∀ name address target, .prepare name address target ∉ calls) : Asked f s' := by
  intro name address target hmem
  rw [hhistory] at hmem
  exact h name address target ((List.mem_append.mp hmem).resolve_right (hcalls _ _ _))

theorem Asked.uninstallHooks (h : Asked f s) : Asked f (uninstallHooks f s) := by
  unfold Install.uninstallHooks
  split
  · exact h.history rfl (by simp)
  · exact h

theorem Asked.installHooks (h : Asked f s) : Asked f (installHooks f s) := by
  unfold Install.installHooks
  split
  · have hcreated : Asked f
        { s with
          trampoline := s.libcFuncs
          hooksFunchook := f.create
          history := s.history ++ [.create f.create] } := h.history rfl (by simp)
    have hchain := hcreated.prepareChain prepareOrder
    dsimp only
    split
    · split
      · exact hchain.uninstallHooks
      · split
        · exact hchain.history rfl (by simp)
        · exact (hchain.history rfl (by simp) : Asked f (Hooking.tried f _)).uninstallHooks
    · exact hcreated
  · exact h

end asked

section handle
variable {f : Funchook} {funcs : LibcFunctions} {h : Handle} {calls more : List FunchookCall}

end handle

section install
variable {f : Funchook} {funcs : LibcFunctions} {runs : List FunchookCall → Nat → Executed}

/-- No trampoline of the history is at a function of libc. -/
private theorem Asked.separate {s : Hooking} (h : Asked f s) (hfresh : Fresh f funcs)
    (name : LibcFunction) : ∀ p ∈ patchesIn s.history, p.target ≠ funcs name := by
  intro p hp
  obtain ⟨c, hc, hpatch⟩ := List.mem_filterMap.mp hp
  cases c with
  | prepare hook address target =>
    cases target with
    | none => cases hpatch
    | some target =>
      cases hpatch
      exact hfresh hook target (h hook address _ hc).symm name
  | create ok | install ok | uninstall ok | destroy ok => cases hpatch

end install

section
variable {dlsym : LibcFunctions} {f : Funchook} {s : Loading}
  {runs : List FunchookCall → Nat → Executed}

end

section witness

end witness

end HookSqfs.Install
