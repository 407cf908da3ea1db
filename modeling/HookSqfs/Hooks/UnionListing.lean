import HookSqfs.Hooks.AtomicOpendir

/-! The listing of a directory in every state that calls on directories lead to. -/
namespace HookSqfs.Hooks
open Manager Interaction Tables
variable {b : Bits} {o : Oracle}

end HookSqfs.Hooks
