import HookSqfs.Hooks.DirHooks
import HookSqfs.Interaction.Interleaving
import HookSqfs.Manager.Ledger

/-! Threads that open, read and close directories: their calls as an interleaving system,
with a record of what each call does. -/
namespace HookSqfs.Hooks
open Manager Interaction Tables
variable (b : Bits) (o : Oracle)

/-- A hooked call on directory streams. -/
inductive DirCall where
  | opendir (name : Option CString)
  | readdir (dirp : Nat)
  | closedir (dir : Nat)
  deriving DecidableEq

inductive DirResult where
  | stream (dir : Option Nat)
  | dirent (entry : Option Dirent)
  | ret (r : Int)

def DirCall.program : DirCall → Hook DirResult
  | .opendir name => do
    let dir ← sqfsOpendir b name
    return .stream dir
  | .readdir dirp => do
    let entry ← sqfsReaddir dirp
    return .dirent entry
  | .closedir dir => do
    let r ← sqfsClosedir dir
    return .ret r

/-- The stream that the call gives up. -/
def DirCall.closes : DirCall → Option Nat
  | .closedir dir => some dir
  | _ => none

end HookSqfs.Hooks

namespace HookSqfs.Manager.Ext

/-- The streams that a call opens and closes. -/
def streamEvents : (c : Ext) → c.Ans → List (LedgerEvent Nat)
  | .opendir _, .ok stream => [.acquired stream.addr]
  | .closedir dir, _ => [.released dir]
  | _, _ => []

/-- The errno of a step that fails. `rmdir` and `closedir` are only made to clean up. -/
def stepErrno : (c : Ext) → c.Ans → Option Errno
  | .dirReaderCreate, none => some Errno.ENOMEM
  | .getRootInode, .error e | .findByPath _, .error e | .openDir _, .error e =>
    some (errnoFromSqfs e)
  | .rmdir _, _ | .closedir _, _ => none
  | c, a => c.failure a

/-- The path of an `opendir` and the stream it gives. -/
def opened : (c : Ext) → c.Ans → Option (Option CString × Option Nat)
  | .opendir name, a => some (name, Hooks.realStream a)
  | _, _ => none

end HookSqfs.Manager.Ext

namespace HookSqfs.Hooks
open Manager Interaction Tables
variable (b : Bits) (o : Oracle)

/-- What a call has done outside the process: its first `opendir`, the streams and the
objects it has obtained and released, and the errno of its last step that failed, the
steps before the lock not counted. -/
structure CallLedger where
  real : Option (Option CString × Option Nat)
  streams : List (LedgerEvent Nat)
  objects : List (LedgerEvent Object)
  failed : Option Errno

def CallLedger.blank : CallLedger := { real := none, streams := [], objects := [], failed := none }

def CallLedger.after (g : CallLedger) : (e : Req) → Answer e → CallLedger
  | .lock, _ => { g with failed := none }
  | .call c, a =>
    { real := g.real.or (c.opened a)
      streams := g.streams ++ c.streamEvents a
      objects := g.objects ++ c.events a
      failed := (c.stepErrno a).or g.failed }
  | _, _ => g

/-- A request that writes `dir_map` or an entry of it. -/
def writesDirMap : Req → Bool
  | .dirMapAdd _ | .dirMapDel _ | .dirMapSetList .. | .dirMapSetCurrent ..
  | .dirMapSetReachedEnd _ => true
  | _ => false

/-- The process with its calls on directories and, for each of them, what it has done, the
errno it has, what it has looked up in which `dir_map`, and each of its changes of
`dir_map` with the map before and after. `owner` says who may close a stream and
`insertedBy` which call made the entry. No hook reads any of this. -/
structure DirWorld where
  world : World
  calls : Nat → Option DirCall
  ledgers : Nat → CallLedger
  errnos : Nat → Errno
  looks : Nat → List (Nat × List DirMapEntry)
  changes : Nat → List (List DirMapEntry × List DirMapEntry)
  owner : Nat → Option Owner
  insertedBy : Nat → Option Nat

namespace DirWorld

/-- Who may close a stream after a request of call `n`. -/
def ownerAfter (owner : Nat → Option Owner) (n : Nat) : (e : Req) → Answer e → Nat → Option Owner
  | .call (.opendir _), .ok stream => Function.update owner stream.addr (some (.call n))
  | .call (.closedir dir), _ => Function.update owner dir none
  | _, _ => owner

/-- The record of a request that leads to `v`. -/
def recorded (w : DirWorld) (e : Req) (a : Answer e) (v : World) : DirWorld :=
  let n := w.world.caller
  { world := v
    calls := w.calls
    ledgers := Function.update w.ledgers n ((w.ledgers n).after e a)
    errnos := Function.update w.errnos n v.errno
    looks :=
      match e with
      | .dirMapFind key => Function.update w.looks n (w.looks n ++ [(key, w.world.dirMap)])
      | _ => w.looks
    changes :=
      if writesDirMap e then
        Function.update w.changes n (w.changes n ++ [(w.world.dirMap, v.dirMap)])
      else w.changes
    owner := ownerAfter w.owner n e a
    insertedBy :=
      match e with
      | .dirMapAdd entry => Function.update w.insertedBy entry.key (some n)
      | _ => w.insertedBy }

def handle : Handler Req Answer DirWorld := fun w e =>
  ((World.handle o w.world e).1,
    w.recorded e (World.handle o w.world e).1 (World.handle o w.world e).2)

/-- Call `n` begins, and takes the stream that it is to close. -/
def begins (n : Nat) (call : DirCall) (w : DirWorld) : DirWorld :=
  { w with
    calls := Function.update w.calls n (some call)
    ledgers := Function.update w.ledgers n .blank
    looks := Function.update w.looks n []
    changes := Function.update w.changes n []
    owner :=
      match call.closes with
      | none => w.owner
      | some dir => Function.update w.owner dir (some (.call n)) }

/-- The stream that `opendir` returns goes over to the client. -/
def ends (r : DirResult) (w : DirWorld) : DirWorld :=
  match r with
  | .stream (some dir) => { w with owner := Function.update w.owner dir (some .client) }
  | _ => w

end DirWorld

/-- Clients may call anything, but close only a stream they hold: it goes over to the
closing call. Each call has an `errno` of its own. -/
def dirSystem : System Req Answer DirWorld Errno DirCall DirResult where
  handle := DirWorld.handle o
  depth w := w.world.depth
  enter n e w := { w with world := { w.world with errno := e, caller := n } }
  locals w := w.world.errno
  program := DirCall.program b
  admits w call := ∀ dir, call.closes = some dir → w.owner dir = some .client
  begins := DirWorld.begins
  ends _ _ r w := w.ends r

/-- The keys of `dir_map`. -/
def dirKeys (w : World) : List Nat := w.dirMap.map DirMapEntry.key

/-- No call is at work and nothing is mapped, and every open stream has an owner. -/
structure DirStarting (w : DirWorld) : Prop where
  empty : w.world.dirMap = []
  owned : ∀ dir, w.world.streams dir = none ↔ w.owner dir = none

/-- No call has begun, and nothing is open. -/
def DirWorld.fresh (w : World) : DirWorld where
  world := { w with dirMap := [], streams := fun _ => none }
  calls := fun _ => none
  ledgers := fun _ => .blank
  errnos := fun _ => 0
  looks := fun _ => []
  changes := fun _ => []
  owner := fun _ => none
  insertedBy := fun _ => none

theorem DirWorld.fresh_starting (w : World) : DirStarting (.fresh w) :=
  ⟨rfl, fun _ => iff_of_true rfl rfl⟩

end HookSqfs.Hooks
