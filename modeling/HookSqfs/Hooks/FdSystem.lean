import HookSqfs.Hooks.OpenOutcomes
import HookSqfs.Hooks.ReadOutcomes
import HookSqfs.Hooks.SeekOutcomes
import HookSqfs.Interaction.Interleaving
import HookSqfs.Manager.RequestKinds

/-! Threads that open, read, seek and close: their calls as an interleaving system, what
a burst does to `fd_map`, and the invariant of the descriptors. -/
namespace HookSqfs.Hooks
open Manager Interaction Tables
variable (b : Bits) (o : Oracle)

/-- A hooked call on descriptors. -/
inductive FdCall where
  | open (pathname : Option CString) (flags mode : BitVec 32)
  | close (fd : Int)
  | closeNocancel (fd : Int)
  | read (fd : Int) (count : BitVec b.width)
  | pread (fd : Int) (count offset : BitVec b.width)
  | pread64 (fd : Int) (count : BitVec b.width) (offset : BitVec 64)
  | lseek (fd : Int) (offset : BitVec b.width) (whence : Int)
  | lseek64 (fd : Int) (offset : BitVec 64) (whence : Int)

namespace FdCall
variable {b}

/-- The hook; a call that stores no bytes returns its number alone. -/
def program : FdCall b → Hook ReadResult
  | .open pathname flags mode => do
    let fd ← sqfsOpen pathname flags mode
    return { ret := fd }
  | .close fd => do
    let ret ← sqfsClose fd
    return { ret }
  | .closeNocancel fd => do
    let ret ← sqfsCloseNocancel fd
    return { ret }
  | .read fd count => sqfsRead b fd count
  | .pread fd count offset => sqfsPread b fd count offset
  | .pread64 fd count offset => sqfsPread64 b fd count offset
  | .lseek fd offset whence => do
    let ret ← sqfsLseek b fd offset whence
    return { ret }
  | .lseek64 fd offset whence => do
    let ret ← sqfsLseek64 fd offset whence
    return { ret }

/-- The descriptor that the call gives up. -/
def closes : FdCall b → Option Int
  | .close fd | .closeNocancel fd => some fd
  | _ => none

end FdCall

/-- Clients may call anything, but close only what they hold: the descriptor goes over to
the closing call, and one that `open` returns goes over to the client. Each call has an
`errno` of its own. -/
def fdSystem : System Req Answer World Errno (FdCall b) ReadResult where
  handle := World.handle o
  depth := World.depth
  enter n e w := { w with errno := e, caller := n }
  locals := World.errno
  program := FdCall.program
  admits w call := ∀ fd, call.closes = some fd → w.owner fd = some .client
  begins n call w :=
    match call.closes with
    | none => w
    | some fd => { w with owner := Function.update w.owner fd (some (.call n)) }
  ends _ call r w :=
    match call with
    | .open .. =>
      if 0 ≤ r.ret then { w with owner := Function.update w.owner r.ret (some .client) } else w
    | _ => w

/-- The keys of `fd_map`. -/
def fdKeys (w : World) : List Int := w.fdMap.map FDMapEntry.key

/-- The lock is free, every open descriptor has an owner, and `fd_map` has one entry for
each of some backing descriptors, inserted by the call that made the descriptor. -/
structure FdInv (w : World) : Prop where
  free : w.depth = 0
  owned : ∀ fd, w.fds fd = none ↔ w.owner fd = none
  distinct : (fdKeys w).Nodup
  backed : ∀ key ∈ fdKeys w, ∃ n, w.fds key = some (.backing n) ∧ w.insertedBy key = some n

/-- What a locked section does to `fd_map`. -/
inductive FdOp where
  | opened (entry : FDMapEntry)
  | closed (fd : Int)
  | read (fd : Int) (size : BitVec 32) (data : List Byte)
  | readAt (fd : Int) (offset : BitVec 64) (size : BitVec 32) (data : List Byte)
  | sought (fd : Int) (offset : BitVec 64)
  | failed (fd : Int)
  | missed (fd : Int)

/-- The operation takes `fd_map` from one state to the next. -/
def FdOp.Changes (w w' : World) : FdOp → Prop
  | .opened entry => w.fds entry.key = none ∧ entry.offset = 0 ∧ w'.fdMap = entry :: w.fdMap
  | .closed fd => (lookup FDMapEntry.key fd w.fdMap).isSome ∧
      w'.fdMap = remove FDMapEntry.key fd w.fdMap
  | .read fd size data => ∃ entry n, lookup FDMapEntry.key fd w.fdMap = some entry ∧
      o.answer n (.dataReaderRead entry.inode entry.offset size) = .ok data ∧
      w'.fdMap = readTable w.fdMap fd entry (.ok data)
  | .readAt fd offset size data => ∃ entry n, lookup FDMapEntry.key fd w.fdMap = some entry ∧
      o.answer n (.dataReaderRead entry.inode offset size) = .ok data ∧
      0 ≤ offset.toInt ∧ w'.fdMap = w.fdMap
  | .sought fd offset => (lookup FDMapEntry.key fd w.fdMap).isSome ∧
      w'.fdMap = seekTable w.fdMap fd (.ok offset)
  | .failed fd => (lookup FDMapEntry.key fd w.fdMap).isSome ∧ w'.fdMap = w.fdMap
  | .missed fd => lookup FDMapEntry.key fd w.fdMap = none ∧ w'.fdMap = w.fdMap

/-- A burst: the states around it, and what it does to `fd_map` if anything. -/
structure FdEvent where
  before : World
  after : World
  op : Option FdOp

/-- What the owners of other descriptors see of a burst of call `n`. -/
def Spares (n : Nat) (w w' : World) : Prop :=
  ∀ fd c, w.owner fd = some c → c ≠ .call n →
    w'.owner fd = some c ∧ w'.fds fd = w.fds fd ∧ (fd ∈ fdKeys w' ↔ fd ∈ fdKeys w)

/-- The effect of a burst of call `n`. -/
def FdEffect (n : Nat) (w : World) (evs : List FdEvent) (w' : World) : Prop :=
  ∃ op, evs = [⟨w, w', op⟩] ∧ Spares n w w' ∧
    match op with
    | none => w'.fdMap = w.fdMap
    | some op => op.Changes o w w'

/-- A call relies on its own descriptors. -/
def FdRely (n : Nat) (w w' : World) : Prop :=
  ∀ fd, w.owner fd = some (.call n) → w'.owner fd = some (.call n) ∧ w'.fds fd = w.fds fd ∧
    (fd ∈ fdKeys w' ↔ fd ∈ fdKeys w)

def fdProtocol : Protocol (fdSystem b o) FdEvent where
  inv := FdInv
  free _ h := h.free
  effect := FdEffect o
  rely := FdRely
  relied hij h fd hfd := by
    obtain ⟨op, -, hspares, -⟩ := h
    exact hspares fd _ hfd fun he => hij (Owner.call.inj he)

/-- The lock, the keys and the descriptors are as they were. -/
structure SameKeys (w w' : World) : Prop where
  depth : w'.depth = w.depth
  keys : fdKeys w' = fdKeys w
  fds : w'.fds = w.fds
  owner : w'.owner = w.owner
  insertedBy : w'.insertedBy = w.insertedBy

theorem SameKeys.inv {w w' : World} (h : SameKeys w w') (hw : FdInv w) : FdInv w' where
  free := h.depth.trans hw.free
  owned fd := by rw [h.fds, h.owner, hw.owned]
  distinct := h.keys ▸ hw.distinct
  backed key hkey := by
    rw [h.fds, h.insertedBy]
    exact hw.backed key (h.keys ▸ hkey)

theorem SameKeys.spares {w w' : World} (h : SameKeys w w') (n : Nat) : Spares n w w' :=
  fun fd c hc _ => ⟨by rw [h.owner, hc], by rw [h.fds], by rw [h.keys]⟩

theorem SameKeys.of_calm {w w' : World} (h : Calm w w') : SameKeys w w' :=
  ⟨h.depth, by rw [fdKeys, fdKeys, h.fdMap], h.fds, h.owner, h.insertedBy⟩

/-- What a call knows when it starts. -/
def FdPre (n : Nat) (call : FdCall b) (t : List FdEvent) (w : World) : Prop :=
  t = [] ∧ ∀ fd, call.closes = some fd → w.owner fd = some (.call n)

/-- What the bursts of a call did to `fd_map`. -/
def ops (t : List FdEvent) : List FdOp := t.filterMap (·.op)

/-- No burst changed `fd_map` or the set of open descriptors. -/
def Unchanged (t : List FdEvent) : Prop :=
  ∀ ev ∈ t, ev.after.fdMap = ev.before.fdMap ∧ ev.after.fds = ev.before.fds

variable {b} in
/-- The result of a call is that of its operation. -/
def FdCall.Answers (r : ReadResult) (op : FdOp) : FdCall b → Prop
  | .open .. => ∃ entry, op = .opened entry ∧ r.ret = entry.key
  | .close fd | .closeNocancel fd => op = .closed fd ∨ op = .missed fd
  | .read fd count =>
    (∃ data, op = .read fd (count.setWidth 32) data ∧ r = { ret := data.length, data }) ∨
      op = .failed fd ∧ r = { ret := -1 } ∨ op = .missed fd
  | .pread fd count offset =>
    (∃ data, op = .readAt fd (offset.signExtend 64) (count.setWidth 32) data ∧
      r = { ret := data.length, data }) ∨ op = .failed fd ∧ r = { ret := -1 } ∨ op = .missed fd
  | .pread64 fd count offset =>
    (∃ data, op = .readAt fd offset (count.setWidth 32) data ∧
      r = { ret := data.length, data }) ∨ op = .failed fd ∧ r = { ret := -1 } ∨ op = .missed fd
  | .lseek fd _ _ | .lseek64 fd _ _ =>
    (∃ offset, op = .sought fd offset ∧ r.ret = offset.toNat) ∨
      op = .failed fd ∧ r.ret = -1 ∨ op = .missed fd

/-- What a call knows when it returns: every call but an `open` has one operation that its
result answers, unless there is no real `close`; a failed `open` changed nothing. -/
def FdPost (n : Nat) (call : FdCall b) (r : ReadResult) (t : List FdEvent) (w : World) : Prop :=
  match call with
  | .open .. =>
    r.ret = -1 ∧ ops t = [] ∧ Unchanged t ∨
      (∃ fd : Nat, r.ret = fd ∧ w.owner fd = some (.call n)) ∧
        (ops t = [] ∨ ∃ op, ops t = [op] ∧ call.Answers r op)
  | .close _ | .closeNocancel _ =>
    ops t = [] ∧ r.ret = -1 ∨ ∃ op, ops t = [op] ∧ call.Answers r op
  | _ => ∃ op, ops t = [op] ∧ call.Answers r op

end HookSqfs.Hooks
