import HookSqfs.Hooks.FdOutlines
import HookSqfs.Hooks.ThreadPool
import HookSqfs.Interaction.Elision

/-! libsquashfs reads the image by calls of libc, which are hooked as well: a hook is then
called again by the thread that holds the lock. -/
namespace HookSqfs.Hooks
open Manager Interaction Tables Program
variable {b : Bits}

/-- A call of libc that libsquashfs makes. -/
inductive LibraryCall (b : Bits) where
  | read (fd : Int) (count : BitVec b.width)
  | pread (fd : Int) (count offset : BitVec b.width)
  | pread64 (fd : Int) (count : BitVec b.width) (offset : BitVec 64)
  | lseek (fd : Int) (offset : BitVec b.width) (whence : Int)
  | lseek64 (fd : Int) (offset : BitVec 64) (whence : Int)

namespace LibraryCall

def fd : LibraryCall b → Int
  | .read fd _ | .pread fd .. | .pread64 fd .. | .lseek fd .. | .lseek64 fd .. => fd

@[reducible] def Ans : LibraryCall b → Type
  | .read .. | .pread .. | .pread64 .. => ReadResult
  | .lseek .. | .lseek64 .. => Int

/-- With the hooks installed. -/
def hooked : (l : LibraryCall b) → Hook l.Ans
  | .read fd count => sqfsRead b fd count
  | .pread fd count offset => sqfsPread b fd count offset
  | .pread64 fd count offset => sqfsPread64 b fd count offset
  | .lseek fd offset whence => sqfsLseek b fd offset whence
  | .lseek64 fd offset whence => sqfsLseek64 fd offset whence

/-- The real functions. -/
def real : (l : LibraryCall b) → Hook l.Ans
  | .read fd count => do
    let ret : Except Errno (List Byte) ← call (.read fd count.toNat)
    return realRead ret
  | .pread fd count offset => do
    let ret : Except Errno (List Byte) ← call (.pread fd count.toNat offset.toInt)
    return realRead ret
  | .pread64 fd count offset => do
    let ret : Except Errno (List Byte) ← call (.pread64 fd count.toNat offset.toInt)
    return realRead ret
  | .lseek fd offset whence => do
    let ret : Except Errno Int ← call (.lseek fd offset.toInt whence)
    return realSeek ret
  | .lseek64 fd offset whence => do
    let ret : Except Errno Int ← call (.lseek64 fd offset.toInt whence)
    return realSeek ret

end LibraryCall

/-- The functions of libsquashfs that read the image. -/
def ofLibrary : Fn → Bool
  | .dirReaderCreate | .getRootInode | .findByPath | .openDir | .dirReaderRead
  | .dirReaderGetInode | .dataReaderRead => true
  | _ => false

/-- What the library calls before it answers, each call with what the ones before gave. -/
abbrev Library (b : Bits) := Ext → Program (LibraryCall b) LibraryCall.Ans Unit

/-- A call into the library, where its own calls go to `libc`. -/
def nested (libc : (l : LibraryCall b) → Loader l.Ans) (lib : Library b) (c : Ext) : Loader c.Ans :=
  if ofLibrary c.fn then do
    (lib c).interpret libc
    load (.hook (.call c))
  else load (.hook (.call c))

/-- What a hook asks, the calls into the library being nested ones. -/
def serving (libc : (l : LibraryCall b) → Loader l.Ans) (lib : Library b) :
    (e : Req) → Loader (Answer e)
  | .call c => nested libc lib c
  | e => load (.hook e)

/-- A program whose calls into the library are nested ones. -/
def reentering (libc : (l : LibraryCall b) → Loader l.Ans) (lib : Library b) {α : Type}
    (p : Loader α) : Loader α :=
  p.interpret fun e =>
    match e with
    | .hook e => serving libc lib e
    | e => load e

/-- The hooks that the library calls, and they the library again, at most `depth` times one
inside the other. -/
def hooksAt (lib : Library b) : Nat → (l : LibraryCall b) → Loader l.Ans
  | 0, l => relay l.hooked
  | depth + 1, l => reentering (hooksAt lib depth) lib (relay l.hooked)

/-- The real functions. -/
def realCalls (l : LibraryCall b) : Loader l.Ans := relay l.real

/-- What a hook asks on its way to the real function. -/
def onTheWay : ImageReq → Bool
  | .hook .lock | .hook .unlock | .hook (.fdMapFind _) | .hook (.realPresent _) => true
  | _ => false

/-- The answers that lead there for a descriptor of `image`. -/
def passing (image : Set Int) : Quiet ImageReq ImageAnswer where
  asks := onTheWay
  answers
    | .hook (.fdMapFind fd), found => fd ∈ image → found = false
    | .hook (.realPresent .pread64), present | .hook (.realPresent .lseek64), present => present = true
    | _, _ => True

section
variable {image : Set Int} {α β : Type}

theorem reentering_relay (libc : (l : LibraryCall b) → Loader l.Ans) (lib : Library b)
    (p : Hook α) : reentering libc lib (relay p) = p.interpret (serving libc lib) := by
  induction p with
  | ret a => rfl
  | undefined => rfl
  | request e k ih => exact congrArg (serving libc lib e >>= ·) (funext ih)

/-- A request that is no call into the library. -/
def outsideLibrary : Req → Bool
  | .call c => !ofLibrary c.fn
  | _ => true

section serve
variable {f : (e : Req) → Loader (Answer e)} (hf : ∀ e, outsideLibrary e = true → f e = load (.hook e))
include hf

theorem elides_dispatch {fd : Int} (hfd : fd ∈ image) {mapped : Hook α} {after : α → Hook β}
    {fall : Hook β} {p : Loader β} (hfall : Elides managerLocking (passing image) 0 (fall.interpret f) p) :
    Elides managerLocking (passing image) 0 ((dispatch fd mapped after fall).interpret f) p := by
  change Elides managerLocking (passing image) 0 (f .lock >>= fun _ => f (.fdMapFind fd) >>= _) p
  rw [hf .lock rfl, hf (.fdMapFind fd) rfl]
  refine .skip _ rfl (fun h => by cases h) fun _ _ => .skip _ rfl (fun h => by cases h) fun found hfound => ?_
  have hfound : found = false := hfound hfd
  subst hfound
  change Elides managerLocking (passing image) 1 (f .unlock >>= _) p
  rw [hf .unlock rfl]
  exact .skip _ rfl (fun _ => Nat.one_ne_zero) fun _ _ => hfall

private theorem elides_call {c : Ext} {k : c.Ans → Hook α} (hc : outsideLibrary (.call c) = true)
    (hk : ∀ a, (k a).interpret f = relay (k a)) :
    Elides managerLocking (passing image) 0 ((call c >>= k).interpret f) (relay (call c >>= k)) := by
  change Elides managerLocking (passing image) 0 (f (.call c) >>= fun a => (k a).interpret f) _
  rw [hf _ hc]
  refine .request _ fun a => ?_
  change Elides managerLocking (passing image) 0 ((k a).interpret f) (relay (k a))
  rw [hk a]
  exact .refl _

private theorem elides_present {g : RealFn} {p q : Hook α} {r : Loader α}
    (hg : g = .pread64 ∨ g = .lseek64)
    (hp : Elides managerLocking (passing image) 0 (p.interpret f) r) :
    Elides managerLocking (passing image) 0
      ((realPresent g >>= fun present => if present then p else q).interpret f) r := by
  change Elides managerLocking (passing image) 0 (f (.realPresent g) >>= _) _
  rw [hf _ rfl]
  refine .skip _ rfl (fun h => by cases h) fun present hpresent => ?_
  have hpresent : present = true := by
    rcases hg with rfl | rfl <;> exact hpresent
  subst hpresent
  exact hp

/-- A hook of a descriptor that `fd_map` has not passes on to the real function. -/
theorem elides_hooked (l : LibraryCall b) (hfd : l.fd ∈ image) :
    Elides managerLocking (passing image) 0 (l.hooked.interpret f) (relay l.real) := by
  cases l with
  | read fd count =>
    rw [LibraryCall.hooked, sqfsRead_eq]
    exact elides_dispatch hf hfd (elides_call hf rfl fun _ => rfl)
  | pread fd count offset =>
    rw [LibraryCall.hooked, sqfsPread_eq]
    exact elides_dispatch hf hfd (elides_call hf rfl fun _ => rfl)
  | pread64 fd count offset =>
    rw [LibraryCall.hooked, sqfsPread64_eq]
    exact elides_dispatch hf hfd (elides_present hf (.inl rfl) (elides_call hf rfl fun _ => rfl))
  | lseek fd offset whence =>
    rw [LibraryCall.hooked, sqfsLseek_eq]
    exact elides_dispatch hf hfd (elides_call hf rfl fun _ => rfl)
  | lseek64 fd offset whence =>
    rw [LibraryCall.hooked, sqfsLseek64_eq]
    exact elides_dispatch hf hfd (elides_present hf (.inr rfl) (elides_call hf rfl fun _ => rfl))

end serve

private theorem serving_outside (libc : (l : LibraryCall b) → Loader l.Ans) (lib : Library b)
    (e : Req) (he : outsideLibrary e = true) : serving libc lib e = load (.hook e) := by
  cases e with
  | call c =>
    have hfn : ofLibrary c.fn = false := by simpa [outsideLibrary] using he
    rw [serving, nested, hfn]
    rfl
  | _ => rfl

/-- However deep. -/
theorem elides_hooksAt (lib : Library b) (depth : Nat) (l : LibraryCall b) (hfd : l.fd ∈ image) :
    Elides managerLocking (passing image) 0 (hooksAt lib depth l) (realCalls l) := by
  cases depth with
  | zero => exact elides_hooked (fun _ _ => rfl) l hfd
  | succ depth =>
    rw [hooksAt, reentering_relay]
    exact elides_hooked (serving_outside _ lib) l hfd

private theorem elides_library {libc libc' : (l : LibraryCall b) → Loader l.Ans}
    (hlibc : ∀ l, l.fd ∈ image → Elides managerLocking (passing image) 0 (libc l) (libc' l))
    {p : Program (LibraryCall b) LibraryCall.Ans α} (hp : p.All fun l => l.fd ∈ image) :
    Elides managerLocking (passing image) 0 (p.interpret libc) (p.interpret libc') := by
  induction p with
  | ret a => exact .ret a
  | undefined => exact hp.elim
  | request l k ih => exact (hlibc l hp.1).bind fun a => ih a (hp.2 a)

theorem elides_reentering {lib : Library b} (hlib : ∀ c, (lib c).All fun l => l.fd ∈ image)
    (depth : Nat) (p : Loader α) : Elides managerLocking (passing image) 0
      (reentering (hooksAt lib depth) lib p) (reentering realCalls lib p) := by
  refine Elides.interpret (fun e => ?_) p
  cases e with
  | hook e =>
    cases e with
    | call c =>
      change Elides _ _ 0 (nested (hooksAt lib depth) lib c) (nested realCalls lib c)
      unfold nested
      split
      · exact (elides_library (elides_hooksAt lib depth) (hlib c)).bind fun _ => .refl _
      · exact .refl _
    | _ => exact .refl _
  | _ => exact .refl _

end

/-! The state in the eyes of all that may be asked. -/

/-- Without what a turn brings along, and without the depth of the lock. -/
def Process.bare (s : Process) : Loading :=
  { s.loading with world := { s.world with errno := 0, caller := 0, depth := 0 } }

private def atDepth (s : Loading) (depth : Nat) : Loading :=
  { s with world := { s.world with depth } }

private theorem handle_world_anyDepth (o : Oracle) (w : World) (depth : Nat) (e : Req) :
    (World.handle o { w with depth } e).1 = (World.handle o w e).1 ∧
      { (World.handle o { w with depth } e).2 with depth := 0 } =
        { (World.handle o w e).2 with depth := 0 } := by
  cases e with
  | getenv v => cases v <;> exact ⟨rfl, rfl⟩
  | call c =>
    have houtcome : World.outcome { w with depth } o c = w.outcome o c := by
      cases c <;> rfl
    have hafter : ∀ a, { World.afterCall { w with depth } o c a with depth := 0 } =
        { w.afterCall o c a with depth := 0 } := by
      intro a
      unfold World.afterCall World.effect
      split <;> rfl
    refine ⟨houtcome, ?_⟩
    change { World.afterCall { w with depth } o c (World.outcome { w with depth } o c) with depth := 0 } = _
    rw [houtcome]
    exact hafter _
  | _ => exact ⟨rfl, rfl⟩

/-- No answer depends on the depth of the lock. -/
private theorem handle_anyDepth (o : Oracle) (j : ImageOracle) (s : Loading) (depth : Nat)
    (e : ImageReq) :
    (Loading.handle o j (atDepth s depth) e).1 = (Loading.handle o j s e).1 ∧
      atDepth (Loading.handle o j (atDepth s depth) e).2 0 = atDepth (Loading.handle o j s e).2 0 := by
  cases e with
  | hook e =>
    obtain ⟨hanswer, hworld⟩ := handle_world_anyDepth o s.world depth e
    exact ⟨hanswer, congrArg (fun world => ({ s with world } : Loading)) hworld⟩
  | call c =>
    refine ⟨rfl, ?_⟩
    have heffect : ∀ a, atDepth ((atDepth s depth).effect c a) 0 = atDepth (s.effect c a) 0 := by
      intro a
      unfold Loading.effect
      split <;> rfl
    exact heffect _
  | _ => exact ⟨rfl, rfl⟩

private def inTurn (s : Loading) (n : Nat) (l : Errno) : Loading :=
  { s with world := { s.world with errno := l, caller := n } }

/-- A thread's turn, seen from the bare state. -/
private theorem handle_bare {o : Oracle} {j : ImageOracle} (s : Process) (n : Nat) (l : Errno)
    (e : ImageReq) :
    ((threadMachine o fun _ => j).handle (Process.enter n l s) e).1 =
        (Loading.handle o j (inTurn s.bare n l) e).1 ∧
      atDepth ((threadMachine o fun _ => j).handle (Process.enter n l s) e).2.loading 0 =
        atDepth (Loading.handle o j (inTurn s.bare n l) e).2 0 :=
  handle_anyDepth o j (inTurn s.bare n l) s.world.depth e

private theorem bare_of_atDepth {s s' : Process} (h : atDepth s.loading 0 = atDepth s'.loading 0) :
    s.bare = s'.bare ∧ s.world.errno = s'.world.errno := by
  have hbare := congrArg (fun x : Loading => inTurn x 0 0) h
  have herrno := congrArg (fun x : Loading => x.world.errno) h
  exact ⟨hbare, herrno⟩

theorem hides_passing (o : Oracle) (j : ImageOracle) (image : Set Int) :
    (threadMachine o fun _ => j).Hides (passing image) fun s s' => s.bare = s'.bare where
  handle := by
    intro s s' n l e h
    obtain ⟨hanswer, hafter⟩ := handle_bare (o := o) (j := j) s n l e
    obtain ⟨hanswer', hafter'⟩ := handle_bare (o := o) (j := j) s' n l e
    rw [← h] at hanswer' hafter'
    obtain ⟨hbare, herrno⟩ := bare_of_atDepth (hafter.trans hafter'.symm)
    exact ⟨hanswer.trans hanswer'.symm, herrno, hbare⟩
  quiet := by
    intro s s' n l e h he
    cases e with
    | hook e =>
      cases e with
      | lock => exact ⟨rfl, h⟩
      | unlock => exact ⟨rfl, h⟩
      | fdMapFind fd => exact ⟨rfl, h⟩
      | realPresent f => exact ⟨rfl, h⟩
      | _ => cases he
    | _ => cases he

end HookSqfs.Hooks
