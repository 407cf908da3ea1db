import HookSqfs.Hooks.LockDiscipline
import HookSqfs.Interaction.Mutex

/-! Threads that make any calls of the manager, and take turns at every single request: the
mutex keeps what it guards to one of them at a time, and makes none of them wait for ever. -/
namespace HookSqfs.Hooks
open Manager Interaction

/-- `sqfs_lock` and `sqfs_unlock`, and what the manager does only between them. -/
def managerLocking : Locking ImageReq where
  acquires
    | .hook .lock => true
    | _ => false
  releases
    | .hook .unlock => true
    | _ => false
  guarded := guardedLoad

theorem loadDepth_eq : loadDepth = managerLocking.rules := by
  funext e a depth
  cases e with
  | hook e =>
    cases e <;> simp [loadDepth, lockDepth, managerLocking, Locking.rules, Locking.after,
      guardedLoad, show guarded .lock = false from rfl, show guarded .unlock = false from rfl]
  | _ => simp [loadDepth, managerLocking, Locking.rules, Locking.after]

/-- A thread's program: calls of the manager, each made with what the ones before it
returned, and its own use of `errno`. -/
inductive Client (b : Bits) {R : Type} : Loader R → Prop
  | done (r : R) : Client b (.ret r)
  | getErrno {f : Errno → Loader R} (rest : ∀ e, Client b (f e)) :
    Client b (load (.hook .getErrno) >>= f)
  | setErrno {f : Unit → Loader R} (e : Errno) (rest : Client b (f ())) :
    Client b (load (.hook (.setErrno e)) >>= f)
  | call {α : Type} {p : Loader α} {f : α → Loader R} (h : EntryPoint b p)
    (rest : ∀ a, Client b (f a)) : Client b (p >>= f)

theorem Client.tracks {b : Bits} {R : Type} {p : Loader R} (h : Client b p) :
    p.Tracks managerLocking.rules 0 fun _ held => held = 0 := by
  induction h with
  | done r => rfl
  | getErrno rest ih => exact fun e => ⟨0, rfl, ih e⟩
  | setErrno e rest ih => exact fun _ => ⟨0, rfl, ih⟩
  | call h rest ih =>
    rw [← loadDepth_eq] at ih ⊢
    apply (h.tracks 0).bind
    rintro a _ rfl
    exact ih a

/-- The hooks, where no descriptor of `image` is closed. -/
inductive HookCall (b : Bits) (image : Set Int) : {α : Type} → Hook α → Prop
  | open (pathname : Option CString) (flags mode : BitVec 32) :
    HookCall b image (sqfsOpen pathname flags mode)
  | read (fd : Int) (count : BitVec b.width) : HookCall b image (sqfsRead b fd count)
  | pread (fd : Int) (count offset : BitVec b.width) : HookCall b image (sqfsPread b fd count offset)
  | pread64 (fd : Int) (count : BitVec b.width) (offset : BitVec 64) :
    HookCall b image (sqfsPread64 b fd count offset)
  | lseek (fd : Int) (offset : BitVec b.width) (whence : Int) :
    HookCall b image (sqfsLseek b fd offset whence)
  | lseek64 (fd : Int) (offset : BitVec 64) (whence : Int) :
    HookCall b image (sqfsLseek64 fd offset whence)
  | close {fd : Int} (h : fd ∉ image) : HookCall b image (sqfsClose fd)
  | closeNocancel {fd : Int} (h : fd ∉ image) : HookCall b image (sqfsCloseNocancel fd)
  | xstat (ver : Int) (pathname : Option CString) (buf : Option Stat) :
    HookCall b image (sqfsXstat b ver pathname buf)
  | access (pathname : Option CString) (mode : BitVec 32) :
    HookCall b image (sqfsAccess b pathname mode)
  | opendir (name : Option CString) : HookCall b image (sqfsOpendir b name)
  | readdir (dirp : Nat) : HookCall b image (sqfsReaddir dirp)
  | closedir (dir : Nat) : HookCall b image (sqfsClosedir dir)

/-- A thread's calls of the hooks, each with what the ones before it returned. -/
inductive HookClient (b : Bits) (image : Set Int) {R : Type} : Loader R → Prop
  | done (r : R) : HookClient b image (.ret r)
  | getErrno {f : Errno → Loader R} (rest : ∀ e, HookClient b image (f e)) :
    HookClient b image (load (.hook .getErrno) >>= f)
  | setErrno {f : Unit → Loader R} (e : Errno) (rest : HookClient b image (f ())) :
    HookClient b image (load (.hook (.setErrno e)) >>= f)
  | call {α : Type} {p : Hook α} {f : α → Loader R} (h : HookCall b image p)
    (rest : ∀ a, HookClient b image (f a)) : HookClient b image (relay p >>= f)

section
variable {b : Bits} {image : Set Int} {α R : Type}

theorem HookCall.entryPoint {p : Hook α} (h : HookCall b image p) : EntryPoint b (relay p) := by
  cases h with
  | «open» pathname flags mode => exact .open pathname flags mode
  | read fd count => exact .read fd count
  | pread fd count offset => exact .pread fd count offset
  | pread64 fd count offset => exact .pread64 fd count offset
  | lseek fd offset whence => exact .lseek fd offset whence
  | lseek64 fd offset whence => exact .lseek64 fd offset whence
  | close _ => exact .close _
  | closeNocancel _ => exact .closeNocancel _
  | xstat ver pathname buf => exact .xstat ver pathname buf
  | access pathname mode => exact .access pathname mode
  | opendir name => exact .opendir name
  | readdir dirp => exact .readdir dirp
  | closedir dir => exact .closedir dir

theorem HookClient.client {p : Loader R} (h : HookClient b image p) : Client b p := by
  induction h with
  | done r => exact .done r
  | getErrno rest ih => exact .getErrno ih
  | setErrno e rest ih => exact .setErrno e ih
  | call h rest ih => exact .call h.entryPoint ih

end

/-- The process, and how many requests its threads have made: the image may answer each of
them differently. -/
structure Process where
  loading : Loading
  requests : Nat

namespace Process

def world (s : Process) : World := s.loading.world

def handle (o : Oracle) (i : Nat → ImageOracle) : Handler ImageReq ImageAnswer Process :=
  fun s e =>
    ((Loading.handle o (i s.requests) s.loading e).1,
      { loading := (Loading.handle o (i s.requests) s.loading e).2, requests := s.requests + 1 })

def enter (n : Nat) (e : Errno) (s : Process) : Process :=
  { s with loading := { s.loading with world := { s.world with errno := e, caller := n } } }

/-- What the mutex guards. -/
structure Shared where
  mgr : Mgr
  super : Super
  fdMap : List FDMapEntry
  dirMap : List DirMapEntry

def shared (s : Process) : Shared :=
  { mgr := s.world.mgr, super := s.loading.super, fdMap := s.world.fdMap, dirMap := s.world.dirMap }

end Process

/-- The threads of the process, each with an `errno` of its own. -/
def threadMachine (o : Oracle) (i : Nat → ImageOracle) :
    Machine ImageReq ImageAnswer Process Errno where
  handle := Process.handle o i
  enter := Process.enter
  locals s := s.world.errno
  locking := managerLocking

variable {b : Bits} {o : Oracle} {i : Nat → ImageOracle}

private theorem handle_shared (w : World) {e : Req} (h : guarded e = false) :
    (World.handle o w e).2.mgr = w.mgr ∧ (World.handle o w e).2.fdMap = w.fdMap ∧
      (World.handle o w e).2.dirMap = w.dirMap := by
  cases e with
  | getenv v => cases v <;> exact ⟨rfl, rfl, rfl⟩
  | call c => exact ⟨w.afterCall_mgr o c _, w.afterCall_fdMap o c _, w.afterCall_dirMap o c _⟩
  | fdMapAdd entry => cases h
  | fdMapDel key => cases h
  | fdMapSetOffset key offset => cases h
  | dirMapAdd entry => cases h
  | dirMapDel key => cases h
  | dirMapSetList key list => cases h
  | dirMapSetCurrent key current => cases h
  | dirMapSetReachedEnd key => cases h
  | _ => exact ⟨rfl, rfl, rfl⟩

/-- Only guarded requests change what the mutex guards. -/
theorem guards_shared : (threadMachine o i).Guards Process.shared where
  enter n l s := rfl
  handle s e h := by
    cases e with
    | hook e =>
      obtain ⟨hmgr, hfd, hdir⟩ := handle_shared (o := o) s.loading.world h
      have hafter : ((threadMachine o i).handle s (.hook e)).2.shared =
          { mgr := (World.handle o s.loading.world e).2.mgr, super := s.loading.super
            fdMap := (World.handle o s.loading.world e).2.fdMap
            dirMap := (World.handle o s.loading.world e).2.dirMap } := rfl
      rw [hafter, hmgr, hfd, hdir]
      rfl
    | call c =>
      cases c with
      | openFile path =>
        have hopen : ∀ file n, (⟨s.loading.effect (.openFile path) file, n⟩ : Process).shared =
            s.shared := by
          intro file n
          cases file <;> rfl
        exact hopen _ _
      | destroy addr => rfl
      | free addr => rfl
      | _ => cases h
    | _ => cases h
  apart e h := by
    cases e with
    | hook e => cases e <;> first | rfl | cases h
    | _ => rfl

/-- The depth of the lock goes up and down with the requests. -/
private theorem handle_world_depth (s : Process) (e : ImageReq) :
    ((threadMachine o i).handle s e).2.world.depth =
      managerLocking.after e s.world.depth := by
  cases e with
  | hook e =>
    cases e with
    | lock => rfl
    | unlock => rfl
    | _ => exact handle_depth o s.loading.world rfl
  | call c =>
    have heffect : ∀ a : c.Ans, (s.loading.effect c a).world.depth = s.world.depth := by
      intro a
      unfold Loading.effect
      split <;> rfl
    exact heffect _
  | _ => rfl

section pool
variable {R : Type} {threads : List (Thread ImageReq ImageAnswer Errno R)} {s : Process}
  {turns : List (Turn ImageReq ImageAnswer)} {c : Pool ImageReq ImageAnswer Process Errno R}

theorem orderly_clients (hfree : ∀ t ∈ threads, t.held = 0)
    (hclients : ∀ t ∈ threads, Client b t.rest) : Orderly managerLocking threads :=
  .of_free hfree fun t ht => (hclients t ht).tracks

/-- However the requests of the threads are interleaved: one thread at a time holds the lock,
as often as the state says; a thread that is about to use what the lock guards is that one;
and until its own next turn nobody changes it. -/
theorem tables_race_free (hfree : ∀ t ∈ threads, t.held = 0)
    (hclients : ∀ t ∈ threads, Client b t.rest) (hdepth : s.world.depth = 0)
    (hsteps : (threadMachine o i).Steps ⟨s, threads⟩ turns c) :
    (c.threads.Pairwise fun t t' => t.held = 0 ∨ t'.held = 0) ∧
    c.world.world.depth = (c.threads.map Thread.held).sum ∧
    (∀ before t after e k, c.threads = before ++ t :: after → t.rest = .request e k →
      guardedLoad e = true → t.held ≠ 0 ∧ ∀ t' ∈ before ++ after, t'.held = 0) ∧
    ∀ t ∈ c.threads, t.held ≠ 0 → ∀ turns' c', (threadMachine o i).Steps c turns' c' →
      (∀ turn ∈ turns', t.id ≠ turn.id) →
        c'.world.shared = c.world.shared ∧ t ∈ c'.threads := by
  have hstart : Orderly (threadMachine o i).locking (⟨s, threads⟩ : Pool _ _ Process _ _).threads :=
    orderly_clients hfree hclients
  have horder : Orderly (threadMachine o i).locking c.threads := hstart.steps hsteps
  refine ⟨horder.exclusive, ?_, ?_, ?_⟩
  · have hzero : (threads.map Thread.held).sum = 0 := by
      rw [List.sum_eq_zero_iff]
      intro n hn
      obtain ⟨t, ht, rfl⟩ := List.mem_map.mp hn
      exact hfree t ht
    exact hstart.depth_steps (fun s : Process => s.world.depth) (fun _ _ _ => rfl)
      handle_world_depth (hdepth.trans hzero.symm) hsteps
  · intro before t after e k hthreads hrest he
    rw [hthreads] at horder
    exact horder.guarded_alone hrest (guards_shared.apart e he) he s
  · intro t ht hheld turns' c' hsteps' hid
    exact horder.undisturbed guards_shared hsteps' ht hheld hid

end pool

/-- Two threads that read from one descriptor. -/
def twoReaders : List (Thread ImageReq ImageAnswer Errno Unit) :=
  [{ id := 0, locals := 0, held := 0, rest := relay (sqfsRead .b64 3 10) >>= fun _ => .ret () },
    { id := 1, locals := 0, held := 0, rest := relay (sqfsRead .b64 3 20) >>= fun _ => .ret () }]

theorem twoReaders_free : ∀ t ∈ twoReaders, t.held = 0 := by
  simp [twoReaders]

theorem twoReaders_clients : ∀ t ∈ twoReaders, Client .b64 t.rest := by
  simp only [twoReaders, List.mem_cons, List.not_mem_nil, or_false]
  rintro t (rfl | rfl)
  · exact .call (.read 3 10) fun _ => .done ()
  · exact .call (.read 3 20) fun _ => .done ()

/-- The first of them has its turn and takes the lock. -/
theorem twoReaders_locks (o : Oracle) (i : Nat → ImageOracle) (s : Process) :
    ∃ c, (threadMachine o i).Steps ⟨s, twoReaders⟩ [⟨0, .hook .lock, ()⟩] c ∧
      c.threads.map Thread.held = [1, 0] := by
  let lock : ImageReq := .hook .lock
  refine ⟨_, Machine.Steps.nil.snoc (.turn s [] _ 0 0 0 lock _ fun _ => ?_), rfl⟩
  simp

theorem tables_race_free_locked :
    ∃ c, (threadMachine .bare fun _ => .sound).Steps ⟨⟨.blank, 0⟩, twoReaders⟩
        [⟨0, .hook .lock, ()⟩] c ∧
      c.world.world.depth = 1 ∧
      ∀ before t after e k, c.threads = before ++ t :: after → t.rest = .request e k →
        guardedLoad e = true → t.held ≠ 0 ∧ ∀ t' ∈ before ++ after, t'.held = 0 := by
  obtain ⟨c, hsteps, hheld⟩ := twoReaders_locks .bare (fun _ => .sound) ⟨.blank, 0⟩
  obtain ⟨-, hdepth, halone, -⟩ :=
    tables_race_free (b := .b64) twoReaders_free twoReaders_clients rfl hsteps
  rw [hheld] at hdepth
  exact ⟨c, hsteps, hdepth, halone⟩

/-- A reader of the file, and a thread that asks for the access to another one. -/
def readerAndAccess : List (Thread ImageReq ImageAnswer Errno Unit) :=
  [{ id := 0, locals := 0, held := 0, rest := relay (sqfsRead .b64 3 10) >>= fun _ => .ret () },
    { id := 1, locals := 0, held := 0
      rest := relay (sqfsAccess .b64 (some hookFile) 4) >>= fun _ => .ret () }]

theorem readerAndAccess_free : ∀ t ∈ readerAndAccess, t.held = 0 := by
  simp [readerAndAccess]

theorem readerAndAccess_clients : ∀ t ∈ readerAndAccess, HookClient .b64 {9} t.rest := by
  simp only [readerAndAccess, List.mem_cons, List.not_mem_nil, or_false]
  rintro t (rfl | rfl)
  · exact .call (.read 3 10) fun _ => .done ()
  · exact .call (.access (some hookFile) 4) fun _ => .done ()

/-- The reader has its section while the other asks the real access. -/
theorem readerAndAccess_section :
    ∃ turns c, (threadMachine .bare fun _ => .sound).Steps ⟨⟨.blank, 0⟩, readerAndAccess⟩ turns c ∧
      turns.map (fun turn => (turn.id, turn.request)) =
        [(0, .hook .lock), (1, .hook (.call (.access (some hookFile) 4))),
          (0, .hook (.fdMapFind 3)), (0, .hook .unlock)] ∧
      ∀ t ∈ c.threads, t.held = 0 := by
  let lock : ImageReq := .hook .lock
  let access : ImageReq := .hook (.call (.access (some hookFile) 4))
  let find : ImageReq := .hook (.fdMapFind 3)
  let unlock : ImageReq := .hook .unlock
  refine ⟨_, _, (((Machine.Steps.nil.snoc (.turn _ [] [_] 0 0 0 lock _ fun _ => ?_)).snoc
    (.turn _ [_] [] 1 0 0 access _ fun h => by cases h)).snoc
    (.turn _ [] [_] 0 _ 1 find _ fun _ => ?_)).snoc
    (.turn _ [] [_] 0 _ 1 unlock _ fun _ => ?_), rfl, ?_⟩
  all_goals simp [threadMachine, managerLocking, Locking.after, unlock, access]

end HookSqfs.Hooks
