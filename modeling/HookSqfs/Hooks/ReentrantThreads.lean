import HookSqfs.Hooks.Definedness
import HookSqfs.Hooks.ImageDescriptors
import HookSqfs.Hooks.Reentry

/-! Threads whose hooks are called again from inside libsquashfs: that makes no difference to
what any of them is answered, and none of them waits for ever. -/
namespace HookSqfs.Hooks
open Manager Interaction Program

section
variable {b : Bits} {image : Set Int} {α R : Type}

theorem HookCall.respects {p : Hook α} (h : HookCall b image p) :
    Respects image p fun _ => True := by
  cases h with
  | «open» pathname flags mode => exact sqfsOpen_respects pathname flags mode
  | read fd count => exact .of_makes (sqfsRead_keepsFds fd count)
  | pread fd count offset => exact .of_makes (sqfsPread_keepsFds fd count offset)
  | pread64 fd count offset => exact .of_makes (sqfsPread64_keepsFds fd count offset)
  | lseek fd offset whence => exact .of_makes (sqfsLseek_keepsFds fd offset whence)
  | lseek64 fd offset whence => exact .of_makes (sqfsLseek64_keepsFds fd offset whence)
  | close h => exact sqfsClose_respects h
  | closeNocancel h => exact sqfsCloseNocancel_respects h
  | xstat ver pathname buf => exact .of_makes (sqfsXstat_keepsFds ver pathname buf)
  | access pathname mode => exact .of_makes (sqfsAccess_keepsFds pathname mode)
  | opendir name => exact .of_makes (sqfsOpendir_keepsFds name)
  | readdir dirp => exact .of_makes (sqfsReaddir_keepsFds dirp)
  | closedir dir => exact .of_makes (sqfsClosedir_keepsFds dir)

/-- A program with nested calls spares the descriptors of the image if it does without. -/
abbrev RespectsLoad (image : Set Int) (p : Loader α) : Prop :=
  ∀ n, p.Meets managerLocking (sparing image) n () fun _ _ _ => True

theorem HookClient.respects {p : Loader R} (h : HookClient b image p) : RespectsLoad image p := by
  induction h with
  | done r => exact fun _ => trivial
  | getErrno rest ih => exact fun n => ⟨trivial, fun e _ _ => ih e n⟩
  | setErrno e rest ih => exact fun n => ⟨trivial, fun _ _ _ => ih n⟩
  | call h rest ih => exact fun n => (h.respects n).bind fun a n' _ _ => ih a n'

theorem LibraryCall.entryPoint (l : LibraryCall b) : EntryPoint b (relay l.hooked) := by
  cases l with
  | read fd count => exact .read fd count
  | pread fd count offset => exact .pread fd count offset
  | pread64 fd count offset => exact .pread64 fd count offset
  | lseek fd offset whence => exact .lseek fd offset whence
  | lseek64 fd offset whence => exact .lseek64 fd offset whence

private theorem hooked_respects (l : LibraryCall b) : Respects image l.hooked fun _ => True := by
  cases l with
  | read fd count => exact .of_makes (sqfsRead_keepsFds fd count)
  | pread fd count offset => exact .of_makes (sqfsPread_keepsFds fd count offset)
  | pread64 fd count offset => exact .of_makes (sqfsPread64_keepsFds fd count offset)
  | lseek fd offset whence => exact .of_makes (sqfsLseek_keepsFds fd offset whence)
  | lseek64 fd offset whence => exact .of_makes (sqfsLseek64_keepsFds fd offset whence)

section nested
variable {libc : (l : LibraryCall b) → Loader l.Ans}

private theorem library_respects (hlibc : ∀ l, RespectsLoad image (libc l))
    (p : Program (LibraryCall b) LibraryCall.Ans α) : RespectsLoad image (p.interpret libc) := by
  induction p with
  | ret a => exact fun _ => trivial
  | undefined => exact fun _ => trivial
  | request l k ih => exact fun n => (hlibc l n).bind fun a n' _ _ => ih a n'

private theorem meets_anyDepth {p : Loader α} {n m : Nat}
    (h : p.Meets managerLocking (sparing image) n () fun _ _ _ => True) :
    p.Meets managerLocking (sparing image) m () fun _ _ _ => True := by
  induction p generalizing n m with
  | ret a => trivial
  | undefined => trivial
  | request e k ih => exact ⟨h.1, fun a g' ha => ih a (h.2 a g' ha)⟩

theorem RespectsLoad.reentering (hlibc : ∀ l, RespectsLoad image (libc l)) {p : Loader α}
    (h : RespectsLoad image p) (lib : Library b) : RespectsLoad image (reentering libc lib p) := by
  induction p with
  | ret a => exact fun _ => trivial
  | undefined => exact fun _ => trivial
  | request e k ih =>
    have hrest : ∀ n a, (sparing image).answers n () e a () →
        RespectsLoad image (Hooks.reentering libc lib (k a)) := by
      intro n a ha
      exact ih a fun m => meets_anyDepth ((h n).2 a () ha)
    have hplain : ∀ n, (load e >>= fun a => Hooks.reentering libc lib (k a)).Meets
        managerLocking (sparing image) n () fun _ _ _ => True :=
      fun n => ⟨(h n).1, fun a _ ha => hrest n a ha _⟩
    cases e with
    | hook e =>
      cases e with
      | call c =>
        intro n
        change (nested libc lib c >>= fun a => Hooks.reentering libc lib (k a)).Meets managerLocking
          (sparing image) n () _
        unfold nested
        split
        · rw [bind_assoc']
          exact (library_respects hlibc (lib c) n).bind fun _ n' _ _ => hplain n'
        · exact hplain n
      | _ => exact hplain
    | _ => exact hplain

/-- It takes and gives back the lock, whatever depth it is at. -/
abbrev KeepsLock (p : Loader α) : Prop :=
  ∀ held, p.Tracks managerLocking.rules held fun _ held' => held' = held

private theorem library_tracks (hlibc : ∀ l, KeepsLock (libc l))
    (p : Program (LibraryCall b) LibraryCall.Ans α) : KeepsLock (p.interpret libc) := by
  intro held
  induction p with
  | ret a => rfl
  | undefined => trivial
  | request l k ih =>
    apply (hlibc l held).bind
    rintro a _ rfl
    exact ih a

theorem tracks_reentering (hlibc : ∀ l, KeepsLock (libc l)) {p : Loader α} (lib : Library b)
    {held : Nat} {Q : α → Nat → Prop} (h : p.Tracks managerLocking.rules held Q) :
    (reentering libc lib p).Tracks managerLocking.rules held Q := by
  refine Tracks.interpret (fun e held he => ?_) h
  have hload : (load e).Tracks managerLocking.rules held
      fun a held' => managerLocking.rules e a held = some held' := by
    intro a
    obtain ⟨held', hheld⟩ := he a
    exact ⟨held', hheld, hheld⟩
  cases e with
  | hook e =>
    cases e with
    | call c =>
      change (nested libc lib c).Tracks _ _ _
      unfold nested
      split
      · apply (library_tracks hlibc (lib c) held).bind
        rintro _ _ rfl
        exact hload
      · exact hload
    | _ => exact hload
  | _ => exact hload

end nested

/-! The hooks that the library calls, at any depth. -/

private theorem hooksAt_respects (lib : Library b) (depth : Nat) (l : LibraryCall b) :
    RespectsLoad image (hooksAt lib depth l) := by
  induction depth generalizing l with
  | zero => exact hooked_respects l
  | succ depth ih => exact RespectsLoad.reentering ih (hooked_respects l) lib

private theorem hooksAt_keepsLock (lib : Library b) (depth : Nat) (l : LibraryCall b) :
    KeepsLock (hooksAt lib depth l) := by
  have hhooked : ∀ l : LibraryCall b, KeepsLock (relay l.hooked) := fun l held =>
    loadDepth_eq ▸ l.entryPoint.tracks held
  induction depth generalizing l with
  | zero => exact hhooked l
  | succ depth ih => exact fun held => tracks_reentering ih lib (hhooked l held)

end

/-- The thread, with nested calls. -/
def reenters {b : Bits} {R : Type} (libc : (l : LibraryCall b) → Loader l.Ans) (lib : Library b)
    (t : Thread ImageReq ImageAnswer Errno R) : Thread ImageReq ImageAnswer Errno R :=
  { t with rest := reentering libc lib t.rest }

section pool
variable {b : Bits} {image : Set Int} {lib : Library b} {depth : Nat} {o : Oracle}
  {i : Nat → ImageOracle} {j : ImageOracle} {R : Type}
  {threads : List (Thread ImageReq ImageAnswer Errno R)} {s : Process}
  {turns : List (Turn ImageReq ImageAnswer)} {c : Pool ImageReq ImageAnswer Process Errno R}

private theorem orderly_reentering (hfree : ∀ t ∈ threads, t.held = 0)
    (hclients : ∀ t ∈ threads, HookClient b image t.rest) :
    Orderly managerLocking (threads.map (reenters (hooksAt lib depth) lib)) := by
  refine .of_free ?_ ?_
  · rw [List.forall_mem_map]
    exact hfree
  · rw [List.forall_mem_map]
    exact fun t ht => tracks_reentering (hooksAt_keepsLock lib depth) lib (hclients t ht).client.tracks

/-- On the way to a real function, the lookup of a descriptor of the image misses. -/
private theorem answers_passing (hfree : ∀ t ∈ threads, t.held = 0)
    (hclients : ∀ t ∈ threads, HookClient b image t.rest) (himage : ImageOpen image s.world)
    (hsteps : (threadMachine o i).Steps ⟨s, threads.map (reenters (hooksAt lib depth) lib)⟩ turns c) :
    ∀ turn ∈ turns, onTheWay turn.request = true →
      (passing image).answers turn.request turn.answer := by
  have hstart : (threadMachine o i).Kept (sparing image) (fun s _ => ImageOpen image s.world)
      (fun _ _ _ => True) ⟨s, threads.map (reenters (hooksAt lib depth) lib)⟩
      (threads.map fun _ => (0, ())) := by
    refine ⟨himage, ?_⟩
    rw [List.forall₂_map_left_iff, List.forall₂_map_right_iff, List.forall₂_same]
    exact fun t ht =>
      ⟨hfree t ht, (hclients t ht).respects.reentering (hooksAt_respects lib depth) lib 0⟩
  induction hsteps with
  | nil => simp
  | snoc hsteps hstep ih =>
    rw [List.forall_mem_append, List.forall_mem_singleton]
    refine ⟨ih, ?_⟩
    obtain ⟨xs, hkept⟩ :=
      (orderly_reentering hfree hclients).kept sparing_upheld hstart hsteps fun _ _ => trivial
    cases hstep with
    | turn w before after id l held e k free =>
      have hopen : ImageOpen image w.world := hkept.inv
      intro he
      cases e with
      | hook e =>
        cases e with
        | fdMapFind fd =>
          intro hfd
          change (Tables.lookup FDMapEntry.key fd w.world.fdMap).isSome = false
          rw [Tables.lookup_eq_none.mpr (hopen.unmapped fd hfd)]
          rfl
        | realPresent f =>
          cases f with
          | pread64 => exact hopen.present.1
          | lseek64 => exact hopen.present.2
          | _ => trivial
        | _ => trivial
      | _ => trivial

/-- However the threads are interleaved, that libsquashfs reads the image through the hooks
makes no difference: but for what the hooks ask on their way to the real functions, each run is
one in which it calls these itself. All other requests are answered the same in the same order,
and each thread returns the same. -/
theorem reentry_transparent (hfree : ∀ t ∈ threads, t.held = 0)
    (hclients : ∀ t ∈ threads, HookClient b image t.rest)
    (hlib : ∀ c, (lib c).All fun l => l.fd ∈ image) (himage : ImageOpen image s.world)
    (hsteps : (threadMachine o fun _ => j).Steps
      ⟨s, threads.map (reenters (hooksAt lib depth) lib)⟩ turns c) :
    ∃ turns' d, (threadMachine o fun _ => j).Steps
        ⟨s, threads.map (reenters realCalls lib)⟩ turns' d ∧
      turns'.Sublist turns ∧
      (turns'.filter fun turn => !onTheWay turn.request) =
        turns.filter (fun turn => !onTheWay turn.request) ∧
      c.world.bare = d.world.bare ∧
      List.Forall₂ (fun t u => t.id = u.id ∧ t.locals = u.locals ∧
        ∀ r, t.rest = .ret r → u.rest = .ret r) c.threads d.threads := by
  have hstart : Pool.Elided managerLocking (passing image) (fun s s' : Process => s.bare = s'.bare)
      ⟨s, threads.map (reenters (hooksAt lib depth) lib)⟩
      ⟨s, threads.map (reenters realCalls lib)⟩ := by
    refine ⟨rfl, ?_⟩
    rw [List.forall₂_map_left_iff, List.forall₂_map_right_iff, List.forall₂_same]
    exact fun t _ => ⟨rfl, rfl, 0, rfl, elides_reentering hlib depth t.rest⟩
  obtain ⟨turns', d, hsteps', helided, hsub, hsame⟩ := hstart.steps (hides_passing o j image) hsteps
    (answers_passing hfree hclients himage hsteps)
  exact ⟨turns', d, hsteps', hsub, hsame, helided.world, helided.returned⟩

/-- A thread that is called again while it holds the lock waits for ever where
`sqfs_mutex_init_once` could not make the mutex recursive, and only there. -/
theorem reentry_waits_iff (attrInit attrSettype : Bool) (hfree : ∀ t ∈ threads, t.held = 0)
    (hclients : ∀ t ∈ threads, HookClient b image t.rest)
    (hsteps : (threadMachine o i).StepsOf (sqfsMutexInitOnce attrInit attrSettype)
      ⟨s, threads.map (reenters (hooksAt lib depth) lib)⟩ turns c)
    {t : Thread ImageReq ImageAnswer Errno R} (ht : t ∈ c.threads) (hheld : t.held ≠ 0)
    {k : Unit → Loader R} (hrest : t.rest = .request (.hook .lock) k) :
    (∀ turns' c', (threadMachine o i).StepsOf (sqfsMutexInitOnce attrInit attrSettype) c turns' c' →
      t ∈ c'.threads) ↔ ¬ (attrInit = true ∧ attrSettype = true) := by
  have horder : Orderly (threadMachine o i).locking c.threads :=
    (orderly_reentering hfree hclients).steps hsteps.steps
  have hkind : sqfsMutexInitOnce attrInit attrSettype = false ↔
      ¬ (attrInit = true ∧ attrSettype = true) := by
    rw [← sqfsMutexInitOnce_iff, Bool.not_eq_true]
  exact (horder.holder_waits_iff ht hheld hrest rfl _).trans hkind

end pool

/-- One descriptor of the image, which itself is read by the descriptor 9. -/
def imageAtNine : Process :=
  let entry : FDMapEntry := { addr := 10, key := 3, inode := { addr := 11, inode := default }, offset := 0 }
  let world : World :=
    { Loading.blank.world with
      fdMap := [entry], fds := fun fd => if fd = 9 then some .image else some (.backing 0) }
  { loading := { Loading.blank with world }, requests := 0 }

theorem imageAtNine_open : ImageOpen {9} imageAtNine.world where
  opened fd hfd := by
    rw [Set.mem_singleton_iff.mp hfd]
    rfl
  unmapped fd hfd := by
    rw [Set.mem_singleton_iff.mp hfd]
    decide
  present := ⟨rfl, rfl⟩

/-- Each call into the library reads one block. -/
def oneBlock (fd : Int) : Library .b64 := fun _ => .request (.read fd 16) fun _ => .ret ()

theorem oneBlock_all {fd : Int} {q : LibraryCall .b64 → Prop} (h : q (.read fd 16)) (c : Ext) :
    (oneBlock fd c).All q := ⟨h, fun _ => trivial⟩

def oneReader : List (Thread ImageReq ImageAnswer Errno ReadResult) :=
  [{ id := 0, locals := 0, held := 0, rest := relay (sqfsRead .b64 3 10) >>= .ret }]

theorem oneReader_free : ∀ t ∈ oneReader, t.held = 0 := by
  simp [oneReader]

theorem oneReader_clients : ∀ t ∈ oneReader, HookClient .b64 {9} t.rest := by
  simp only [oneReader, List.mem_singleton]
  rintro t rfl
  exact .call (.read 3 10) fun r => .done r

/-- The library reads its block by the hook, which takes the lock again and passes on. -/
private theorem reader_passes :
    ∃ turns c, (threadMachine .bare fun _ => .sound).Steps
        ⟨imageAtNine, readerAndAccess.map (reenters (hooksAt (oneBlock 9) 1) (oneBlock 9))⟩ turns c ∧
      turns.map (fun turn => (turn.id, turn.request)) =
        [(0, .hook .lock), (1, .hook (.call (.access (some hookFile) 4))), (0, .hook (.fdMapFind 3)),
          (0, .hook (.fdMapEntry 3)), (0, .hook .lock), (0, .hook (.fdMapFind 9)), (0, .hook .unlock),
          (0, .hook (.call (.read 9 16)))] ∧
      (turns.filter fun turn => !onTheWay turn.request).map (fun turn => (turn.id, turn.request)) =
        [(1, .hook (.call (.access (some hookFile) 4))), (0, .hook (.fdMapEntry 3)),
          (0, .hook (.call (.read 9 16)))] := by
  let lock : ImageReq := .hook .lock
  let access : ImageReq := .hook (.call (.access (some hookFile) 4))
  let find : ImageReq := .hook (.fdMapFind 3)
  let entry : ImageReq := .hook (.fdMapEntry 3)
  let findImage : ImageReq := .hook (.fdMapFind 9)
  let unlock : ImageReq := .hook .unlock
  let read : ImageReq := .hook (.call (.read 9 16))
  refine ⟨_, _, (((((((Machine.Steps.nil.snoc (.turn _ [] [_] 0 0 0 lock _ fun _ => ?_)).snoc
    (.turn _ [_] [] 1 0 0 access _ fun h => by cases h)).snoc (.turn _ [] [_] 0 _ 1 find _ fun _ => ?_)).snoc
    (.turn _ [] [_] 0 _ 1 entry _ fun _ => ?_)).snoc (.turn _ [] [_] 0 _ 1 lock _ fun _ => ?_)).snoc
    (.turn _ [] [_] 0 _ 2 findImage _ fun _ => ?_)).snoc (.turn _ [] [_] 0 _ 2 unlock _ fun _ => ?_)).snoc
    (.turn _ [] [_] 0 _ 1 read _ fun _ => ?_), rfl, rfl⟩
  all_goals exact List.forall_mem_singleton.mpr rfl

/-- With the real functions the same is read, and the lock is not taken again. -/
theorem reentry_transparent_reader :
    ∃ turns c turns' d, (threadMachine .bare fun _ => .sound).Steps
        ⟨imageAtNine, readerAndAccess.map (reenters (hooksAt (oneBlock 9) 1) (oneBlock 9))⟩ turns c ∧
      (threadMachine .bare fun _ => .sound).Steps
        ⟨imageAtNine, readerAndAccess.map (reenters realCalls (oneBlock 9))⟩ turns' d ∧
      turns.map (fun turn => (turn.id, turn.request)) =
        [(0, .hook .lock), (1, .hook (.call (.access (some hookFile) 4))), (0, .hook (.fdMapFind 3)),
          (0, .hook (.fdMapEntry 3)), (0, .hook .lock), (0, .hook (.fdMapFind 9)), (0, .hook .unlock),
          (0, .hook (.call (.read 9 16)))] ∧
      turns'.Sublist turns ∧
      (turns'.filter fun turn => !onTheWay turn.request).map (fun turn => (turn.id, turn.request)) =
        [(1, .hook (.call (.access (some hookFile) 4))), (0, .hook (.fdMapEntry 3)),
          (0, .hook (.call (.read 9 16)))] := by
  obtain ⟨turns, c, hsteps, hturns, hfilter⟩ := reader_passes
  obtain ⟨turns', d, hsteps', hsub, hsame, -⟩ := reentry_transparent readerAndAccess_free
    readerAndAccess_clients (oneBlock_all rfl) imageAtNine_open hsteps
  exact ⟨turns, c, turns', d, hsteps, hsteps', hturns, hsub, hsame ▸ hfilter⟩

/-- The reader is in its section and about to take the lock again. -/
private theorem oneReader_reenters (recursive : Bool) :
    ∃ turns c, (threadMachine .bare fun _ => .sound).StepsOf recursive
        ⟨imageAtNine, oneReader.map (reenters (hooksAt (oneBlock 9) 0) (oneBlock 9))⟩ turns c ∧
      ∃ t ∈ c.threads, t.held ≠ 0 ∧ ∃ k, t.rest = .request (.hook .lock) k := by
  let lock : ImageReq := .hook .lock
  let find : ImageReq := .hook (.fdMapFind 3)
  let entry : ImageReq := .hook (.fdMapEntry 3)
  refine ⟨_, _, ((Machine.StepsOf.nil.snoc (.turn _ [] [] 0 0 0 lock _ fun _ => ?_) ?_).snoc
    (.turn _ [] [] 0 _ 1 find _ fun _ => ?_) ?_).snoc (.turn _ [] [] 0 _ 1 entry _ fun _ => ?_) ?_,
    _, List.mem_cons_self, one_ne_zero, _, rfl⟩
  · simp
  · simp
  · simp
  · simp [threadMachine, managerLocking, find]
  · simp
  · simp [threadMachine, managerLocking, entry]

/-- Where the attributes could not be set, the reader hangs. -/
theorem reentry_waits_iff_reader :
    ∃ turns c, (threadMachine .bare fun _ => .sound).StepsOf (sqfsMutexInitOnce true false)
        ⟨imageAtNine, oneReader.map (reenters (hooksAt (oneBlock 9) 0) (oneBlock 9))⟩ turns c ∧
      ∃ t ∈ c.threads, ∀ turns' c', (threadMachine .bare fun _ => .sound).StepsOf
        (sqfsMutexInitOnce true false) c turns' c' → t ∈ c'.threads := by
  obtain ⟨turns, c, hsteps, t, ht, hheld, k, hrest⟩ :=
    oneReader_reenters (sqfsMutexInitOnce true false)
  exact ⟨turns, c, hsteps, t, ht, (reentry_waits_iff true false oneReader_free oneReader_clients
    hsteps ht hheld hrest).mpr (by decide)⟩

end HookSqfs.Hooks
