import HookSqfs.Clients.SharedReaders
import HookSqfs.Manager.ImageLoading

/-! The concurrent test as a whole: whatever the schedule, it passes. -/
namespace HookSqfs.Clients
open Manager Hooks Interaction

section
variable {b : Bits}

private theorem closeKeepingErrno_balanced (fd : Int) : Balanced (closeKeepingErrno fd) :=
  .request rfl rfl fun _ => (sqfsClose_balanced fd).bind fun _ => .request rfl rfl fun _ => .ret ()

private theorem callPreadVariant_balanced (fd : Int) (count offset : Nat) (usePread64 : Bool) :
    Balanced (callPreadVariant b fd count offset usePread64) :=
  .ite (sqfsPread64_balanced _ _ _) (sqfsPread_balanced _ _ _)

theorem getPathSize_balanced (path : CString) : Balanced (getPathSize b path) := by
  refine (sqfsOpen_balanced _ _ _).bind fun fd => .ite (.ret _) ((sqfsLseek_balanced _ _ _).bind ?_)
  intro size
  refine .request rfl rfl fun savedErrno => (sqfsClose_balanced fd).bind fun closed => ?_
  exact .ite (.ret _) (.ite (.request rfl rfl fun _ => .ret _) (.ret _))

private theorem hashPrefixLoop_balanced (fd : Int) (prefixSize total : Nat) (hash : BitVec 64) :
    Balanced (hashPrefixLoop b fd prefixSize total hash) := by
  induction hleft : prefixSize - total using Nat.strong_induction_on generalizing total hash with
  | _ left ih =>
    rw [hashPrefixLoop]
    by_cases hmore : total < prefixSize
    · rw [if_pos hmore]
      refine (sqfsRead_balanced fd _).bind fun got => ?_
      by_cases hneg : got.ret < 0
      · rw [if_pos hneg]
        exact (closeKeepingErrno_balanced fd).bind fun _ => .ret none
      rw [if_neg hneg]
      by_cases hzero : got.ret = 0
      · rw [if_pos hzero]
        exact .ret _
      rw [if_neg hzero]
      refine .ite ?_ fun _ => trivial
      exact ih _ (by omega) _ _ rfl
    · rw [if_neg hmore]
      exact .ret _

theorem hashPrefixWithRead_balanced (path : CString) (prefixSize : Nat) :
    Balanced (hashPrefixWithRead b path prefixSize) := by
  refine (sqfsOpen_balanced _ _ _).bind fun fd =>
    .ite (.ret _) ((hashPrefixLoop_balanced fd _ _ _).bind fun read => ?_)
  cases read with
  | none => exact .ret none
  | some read =>
    refine (sqfsClose_balanced fd).bind fun closed => .ite (.ret none) ?_
    exact .ite (.request rfl rfl fun _ => .ret none) (.ret _)

private theorem sampleLoop_balanced (fd : Int) (usePread64 : Bool) (offset want done : Nat)
    (buf : List Byte) : Balanced (sampleLoop b fd usePread64 offset want done buf) := by
  induction hleft : want - done using Nat.strong_induction_on generalizing done buf with
  | _ left ih =>
    rw [sampleLoop]
    by_cases hmore : done < want
    · rw [if_pos hmore]
      refine (callPreadVariant_balanced fd _ _ usePread64).bind fun got => ?_
      by_cases hneg : got.ret < 0
      · rw [if_pos hneg]
        exact (closeKeepingErrno_balanced fd).bind fun _ => .ret none
      rw [if_neg hneg]
      by_cases hzero : got.ret = 0
      · rw [if_pos hzero]
        exact (sqfsClose_balanced fd).bind fun _ => .request rfl rfl fun _ => .ret none
      rw [if_neg hzero]
      refine .ite ?_ fun _ => trivial
      exact ih _ (by omega) _ _ rfl
    · rw [if_neg hmore]
      exact .ret _

private theorem hashSamplesLoop_balanced (fd size : Int) (usePread64 : Bool) (samples : List Nat)
    (hash : BitVec 64) : Balanced (hashSamplesLoop b fd size usePread64 samples hash) := by
  induction samples generalizing hash with
  | nil => exact .ret _
  | cons i samples ih =>
    refine .ite (.ret _) ((sampleLoop_balanced fd usePread64 _ _ _ _).bind fun sample => ?_)
    cases sample with
    | none => exact .ret none
    | some buf => exact ih _

theorem hashSamplesWithPread_balanced (path : CString) (size : Int) (usePread64 : Bool) :
    Balanced (hashSamplesWithPread b path size usePread64) := by
  refine (sqfsOpen_balanced _ _ _).bind fun fd =>
    .ite (.ret _) ((hashSamplesLoop_balanced fd size usePread64 _ _).bind fun hash => ?_)
  cases hash with
  | none => exact .ret none
  | some hash => exact (sqfsClose_balanced fd).bind fun closed => .ite (.ret none) (.ret _)

private theorem probeCompare_balanced (fd : Int) (viaRead viaPread : List Byte) :
    Balanced (probeCompare fd viaRead viaPread) :=
  (sqfsClose_balanced fd).bind fun _ => .ite (.ret _) (.ite (.request rfl rfl fun _ => .ret _) (.ret _))

private theorem probeReads_balanced (fd : Int) (offset want : Nat) :
    Balanced (probeReads b fd offset want) := by
  have hfail : Balanced (do closeKeepingErrno fd; return (-1 : Int)) :=
    (closeKeepingErrno_balanced fd).bind fun _ => .ret (-1)
  refine (sqfsRead_balanced fd _).bind fun gotRead => .ite hfail (.ite (fun _ => trivial) ?_)
  refine (callPreadVariant_balanced fd _ _ _).bind fun gotPread => .ite hfail (.ite (fun _ => trivial) ?_)
  exact probeCompare_balanced fd _ _

theorem probeLseek_balanced (cfg : TestConfig) : Balanced (probeLseek b cfg) := by
  refine .ite (.ret 0) ((sqfsOpen_balanced _ _ _).bind fun fd => .ite (.ret (-1)) ?_)
  refine (sqfsLseek_balanced fd _ _).bind fun sought => .ite ?_ (probeReads_balanced fd _ _)
  exact (closeKeepingErrno_balanced fd).bind fun _ => .ret (-1)

theorem probeXstatAccess_balanced (cfg : TestConfig) (st : Stat) :
    Balanced (probeXstatAccess b cfg st) := by
  refine (sqfsXstat_balanced b _ _ _).bind fun stat => .ite (.ret (-1)) (.ite ?_ ?_)
  · exact .request rfl rfl fun _ => .ret (-1)
  · exact (sqfsAccess_balanced b _ _).bind fun granted => .ite (.ret (-1)) (.ret 0)

theorem workerMain_balanced (cfg : TestConfig) (st : Stat) : Balanced (workerMain b cfg st) := by
  suffices h : ∀ left errors, Balanced (workerLoop b cfg st left errors) from h _ _
  intro left
  induction left with
  | zero => exact fun errors => .ret errors
  | succ left ih =>
    intro errors
    have hiteration : ∀ i, Balanced (workerIteration b cfg st i) := fun i =>
      (hashPrefixWithRead_balanced _ _).bind fun _ => (hashSamplesWithPread_balanced _ _ _).bind fun _ =>
        (probeLseek_balanced cfg).bind fun _ => (probeXstatAccess_balanced cfg st).bind fun _ => .ret _
    exact (hiteration _).bind fun found => ih _

theorem baseline_balanced (path : CString) (iterations : Nat) :
    Balanced (baseline b path iterations) := by
  refine (getPathSize_balanced path).bind fun size => ?_
  cases size with
  | none => exact .ret none
  | some size =>
    refine (hashPrefixWithRead_balanced path _).bind fun prefixHash => ?_
    cases prefixHash with
    | none => exact .ret none
    | some prefixHash =>
      refine (hashSamplesWithPread_balanced path size true).bind fun sampleHash => ?_
      cases sampleHash with
      | none => exact .ret none
      | some sampleHash => exact .ret _

theorem sharedReadOpen_balanced (path : CString) : Balanced (sharedReadOpen b path) := by
  refine (sqfsOpen_balanced _ _ _).bind fun fd => .ite (.ret none) ?_
  refine (sqfsLseek_balanced fd _ _).bind fun sought => .ite ?_ (.ret _)
  exact (closeKeepingErrno_balanced fd).bind fun _ => .ret none

theorem sharedReadMain_balanced (fd : Int) (fuel total : Nat) :
    Balanced (sharedReadMain b fd fuel total) := by
  induction fuel generalizing total with
  | zero => exact .ret none
  | succ fuel ih =>
    refine (sqfsRead_balanced fd _).bind fun got => .ite (.ret _) (.ite (.ret _) (.ite ?_ ?_))
    · exact ih _
    · exact fun _ => trivial

theorem sharedReadClose_balanced (cfg : TestConfig) (fd : Int) (total errors : Nat) :
    Balanced (sharedReadClose cfg fd total errors) :=
  (sqfsClose_balanced fd).bind fun _ => .ite (.ret (-1)) (.ite (.request rfl rfl fun _ => .ret (-1)) (.ret 0))

end

section
variable {o : Oracle} {i : Nat → ImageOracle} {R G : Type}

/-- Threads that are about to begin. -/
def start (programs : List (Hook R)) : List (Thread ImageReq ImageAnswer Errno R) :=
  programs.mapIdx fun n p => { id := n, locals := 0, held := 0, rest := relay p }

/-- They have had their turns and nothing was refused, and nobody can have another turn. -/
structure Phase (o : Oracle) (i : Nat → ImageOracle) (s : Process) (programs : List (Hook R))
    (c : Pool ImageReq ImageAnswer Process Errno R) : Prop where
  run : ∃ turns, (threadMachine o i).Steps ⟨s, start programs⟩ turns c ∧
    ∀ turn ∈ turns, NotRefusedLoad turn.request turn.answer
  rest : ∀ turn c', ¬ (threadMachine o i).Step c turn c'

/-- What the threads returned. -/
def Returned (c : Pool ImageReq ImageAnswer Process Errno R) (rs : List R) : Prop :=
  c.threads.map Thread.rest = rs.map .ret

theorem Returned.of_forall₂ {c : Pool ImageReq ImageAnswer Process Errno R} {X : Type} {xs : List X}
    {f : X → R} {P : R → X → Prop} (h : List.Forall₂ (fun t x => ∃ r, t.rest = .ret r ∧ P r x) c.threads xs)
    (hP : ∀ r x, P r x → r = f x) : Returned c (xs.map f) := by
  unfold Returned
  generalize c.threads = threads at h
  induction h with
  | nil => rfl
  | cons ht _ ih =>
    obtain ⟨r, hr, hp⟩ := ht
    rw [List.map_cons, List.map_cons, List.map_cons, ih, hr, hP r _ hp]

variable {s : Process} {programs : List (Hook R)} {c : Pool ImageReq ImageAnswer Process Errno R}

/-- Threads that each meet the contract all return, and keep what it stands for. -/
theorem Phase.finished {C : Contract ImageReq ImageAnswer G} {inv : Process → List (Nat × G) → Prop}
    {Q : R → Nat → G → Prop} (h : Phase o i s programs c) (hbalanced : ∀ p ∈ programs, Balanced p)
    (hM : (threadMachine o i).Upholds C NotRefusedLoad inv) (hC : ¬ C.undefined) (g : G)
    (hmeets : ∀ p ∈ programs, (relay p).Meets managerLocking C 0 g Q)
    (hinv : inv s ((start programs).map fun _ => (0, g))) :
    ∃ xs, xs.length = programs.length ∧ inv c.world xs ∧
      List.Forall₂ (fun t x => ∃ r, t.rest = .ret r ∧ Q r x.1 x.2) c.threads xs := by
  have hthreads : ∀ t ∈ start programs, t.held = 0 ∧ ∃ p ∈ programs, t.rest = relay p := by
    intro t ht
    obtain ⟨n, hn, rfl⟩ := List.mem_mapIdx.mp ht
    exact ⟨rfl, _, List.getElem_mem hn, rfl⟩
  have horder : Orderly (threadMachine o i).locking (⟨s, start programs⟩ : Pool _ _ Process _ _).threads := by
    refine .of_free (fun t ht => (hthreads t ht).1) fun t ht => ?_
    obtain ⟨-, p, hp, hrest⟩ := hthreads t ht
    rw [hrest]
    exact loadDepth_eq ▸ tracks_relay (hbalanced p hp 0)
  have hstart : (threadMachine o i).Kept C inv Q ⟨s, start programs⟩
      ((start programs).map fun _ => (0, g)) := by
    refine ⟨hinv, ?_⟩
    rw [List.forall₂_map_right_iff, List.forall₂_same]
    intro t ht
    obtain ⟨hheld, p, hp, hrest⟩ := hthreads t ht
    exact ⟨hheld, hrest ▸ hmeets p hp⟩
  obtain ⟨turns, hsteps, hgranted⟩ := h.run
  obtain ⟨xs, hkept⟩ := horder.kept hM hstart hsteps hgranted
  have hall := (horder.steps hsteps).finished hC hkept h.rest
  refine ⟨xs, ?_, hkept.inv, hall⟩
  calc
    xs.length = c.threads.length := hall.length_eq.symm
    _ = (start programs).length := hsteps.length
    _ = programs.length := List.length_mapIdx

variable {env : Env} {path : CString}

/-- One thread, from the descriptor it has. -/
theorem Phase.alone {p : Hook R} {slot : Slot} {Q : R → Slot → Prop}
    (hupper : ∀ n flags mode, ∃ e, o.answer n (.open (some path) flags mode) = .error e)
    (h : Phase o i s [p] c) (hbalanced : Balanced p) (hdoes : Does o env path p slot Q)
    (hshared : Shared env s.world [(0, slot)]) :
    ∃ r slot', Returned c [r] ∧ Q r slot' ∧ Shared env c.world.world [(0, slot')] := by
  obtain ⟨xs, hlength, hinv, hall⟩ := h.finished (fun q hq => List.mem_singleton.mp hq ▸ hbalanced)
    (descriptorContract_upheld hupper) (fun h => h) slot
    (fun q hq => List.mem_singleton.mp hq ▸ hdoes 0) hshared
  obtain ⟨⟨held, slot'⟩, rfl⟩ := List.length_eq_one_iff.mp hlength
  obtain ⟨t, ts, ⟨r, hr, hQ⟩, hts, hthreads⟩ := List.forall₂_cons_right_iff.mp hall
  rw [List.forall₂_nil_right_iff] at hts
  have hone : Shared env c.world.world ([] ++ (held, slot') :: []) := hinv
  refine ⟨r, slot', ?_, hQ, hone.same rfl rfl rfl rfl⟩
  rw [Returned, hthreads, hts, List.map_singleton, hr]
  rfl

end

section
variable {o : Oracle} {i : Nat → ImageOracle} {env : Env} {path relative : CString} {inode : Inode}
  {bytes : List Byte} {b : Bits} {s : Process}

private theorem baseline_phase (hfile : LowerFile o env path relative inode bytes)
    (hbytes : bytes.length ≤ maxOff b) {iterations : Nat}
    {prepared : Pool ImageReq ImageAnswer Process Errno (Option TestConfig)}
    (h : Phase o i s [baseline b path iterations] prepared) (hshared : Shared env s.world []) :
    Returned prepared [some (expected path bytes iterations)] ∧
      Shared env prepared.world.world [] := by
  obtain ⟨r, slot, hr, ⟨rfl, -⟩, hshared'⟩ := h.alone hfile.upperOpen
    (baseline_balanced path iterations) (baseline_does hfile hbytes iterations) (hshared.closed [()])
  exact ⟨hr, hshared'.restart fun y hy => (List.not_mem_nil hy).elim⟩

private theorem workers_phase (hfile : LowerFile o env path relative inode bytes)
    (hbytes : bytes.length ≤ maxOff b) {iterations : Nat} {frames : List Stat}
    {worked : Pool ImageReq ImageAnswer Process Errno Nat}
    (h : Phase o i s (frames.map fun st => workerMain b (expected path bytes iterations) st) worked)
    (hshared : Shared env s.world []) :
    Returned worked (List.replicate frames.length 0) ∧ Shared env worked.world.world [] := by
  have hbalanced : ∀ p ∈ frames.map fun st => workerMain b (expected path bytes iterations) st,
      Balanced p := by
    rw [List.forall_mem_map]
    exact fun st _ => workerMain_balanced _ st
  have hmeets : ∀ p ∈ frames.map fun st => workerMain b (expected path bytes iterations) st,
      (relay p).Meets managerLocking (descriptorContract o env path) 0 .closed
        fun r _ _ => r = 0 := by
    rw [List.forall_mem_map]
    exact fun st _ => ((workerLoop_does hfile hbytes iterations st _ _).mono fun _ _ h => h.1) 0
  obtain ⟨xs, hlength, hinv, hall⟩ := h.finished hbalanced
    (descriptorContract_upheld hfile.upperOpen) (fun h => h) .closed hmeets (hshared.closed _)
  refine ⟨?_, hinv.restart fun y hy => (List.not_mem_nil hy).elim⟩
  have hreturned := Returned.of_forall₂ (f := fun _ => 0) (P := fun r _ => r = 0) hall fun _ _ h => h
  rw [List.map_const', hlength, List.length_map] at hreturned
  exact hreturned

private theorem opened_phase (hfile : LowerFile o env path relative inode bytes)
    {opened : Pool ImageReq ImageAnswer Process Errno (Option Int)}
    (h : Phase o i s [sharedReadOpen b path] opened) (hshared : Shared env s.world []) :
    ∃ fd addr : Nat, Returned opened [some (fd : Int)] ∧
      Shared env opened.world.world [(0, .mapped fd { addr, inode } 0)] := by
  obtain ⟨r, slot, hr, ⟨fd, addr, rfl, rfl⟩, hshared'⟩ := h.alone hfile.upperOpen
    (sharedReadOpen_balanced path) (sharedReadOpen_does hfile) (hshared.closed [()])
  exact ⟨fd, addr, hr, hshared'⟩

/-- Together the readers take every byte of the file once. -/
private theorem readers_phase (hfile : LowerFile o env path relative inode bytes) {fd addr readers fuel : Nat}
    (hreaders : 0 < readers) (hfuel : bytes.length < fuel)
    {read : Pool ImageReq ImageAnswer Process Errno (Option (Nat × Nat))}
    (h : Phase o i s (List.replicate readers (sharedReadMain b fd fuel 0)) read)
    (hshared : Shared env s.world [(0, .mapped fd { addr, inode } 0)]) :
    ∃ (totals : List Nat) (position : BitVec 64), Returned read (totals.map fun total => some (total, 0)) ∧
      totals.sum = bytes.length ∧
      Shared env read.world.world [(0, .mapped fd { addr, inode } position)] := by
  let g : Reader := { taken := 0, sees := none, ended := False }
  have hmeets : ∀ p ∈ List.replicate readers (sharedReadMain b fd fuel 0), (relay p).Meets
      managerLocking (readerContract o env fd { addr, inode } bytes.length) 0 g
        fun r _ g' => r = some (g'.taken, 0) ∧ g'.ended := by
    intro p hp
    rw [List.eq_of_mem_replicate hp]
    exact sharedReadMain_reads (g := g) hfile (Nat.zero_le _) hfuel
  have hbalanced : ∀ p ∈ List.replicate readers (sharedReadMain b fd fuel 0), Balanced p := by
    intro p hp
    rw [List.eq_of_mem_replicate hp]
    exact sharedReadMain_balanced _ _ _
  have hinv : Together env fd { addr, inode } bytes.length s.world
      ((start (List.replicate readers (sharedReadMain b fd fuel 0))).map fun _ => (0, g)) 0 := by
    refine ⟨hshared, ?_, Nat.zero_le _, fun x hx q hq => ?_, fun x hx hend => ?_⟩
    · rw [List.map_map, eq_comm]
      exact List.sum_eq_zero fun n hn => by
        obtain ⟨t, -, rfl⟩ := List.mem_map.mp hn
        rfl
    · obtain ⟨t, -, rfl⟩ := List.mem_map.mp hx
      cases hq
    · obtain ⟨t, -, rfl⟩ := List.mem_map.mp hx
      exact hend.elim
  obtain ⟨xs, hlength, ⟨position, htogether⟩, hall⟩ := h.finished hbalanced
    (readerContract_upheld hfile.upperOpen) (fun h => h) g hmeets ⟨0, hinv⟩
  refine ⟨xs.map fun x => x.2.taken, position, ?_, ?_, htogether.shared⟩
  · rw [List.map_map]
    exact Returned.of_forall₂ hall fun r x h => h.1
  · have hpos : 0 < xs.length := by
      rw [hlength, List.length_replicate]
      exact hreaders
    obtain ⟨x, xs, rfl⟩ := List.exists_cons_of_length_pos hpos
    obtain ⟨t, ts, ⟨r, -, -, hend⟩, -⟩ := List.forall₂_cons_right_iff.mp hall
    rw [← htogether.sum, htogether.ended x List.mem_cons_self hend]

/-- The concurrent test passes on a file that the image has and the upper layer has not. `main`
finds out about it; of any number of workers, under any schedule, none counts an error; and any
number of threads that read one descriptor together read the file once. -/
theorem concurrent_test_passes (hfile : LowerFile o env path relative inode bytes)
    (hbytes : bytes.length ≤ maxOff b) (hshared : Shared env s.world []) {iterations : Nat}
    {prepared : Pool ImageReq ImageAnswer Process Errno (Option TestConfig)}
    (hprepared : Phase o i s [baseline b path iterations] prepared) :
    Returned prepared [some (expected path bytes iterations)] ∧
    ∀ (frames : List Stat) worked,
      Phase o i prepared.world
        (frames.map fun st => workerMain b (expected path bytes iterations) st) worked →
      Returned worked (List.replicate frames.length 0) ∧
    ∀ opened, Phase o i worked.world [sharedReadOpen b path] opened →
      ∃ fd, Returned opened [some fd] ∧
    ∀ readers fuel read, 0 < readers → bytes.length < fuel →
      Phase o i opened.world (List.replicate readers (sharedReadMain b fd fuel 0)) read →
      ∃ totals : List Nat, Returned read (totals.map fun total => some (total, 0)) ∧
        totals.sum = bytes.length ∧
    ∀ closed,
      Phase o i read.world [sharedReadClose (expected path bytes iterations) fd totals.sum 0] closed →
      Returned closed [0] := by
  obtain ⟨hcfg, hshared⟩ := baseline_phase hfile hbytes hprepared hshared
  refine ⟨hcfg, fun frames worked hworked => ?_⟩
  obtain ⟨hzero, hshared⟩ := workers_phase hfile hbytes hworked hshared
  refine ⟨hzero, fun opened hopened => ?_⟩
  obtain ⟨fd, addr, hfd, hshared⟩ := opened_phase hfile hopened hshared
  refine ⟨fd, hfd, fun readers fuel read hreaders hfuel hread => ?_⟩
  obtain ⟨totals, position, htotals, hsum, hshared⟩ :=
    readers_phase hfile hreaders hfuel hread hshared
  refine ⟨totals, htotals, hsum, fun closed hclosed => ?_⟩
  rw [hsum] at hclosed
  obtain ⟨r, slot, hr, ⟨rfl, -⟩, -⟩ := hclosed.alone hfile.upperOpen
    (sharedReadClose_balanced _ _ _ _) (sharedReadClose_does hfile rfl) hshared
  exact hr

end

/-- The image has a file of these bytes at every path, and descriptors count up. -/
def holding (bytes : List Byte) : Oracle :=
  { Oracle.serving (plainFile (BitVec.ofNat 32 bytes.length)) with
    answer := fun n c =>
      match c with
      | .dataReaderRead _ offset size => .ok ((bytes.drop offset.toNat).take size.toNat)
      | c => (Oracle.serving (plainFile (BitVec.ofNat 32 bytes.length))).answer n c }

section
variable {bytes : List Byte} {i : Nat → ImageOracle} {R : Type}

theorem holding_lowerFile (bytes : List Byte) (h : bytes.length < 2 ^ 32) :
    LowerFile (holding bytes) World.initial.env hookFile (ascii "f")
      (plainFile (BitVec.ofNat 32 bytes.length)) bytes where
  upperOpen n flags mode := ⟨_, rfl⟩
  upperXstat n ver := ⟨_, rfl⟩
  upperAccess n mode := ⟨_, rfl⟩
  routed := by decide
  named := by decide
  found n := ⟨_, rfl⟩
  size := by
    change ((BitVec.ofNat 32 bytes.length).setWidth 64).toNat = bytes.length
    rw [BitVec.toNat_setWidth, BitVec.toNat_ofNat]
    omega
  readable := by
    change ((0o644#16).setWidth 32 &&& 0xfff ||| S_IFREG) &&& 0o444 ≠ 0
    decide
  reads n addr offset size _ := rfl
  close := rfl

/-- The numbers from the next one on are free. -/
private def Plenty (w : World) : Prop :=
  ∀ k : Nat, w.used .memfdCreate ≤ k → w.fds ((k + 3 : Nat) : Int) = none

private theorem Plenty.call {w : World} (h : Plenty w) (c : Ext) :
    Plenty (w.afterCall (holding bytes) c (w.outcome (holding bytes) c)) ∧
      NotRefused (.call c) (w.outcome (holding bytes) c) := by
  have hother (hfds : c.fn.onDescriptors = false) :
      Plenty (w.afterCall (holding bytes) c (w.outcome (holding bytes) c)) := by
    intro k hk
    have hne : Fn.memfdCreate ≠ c.fn := by
      intro he
      rw [← he] at hfds
      cases hfds
    rw [World.afterCall_used, Function.update_of_ne hne] at hk
    rw [w.afterCall_fds (holding bytes) c _ hfds]
    exact h k hk
  cases c with
  | «open» pathname flags mode => exact ⟨h, trivial⟩
  | openat p flags => exact ⟨h, trivial⟩
  | memfdCreate flags =>
    have hout : w.outcome (holding bytes) (.memfdCreate flags) = .ok (w.used .memfdCreate + 3) := by
      have hfree := h _ le_rfl
      change w.grantFd (.ok (w.used .memfdCreate + 3)) = _
      rw [World.grantFd, hfree]
      rfl
    rw [hout]
    refine ⟨fun k hk => ?_, _, rfl⟩
    change Function.update w.used .memfdCreate (w.used .memfdCreate + 1) .memfdCreate ≤ k at hk
    rw [Function.update_self] at hk
    change (w.gain (w.used .memfdCreate + 3 : Nat) (.backing w.caller)).fds _ = none
    rw [World.gain_fds, Function.update_of_ne (by omega)]
    exact h k (by omega)
  | close fd =>
    refine ⟨fun k hk => ?_, rfl⟩
    have hfree : w.fds ((k + 3 : Nat) : Int) = none := h k hk
    change (w.lose fd).fds _ = none
    rw [World.lose_fds]
    exact (Function.update_apply ..).trans (by split <;> first | rfl | exact hfree)
  | closeNocancel fd =>
    refine ⟨fun k hk => ?_, trivial⟩
    have hfree : w.fds ((k + 3 : Nat) : Int) = none := h k hk
    change (w.lose fd).fds _ = none
    rw [World.lose_fds]
    exact (Function.update_apply ..).trans (by split <;> first | rfl | exact hfree)
  | malloc => exact ⟨hother rfl, fun h => by cases h⟩
  | dirReaderCreate => exact ⟨hother rfl, fun h => by cases h⟩
  | _ => exact ⟨hother rfl, trivial⟩

private theorem Plenty.handle {s : Process} (h : Plenty s.world) (e : ImageReq) :
    Plenty ((threadMachine (holding bytes) i).handle s e).2.world ∧
      NotRefusedLoad e ((threadMachine (holding bytes) i).handle s e).1 := by
  cases e with
  | hook e =>
    cases e with
    | getenv v => cases v <;> exact ⟨h, trivial⟩
    | call c => exact h.call c
    | _ => exact ⟨h, trivial⟩
  | call c =>
    have heffect : ∀ a : c.Ans, Plenty (s.loading.effect c a).world := by
      intro a
      cases c <;> cases a <;> exact h
    exact ⟨heffect _, trivial⟩
  | _ => exact ⟨h, trivial⟩

private theorem plenty_steps {c c' : Pool ImageReq ImageAnswer Process Errno R}
    {turns : List (Turn ImageReq ImageAnswer)}
    (hsteps : (threadMachine (holding bytes) i).Steps c turns c') (h : Plenty c.world.world) :
    Plenty c'.world.world ∧ ∀ turn ∈ turns, NotRefusedLoad turn.request turn.answer := by
  induction hsteps with
  | nil => exact ⟨h, fun turn hturn => by cases hturn⟩
  | snoc _ hstep ih =>
    obtain ⟨hplenty, hgranted⟩ := ih
    cases hstep with
    | turn s before after n l held e k free =>
      have henter : Plenty ((threadMachine (holding bytes) i).enter n l s).world := hplenty
      obtain ⟨hplenty', hgranted'⟩ := henter.handle (i := i) e
      refine ⟨hplenty', ?_⟩
      rw [List.forall_mem_append, List.forall_mem_singleton]
      exact ⟨hgranted, hgranted'⟩

/-- Nothing is refused to any threads. -/
private theorem plenty_phase {s : Process} (h : Plenty s.world) (programs : List (Hook R)) :
    ∃ c, Phase (holding bytes) i s programs c ∧ Plenty c.world.world := by
  obtain ⟨turns, c, hsteps, hstuck⟩ :=
    Machine.comes_to_rest (.nil : (threadMachine (holding bytes) i).Steps ⟨s, start programs⟩ [] _)
  obtain ⟨hplenty, hgranted⟩ := plenty_steps hsteps h
  exact ⟨c, ⟨⟨turns, hsteps, hgranted⟩, hstuck⟩, hplenty⟩

end

/-- Two workers and three readers on a file of three bytes. -/
theorem concurrent_test_passes_three :
    ∃ (prepared : Pool ImageReq ImageAnswer Process Errno (Option TestConfig))
      (worked : Pool ImageReq ImageAnswer Process Errno Nat)
      (opened : Pool ImageReq ImageAnswer Process Errno (Option Int)) (fd : Int)
      (read : Pool ImageReq ImageAnswer Process Errno (Option (Nat × Nat))) (totals : List Nat)
      (closed : Pool ImageReq ImageAnswer Process Errno Int),
      Returned prepared [some (expected hookFile [1, 2, 3] 2)] ∧ Returned worked [0, 0] ∧
      Returned opened [some fd] ∧ Returned read (totals.map fun total => some (total, 0)) ∧
      totals.sum = 3 ∧
      Phase (holding [1, 2, 3]) (fun _ => .sound) read.world
        [sharedReadClose (expected hookFile [1, 2, 3] 2) fd totals.sum 0] closed ∧
      Returned closed [0] := by
  let s : Process := ⟨{ Loading.blank with world := .initial }, 0⟩
  have hfile := holding_lowerFile [1, 2, 3] (by decide)
  have hserved : ∀ key, (Tables.lookup FDMapEntry.key key World.initial.fdMap).isSome →
      (World.initial.fds key).isSome := by
    intro key h
    cases h
  have hshared : Shared World.initial.env s.world [] :=
    ⟨rfl, rfl, hserved, .nil, fun x h => (List.not_mem_nil h).elim, .nil⟩
  have hplenty : Plenty s.world := fun _ _ => rfl
  obtain ⟨prepared, hprepared, hplenty⟩ :=
    plenty_phase (i := fun _ => .sound) hplenty [baseline .b32 hookFile 2]
  let cfg : TestConfig := expected hookFile [1, 2, 3] 2
  obtain ⟨hcfg, hworkers⟩ := concurrent_test_passes hfile (by decide) hshared hprepared
  obtain ⟨worked, hworked, hplenty⟩ := plenty_phase hplenty ([{}, {}].map (workerMain .b32 cfg))
  obtain ⟨hzero, hopens⟩ := hworkers _ worked hworked
  obtain ⟨opened, hopened, hplenty⟩ := plenty_phase hplenty [sharedReadOpen .b32 hookFile]
  obtain ⟨fd, hfd, hreads⟩ := hopens opened hopened
  obtain ⟨read, hread, hplenty⟩ :=
    plenty_phase hplenty (List.replicate 3 (sharedReadMain .b32 fd 4 0))
  obtain ⟨totals, htotals, hsum, hcloses⟩ := hreads 3 4 read (by decide) (by decide) hread
  obtain ⟨closed, hclosed, -⟩ := plenty_phase hplenty [sharedReadClose cfg fd totals.sum 0]
  exact ⟨prepared, worked, opened, fd, read, totals, closed, hcfg, hzero, hfd, htotals, hsum, hclosed,
    hcloses closed hclosed⟩

end HookSqfs.Clients
