import HookSqfs.Hooks.Definedness
import HookSqfs.Interaction.Contracts

/-! The handles of the image, as threads find them that load it, or use it, at the same time. -/
namespace HookSqfs.Hooks
open Manager Interaction

/-- All three handles are set, or none is. -/
def Whole (m : Mgr) : Prop :=
  m.loaded = true ∨ m.file = none ∧ m.compressor = none ∧ m.dataReader = none

/-- What a request leaves of the handles. -/
def mgrAfter : (e : ImageReq) → ImageAnswer e → Mgr → Mgr
  | .setFile file, _, m => { m with file }
  | .setCompressor compressor, _, m => { m with compressor }
  | .setDataReader dataReader, _, m => { m with dataReader }
  | .call (.superRead _), .ok super, m => { m with blockSize := super.blockSize }
  | .call .compressorCreate, .ok compressor, m => { m with compressor := some compressor }
  | _, _, m => m

def Process.mgr (s : Process) : Mgr := s.world.mgr

variable {b : Bits} {o : Oracle} {i : Nat → ImageOracle} {R : Type}

theorem guards_mgr : (threadMachine o i).Guards Process.mgr :=
  guards_shared.part Process.Shared.mgr

private theorem handle_mgr (s : Process) (e : ImageReq) :
    ((threadMachine o i).handle s e).2.mgr =
      mgrAfter e ((threadMachine o i).handle s e).1 s.mgr := by
  cases e with
  | hook e =>
    cases e with
    | getenv v => cases v <;> rfl
    | call c => exact s.loading.world.afterCall_mgr o c _
    | _ => rfl
  | call c =>
    have heffect : ∀ a : c.Ans, (s.loading.effect c a).world.mgr =
        mgrAfter (.call c) a s.loading.world.mgr := by
      intro a
      cases c <;> cases a <;> rfl
    exact heffect _
  | _ => rfl

private theorem serves_mgr {v v' : Mgr} {e : ImageReq} {a : ImageAnswer e}
    (h : (threadMachine o i).Serves Process.mgr v e a v') : v' = mgrAfter e a v := by
  obtain ⟨s, rfl, hs⟩ := h
  cases hguarded : guardedLoad e with
  | true =>
    rw [show (threadMachine o i).locking.guarded e = true from hguarded, if_pos rfl] at hs
    rw [← hs.2, handle_mgr, hs.1]
  | false =>
    rw [show (threadMachine o i).locking.guarded e = false from hguarded,
      if_neg Bool.false_ne_true] at hs
    rw [hs]
    cases e with
    | hook e => rfl
    | call c =>
      cases c with
      | openFile path => rfl
      | destroy addr => rfl
      | free addr => rfl
      | _ => cases hguarded
    | _ => cases hguarded

private theorem serves_getMgr {v v' a : Mgr}
    (h : (threadMachine o i).Serves Process.mgr v (.hook .getMgr) a v') : a = v := by
  obtain ⟨s, ha, hs⟩ := h
  rw [show (threadMachine o i).locking.guarded (.hook .getMgr) = true from rfl, if_pos rfl] at hs
  exact ha.symm.trans hs.1

section leaves
variable {I : Nat → Mgr → Prop} {α β : Type} {m : Mgr} {Q S : α → Mgr → Prop}

/-- Under the lock, taken once, it comes from the handles `m` to an end with `Q`. -/
def Leaves (o : Oracle) (i : Nat → ImageOracle) (I : Nat → Mgr → Prop) (p : Loader α) (m : Mgr)
    (Q : α → Mgr → Prop) : Prop :=
  p.Meets managerLocking ((threadMachine o i).invariant Process.mgr I) 1 m
    fun a held m' => held = 1 ∧ Q a m'

private theorem leaves_request (hI : ∀ m, I 1 m) {e : ImageReq} {k : ImageAnswer e → Loader α}
    (hafter : managerLocking.after e 1 = 1)
    (h : ∀ a, Leaves o i I (k a) (mgrAfter e a m) Q) : Leaves o i I (.request e k) m Q := by
  refine ⟨fun _ a v' _ => ?_, fun a v' hserves => ?_⟩
  · rw [show (threadMachine o i).locking.after e 1 = 1 from hafter]
    exact hI v'
  · rw [serves_mgr hserves, hafter]
    exact h a

private theorem leaves_step (hI : ∀ m, I 1 m) {e : ImageReq} {f : ImageAnswer e → Loader α}
    (hafter : managerLocking.after e 1 = 1)
    (h : ∀ a, Leaves o i I (f a) (mgrAfter e a m) Q) : Leaves o i I (load e >>= f) m Q :=
  leaves_request hI hafter h

private theorem leaves_getMgr (hm : I 1 m) {f : Mgr → Loader α}
    (h : Leaves o i I (f m) m Q) : Leaves o i I (load (.hook .getMgr) >>= f) m Q := by
  refine ⟨fun _ a v' hserves => ?_, fun a v' hserves => ?_⟩
  · rw [serves_mgr hserves]
    exact hm
  · rw [serves_mgr hserves, serves_getMgr hserves]
    exact h

private theorem leaves_ret {a : α} (h : Q a m) : Leaves o i I (.ret a) m Q := ⟨rfl, h⟩

private theorem leaves_bind {p : Loader α} {f : α → Loader β} {Q : β → Mgr → Prop}
    (hp : Leaves o i I p m S) (hf : ∀ a m', S a m' → Leaves o i I (f a) m' Q) :
    Leaves o i I (p >>= f) m Q := by
  refine Program.Meets.bind hp ?_
  rintro a _ m' ⟨rfl, hS⟩
  exact hf a m' hS

private theorem leaves_relay (hI : ∀ m, I 1 m) {p : Hook α} (hp : p.All fun e => e.keepsDepth) :
    Leaves o i I (relay p) m fun _ m' => m' = m := by
  induction p with
  | ret a => exact leaves_ret rfl
  | undefined => exact hp.elim
  | request e k ih =>
    refine leaves_request hI ?_ fun a => ih a (hp.2 a)
    have hkeeps := hp.1
    cases e with
    | lock => cases hkeeps
    | unlock => cases hkeeps
    | _ => rfl

private theorem leaves_logMsg (hI : ∀ m, I 1 m) : Leaves o i I (relay logMsg) m fun _ m' => m' = m :=
  leaves_relay hI (logMsg_all.mono fun _ h => Req.calm.keepsDepth (Req.isLog.calm h))

private theorem leaves_sqfsUtilSuperInfo (hI : ∀ m, I 1 m) :
    Leaves o i I sqfsUtilSuperInfo m fun _ m' => m' = m := by
  have hline {p : Loader Unit} (hp : Leaves o i I p m fun _ m' => m' = m) :
      Leaves o i I (relay logMsg >>= fun _ => p) m fun _ m' => m' = m :=
    leaves_bind (leaves_logMsg hI) fun _ _ h => h ▸ hp
  exact hline (hline (hline (hline (leaves_logMsg hI))))

/-- Nothing is left set. -/
private def Unset (m : Mgr) : Prop := m.file = none ∧ m.compressor = none ∧ m.dataReader = none

private theorem leaves_sqfsMgrUnloadImage (hI : ∀ m, I 1 m) :
    Leaves o i I sqfsMgrUnloadImage m fun _ m' => Unset m' := by
  refine leaves_getMgr (hI m) ?_
  refine leaves_bind (S := fun _ m' => m' = { m with dataReader := none }) ?_ ?_
  · obtain ⟨file, compressor, dataReader, blockSize⟩ := m
    cases dataReader with
    | none => exact leaves_ret rfl
    | some dataReader =>
      exact leaves_step hI rfl fun _ => leaves_request hI rfl fun _ => leaves_ret rfl
  rintro _ _ rfl
  refine leaves_bind (S := fun _ m' => m' = { m with compressor := none, dataReader := none }) ?_ ?_
  · obtain ⟨file, compressor, dataReader, blockSize⟩ := m
    cases compressor with
    | none => exact leaves_ret rfl
    | some compressor =>
      exact leaves_step hI rfl fun _ => leaves_request hI rfl fun _ => leaves_ret rfl
  rintro _ _ rfl
  cases m.file with
  | none => exact leaves_request hI rfl fun _ => leaves_ret ⟨rfl, rfl, rfl⟩
  | some file =>
    exact leaves_step hI rfl fun _ => leaves_request hI rfl fun _ => leaves_ret ⟨rfl, rfl, rfl⟩

private theorem leaves_loadFailed (hI : ∀ m, I 1 m) :
    Leaves o i I loadFailed m fun _ m' => Whole m' := by
  refine leaves_bind (leaves_logMsg hI) ?_
  rintro _ _ rfl
  exact leaves_bind (leaves_sqfsMgrUnloadImage hI) fun _ _ h => leaves_ret (.inr h)

private theorem leaves_loadDataReader (hI : ∀ m, I 1 m) {file compressor : Nat} (super : Super)
    (hfile : m.file = some file) (hcompressor : m.compressor = some compressor) :
    Leaves o i I (loadDataReader file compressor super) m fun _ m' => Whole m' := by
  refine leaves_step hI rfl fun dataReader => leaves_step hI rfl fun _ => ?_
  cases dataReader with
  | none => exact leaves_loadFailed hI
  | some dataReader =>
    refine leaves_step hI rfl fun ret => ?_
    cases ret with
    | error e => exact leaves_loadFailed hI
    | ok u =>
      refine leaves_ret (.inl ?_)
      simp [mgrAfter, Mgr.loaded, hfile, hcompressor]

private theorem leaves_loadOptions (hI : ∀ m, I 1 m) {file compressor : Nat} (super : Super)
    (hfile : m.file = some file) (hcompressor : m.compressor = some compressor) :
    Leaves o i I (loadOptions file compressor super) m fun _ m' => Whole m' := by
  refine Program.Meets.ite (fun _ => leaves_step hI rfl fun ret => ?_)
    fun _ => leaves_loadDataReader hI super hfile hcompressor
  cases ret with
  | error e => exact leaves_loadFailed hI
  | ok u => exact leaves_loadDataReader hI super hfile hcompressor

private theorem leaves_loadCompressor (hI : ∀ m, I 1 m) {file : Nat} (super : Super)
    (hfile : m.file = some file) :
    Leaves o i I (loadCompressor file super) m fun _ m' => Whole m' := by
  refine leaves_step hI rfl fun ret => ?_
  cases ret with
  | error e => exact leaves_loadFailed hI
  | ok u =>
    refine leaves_step hI rfl fun ret => ?_
    cases ret with
    | error e => exact leaves_loadFailed hI
    | ok compressor => exact leaves_loadOptions hI super hfile rfl

private theorem leaves_loadSuper (hI : ∀ m, I 1 m) {file : Nat} (hfile : m.file = some file) :
    Leaves o i I (loadSuper file) m fun _ m' => Whole m' := by
  refine leaves_step hI rfl fun ret => ?_
  cases ret with
  | error e => exact leaves_loadFailed hI
  | ok super =>
    have hfile' : (mgrAfter (.call (.superRead file)) (.ok super) m).file = some file := hfile
    generalize mgrAfter (.call (.superRead file)) (.ok super) m = m' at hfile'
    refine leaves_bind (leaves_logMsg hI) fun _ _ h => ?_
    rw [h]
    refine leaves_step hI rfl fun super => ?_
    refine leaves_bind (leaves_sqfsUtilSuperInfo hI) fun _ _ h => ?_
    rw [h]
    exact leaves_loadCompressor hI super hfile'

private theorem leaves_loadFile (hI : ∀ m, I 1 m) (hunset : Unset m) :
    Leaves o i I loadFile m fun _ m' => Whole m' := by
  refine leaves_step hI rfl fun sqfsPath => ?_
  cases sqfsPath with
  | none =>
    refine leaves_bind (leaves_logMsg hI) fun _ _ h => leaves_ret ?_
    rw [h]
    exact .inr hunset
  | some sqfsPath =>
    refine leaves_step hI rfl fun file => leaves_step hI rfl fun _ => ?_
    cases file with
    | none =>
      refine leaves_bind (leaves_logMsg hI) fun _ _ h => leaves_ret ?_
      rw [h]
      exact .inr ⟨rfl, hunset.2⟩
    | some file => exact leaves_loadSuper hI rfl

/-- `sqfs_mgr_load_image`, where what is between the lock and the unlock leaves `I 0`. -/
private theorem sqfsMgrLoadImage_meets (hI : ∀ m, I 0 m → I 1 m)
    (hloaded : ∀ m, I 0 m → m.loaded = false → Leaves o i I loadFile m fun _ m' => I 0 m') :
    sqfsMgrLoadImage.Meets managerLocking ((threadMachine o i).invariant Process.mgr I) 0 m
      fun _ held _ => held = 0 := by
  refine ⟨fun h => absurd rfl h, fun _ m' hfound => ?_⟩
  have hfound : I 0 m' := hfound rfl
  let body : Loader Bool := do
    let mgr : Mgr ← load (.hook .getMgr)
    if mgr.loaded then pure true else loadFile
  have hbody : Leaves o i I body m' fun _ m' => I 0 m' := by
    refine leaves_getMgr (hI m' hfound) (Program.Meets.ite (fun _ => leaves_ret hfound) fun h => ?_)
    exact hloaded m' hfound (Bool.of_not_eq_true h)
  change (body >>= fun ok => load (.hook .unlock) >>= fun _ => pure ok).Meets _ _ 1 m' _
  refine Program.Meets.bind hbody ?_
  rintro ok _ m'' ⟨rfl, hleft⟩
  refine ⟨fun _ _ v' hserves => ?_, fun _ _ _ => rfl⟩
  rw [serves_mgr hserves]
  exact hleft

/-- A hook leaves the handles alone. -/
private theorem relay_meets {J : Mgr → Prop} (hfinds : ∀ m, I 0 m → J m)
    (hleaves : ∀ n m, J m → I n m) {p : Hook α}
    (htracks : (relay p).Tracks loadDepth 0 fun _ held => held = 0) :
    (relay p).Meets managerLocking ((threadMachine o i).invariant Process.mgr I) 0 m
      fun _ held _ => held = 0 := by
  rw [loadDepth_eq] at htracks
  have htracks : (relay p).Tracks (threadMachine o i).locking.rules 0 fun _ held => held = 0 :=
    htracks
  have hmakes : (relay p).Makes fun e => ∃ e', e = .hook e' := by
    refine Program.Makes.interpret (fun e => ?_) p
    exact ⟨⟨e, rfl⟩, fun _ => trivial⟩
  refine (htracks.meets ?_ hfinds hleaves hmakes fun h => absurd rfl h).mono fun _ _ _ h => h.1
  rintro v _ a v' ⟨e, rfl⟩ hJ hserves
  rw [serves_mgr hserves]
  exact hJ

end leaves

private theorem Client.meets {I : Nat → Mgr → Prop} {J : Mgr → Prop} (hI : ∀ m, I 0 m → I 1 m)
    (hfinds : ∀ m, I 0 m → J m) (hleaves : ∀ n m, J m → I n m)
    (hload : ∀ m, I 0 m → m.loaded = false → Leaves o i I loadFile m fun _ m' => I 0 m')
    {p : Loader R} (h : Client b p) (m : Mgr) :
    p.Meets managerLocking ((threadMachine o i).invariant Process.mgr I) 0 m fun _ _ _ => True := by
  induction h generalizing m with
  | done r => trivial
  | getErrno rest ih => exact ⟨fun h => absurd rfl h, fun e v' _ => ih e v'⟩
  | setErrno e rest ih => exact ⟨fun h => absurd rfl h, fun _ v' _ => ih v'⟩
  | call h rest ih =>
    refine Program.Meets.bind (S := fun _ held _ => held = 0) ?_ ?_
    · have htracks := h.tracks 0
      cases h with
      | loadImage => exact sqfsMgrLoadImage_meets hI hload
      | _ => exact relay_meets hfinds hleaves htracks
    · rintro a _ m' rfl
      exact ih a m'

/-- Threads that load the image and threads that use it, however interleaved: whenever the
lock is free the three handles are all set or all NULL, so no section begins with a part of
an image; and an image that is loaded at the start keeps its handles, at every moment. -/
theorem image_never_half_loaded {threads : List (Thread ImageReq ImageAnswer Errno R)}
    {s : Process} {turns : List (Turn ImageReq ImageAnswer)}
    {c : Pool ImageReq ImageAnswer Process Errno R} (hfree : ∀ t ∈ threads, t.held = 0)
    (hclients : ∀ t ∈ threads, Client b t.rest) (hwhole : Whole s.mgr)
    (hsteps : (threadMachine o i).Steps ⟨s, threads⟩ turns c) :
    ((∀ t ∈ c.threads, t.held = 0) → Whole c.world.mgr) ∧
      (s.mgr.loaded = true → c.world.mgr = s.mgr) := by
  have hstart : Orderly (threadMachine o i).locking (⟨s, threads⟩ : Pool _ _ Process _ _).threads :=
    orderly_clients hfree hclients
  refine ⟨?_, fun hloaded => ?_⟩
  · let I : Nat → Mgr → Prop := fun held m => held = 0 → Whole m
    have hI : ∀ m, I 1 m := fun m h => absurd h Nat.one_ne_zero
    have hload : ∀ m, I 0 m → m.loaded = false → Leaves o i I loadFile m fun _ m' => I 0 m' := by
      intro m hwhole hloaded
      have hunset := (hwhole rfl).resolve_left fun h => Bool.false_ne_true (hloaded.symm.trans h)
      exact (leaves_loadFile hI hunset).mono fun _ _ _ h => ⟨h.1, fun _ => h.2⟩
    have hmeets : ∀ t ∈ threads, t.rest.Meets managerLocking
        ((threadMachine o i).invariant Process.mgr I) 0 s.mgr fun _ _ _ => True := fun t ht =>
      (hclients t ht).meets (fun m _ => hI m) (fun _ h => h rfl) (fun _ _ h _ => h) hload s.mgr
    intro hquiet
    exact (hstart.invariant guards_mgr (fun m _ => hI m) hfree (fun _ => hwhole) hmeets hsteps).1
      hquiet rfl
  · let I : Nat → Mgr → Prop := fun _ m => m = s.mgr
    have hload : ∀ m, I 0 m → m.loaded = false → Leaves o i I loadFile m fun _ m' => I 0 m' := by
      intro m hsame hunloaded
      rw [hsame, hloaded] at hunloaded
      cases hunloaded
    have hmeets : ∀ t ∈ threads, t.rest.Meets managerLocking
        ((threadMachine o i).invariant Process.mgr I) 0 s.mgr fun _ _ _ => True := fun t ht =>
      (hclients t ht).meets (fun _ h => h) (fun _ h => h) (fun _ _ h => h) hload s.mgr
    obtain ⟨hnobody, hholder⟩ :=
      hstart.invariant guards_mgr (fun _ h => h) hfree rfl hmeets hsteps
    by_cases hquiet : ∀ t ∈ c.threads, t.held = 0
    · exact hnobody hquiet
    · push Not at hquiet
      obtain ⟨t, ht, hne⟩ := hquiet
      exact hholder t ht hne

/-- A thread that loads the image, and one that asks for the access to a file. -/
def loaderAndAccess : List (Thread ImageReq ImageAnswer Errno Unit) :=
  [{ id := 0, locals := 0, held := 0, rest := sqfsMgrLoadImage >>= fun _ => .ret () },
    { id := 1, locals := 0, held := 0
      rest := relay (sqfsAccess .b64 (some hookFile) 4) >>= fun _ => .ret () }]

theorem loaderAndAccess_free : ∀ t ∈ loaderAndAccess, t.held = 0 := by
  simp [loaderAndAccess]

theorem loaderAndAccess_clients : ∀ t ∈ loaderAndAccess, Client .b64 t.rest := by
  simp only [loaderAndAccess, List.mem_cons, List.not_mem_nil, or_false]
  rintro t (rfl | rfl)
  · exact .call .loadImage fun _ => .done ()
  · exact .call (.access (some hookFile) 4) fun _ => .done ()

/-- The file is set and nothing else when the second thread has its turn. -/
private theorem loader_halfway :
    ∃ turns c, (threadMachine .bare fun _ => .sound).Steps ⟨⟨.blank, 0⟩, loaderAndAccess⟩ turns c ∧
      turns.map Turn.id = [0, 0, 0, 0, 0, 1] ∧ c.world.mgr.file = some 1 ∧ c.world.mgr.dataReader = none := by
  let lock : ImageReq := .hook .lock
  let getMgr : ImageReq := .hook .getMgr
  let getenv : ImageReq := .hook (.getenv .hooksqfsFile)
  let openFile : ImageReq := .call (.openFile (ascii "/img"))
  let setFile : ImageReq := .setFile (some 1)
  let access : ImageReq := .hook (.call (.access (some hookFile) 4))
  refine ⟨_, _, (((((Machine.Steps.nil.snoc (.turn _ [] [_] 0 0 0 lock _ fun _ => ?_)).snoc
    (.turn _ [] [_] 0 _ 1 getMgr _ fun _ => ?_)).snoc (.turn _ [] [_] 0 _ 1 getenv _ fun _ => ?_)).snoc
    (.turn _ [] [_] 0 _ 1 openFile _ fun _ => ?_)).snoc
    (.turn _ [] [_] 0 _ 1 setFile _ fun _ => ?_)).snoc
    (.turn _ [_] [] 1 0 0 access _ fun h => by cases h), rfl, rfl, rfl⟩
  all_goals exact List.forall_mem_singleton.mpr rfl

/-- From there both come to their ends, and leave the image whole. -/
theorem image_never_half_loaded_halfway :
    ∃ turns more c d, (threadMachine .bare fun _ => .sound).Steps ⟨⟨.blank, 0⟩, loaderAndAccess⟩
        turns c ∧ turns.map Turn.id = [0, 0, 0, 0, 0, 1] ∧ ¬ Whole c.world.mgr ∧
      (threadMachine .bare fun _ => .sound).Steps ⟨⟨.blank, 0⟩, loaderAndAccess⟩ (turns ++ more) d ∧
      (∀ t ∈ d.threads, ∃ r, t.rest = .ret r) ∧ Whole d.world.mgr := by
  obtain ⟨turns, c, hsteps, hids, hfile, hreader⟩ := loader_halfway
  obtain ⟨more, d, hmore, hstuck⟩ := Machine.comes_to_rest hsteps
  have horder : Orderly managerLocking d.threads :=
    (orderly_clients loaderAndAccess_free loaderAndAccess_clients).steps hmore
  have hnames : ∀ n inode cursor, Oracle.bare.answer n (.openDir inode) = .ok cursor →
      ∀ item ∈ cursor.items, item.entry.name.length < dNameSize := by
    intro n inode cursor h
    cases h
  have hdefined : ∀ t ∈ d.threads, t.rest.Defined NamesFitLoad :=
    Orderly.defined_steps (namesFit_handle hnames)
      (fun t ht => (loaderAndAccess_clients t ht).defined) hmore
  have hends := horder.all_returned (M := threadMachine .bare fun _ => .sound) hdefined hstuck
  refine ⟨turns, more, c, d, hsteps, hids, ?_, hmore, hends, ?_⟩
  · rintro (hloaded | ⟨hnone, -⟩)
    · rw [Mgr.loaded, hreader] at hloaded
      simp at hloaded
    · rw [hfile] at hnone
      cases hnone
  · refine (image_never_half_loaded loaderAndAccess_free loaderAndAccess_clients
      (.inr ⟨rfl, rfl, rfl⟩) hmore).1 fun t ht => ?_
    obtain ⟨r, hr⟩ := hends t ht
    have hheld := horder.disciplined t ht
    rw [hr] at hheld
    exact hheld

end HookSqfs.Hooks
