import HookSqfs.Manager.Image

/-! Any number of attempts to load the image: what each returns, leaves and releases. -/
namespace HookSqfs.Manager
open Interaction

/-- What happens to an object of libsquashfs. A file object comes with a descriptor. -/
inductive ObjectEvent where
  | opened (addr : Nat)
  | created (addr : Nat)
  | destroyed (addr : Nat)
  | freed (addr : Nat)
  deriving DecidableEq, Repr

/-- The destructor of a file object closes its descriptor; `sqfs_free` does not run it. -/
def ObjectEvent.descriptors (fds : List Nat) : ObjectEvent → List Nat
  | .opened addr => addr :: fds
  | .destroyed addr => fds.erase addr
  | .created _ | .freed _ => fds

/-- The process with the manager's superblock; `objects` is history. -/
structure Loading where
  world : World
  super : Super
  objects : List ObjectEvent

/-- The file objects whose descriptor is open. -/
def Loading.openDescriptors (s : Loading) : List Nat :=
  s.objects.foldl ObjectEvent.descriptors []

/-- The results of the steps of one attempt. -/
structure ImageOracle where
  openFile : Option Nat
  superRead : Except SqfsError Super
  compressorConfigInit : Except SqfsError Unit
  compressorCreate : Except SqfsError Nat
  readOptions : Except SqfsError Unit
  dataReaderCreate : Option Nat
  loadFragmentTable : Except SqfsError Unit

def ImageOracle.answer (i : ImageOracle) : (c : ImageCall) → c.Ans
  | .openFile _ => i.openFile
  | .superRead _ => i.superRead
  | .compressorConfigInit .. => i.compressorConfigInit
  | .compressorCreate => i.compressorCreate
  | .readOptions .. => i.readOptions
  | .dataReaderCreate .. => i.dataReaderCreate
  | .loadFragmentTable _ => i.loadFragmentTable
  | .destroy _ | .free _ => ()

namespace Loading

def mgr (s : Loading) : Mgr := s.world.mgr

def setMgr (s : Loading) (mgr : Mgr) : Loading := { s with world := { s.world with mgr } }

def note (s : Loading) (e : ObjectEvent) : Loading := { s with objects := s.objects ++ [e] }

@[simp] theorem setMgr_mgr (s : Loading) (mgr : Mgr) : (s.setMgr mgr).mgr = mgr := rfl

@[simp] theorem setMgr_objects (s : Loading) (mgr : Mgr) : (s.setMgr mgr).objects = s.objects := rfl

@[simp] theorem note_mgr (s : Loading) (e : ObjectEvent) : (s.note e).mgr = s.mgr := rfl

@[simp] theorem note_objects (s : Loading) (e : ObjectEvent) :
    (s.note e).objects = s.objects ++ [e] := rfl

def effect (s : Loading) : (c : ImageCall) → c.Ans → Loading
  | .openFile _, some file => s.note (.opened file)
  | .superRead _, .ok super =>
    { s.setMgr { s.mgr with blockSize := super.blockSize } with super }
  | .compressorCreate, .ok compressor =>
    (s.note (.created compressor)).setMgr { s.mgr with compressor := some compressor }
  | .dataReaderCreate .., some dataReader => s.note (.created dataReader)
  | .destroy addr, _ => s.note (.destroyed addr)
  | .free addr, _ => s.note (.freed addr)
  | _, _ => s

def handle (o : Oracle) (i : ImageOracle) : Handler ImageReq ImageAnswer Loading
  | s, .hook e =>
    ((World.handle o s.world e).1, { s with world := (World.handle o s.world e).2 })
  | s, .setFile file => ((), s.setMgr { s.mgr with file })
  | s, .setCompressor compressor => ((), s.setMgr { s.mgr with compressor })
  | s, .setDataReader dataReader => ((), s.setMgr { s.mgr with dataReader })
  | s, .getSuper => (s.super, s)
  | s, .call c => (i.answer c, s.effect c (i.answer c))

end Loading

/-- The call of `sqfs_mgr_load_image`. -/
def runLoad (o : Oracle) (i : ImageOracle) (s : Loading) : Option (Bool × Loading) :=
  sqfsMgrLoadImage.run (Loading.handle o i) s

namespace ImageOracle
variable (i : ImageOracle)

/-- The steps from the data reader on succeed. -/
def readerReady : Prop := i.dataReaderCreate ≠ none ∧ i.loadFragmentTable = .ok ()

/-- The steps from the compressor's options on succeed. -/
def optionsReady (super : Super) : Prop :=
  (super.flags &&& SQFS_FLAG_COMPRESSOR_OPTIONS ≠ 0 → i.readOptions = .ok ()) ∧ i.readerReady

/-- The steps from the compressor on succeed. -/
def compressorReady (super : Super) : Prop :=
  i.compressorConfigInit = .ok () ∧ (∃ compressor, i.compressorCreate = .ok compressor) ∧
    i.optionsReady super

/-- Every step after the opening of the file succeeds. -/
def Completes : Prop := ∃ super, i.superRead = .ok super ∧ i.compressorReady super

end ImageOracle

/-- What an attempt that fails with the file open does from then on. -/
inductive Undoing (file : Nat) : List ObjectEvent → Prop
  | file : Undoing file [.freed file]
  | compressor (compressor : Nat) :
    Undoing file [.created compressor, .destroyed compressor, .freed file]
  | dataReader (compressor dataReader : Nat) :
    Undoing file [.created compressor, .created dataReader, .destroyed dataReader,
      .destroyed compressor, .freed file]

section
variable {o : Oracle} {i : ImageOracle}

private theorem run_relay {α : Type} (p : Hook α) (s : Loading) :
    (relay p).run (Loading.handle o i) s =
      (runAlone o p s.world).map fun out => (out.1, { s with world := out.2 }) := by
  induction p generalizing s with
  | ret a => rfl
  | undefined => rfl
  | request e k ih => exact ih _ _

/-- The manager and the objects are as they were. -/
private structure Kept (s s' : Loading) : Prop where
  mgr : s'.mgr = s.mgr
  super : s'.super = s.super
  objects : s'.objects = s.objects

private theorem Kept.trans {s₀ s₁ s₂ : Loading} (h : Kept s₀ s₁) (k : Kept s₁ s₂) : Kept s₀ s₂ :=
  ⟨k.mgr.trans h.mgr, k.super.trans h.super, k.objects.trans h.objects⟩

private theorem ends_log (s : Loading) :
    (relay logMsg).Ends (Loading.handle o i) s fun _ s' => Kept s s' := by
  refine ⟨(), { s with world := s.world.logLine o true [] }, ?_, World.logLine_mgr .., rfl, rfl⟩
  rw [run_relay, run_logMsg]
  rfl

private theorem ends_sqfsUtilSuperInfo (s : Loading) :
    sqfsUtilSuperInfo.Ends (Loading.handle o i) s fun _ s' => Kept s s' := by
  apply (ends_log s).bind
  intro _ s₁ h₁
  apply (ends_log s₁).bind
  intro _ s₂ h₂
  apply (ends_log s₂).bind
  intro _ s₃ h₃
  apply (ends_log s₃).bind
  intro _ s₄ h₄
  exact (ends_log s₄).mono fun _ _ h₅ => (((h₁.trans h₂).trans h₃).trans h₄).trans h₅

/-- The releases of an unload. -/
private def releases (mgr : Mgr) : List ObjectEvent :=
  (mgr.dataReader.map .destroyed).toList ++ (mgr.compressor.map .destroyed).toList ++
    (mgr.file.map .freed).toList

private def unloaded (s : Loading) : Loading :=
  { s.setMgr { s.mgr with file := none, compressor := none, dataReader := none } with
    objects := s.objects ++ releases s.mgr }

private theorem run_sqfsMgrUnloadImage (s : Loading) :
    sqfsMgrUnloadImage.run (Loading.handle o i) s = some ((), unloaded s) := by
  obtain ⟨w, super, objects⟩ := s
  rcases w with ⟨env, errno, depth, ⟨file, compressor, dataReader, blockSize⟩⟩
  cases dataReader <;> cases compressor <;> cases file <;>
    simp [sqfsMgrUnloadImage, load, Loading.handle, World.handle, Loading.setMgr, Loading.mgr,
      Loading.effect, Loading.note, releases, unloaded]

/-- The three handles set. -/
private def Loaded (r : Bool) (s : Loading) : Prop := r = true ∧ s.mgr.loaded = true

/-- The three handles NULL again, after these events. -/
private def Undone (s₀ : Loading) (events : List ObjectEvent) (r : Bool) (s : Loading) : Prop :=
  r = false ∧ s.mgr.file = none ∧ s.mgr.compressor = none ∧ s.mgr.dataReader = none ∧
    s.objects = s₀.objects ++ events

private theorem ends_loadFailed (s : Loading) :
    loadFailed.Ends (Loading.handle o i) s (Undone s (releases s.mgr)) := by
  apply (ends_log s).bind
  intro _ s' h
  refine ⟨false, unloaded s', ?_, rfl, rfl, rfl, rfl, ?_⟩
  · rw [Program.run_bind, run_sqfsMgrUnloadImage]
    rfl
  · rw [← h.mgr, ← h.objects]
    rfl

private theorem Undone.step {s s₁ : Loading} {events more : List ObjectEvent} {r : Bool}
    {s' : Loading} (h : Undone s₁ more r s') (hs : s₁.objects = s.objects ++ events) :
    Undone s (events ++ more) r s' := by
  obtain ⟨hr, h1, h2, h3, ho⟩ := h
  refine ⟨hr, h1, h2, h3, ?_⟩
  rw [ho, hs, List.append_assoc]

/-- All that is left to do succeeds and the image is loaded, or what was done is undone. -/
private def Settles (s : Loading) (good : Prop) (undoes : List ObjectEvent → Prop) (r : Bool)
    (s' : Loading) : Prop :=
  (good ∧ Loaded r s') ∨ (¬ good ∧ ∃ events, Undone s events r s' ∧ undoes events)

private theorem ends_loadDataReader (s : Loading) (file compressor : Nat) (super : Super)
    (hf : s.mgr.file = some file) (hc : s.mgr.compressor = some compressor) :
    (loadDataReader file compressor super).Ends (Loading.handle o i) s
      (Settles s i.readerReady fun events => Undoing file (.created compressor :: events)) := by
  cases hr : i.dataReaderCreate with
  | none =>
    have hcreate : Loading.handle o i s (.call (.dataReaderCreate file super.blockSize compressor)) =
        (none, s) := by
      simp [Loading.handle, ImageOracle.answer, Loading.effect, hr]
    apply Program.ends_ask_bind hcreate
    apply Program.ends_ask_bind rfl
    refine (ends_loadFailed _).mono fun r s' h =>
      .inr ⟨fun h => h.1 hr, _, h.step (List.append_nil _).symm, ?_⟩
    simpa [releases, hf, hc] using Undoing.compressor compressor
  | some dataReader =>
    have hcreate : Loading.handle o i s (.call (.dataReaderCreate file super.blockSize compressor)) =
        (some dataReader, s.note (.created dataReader)) := by
      simp [Loading.handle, ImageOracle.answer, Loading.effect, hr]
    apply Program.ends_ask_bind hcreate
    apply Program.ends_ask_bind rfl
    cases ht : i.loadFragmentTable with
    | error e =>
      have htable (u : Loading) : Loading.handle o i u (.call (.loadFragmentTable dataReader)) =
          (.error e, u) := by
        simp [Loading.handle, ImageOracle.answer, Loading.effect, ht]
      apply Program.ends_ask_bind (htable _)
      refine (ends_loadFailed _).mono fun r s' h => .inr ⟨fun h => ?_, _, h.step rfl, ?_⟩
      · exact nomatch ht.symm.trans h.2
      · simpa [releases, hf, hc] using Undoing.dataReader compressor dataReader
    | ok t =>
      have htable (u : Loading) : Loading.handle o i u (.call (.loadFragmentTable dataReader)) =
          (.ok (), u) := by
        simp [Loading.handle, ImageOracle.answer, Loading.effect, ht]
      apply Program.ends_ask_bind (htable _)
      refine Program.ends_ret (.inl ⟨⟨by simp [hr], ht⟩, rfl, ?_⟩)
      simp [Mgr.loaded, hf, hc]

private theorem ends_loadOptions (s : Loading) (file compressor : Nat) (super : Super)
    (hf : s.mgr.file = some file) (hc : s.mgr.compressor = some compressor)
    (hd : s.mgr.dataReader = none) :
    (loadOptions file compressor super).Ends (Loading.handle o i) s
      (Settles s (i.optionsReady super)
        fun events => Undoing file (.created compressor :: events)) := by
  have hrest := ends_loadDataReader (o := o) (i := i) s file compressor super hf hc
  unfold loadOptions
  split
  · rename_i hflag
    cases hr : i.readOptions with
    | error e =>
      have hread : Loading.handle o i s (.call (.readOptions compressor file)) = (.error e, s) := by
        simp [Loading.handle, ImageOracle.answer, Loading.effect, hr]
      apply Program.ends_ask_bind hread
      refine (ends_loadFailed _).mono fun r s' h => .inr ⟨fun h => ?_, _, h, ?_⟩
      · exact nomatch hr.symm.trans (h.1 hflag)
      · simpa [releases, hf, hc, hd] using Undoing.compressor compressor
    | ok t =>
      have hread : Loading.handle o i s (.call (.readOptions compressor file)) = (.ok (), s) := by
        simp [Loading.handle, ImageOracle.answer, Loading.effect, hr]
      apply Program.ends_ask_bind hread
      refine hrest.mono fun r s' h => ?_
      have hgood : i.optionsReady super ↔ i.readerReady := and_iff_right fun _ => hr
      rwa [hgood]
  · rename_i hflag
    have hgood : i.optionsReady super ↔ i.readerReady := and_iff_right fun h => absurd h hflag
    rw [hgood]
    exact hrest

private theorem ends_loadCompressor (s : Loading) (file : Nat) (super : Super)
    (hf : s.mgr.file = some file) (hc : s.mgr.compressor = none) (hd : s.mgr.dataReader = none) :
    (loadCompressor file super).Ends (Loading.handle o i) s
      (Settles s (i.compressorReady super) (Undoing file)) := by
  cases hi : i.compressorConfigInit with
  | error e =>
    have hinit : Loading.handle o i s
        (.call (.compressorConfigInit super.compressionId super.blockSize)) = (.error e, s) := by
      simp [Loading.handle, ImageOracle.answer, Loading.effect, hi]
    apply Program.ends_ask_bind hinit
    refine (ends_loadFailed _).mono fun r s' h => .inr ⟨fun h => ?_, _, h, ?_⟩
    · exact nomatch hi.symm.trans h.1
    · simpa [releases, hf, hc, hd] using Undoing.file
  | ok t =>
    have hinit : Loading.handle o i s
        (.call (.compressorConfigInit super.compressionId super.blockSize)) = (.ok (), s) := by
      simp [Loading.handle, ImageOracle.answer, Loading.effect, hi]
    apply Program.ends_ask_bind hinit
    cases hr : i.compressorCreate with
    | error e =>
      have hcreate : Loading.handle o i s (.call .compressorCreate) = (.error e, s) := by
        simp [Loading.handle, ImageOracle.answer, Loading.effect, hr]
      apply Program.ends_ask_bind hcreate
      refine (ends_loadFailed _).mono fun r s' h => .inr ⟨fun h => ?_, _, h, ?_⟩
      · obtain ⟨compressor, hok⟩ := h.2.1
        exact nomatch hr.symm.trans hok
      · simpa [releases, hf, hc, hd] using Undoing.file
    | ok compressor =>
      have hcreate : Loading.handle o i s (.call .compressorCreate) =
          (.ok compressor, (s.note (.created compressor)).setMgr
            { s.mgr with compressor := some compressor }) := by
        simp [Loading.handle, ImageOracle.answer, Loading.effect, hr]
      apply Program.ends_ask_bind hcreate
      have hgood : i.compressorReady super ↔ i.optionsReady super :=
        ⟨fun h => h.2.2, fun h => ⟨hi, ⟨compressor, hr⟩, h⟩⟩
      have hrest := ends_loadOptions (o := o) (i := i) ((s.note (.created compressor)).setMgr
        { s.mgr with compressor := some compressor }) file compressor super hf rfl hd
      refine hrest.mono fun r s' h => ?_
      rcases h with ⟨hok, hloaded⟩ | ⟨hbad, events, hundone, hevents⟩
      · exact .inl ⟨hgood.mpr hok, hloaded⟩
      · exact .inr ⟨fun h => hbad (hgood.mp h), _, hundone.step rfl, hevents⟩

private theorem ends_loadSuper (s : Loading) (file : Nat) (hf : s.mgr.file = some file)
    (hc : s.mgr.compressor = none) (hd : s.mgr.dataReader = none) :
    (loadSuper file).Ends (Loading.handle o i) s (Settles s i.Completes (Undoing file)) := by
  cases hr : i.superRead with
  | error e =>
    have hread : Loading.handle o i s (.call (.superRead file)) = (.error e, s) := by
      simp [Loading.handle, ImageOracle.answer, Loading.effect, hr]
    apply Program.ends_ask_bind hread
    refine (ends_loadFailed _).mono fun r s' h => .inr ⟨fun h => ?_, _, h, ?_⟩
    · obtain ⟨super, hok, -⟩ := h
      exact nomatch hr.symm.trans hok
    · simpa [releases, hf, hc, hd] using Undoing.file
  | ok super =>
    have hread : Loading.handle o i s (.call (.superRead file)) =
        (.ok super, { s.setMgr { s.mgr with blockSize := super.blockSize } with super }) := by
      simp [Loading.handle, ImageOracle.answer, Loading.effect, hr]
    apply Program.ends_ask_bind hread
    apply (ends_log _).bind
    intro _ s₁ h₁
    have hsuper : s₁.super = super := h₁.super
    apply Program.ends_ask_bind (a := super) (by rw [← hsuper]; rfl)
    apply (ends_sqfsUtilSuperInfo s₁).bind
    intro _ s₂ h₂
    have hk := h₁.trans h₂
    have hgood : i.Completes ↔ i.compressorReady super := by
      refine ⟨fun ⟨other, hok, h⟩ => ?_, fun h => ⟨super, hr, h⟩⟩
      rw [Except.ok.inj (hr.symm.trans hok)]
      exact h
    have hrest := ends_loadCompressor (o := o) (i := i) s₂ file super
      ((congrArg Mgr.file hk.mgr).trans hf) ((congrArg Mgr.compressor hk.mgr).trans hc)
      ((congrArg Mgr.dataReader hk.mgr).trans hd)
    refine hrest.mono fun r s' h => ?_
    rcases h with ⟨hok, hloaded⟩ | ⟨hbad, events, hundone, hevents⟩
    · exact .inl ⟨hgood.mpr hok, hloaded⟩
    · have hback := hundone.step (s := s) (hk.objects.trans (List.append_nil _).symm)
      exact .inr ⟨fun h => hbad (hgood.mp h), events, hback, hevents⟩

private theorem ends_loadFile (s : Loading) (hf : s.mgr.file = none)
    (hc : s.mgr.compressor = none) (hd : s.mgr.dataReader = none) :
    loadFile.Ends (Loading.handle o i) s fun r s' =>
      (¬ (s.world.env.hooksqfsFile ≠ none ∧ i.openFile ≠ none) ∧ Undone s [] r s') ∨
      (s.world.env.hooksqfsFile ≠ none ∧ ∃ file, i.openFile = some file ∧
        Settles s i.Completes (fun events => ∃ rest, events = .opened file :: rest ∧
          Undoing file rest) r s') := by
  cases hp : s.world.env.hooksqfsFile with
  | none =>
    have hget : Loading.handle o i s (.hook (.getenv .hooksqfsFile)) = (none, s) := by
      simp [Loading.handle, World.handle, hp]
    apply Program.ends_ask_bind hget
    apply (ends_log s).bind
    intro _ s₁ h₁
    refine Program.ends_ret (.inl ⟨fun h => h.1 rfl, rfl, ?_, ?_, ?_, ?_⟩)
    · exact (congrArg Mgr.file h₁.mgr).trans hf
    · exact (congrArg Mgr.compressor h₁.mgr).trans hc
    · exact (congrArg Mgr.dataReader h₁.mgr).trans hd
    · exact h₁.objects.trans (List.append_nil _).symm
  | some path =>
    have hget : Loading.handle o i s (.hook (.getenv .hooksqfsFile)) = (some path, s) := by
      simp [Loading.handle, World.handle, hp]
    apply Program.ends_ask_bind hget
    cases hr : i.openFile with
    | none =>
      have hopen : Loading.handle o i s (.call (.openFile path)) = (none, s) := by
        simp [Loading.handle, ImageOracle.answer, Loading.effect, hr]
      apply Program.ends_ask_bind hopen
      apply Program.ends_ask_bind rfl
      apply (ends_log _).bind
      intro _ s₁ h₁
      refine Program.ends_ret (.inl ⟨fun h => h.2 rfl, rfl, ?_, ?_, ?_, ?_⟩)
      · exact congrArg Mgr.file h₁.mgr
      · exact (congrArg Mgr.compressor h₁.mgr).trans hc
      · exact (congrArg Mgr.dataReader h₁.mgr).trans hd
      · exact h₁.objects.trans (List.append_nil _).symm
    | some file =>
      have hopen : Loading.handle o i s (.call (.openFile path)) =
          (some file, s.note (.opened file)) := by
        simp [Loading.handle, ImageOracle.answer, Loading.effect, hr]
      apply Program.ends_ask_bind hopen
      apply Program.ends_ask_bind rfl
      have hrest := ends_loadSuper (o := o) (i := i)
        ((s.note (.opened file)).setMgr { s.mgr with file := some file }) file rfl hc hd
      refine hrest.mono fun r s' h => .inr ⟨nofun, file, rfl, ?_⟩
      rcases h with h | ⟨hbad, events, hundone, hevents⟩
      · exact .inl h
      · exact .inr ⟨hbad, _, hundone.step rfl, events, rfl, hevents⟩

end

/-- The three handles are NULL. -/
def Loading.Unset (s : Loading) : Prop :=
  s.mgr.file = none ∧ s.mgr.compressor = none ∧ s.mgr.dataReader = none

/-- A call of `sqfs_mgr_load_image` with the results of its steps. -/
structure Attempt where
  before : Loading
  steps : ImageOracle
  result : Bool
  after : Loading

namespace Attempt

/-- The file is opened and a later step fails. -/
def FailsOpened (a : Attempt) : Prop :=
  a.before.mgr.loaded = false ∧ a.before.world.env.hooksqfsFile ≠ none ∧
    a.steps.openFile ≠ none ∧ ¬ a.steps.Completes

/-- True with the three handles set, or false with the three NULL, every object released
once through its destructor and no descriptor left open. -/
structure AllOrNothing (a : Attempt) : Prop where
  loaded : a.result = true ↔ a.after.mgr.loaded = true
  unset : a.result = false → a.after.Unset
  released : a.result = false → ∃ events, a.after.objects = a.before.objects ++ events ∧
    ∀ addr, .opened addr ∈ events ∨ .created addr ∈ events →
      events.count (.destroyed addr) = 1 ∧ .freed addr ∉ events
  closed : a.result = false → a.after.openDescriptors = a.before.openDescriptors
  idle : a.before.mgr.loaded = true → a.result = true ∧ a.after = a.before

end Attempt

/-- Attempts one after the other, from a manager without an image. The rest of the process
does what it likes in between, the handles apart. -/
inductive LoadRun : List Attempt → Loading → Prop
  | start {s : Loading} : s.Unset → LoadRun [] s
  | other {attempts : List Attempt} {s s' : Loading} :
    LoadRun attempts s → s'.mgr = s.mgr → LoadRun attempts s'
  | load {attempts : List Attempt} {s s' : Loading} {result : Bool} (o : Oracle)
    (steps : ImageOracle) : LoadRun attempts s → runLoad o steps s = some (result, s') →
    LoadRun (attempts ++ [{ before := s, steps, result, after := s' }]) s'

section
variable {o : Oracle} {i : ImageOracle} {s : Loading}

private theorem runLoad_loaded (h : s.mgr.loaded = true) : runLoad o i s = some (true, s) := by
  have hbranch : (if s.mgr.loaded then pure true else loadFile : Loader Bool) = .ret true :=
    if_pos h
  have hrun : runLoad o i s = ((if s.mgr.loaded then pure true else loadFile : Loader Bool) >>=
      fun ok => load (.hook .unlock) >>= fun _ => .ret ok).run (Loading.handle o i)
        { s with world := s.world.locked } := rfl
  rw [hrun, hbranch]
  rfl

private theorem Loading.Unset.not_loaded (h : s.Unset) : s.mgr.loaded = false := by
  simp [Mgr.loaded, h.1]

/-- The call where no image is loaded. -/
private theorem ends_unset (h : s.Unset) :
    sqfsMgrLoadImage.Ends (Loading.handle o i) s fun r s' =>
      (¬ (s.world.env.hooksqfsFile ≠ none ∧ i.openFile ≠ none) ∧ Undone s [] r s') ∨
      (s.world.env.hooksqfsFile ≠ none ∧ ∃ file, i.openFile = some file ∧
        Settles s i.Completes (fun events => ∃ rest, events = .opened file :: rest ∧
          Undoing file rest) r s') := by
  apply Program.ends_ask_bind rfl
  apply Program.ends_ask_bind rfl
  have hbranch : (if s.mgr.loaded then pure true else loadFile : Loader Bool) = loadFile :=
    if_neg (by simp [h.not_loaded])
  change ((if s.mgr.loaded then pure true else loadFile : Loader Bool) >>= _).Ends _ _ _
  rw [hbranch]
  apply (ends_loadFile { s with world := s.world.locked } h.1 h.2.1 h.2.2).bind
  intro r s' hr
  apply Program.ends_ask_bind rfl
  exact Program.ends_ret hr

private theorem Undone.unset {s₀ : Loading} {events : List ObjectEvent} {r : Bool}
    (h : Undone s₀ events r s) : s.Unset := ⟨h.2.1, h.2.2.1, h.2.2.2.1⟩

private theorem Undoing.freed {file : Nat} {events : List ObjectEvent} (h : Undoing file events) :
    .freed file ∈ events := by
  cases h <;> simp

/-- What one call does, from a manager with all its handles or with none. -/
private theorem attempt_step {s' : Loading} {r : Bool} (hs : s.Unset ∨ s.mgr.loaded = true)
    (hrun : runLoad o i s = some (r, s')) :
    (s'.Unset ∨ s'.mgr.loaded = true) ∧
      ((Attempt.mk s i r s').AllOrNothing ↔ ¬ (Attempt.mk s i r s').FailsOpened) := by
  rcases hs with hs | hs
  · obtain ⟨r₁, s₁, hrun₁, hout⟩ := ends_unset (o := o) (i := i) hs
    obtain ⟨rfl, rfl⟩ := Prod.mk.inj (Option.some.inj (hrun.symm.trans hrun₁))
    have hidle : s.mgr.loaded = true → r = true ∧ s' = s := by
      intro h
      rw [hs.not_loaded] at h
      exact absurd h (by decide)
    rcases hout with ⟨hopen, hundone⟩ | ⟨hpath, file, hfile, ⟨hgood, hr, hl⟩ |
      ⟨hbad, events, hundone, rest, rfl, hrest⟩⟩
    · refine ⟨.inl hundone.unset, fun _ h => hopen ⟨h.2.1, h.2.2.1⟩, fun _ => ?_⟩
      have hobjects : s'.objects = s.objects := hundone.2.2.2.2.trans (List.append_nil _)
      refine ⟨?_, fun _ => hundone.unset, fun _ => ⟨[], hundone.2.2.2.2, by simp⟩, fun _ => ?_, hidle⟩
      · simp [hundone.1, hundone.unset.not_loaded]
      · rw [Loading.openDescriptors, hobjects]
        rfl
    · refine ⟨.inr hl, fun _ h => h.2.2.2 hgood, fun _ => ?_⟩
      have hnot (h : r = false) : False := by
        rw [hr] at h
        exact absurd h (by decide)
      exact ⟨by simp [hr, hl], fun h => (hnot h).elim, fun h => (hnot h).elim,
        fun h => (hnot h).elim, hidle⟩
    · refine ⟨.inl hundone.unset, fun h => ?_, fun h => ?_⟩
      · obtain ⟨events, hevents, honce⟩ := h.released hundone.1
        have he : events = .opened file :: rest :=
          List.append_cancel_left (hevents.symm.trans hundone.2.2.2.2)
        have hopened : .opened file ∈ events := he ▸ List.mem_cons_self
        have hfreed : .freed file ∈ events := he ▸ List.mem_cons_of_mem _ hrest.freed
        exact absurd hfreed (honce file (.inl hopened)).2
      · exact absurd ⟨hs.not_loaded, hpath, by simp [hfile], hbad⟩ h
  · have hsame := hrun.symm.trans (runLoad_loaded hs)
    obtain ⟨rfl, rfl⟩ := Prod.mk.inj (Option.some.inj hsame)
    refine ⟨.inr hs, fun _ h => ?_, fun _ => ⟨by simp [hs], nofun, nofun, nofun, fun _ => ⟨rfl, rfl⟩⟩⟩
    rw [h.1] at hs
    exact absurd hs (by decide)

end

private theorem LoadRun.settled {attempts : List Attempt} {s : Loading} (h : LoadRun attempts s) :
    s.Unset ∨ s.mgr.loaded = true := by
  induction h with
  | start hs => exact .inl hs
  | other _ hmgr ih =>
    rw [Loading.Unset, hmgr]
    exact ih
  | load o steps _ hrun ih => exact (attempt_step ih hrun).1

/-- A call returns, true with the three handles set or false with the three NULL. -/
theorem runLoad_settles (o : Oracle) (i : ImageOracle) {s : Loading}
    (h : s.Unset ∨ s.mgr.loaded = true) :
    ∃ r s', runLoad o i s = some (r, s') ∧
      (r = true ∧ s'.mgr.loaded = true ∨ r = false ∧ s'.Unset) := by
  rcases h with h | h
  · obtain ⟨r, s', hrun, hout⟩ := ends_unset (o := o) (i := i) h
    refine ⟨r, s', hrun, ?_⟩
    rcases hout with ⟨-, hundone⟩ | ⟨-, -, -, ⟨-, hloaded⟩ | ⟨-, events, hundone, -⟩⟩
    · exact .inr ⟨hundone.1, hundone.unset⟩
    · exact .inl hloaded
    · exact .inr ⟨hundone.1, hundone.unset⟩
  · exact ⟨true, s, runLoad_loaded h, .inl ⟨rfl, h⟩⟩

private theorem runLoad_returns (o : Oracle) (i : ImageOracle) {s : Loading}
    (h : s.Unset ∨ s.mgr.loaded = true) : (runLoad o i s).isSome := by
  obtain ⟨r, s', hrun, -⟩ := runLoad_settles o i h
  rw [hrun]
  rfl

/-- Every call of a run returns, and every attempt is all or nothing unless one fails
after it has opened the file: the file object is then only freed. -/
theorem loading_all_or_nothing_iff {attempts : List Attempt} {s : Loading}
    (h : LoadRun attempts s) :
    (∀ o i, (runLoad o i s).isSome) ∧
      ((∀ a ∈ attempts, a.AllOrNothing) ↔ ∀ a ∈ attempts, ¬ a.FailsOpened) := by
  have heach : ∀ a ∈ attempts, (a.AllOrNothing ↔ ¬ a.FailsOpened) := by
    induction h with
    | start hs => exact fun a ha => absurd ha List.not_mem_nil
    | other _ _ ih => exact ih
    | load o steps hprev hrun ih =>
      intro a ha
      rcases List.mem_append.mp ha with ha | ha
      · exact ih a ha
      · rw [List.mem_singleton.mp ha]
        exact (attempt_step hprev.settled hrun).2
  exact ⟨fun o i => runLoad_returns o i h.settled, forall₂_congr heach⟩

/-- A manager without an image. -/
def Loading.blank : Loading where
  world :=
    { World.initial with
      env := { World.initial.env with hooksqfsFile := some (ascii "/img") }
      mgr := { file := none, compressor := none, dataReader := none, blockSize := 0 } }
  super := { compressionId := 0, blockSize := 0, flags := 0 }
  objects := []

/-- An image that every step finds in order. -/
def ImageOracle.sound : ImageOracle where
  openFile := some 1
  superRead := .ok { compressionId := 1, blockSize := 0x20000, flags := 0 }
  compressorConfigInit := .ok ()
  compressorCreate := .ok 2
  readOptions := .ok ()
  dataReaderCreate := some 3
  loadFragmentTable := .ok ()

/-- An image that is opened and has no superblock. -/
def ImageOracle.noSuper : ImageOracle :=
  { ImageOracle.sound with superRead := .error .superMagic }

private theorem blank_unset : Loading.blank.Unset := ⟨rfl, rfl, rfl⟩

theorem loading_all_or_nothing_iff_sound :
    ∃ r s, runLoad .bare .sound .blank = some (r, s) ∧ (∀ o i, (runLoad o i s).isSome) ∧
      ((∀ a ∈ [Attempt.mk .blank .sound r s], a.AllOrNothing) ↔
        ∀ a ∈ [Attempt.mk .blank .sound r s], ¬ a.FailsOpened) := by
  obtain ⟨r, s, hrun, -⟩ := ends_unset (o := .bare) (i := .sound) blank_unset
  exact ⟨r, s, hrun, loading_all_or_nothing_iff (.load _ _ (.start blank_unset) hrun)⟩

/-- The descriptor of a file without a superblock stays open. -/
theorem descriptor_left_open :
    ∃ r s, LoadRun [Attempt.mk .blank .noSuper r s] s ∧ r = false ∧ s.openDescriptors = [1] ∧
      ¬ (Attempt.mk .blank .noSuper r s).AllOrNothing := by
  have hrun : (runLoad .bare .noSuper .blank).map (fun out => (out.1, out.2.openDescriptors)) =
      some (false, [1]) := by decide +kernel
  obtain ⟨⟨r, s⟩, hrun, hout⟩ := Option.map_eq_some_iff.mp hrun
  obtain ⟨hr, hopen⟩ := Prod.mk.inj hout
  refine ⟨r, s, .load _ _ (.start blank_unset) hrun, hr, hopen, fun h => ?_⟩
  have hclosed : [1] = Loading.blank.openDescriptors := hopen.symm.trans (h.closed hr)
  exact absurd hclosed (by decide)

end HookSqfs.Manager
