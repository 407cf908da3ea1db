import HookSqfs.Hooks.DirGhost

/-! What each call on directories has done where it returns. -/
namespace HookSqfs.Hooks
open Manager Interaction Tables
variable {α : Type} {w₀ : World} {g : DirGhost} {Q : α → DirGhost → Prop}

namespace Does

/-- A request that changes neither what the call has done nor what it knows. -/
theorem idle {e : Req} {k : Answer e → Hook α} (hallows : g.Allows e) (hafter : ∀ a, g.after e a = g)
    (h : ∀ a, g.Plausible w₀ e a → Does w₀ g (k a) Q) : Does w₀ g (.request e k) Q := by
  apply request hallows
  intro a ha
  rw [hafter a]
  exact h a ha

theorem setErrno {e : Errno} {k : Unit → Hook α} (h : Does w₀ (g.withErrno (some e)) (k ()) Q) :
    Does w₀ g (.request (.setErrno e) k) Q :=
  request (by trivial) fun _ _ => h

theorem unlock {k : Unit → Hook α} (h : Does w₀ g (k ()) Q) :
    Does w₀ g (.request .unlock k) Q :=
  request (by trivial) fun _ _ => h

/-- The `errno` that the call knows. -/
theorem getErrno {e : Errno} {k : Errno → Hook α} (he : g.errno = some e) (h : Does w₀ g (k e) Q) :
    Does w₀ g (.request .getErrno k) Q := by
  apply request (by trivial)
  intro a ha
  cases ha e he
  have hsame : g.after .getErrno e = g := by
    change g.withErrno (some e) = g
    rw [← he]
    rfl
  rw [hsame]
  exact h

theorem getSomeErrno {k : Errno → Hook α} (h : ∀ e, Does w₀ (g.withErrno (some e)) (k e) Q) :
    Does w₀ g (.request .getErrno k) Q :=
  request (by trivial) fun e _ => h e

theorem deref {objects : List Object} {k : Unit → Hook α} (h : Does w₀ g (k ()) Q) :
    Does w₀ g (.request (.deref objects) k) Q :=
  idle (by trivial) (fun _ => rfl) fun _ _ => h

theorem log {p : Hook α} (hp : p.All fun e => e.isLog) :
    Does w₀ g p fun _ g' => ∃ e, g' = g.withErrno e := by
  refine keep hp ?_ ⟨g.errno, rfl⟩
  rintro e _ he ⟨known, rfl⟩
  unfold Req.isLog at he
  split at he <;> first | exact ⟨trivial, fun _ => ⟨_, rfl⟩⟩ | cases he

end Does

/-- The call is an `opendir` of `name` whose first step gave `real`. It has `under` open
and `held` in its hands and has not written `dir_map`. -/
structure Busy (g : DirGhost) (name : Option CString) (real under : Option Nat)
    (held : Multiset Object) : Prop where
  call : g.call = some (.opendir name)
  real : g.ledger.real = some (name, real)
  writes : g.writes = []
  streams : replay 0 g.ledger.streams = some (under.elim 0 fun dir => {dir})
  objects : replay 0 g.ledger.objects = some held
  free : ∀ dir, under = some dir → g.hold dir = .free

section
variable {name : Option CString} {real under : Option Nat} {held held' : Multiset Object}

theorem Busy.withErrno (h : Busy g name real under held) (e : Option Errno) :
    Busy (g.withErrno e) name real under held :=
  ⟨h.call, h.real, h.writes, h.streams, h.objects, h.free⟩

theorem Busy.after_lock (h : Busy g name real under held) :
    Busy (g.after .lock ()) name real under held :=
  ⟨h.call, h.real, h.writes, h.streams, h.objects, h.free⟩

/-- An outside call on no stream. -/
theorem Busy.after_call (h : Busy g name real under held) {c : Ext} {a : c.Ans}
    (hs : c.streamEvents a = []) (hhold : DirGhost.holdAfter g.hold (.call c) a = g.hold)
    (hc : replay held (c.events a) = some held') :
    Busy (g.after (.call c) a) name real under held' where
  call := h.call
  real := by
    change g.ledger.real.or (c.opened a) = _
    rw [h.real]
    rfl
  writes := h.writes
  streams := by
    change replay 0 (g.ledger.streams ++ c.streamEvents a) = _
    rw [hs, List.append_nil]
    exact h.streams
  objects := by
    change replay 0 (g.ledger.objects ++ c.events a) = _
    rw [replay_append, h.objects]
    exact hc
  free := by
    intro dir hdir
    change DirGhost.holdAfter g.hold (.call c) a dir = _
    rw [hhold]
    exact h.free dir hdir

/-- The release of an object that the call has. -/
theorem Busy.after_release {x : Object} (h : Busy g name real under (x ::ₘ held)) {c : Ext}
    {a : c.Ans} (hs : c.streamEvents a = [])
    (hhold : DirGhost.holdAfter g.hold (.call c) a = g.hold) (hc : c.events a = [.released x]) :
    Busy (g.after (.call c) a) name real under held := by
  refine h.after_call hs hhold ?_
  rw [hc]
  simp [replay, LedgerEvent.apply]

/-- The stream of the call is closed. -/
theorem Busy.after_closedir {dir : Nat} (h : Busy g name real (some dir) held)
    (a : Except Errno Unit) : Busy (g.after (.call (.closedir dir)) a) name real none held where
  call := h.call
  real := by
    change g.ledger.real.or none = _
    rw [h.real]
    rfl
  writes := h.writes
  streams := by
    change replay 0 (g.ledger.streams ++ [.released dir]) = _
    rw [replay_append, h.streams]
    simp [replay, LedgerEvent.apply]
  objects := by
    change replay 0 (g.ledger.objects ++ []) = _
    rw [List.append_nil]
    exact h.objects
  free := nofun

/-- The call opens the stream of its backing directory. -/
theorem Busy.after_opendir (h : Busy g name real none held) (path : Option CString)
    (stream : DirStream) :
    Busy (g.after (.call (.opendir path)) (.ok stream)) name real (some stream.addr) held where
  call := h.call
  real := by
    change g.ledger.real.or _ = _
    rw [h.real]
    rfl
  writes := h.writes
  streams := by
    change replay 0 (g.ledger.streams ++ [.acquired stream.addr]) = _
    rw [replay_append, h.streams]
    rfl
  objects := by
    change replay 0 (g.ledger.objects ++ []) = _
    rw [List.append_nil]
    exact h.objects
  free := by
    intro dir hdir
    cases hdir
    exact Function.update_self ..

/-- The call has failed with `e`, and has nothing open and nothing in its hands. -/
structure Fails (g : DirGhost) (name : Option CString) (real : Option Nat) (e : Errno)
    (failed : Option Errno) (r : Option Nat) : Prop where
  result : r = none
  busy : Busy g name real none 0
  errno : g.errno = some e
  failed : g.ledger.failed = failed

theorem does_opendirOutUnlockOnly_none {e : Errno} (h : Busy g name real under 0)
    (he : g.errno = some e) :
    Does w₀ g (opendirOutUnlockOnly under none) fun r g' =>
      Fails g' name real e g.ledger.failed r := by
  apply Does.getErrno he
  apply Does.unlock
  cases under with
  | none => exact .ret ⟨rfl, h, he, rfl⟩
  | some dir =>
    apply Does.request (by exact h.free dir rfl)
    intro a _
    exact .setErrno (.ret ⟨rfl, (h.after_closedir a).withErrno _, rfl, rfl⟩)

/-- The result of `sqfs_opendir` under the lock: the call may close the stream that it
returns; where it fails it has left nothing, and `errno` is that of the last step that
failed, or tells that what was found is no directory. -/
def Outcome (name : Option CString) (g : DirGhost) : Option Nat → Prop
  | some dir => g.hold dir ≠ .unknown
  | none => (∃ real, Busy g name real none 0) ∧
      g.errno = some (g.ledger.failed.getD Errno.ENOTDIR)

/-- An exit that keeps its stream. -/
theorem does_opendirOutUnlockOnly_some {dir : Nat} (h : g.hold dir ≠ .unknown) :
    Does w₀ g (opendirOutUnlockOnly under (some dir)) fun r g' => Outcome name g' r := by
  apply Does.getSomeErrno
  intro e
  apply Does.unlock
  cases under <;> exact .ret h

theorem does_opendirOut {e : Errno} {dirReader : Nat} {inode : Option Nat}
    (h : Busy g name real under (inode.elim {readerObject dirReader}
      fun addr => {⟨.library, addr⟩, readerObject dirReader}))
    (he : g.errno = some e) :
    Does w₀ g (opendirOut under dirReader inode) fun r g' =>
      Fails g' name real e g.ledger.failed r := by
  apply Does.getErrno he
  have hdestroy {g : DirGhost} (h : Busy g name real under {readerObject dirReader}) :
      Does w₀ g (call (.sqfsDestroy dirReader) >>= fun _ => setErrno e >>= fun _ =>
        opendirOutUnlockOnly under none) fun r g' => Fails g' name real e g.ledger.failed r := by
    apply Does.request (by trivial)
    intro a _
    have hafter : Busy (g.after (.call (.sqfsDestroy dirReader)) a) name real under 0 :=
      h.after_release rfl rfl rfl
    exact .setErrno (does_opendirOutUnlockOnly_none (hafter.withErrno _) rfl)
  cases inode with
  | none => exact hdestroy h
  | some addr =>
    apply Does.request (by trivial)
    intro a _
    exact hdestroy (h.after_release rfl rfl rfl)

/-- After a step of the image's side: what it found is in the call's hands, or the call
knows the errno with which it failed. -/
def Sought (name : Option CString) (real under : Option Nat) (held : Multiset Object) (g : DirGhost) :
    Option InodePtr → Prop
  | some inode => Busy g name real under (inode.object ::ₘ held) ∧ g.ledger.failed = none
  | none => Busy g name real under held ∧ ∃ e, g.errno = some e ∧ g.ledger.failed = some e

/-- The lookup of `sqfs_find_inode`, the reader still in its hands. -/
private def Looked (name : Option CString) (real under : Option Nat) (held : Multiset Object)
    (g : DirGhost) : Except SqfsError InodePtr → Prop
  | .ok inode => Busy g name real under (inode.object ::ₘ held) ∧ g.ledger.failed = none
  | .error e => Busy g name real under held ∧ g.ledger.failed = some (errnoFromSqfs e)

private theorem does_imageCall (h : Busy g name real under held) (hf : g.ledger.failed = none)
    (relative : CString) :
    Does w₀ g (if relative = [] then call .getRootInode else call (.findByPath relative) :
      Hook (Except SqfsError InodePtr)) fun ret g' => Looked name real under held g' ret := by
  have hnone {c : Ext} {a : c.Ans} (ha : c.stepErrno a = none) :
      (g.after (.call c) a).ledger.failed = none := by
    change (c.stepErrno a).or g.ledger.failed = none
    rw [ha, hf]
    rfl
  apply Does.ite
  · intro _
    apply Does.request (by trivial)
    rintro (e | inode) _
    · exact .ret ⟨h.after_call rfl rfl rfl, rfl⟩
    · exact .ret ⟨h.after_call rfl rfl rfl, hnone rfl⟩
  · intro _
    apply Does.request (by trivial)
    rintro (e | inode) _
    · exact .ret ⟨h.after_call rfl rfl rfl, rfl⟩
    · exact .ret ⟨h.after_call rfl rfl rfl, hnone rfl⟩

private theorem does_findWithReader {dirReader : Nat}
    (h : Busy g name real under (readerObject dirReader ::ₘ held)) (hf : g.ledger.failed = none)
    (relative : CString) :
    Does w₀ g (findWithReader relative dirReader) fun r g' => Sought name real under held g' r := by
  apply (does_imageCall h hf relative).bind
  rintro (e | inode) g' hg'
  · obtain ⟨hbusy, hfailed⟩ := hg'
    apply Does.request (by trivial)
    intro a _
    exact .setErrno (.ret ⟨(hbusy.after_release rfl rfl rfl).withErrno _, _, rfl, hfailed⟩)
  · obtain ⟨hbusy, hfailed⟩ := hg'
    rw [Multiset.cons_swap] at hbusy
    apply Does.request (by trivial)
    intro a _
    exact .ret ⟨hbusy.after_release rfl rfl rfl, hfailed⟩

theorem does_sqfsFindInode (hloaded : w₀.mgr.loaded = true) (h : Busy g name real under held)
    (hf : g.ledger.failed = none) (relative : CString) :
    Does w₀ g (sqfsFindInode (some relative)) fun r g' => Sought name real under held g' r := by
  apply Does.idle (by trivial) (by intro _; rfl)
  rintro _ rfl
  apply Does.ite
  · intro _
    apply Does.request (by trivial)
    intro reader _
    cases reader with
    | none => exact .setErrno (.ret ⟨(h.after_call rfl rfl rfl).withErrno _, _, rfl, rfl⟩)
    | some reader =>
      have hfailed : (g.after (.call .dirReaderCreate) (some reader)).ledger.failed = none := by
        change Option.or none g.ledger.failed = none
        rw [hf]
        rfl
      exact does_findWithReader (h.after_call rfl rfl rfl) hfailed relative
  · exact fun hn => absurd hloaded hn

/-- After `create_backing_dir`. -/
def Backed (name : Option CString) (real : Option Nat) (held : Multiset Object) (g : DirGhost) :
    Option Nat → Prop
  | some dir => Busy g name real (some dir) held
  | none => Busy g name real none held ∧ ∃ e, g.errno = some e ∧ g.ledger.failed = some e

/-- The loop; once it has failed to make a directory the last failure is `EEXIST`. -/
private theorem does_createBackingDirLoop (i : Nat) (h : Busy g name real none held)
    (hi : i = 0 → g.ledger.failed = some Errno.EEXIST) :
    Does w₀ g (createBackingDirLoop i) fun r g' => Backed name real held g' r := by
  induction i generalizing g with
  | zero => exact .setErrno (.ret ⟨h.withErrno _, _, rfl, hi rfl⟩)
  | succ i ih =>
    apply Does.idle (by trivial) (by intro _; rfl)
    intro id _
    apply Does.idle (by trivial) (by intro _; rfl)
    intro pid _
    apply Does.request (by trivial)
    intro made _
    cases made with
    | error e =>
      have hmade : Busy (g.after (.call (.mkdir (backingDirPath pid id))) (.error e)) name real none
        held := h.after_call rfl rfl rfl
      apply Does.getErrno rfl
      apply Does.ite
      · rintro rfl
        exact ih hmade fun _ => rfl
      · exact fun _ => .ret ⟨hmade, e, rfl, rfl⟩
    | ok u =>
      have hmade : Busy (g.after (.call (.mkdir (backingDirPath pid id))) (.ok u)) name real none
        held := h.after_call rfl rfl rfl
      apply Does.request
      · intro hnone
        rw [hmade.real] at hnone
        cases hnone
      intro dir _
      cases dir with
      | error e =>
        have hopen : Busy ((g.after (.call (.mkdir (backingDirPath pid id))) (.ok u)).after
          (.call (.opendir (some (backingDirPath pid id)))) (.error e)) name real none held :=
          hmade.after_call rfl rfl rfl
        apply Does.getErrno rfl
        apply Does.request (by trivial)
        intro a _
        exact .setErrno (.ret ⟨(hopen.after_call rfl rfl rfl).withErrno _, e, rfl, rfl⟩)
      | ok stream =>
        apply Does.getSomeErrno
        intro savedErrno
        apply Does.request (by trivial)
        intro a _
        exact .ret (((hmade.after_opendir _ stream).withErrno _).after_call rfl rfl rfl)

/-- The stream for the entry is the real one where there is one. -/
private theorem does_opendirBacking (h : Busy g name real real held) :
    Does w₀ g (opendirBacking real) fun r g' => Backed name real held g' r ∧
      ∀ dir realDir, r = some dir → real = some realDir → dir = realDir := by
  cases real with
  | some dir =>
    refine .ret ⟨h, ?_⟩
    rintro _ _ ⟨⟩ ⟨⟩
    rfl
  | none =>
    apply (does_createBackingDirLoop 128 h nofun).mono
    exact fun r g' hg' => ⟨hg', nofun⟩

section
variable {dir : Nat}

private theorem does_free (list : List SqfsDirEntryNode) (h : g.hold dir = .mapped) :
    Does w₀ g (freeSqfsDirEntryList list) fun _ g' => g'.hold dir = .mapped := by
  refine .keep (freeSqfsDirEntryList_all list) ?_ h
  intro e g he hg
  unfold isFree at he
  split at he
  · exact ⟨trivial, fun _ => hg⟩
  · exact ⟨trivial, fun _ => hg⟩
  · exact ⟨trivial, fun _ => hg⟩
  · cases he

private theorem does_enumerateDiscard (key : Nat) (list : List SqfsDirEntryNode)
    (h : g.hold dir = .mapped) :
    Does w₀ g (enumerateDiscard key list) fun _ g' => g'.hold dir = .mapped := by
  apply (does_free list h).bind
  intro _ _ hg'
  apply Does.request (by trivial)
  exact fun _ _ => .ret hg'

/-- The loop keeps the entry; after a name that overruns `d_name` nothing is said. -/
private theorem does_enumerateDirLoop (b : Bits) (key : Nat) (final : Except SqfsError Unit)
    (items : List DirItem) (list : List SqfsDirEntryNode) (h : g.hold dir = .mapped) :
    Does w₀ g (enumerateDirLoop b key final items list) fun _ g' => g'.hold dir = .mapped := by
  have hgive (addr : Nat) (list : List SqfsDirEntryNode) {g : DirGhost} (hg : g.hold dir = .mapped) :
      Does w₀ g (logMsg >>= fun _ => call (.sqfsFree addr) >>= fun _ => enumerateDiscard key list)
        fun _ g' => g'.hold dir = .mapped := by
    apply (Does.log logMsg_all).bind
    rintro _ _ ⟨e, rfl⟩
    apply Does.request (by trivial)
    exact fun _ _ => does_enumerateDiscard key list hg
  induction items generalizing list g with
  | nil =>
    apply Does.request (by trivial)
    intro _ _
    cases final with
    | ok u => exact .ret h
    | error err =>
      apply (Does.log logMsg_all).bind
      rintro _ _ ⟨e, rfl⟩
      exact does_enumerateDiscard key list h
  | cons item items ih =>
    apply Does.request (by trivial)
    intro _ _
    apply Does.request (by trivial)
    intro node _
    cases node with
    | none => exact hgive _ list h
    | some addr =>
      apply Does.request (by trivial)
      intro _ _
      dsimp only [Program.bind]
      cases item.inode with
      | error e =>
        apply Does.deref
        exact hgive _ list h
      | ok inode =>
        apply Does.deref
        split
        · trivial
        · apply Does.deref
          apply Does.request (by trivial)
          exact fun _ _ => ih _ h

end

private theorem Fails.outcome {e : Errno} {failed : Option Errno} {r : Option Nat}
    (h : Fails g name real e failed r) (he : e = failed.getD Errno.ENOTDIR) : Outcome name g r := by
  obtain ⟨rfl, hbusy, herrno, hfailed⟩ := h
  refine ⟨⟨real, hbusy⟩, ?_⟩
  rw [herrno, hfailed, he]

private theorem does_opendirInsert (b : Bits) (dirReader : Nat) (inode : InodePtr)
    (cursor : DirCursor) (h : Busy g name real real {inode.object, readerObject dirReader}) :
    Does w₀ g (opendirInsert b real dirReader inode cursor) fun r g' => Outcome name g' r := by
  apply (does_opendirBacking h).bind
  rintro underlyingDir g' ⟨hbacked, hsame⟩
  cases underlyingDir with
  | none =>
    obtain ⟨hbusy, e, herrno, hfailed⟩ := hbacked
    apply (does_opendirOut hbusy herrno).mono
    intro r g'' hfails
    apply hfails.outcome
    rw [hfailed]
    rfl
  | some dir =>
    have hbusy : Busy g' name real (some dir) {inode.object, readerObject dirReader} := hbacked
    apply Does.request (by trivial)
    intro dirEntry _
    cases dirEntry with
    | none =>
      have hmalloc : Busy (g'.after (.call .malloc) none) name real (some dir)
        {inode.object, readerObject dirReader} := hbusy.after_call rfl rfl rfl
      apply Does.setErrno
      apply (does_opendirOut (hmalloc.withErrno _) rfl).mono
      exact fun r g'' hfails => hfails.outcome rfl
    | some addr =>
      have hmalloc : Busy (g'.after (.call .malloc) (some addr)) name real (some dir)
        {⟨.malloc, addr⟩, inode.object, readerObject dirReader} := hbusy.after_call rfl rfl rfl
      apply Does.request
      · refine ⟨hmalloc.free dir rfl, name, real, hmalloc.call, hmalloc.real, rfl, ?_⟩
        exact fun realDir hreal => hsame dir realDir rfl hreal
      intro _ _
      have hinserted : ((g'.after (.call .malloc) (some addr)).after (.dirMapAdd
          { addr, key := dir, dirReader, isRealDir := real.isSome, dirEntryList := []
            dirEntryCurrent := [], dirEntryListReachedEnd := false }) ()).hold dir = .mapped :=
        Function.update_self ..
      apply (does_enumerateDirLoop b dir cursor.final cursor.items [] hinserted).bind
      intro _ g'' hmapped
      apply Does.request (by trivial)
      intro _ _
      change Does w₀ _ (opendirOutUnlockOnly (some dir) (some dir)) _
      apply does_opendirOutUnlockOnly_some
      exact fun hn => absurd (hmapped.symm.trans hn) nofun

private theorem does_opendirLookup (b : Bits) (hloaded : w₀.mgr.loaded = true)
    (relative : CString) (dirReader : Nat) (h : Busy g name real real {readerObject dirReader})
    (hf : g.ledger.failed = none) :
    Does w₀ g (opendirLookup b real relative dirReader) fun r g' => Outcome name g' r := by
  apply (does_sqfsFindInode hloaded h hf relative).bind
  rintro inode g' hsought
  cases inode with
  | none =>
    obtain ⟨hbusy, e, herrno, hfailed⟩ := hsought
    apply Does.getErrno herrno
    apply (Does.log (logHook_all _)).bind
    rintro _ _ ⟨known, rfl⟩
    cases real with
    | some dir =>
      apply Does.request (by trivial)
      intro _ _
      apply Does.setErrno
      change Does w₀ _ (opendirOutUnlockOnly (some dir) (some dir)) _
      apply does_opendirOutUnlockOnly_some
      exact fun hn => absurd ((hbusy.free dir rfl).symm.trans hn) nofun
    | none =>
      apply Does.setErrno
      refine (does_opendirOut ((hbusy.withErrno known).withErrno (some e)) rfl).mono ?_
      intro r g'' hfails
      apply hfails.outcome
      exact (congrArg (Option.getD · Errno.ENOTDIR) hfailed).symm
  | some inode =>
    obtain ⟨hbusy, hfailed⟩ := hsought
    apply Does.deref
    apply Does.ite
    · intro _
      apply Does.request (by trivial)
      intro ret _
      cases ret with
      | error e =>
        have hopen : Busy (g'.after (.call (.openDir inode)) (.error e)) name real real
          {inode.object, readerObject dirReader} := hbusy.after_call rfl rfl rfl
        apply (Does.log logMsg_all).bind
        rintro _ _ ⟨known, rfl⟩
        apply Does.setErrno
        refine (does_opendirOut ((hopen.withErrno known).withErrno _) rfl).mono ?_
        exact fun r g'' hfails => hfails.outcome rfl
      | ok cursor => exact does_opendirInsert b dirReader inode cursor (hbusy.after_call rfl rfl rfl)
    · intro _
      apply Does.setErrno
      refine (does_opendirOut (hbusy.withErrno _) rfl).mono ?_
      intro r g'' hfails
      apply hfails.outcome
      exact (congrArg (Option.getD · Errno.ENOTDIR) hfailed).symm

/-- What `sqfs_opendir` leaves. Of its errno nothing is said unless an image is loaded. -/
private def Ended (w₀ : World) (name : Option CString) (g : DirGhost) : Option Nat → Prop
  | some dir => g.hold dir ≠ .unknown
  | none => (∃ real, Busy g name real none 0) ∧ ((w₀.routed name).1 = 0 → w₀.mgr.loaded = true →
      g.errno = some (g.ledger.failed.getD Errno.ENOTDIR))

private theorem Outcome.ended {r : Option Nat} (h : Outcome name g r) : Ended w₀ name g r := by
  cases r with
  | some dir => exact h
  | none => exact ⟨h.1, fun _ _ => h.2⟩

private theorem does_opendirLower (b : Bits) (relative : CString) (h : Busy g name real real 0) :
    Does w₀ g (opendirLower b real relative) fun r g' => Ended w₀ name g' r := by
  apply (Does.log (logHook_all _)).bind
  rintro _ _ ⟨known, rfl⟩
  apply Does.request (by trivial)
  intro _ _
  have hlocked : Busy ((g.withErrno known).after .lock ()) name real real 0 :=
    (h.withErrno known).after_lock
  apply Does.idle (by trivial) (by intro _; rfl)
  rintro _ rfl
  apply Does.ite
  · intro hloaded
    apply Does.request (by trivial)
    intro dirReader _
    cases dirReader with
    | none =>
      have hcreate : Busy (((g.withErrno known).after .lock ()).after (.call .dirReaderCreate) none)
        name real real 0 := hlocked.after_call rfl rfl rfl
      apply Does.setErrno
      refine (does_opendirOutUnlockOnly_none (hcreate.withErrno _) rfl).mono ?_
      exact fun r g' hfails => (hfails.outcome rfl).ended
    | some dirReader =>
      refine (does_opendirLookup b hloaded relative dirReader ?_ rfl).mono fun r g' hr => hr.ended
      exact hlocked.after_call rfl rfl rfl
  · intro hunloaded
    apply Does.setErrno
    cases real with
    | some dir =>
      change Does w₀ _ (opendirOutUnlockOnly (some dir) (some dir)) _
      refine Does.mono (does_opendirOutUnlockOnly_some ?_) fun r g' hr => Outcome.ended hr
      exact fun hn => absurd ((h.free dir rfl).symm.trans hn) nofun
    | none =>
      refine (does_opendirOutUnlockOnly_none (hlocked.withErrno _) rfl).mono ?_
      rintro _ g' ⟨rfl, hbusy, -, -⟩
      exact ⟨⟨none, hbusy⟩, fun _ hloaded => absurd hloaded hunloaded⟩

private theorem does_sqfsOpendir (b : Bits) :
    Does w₀ (.start (.opendir name)) (sqfsOpendir b name) fun r g' => Ended w₀ name g' r := by
  apply Does.request (by exact fun _ => rfl)
  intro real _
  have hbusy : Busy ((DirGhost.start (.opendir name)).after (.call (.opendir name)) real) name
      (realStream real) (realStream real) 0 := by
    cases real with
    | error e => exact ⟨rfl, rfl, rfl, rfl, rfl, nofun⟩
    | ok stream =>
      refine ⟨rfl, rfl, rfl, rfl, rfl, ?_⟩
      rintro _ ⟨⟩
      exact Function.update_self ..
  apply Does.idle (by trivial) (by intro _; rfl)
  rintro _ rfl
  apply Does.idle (by trivial) (by intro _; rfl)
  rintro _ rfl
  change Does w₀ _ (if (w₀.routed name).1 ≠ 0 then _ else opendirLower b (realStream real) _) _
  apply Does.ite
  · intro hrouted
    apply Does.setErrno
    cases real with
    | error e => exact .ret ⟨⟨none, hbusy.withErrno _⟩, fun h => absurd h hrouted⟩
    | ok stream =>
      refine .ret fun hunknown => ?_
      exact absurd ((hbusy.free stream.addr rfl).symm.trans hunknown) nofun
  · intro _
    exact does_opendirLower b _ hbusy

end
/-- A `closedir` of `dir` has looked it up and, where it was mapped, taken out its entry. -/
private structure ClosingDir (g : DirGhost) (dir : Nat) (mapped : Bool) : Prop where
  free : g.hold dir = .free
  streams : g.ledger.streams = []
  finds : g.finds = [(dir, mapped)]
  writes : g.writes = if mapped then [.dirMapDel dir] else []

section
variable {dir : Nat} {mapped : Bool}

private theorem ClosingDir.withErrno (h : ClosingDir g dir mapped) (e : Option Errno) :
    ClosingDir (g.withErrno e) dir mapped :=
  ⟨h.free, h.streams, h.finds, h.writes⟩

private theorem ClosingDir.after_call (h : ClosingDir g dir mapped) {c : Ext} {a : c.Ans}
    (hs : c.streamEvents a = []) (hhold : DirGhost.holdAfter g.hold (.call c) a = g.hold) :
    ClosingDir (g.after (.call c) a) dir mapped where
  free := by
    change DirGhost.holdAfter g.hold (.call c) a dir = .free
    rw [hhold, h.free]
  streams := by
    change g.ledger.streams ++ c.streamEvents a = []
    rw [hs, h.streams]
    rfl
  finds := h.finds
  writes := h.writes

/-- What a `closedir` of `dir` has done at its end. -/
def Closed (g : DirGhost) (dir : Nat) : Prop :=
  g.ledger.streams = [.released dir] ∧
    (g.finds = [(dir, true)] ∧ g.writes = [.dirMapDel dir] ∨ g.finds = [(dir, false)] ∧ g.writes = [])

private theorem ClosingDir.closed (h : ClosingDir g dir mapped) (a : Except Errno Unit) :
    Closed (g.after (.call (.closedir dir)) a) dir := by
  refine ⟨?_, ?_⟩
  · change g.ledger.streams ++ [.released dir] = _
    rw [h.streams]
    rfl
  · cases mapped with
    | true => exact .inl ⟨h.finds, h.writes⟩
    | false => exact .inr ⟨h.finds, h.writes⟩

private theorem does_lastClosedir (h : ClosingDir g dir mapped) :
    Does w₀ g (call (.closedir dir) >>= fun ret : Except Errno Unit => match ret with
      | .error _ => return -1
      | .ok _ => return 0 : Hook Int) fun _ g' => Closed g' dir := by
  apply Does.request (by exact h.free)
  intro ret _
  cases ret <;> exact .ret (h.closed _)

private theorem does_sqfsClosedir (dir : Nat) :
    Does w₀ (.start (.closedir dir)) (sqfsClosedir dir) fun _ g' => Closed g' dir := by
  have hheld : (DirGhost.start (.closedir dir)).hold dir = .held := if_pos rfl
  apply Does.request (by trivial)
  intro _ _
  apply Does.request (by trivial)
  intro mapped _
  cases mapped with
  | false =>
    apply Does.unlock
    have hclosing : ClosingDir (((DirGhost.start (.closedir dir)).after .lock ()).after
        (.dirMapFind dir) false) dir false :=
      ⟨(Function.update_self ..).trans (congrArg (Hold.found · false) hheld), rfl, rfl, rfl⟩
    exact does_lastClosedir hclosing
  | true =>
    have hmapped : ((((DirGhost.start (.closedir dir)).after .lock ()).after (.dirMapFind dir)
        true).hold dir) = .mapped :=
      (Function.update_self ..).trans (congrArg (Hold.found · true) hheld)
    apply Does.idle (by trivial) (by intro _; rfl)
    intro found hkey
    have hkey : found.key = dir := hkey hmapped
    apply Does.request (by exact hmapped)
    intro _ _
    have hclosing : ClosingDir ((((DirGhost.start (.closedir dir)).after .lock ()).after
        (.dirMapFind dir) true).after (.dirMapDel dir) ()) dir true :=
      ⟨Function.update_self .., rfl, rfl, rfl⟩
    generalize (((DirGhost.start (.closedir dir)).after .lock ()).after (.dirMapFind dir)
      true).after (.dirMapDel dir) () = g at hclosing
    apply Does.deref
    apply Does.request (by trivial)
    intro _ _
    apply Does.deref
    have hfree : Does w₀ (g.after (.call (.sqfsDestroy found.dirReader)) ())
        (freeSqfsDirEntryList found.dirEntryList) fun _ g' => ClosingDir g' dir true := by
      refine .keep (freeSqfsDirEntryList_all _) ?_ (hclosing.after_call rfl rfl)
      intro e g he hg
      unfold isFree at he
      split at he
      · exact ⟨trivial, fun _ => hg⟩
      · exact ⟨trivial, fun _ => hg.after_call rfl rfl⟩
      · exact ⟨trivial, fun _ => hg.after_call rfl rfl⟩
      · cases he
    apply hfree.bind
    intro _ g' hg'
    apply Does.deref
    apply Does.request (by trivial)
    intro a _
    have hg'' : ClosingDir (g'.after (.call (.free found.addr)) a) dir true := hg'.after_call rfl rfl
    apply (Does.log (logHook_all _)).bind
    rintro _ _ ⟨known, rfl⟩
    apply Does.unlock
    rw [hkey]
    exact does_lastClosedir (hg''.withErrno known)

end

private theorem does_sqfsReaddir (dirp : Nat) :
    Does w₀ g (sqfsReaddir dirp) fun _ _ => True := by
  refine .keep (sqfsReaddir_all dirp) ?_ trivial
  intro e g he _
  unfold forReaddir at he
  split at he <;> try exact ⟨trivial, fun _ => trivial⟩
  unfold Req.isLog at he
  split at he <;> first | exact ⟨trivial, fun _ => trivial⟩ | cases he

/-- What a call has done where it returns. -/
def DirGoal (w₀ : World) : DirCall → DirResult → DirGhost → Prop
  | .opendir name, .stream none, g => g.writes = [] ∧ replay 0 g.ledger.streams = some 0 ∧
      replay 0 g.ledger.objects = some 0 ∧ ((w₀.routed name).1 = 0 → w₀.mgr.loaded = true →
        g.errno = some (g.ledger.failed.getD Errno.ENOTDIR))
  | .opendir _, .stream (some dir), g => g.hold dir ≠ .unknown
  | .readdir _, .dirent _, _ => True
  | .closedir dir, .ret _, g => Closed g dir
  | _, _, _ => False

theorem does_program (b : Bits) (call : DirCall) :
    Does w₀ (.start call) (call.program b) fun r g => DirGoal w₀ call r g := by
  cases call with
  | opendir name =>
    apply (does_sqfsOpendir b).bind
    intro r g hr
    cases r with
    | some dir => exact .ret hr
    | none =>
      obtain ⟨⟨real, hbusy⟩, herrno⟩ := hr
      exact .ret ⟨hbusy.writes, hbusy.streams, hbusy.objects, herrno⟩
  | readdir dirp => exact (does_sqfsReaddir dirp).bind fun _ _ _ => .ret trivial
  | closedir dir => exact (does_sqfsClosedir dir).bind fun _ _ hg => .ret hg

end HookSqfs.Hooks
