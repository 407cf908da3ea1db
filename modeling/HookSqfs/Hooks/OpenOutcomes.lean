import HookSqfs.Hooks.FileHooks
import HookSqfs.Manager.BackingOutcome

/-! The outcomes of `sqfs_open`: a real descriptor, a backing descriptor with its
entry in `fd_map`, or a failure that leaves both alone. -/
namespace HookSqfs.Hooks
open Manager Interaction
variable (o : Oracle)

/-- A descriptor and memory for a served `open`. -/
def OpenRoom (w : World) (flags : BitVec 32) : Prop :=
  backingFdAnswer o w flags ≠ none ∧ o.answer (w.used .malloc) .malloc ≠ none

/-- A failure: no entry, and no descriptor more than before. -/
structure OpenFailed (w w' : World) : Prop where
  env : w'.env = w.env
  mgr : w'.mgr = w.mgr
  fdMap : w'.fdMap = w.fdMap
  dirMap : w'.dirMap = w.dirMap
  fds : w'.fds = w.fds
  streams : w'.streams = w.streams
  caller : w'.caller = w.caller
  insertedBy : w'.insertedBy = w.insertedBy
  owner : (∀ fd, w.fds fd = none → w.owner fd = none) → w'.owner = w.owner

/-- A backing descriptor under the fresh number `n`, and its entry. -/
structure OpenServed (w w' : World) (inode : InodePtr) (n addr : Nat) : Prop where
  env : w'.env = w.env
  mgr : w'.mgr = w.mgr
  dirMap : w'.dirMap = w.dirMap
  streams : w'.streams = w.streams
  caller : w'.caller = w.caller
  fresh : w.fds n = none
  fdMap : w'.fdMap = { addr, key := n, inode, offset := 0 } :: w.fdMap
  fds : w'.fds = Function.update w.fds n (some (.backing w.caller))
  owner : w'.owner = Function.update w.owner n (some (.call w.caller))
  insertedBy : w'.insertedBy = Function.update w.insertedBy n (some w.caller)

theorem OpenFailed.of_undisturbed {w w' : World} (h : Undisturbed w w') : OpenFailed w w' :=
  ⟨h.env, h.mgr, h.fdMap, h.dirMap, h.fds, h.streams, h.caller, h.insertedBy, fun _ => h.owner⟩

theorem OpenFailed.after {u v w : World} (h : OpenFailed u v) (k : Undisturbed v w) :
    OpenFailed u w :=
  ⟨k.env.trans h.env, k.mgr.trans h.mgr, k.fdMap.trans h.fdMap, k.dirMap.trans h.dirMap,
    k.fds.trans h.fds, k.streams.trans h.streams, k.caller.trans h.caller,
    k.insertedBy.trans h.insertedBy, fun hf => k.owner.trans (h.owner hf)⟩

theorem OpenFailed.before {u v w : World} (h : Undisturbed u v) (k : OpenFailed v w) :
    OpenFailed u w :=
  ⟨k.env.trans h.env, k.mgr.trans h.mgr, k.fdMap.trans h.fdMap, k.dirMap.trans h.dirMap,
    k.fds.trans h.fds, k.streams.trans h.streams, k.caller.trans h.caller,
    k.insertedBy.trans h.insertedBy,
    fun hf => (k.owner (by rw [h.fds, h.owner]; exact hf)).trans h.owner⟩

theorem OpenServed.after {u v w : World} {inode : InodePtr} {n addr : Nat}
    (h : OpenServed u v inode n addr) (k : Undisturbed v w) : OpenServed u w inode n addr :=
  ⟨k.env.trans h.env, k.mgr.trans h.mgr, k.dirMap.trans h.dirMap, k.streams.trans h.streams,
    k.caller.trans h.caller, h.fresh, k.fdMap.trans h.fdMap, k.fds.trans h.fds,
    k.owner.trans h.owner, k.insertedBy.trans h.insertedBy⟩

theorem OpenServed.before {u v w : World} {inode : InodePtr} {n addr : Nat}
    (h : Undisturbed u v) (k : OpenServed v w inode n addr) : OpenServed u w inode n addr :=
  ⟨k.env.trans h.env, k.mgr.trans h.mgr, k.dirMap.trans h.dirMap, k.streams.trans h.streams,
    k.caller.trans h.caller, h.fds ▸ k.fresh, h.fdMap ▸ k.fdMap, h.fds ▸ h.caller ▸ k.fds,
    h.owner ▸ h.caller ▸ k.owner, h.insertedBy ▸ h.caller ▸ k.insertedBy⟩

/-- The descriptor that was made is closed again. -/
private theorem closed_again {u v : World} {n : Nat} (hfresh : u.fds n = none)
    (h : Undisturbed (u.gain n (.backing u.caller)) v) : OpenFailed u (v.lose n) := by
  refine ⟨h.env, h.mgr, h.fdMap, h.dirMap, ?_, h.streams, h.caller, h.insertedBy, fun hfree => ?_⟩
  · funext fd
    rw [World.lose_fds]
    by_cases hfd : fd = n
    · rw [hfd, Function.update_self, hfresh]
    · rw [Function.update_of_ne hfd, h.fds, World.gain_fds, Function.update_of_ne hfd]
  · funext fd
    rw [World.lose_owner]
    by_cases hfd : fd = n
    · rw [hfd, Function.update_self, hfree _ hfresh]
    · rw [Function.update_of_ne hfd, h.owner, World.gain_owner, Function.update_of_ne hfd]

/-- The result of an open with its effect: a failure or an entry for a new descriptor. -/
def OpenEnds (w w' : World) (inode : InodePtr) (r : Int) : Prop :=
  r = -1 ∧ OpenFailed w w' ∨ ∃ n addr : Nat, r = n ∧ OpenServed w w' inode n addr

theorem OpenEnds.after {u v w : World} {inode : InodePtr} {r : Int} (h : OpenEnds u v inode r)
    (k : Undisturbed v w) : OpenEnds u w inode r := by
  rcases h with ⟨hr, hf⟩ | ⟨n, addr, hr, hs⟩
  · exact .inl ⟨hr, hf.after k⟩
  · exact .inr ⟨n, addr, hr, hs.after k⟩

theorem OpenEnds.before {u v w : World} {inode : InodePtr} {r : Int} (h : Undisturbed u v)
    (k : OpenEnds v w inode r) : OpenEnds u w inode r := by
  rcases k with ⟨hr, hf⟩ | ⟨n, addr, hr, hs⟩
  · exact .inl ⟨hr, .before h hf⟩
  · exact .inr ⟨n, addr, hr, .before h hs⟩

/-- The locked part of `sqfs_open` inserts an entry for a new descriptor, or fails for
want of a backing descriptor or of memory. -/
theorem run_openInsert (flags : BitVec 32) (inode : InodePtr) (w : World) :
    ∃ r w', runAlone o (openInsert flags inode) w = some (r, w') ∧ OpenEnds w w' inode r ∧
      (r = -1 ↔ ¬ OpenRoom o w flags) := by
  obtain ⟨w1, hrun, hmade, hmalloc⟩ := run_createBackingFd o flags w
  rw [openInsert, runAlone_bind, hrun, Option.bind_some, OpenRoom, ← hmalloc]
  cases hback : backingFdAnswer o w flags with
  | none =>
    rw [hback] at hmade
    refine ⟨-1, w1.afterCall o (.sqfsFree inode.addr) (w1.outcome o (.sqfsFree inode.addr)), rfl,
      .inl ⟨rfl, .of_undisturbed (Undisturbed.trans hmade ?_)⟩, by simp⟩
    exact (Quiet.afterCall w1 o (.sqfsFree inode.addr) _ rfl rfl).toUndisturbed
  | some n =>
    rw [hback] at hmade
    obtain ⟨hfresh, hgain⟩ := hmade
    have hn : ¬ ((n : Int) < 0) := by omega
    simp only [backingResult, hn, if_false, Program.ask_bind, runAlone_call]
    have hanswer : w1.outcome o .malloc = o.answer (w1.used .malloc) .malloc := rfl
    rw [← hanswer]
    cases hout : w1.outcome o .malloc with
    | none =>
      have hw2 : Undisturbed w1 ((w1.afterCall o .malloc none).withErrno Errno.ENOMEM) :=
        ((Quiet.afterCall w1 o .malloc none rfl rfl).trans (.withErrno _ _)).toUndisturbed
      generalize hw : (w1.afterCall o .malloc none).withErrno Errno.ENOMEM = w2 at hw2
      have hclosed := closed_again hfresh (hgain.trans hw2)
      have hlose : Undisturbed (w2.lose n) (w2.afterCall o (.close n) (w2.outcome o (.close n))) :=
        ⟨rfl, rfl, rfl, rfl, rfl, rfl, rfl, rfl, rfl⟩
      simp only [runAlone_setErrno, runAlone_call, hw]
      refine ⟨-1, _, rfl, .inl ⟨rfl, (hclosed.after hlose).after
        (Quiet.afterCall _ o (.sqfsFree inode.addr) _ rfl rfl).toUndisturbed⟩, by simp⟩
    | some addr =>
      have hw2 := hgain.trans (Quiet.afterCall w1 o .malloc (some addr) rfl rfl).toUndisturbed
      refine ⟨n, _, rfl, .inr ⟨n, addr, rfl, ?_⟩, by simp⟩
      refine ⟨hw2.env, hw2.mgr, hw2.dirMap, hw2.streams, hw2.caller, hfresh, ?_, hw2.fds,
        hw2.owner, ?_⟩
      · exact congrArg _ hw2.fdMap
      · have hby : (w1.afterCall o .malloc (some addr)).insertedBy = w.insertedBy := hw2.insertedBy
        have hcaller : (w1.afterCall o .malloc (some addr)).caller = w.caller := hw2.caller
        rw [← hby, ← hcaller]
        rfl

/-- `sqfs_open` from the inode on: the locked part, the unlock and the log line. -/
theorem run_openFound (flags : BitVec 32) (inode : InodePtr) (w : World) :
    ∃ r w', runAlone o (openFound flags inode) w = some (r, w') ∧ OpenEnds w w' inode r ∧
      (r = -1 ↔ ¬ OpenRoom o w flags) := by
  obtain ⟨r, w1, hrun, hends, hroom⟩ := run_openInsert o flags inode w
  refine ⟨r, w1.unlocked.logHook o (some (ascii "sqfs_open")), ?_, hends.after
    ((Quiet.unlocked w1).toUndisturbed.trans (.logHook _ _ _)), hroom⟩
  rw [openFound, runAlone_bind, hrun]
  simp [runAlone_bind]

theorem openRoom_congr {w w' : World} (flags : BitVec 32) (henv : w'.env = w.env)
    (hfds : w'.fds = w.fds) (htmp : w'.tmpFiles = w.tmpFiles)
    (hmemfd : w'.used .memfdCreate = w.used .memfdCreate)
    (hopenat : w'.used .openat = w.used .openat) (hmalloc : w'.used .malloc = w.used .malloc) :
    OpenRoom o w' flags ↔ OpenRoom o w flags := by
  rw [OpenRoom, OpenRoom, hmalloc, backingFdAnswer_congr o flags henv hfds htmp hmemfd hopenat]

/-- What `sqfs_open` finds behind a path whose real open failed: the inode, or the
errno it reports. -/
def lowerOpen (w : World) (pathname : Option CString) (real : Errno) : Except Errno InodePtr :=
  if (w.routed pathname).1 ≠ 0 then .error real else w.lookup o 0 (w.routed pathname).2

/-- `sqfs_open` after a real failure: the errno of the real call or of the lookup, or
the open of the inode found. -/
theorem run_openLower (w : World) (pathname : Option CString) (flags : BitVec 32) :
    (∀ e, lowerOpen o w pathname w.errno = .error e →
      ∃ w', runAlone o (openLower pathname flags) w = some (-1, w') ∧ w'.errno = e ∧
        Undisturbed w w') ∧
    (∀ inode, lowerOpen o w pathname w.errno = .ok inode →
      ∃ r w', runAlone o (openLower pathname flags) w = some (r, w') ∧ OpenEnds w w' inode r ∧
        (r = -1 ↔ ¬ OpenRoom o w flags)) := by
  rw [openLower, Program.ask_bind, runAlone_getErrno, runAlone_bind, run_sqfsCheckPath,
    Option.bind_some, lowerOpen]
  by_cases hr : (w.routed pathname).1 ≠ 0
  · rw [if_pos hr, if_pos hr]
    refine ⟨fun e he => ?_, nofun⟩
    cases he
    exact ⟨w.withErrno w.errno, rfl, rfl, (Quiet.withErrno _ _).toUndisturbed⟩
  · rw [if_neg hr, if_neg hr, Program.ask_bind, runAlone_lock, runAlone_bind]
    obtain ⟨w1, hrun, herr, hw1, hu⟩ := run_sqfsFindInode o (w.routed pathname).2 w.locked
    rw [World.lookup_locked] at hrun herr
    have hq := (Quiet.locked w).trans hw1
    rw [hrun, Option.bind_some]
    refine ⟨fun e he => ?_, fun inode he => ?_⟩
    · rw [he]
      refine ⟨(w1.unlocked.logHook o (some (ascii "sqfs_open"))).withErrno w1.errno, ?_,
        herr e he, ?_⟩
      · simp [Except.toOption, runAlone_bind]
      · exact ((hq.trans (.unlocked w1)).toUndisturbed.trans (.logHook _ _ _)).trans
          (Quiet.withErrno _ _).toUndisturbed
    · rw [he]
      obtain ⟨r, w', hrun', hends, hroom⟩ := run_openFound o flags inode w1
      refine ⟨r, w', hrun', .before hq.toUndisturbed hends, hroom.trans (not_congr ?_)⟩
      exact openRoom_congr o flags hq.env hq.fds hq.tmpFiles (hu _ rfl) (hu _ rfl) (hu _ rfl)

/-- `sqfs_open` gives the real descriptor, then what the lower layer has. -/
theorem run_sqfsOpen (w : World) (pathname : Option CString) (flags mode : BitVec 32) :
    (∀ fd, w.outcome o (openCall pathname flags mode) = .ok fd →
      runAlone o (sqfsOpen pathname flags mode) w =
        some ((fd : Int), w.afterCall o (openCall pathname flags mode) (.ok fd))) ∧
    (∀ real, w.outcome o (openCall pathname flags mode) = .error real →
      (∀ e, lowerOpen o w pathname real = .error e →
        ∃ w', runAlone o (sqfsOpen pathname flags mode) w = some (-1, w') ∧ w'.errno = e ∧
          Undisturbed w w') ∧
      (∀ inode, lowerOpen o w pathname real = .ok inode →
        ∃ r w', runAlone o (sqfsOpen pathname flags mode) w = some (r, w') ∧
          OpenEnds w w' inode r ∧ (r = -1 ↔ ¬ OpenRoom o w flags))) := by
  rw [sqfsOpen, Program.ask_bind, runAlone_call]
  refine ⟨fun fd hfd => ?_, fun real hreal => ?_⟩
  · rw [hfd]
    rfl
  · rw [hreal]
    have hw1 := Undisturbed.failedCall o w (openCall pathname flags mode) (.error real) rfl
    obtain ⟨hfail, hfound⟩ := run_openLower o
      (w.afterCall o (openCall pathname flags mode) (.error real)) pathname flags
    have herr : (w.afterCall o (openCall pathname flags mode) (.error real)).errno = real := rfl
    have hsame : lowerOpen o (w.afterCall o (openCall pathname flags mode) (.error real)) pathname
        real = lowerOpen o w pathname real := by
      rw [lowerOpen, lowerOpen, World.routed_congr hw1.env]
      rfl
    rw [herr, hsame] at hfail hfound
    refine ⟨fun e he => ?_, fun inode he => ?_⟩
    · obtain ⟨w', hrun, herrno, hw'⟩ := hfail e he
      exact ⟨w', hrun, herrno, hw1.trans hw'⟩
    · obtain ⟨r, w', hrun, hends, hroom⟩ := hfound inode he
      refine ⟨r, w', hrun, .before hw1 hends, hroom.trans (not_congr ?_)⟩
      apply openRoom_congr o flags hw1.env hw1.fds <;> simp [Ext.fn]

end HookSqfs.Hooks
