import HookSqfs.Hooks.DirHooks
import HookSqfs.Manager.Ledger
import HookSqfs.Manager.LookupOutcome

/-! The outcomes of `sqfs_opendir` up to the entry in `dir_map`. -/
namespace HookSqfs.Hooks
open Manager Interaction
variable (o : Oracle)

/-- What the lower layer has for `sqfs_opendir`: nothing, with the errno to report
where the real call failed too; an obstacle; or a directory. -/
inductive DirAnswer where
  | absent (e : Errno)
  | refused (e : Errno)
  | found (dirReader : Nat) (inode : InodePtr) (cursor : DirCursor)

def lowerDir (w : World) (name : Option CString) : DirAnswer :=
  if (w.routed name).1 ≠ 0 ∨ w.mgr.loaded = false then .absent Errno.ENOENT
  else match o.answer (w.used .dirReaderCreate) .dirReaderCreate with
    | none => .refused Errno.ENOMEM
    | some dirReader =>
      match w.lookup o 1 (w.routed name).2 with
      | .error e => .absent e
      | .ok inode =>
        if inode.inode.isDir then
          match o.answer (w.used .openDir) (.openDir inode) with
          | .error e => .refused (errnoFromSqfs e)
          | .ok cursor => .found dirReader inode cursor
        else .refused Errno.ENOTDIR

/-- What a stream is made from is as it was. -/
structure DirReady (w w' : World) : Prop extends Undisturbed w w' where
  tmpDirs : w'.tmpDirs = w.tmpDirs
  malloc : w'.used .malloc = w.used .malloc
  mkdir : w'.used .mkdir = w.used .mkdir
  opendir : w'.used .opendir = w.used .opendir

theorem DirReady.trans {u v w : World} (h : DirReady u v) (k : DirReady v w) : DirReady u w :=
  ⟨h.toUndisturbed.trans k.toUndisturbed, k.tmpDirs.trans h.tmpDirs, k.malloc.trans h.malloc,
    k.mkdir.trans h.mkdir, k.opendir.trans h.opendir⟩

/-- The state after the real `opendir`. -/
def afterReal (w : World) (name : Option CString) : World :=
  w.afterCall o (.opendir name) (w.outcome o (.opendir name))

/-- The lower layer's answer is that of the state after the real call. -/
private theorem afterReal_lower (w : World) (name : Option CString) :
    (afterReal o w name).mgr = w.mgr ∧ (afterReal o w name).routed name = w.routed name ∧
      (afterReal o w name).used .dirReaderCreate = w.used .dirReaderCreate ∧
      (afterReal o w name).used .openDir = w.used .openDir ∧
      ∀ k relative, (afterReal o w name).lookup o k relative = w.lookup o k relative := by
  unfold afterReal
  refine ⟨by simp, World.routed_congr (by simp) name, by simp [Ext.fn], by simp [Ext.fn],
    fun k relative => ?_⟩
  apply World.lookup_congr <;> simp [Ext.fn]

/-- A return with the entries of `base`, and with its streams unless it fails. -/
def Returns (p : Hook (Option Nat)) (w base : World) (r : Option Nat) (e : Errno) : Prop :=
  ∃ w', runAlone o p w = some (r, w') ∧ w'.errno = e ∧ w'.dirMap = base.dirMap ∧
    (r.isSome → w'.streams = base.streams)

private theorem returns_outUnlockOnly (w : World) (underlyingDir result : Option Nat) :
    Returns o (opendirOutUnlockOnly underlyingDir result) w w result w.errno := by
  rw [opendirOutUnlockOnly, Returns, Program.ask_bind, runAlone_getErrno, Program.ask_bind,
    runAlone_unlock]
  cases underlyingDir with
  | none => exact ⟨w.unlocked, rfl, rfl, rfl, fun _ => rfl⟩
  | some dir =>
    cases result with
    | none =>
      exact ⟨(w.unlocked.afterCall o (.closedir dir) _).withErrno w.errno, rfl, rfl, rfl, nofun⟩
    | some r => exact ⟨w.unlocked, rfl, rfl, rfl, fun _ => rfl⟩

private theorem run_sqfsFree (w : World) (addr : Option Nat) :
    ∃ w', runAlone o (sqfsFree addr) w = some ((), w') ∧ Quiet w w' := by
  cases addr with
  | none => exact ⟨w, rfl, .refl w⟩
  | some addr => exact ⟨_, rfl, .afterCall w o (.sqfsFree addr) () rfl rfl⟩

/-- A return from a state with the same entries and streams. -/
private theorem Returns.before {p q : Hook (Option Nat)} {v w base base' : World}
    {r : Option Nat} {e : Errno} (h : Returns o p v base r e) (hu : Undisturbed base' base)
    (hrun : runAlone o q w = runAlone o p v) : Returns o q w base' r e := by
  obtain ⟨w', hp, he, hd, hs⟩ := h
  exact ⟨w', hrun.trans hp, he, hd.trans hu.dirMap, fun hr => (hs hr).trans hu.streams⟩

theorem returns_out (w : World) (underlyingDir : Option Nat) (dirReader : Nat)
    (inode : Option Nat) :
    Returns o (opendirOut underlyingDir dirReader inode) w w none w.errno := by
  obtain ⟨w1, hrun, hw1⟩ := run_sqfsFree o w inode
  have hw2 := (hw1.trans (.afterCall w1 o (.sqfsDestroy dirReader) () rfl rfl)).trans
    (.withErrno _ w.errno)
  refine (returns_outUnlockOnly o ((w1.afterCall o (.sqfsDestroy dirReader) ()).withErrno
    w.errno) underlyingDir none).before o hw2.toUndisturbed ?_
  rw [opendirOut, Program.ask_bind, runAlone_getErrno, runAlone_bind, hrun]
  rfl

section
variable (b : Bits)

private theorem lookup_absent {w : World} {realDir : Option Nat} {relative : CString}
    {dirReader : Nat} {e : Errno} (h : w.lookup o 0 relative = .error e) :
    Returns o (opendirLookup b realDir relative dirReader) w w realDir
      (if realDir.isSome then 0 else e) := by
  obtain ⟨w1, hrun, herr, hw1, -⟩ := run_sqfsFindInode o relative w
  have hw2 := hw1.toUndisturbed.trans (.logHook w1 o (some (ascii "sqfs_opendir")))
  have hw1e : w1.errno = e := herr e h
  rw [h] at hrun
  cases realDir with
  | none =>
    have hend := returns_out o ((w1.logHook o (some (ascii "sqfs_opendir"))).withErrno e) none
      dirReader none
    refine hend.before o (hw2.trans (Quiet.withErrno _ e).toUndisturbed) ?_
    rw [opendirLookup, runAlone_bind, hrun]
    simp [Except.toOption, runAlone_bind, hw1e]
  | some dir =>
    have hw3 := hw2.trans ((Quiet.afterCall _ o (.sqfsDestroy dirReader) () rfl rfl).trans
      (.withErrno _ 0)).toUndisturbed
    have hend := returns_outUnlockOnly o (((w1.logHook o (some (ascii "sqfs_opendir"))).afterCall o
      (.sqfsDestroy dirReader) ()).withErrno 0) (some dir) (some dir)
    refine hend.before o hw3 ?_
    rw [opendirLookup, runAlone_bind, hrun]
    simp [Except.toOption, runAlone_bind]

private theorem lookup_refused {w : World} {realDir : Option Nat} {relative : CString}
    {dirReader : Nat} {inode : InodePtr} (h : w.lookup o 0 relative = .ok inode)
    (hd : inode.inode.isDir = false) :
    Returns o (opendirLookup b realDir relative dirReader) w w none Errno.ENOTDIR := by
  obtain ⟨w1, hrun, -, hw1, -⟩ := run_sqfsFindInode o relative w
  rw [h] at hrun
  refine (returns_out o (w1.withErrno Errno.ENOTDIR) realDir dirReader (some inode.addr)).before o
    (hw1.trans (.withErrno _ _)).toUndisturbed ?_
  rw [opendirLookup, runAlone_bind, hrun]
  simp [Except.toOption, hd]

private theorem lookup_unreadable {w : World} {realDir : Option Nat} {relative : CString}
    {dirReader : Nat} {inode : InodePtr} {e : SqfsError}
    (h : w.lookup o 0 relative = .ok inode) (hd : inode.inode.isDir)
    (he : o.answer (w.used .openDir) (.openDir inode) = .error e) :
    Returns o (opendirLookup b realDir relative dirReader) w w none (errnoFromSqfs e) := by
  obtain ⟨w1, hrun, -, hw1, hu⟩ := run_sqfsFindInode o relative w
  have hout : w1.outcome o (.openDir inode) = .error e := by
    rw [← he, ← hu .openDir rfl]
    rfl
  have hw2 := (hw1.trans (.afterCall w1 o (.openDir inode) (.error e) rfl rfl)).toUndisturbed.trans
    (.logLine _ o true [])
  rw [h] at hrun
  refine (returns_out o (((w1.afterCall o (.openDir inode) (.error e)).logLine o true []).withErrno
    (errnoFromSqfs e)) realDir dirReader (some inode.addr)).before o
    (hw2.trans (Quiet.withErrno _ _).toUndisturbed) ?_
  rw [opendirLookup, runAlone_bind, hrun]
  simp [Except.toOption, hd, hout, runAlone_bind]

private theorem lookup_found {w : World} {realDir : Option Nat} {relative : CString}
    {dirReader : Nat} {inode : InodePtr} {cursor : DirCursor}
    (h : w.lookup o 0 relative = .ok inode) (hd : inode.inode.isDir)
    (he : o.answer (w.used .openDir) (.openDir inode) = .ok cursor) :
    ∃ w1, DirReady w w1 ∧ runAlone o (opendirLookup b realDir relative dirReader) w =
        runAlone o (opendirInsert b realDir dirReader inode cursor) w1 ∧
      ∀ w₀ held, Holds w₀ w held → Holds w₀ w1 (inode.object ::ₘ held) := by
  obtain ⟨w1, hrun, -, hw1, hu⟩ := run_sqfsFindInode o relative w
  have hout : w1.outcome o (.openDir inode) = .ok cursor := by
    rw [← he, ← hu .openDir rfl]
    rfl
  have hw2 := hw1.trans (.afterCall w1 o (.openDir inode) (.ok cursor) rfl rfl)
  rw [h] at hrun
  refine ⟨w1.afterCall o (.openDir inode) (.ok cursor), ⟨hw2.toUndisturbed, hw2.tmpDirs, ?_, ?_,
    ?_⟩, ?_⟩
  · simp [Ext.fn, hu .malloc rfl]
  · simp [Ext.fn, hu .mkdir rfl]
  · simp [Ext.fn, hu .opendir rfl]
  · constructor
    · rw [opendirLookup, runAlone_bind, hrun]
      simp [Except.toOption, hd, hout]
    intro w₀ held hw
    obtain ⟨held', rfl, hheld⟩ := hw.of_tracks (tracks_sqfsFindInode (some relative)) hrun
    exact hheld.call rfl

/-- The real call, and `sqfs_opendir` up to the routing. -/
private theorem run_routed {w : World} {name : Option CString} (hr : (w.routed name).1 = 0) :
    runAlone o (sqfsOpendir b name) w =
      runAlone o (opendirLower b (realStream (w.outcome o (.opendir name))) (w.routed name).2)
        (afterReal o w name) := by
  obtain ⟨-, hrt, -⟩ := afterReal_lower o w name
  rw [afterReal] at hrt ⊢
  simp [sqfsOpendir, runAlone_bind, hrt, hr]

private theorem run_unrouted {w : World} {name : Option CString} (hr : (w.routed name).1 ≠ 0) :
    Returns o (sqfsOpendir b name) w (afterReal o w name)
      (realStream (w.outcome o (.opendir name)))
      (if (realStream (w.outcome o (.opendir name))).isSome then 0 else Errno.ENOENT) := by
  obtain ⟨-, hrt, -⟩ := afterReal_lower o w name
  refine ⟨(afterReal o w name).withErrno
    (if (realStream (w.outcome o (.opendir name))).isSome then 0 else Errno.ENOENT), ?_, rfl,
    rfl, fun _ => rfl⟩
  rw [afterReal] at hrt ⊢
  simp [sqfsOpendir, runAlone_bind, hrt, hr]

private theorem run_unloaded {w : World} {realDir : Option Nat} {relative : CString}
    (hm : w.mgr.loaded = false) :
    Returns o (opendirLower b realDir relative) w w realDir
      (if realDir.isSome then 0 else Errno.ENOENT) := by
  have hw1 := (Undisturbed.logHook w o (some (ascii "sqfs_opendir"))).trans
    ((Quiet.locked _).trans (.withErrno _
      (if realDir.isSome then 0 else Errno.ENOENT))).toUndisturbed
  refine (returns_outUnlockOnly o ((w.logHook o (some (ascii "sqfs_opendir"))).locked.withErrno
    (if realDir.isSome then 0 else Errno.ENOENT)) realDir realDir).before o hw1 ?_
  simp [opendirLower, runAlone_bind, hm]

private theorem run_readerless {w : World} {realDir : Option Nat} {relative : CString}
    (hm : w.mgr.loaded = true)
    (hn : o.answer (w.used .dirReaderCreate) .dirReaderCreate = none) :
    Returns o (opendirLower b realDir relative) w w none Errno.ENOMEM := by
  have hw1 := (Undisturbed.logHook w o (some (ascii "sqfs_opendir"))).trans
    ((Quiet.locked _).trans ((Quiet.afterCall _ o .dirReaderCreate none rfl rfl).trans
      (.withErrno _ Errno.ENOMEM))).toUndisturbed
  have hout : (w.logHook o (some (ascii "sqfs_opendir"))).locked.outcome o .dirReaderCreate =
    none := hn
  refine (returns_outUnlockOnly o (((w.logHook o (some (ascii "sqfs_opendir"))).locked.afterCall o
    .dirReaderCreate none).withErrno Errno.ENOMEM) realDir none).before o hw1 ?_
  simp [opendirLower, runAlone_bind, hm, hout]

/-- With a reader of its own `sqfs_opendir` goes on to the lookup. -/
private theorem run_reader {w : World} (realDir : Option Nat) (relative : CString)
    {dirReader : Nat} (hm : w.mgr.loaded = true)
    (hn : o.answer (w.used .dirReaderCreate) .dirReaderCreate = some dirReader) :
    ∃ v, runAlone o (opendirLower b realDir relative) w =
        runAlone o (opendirLookup b realDir relative dirReader) v ∧ DirReady w v ∧
      v.lookup o 0 relative = w.lookup o 1 relative ∧ v.used .openDir = w.used .openDir ∧
      ∀ w₀ held, Holds w₀ w held → Holds w₀ v (readerObject dirReader ::ₘ held) := by
  have hout : (w.logHook o (some (ascii "sqfs_opendir"))).locked.outcome o .dirReaderCreate =
    some dirReader := hn
  refine ⟨(w.logHook o (some (ascii "sqfs_opendir"))).locked.afterCall o .dirReaderCreate
    (some dirReader), ?_, ⟨?_, by simp, by simp [Ext.fn], by simp [Ext.fn], by simp [Ext.fn]⟩,
    ?_, by simp [Ext.fn], fun w₀ held hw => ?_⟩
  · simp [opendirLower, runAlone_bind, hm, hout]
  · exact ((Undisturbed.logHook w o _).trans (Quiet.locked _).toUndisturbed).trans
      (Quiet.afterCall _ o .dirReaderCreate (some dirReader) rfl rfl).toUndisturbed
  · apply World.lookup_congr <;> simp [Ext.fn]
  · have hlog : Holds w₀ (w.logHook o (some (ascii "sqfs_opendir"))).locked held := hw.congr rfl
    exact hlog.call rfl

/-- The cases of `sqfs_opendir` by the lower layer's answer. -/
theorem sqfsOpendir_cases (w : World) (name : Option CString) :
    match lowerDir o w name with
    | .absent e => Returns o (sqfsOpendir b name) w (afterReal o w name)
        (realStream (w.outcome o (.opendir name)))
        (if (realStream (w.outcome o (.opendir name))).isSome then 0 else e)
    | .refused e => Returns o (sqfsOpendir b name) w (afterReal o w name) none e
    | .found dirReader inode cursor =>
      ∃ v, DirReady (afterReal o w name) v ∧
        runAlone o (sqfsOpendir b name) w =
          runAlone o (opendirInsert b (realStream (w.outcome o (.opendir name))) dirReader inode
            cursor) v ∧
        ∀ w₀ held, Holds w₀ w held → Holds w₀ v (inode.object ::ₘ readerObject dirReader ::ₘ held) := by
  obtain ⟨hmgr, -, hread, hopen, hlook⟩ := afterReal_lower o w name
  unfold lowerDir
  by_cases hr : (w.routed name).1 = 0
  · have hrun := run_routed o b hr
    by_cases hm : w.mgr.loaded = true
    · rw [if_neg (by simp [hr, hm])]
      cases hn : o.answer (w.used .dirReaderCreate) .dirReaderCreate with
      | none => exact (run_readerless o b (hmgr ▸ hm) (hread ▸ hn)).before o (.refl _) hrun
      | some dirReader =>
        obtain ⟨v, hlower, hv, hlv, huv, hheld⟩ := run_reader o b
          (realStream (w.outcome o (.opendir name))) (w.routed name).2 (hmgr ▸ hm) (hread ▸ hn)
        have hrun' := hrun.trans hlower
        have hvu := hv.toUndisturbed
        rw [hlook] at hlv
        rw [hopen] at huv
        cases hl : w.lookup o 1 (w.routed name).2 with
        | error e => exact (lookup_absent o b (hlv.trans hl)).before o hvu hrun'
        | ok inode =>
          by_cases hd : inode.inode.isDir = true
          · simp only [hd, if_true]
            rw [← huv]
            cases he : o.answer (v.used .openDir) (.openDir inode) with
            | error e => exact (lookup_unreadable o b (hlv.trans hl) hd he).before o hvu hrun'
            | ok cursor =>
              obtain ⟨v', hv', hfound, hheld'⟩ := lookup_found o b (hlv.trans hl) hd he
              exact ⟨v', hv.trans hv', hrun'.trans hfound, fun w₀ held hw =>
                hheld' w₀ _ (hheld w₀ _ (hw.call rfl))⟩
          · have hd' : inode.inode.isDir = false := Bool.eq_false_iff.mpr hd
            simp only [hd', Bool.false_eq_true, if_false]
            exact (lookup_refused o b (hlv.trans hl) hd').before o hvu hrun'
    · have hm' : w.mgr.loaded = false := Bool.eq_false_iff.mpr hm
      rw [if_pos (.inr hm')]
      exact (run_unloaded o b (hmgr ▸ hm')).before o (.refl _) hrun
  · rw [if_pos (.inl hr)]
    exact run_unrouted o b hr

end
end HookSqfs.Hooks
