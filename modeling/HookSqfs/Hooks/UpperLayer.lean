import HookSqfs.Hooks.DirStreams
import HookSqfs.Hooks.OpenOutcomes
import HookSqfs.Hooks.PathOutcomes

/-! The path hooks where the real call fails although the path may exist. -/
namespace HookSqfs.Hooks
open Manager Interaction
variable (o : Oracle)

/-- The hook fails with the real call. -/
def FailsWith {α β : Type} (w : World) (real : Except Errno β) (hook : Hook α) (failed : α) :
    Prop :=
  ∀ e, real = .error e → ∃ w', runAlone o hook w = some (failed, w')

private theorem failsWith_iff {α β : Type} {w w' : World} {real : Except Errno β}
    {hook : Hook α} {a failed : α} {e : Errno} (hreal : real = .error e)
    (hrun : runAlone o hook w = some (a, w')) : FailsWith o w real hook failed ↔ a = failed := by
  constructor
  · intro h
    obtain ⟨w'', hfail⟩ := h e hreal
    rw [hrun] at hfail
    cases hfail
    rfl
  · rintro rfl e' -
    exact ⟨w', hrun⟩

private theorem failsWith_ok {α β : Type} {w : World} {real : Except Errno β} {hook : Hook α}
    {failed : α} {b : β} (hreal : real = .ok b) : FailsWith o w real hook failed := by
  intro e he
  rw [hreal] at he
  cases he

/-- `sqfs_open` fails with the real call when the lookup does, or for want of room. -/
theorem open_failsWith_iff (w : World) (pathname : Option CString) (flags mode : BitVec 32) :
    FailsWith o w (w.outcome o (openCall pathname flags mode)) (sqfsOpen pathname flags mode) (-1) ↔
      ∀ e, w.outcome o (openCall pathname flags mode) = .error e →
        ∀ inode, lowerOpen o w pathname e = .ok inode → ¬ OpenRoom o w flags := by
  obtain ⟨-, hfail⟩ := run_sqfsOpen o w pathname flags mode
  cases hreal : w.outcome o (openCall pathname flags mode) with
  | ok fd => exact iff_of_true (failsWith_ok o rfl) nofun
  | error e =>
    obtain ⟨hnone, hsome⟩ := hfail e hreal
    cases hlower : lowerOpen o w pathname e with
    | error e' =>
      obtain ⟨w', hrun, -⟩ := hnone e' hlower
      rw [failsWith_iff o rfl hrun]
      simp [hlower]
    | ok inode =>
      obtain ⟨r, w', hrun, -, hroom⟩ := hsome inode hlower
      rw [failsWith_iff o rfl hrun, hroom]
      simp [hlower]

/-- `sqfs_xstat` fails with the real call when the lower layer has no answer. -/
theorem xstat_failsWith_iff (b : Bits) (w : World) (ver : Int) (pathname : Option CString)
    (buf : Option Stat) :
    FailsWith o w (w.outcome o (.xstat ver pathname)) (sqfsXstat b ver pathname buf) (-1, buf) ↔
      ∀ e st, w.outcome o (.xstat ver pathname) = .error e →
        lowerStat b o w ver pathname buf ≠ .ok st := by
  obtain ⟨w', hrun, -⟩ := run_sqfsXstat b o w ver pathname buf
  cases hreal : w.outcome o (.xstat ver pathname) with
  | ok st => exact iff_of_true (failsWith_ok o rfl) nofun
  | error e =>
    rw [hreal, orLower] at hrun
    rw [failsWith_iff o rfl hrun]
    cases lowerStat b o w ver pathname buf <;> simp [statResult]

/-- `sqfs_access` fails with the real call when the lower layer grants nothing. -/
theorem access_failsWith_iff (b : Bits) (w : World) (pathname : Option CString)
    (mode : BitVec 32) :
    FailsWith o w (w.outcome o (.access pathname mode)) (sqfsAccess b pathname mode) (-1) ↔
      ∀ e, w.outcome o (.access pathname mode) = .error e →
        lowerAccess o w pathname mode ≠ .ok () := by
  obtain ⟨w', hrun, -⟩ := run_sqfsAccess b o w pathname mode
  cases hreal : w.outcome o (.access pathname mode) with
  | ok u => exact iff_of_true (failsWith_ok o rfl) nofun
  | error e =>
    rw [hreal, orLower] at hrun
    rw [failsWith_iff o rfl hrun]
    cases lowerAccess o w pathname mode <;> simp [accessResult]

/-- The image has a directory at the path. -/
def LowerIsDir (w : World) (name : Option CString) : Prop :=
  (w.routed name).1 = 0 ∧ w.mgr.loaded = true ∧
    ∃ inode, w.imageEntry o (w.routed name).2 = .ok inode ∧ inode.inode.isDir = true

/-- `sqfs_opendir` fails with the real call, gives the real directory where the image has
none, and merges two directories only. -/
structure UpperDirWins (b : Bits) (w : World) (name : Option CString) : Prop where
  fails : FailsWith o w (w.outcome o (.opendir name)) (sqfsOpendir b name) none
  upper : ∀ s, w.outcome o (.opendir name) = .ok s → ¬ LowerIsDir o w name →
    ∃ w', runAlone o (sqfsOpendir b name) w = some (some s.addr, w') ∧ w'.dirMap = w.dirMap
  merges : ∀ r w' e, runAlone o (sqfsOpendir b name) w = some (r, w') →
    w'.dirMap = e :: w.dirMap → e.isRealDir = true →
      (∃ s, w.outcome o (.opendir name) = .ok s) ∧ LowerIsDir o w name

private theorem lowerIsDir_of_found {w : World} {name : Option CString} {dirReader : Nat}
    {inode : InodePtr} {cursor : DirCursor}
    (h : lowerDir o w name = .found dirReader inode cursor) : LowerIsDir o w name := by
  unfold lowerDir at h
  split at h
  · cases h
  · rename_i hin
    rw [not_or, not_not, Bool.not_eq_false] at hin
    split at h
    · cases h
    · split at h
      · cases h
      · rename_i p hlook
        split at h
        · rename_i hdir
          refine ⟨hin.1, hin.2, p, ?_, hdir⟩
          rw [World.lookup, if_pos hin.2] at hlook
          split at hlook
          · cases hlook
          · split at hlook
            · cases hlook
            · rename_i q hq
              cases hlook
              exact hq
        · cases h

private theorem returns_dirMap {p : Hook (Option Nat)} {w base : World} {r r' : Option Nat}
    {e : Errno} {w' : World} (h : Returns o p w base r e)
    (hrun : runAlone o p w = some (r', w')) : w'.dirMap = base.dirMap := by
  obtain ⟨v, hv, -, hd, -⟩ := h
  rw [hrun] at hv
  cases hv
  exact hd

/-- The entry that `sqfs_opendir` makes for a directory of the image. -/
private theorem found_entry (b : Bits) {w w' : World} {name : Option CString} {dirReader : Nat}
    {inode : InodePtr} {cursor : DirCursor} {r : Option Nat} {e : DirMapEntry}
    (hfound : lowerDir o w name = .found dirReader inode cursor)
    (hrun : runAlone o (sqfsOpendir b name) w = some (r, w'))
    (hentry : w'.dirMap = e :: w.dirMap) :
    e.isRealDir = (realStream (w.outcome o (.opendir name))).isSome := by
  have hcases := sqfsOpendir_cases o b w name
  rw [hfound] at hcases
  obtain ⟨v, hv, hrun', -⟩ := hcases
  rw [hrun'] at hrun
  have hmap : v.dirMap = w.dirMap := hv.dirMap.trans (by simp [afterReal])
  by_cases hroom : DirRoom o v (realStream (w.outcome o (.opendir name)))
  · obtain ⟨hdir, hm⟩ := hroom
    obtain ⟨dir, hdir⟩ := Option.ne_none_iff_exists'.mp hdir
    obtain ⟨addr, hm⟩ := Option.ne_none_iff_exists'.mp hm
    have hinsert := run_opendirInsert b o dirReader inode cursor hdir hm
    split at hinsert
    · rw [hinsert] at hrun
      cases hrun
    · obtain ⟨v', w'', -, hend, hw''⟩ := hinsert
      rw [hend] at hrun
      cases hrun
      rw [hw''.dirMap, hmap, List.cons.injEq] at hentry
      rw [← hentry.1]
      rfl
  · obtain ⟨w'', hend, hd⟩ := run_opendirInsert_full b o dirReader inode cursor hroom
    rw [hend] at hrun
    cases hrun
    rw [hd, hmap] at hentry
    exact absurd hentry.symm (List.cons_ne_self _ _)

/-- Merging takes two directories. -/
private theorem merges_two (b : Bits) {w w' : World} {name : Option CString} {r : Option Nat}
    {e : DirMapEntry} (hrun : runAlone o (sqfsOpendir b name) w = some (r, w'))
    (hentry : w'.dirMap = e :: w.dirMap) (hreal : e.isRealDir = true) :
    (∃ s, w.outcome o (.opendir name) = .ok s) ∧ LowerIsDir o w name := by
  have hcases := sqfsOpendir_cases o b w name
  have hbase : (afterReal o w name).dirMap = w.dirMap := by simp [afterReal]
  cases hlower : lowerDir o w name with
  | absent e' =>
    rw [hlower] at hcases
    rw [returns_dirMap o hcases hrun, hbase] at hentry
    exact absurd hentry.symm (List.cons_ne_self _ _)
  | refused e' =>
    rw [hlower] at hcases
    rw [returns_dirMap o hcases hrun, hbase] at hentry
    exact absurd hentry.symm (List.cons_ne_self _ _)
  | found dirReader inode cursor =>
    refine ⟨?_, lowerIsDir_of_found o hlower⟩
    rw [found_entry o b hlower hrun hentry] at hreal
    cases hout : w.outcome o (.opendir name) with
    | error e' =>
      rw [hout] at hreal
      cases hreal
    | ok s => exact ⟨s, rfl⟩

/-- `sqfs_opendir` fails with the real call unless it finds a directory of the image and
room for a stream. -/
private theorem opendir_failsWith_iff (b : Bits) (w : World) (name : Option CString) :
    FailsWith o w (w.outcome o (.opendir name)) (sqfsOpendir b name) none ↔
      ∀ e, w.outcome o (.opendir name) = .error e →
        (∃ dirReader inode cursor, lowerDir o w name = .found dirReader inode cursor) →
          ¬ DirRoom o (afterReal o w name) none := by
  have hcases := sqfsOpendir_cases o b w name
  cases hreal : w.outcome o (.opendir name) with
  | ok s => exact iff_of_true (failsWith_ok o rfl) nofun
  | error e =>
    rw [hreal] at hcases
    cases hlower : lowerDir o w name with
    | absent e' =>
      rw [hlower] at hcases
      obtain ⟨w', hrun, -⟩ := hcases
      rw [failsWith_iff o rfl hrun]
      simp [realStream]
    | refused e' =>
      rw [hlower] at hcases
      obtain ⟨w', hrun, -⟩ := hcases
      rw [failsWith_iff o rfl hrun]
      simp
    | found dirReader inode cursor =>
      rw [hlower] at hcases
      obtain ⟨v, hv, hrun, -⟩ := hcases
      have hroom := dirRoom_congr o hv none
      constructor
      · intro h e' he' _ hroom'
        obtain ⟨hdir, hm⟩ := hroom.mpr hroom'
        obtain ⟨dir, hdir⟩ := Option.ne_none_iff_exists'.mp hdir
        obtain ⟨addr, hm⟩ := Option.ne_none_iff_exists'.mp hm
        have hinsert := run_opendirInsert b o dirReader inode cursor hdir hm
        obtain ⟨w', hfail⟩ := h e rfl
        rw [hrun] at hfail
        split at hinsert
        · exact absurd (hinsert.symm.trans hfail) nofun
        · obtain ⟨v', w'', -, hend, -⟩ := hinsert
          have hsome : some (some dir, w'') = some (none, w') := hend.symm.trans hfail
          cases hsome
      · intro h e' _
        have hno : ¬ DirRoom o v none := fun hr => h e rfl ⟨_, _, _, rfl⟩ (hroom.mp hr)
        obtain ⟨w', hend, -⟩ := run_opendirInsert_full b o dirReader inode cursor hno
        exact ⟨w', hrun.trans hend⟩

private theorem opendir_upper_iff (b : Bits) {w : World} {name : Option CString} {s : DirStream}
    (hreal : w.outcome o (.opendir name) = .ok s) (hdir : ¬ LowerIsDir o w name) :
    (∃ w', runAlone o (sqfsOpendir b name) w = some (some s.addr, w') ∧ w'.dirMap = w.dirMap) ↔
      ∃ e, lowerDir o w name = .absent e := by
  have hcases := sqfsOpendir_cases o b w name
  cases hlower : lowerDir o w name with
  | absent e =>
    rw [hlower, hreal] at hcases
    obtain ⟨w', hrun, -, hd, -⟩ := hcases
    exact iff_of_true ⟨w', hrun, hd.trans (by simp [afterReal])⟩ ⟨e, rfl⟩
  | refused e =>
    rw [hlower] at hcases
    obtain ⟨w', hrun, -⟩ := hcases
    refine iff_of_false ?_ ?_
    · rintro ⟨w'', hrun', -⟩
      rw [hrun] at hrun'
      cases hrun'
    · rintro ⟨e', he⟩
      cases he
  | found dirReader inode cursor => exact absurd (lowerIsDir_of_found o hlower) hdir

theorem upperDirWins_iff (b : Bits) (w : World) (name : Option CString) :
    UpperDirWins o b w name ↔
      (∀ e, w.outcome o (.opendir name) = .error e →
        (∃ dirReader inode cursor, lowerDir o w name = .found dirReader inode cursor) →
          ¬ DirRoom o (afterReal o w name) none) ∧
      (∀ s, w.outcome o (.opendir name) = .ok s → ¬ LowerIsDir o w name →
        ∃ e, lowerDir o w name = .absent e) := by
  rw [← opendir_failsWith_iff]
  constructor
  · exact fun h => ⟨h.fails, fun s hs hdir =>
      (opendir_upper_iff o b hs hdir).mp (h.upper s hs hdir)⟩
  · exact fun h => ⟨h.1, fun s hs hdir => (opendir_upper_iff o b hs hdir).mpr (h.2 s hs hdir),
      fun r w' e hrun hentry hreal => merges_two o b hrun hentry hreal⟩

/-- The exact conditions under which the four path hooks leave a path to the real
filesystem: the lower layer has no object there to serve, or no means to serve it. -/
theorem upper_layer_wins_iff (b : Bits) (w : World) (pathname : Option CString)
    (flags mode amode : BitVec 32) (ver : Int) (buf : Option Stat) :
    (FailsWith o w (w.outcome o (openCall pathname flags mode))
        (sqfsOpen pathname flags mode) (-1) ↔
      ∀ e, w.outcome o (openCall pathname flags mode) = .error e →
        ∀ inode, lowerOpen o w pathname e = .ok inode → ¬ OpenRoom o w flags) ∧
    (FailsWith o w (w.outcome o (.xstat ver pathname)) (sqfsXstat b ver pathname buf) (-1, buf) ↔
      ∀ e st, w.outcome o (.xstat ver pathname) = .error e →
        lowerStat b o w ver pathname buf ≠ .ok st) ∧
    (FailsWith o w (w.outcome o (.access pathname amode)) (sqfsAccess b pathname amode) (-1) ↔
      ∀ e, w.outcome o (.access pathname amode) = .error e →
        lowerAccess o w pathname amode ≠ .ok ()) ∧
    (UpperDirWins o b w pathname ↔
      (∀ e, w.outcome o (.opendir pathname) = .error e →
        (∃ dirReader inode cursor, lowerDir o w pathname = .found dirReader inode cursor) →
          ¬ DirRoom o (afterReal o w pathname) none) ∧
      (∀ s, w.outcome o (.opendir pathname) = .ok s → ¬ LowerIsDir o w pathname →
        ∃ e, lowerDir o w pathname = .absent e)) :=
  ⟨open_failsWith_iff o w pathname flags mode, xstat_failsWith_iff o b w ver pathname buf,
    access_failsWith_iff o b w pathname amode, upperDirWins_iff o b w pathname⟩

/-- A file of the image behind a real one that may not be opened. -/
def shadowing : Oracle where
  answer := fun n c =>
    match c with
    | .open .. => .error Errno.EACCES
    | c => (Oracle.serving (plainFile 5)).answer n c
  clobber := fun _ _ => none
  text := fun _ => [0x78]
  writes := fun _ => []

/-- A denied open is served from the image. -/
theorem denied_open_is_served :
    World.initial.outcome shadowing (openCall (some hookFile) 0 0) = .error Errno.EACCES ∧
      (∃ w', runAlone shadowing (sqfsOpen (some hookFile) 0 0) .initial = some (3, w') ∧
        w'.fds 3 = some (.backing 0)) ∧
      ¬ FailsWith shadowing .initial
        (World.initial.outcome shadowing (openCall (some hookFile) 0 0))
        (sqfsOpen (some hookFile) 0 0) (-1) := by
  have hrun : ∃ w', runAlone shadowing (sqfsOpen (some hookFile) 0 0) .initial = some (3, w') ∧
      w'.fds 3 = some (.backing 0) := ⟨_, rfl, rfl⟩
  refine ⟨rfl, hrun, fun hfails => ?_⟩
  obtain ⟨w', hserved, -⟩ := hrun
  have hreal : World.initial.outcome shadowing (openCall (some hookFile) 0 0) =
    .error Errno.EACCES := rfl
  exact absurd ((failsWith_iff shadowing hreal hserved).mp hfails) (by decide)

end HookSqfs.Hooks
