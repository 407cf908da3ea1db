import HookSqfs.Hooks.DirDiscipline
import HookSqfs.Hooks.MergedListing

/-! The table of directory handles in every interleaving: its keys, its marks, and what a
failed `sqfs_opendir` and each `sqfs_closedir` leave. -/
namespace HookSqfs.Hooks
open Manager Interaction Tables Program
variable (b : Bits) (o : Oracle)

/-- A request that is not recorded as a change of `dir_map` makes none. -/
theorem handle_dirMap (w : World) {e : Req} (h : writesDirMap e = false) :
    (World.handle o w e).2.dirMap = w.dirMap := by
  cases e with
  | getenv v => cases v <;> rfl
  | call c => exact w.afterCall_dirMap o c _
  | dirMapAdd entry => cases h
  | dirMapDel key => cases h
  | dirMapSetList key list => cases h
  | dirMapSetCurrent key current => cases h
  | dirMapSetReachedEnd key => cases h
  | _ => rfl

private theorem handle_changes (w : DirWorld) (e : Req) :
    (∀ n, (DirWorld.handle o w e).2.changes n = [] → w.changes n = []) ∧
      ((DirWorld.handle o w e).2.changes w.world.caller = [] →
        (DirWorld.handle o w e).2.world.dirMap = w.world.dirMap) := by
  change (∀ n, (if writesDirMap e = true then Function.update w.changes w.world.caller _
      else w.changes) n = [] → w.changes n = []) ∧
    ((if writesDirMap e = true then Function.update w.changes w.world.caller _
      else w.changes) w.world.caller = [] → (World.handle o w.world e).2.dirMap = w.world.dirMap)
  by_cases he : writesDirMap e = true
  · rw [if_pos he, Function.update_self]
    refine ⟨fun n hn => ?_, fun hn => absurd hn (by simp)⟩
    by_cases hcaller : n = w.world.caller
    · rw [hcaller, Function.update_self] at hn
      exact absurd hn (by simp)
    · rwa [Function.update_of_ne hcaller] at hn
  · rw [if_neg he]
    exact ⟨fun n hn => hn, fun _ => handle_dirMap o w.world (Bool.not_eq_true _ ▸ he)⟩

/-- A burst that is recorded to change nothing leaves `dir_map` as it was. -/
private theorem settle_changes {α : Type} (p : Hook α) (w : DirWorld) :
    (∀ n, (p.settle (DirWorld.handle o) (fun w => w.world.depth) w).2.changes n = [] →
        w.changes n = []) ∧
      ((p.settle (DirWorld.handle o) (fun w => w.world.depth) w).2.changes w.world.caller = [] →
        (p.settle (DirWorld.handle o) (fun w => w.world.depth) w).2.world.dirMap =
          w.world.dirMap) := by
  induction p generalizing w with
  | ret a => exact ⟨fun n hn => hn, fun _ => rfl⟩
  | undefined => exact ⟨fun n hn => hn, fun _ => rfl⟩
  | request e k ih =>
    by_cases hfree : w.world.depth = 0
    · have hsettle : (Program.request e k).settle (DirWorld.handle o) (fun w => w.world.depth) w =
          (.request e k, w) := by
        apply settle_free
        exact hfree
      rw [hsettle]
      exact ⟨fun n hn => hn, fun _ => rfl⟩
    · have hsettle : (Program.request e k).settle (DirWorld.handle o) (fun w => w.world.depth) w =
        (k (DirWorld.handle o w e).1).settle (DirWorld.handle o) (fun w => w.world.depth)
          (DirWorld.handle o w e).2 := by
        apply settle_held
        exact hfree
      rw [hsettle]
      obtain ⟨hchanges, hmap⟩ := handle_changes o w e
      obtain ⟨hrest, hrestMap⟩ := ih (DirWorld.handle o w e).1 (DirWorld.handle o w e).2
      have hcaller : (DirWorld.handle o w e).2.world.caller = w.world.caller :=
        (handle_unchanged w.world e).2.2
      rw [hcaller] at hrestMap
      refine ⟨fun n hn => hchanges n (hrest n hn), fun hn => ?_⟩
      exact (hrestMap hn).trans (hmap (hrest _ hn))

private theorem burst_changes {α : Type} (n : Nat) (l : Errno) (e : Req) (k : Answer e → Hook α)
    (w : DirWorld) :
    (∀ m, ((dirSystem b o).burstOf n l (.request e k) w).2.changes m = [] → w.changes m = []) ∧
      (((dirSystem b o).burstOf n l (.request e k) w).2.changes n = [] →
        ((dirSystem b o).burstOf n l (.request e k) w).2.world.dirMap = w.world.dirMap) := by
  have hfirst := handle_changes o { w with world := { w.world with errno := l, caller := n } } e
  generalize hv : DirWorld.handle o { w with world := { w.world with errno := l, caller := n } } e =
    out at hfirst
  have hcaller : out.2.world.caller = n := by
    rw [← hv]
    exact (handle_unchanged { w.world with errno := l, caller := n } e).2.2
  obtain ⟨hrest, hmap⟩ := settle_changes o (k out.1) out.2
  rw [hcaller] at hmap
  have hburst : (dirSystem b o).burstOf n l (.request e k) w =
      (k out.1).settle (DirWorld.handle o) (fun w => w.world.depth) out.2 := by
    rw [← hv]
    rfl
  rw [hburst]
  exact ⟨fun m hm => hfirst.1 m (hrest m hm), fun hn => (hmap hn).trans (hfirst.2 (hrest n hn))⟩

/-- Only calls that have begun have made a burst, and a call with no change on record left
`dir_map` as it was in each of its bursts. -/
private structure Unwritten (ls : List (Label DirWorld DirCall DirResult))
    (c : Config Req Answer DirWorld Errno DirCall DirResult) : Prop where
  older : ∀ r ∈ c.running, r.id < c.next
  moved : ∀ n u v, .moved n u v ∈ ls → n < c.next ∧
    (c.world.changes n = [] → v.world.dirMap = u.world.dirMap)

private theorem unwritten_kept {w₀ : DirWorld} {ls : List (Label DirWorld DirCall DirResult)}
    {c : Config Req Answer DirWorld Errno DirCall DirResult} (run : (dirSystem b o).Run w₀ ls c) :
    Unwritten ls c := by
  induction run with
  | nil =>
    exact ⟨fun _ hr => absurd hr List.not_mem_nil, fun _ _ _ hm => absurd hm List.not_mem_nil⟩
  | snoc run step ih =>
    obtain ⟨holder, hmoved⟩ := ih
    cases step with
    | start w n rs call l hadm =>
      refine ⟨fun r hr => ?_, fun m u v hm => ?_⟩
      · rcases List.mem_cons.mp hr with rfl | hr
        · exact Nat.lt_succ_self n
        · exact Nat.lt_succ_of_lt (holder r hr)
      · obtain ⟨hlt, hmap⟩ := hmoved m u v (by simpa using hm)
        refine ⟨Nat.lt_succ_of_lt hlt, fun hc => hmap ?_⟩
        have hsame : Function.update w.changes n [] m = w.changes m :=
          Function.update_of_ne (Nat.ne_of_lt hlt) ..
        exact hsame.symm.trans hc
    | move w n before after id call l e k =>
      have hid : id < n := holder _ (mem_split.mpr (.inl rfl))
      obtain ⟨hchanges, hmap⟩ := burst_changes b o id l e k w
      refine ⟨fun r hr => ?_, fun m u v hm => ?_⟩
      · rcases mem_split.mp hr with rfl | hr
        · exact hid
        · exact holder r (mem_split.mpr (.inr hr))
      · rcases List.mem_append.mp hm with hm | hm
        · obtain ⟨hlt, hold⟩ := hmoved m u v hm
          exact ⟨hlt, fun hc => hold (hchanges m hc)⟩
        · cases List.mem_singleton.mp hm
          exact ⟨hid, hmap⟩
    | finish w n before after id call l r =>
      refine ⟨fun r' hr' => holder r' (mem_split.mpr (.inr hr')), fun m u v hm => ?_⟩
      obtain ⟨hlt, hmap⟩ := hmoved m u v (by simpa using hm)
      refine ⟨hlt, fun hc => hmap ?_⟩
      change (w.ends r).changes m = [] at hc
      unfold DirWorld.ends at hc
      split at hc <;> exact hc

private theorem DirStarting.inv {w₀ : DirWorld} (h : DirStarting w₀) :
    DirInv w₀.world w₀ fun _ => some .blank where
  env := rfl
  mgr := rfl
  owned := by
    refine ⟨?_, h.owned, ?_, ?_, ?_⟩
    · rw [dirKeys, h.empty]
      exact List.nodup_nil
    · rw [dirKeys, h.empty]
      exact fun key hkey => absurd hkey List.not_mem_nil
    · rw [h.empty]
      exact fun m hm => absurd hm List.not_mem_nil
    · rintro n _ dir ⟨⟩
      exact .unknown
  recorded n := ⟨_, rfl, fun hcall => absurd rfl hcall⟩

/-- Call `n`, an `opendir` of `name`, has failed and left nothing: no change of `dir_map`,
every stream that it opened closed once, and the directory reader and the inode released
once. With an image loaded a path under the prefix has the errno of the last step that
failed, or tells that what was found is no directory. -/
structure FailedOpendir (w₀ : World) (w : DirWorld) (n : Nat) (name : Option CString) : Prop where
  changes : w.changes n = []
  streams : replay 0 (w.ledgers n).streams = some 0
  objects : replay 0 (w.ledgers n).objects = some 0
  errno : (w₀.routed name).1 = 0 → w₀.mgr.loaded = true →
    w.errnos n = (w.ledgers n).failed.getD Errno.ENOTDIR

/-- Call `n`, a `closedir` of `dir`, has closed `dir` once and no other stream, and the one
change of `dir_map` it made is to take out the entry of `dir`, if it found one. -/
structure ClosedOwn (w : DirWorld) (n dir : Nat) : Prop where
  streams : (w.ledgers n).streams = [.released dir]
  removed : ∃ m, w.looks n = [(dir, m)] ∧
    (dir ∉ m.map DirMapEntry.key ∧ w.changes n = [] ∨
      dir ∈ m.map DirMapEntry.key ∧ ∃ m', dir ∈ m'.map DirMapEntry.key ∧
        w.changes n = [(m', remove DirMapEntry.key dir m')])

private theorem Recorded.failedOpendir {w₀ : World} {w : DirWorld} {n : Nat} {g : DirGhost}
    {name : Option CString} (h : Recorded w n g.retire)
    (hgoal : DirGoal w₀ (.opendir name) (.stream none) g) : FailedOpendir w₀ w n name := by
  obtain ⟨hwrites, hstreams, hobjects, herrno⟩ := hgoal
  have hledger : w.ledgers n = g.ledger := h.ledger
  refine ⟨?_, hledger ▸ hstreams, hledger ▸ hobjects, fun hrouted hloaded => ?_⟩
  · have hexplained : List.Forall₂ Explains g.writes (w.changes n) := h.writes
    rw [hwrites] at hexplained
    exact List.forall₂_nil_left_iff.mp hexplained
  · rw [hledger]
    exact h.errno _ (herrno hrouted hloaded)

private theorem Recorded.closedOwn {w₀ : World} {w : DirWorld} {n dir : Nat} {g : DirGhost} {r : Int}
    (h : Recorded w n g.retire) (hgoal : DirGoal w₀ (.closedir dir) (.ret r) g) :
    ClosedOwn w n dir := by
  obtain ⟨hstreams, hentry⟩ := hgoal
  refine ⟨h.ledger.symm ▸ hstreams, ?_⟩
  have hfinds : (w.looks n).map (fun look =>
    (look.1, (lookup DirMapEntry.key look.1 look.2).isSome)) = g.finds := h.finds
  have hwrites : List.Forall₂ Explains g.writes (w.changes n) := h.writes
  -- one look-up is on record, of `dir`
  have hlook (found : Bool) (hg : g.finds = [(dir, found)]) : ∃ m, w.looks n = [(dir, m)] ∧
      (lookup DirMapEntry.key dir m).isSome = found := by
    rw [hg] at hfinds
    obtain ⟨⟨key, m⟩, hlooks, hsame⟩ := List.map_eq_singleton_iff.mp hfinds
    obtain ⟨rfl, hfound⟩ := Prod.mk.inj hsame
    exact ⟨m, hlooks, hfound⟩
  rcases hentry with ⟨hg, hw⟩ | ⟨hg, hw⟩
  · obtain ⟨m, hlooks, hfound⟩ := hlook true hg
    refine ⟨m, hlooks, .inr ⟨?_, ?_⟩⟩
    · by_contra hmem
      rw [lookup_eq_none.mpr hmem] at hfound
      cases hfound
    · rw [hw] at hwrites
      obtain ⟨⟨m', m''⟩, rest, hchange, hrest, hall⟩ := List.forall₂_cons_left_iff.mp hwrites
      obtain ⟨hmem, hremoved⟩ := hchange dir rfl
      refine ⟨m', hmem, ?_⟩
      rw [hall, List.forall₂_nil_left_iff.mp hrest]
      exact congrArg (fun x => [(m', x)]) hremoved
  · obtain ⟨m, hlooks, hfound⟩ := hlook false hg
    refine ⟨m, hlooks, .inl ⟨?_, ?_⟩⟩
    · rw [← lookup_eq_none]
      exact Option.not_isSome_iff_eq_none.mp (hfound ▸ Bool.false_ne_true)
    · rw [hw] at hwrites
      exact List.forall₂_nil_left_iff.mp hwrites

variable {b}

/-- In every state that calls on any number of threads reach, the keys of `dir_map` are
distinct open streams, and an entry is marked real exactly where its stream is the one that
the real `opendir` of the path of its `sqfs_opendir` gave. A `sqfs_opendir` that returned
NULL left nothing and did not change `dir_map` in any of its bursts, and a `sqfs_closedir`
removed its own entry and closed its own stream only. -/
theorem directory_handles {w₀ : DirWorld} (hstart : DirStarting w₀)
    {ls : List (Label DirWorld DirCall DirResult)}
    {c : Config Req Answer DirWorld Errno DirCall DirResult} (run : (dirSystem b o).Run w₀ ls c) :
    (dirKeys c.world.world).Nodup ∧
    (∀ key ∈ dirKeys c.world.world, c.world.world.streams key ≠ none) ∧
    (∀ e ∈ c.world.world.dirMap, ∃ n name real, c.world.insertedBy e.key = some n ∧
      c.world.calls n = some (.opendir name) ∧ (c.world.ledgers n).real = some (name, real) ∧
      (e.isRealDir = true ↔ real = some e.key)) ∧
    (∀ n name, .finished n (.opendir name) (.stream none) ∈ ls →
      FailedOpendir w₀.world c.world n name ∧
        ∀ u v, .moved n u v ∈ ls → v.world.dirMap = u.world.dirMap) ∧
    ∀ n dir r, .finished n (.closedir dir) (.ret r) ∈ ls → ClosedOwn c.world n dir := by
  obtain ⟨γ, h⟩ := (dirDiscipline b o w₀.world).kept hstart.inv run
  have hinv : DirInv w₀.world c.world γ := h.inv
  have hfinished (n : Nat) (call : DirCall) (r : DirResult) (hm : .finished n call r ∈ ls) :
      ∃ g, Recorded c.world n g.retire ∧ DirGoal w₀.world call r g := by
    obtain ⟨-, -, s, hgoal, hs⟩ := h.finished n call r hm
    obtain ⟨g', hg', hrecorded⟩ := hinv.recorded n
    cases s with
    | none => exact absurd (hg'.symm.trans hs) nofun
    | some g =>
      cases hg'.symm.trans hs
      obtain ⟨hdir, hcall⟩ := hgoal g rfl
      have hbegun : g.retire.call ≠ none := by
        change g.call ≠ none
        rw [hcall]
        exact nofun
      exact ⟨g, hrecorded hbegun, hdir⟩
  refine ⟨hinv.owned.distinct, hinv.owned.opened, fun e he => ?_, fun n name hm => ?_,
    fun n dir r hm => ?_⟩
  · obtain ⟨n, g, name, real, hn, hg, hcall, hreal, hmark, hkey⟩ :=
      hinv.owned.marked (mark e) (List.mem_map_of_mem he)
    obtain ⟨g', hg', hrecorded⟩ := hinv.recorded n
    cases hg'.symm.trans hg
    have hrecord := hrecorded (hcall ▸ nofun)
    refine ⟨n, name, real, hn, hrecord.call.trans hcall, hrecord.ledger ▸ hreal, ?_⟩
    change (mark e).2 = true ↔ _
    rw [hmark]
    cases real with
    | none => exact iff_of_false Bool.false_ne_true nofun
    | some dir => exact iff_of_true rfl (congrArg some (hkey dir rfl).symm)
  · obtain ⟨g, hrecord, hgoal⟩ := hfinished n _ _ hm
    have hfailed := hrecord.failedOpendir hgoal
    refine ⟨hfailed, fun u v hmoved => ?_⟩
    exact ((unwritten_kept b o run).moved n u v hmoved).2 hfailed.changes
  · obtain ⟨g, hrecord, hgoal⟩ := hfinished n _ _ hm
    exact hrecord.closedOwn hgoal

/-- After the five bursts of an `opendir` of a directory of both layers its stream is
mapped, and marked real. -/
theorem directory_handles_opened : ∃ ls c,
    (dirSystem .b64 (bothLayers [] [])).Run (.fresh .initial) ls c ∧
      c.world.world.dirMap.map mark = [(1024, true)] ∧
      ∀ e ∈ c.world.world.dirMap, ∃ n name real, c.world.insertedBy e.key = some n ∧
        c.world.calls n = some (.opendir name) ∧ (c.world.ledgers n).real = some (name, real) ∧
        (e.isRealDir = true ↔ real = some e.key) := by
  have hadmits : (dirSystem .b64 (bothLayers [] [])).admits (.fresh .initial)
    (.opendir (some hookFile)) := nofun
  obtain ⟨ls, run⟩ := (System.Run.nil).alone 0 hadmits 5
  exact ⟨ls, _, run, rfl, (directory_handles _ (DirWorld.fresh_starting .initial) run).2.2.1⟩

end HookSqfs.Hooks
