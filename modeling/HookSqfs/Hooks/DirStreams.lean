import HookSqfs.Hooks.DirOutcomes
import HookSqfs.Manager.BackingOutcome

/-! A directory stream: what `sqfs_opendir` puts behind it and what `sqfs_readdir`
takes from it. -/
namespace HookSqfs.Hooks
open Manager Interaction Tables
variable (b : Bits) (o : Oracle)

/-- The node that the loop of `enumerate_dir` makes of an entry. -/
def nodeOf (addr : Nat) (inode : InodePtr) (dName : DName) : SqfsDirEntryNode :=
  { addr, inode, dirent := direntOf b inode.inode dName }

/-- The list that `enumerate_dir` leaves when `n` allocations were made before and
`list` is what it has; none where copying a name is undefined. -/
def enumerated (final : Except SqfsError Unit) :
    Nat → List DirItem → List SqfsDirEntryNode → Option (List SqfsDirEntryNode)
  | _, [], list =>
    match final with
    | .ok _ => some list
    | .error _ => some []
  | n, item :: items, list =>
    match o.answer n .malloc, item.inode with
    | some addr, .ok inode =>
      (copyName item.entry).bind fun dName =>
        enumerated final (n + 1) items (list ++ [nodeOf b addr inode dName])
    | _, _ => some []

private theorem run_freeSqfsDirEntryList (list : List SqfsDirEntryNode) (w : World) :
    ∃ w', runAlone o (freeSqfsDirEntryList list) w = some ((), w') ∧ Quiet w w' := by
  induction list generalizing w with
  | nil => exact ⟨w, rfl, .refl w⟩
  | cons node next ih =>
    have hw1 := (Quiet.afterCall w o (.sqfsFree node.inode.addr) () rfl rfl).trans
      (.afterCall _ o (.free node.addr) () rfl rfl)
    obtain ⟨w', hrun, hw'⟩ := ih ((w.afterCall o (.sqfsFree node.inode.addr) ()).afterCall o
      (.free node.addr) ())
    exact ⟨w', hrun, hw1.trans hw'⟩

section
variable (e : DirMapEntry) (rest : List DirMapEntry)

/-- The state with `list` in the newest entry. -/
def holding (w : World) (list : List SqfsDirEntryNode) : World :=
  { w with dirMap := { e with dirEntryList := list } :: rest }

private theorem setList_holding {w : World} {list : List SqfsDirEntryNode}
    (hd : w.dirMap = { e with dirEntryList := list } :: rest) (l : List SqfsDirEntryNode) :
    World.handle o w (.dirMapSetList e.key l) = ((), holding e rest w l) := by
  simp only [World.handle, hd, adjust, if_true, holding]

private theorem run_enumerateDiscard {w : World} {list : List SqfsDirEntryNode}
    (hd : w.dirMap = { e with dirEntryList := list } :: rest) :
    ∃ w', runAlone o (enumerateDiscard e.key list) w = some ((), w') ∧
      Undisturbed (holding e rest w []) w' := by
  obtain ⟨w1, hrun, hw1⟩ := run_freeSqfsDirEntryList o list w
  refine ⟨holding e rest w1 [], ?_, hw1.toUndisturbed.withDirMap _⟩
  rw [enumerateDiscard, runAlone_bind, hrun, Option.bind_some, runAlone_ask,
    setList_holding o e rest (hw1.dirMap.trans hd)]

/-- An iteration that ends in a discard. -/
private theorem discards {p : Hook Unit} {w v : World} {list : List SqfsDirEntryNode}
    (hd : w.dirMap = { e with dirEntryList := list } :: rest) (hu : Undisturbed w v)
    (hrun : runAlone o p w = runAlone o (enumerateDiscard e.key list) v) :
    ∃ w', runAlone o p w = some ((), w') ∧ Undisturbed (holding e rest w []) w' := by
  obtain ⟨w', hdis, hw'⟩ := run_enumerateDiscard o e rest (hu.dirMap.trans hd)
  exact ⟨w', hrun.trans hdis, (hu.withDirMap _).trans hw'⟩

/-- The state after the three calls of an iteration that adds a node. -/
private def stepped (w : World) (entry : SqfsDirEntry) (inode : InodePtr) (addr : Nat) : World :=
  ((w.afterCall o (.dirReaderRead (some ⟨entry, .ok inode⟩)) ()).afterCall o .malloc
    (some addr)).afterCall o (.dirReaderGetInode (.ok inode)) ()

/-- An iteration that adds a node. -/
private theorem enumerate_adds {w : World} {list : List SqfsDirEntryNode} {entry : SqfsDirEntry}
    {inode : InodePtr} {addr : Nat} {dName : DName} (final : Except SqfsError Unit)
    (items : List DirItem) (hd : w.dirMap = { e with dirEntryList := list } :: rest)
    (hm : o.answer (w.used .malloc) .malloc = some addr) (hname : copyName entry = some dName) :
    runAlone o (enumerateDirLoop b e.key final (⟨entry, .ok inode⟩ :: items) list) w =
      runAlone o (enumerateDirLoop b e.key final items (list ++ [nodeOf b addr inode dName]))
        (holding e rest (stepped o w entry inode addr) (list ++ [nodeOf b addr inode dName])) := by
  have hout : (w.afterCall o (.dirReaderRead (some ⟨entry, .ok inode⟩)) ()).outcome o .malloc =
    some addr := hm
  have hd' : (stepped o w entry inode addr).dirMap = { e with dirEntryList := list } :: rest := by
    simpa [stepped] using hd
  simp only [enumerateDirLoop, Program.ask_bind, runAlone_call, runAlone_deref, hout, hname]
  exact congrArg (fun out : Unit × World => runAlone o (enumerateDirLoop b e.key final items
    (list ++ [nodeOf b addr inode dName])) out.2) (setList_holding o e rest hd' _)

/-- After the loop the newest entry holds the enumerated list. -/
theorem run_enumerateDirLoop (final : Except SqfsError Unit) (items : List DirItem)
    (list : List SqfsDirEntryNode) (w : World)
    (hd : w.dirMap = { e with dirEntryList := list } :: rest) :
    match enumerated b o final (w.used .malloc) items list with
    | none => runAlone o (enumerateDirLoop b e.key final items list) w = none
    | some l => ∃ w', runAlone o (enumerateDirLoop b e.key final items list) w = some ((), w') ∧
        Undisturbed (holding e rest w l) w' := by
  induction items generalizing list w with
  | nil =>
    have hw1 := (Quiet.afterCall w o (.dirReaderRead none) () rfl rfl).toUndisturbed
    cases final with
    | ok u =>
      have hsame : holding e rest w list = w := by rw [holding, ← hd]
      exact ⟨w.afterCall o (.dirReaderRead none) (), rfl, hsame.symm ▸ hw1⟩
    | error err =>
      refine discards o e rest hd (hw1.trans (.logLine _ o true [])) ?_
      simp [enumerateDirLoop, runAlone_bind]
  | cons item items ih =>
    obtain ⟨entry, inode⟩ := item
    have hw1 := Quiet.afterCall w o (.dirReaderRead (some ⟨entry, inode⟩)) () rfl rfl
    cases hm : o.answer (w.used .malloc) .malloc with
    | none =>
      have hout : (w.afterCall o (.dirReaderRead (some ⟨entry, inode⟩)) ()).outcome o .malloc =
        none := hm
      have hw2 := ((hw1.trans (.afterCall _ o .malloc none rfl rfl)).toUndisturbed.trans
        (.logLine _ o true [])).trans
          (Quiet.afterCall _ o (.sqfsFree entry.addr) () rfl rfl).toUndisturbed
      simp only [enumerated, hm]
      refine discards o e rest hd hw2 ?_
      simp [enumerateDirLoop, runAlone_bind, hout]
    | some addr =>
      have hout : (w.afterCall o (.dirReaderRead (some ⟨entry, inode⟩)) ()).outcome o .malloc =
        some addr := hm
      have hw2 := (hw1.trans (.afterCall _ o .malloc (some addr) rfl rfl)).trans
        (.afterCall _ o (.dirReaderGetInode inode) () rfl rfl)
      cases inode with
      | error err =>
        have hw3 := (hw2.toUndisturbed.trans (.logLine _ o true [])).trans
          (Quiet.afterCall _ o (.sqfsFree entry.addr) () rfl rfl).toUndisturbed
        simp only [enumerated, hm]
        refine discards o e rest hd hw3 ?_
        simp [enumerateDirLoop, runAlone_bind, hout]
      | ok inode =>
        cases hname : copyName entry with
        | none => simp [enumerated, hm, enumerateDirLoop, hout, hname]
        | some dName =>
          have hrest := ih (list ++ [nodeOf b addr inode dName])
            (holding e rest (stepped o w entry inode addr)
              (list ++ [nodeOf b addr inode dName])) rfl
          have hcount : (holding e rest (stepped o w entry inode addr)
              (list ++ [nodeOf b addr inode dName])).used .malloc = w.used .malloc + 1 := by
            simp [holding, stepped, Ext.fn]
          rw [hcount] at hrest
          simp only [enumerated, hm, hname, Option.bind_some,
            enumerate_adds b o e rest final items hd hm hname]
          cases hl : enumerated b o final (w.used .malloc + 1) items
              (list ++ [nodeOf b addr inode dName]) with
          | none => rwa [hl] at hrest
          | some l =>
            rw [hl] at hrest
            obtain ⟨w', hend, hw'⟩ := hrest
            exact ⟨w', hend, (hw2.toUndisturbed.withDirMap _).trans hw'⟩

end
/-- The stream that the entry is made for: the real one or a backing one. -/
def underlyingDir (w : World) (realDir : Option Nat) : Option Nat :=
  realDir.or (backingDirAnswer o w)

/-- A stream and memory for its entry. -/
def DirRoom (w : World) (realDir : Option Nat) : Prop :=
  underlyingDir o w realDir ≠ none ∧ o.answer (w.used .malloc) .malloc ≠ none

/-- The state in which the entry is made: with a backing stream where there is no real one. -/
def StreamReady (w v : World) (realDir : Option Nat) (dir : Nat) : Prop :=
  match realDir with
  | some _ => Undisturbed w v
  | none => StreamMade w v (some dir)

theorem underlyingDir_congr {w w' : World} (h : DirReady w w') (realDir : Option Nat) :
    underlyingDir o w' realDir = underlyingDir o w realDir := by
  rw [underlyingDir, underlyingDir,
    backingDirAnswer_congr o h.env h.streams h.tmpDirs h.mkdir h.opendir]

theorem dirRoom_congr {w w' : World} (h : DirReady w w') (realDir : Option Nat) :
    DirRoom o w' realDir ↔ DirRoom o w realDir := by
  rw [DirRoom, DirRoom, underlyingDir_congr o h, h.malloc]

theorem run_opendirBacking (w : World) (realDir : Option Nat) :
    ∃ v, runAlone o (opendirBacking realDir) w = some (underlyingDir o w realDir, v) ∧
      v.used .malloc = w.used .malloc ∧
      match underlyingDir o w realDir with
      | none => Undisturbed w v
      | some dir => StreamReady w v realDir dir := by
  cases realDir with
  | some dir => exact ⟨w, rfl, rfl, Undisturbed.refl w⟩
  | none =>
    obtain ⟨v, hrun, hmade, hmalloc⟩ := run_createBackingDir o w
    refine ⟨v, hrun, hmalloc, ?_⟩
    rw [underlyingDir, Option.none_or]
    cases hdir : backingDirAnswer o w with
    | none => rwa [hdir] at hmade
    | some dir => rwa [hdir] at hmade

theorem StreamReady.trans {u v w : World} {realDir : Option Nat} {dir : Nat}
    (h : StreamReady u v realDir dir) (k : Undisturbed v w) : StreamReady u w realDir dir := by
  cases realDir with
  | some real => exact Undisturbed.trans h k
  | none =>
    obtain ⟨hfresh, stream, haddr, hv⟩ := h
    exact ⟨hfresh, stream, haddr, hv.trans k⟩

theorem StreamReady.dirMap {w v : World} {realDir : Option Nat} {dir : Nat}
    (h : StreamReady w v realDir dir) : v.dirMap = w.dirMap := by
  cases realDir with
  | some real => exact Undisturbed.dirMap h
  | none =>
    obtain ⟨-, stream, -, hv⟩ := h
    rw [hv.dirMap]

/-- The entry of a stream just opened. -/
def freshEntry (addr dir dirReader : Nat) (realDir : Option Nat)
    (list : List SqfsDirEntryNode) : DirMapEntry :=
  { addr, key := dir, dirReader, isRealDir := realDir.isSome, dirEntryList := list
    dirEntryCurrent := [], dirEntryListReachedEnd := false }

/-- Without room `sqfs_opendir` fails and enters nothing. -/
theorem run_opendirInsert_full {w : World} {realDir : Option Nat} (dirReader : Nat)
    (inode : InodePtr) (cursor : DirCursor) (h : ¬ DirRoom o w realDir) :
    ∃ w', runAlone o (opendirInsert b realDir dirReader inode cursor) w = some (none, w') ∧
      w'.dirMap = w.dirMap := by
  obtain ⟨v, hrun, hmalloc, hv⟩ := run_opendirBacking o w realDir
  rw [opendirInsert, runAlone_bind, hrun, Option.bind_some]
  cases hdir : underlyingDir o w realDir with
  | none =>
    rw [hdir] at hv
    obtain ⟨w', hout, -, hd, -⟩ := returns_out o v none dirReader (some inode.addr)
    exact ⟨w', hout, hd.trans hv.dirMap⟩
  | some dir =>
    have hm : o.answer (w.used .malloc) .malloc = none := by
      by_contra hm
      exact h ⟨by simp [hdir], hm⟩
    have hout : v.outcome o .malloc = none := by
      rw [← hm, ← hmalloc]
      rfl
    rw [hdir] at hv
    obtain ⟨w', hret, -, hd, -⟩ := returns_out o
      ((v.afterCall o .malloc none).withErrno Errno.ENOMEM) (some dir) dirReader (some inode.addr)
    refine ⟨w', ?_, hd.trans ((World.afterCall_dirMap v o .malloc none).trans hv.dirMap)⟩
    simpa [hout] using hret

/-- With room it enters the enumerated list under the stream it returns, or is undefined
with the enumeration. -/
theorem run_opendirInsert {w : World} {realDir : Option Nat} {dir addr : Nat} (dirReader : Nat)
    (inode : InodePtr) (cursor : DirCursor) (hdir : underlyingDir o w realDir = some dir)
    (hm : o.answer (w.used .malloc) .malloc = some addr) :
    match enumerated b o cursor.final (w.used .malloc + 1) cursor.items [] with
    | none => runAlone o (opendirInsert b realDir dirReader inode cursor) w = none
    | some list => ∃ v w', StreamReady w v realDir dir ∧
        runAlone o (opendirInsert b realDir dirReader inode cursor) w = some (some dir, w') ∧
        Undisturbed { v with dirMap := freshEntry addr dir dirReader realDir list :: w.dirMap }
          w' := by
  obtain ⟨v, hrun, hmalloc, hv⟩ := run_opendirBacking o w realDir
  rw [hdir] at hv
  have hout : v.outcome o .malloc = some addr := by
    rw [← hm, ← hmalloc]
    rfl
  have hv1 := hv.trans (Quiet.afterCall v o .malloc (some addr) rfl rfl).toUndisturbed
  have hcount : (v.afterCall o .malloc (some addr)).used .malloc = w.used .malloc + 1 := by
    simp [Ext.fn, hmalloc]
  generalize hv2 : v.afterCall o .malloc (some addr) = v1 at hv1 hcount
  have hloop := run_enumerateDirLoop b o (freshEntry addr dir dirReader realDir []) v1.dirMap
    cursor.final cursor.items []
    { v1 with dirMap := freshEntry addr dir dirReader realDir [] :: v1.dirMap } rfl
  have hstart : runAlone o (opendirInsert b realDir dirReader inode cursor) w =
      runAlone o (enumerateDirLoop b dir cursor.final cursor.items [] >>= fun _ =>
        Manager.sqfsFree (some inode.addr) >>= fun _ => opendirOutUnlockOnly (some dir) (some dir))
        { v1 with dirMap := freshEntry addr dir dirReader realDir [] :: v1.dirMap } := by
    rw [opendirInsert, runAlone_bind, hrun, Option.bind_some, hdir]
    simp only [Program.ask_bind, runAlone_call, hout, hv2, runAlone_dirMapAdd]
    rfl
  have hcount' : ({ v1 with dirMap := freshEntry addr dir dirReader realDir [] :: v1.dirMap } :
    World).used .malloc = w.used .malloc + 1 := hcount
  rw [hcount'] at hloop
  rw [hstart, runAlone_bind]
  cases hl : enumerated b o cursor.final (w.used .malloc + 1) cursor.items [] with
  | none =>
    rw [hl] at hloop
    have hend : runAlone o (enumerateDirLoop b dir cursor.final cursor.items [])
        { v1 with dirMap := freshEntry addr dir dirReader realDir [] :: v1.dirMap } = none := hloop
    exact congrArg (Option.bind · _) hend
  | some list =>
    rw [hl] at hloop
    obtain ⟨w1, hend, hw1⟩ := hloop
    have hfree := (Quiet.afterCall w1 o (.sqfsFree inode.addr) () rfl rfl).trans (.unlocked _)
    refine ⟨v1, (w1.afterCall o (.sqfsFree inode.addr) ()).unlocked, hv1, ?_, ?_⟩
    · have hend' : runAlone o (enumerateDirLoop b dir cursor.final cursor.items [])
          { v1 with dirMap := freshEntry addr dir dirReader realDir [] :: v1.dirMap } =
            some ((), w1) := hend
      rw [hend']
      rfl
    · rw [← hv1.dirMap]
      exact hw1.trans hfree.toUndisturbed

/-- What the squashfs part of a stream has left. -/
def pendingNodes (e : DirMapEntry) : List SqfsDirEntryNode :=
  if e.dirEntryListReachedEnd then []
  else if e.dirEntryCurrent = [] then e.dirEntryList else e.dirEntryCurrent

/-- What the real part of a stream has left. -/
def realEntries (w : World) (dirp : Nat) : List Dirent :=
  match w.streams dirp with
  | none => []
  | some s => s.entries

/-- What a stream has left. -/
def pending (w : World) (dirp : Nat) : List Dirent :=
  match lookup DirMapEntry.key dirp w.dirMap with
  | none => realEntries w dirp
  | some e => (if e.isRealDir then realEntries w dirp else []) ++ (pendingNodes e).map (·.dirent)

/-- The other streams have left what they had. -/
def OthersKept (w w' : World) (dirp : Nat) : Prop :=
  ∀ d, d ≠ dirp → lookup DirMapEntry.key d w'.dirMap = lookup DirMapEntry.key d w.dirMap ∧
    w'.streams d = w.streams d

theorem OthersKept.pending {w w' : World} {dirp d : Nat} (h : OthersKept w w' dirp)
    (hd : d ≠ dirp) : pending w' d = pending w d := by
  obtain ⟨hmap, hstream⟩ := h d hd
  unfold Hooks.pending realEntries
  rw [hmap, hstream]

private theorem OthersKept.trans {u v w : World} {dirp : Nat} (h : OthersKept u v dirp)
    (k : OthersKept v w dirp) : OthersKept u w dirp := fun d hd =>
  ⟨(k d hd).1.trans (h d hd).1, (k d hd).2.trans (h d hd).2⟩

private theorem OthersKept.of_undisturbed {w w' : World} (dirp : Nat) (h : Undisturbed w w') :
    OthersKept w w' dirp := fun d _ => ⟨by rw [h.dirMap], by rw [h.streams]⟩

/-- A real `readdir` gives the next real entry. -/
theorem afterReaddir (w : World) (dirp : Nat) :
    w.outcome o (.readdir dirp) = (realEntries w dirp).head? ∧
      ∀ a, realEntries (w.afterCall o (.readdir dirp) a) dirp = (realEntries w dirp).tail ∧
        OthersKept w (w.afterCall o (.readdir dirp) a) dirp ∧
        (w.afterCall o (.readdir dirp) a).dirMap = w.dirMap := by
  refine ⟨?_, fun a => ⟨?_, fun d hd => ⟨rfl, ?_⟩, rfl⟩⟩
  · simp only [World.outcome, World.granted, realEntries]
    cases w.streams dirp <;> rfl
  · simp only [World.afterCall, World.effect, realEntries, Function.update_self]
    cases w.streams dirp <;> rfl
  · simp only [World.afterCall, World.effect]
    rw [Function.update_of_ne hd]

theorem run_dumpDirent (logReaddir : Bool) (shown : List Object) (w : World) :
    runAlone o (dumpDirent logReaddir shown) w = some ((), w.logLine o logReaddir []) := by
  cases logReaddir with
  | false =>
    rw [World.logLine_of_not [] fun h => Bool.false_ne_true h.1]
    rfl
  | true => exact run_logMsg o w

/-- The last steps of a `sqfs_readdir` under the lock. -/
private theorem run_readdirEnds (logReaddir : Bool) (shown : List Object) (r : Option Dirent)
    (w : World) :
    ∃ w', runAlone o (do dumpDirent logReaddir shown; sqfsUnlock; return r) w = some (r, w') ∧
      Undisturbed w w' := by
  refine ⟨(w.logLine o logReaddir []).unlocked, ?_,
    (Undisturbed.logLine _ _ _ _).trans (Quiet.unlocked _).toUndisturbed⟩
  rw [runAlone_bind, run_dumpDirent]
  rfl

/-- `w'` differs from `w` in the entry of `dirp`, which is now `e'`. -/
private def EntryBecomes (w w' : World) (dirp : Nat) (e' : DirMapEntry) : Prop :=
  lookup DirMapEntry.key dirp w'.dirMap = some e' ∧ OthersKept w w' dirp ∧
    w'.streams = w.streams

private theorem EntryBecomes.after {u v w : World} {dirp : Nat} {e' : DirMapEntry}
    (h : EntryBecomes u v dirp e') (k : Undisturbed v w) : EntryBecomes u w dirp e' :=
  ⟨k.dirMap ▸ h.1, h.2.1.trans (.of_undisturbed dirp k), k.streams.trans h.2.2⟩

/-- The state after a change of the entry of `dirp` in place. -/
private def changed (w : World) (dirp : Nat) (f : DirMapEntry → DirMapEntry) : World :=
  { w with dirMap := adjust DirMapEntry.key dirp f w.dirMap }

private theorem entryBecomes_changed {w : World} {dirp : Nat} {e : DirMapEntry}
    (he : lookup DirMapEntry.key dirp w.dirMap = some e) {f : DirMapEntry → DirMapEntry}
    (hf : ∀ e, (f e).key = e.key) : EntryBecomes w (changed w dirp f) dirp (f e) :=
  ⟨by rw [changed, lookup_adjust_self hf, he, Option.map_some],
    fun d hd => ⟨lookup_adjust_ne hf hd _, rfl⟩, rfl⟩

private theorem EntryBecomes.trans {u v w : World} {dirp : Nat} {e e' : DirMapEntry}
    (h : EntryBecomes u v dirp e) (k : EntryBecomes v w dirp e') : EntryBecomes u w dirp e' :=
  ⟨k.1, h.2.1.trans k.2.1, k.2.2.trans h.2.2⟩

private def setCurrent (current : List SqfsDirEntryNode) (e : DirMapEntry) : DirMapEntry :=
  { e with dirEntryCurrent := current }

private def setReachedEnd (e : DirMapEntry) : DirMapEntry :=
  { e with dirEntryListReachedEnd := true }

/-- The step to the next node, with the end marked behind the last one. -/
private def advance (dirp : Nat) (next : List SqfsDirEntryNode) : Hook Unit := do
  ask (.dirMapSetCurrent dirp next)
  if next = [] then ask (.dirMapSetReachedEnd dirp) else pure ()

private theorem run_advance {w : World} {dirp : Nat} {e : DirMapEntry}
    (he : lookup DirMapEntry.key dirp w.dirMap = some e)
    (hend : e.dirEntryListReachedEnd = false) (next : List SqfsDirEntryNode) :
    ∃ w' e', runAlone o (advance dirp next) w = some ((), w') ∧
      EntryBecomes w w' dirp e' ∧ e'.isRealDir = e.isRealDir ∧ pendingNodes e' = next := by
  have hcur := entryBecomes_changed he (f := setCurrent next) fun _ => rfl
  by_cases hn : next = []
  · have hreach := entryBecomes_changed hcur.1 (f := setReachedEnd) fun _ => rfl
    subst hn
    exact ⟨_, _, rfl, hcur.trans hreach, rfl, if_pos rfl⟩
  · refine ⟨_, _, ?_, hcur, rfl, ?_⟩
    · simp only [advance, hn, if_false]
      rfl
    · simp [pendingNodes, setCurrent, hend, hn]

/-- The squashfs part gives its next node and moves past it. -/
private theorem run_readdirLower (logReaddir : Bool) {w : World} {dirp : Nat} {e : DirMapEntry}
    (he : lookup DirMapEntry.key dirp w.dirMap = some e) :
    ∃ w' e', runAlone o (readdirLower logReaddir dirp) w =
        some ((pendingNodes e).head?.map (·.dirent), w') ∧
      EntryBecomes w w' dirp e' ∧ e'.isRealDir = e.isRealDir ∧
      pendingNodes e' = (pendingNodes e).tail := by
  have hsame : EntryBecomes w w dirp e := ⟨he, .of_undisturbed dirp (.refl w), rfl⟩
  rw [readdirLower, Program.ask_bind, runAlone_dirMapEntry, he, Option.getD_some]
  cases hend : e.dirEntryListReachedEnd with
  | true =>
    have hnone : pendingNodes e = [] := if_pos hend
    obtain ⟨w', hrun, hw'⟩ := run_readdirEnds o logReaddir [] none w
    rw [hnone]
    exact ⟨w', e, hrun, hsame.after hw', rfl, hnone⟩
  | false =>
    have hlist : pendingNodes e =
        if e.dirEntryCurrent = [] then e.dirEntryList else e.dirEntryCurrent := by
      rw [pendingNodes, hend]
      rfl
    dsimp only
    rw [if_neg Bool.false_ne_true, ← hlist, Program.ask_bind, runAlone_dirMapSetCurrent]
    have hset := entryBecomes_changed he (f := setCurrent (pendingNodes e)) fun _ => rfl
    change ∃ w' e', runAlone o _ (changed w dirp (setCurrent (pendingNodes e))) = _ ∧ _
    have hend1 : (setCurrent (pendingNodes e) e).dirEntryListReachedEnd = false := hend
    generalize changed w dirp (setCurrent (pendingNodes e)) = w1 at hset ⊢
    generalize hp : pendingNodes e = nodes at hset hend1 hlist ⊢
    cases nodes with
    | nil =>
      refine ⟨w1.unlocked, _, rfl, hset.after (Quiet.unlocked w1).toUndisturbed, rfl, ?_⟩
      have hempty : e.dirEntryList = [] := by
        split at hlist
        · exact hlist.symm
        · rename_i hcur
          exact absurd hlist.symm hcur
      simp [pendingNodes, setCurrent, hempty]
    | cons node next =>
      obtain ⟨w2, e', hrun, hbecomes, hreal, hpend⟩ := run_advance o hset.1 hend1 next
      obtain ⟨w', hrun', hw'⟩ := run_readdirEnds o logReaddir [node.object] (some node.dirent) w2
      refine ⟨w', e', ?_, (hset.trans hbecomes).after hw', hreal, hpend⟩
      change runAlone o (advance dirp next >>= fun _ => (do
        dumpDirent logReaddir [node.object]; sqfsUnlock; return some node.dirent)) w1 = _
      rw [runAlone_bind, hrun]
      exact hrun'

theorem pending_mapped {w : World} {dirp : Nat} {e : DirMapEntry}
    (he : lookup DirMapEntry.key dirp w.dirMap = some e) :
    pending w dirp = (if e.isRealDir then realEntries w dirp else []) ++
      (pendingNodes e).map (·.dirent) := by
  rw [pending, he]

/-- A stream without real entries left gives its next node. -/
private theorem run_readdirLower_pending (logReaddir : Bool) {w : World} {dirp : Nat}
    {e : DirMapEntry} (he : lookup DirMapEntry.key dirp w.dirMap = some e)
    (hreal : e.isRealDir → realEntries w dirp = []) :
    ∃ w', runAlone o (readdirLower logReaddir dirp) w = some ((pending w dirp).head?, w') ∧
      pending w' dirp = (pending w dirp).tail ∧ OthersKept w w' dirp ∧
      (lookup DirMapEntry.key dirp w'.dirMap).isSome := by
  obtain ⟨w', e', hrun, ⟨he', hothers, hstreams⟩, hreal', hpend⟩ :=
    run_readdirLower o logReaddir he
  have hnone : (if e.isRealDir then realEntries w dirp else []) = [] := by
    split
    · exact hreal (by assumption)
    · rfl
  have hnone' : (if e'.isRealDir then realEntries w' dirp else []) = [] := by
    rw [hreal', realEntries, hstreams]
    exact hnone
  rw [pending_mapped he, hnone, List.nil_append, List.head?_map, ← List.map_tail]
  refine ⟨w', hrun, ?_, hothers, by simp [he']⟩
  rw [pending_mapped he', hnone', List.nil_append, hpend]

/-- `sqfs_readdir` from the lock on. -/
def readdirLocked (logReaddir : Bool) (dirp : Nat) : Hook (Option Dirent) := do
  sqfsLock
  let mapped : Bool ← ask (.dirMapFind dirp)
  if mapped then do
    let found : DirMapEntry ← ask (.dirMapEntry dirp)
    if found.isRealDir then do
      let result : Option Dirent ← call (.readdir dirp)
      match result with
      | some dirent => do
        dumpDirent logReaddir []
        sqfsUnlock
        return some dirent
      | none => readdirLower logReaddir dirp
    else readdirLower logReaddir dirp
  else do
    sqfsUnlock
    let result : Option Dirent ← call (.readdir dirp)
    return result

theorem sqfsReaddir_eq (dirp : Nat) :
    sqfsReaddir dirp = logEnabled (some (ascii "sqfs_readdir")) >>= fun logReaddir =>
      readdirLocked logReaddir dirp := rfl

/-- A stream that no entry of the map keeps is libc's. -/
private theorem run_readdirLocked_unmapped (logReaddir : Bool) {w : World} {dirp : Nat}
    (he : lookup DirMapEntry.key dirp w.dirMap = none) :
    ∃ w', runAlone o (readdirLocked logReaddir dirp) w = some ((pending w dirp).head?, w') ∧
      pending w' dirp = (pending w dirp).tail ∧ OthersKept w w' dirp ∧
      lookup DirMapEntry.key dirp w'.dirMap = none := by
  obtain ⟨hout, hafter⟩ := afterReaddir o w.locked.unlocked dirp
  obtain ⟨hreal, hothers, hmap⟩ := hafter (realEntries w dirp).head?
  have hpend : pending w dirp = realEntries w dirp := by rw [pending, he]
  have hout' : w.locked.unlocked.outcome o (.readdir dirp) = (realEntries w dirp).head? := hout
  have hnone : lookup DirMapEntry.key dirp (w.locked.unlocked.afterCall o (.readdir dirp)
      (realEntries w dirp).head?).dirMap = none := by
    rw [hmap]
    exact he
  refine ⟨w.locked.unlocked.afterCall o (.readdir dirp) (realEntries w dirp).head?, ?_, ?_,
    hothers, hnone⟩
  · simp only [readdirLocked, runAlone_lock, Program.ask_bind, runAlone_dirMapFind,
      World.locked_dirMap, he, Option.isSome_none, Bool.false_eq_true, if_false, runAlone_unlock,
      hpend, ← hout']
    rfl
  · rw [hpend, pending, hnone]
    exact hreal

/-- A stream over a real directory gives what libc has left, then its nodes. -/
private theorem run_readdirLocked_real (logReaddir : Bool) {w : World} {dirp : Nat}
    {e : DirMapEntry} (he : lookup DirMapEntry.key dirp w.dirMap = some e)
    (hr : e.isRealDir = true) :
    ∃ w', runAlone o (readdirLocked logReaddir dirp) w = some ((pending w dirp).head?, w') ∧
      pending w' dirp = (pending w dirp).tail ∧ OthersKept w w' dirp ∧
      (lookup DirMapEntry.key dirp w'.dirMap).isSome := by
  obtain ⟨hout, hafter⟩ := afterReaddir o w.locked dirp
  obtain ⟨hreal, hothers, hmap⟩ := hafter (realEntries w dirp).head?
  have hout' : w.locked.outcome o (.readdir dirp) = (realEntries w dirp).head? := hout
  have he2 : lookup DirMapEntry.key dirp (w.locked.afterCall o (.readdir dirp)
      (realEntries w dirp).head?).dirMap = some e := by
    rw [hmap]
    exact he
  have hpend : pending w dirp = realEntries w dirp ++ (pendingNodes e).map (·.dirent) := by
    rw [pending_mapped he, if_pos hr]
  have hpend2 : pending (w.locked.afterCall o (.readdir dirp) (realEntries w dirp).head?)
      dirp = (realEntries w dirp).tail ++ (pendingNodes e).map (·.dirent) := by
    rw [pending_mapped he2, if_pos hr, hreal]
    rfl
  simp only [readdirLocked, runAlone_lock, Program.ask_bind, runAlone_dirMapFind,
    runAlone_dirMapEntry, World.locked_dirMap, he, Option.isSome_some, if_true, Option.getD_some,
    hr, runAlone_call, hout']
  generalize hv : w.locked.afterCall o (.readdir dirp) (realEntries w dirp).head? = v at *
  cases hentries : realEntries w dirp with
  | nil =>
    rw [hentries] at hpend hpend2
    have hnil : realEntries v dirp = [] := by rw [hreal]; exact congrArg _ hentries
    obtain ⟨w', hrun, htail, hothers', hsome⟩ :=
      run_readdirLower_pending o logReaddir he2 fun _ => hnil
    have hsame : pending v dirp = pending w dirp := hpend2.trans hpend.symm
    rw [hsame] at hrun htail
    exact ⟨w', hrun, htail, hothers.trans hothers', hsome⟩
  | cons dirent entries =>
    rw [hentries] at hpend hpend2
    obtain ⟨w', hrun, hw'⟩ := run_readdirEnds o logReaddir [] (some dirent) v
    refine ⟨w', ?_, ?_, hothers.trans (.of_undisturbed dirp hw'), ?_⟩
    · rw [hpend]
      exact hrun
    · rw [hpend, pending, realEntries, hw'.dirMap, hw'.streams]
      exact hpend2
    · rw [hw'.dirMap, he2, Option.isSome_some]

/-- From the lock on it returns the next entry of its stream and touches no other,
whether the filter lets it log or not. -/
theorem run_readdirLocked (logReaddir : Bool) (dirp : Nat) (w : World) :
    ∃ w', runAlone o (readdirLocked logReaddir dirp) w = some ((pending w dirp).head?, w') ∧
      pending w' dirp = (pending w dirp).tail ∧ OthersKept w w' dirp ∧
      (lookup DirMapEntry.key dirp w'.dirMap).isSome =
        (lookup DirMapEntry.key dirp w.dirMap).isSome := by
  cases he : lookup DirMapEntry.key dirp w.dirMap with
  | none =>
    obtain ⟨w', hrun, htail, hothers, hnone⟩ := run_readdirLocked_unmapped o logReaddir he
    exact ⟨w', hrun, htail, hothers, by rw [hnone]⟩
  | some e =>
    by_cases hr : e.isRealDir = true
    · exact run_readdirLocked_real o logReaddir he hr
    · have hw1 := (Quiet.locked w).toUndisturbed
      have he1 : lookup DirMapEntry.key dirp w.locked.dirMap = some e := he
      obtain ⟨w', hrun, htail, hothers, hsome⟩ :=
        run_readdirLower_pending o logReaddir he1 fun h => absurd h hr
      refine ⟨w', ?_, htail, (OthersKept.of_undisturbed dirp hw1).trans hothers, hsome⟩
      simp only [readdirLocked, runAlone_lock, Program.ask_bind, runAlone_dirMapFind,
        runAlone_dirMapEntry, World.locked_dirMap, he, Option.isSome_some, if_true,
        Option.getD_some]
      rw [if_neg hr]
      exact hrun

/-- `sqfs_readdir` returns the next entry of its stream and touches no other. -/
theorem run_sqfsReaddir (dirp : Nat) (w : World) :
    ∃ w', runAlone o (sqfsReaddir dirp) w = some ((pending w dirp).head?, w') ∧
      pending w' dirp = (pending w dirp).tail ∧ OthersKept w w' dirp ∧
      (lookup DirMapEntry.key dirp w'.dirMap).isSome =
        (lookup DirMapEntry.key dirp w.dirMap).isSome := by
  rw [sqfsReaddir_eq, runAlone_bind, run_logEnabled, Option.bind_some]
  exact run_readdirLocked o _ dirp w

end HookSqfs.Hooks
