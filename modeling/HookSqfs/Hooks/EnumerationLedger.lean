import HookSqfs.Hooks.Requests
import HookSqfs.Hooks.MergedListing

/-! What an enumerated directory obtains, from `sqfs_opendir` to `sqfs_closedir`. -/
namespace HookSqfs.Hooks
open Manager Interaction Tables
variable (b : Bits) (o : Oracle)

/-- The inodes and the nodes of a list. -/
def nodesHeld : List SqfsDirEntryNode → Multiset Object
  | [] => 0
  | node :: next => node.inode.object ::ₘ node.object ::ₘ nodesHeld next

/-- What the loop of `enumerate_dir` keeps no pointer to, `n` allocations made before:
each entry that it copied, and the node of an entry whose inode could not be read. -/
def abandoned : Nat → List DirItem → Multiset Object
  | _, [] => 0
  | n, item :: items =>
    match o.answer n .malloc, item.inode with
    | none, _ => 0
    | some addr, .error _ => {⟨.malloc, addr⟩}
    | some _, .ok _ => item.entry.object ::ₘ abandoned (n + 1) items

theorem nodesHeld_append (list : List SqfsDirEntryNode) (node : SqfsDirEntryNode) :
    nodesHeld (list ++ [node]) = node.inode.object ::ₘ node.object ::ₘ nodesHeld list := by
  induction list with
  | nil => rfl
  | cons n list ih =>
    rw [List.cons_append, nodesHeld, ih, nodesHeld, Multiset.cons_swap n.object,
      Multiset.cons_swap n.inode.object, Multiset.cons_swap n.object,
      Multiset.cons_swap n.inode.object]

theorem node_mem_nodesHeld {list : List SqfsDirEntryNode} {node : SqfsDirEntryNode}
    (h : node ∈ list) : node.object ∈ nodesHeld list := by
  induction list with
  | nil => cases h
  | cons n list ih =>
    rw [nodesHeld, Multiset.mem_cons, Multiset.mem_cons]
    rcases List.mem_cons.mp h with rfl | h
    · exact .inr (.inl rfl)
    · exact .inr (.inr (ih h))

/-- An entry that is kept: its node and its inode join the list, its own copy is held by
nothing. -/
theorem nodesHeld_kept (list : List SqfsDirEntryNode) (held : Multiset Object) (addr : Nat)
    (inode : InodePtr) (entry : SqfsDirEntry) (dName : DName) :
    inode.object ::ₘ ⟨.malloc, addr⟩ ::ₘ entry.object ::ₘ (nodesHeld list + held) =
      nodesHeld (list ++ [nodeOf b addr inode dName]) + entry.object ::ₘ held := by
  rw [nodesHeld_append, Multiset.cons_add, Multiset.cons_add, Multiset.add_cons]
  rfl

section
variable {held : Multiset Object}

theorem tracks_freeSqfsDirEntryList (list : List SqfsDirEntryNode) :
    (freeSqfsDirEntryList list).Tracks holdings (nodesHeld list + held)
      fun _ held' => held' = held := by
  induction list with
  | nil => exact Multiset.zero_add held
  | cons node next ih =>
    rw [nodesHeld, Multiset.cons_add, Multiset.cons_add]
    exact .idle (fun _ => rfl) fun _ => tracks_release (fun _ => rfl) fun _ =>
      tracks_release (fun _ => rfl) fun _ => ih

private theorem tracks_enumerateDiscard (key : Nat) (list : List SqfsDirEntryNode) :
    (enumerateDiscard key list).Tracks holdings (nodesHeld list + held)
      fun _ held' => held' = held := by
  refine (tracks_freeSqfsDirEntryList list).bind ?_
  rintro - _ rfl
  exact .idle (fun _ => rfl) fun _ => rfl

/-- The end of an iteration that gives up on its entry. -/
private theorem tracks_giveUp (key addr : Nat) (list : List SqfsDirEntryNode) :
    (logMsg >>= fun _ => call (.sqfsFree addr) >>= fun _ => enumerateDiscard key list).Tracks
      holdings (⟨.library, addr⟩ ::ₘ (nodesHeld list + held)) fun _ held' => held' = held := by
  refine tracks_logMsg.bind ?_
  rintro - _ rfl
  exact tracks_release (fun _ => rfl) fun _ => tracks_enumerateDiscard key list

end

/-- An iteration that gives up holds nothing of the list any more. -/
private theorem holds_giveUp (key : Nat) {p : Hook Unit} {addr : Nat} {list : List SqfsDirEntryNode}
    {w₀ w v w' : World} {held : Multiset Object} (hrun : runAlone o p w = some ((), w'))
    (hgive : runAlone o p w = runAlone o (logMsg >>= fun _ => call (.sqfsFree addr) >>= fun _ =>
      enumerateDiscard key list) v)
    (hv : Holds w₀ v (⟨.library, addr⟩ ::ₘ (nodesHeld list + held))) : Holds w₀ w' held := by
  rw [hgive] at hrun
  obtain ⟨_, rfl, hw'⟩ := hv.of_tracks (tracks_giveUp key addr list) hrun
  exact hw'

/-- The end of the listing: the list is kept, or freed on an error. -/
private theorem enumerateDirLoop_holds_end {key : Nat} {final : Except SqfsError Unit}
    {list : List SqfsDirEntryNode} {w₀ w w' : World} {held : Multiset Object}
    (hrun : runAlone o (enumerateDirLoop b key final [] list) w = some ((), w'))
    (hw : Holds w₀ w (nodesHeld list + held)) :
    ∃ l, enumerated b o final (w.used .malloc) [] list = some l ∧
      Holds w₀ w' (nodesHeld l + held) := by
  cases final with
  | ok u =>
    cases hrun
    exact ⟨list, rfl, hw.call rfl⟩
  | error e =>
    have ht : (enumerateDirLoop b key (.error e) [] list).Tracks holdings (nodesHeld list + held)
        fun _ held' => held' = held := by
      refine .idle (fun _ => rfl) fun _ => tracks_logMsg.bind ?_
      rintro - _ rfl
      exact tracks_enumerateDiscard key list
    obtain ⟨_, rfl, hw'⟩ := hw.of_tracks ht hrun
    exact ⟨[], rfl, by rwa [nodesHeld, Multiset.zero_add]⟩

/-- The loop holds the list that it leaves, and what it abandons. -/
theorem enumerateDirLoop_holds {key : Nat} {final : Except SqfsError Unit} {items : List DirItem}
    {list : List SqfsDirEntryNode} {w₀ w w' : World} {held : Multiset Object}
    (hrun : runAlone o (enumerateDirLoop b key final items list) w = some ((), w'))
    (hw : Holds w₀ w (nodesHeld list + held)) :
    ∃ l, enumerated b o final (w.used .malloc) items list = some l ∧
      Holds w₀ w' (nodesHeld l + (abandoned o (w.used .malloc) items + held)) := by
  induction items generalizing list w held with
  | nil =>
    rw [abandoned, Multiset.zero_add]
    exact enumerateDirLoop_holds_end b o hrun hw
  | cons item items ih =>
    obtain ⟨entry, answer⟩ := item
    have hread : Holds w₀ (w.afterCall o (.dirReaderRead (some ⟨entry, answer⟩)) ())
        (entry.object ::ₘ (nodesHeld list + held)) := hw.call rfl
    generalize hv : w.afterCall o (.dirReaderRead (some ⟨entry, answer⟩)) () = v at hread
    have hcount : v.used .malloc = w.used .malloc := by
      rw [← hv]
      exact w.afterCall_used_of_ne o (.dirReaderRead (some ⟨entry, answer⟩)) () nofun
    cases hm : o.answer (w.used .malloc) .malloc with
    | none =>
      have hout : v.outcome o .malloc = none := (congrArg (o.answer · .malloc) hcount).trans hm
      have hmalloc : Holds w₀ (v.afterCall o .malloc none)
        (entry.object ::ₘ (nodesHeld list + held)) := hread.call rfl
      refine ⟨[], by simp only [enumerated, hm], ?_⟩
      simp only [abandoned, hm, nodesHeld, Multiset.zero_add]
      refine holds_giveUp o key hrun ?_ hmalloc
      simp only [enumerateDirLoop, Program.ask_bind, runAlone_call, hv, hout]
    | some addr =>
      have hout : v.outcome o .malloc = some addr :=
        (congrArg (o.answer · .malloc) hcount).trans hm
      have hmalloc : Holds w₀ (v.afterCall o .malloc (some addr))
        (⟨.malloc, addr⟩ ::ₘ entry.object ::ₘ (nodesHeld list + held)) := hread.call rfl
      cases answer with
      | error e =>
        rw [Multiset.cons_swap, ← Multiset.add_cons] at hmalloc
        have hget : Holds w₀ ((v.afterCall o .malloc (some addr)).afterCall o
          (.dirReaderGetInode (.error e)) ())
          (entry.object ::ₘ (nodesHeld list + ⟨.malloc, addr⟩ ::ₘ held)) := hmalloc.call rfl
        refine ⟨[], by simp only [enumerated, hm], ?_⟩
        simp only [abandoned, hm, nodesHeld, Multiset.zero_add, Multiset.singleton_add]
        refine holds_giveUp o key hrun ?_ hget
        simp only [enumerateDirLoop, Program.ask_bind, runAlone_call, runAlone_deref, hv, hout]
      | ok inode =>
        have hget : Holds w₀ ((v.afterCall o .malloc (some addr)).afterCall o
            (.dirReaderGetInode (.ok inode)) ())
            (inode.object ::ₘ ⟨.malloc, addr⟩ ::ₘ entry.object ::ₘ (nodesHeld list + held)) :=
          hmalloc.call rfl
        cases hname : copyName entry with
        | none =>
          simp only [enumerateDirLoop, Program.ask_bind, runAlone_call, runAlone_deref, hv, hout,
            hname, runAlone_undefined] at hrun
          cases hrun
        | some dName =>
          simp only [enumerateDirLoop, Program.ask_bind, runAlone_call, runAlone_deref, hv, hout,
            hname, runAlone_dirMapSetList] at hrun
          rw [nodesHeld_kept b list held addr inode entry dName] at hget
          obtain ⟨l, hl, hw'⟩ := ih hrun (hget.congr rfl)
          have hnext : ((v.afterCall o .malloc (some addr)).afterCall o
              (.dirReaderGetInode (.ok inode)) ()).used .malloc = w.used .malloc + 1 := by
            simp [Ext.fn, hcount]
          refine ⟨l, ?_, ?_⟩
          · simp only [enumerated, hm, hname, Option.bind_some, ← hnext]
            exact hl
          · simp only [abandoned, hm, ← hnext]
            rw [Multiset.cons_add, ← Multiset.add_cons]
            exact hw'

private theorem opendirBacking_all (realDir : Option Nat) :
    (opendirBacking realDir).All fun e => e.keepsLedger := by
  cases realDir with
  | some dir => trivial
  | none => exact createBackingDir_all.mono fun _ he => Req.isBacking.keepsLedger he

/-- After the insertion the entry is held, with its list and what was abandoned. -/
private theorem opendirInsert_holds {w₀ w w' : World} {realDir r : Option Nat} {dir addr : Nat}
    {dirReader : Nat} {inode : InodePtr} {cursor : DirCursor} {held : Multiset Object}
    (hdir : underlyingDir o w realDir = some dir)
    (hm : o.answer (w.used .malloc) .malloc = some addr)
    (hrun : runAlone o (opendirInsert b realDir dirReader inode cursor) w = some (r, w'))
    (hw : Holds w₀ w (inode.object ::ₘ held)) :
    ∃ list, enumerated b o cursor.final (w.used .malloc + 1) cursor.items [] = some list ∧
      Holds w₀ w' (nodesHeld list +
        (abandoned o (w.used .malloc + 1) cursor.items + ⟨.malloc, addr⟩ ::ₘ held)) := by
  obtain ⟨v, hback, hmalloc, -⟩ := run_opendirBacking o w realDir
  have hv := hw.of_all (opendirBacking_all realDir) hback
  have hout : v.outcome o .malloc = some addr := by
    rw [← hm, ← hmalloc]
    rfl
  have hv1 : Holds w₀ (v.afterCall o .malloc (some addr)) (inode.object ::ₘ ⟨.malloc, addr⟩ ::ₘ held) := by
    rw [Multiset.cons_swap]
    exact hv.call rfl
  have hcount : (v.afterCall o .malloc (some addr)).used .malloc = w.used .malloc + 1 := by
    simp [Ext.fn, hmalloc]
  rw [opendirInsert, runAlone_bind, hback, Option.bind_some, hdir] at hrun
  simp only [Program.ask_bind, runAlone_call, hout, runAlone_dirMapAdd] at hrun
  generalize v.afterCall o .malloc (some addr) = v1 at hv1 hcount hrun
  obtain ⟨_, v2, hloop, hrun⟩ := runAlone_bind_some o _ hrun
  have hstart : Holds w₀ { v1 with dirMap := freshEntry addr dir dirReader realDir [] :: v1.dirMap }
      (nodesHeld [] + inode.object ::ₘ ⟨.malloc, addr⟩ ::ₘ held) := by
    rw [nodesHeld, Multiset.zero_add]
    exact hv1.congr rfl
  obtain ⟨list, hlist, hend⟩ := enumerateDirLoop_holds b o hloop hstart
  rw [← hcount]
  refine ⟨list, hlist, ?_⟩
  rw [Multiset.add_cons, Multiset.add_cons] at hend
  cases hrun
  have hfree : Holds w₀ (v2.afterCall o (.sqfsFree inode.addr) ()) (nodesHeld list +
      (abandoned o (v1.used .malloc) cursor.items + ⟨.malloc, addr⟩ ::ₘ held)) := by
    refine hend.call ?_
    simp [Ext.events, replay, LedgerEvent.apply, InodePtr.object]
  exact hfree.congr rfl

/-- What a map entry owns does not change while its stream is read. -/
private def owned (e : DirMapEntry) : Nat × Nat × Nat × List SqfsDirEntryNode :=
  (e.addr, e.key, e.dirReader, e.dirEntryList)

/-- Nothing is obtained or released and no entry changes what it owns. -/
private structure ListsKept (w w' : World) : Prop where
  ledger : w'.ledger = w.ledger
  owned : w'.dirMap.map owned = w.dirMap.map owned

private theorem handle_listsKept (w : World) (e : Req) (h : forReaddir e = true) :
    ListsKept w (World.handle o w e).2 := by
  cases e with
  | call c =>
    cases c with
    | readdir dirp => exact ⟨rfl, rfl⟩
    | _ => cases h
  | getenv v => cases v <;> exact ⟨rfl, rfl⟩
  | dirMapSetCurrent key current =>
    refine ⟨rfl, map_adjust ?_ key _⟩
    intro e
    rfl
  | dirMapSetReachedEnd key =>
    refine ⟨rfl, map_adjust ?_ key _⟩
    intro e
    rfl
  | dirMapAdd e => cases h
  | dirMapDel key => cases h
  | dirMapSetList key list => cases h
  | fdMapAdd e => cases h
  | fdMapDel key => cases h
  | fdMapSetOffset key offset => cases h
  | _ => exact ⟨rfl, rfl⟩

/-- A client reads from the streams, one entry each time. -/
def readAll : List Nat → Hook Unit
  | [] => return ()
  | dirp :: reads => do
    let _ ← sqfsReaddir dirp
    readAll reads

/-- A client opens a directory, reads from this and other streams and closes it. -/
def session (name : Option CString) (reads : List Nat) : Hook (Option Int) := do
  let dirp ← sqfsOpendir b name
  match dirp with
  | none => return none
  | some dirp => do
    readAll reads
    let ret ← sqfsClosedir dirp
    return some ret

private theorem readAll_all (reads : List Nat) : (readAll reads).All fun e => forReaddir e := by
  induction reads with
  | nil => trivial
  | cons dirp reads ih => exact (sqfsReaddir_all dirp).bind fun _ => ih

private theorem run_readAll (reads : List Nat) (w : World) :
    ∃ w', runAlone o (readAll reads) w = some ((), w') ∧ ListsKept w w' := by
  obtain ⟨_, w', hrun, hw'⟩ := Program.All.runs (fun w => ⟨rfl, rfl⟩)
    (fun u v w h k => ⟨k.ledger.trans h.ledger, k.owned.trans h.owned⟩)
    (handle_listsKept o) (readAll_all reads) w
  exact ⟨w', hrun, hw'⟩

/-- An entry that is found stays so, with what it owns. -/
private theorem lookup_of_owned {dir : Nat} {entries entries' : List DirMapEntry}
    (h : entries'.map owned = entries.map owned) {e : DirMapEntry}
    (he : lookup DirMapEntry.key dir entries = some e) :
    ∃ e', lookup DirMapEntry.key dir entries' = some e' ∧ owned e' = owned e := by
  induction entries generalizing entries' with
  | nil => cases he
  | cons a entries ih =>
    cases entries' with
    | nil => cases h
    | cons a' entries' =>
      rw [List.map_cons, List.map_cons, List.cons.injEq] at h
      have hkey : a'.key = a.key := congrArg (fun x : Nat × Nat × _ => x.2.1) h.1
      rw [lookup] at he ⊢
      rw [hkey]
      split at he
      · rename_i hk
        cases he
        exact ⟨a', if_pos hk, h.1⟩
      · rename_i hk
        rw [if_neg hk]
        exact ih h.2 he

/-- What `sqfs_closedir` does with the entry that it has taken out of the map. -/
private def release (found : DirMapEntry) : Hook Int := do
  deref [found.object]
  call (.sqfsDestroy found.dirReader)
  deref [found.object]
  let underlyingDir := found.key
  freeSqfsDirEntryList found.dirEntryList
  deref [found.object]
  call (.free found.addr)
  logHook (some (ascii "sqfs_closedir"))
  sqfsUnlock
  let ret : Except Errno Unit ← call (.closedir underlyingDir)
  match ret with
  | .error _ => return -1
  | .ok _ => return 0

private theorem release_all (found : DirMapEntry) : (release found).All fun _ => True := by
  refine ⟨trivial, fun _ => ⟨trivial, fun _ => ⟨trivial, fun _ =>
    ((freeSqfsDirEntryList_all _).mono fun _ _ => trivial).bind
      fun _ => ⟨trivial, fun _ => ⟨trivial, fun _ => ?_⟩⟩⟩⟩⟩
  refine ((logHook_all _).mono fun _ _ => trivial).bind fun _ => ?_
  refine ⟨trivial, fun _ => ⟨trivial, fun ret => ?_⟩⟩
  cases ret <;> trivial

private theorem tracks_release_entry (found : DirMapEntry) (held : Multiset Object) :
    (release found).Tracks holdings
      (readerObject found.dirReader ::ₘ (nodesHeld found.dirEntryList + found.object ::ₘ held))
      fun _ held' => held' = held := by
  refine .idle (fun _ => rfl) fun _ => tracks_release (fun _ => rfl) fun _ =>
    .idle (fun _ => rfl) fun _ => (tracks_freeSqfsDirEntryList _).bind ?_
  rintro - _ rfl
  refine .idle (fun _ => rfl) fun _ => tracks_release (fun _ => rfl) fun _ =>
    (tracks_logHook _).bind ?_
  rintro - _ rfl
  refine .idle (fun _ => rfl) fun _ => tracks_call_idle rfl fun ret => ?_
  cases ret <;> rfl

/-- `sqfs_closedir` gives back all that the entry of its stream owns. -/
private theorem sqfsClosedir_holds {w₀ w : World} {dir : Nat} {e : DirMapEntry}
    {held : Multiset Object} (he : lookup DirMapEntry.key dir w.dirMap = some e)
    (hw : Holds w₀ w (readerObject e.dirReader ::ₘ (nodesHeld e.dirEntryList + e.object ::ₘ held))) :
    ∃ ret w', runAlone o (sqfsClosedir dir) w = some (ret, w') ∧ Holds w₀ w' held := by
  have hstart : runAlone o (sqfsClosedir dir) w = runAlone o (release e)
      { w.locked with dirMap := remove DirMapEntry.key dir w.dirMap } := by
    have he' : lookup DirMapEntry.key dir w.locked.dirMap = some e := he
    rw [sqfsClosedir, Program.ask_bind, runAlone_lock, Program.ask_bind, runAlone_dirMapFind, he',
      if_pos Option.isSome_some]
    change runAlone o (ask (.dirMapEntry dir) >>= fun found => ask (.dirMapDel dir) >>= fun _ =>
      release found) w.locked = _
    rw [Program.ask_bind, runAlone_dirMapEntry, he', Option.getD_some, Program.ask_bind,
      runAlone_dirMapDel]
    rfl
  have hends := Program.All.runs (h := World.handle o) (fun _ => trivial)
    (fun _ _ _ _ _ => trivial) (fun _ _ _ => trivial) (release_all e)
    { w.locked with dirMap := remove DirMapEntry.key dir w.dirMap }
  obtain ⟨ret, w', hrun, -⟩ := hends
  have hremoved : Holds w₀ { w.locked with dirMap := remove DirMapEntry.key dir w.dirMap }
    (readerObject e.dirReader ::ₘ (nodesHeld e.dirEntryList + e.object ::ₘ held)) := hw.congr rfl
  obtain ⟨_, rfl, hw'⟩ := hremoved.of_tracks (tracks_release_entry e held) hrun
  exact ⟨ret, w', hstart.trans hrun, hw'⟩

/-- A whole session with an enumerated directory, up to the return of `sqfs_closedir`,
holds at its end what the enumeration abandoned. -/
private theorem session_holds {w : World} {name : Option CString} {dirReader : Nat}
    {inode : InodePtr} {cursor : DirCursor} (reads : List Nat)
    (hfound : lowerDir o w name = .found dirReader inode cursor)
    (hroom : DirRoom o (afterReal o w name) (realStream (w.outcome o (.opendir name)))) :
    match enumerated b o cursor.final (w.used .malloc + 1) cursor.items [] with
    | none => runAlone o (session b name reads) w = none
    | some _ => ∃ ret w', runAlone o (session b name reads) w = some (some ret, w') ∧
        Holds w w' (abandoned o (w.used .malloc + 1) cursor.items) := by
  have hcases := sqfsOpendir_cases o b w name
  rw [hfound] at hcases
  obtain ⟨v, hv, hrun, hheld⟩ := hcases
  obtain ⟨hdir, hm⟩ := (dirRoom_congr o hv _).mpr hroom
  obtain ⟨dir, hdir⟩ := Option.ne_none_iff_exists'.mp hdir
  obtain ⟨addr, hm⟩ := Option.ne_none_iff_exists'.mp hm
  have hcount : v.used .malloc = w.used .malloc := hv.malloc.trans (by simp [afterReal, Ext.fn])
  have hinsert := run_opendirInsert b o dirReader inode cursor hdir hm
  rw [hcount] at hinsert
  cases hl : enumerated b o cursor.final (w.used .malloc + 1) cursor.items [] with
  | none =>
    rw [hl] at hinsert
    have hnone : runAlone o (sqfsOpendir b name) w = none := hrun.trans hinsert
    change runAlone o (session b name reads) w = none
    rw [session, runAlone_bind, hnone]
    rfl
  | some list =>
    rw [hl] at hinsert
    obtain ⟨u, w1, -, hend, hw1⟩ := hinsert
    obtain ⟨list', hlist', hopen⟩ := opendirInsert_holds b o hdir hm hend
      (hheld w 0 (Holds.refl w))
    rw [hcount, hl] at hlist'
    cases hlist'
    obtain ⟨w2, hread, hkept⟩ := run_readAll o reads w1
    have hentry : lookup DirMapEntry.key dir w1.dirMap = some (freshEntry addr dir dirReader
        (realStream (w.outcome o (.opendir name))) list) := by
      rw [hw1.dirMap]
      exact if_pos rfl
    obtain ⟨e, he, howned⟩ := lookup_of_owned hkept.owned hentry
    obtain ⟨haddr, -, hreader, hlist⟩ : e.addr = addr ∧ e.key = dir ∧ e.dirReader = dirReader ∧
        e.dirEntryList = list := by simpa [owned, freshEntry] using howned
    have howns : Holds w w2 (readerObject e.dirReader ::ₘ (nodesHeld e.dirEntryList +
        e.object ::ₘ abandoned o (w.used .malloc + 1) cursor.items)) := by
      rw [DirMapEntry.object, haddr, hreader, hlist]
      rw [hcount, Multiset.add_cons, Multiset.add_cons, Multiset.add_cons, Multiset.add_zero,
        Multiset.add_cons, Multiset.cons_swap, ← Multiset.add_cons] at hopen
      exact hopen.congr hkept.ledger
    obtain ⟨ret, w', hclose, hw'⟩ := sqfsClosedir_holds o he howns
    refine ⟨ret, w', ?_, hw'⟩
    rw [session, runAlone_bind, hrun.trans hend, Option.bind_some, runAlone_bind, hread,
      Option.bind_some, runAlone_bind, hclose]
    rfl

/-- The enumeration abandons nothing when it gets no entry or no memory for the first. -/
private theorem abandoned_eq_zero_iff (n : Nat) (items : List DirItem) :
    abandoned o n items = 0 ↔ items = [] ∨ o.answer n .malloc = none := by
  cases items with
  | nil => simp [abandoned]
  | cons item items =>
    cases hm : o.answer n .malloc with
    | none => simp [abandoned, hm]
    | some addr => cases hi : item.inode <;> simp [abandoned, hm, hi]

private theorem enumerated_of_abandoned (final : Except SqfsError Unit) {n : Nat}
    {items : List DirItem} (h : abandoned o n items = 0) :
    enumerated b o final n items [] = some [] := by
  cases items with
  | nil => cases final <;> rfl
  | cons item items =>
    rcases (abandoned_eq_zero_iff o n _).mp h with h | h
    · cases h
    · simp only [enumerated, h]

/-- By the return of `sqfs_closedir` every object obtained since `sqfs_opendir` has been
released, none of them twice. -/
def ReleasesAll (w : World) (name : Option CString) (reads : List Nat) : Prop :=
  ∃ ret w', runAlone o (session b name reads) w = some (some ret, w') ∧ Holds w w' 0

private theorem releasesAll_iff_abandoned {w : World} {name : Option CString} {dirReader : Nat}
    {inode : InodePtr} {cursor : DirCursor} (reads : List Nat)
    (hfound : lowerDir o w name = .found dirReader inode cursor)
    (hroom : DirRoom o (afterReal o w name) (realStream (w.outcome o (.opendir name)))) :
    ReleasesAll b o w name reads ↔ abandoned o (w.used .malloc + 1) cursor.items = 0 := by
  have hsession := session_holds b o reads hfound hroom
  cases hl : enumerated b o cursor.final (w.used .malloc + 1) cursor.items [] with
  | none =>
    rw [hl] at hsession
    constructor
    · rintro ⟨ret, w', hrun, -⟩
      exact absurd (hsession.symm.trans hrun) nofun
    · intro h
      rw [enumerated_of_abandoned b o cursor.final h] at hl
      cases hl
  | some list =>
    rw [hl] at hsession
    obtain ⟨ret, w', hrun, hw'⟩ := hsession
    constructor
    · rintro ⟨ret', v, hrun', hv⟩
      have hsame : some (some ret, w') = some (some ret', v) := hrun.symm.trans hrun'
      cases hsame
      exact hw'.unique hv
    · intro h
      rw [h] at hw'
      exact ⟨ret, w', hrun, hw'⟩

/-- What is obtained for an enumerated directory has been released once its stream is
closed exactly when the directory gave no entry at all, or memory for the first node was
refused: every entry that is copied is lost, as is a node whose inode cannot be read. -/
theorem enumeration_released_iff {w : World} {name : Option CString} {dirReader : Nat}
    {inode : InodePtr} {cursor : DirCursor} (reads : List Nat)
    (hfound : lowerDir o w name = .found dirReader inode cursor)
    (hroom : DirRoom o (afterReal o w name) (realStream (w.outcome o (.opendir name)))) :
    ReleasesAll b o w name reads ↔
      cursor.items = [] ∨ o.answer (w.used .malloc + 1) .malloc = none :=
  (releasesAll_iff_abandoned b o reads hfound hroom).trans (abandoned_eq_zero_iff o _ _)

/-- The same process with memory for the entry of the stream, and no more. -/
def nodeless (items : List DirItem) : Oracle :=
  { bothLayers [] items with
    answer := fun n c =>
      match n, c with
      | _ + 1, .malloc => none
      | n, c => (bothLayers [] items).answer n c }

theorem nodeless_found (items : List DirItem) :
    lowerDir (nodeless items) .initial (some hookFile) =
      .found 16 { addr := 2048, inode := plainDir } { items, final := .ok () } := by
  simp only [lowerDir, World.lookup, World.imageEntry, hookFile_routed]
  rfl

theorem nodeless_room (items : List DirItem) :
    DirRoom (nodeless items) (afterReal (nodeless items) .initial (some hookFile))
      (realStream (World.initial.outcome (nodeless items) (.opendir (some hookFile)))) := by
  refine ⟨nofun, ?_⟩
  exact fun h => nomatch h

/-- A directory with one plain file, for whose node there is no memory. -/
theorem enumeration_released_iff_nodeless :
    ReleasesAll .b64 (nodeless [imageItem]) .initial (some hookFile) [1024] := by
  have hiff := enumeration_released_iff .b64 (nodeless [imageItem]) [1024]
    (nodeless_found [imageItem]) (nodeless_room [imageItem])
  exact hiff.mpr (.inr rfl)

/-- A directory with one plain file: the entry that was read is never released. -/
theorem entry_never_released :
    lowerDir (bothLayers [] [imageItem]) .initial (some hookFile) =
        .found 16 { addr := 2048, inode := plainDir } { items := [imageItem], final := .ok () } ∧
      ¬ ReleasesAll .b64 (bothLayers [] [imageItem]) .initial (some hookFile) [1024, 1024] := by
  have hfound := bothLayers_found [] [imageItem]
  refine ⟨hfound, fun hall => ?_⟩
  have hnothing := (releasesAll_iff_abandoned .b64 (bothLayers [] [imageItem]) [1024, 1024] hfound
    (bothLayers_room [] [imageItem])).mp hall
  rcases (abandoned_eq_zero_iff _ _ _).mp hnothing with h | h
  · cases h
  · cases h

end HookSqfs.Hooks
