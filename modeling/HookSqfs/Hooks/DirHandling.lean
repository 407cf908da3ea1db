import HookSqfs.Hooks.FileHandling

/-! The hooks on directory streams use and release only what their thread has in hand or has
found. An enumeration loses the entries that it copies, and nothing else is lost. -/
namespace HookSqfs.Hooks
open Manager Interaction Tables

section
variable {b : Bits} {α β : Type} {n : Nat} {g : Hand} {held : Multiset Object} {entries : Bool}
  {Q S : α → Nat → Hand → Prop}

namespace Handles

/-- An entry is read only in runs that read entries. -/
theorem readEntry {item : DirItem} {k : Unit → Hook α}
    (h : entries = true →
      Handles entries (k ()) n { g with held := item.entry.object ::ₘ g.held } Q) :
    Handles entries (.request (.call (.dirReaderRead (some item))) k) n g Q :=
  ⟨trivial, fun _ _ ⟨_, hentries, hnext⟩ => hnext ▸ h (hentries rfl)⟩

theorem logMsg {f : Unit → Hook β} {Q : β → Nat → Hand → Prop} (h : Handles entries (f ()) n g Q) :
    Handles entries (Manager.logMsg >>= f) n g Q := by
  have hlog : Handles entries Manager.logMsg n g fun _ n' g' => n' = n ∧ g' = g :=
    .of_all (logMsg_all.mono fun _ he => apart.of_log he)
      (logMsg_all.mono fun _ he => Req.isLog.keepsLedger he)
  apply hlog.bind
  rintro _ _ _ ⟨rfl, rfl⟩
  exact h

theorem freeList (list : List SqfsDirEntryNode) {f : Unit → Hook β} {Q : β → Nat → Hand → Prop}
    (hheld : g.held = nodesHeld list + held)
    (h : Handles entries (f ()) n { g with held } Q) :
    Handles entries (freeSqfsDirEntryList list >>= f) n g Q := by
  induction list generalizing g with
  | nil =>
    have hsame : g.held = held := hheld.trans (zero_add held)
    subst hsame
    exact h
  | cons node next ih =>
    have hinode : g.held = node.inode.object ::ₘ (node.object ::ₘ (nodesHeld next + held)) := by
      rw [hheld, nodesHeld, Multiset.cons_add, Multiset.cons_add]
    refine .deref ?_ (.release rfl (fun _ => rfl) hinode fun _ =>
      .release rfl (fun _ => rfl) rfl fun _ => ih rfl h)
    rintro x hx
    cases List.mem_singleton.mp hx
    refine .inl ?_
    rw [hinode]
    exact Multiset.mem_cons_of_mem (Multiset.mem_cons_self _ _)

end Handles

/-- With an entry of `dir_map` whose list it fills: the nodes are in hand. -/
def fillingHand (entry : DirMapEntry) (list : List SqfsDirEntryNode) (held : Multiset Object) : Hand :=
  { Hand.empty held with filling := some { entry with dirEntryList := list } }

theorem enumerateDiscard_handles (entry : DirMapEntry) (list : List SqfsDirEntryNode) :
    Handles entries (enumerateDiscard entry.key list) n (fillingHand entry list (nodesHeld list + held))
      fun _ n' g => n' = n ∧ g = fillingHand entry [] held := by
  refine .freeList list rfl ?_
  have hnone : (0 : Multiset Object) ≤ held := Multiset.zero_le held
  exact .request ⟨hnone, _, rfl, rfl⟩ fun _ _ => .ret ⟨rfl, rfl⟩

/-- The end of an iteration that gives up on its entry. -/
private theorem giveUp_handles (entry : DirMapEntry) (list : List SqfsDirEntryNode) (addr : Nat) :
    Handles entries
      (logMsg >>= fun _ => call (.sqfsFree addr) >>= fun _ => enumerateDiscard entry.key list) n
      (fillingHand entry list (⟨.library, addr⟩ ::ₘ (nodesHeld list + held)))
      fun _ n' g => n' = n ∧ g = fillingHand entry [] held :=
  .logMsg (.release rfl (fun _ => rfl) rfl fun _ => enumerateDiscard_handles entry list)

/-- What the enumeration keeps no pointer to: nothing where no entry is read. -/
def Loses (entries : Bool) (lost : Multiset Object) : Prop := entries = false → lost = 0

/-- The nodes of the list that is left are in hand, and what is lost. -/
def Filled (entries : Bool) (entry : DirMapEntry) (held : Multiset Object) (g : Hand) : Prop :=
  ∃ list lost, Loses entries lost ∧ g = fillingHand entry list (nodesHeld list + (lost + held))

theorem Filled.discarded (lost : Multiset Object) (entry : DirMapEntry) (h : Loses entries lost) :
    Filled entries entry held (fillingHand entry [] (lost + held)) :=
  ⟨[], lost, h, congrArg (fillingHand entry []) (zero_add (lost + held)).symm⟩

theorem Filled.nothing (entry : DirMapEntry) :
    Filled entries entry held (fillingHand entry [] held) :=
  ⟨[], 0, fun _ => rfl,
    congrArg (fillingHand entry []) ((zero_add held).symm.trans (zero_add (0 + held)).symm)⟩

theorem Filled.kept (entry : DirMapEntry) (list : List SqfsDirEntryNode) :
    Filled entries entry held (fillingHand entry list (nodesHeld list + held)) := by
  refine ⟨list, 0, fun _ => rfl, ?_⟩
  rw [zero_add]

theorem enumerateDirLoop_handles (entry : DirMapEntry) (final : Except SqfsError Unit)
    (items : List DirItem) (list : List SqfsDirEntryNode) (held : Multiset Object) :
    Handles entries (enumerateDirLoop b entry.key final items list) n
      (fillingHand entry list (nodesHeld list + held))
      fun _ n' g => n' = n ∧ Filled entries entry held g := by
  induction items generalizing list held with
  | nil =>
    refine .request trivial fun _ _ => ?_
    cases final with
    | ok _ => exact .ret ⟨rfl, .kept entry list⟩
    | error e =>
      refine .logMsg ((enumerateDiscard_handles entry list).mono ?_)
      rintro _ _ _ ⟨rfl, rfl⟩
      exact ⟨rfl, .nothing entry⟩
  | cons item items ih =>
    refine .readEntry fun hentries => ?_
    have hloses : ∀ lost, Loses entries lost := fun lost hno =>
      absurd (hentries.symm.trans hno) nofun
    refine .request trivial fun node _ => ?_
    cases node with
    | none =>
      refine (giveUp_handles entry list item.entry.addr).mono ?_
      rintro _ _ _ ⟨rfl, rfl⟩
      exact ⟨rfl, .nothing entry⟩
    | some addr =>
      refine .request trivial fun _ _ => ?_
      dsimp only
      cases hinode : item.inode with
      | error e =>
        have hswap : item.entry.object ::ₘ (nodesHeld list + ({⟨.malloc, addr⟩} + held)) =
            ⟨.malloc, addr⟩ ::ₘ item.entry.object ::ₘ (nodesHeld list + held) := by
          rw [Multiset.singleton_add, Multiset.add_cons, Multiset.cons_swap]
        have hgive : Handles entries _ n
            (fillingHand entry list (item.entry.object ::ₘ (nodesHeld list + ({⟨.malloc, addr⟩} + held))))
            _ := giveUp_handles entry list item.entry.addr
        rw [hswap] at hgive
        refine .deref ?_ (hgive.mono ?_)
        · rintro x hx
          cases List.mem_singleton.mp hx
          exact .inl (Multiset.mem_cons_of_mem (Multiset.mem_cons_self _ _))
        · rintro _ _ _ ⟨rfl, rfl⟩
          exact ⟨rfl, .discarded {⟨.malloc, addr⟩} entry (hloses _)⟩
      | ok inode =>
        refine .deref ?_ ?_
        · intro x hx
          refine .inl ?_
          have hmem : x = ⟨.malloc, addr⟩ ∨ x = inode.object ∨ x = item.entry.object := by
            simpa using hx
          change x ∈ inode.object ::ₘ ⟨.malloc, addr⟩ ::ₘ item.entry.object ::ₘ (nodesHeld list + held)
          simp only [Multiset.mem_cons]
          tauto
        · cases hname : copyName item.entry with
          | none => exact trivial
          | some dName =>
            let node := nodeOf b addr inode dName
            have hheld : inode.object ::ₘ ⟨.malloc, addr⟩ ::ₘ item.entry.object ::ₘ
                (nodesHeld list + held) =
                nodesHeld (list ++ [node]) + ({item.entry.object} + held) := by
              rw [Multiset.singleton_add]
              exact nodesHeld_kept b list held addr inode item.entry dName
            have hpermits : nodesHeld (list ++ [node]) ≤
                inode.object ::ₘ ⟨.malloc, addr⟩ ::ₘ item.entry.object ::ₘ (nodesHeld list + held) :=
              hheld ▸ Multiset.le_add_right _ _
            refine .deref ?_ (.request ⟨hpermits, _, rfl, rfl⟩ fun _ _ => ?_)
            · intro x hx
              obtain ⟨kept, hkept, rfl⟩ := List.mem_map.mp hx
              refine .inl (Multiset.mem_of_le hpermits ?_)
              exact node_mem_nodesHeld (List.mem_append_left _ hkept)
            · have hrest := ih (list ++ [node]) ({item.entry.object} + held)
              rw [← hheld] at hrest
              refine hrest.mono ?_
              rintro _ _ _ ⟨rfl, list', lost, -, rfl⟩
              refine ⟨rfl, list', lost + {item.entry.object}, hloses _, ?_⟩
              rw [add_assoc lost]

/-- The hook leaves the thread with what it had and what it lost, and without the lock. -/
def Lossy (p : Hook α) : Prop :=
  ∀ entries held, Handles entries p 0 (.empty held) fun _ n g => n = 0 ∧
    ∃ lost, Loses entries lost ∧ g = .empty (lost + held)

theorem Tidy.lossy {p : Hook α} (h : Tidy p) : Lossy p := by
  intro entries held
  refine (h entries held).mono ?_
  rintro _ _ _ ⟨rfl, rfl⟩
  refine ⟨rfl, 0, fun _ => rfl, ?_⟩
  rw [zero_add]

theorem opendirOutUnlockOnly_handles (underlyingDir result : Option Nat) (hg : g.owed ≤ g.held) :
    Handles entries (opendirOutUnlockOnly underlyingDir result) 1 g
      fun _ n g' => n = 0 ∧ g' = .empty (g.held - g.owed) := by
  refine .idle rfl rfl fun _ => .request hg fun _ _ => ?_
  cases underlyingDir with
  | none => exact .ret ⟨rfl, rfl⟩
  | some dir =>
    cases result with
    | none => exact .idle rfl rfl fun _ => .idle rfl rfl fun _ => .ret ⟨rfl, rfl⟩
    | some r => exact .ret ⟨rfl, rfl⟩

/-- The end of an open that has nothing left in hand. -/
private theorem out_handles (underlyingDir result : Option Nat) :
    Handles entries (opendirOutUnlockOnly underlyingDir result) 1 (.empty held)
      fun _ n g' => n = 0 ∧ ∃ lost, Loses entries lost ∧ g' = .empty (lost + held) := by
  have howed : (Hand.empty held).owed = 0 := Hand.owed_none rfl
  have hle : (Hand.empty held).owed ≤ (Hand.empty held).held := howed ▸ Multiset.zero_le held
  refine (opendirOutUnlockOnly_handles underlyingDir result hle).mono ?_
  rintro _ _ _ ⟨rfl, rfl⟩
  refine ⟨rfl, 0, fun _ => rfl, ?_⟩
  rw [howed, tsub_zero, zero_add]
  rfl

theorem opendirOut_handles (underlyingDir : Option Nat) (dirReader : Nat) (inode : Option Nat) :
    Handles entries (opendirOut underlyingDir dirReader inode) 1
      (.empty (inode.elim (readerObject dirReader ::ₘ held) (⟨.library, ·⟩ ::ₘ readerObject dirReader ::ₘ held)))
      fun _ n g' => n = 0 ∧ ∃ lost, Loses entries lost ∧ g' = .empty (lost + held) := by
  refine .idle rfl rfl fun savedErrno => ?_
  cases inode with
  | none =>
    exact .release rfl (fun _ => rfl) rfl fun _ => .idle rfl rfl fun _ => out_handles underlyingDir none
  | some inode =>
    exact .release rfl (fun _ => rfl) rfl fun _ => .release rfl (fun _ => rfl) rfl fun _ =>
      .idle rfl rfl fun _ => out_handles underlyingDir none

/-- The entry and its reader go into the table, and the inode is given back. -/
private theorem opendirInsert_handles (realDir : Option Nat) (dirReader : Nat) (inode : InodePtr)
    (cursor : DirCursor) :
    Handles entries (opendirInsert b realDir dirReader inode cursor) 1
      (.empty (inode.object ::ₘ readerObject dirReader ::ₘ held))
      fun _ n g' => n = 0 ∧ ∃ lost, Loses entries lost ∧ g' = .empty (lost + held) := by
  have hbacking : Handles entries (opendirBacking realDir) 1
      (.empty (inode.object ::ₘ readerObject dirReader ::ₘ held)) fun _ n g =>
        n = 1 ∧ g = .empty (inode.object ::ₘ readerObject dirReader ::ₘ held) := by
    cases realDir with
    | some dir => exact .ret ⟨rfl, rfl⟩
    | none =>
      exact .of_all (createBackingDir_all.mono fun _ he => apart.of_backing he)
        (createBackingDir_all.mono fun _ he => Req.isBacking.keepsLedger he)
  apply hbacking.bind
  rintro (_ | dir) _ _ ⟨rfl, rfl⟩
  · exact opendirOut_handles none dirReader (some inode.addr)
  refine .request trivial fun dirEntry _ => ?_
  cases dirEntry with
  | none => exact .idle rfl rfl fun _ => opendirOut_handles (some dir) dirReader (some inode.addr)
  | some addr =>
    let entry : DirMapEntry := ⟨addr, dir, dirReader, realDir.isSome, [], [], false⟩
    have hswap : ⟨.malloc, addr⟩ ::ₘ inode.object ::ₘ readerObject dirReader ::ₘ held =
        ⟨.malloc, addr⟩ ::ₘ {readerObject dirReader} + (inode.object ::ₘ held) := by
      rw [Multiset.cons_add, Multiset.singleton_add, Multiset.cons_swap inode.object]
    have hpermits : ⟨.malloc, addr⟩ ::ₘ {readerObject dirReader} ≤ ⟨.malloc, addr⟩ ::ₘ inode.object ::ₘ readerObject dirReader ::ₘ held :=
      hswap ▸ Multiset.le_add_right _ _
    have hheld : ⟨.malloc, addr⟩ ::ₘ inode.object ::ₘ readerObject dirReader ::ₘ held - (⟨.malloc, addr⟩ ::ₘ {readerObject dirReader}) =
        nodesHeld [] + (inode.object ::ₘ held) := by
      rw [hswap, add_tsub_cancel_left]
      exact (zero_add _).symm
    have hadded : (Hand.empty (⟨.malloc, addr⟩ ::ₘ inode.object ::ₘ readerObject dirReader ::ₘ held)).next (.dirMapAdd entry) () =
        fillingHand entry [] (nodesHeld [] + (inode.object ::ₘ held)) :=
      congrArg (fillingHand entry []) hheld
    refine .request ⟨hpermits, rfl, rfl, rfl⟩ fun _ _ => ?_
    change Handles entries _ 1 ((Hand.empty (⟨.malloc, addr⟩ ::ₘ inode.object ::ₘ readerObject dirReader ::ₘ held)).next
      (.dirMapAdd entry) ()) _
    rw [hadded]
    refine (enumerateDirLoop_handles entry cursor.final cursor.items [] (inode.object ::ₘ held)).bind ?_
    rintro _ _ _ ⟨rfl, list, lost, hlost, rfl⟩
    rw [Multiset.add_cons, Multiset.add_cons]
    refine .release rfl (fun _ => rfl) rfl fun _ => ?_
    have hout : Handles entries _ 1 (fillingHand entry list (nodesHeld list + (lost + held))) _ :=
      opendirOutUnlockOnly_handles (some dir) (some dir) (Multiset.le_add_right _ _)
    refine hout.mono ?_
    rintro _ _ _ ⟨rfl, rfl⟩
    exact ⟨rfl, lost, hlost, congrArg Hand.empty (add_tsub_cancel_left _ _)⟩

private theorem opendirLookup_handles (realDir : Option Nat) (relative : CString) (dirReader : Nat) :
    Handles entries (opendirLookup b realDir relative dirReader) 1 (.empty (readerObject dirReader ::ₘ held))
      fun _ n g' => n = 0 ∧ ∃ lost, Loses entries lost ∧ g' = .empty (lost + held) := by
  apply (sqfsFindInode_handles (some relative)).bind
  rintro (_ | inode) _ _ ⟨rfl, rfl⟩
  · refine .idle rfl rfl fun savedErrno => .log _ ?_
    cases realDir with
    | some dir =>
      exact .release rfl (fun _ => rfl) rfl fun _ => .idle rfl rfl fun _ =>
        out_handles (some dir) (some dir)
    | none => exact .idle rfl rfl fun _ => opendirOut_handles none dirReader none
  · have hinode : inode.object ∈ inode.object ::ₘ readerObject dirReader ::ₘ held :=
      Multiset.mem_cons_self _ _
    refine .deref (fun x hx => List.mem_singleton.mp hx ▸ .inl hinode) ?_
    refine .ite (fun _ => .request hinode fun ret _ => ?_) fun _ =>
      .idle rfl rfl fun _ => opendirOut_handles realDir dirReader (some inode.addr)
    cases ret with
    | error e =>
      exact .logMsg (.idle rfl rfl fun _ => opendirOut_handles realDir dirReader (some inode.addr))
    | ok cursor => exact opendirInsert_handles realDir dirReader inode cursor

theorem sqfsOpendir_lossy (name : Option CString) : Lossy (sqfsOpendir b name) := by
  intro entries held
  refine .idle rfl rfl fun real => ((sqfsCheckPath_tidy name) entries held).bind ?_
  rintro checked _ _ ⟨rfl, rfl⟩
  refine .ite (fun _ => .idle rfl rfl fun _ => .ret ⟨rfl, 0, fun _ => rfl, ?_⟩) fun _ => ?_
  · rw [zero_add]
  · refine .log _ (.request trivial fun _ _ => .idle rfl rfl fun mgr => .ite (fun _ => ?_) fun _ => ?_)
    · refine .request trivial fun dirReader _ => ?_
      cases dirReader with
      | none => exact .idle rfl rfl fun _ => out_handles _ none
      | some dirReader => exact opendirLookup_handles _ _ dirReader
    · exact .idle rfl rfl fun _ => out_handles _ _

theorem sqfsClosedir_tidy (dir : Nat) : Tidy (sqfsClosedir dir) := by
  intro entries held
  refine .request trivial fun _ _ => .request trivial fun mapped _ => ?_
  cases mapped with
  | false =>
    refine .unlock ⟨rfl, rfl⟩ (.idle rfl rfl fun ret => ?_)
    cases ret <;> exact .ret ⟨rfl, rfl⟩
  | true =>
    refine .request ⟨rfl, rfl⟩ fun found hfound => .request ⟨rfl, found, rfl, hfound.1⟩ fun _ _ => ?_
    have hheld : entryObjects found + held =
        readerObject found.dirReader ::ₘ (nodesHeld found.dirEntryList + (found.object ::ₘ held)) := by
      rw [entryObjects, Multiset.cons_add, Multiset.cons_add, Multiset.add_cons, Multiset.cons_swap]
    have hentry : ∀ {g : Hand}, found.object ∈ g.held → ∀ x ∈ [found.object], g.reaches x :=
      fun hmem x hx => List.mem_singleton.mp hx ▸ .inl hmem
    have hstill : found.object ∈ nodesHeld found.dirEntryList + (found.object ::ₘ held) :=
      Multiset.mem_add.mpr (.inr (Multiset.mem_cons_self _ _))
    have hfirst : found.object ∈ entryObjects found + held := hheld ▸ Multiset.mem_cons_of_mem hstill
    refine .deref (hentry hfirst) ?_
    refine .release rfl (fun _ => rfl) hheld fun _ => .deref (hentry hstill) ?_
    refine .freeList found.dirEntryList rfl (.deref (hentry (Multiset.mem_cons_self _ _)) ?_)
    refine .release rfl (fun _ => rfl) rfl fun _ => .log _ (.unlock ⟨rfl, rfl⟩ (.idle rfl rfl fun ret => ?_))
    cases ret <;> exact .ret ⟨rfl, rfl⟩

private theorem dumpDirent_handles (logReaddir : Bool) {shown : List Object} {f : Unit → Hook β}
    {Q : β → Nat → Hand → Prop} (hshown : ∀ x ∈ shown, g.reaches x)
    (h : Handles entries (f ()) n g Q) : Handles entries (dumpDirent logReaddir shown >>= f) n g Q := by
  cases logReaddir with
  | false => exact h
  | true => exact .deref hshown (.logMsg h)

/-- The cursor stays in the list of the entry that it belongs to. -/
private theorem readdirLower_handles (logReaddir : Bool) (dirp : Nat) (hg : Left held g)
    (hfound : g.dirFound = some dirp) :
    Handles entries (readdirLower logReaddir dirp) 1 g fun _ n g' => n = 0 ∧ g' = .empty held := by
  refine .request ⟨hg.filling, hfound⟩ fun found htold => .ite (fun _ => ?_) fun _ => ?_
  · exact dumpDirent_handles logReaddir nofun (.unlock ⟨hg.held, hg.filling⟩ (.ret ⟨rfl, rfl⟩))
  have hsuffix : (if found.dirEntryCurrent = [] then found.dirEntryList else found.dirEntryCurrent) <:+
      found.dirEntryList := by
    split
    · exact List.suffix_rfl
    · exact htold.2
  generalize (if found.dirEntryCurrent = [] then found.dirEntryList
    else found.dirEntryCurrent) = current at hsuffix ⊢
  refine .request ⟨hg.filling, found, rfl, htold.1, hsuffix⟩ fun _ _ => ?_
  cases current with
  | nil => exact .unlock ⟨hg.held, hg.filling⟩ (.ret ⟨rfl, rfl⟩)
  | cons node next =>
    have hnext : next <:+ found.dirEntryList := (List.suffix_cons node next).trans hsuffix
    have hnode : node.object ∈ entryObjects found :=
      Multiset.mem_cons_of_mem (Multiset.mem_cons_of_mem
        (node_mem_nodesHeld (hsuffix.subset List.mem_cons_self)))
    have hreach : ∀ {g' : Hand} {entry : DirMapEntry}, g'.filling = none → g'.dirSeen = some entry →
        entryObjects entry = entryObjects found → ∀ x ∈ [node.object], g'.reaches x :=
      fun hfilling hseen hsame x hx =>
        List.mem_singleton.mp hx ▸ .inr (.inr ⟨hfilling, _, hseen, hsame ▸ hnode⟩)
    refine .deref (hreach hg.filling rfl rfl) (.request ⟨hg.filling, _, rfl, htold.1, hnext⟩ fun _ _ => ?_)
    refine Handles.bind (p := if next = [] then ask (.dirMapSetReachedEnd dirp) else pure ())
      (S := fun _ n' g' => n' = 1 ∧ Left held g' ∧ ∀ x ∈ [node.object], g'.reaches x)
      (.ite (fun _ => ?_) fun _ => ?_) ?_
    · exact .request ⟨hg.filling, _, rfl, htold.1⟩ fun _ _ =>
        .ret ⟨rfl, ⟨hg.held, hg.filling⟩, hreach hg.filling rfl rfl⟩
    · exact .ret ⟨rfl, ⟨hg.held, hg.filling⟩, hreach hg.filling rfl rfl⟩
    · rintro _ _ g' ⟨rfl, hg', hshown⟩
      exact dumpDirent_handles logReaddir hshown (.unlock hg' (.ret ⟨rfl, rfl⟩))

theorem sqfsReaddir_tidy (dirp : Nat) : Tidy (sqfsReaddir dirp) := by
  intro entries held
  refine .idle rfl rfl fun value => .request trivial fun _ _ => .request trivial fun mapped _ => ?_
  cases mapped with
  | false => exact .unlock ⟨rfl, rfl⟩ (.idle rfl rfl fun _ => .ret ⟨rfl, rfl⟩)
  | true =>
    refine .request ⟨rfl, rfl⟩ fun found _ => .ite (fun _ => .idle rfl rfl fun result => ?_) fun _ =>
      readdirLower_handles _ dirp ⟨rfl, rfl⟩ rfl
    cases result with
    | none => exact readdirLower_handles _ dirp ⟨rfl, rfl⟩ rfl
    | some dirent => exact dumpDirent_handles _ nofun (.unlock ⟨rfl, rfl⟩ (.ret ⟨rfl, rfl⟩))

theorem HookCall.lossy {image : Set Int} {p : Hook α} (h : HookCall b image p) : Lossy p := by
  cases h with
  | «open» pathname flags mode => exact (sqfsOpen_tidy pathname flags mode).lossy
  | read fd count => exact (sqfsRead_tidy fd count).lossy
  | pread fd count offset => exact (sqfsPread_tidy fd count offset).lossy
  | pread64 fd count offset => exact (sqfsPread64_tidy fd count offset).lossy
  | lseek fd offset whence => exact (sqfsLseek_tidy fd offset whence).lossy
  | lseek64 fd offset whence => exact (sqfsLseek64_tidy fd offset whence).lossy
  | close _ => exact (sqfsClose_tidy _).lossy
  | closeNocancel _ => exact (sqfsCloseNocancel_tidy _).lossy
  | xstat ver pathname buf => exact (sqfsXstat_tidy ver pathname buf).lossy
  | access pathname mode => exact (sqfsAccess_tidy pathname mode).lossy
  | opendir name => exact sqfsOpendir_lossy name
  | readdir dirp => exact (sqfsReaddir_tidy dirp).lossy
  | closedir dir => exact (sqfsClosedir_tidy dir).lossy

end
end HookSqfs.Hooks
