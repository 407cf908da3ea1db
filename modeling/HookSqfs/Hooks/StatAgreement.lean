import HookSqfs.Hooks.MergedListing
import HookSqfs.Hooks.PathOutcomes
import HookSqfs.Paths.EntryPaths

/-! The two views of an entry of the image: what `sqfs_readdir` announces and what
`sqfs_xstat` reports of its path. -/
namespace HookSqfs.Hooks
open Manager Interaction Paths
variable (b : Bits) (o : Oracle)

/-- `IFTODT`: the directory entry type that stands for a file type. -/
def fileType (mode : BitVec 32) : Nat := ((mode &&& 0xf000) >>> 12).toNat

/-- The inode types that `enumerate_dir` tells apart. -/
def dirOrFile (inode : Inode) : Bool :=
  match inode.data with
  | .dir .. | .extDir .. | .file .. | .extFile .. => true
  | _ => false

/-- `sqfs_xstat` on the entry's path succeeds with the announced number and type. -/
def StatAgrees (v : World) (dir : CString) (dirent : Dirent) : Prop :=
  ∀ buf, ∃ st w',
    runAlone o (sqfsXstat b 3 (some (entryPath dir dirent.dName.name)) (some buf)) v =
        some ((0, some st), w') ∧
      st.stIno = dirent.dIno ∧ fileType st.stMode = dirent.dType

private theorem fileType_or (m t : BitVec 32) : fileType (m &&& 0xfff ||| t) = fileType t := by
  have hmask : m &&& 0xfff &&& 0xf000 = 0 := by
    rw [BitVec.and_assoc]
    exact BitVec.and_zero
  rw [fileType, BitVec.and_or_distrib_right, hmask, fileType]
  simp

private theorem fileType_masked (m : BitVec 32) : fileType (m &&& 0xfff) = 0 := by
  have h : fileType (m &&& 0xfff ||| 0#32) = fileType 0#32 := fileType_or m 0
  rw [BitVec.or_zero] at h
  exact h

private theorem fileType_values :
    fileType S_IFDIR = 4 ∧ fileType S_IFREG = 8 ∧ fileType S_IFLNK = 10 ∧ fileType S_IFBLK = 6 ∧
      fileType S_IFCHR = 2 ∧ fileType S_IFIFO = 1 ∧ fileType S_IFSOCK = 12 := by
  decide

/-- The announced type is the file type for directories and plain files only. -/
theorem fileType_sqfsInodeMode (inode : Inode) :
    fileType (sqfsInodeMode inode) = (if inode.isDir then DT_DIR else DT_REG) ↔
      dirOrFile inode = true := by
  unfold sqfsInodeMode Inode.isDir dirOrFile
  cases inode.data with
  | unknown type =>
    rw [fileType_masked]
    simp [DT_REG]
  | _ =>
    rw [fileType_or]
    simp [fileType_values, DT_DIR, DT_REG]

/-- The entry's path, where it is routed, leads to the joined relative path. -/
theorem routed_entryPath {w : World} {dir n : CString} (hn : FileName n)
    (h : (w.routed (some dir)).1 = 0) (h' : (w.routed (some (entryPath dir n))).1 = 0) :
    (w.routed (some (entryPath dir n))).2 = joinPath (w.routed (some dir)).2 n := by
  have haccepted {path : CString} (h : (w.routed (some path)).1 = 0) :
      (pathRelativeToRoot (some (w.env.hooksqfsPrefix.getD defaultPrefix)) (some path) (some [])
        PATH_MAX).1 = true ∧ w.routed (some path) = (0, (pathRelativeToRoot
          (some (w.env.hooksqfsPrefix.getD defaultPrefix)) (some path) (some [])
          PATH_MAX).2.getD []) := by
    simp only [World.routed, checkedPath] at h ⊢
    split at h
    · cases h
    · rename_i hne
      rw [if_neg hne]
      split at h
      · rename_i hacc
        exact ⟨hacc, by rw [if_pos hacc]⟩
      · cases h
  obtain ⟨hacc, heq⟩ := haccepted h
  obtain ⟨hacc', heq'⟩ := haccepted h'
  obtain ⟨relative, hr, hout⟩ := relativeOf_of_accepted hacc
  obtain ⟨relative', hr', hout'⟩ := relativeOf_of_accepted hacc'
  rw [heq, heq', hout, hout']
  exact relativeOf_entryPath hn hr hr'

/-- What the lookup of the entry's path finds, whatever number of calls came before. -/
def FindsEntry (relative : CString) (item : DirItem) : Prop :=
  ∀ p, item.inode = .ok p → ∀ k, ∃ q,
    o.answer k (.findByPath (joinPath relative item.entry.name)) = .ok q ∧ q.inode = p.inode

private theorem joinPath_ne_nil (relative : CString) {n : CString} (hn : n ≠ []) :
    joinPath relative n ≠ [] := by
  unfold joinPath
  split
  · exact hn
  · simp [entryPath]

/-- What `sqfs_xstat` finds at the entry's path. -/
private theorem lookup_entry {v : World} {dir : CString} {item : DirItem} {p : InodePtr}
    (hn : FileName item.entry.name) (hm : v.mgr.loaded = true) (hi : item.inode = .ok p)
    (hfind : FindsEntry o (v.routed (some dir)).2 item) :
    (o.answer (v.used .dirReaderCreate) .dirReaderCreate = none ∧
      v.lookup o 0 (joinPath (v.routed (some dir)).2 item.entry.name) = .error Errno.ENOMEM) ∨
    (o.answer (v.used .dirReaderCreate) .dirReaderCreate ≠ none ∧ ∃ q, q.inode = p.inode ∧
      v.lookup o 0 (joinPath (v.routed (some dir)).2 item.entry.name) = .ok q) := by
  obtain ⟨q, hq, hqp⟩ := hfind p hi (v.used .findByPath)
  rw [World.lookup, if_pos hm, Nat.add_zero]
  cases hreader : o.answer (v.used .dirReaderCreate) .dirReaderCreate with
  | none => exact .inl ⟨rfl, rfl⟩
  | some reader =>
    refine .inr ⟨Option.some_ne_none _, q, hqp, ?_⟩
    simp only [World.imageEntry, if_neg (joinPath_ne_nil _ hn.1), hq]

/-- Where the real call fails, agreement is a matter of the lower layer's answer. -/
private theorem statAgrees_lower {v : World} {dir : CString} {dirent : Dirent}
    (hx : ∃ e, v.outcome o (.xstat 3 (some (entryPath dir dirent.dName.name))) = .error e) :
    StatAgrees b o v dir dirent ↔
      ∀ buf, ∃ st, lowerStat b o v 3 (some (entryPath dir dirent.dName.name)) (some buf) = .ok st ∧
        st.stIno = dirent.dIno ∧ fileType st.stMode = dirent.dType := by
  obtain ⟨e, hx⟩ := hx
  have hstat (buf : Stat) := run_sqfsXstat b o v 3 (some (entryPath dir dirent.dName.name))
    (some buf)
  simp only [hx, orLower] at hstat
  apply forall_congr'
  intro buf
  obtain ⟨w', hrun, -⟩ := hstat buf
  constructor
  · rintro ⟨st, w'', hrun', hst⟩
    rw [hrun] at hrun'
    cases hl : lowerStat b o v 3 (some (entryPath dir dirent.dName.name)) (some buf) with
    | error e' =>
      rw [hl] at hrun'
      cases hrun'
    | ok st' =>
      rw [hl] at hrun'
      cases hrun'
      exact ⟨_, rfl, hst⟩
  · rintro ⟨st, hl, hst⟩
    rw [hl] at hrun
    exact ⟨st, w', hrun, hst⟩

/-- `sqfs_xstat` agrees with an entry exactly when its path is routed, a directory reader
can be made and its inode is a directory's or a plain file's. -/
private theorem statAgrees_iff {v : World} {dir : CString} {item : DirItem} {p : InodePtr}
    (hlen : item.entry.name.length < dNameSize) (hn : FileName item.entry.name)
    (hr : (v.routed (some dir)).1 = 0) (hm : v.mgr.loaded = true) (hi : item.inode = .ok p)
    (hfind : FindsEntry o (v.routed (some dir)).2 item)
    (hx : ∃ e, v.outcome o (.xstat 3 (some (entryPath dir item.entry.name))) = .error e) :
    StatAgrees b o v dir (direntOf b p.inode (.of item.entry.name hlen)) ↔
      (v.routed (some (entryPath dir item.entry.name))).1 = 0 ∧
        o.answer (v.used .dirReaderCreate) .dirReaderCreate ≠ none ∧ dirOrFile p.inode = true := by
  have hpath : (direntOf b p.inode (.of item.entry.name hlen)).dName.name = item.entry.name := rfl
  rw [statAgrees_lower b o hx, hpath]
  by_cases hr' : (v.routed (some (entryPath dir item.entry.name))).1 = 0
  · have hlower (buf : Stat) :
        lowerStat b o v 3 (some (entryPath dir item.entry.name)) (some buf) =
          (v.lookup o 0 (joinPath (v.routed (some dir)).2 item.entry.name)).map fun p =>
            sqfsFillStat b v.mgr.blockSize p.inode := by
      rw [lowerStat, if_neg (by simpa using hr'), if_neg (by simp), routed_entryPath hn hr hr']
    simp only [hlower, hr', true_and]
    rcases lookup_entry o hn hm hi hfind with ⟨hno, hl⟩ | ⟨hyes, q, hq, hl⟩
    · rw [hl]
      refine iff_of_false ?_ (fun h => h.1 hno)
      intro h
      obtain ⟨st, hst, -⟩ := h {}
      cases hst
    · rw [hl, ← fileType_sqfsInodeMode]
      constructor
      · intro h
        obtain ⟨st, hst, -, htype⟩ := h {}
        cases hst
        change fileType (sqfsInodeMode q.inode) = _ at htype
        rw [hq] at htype
        exact ⟨hyes, htype⟩
      · rintro ⟨-, htype⟩ buf
        refine ⟨sqfsFillStat b v.mgr.blockSize q.inode, rfl, ?_, ?_⟩
        · rw [hq]
          rfl
        · rw [hq]
          exact htype
  · refine iff_of_false ?_ (fun h => hr' h.1)
    intro h
    obtain ⟨st, hst, -⟩ := h {}
    rw [lowerStat, if_pos hr'] at hst
    cases hst

/-- What a client that reads to the end gets is what the stream had left. -/
private theorem drain_some {dirp n : Nat} {w w' : World} {entries : List Dirent}
    (h : runAlone o (drain dirp n) w = some (some entries, w')) : entries = pending w dirp := by
  induction n generalizing w entries with
  | zero => cases h
  | succ n ih =>
    obtain ⟨w1, hrun, htail, -⟩ := run_sqfsReaddir o dirp w
    rw [drain, runAlone_bind, hrun, Option.bind_some] at h
    cases hp : pending w dirp with
    | nil =>
      rw [hp] at h
      cases h
      rfl
    | cons dirent rest =>
      rw [hp] at h htail
      obtain ⟨more, w2, hmore, hend⟩ := runAlone_bind_some o _ h
      cases more with
      | none => cases hend
      | some more =>
        cases hend
        rw [ih hmore, htail]
        rfl

/-- The entries delivered from a directory that only the image has show its items. -/
private theorem delivered_item {w w' : World} {name : Option CString} {dirReader n : Nat}
    {inode : InodePtr} {cursor : DirCursor} {entries : List Dirent} {e : Errno}
    (hreal : w.outcome o (.opendir name) = .error e)
    (hfound : lowerDir o w name = .found dirReader inode cursor)
    (hlist : runAlone o (listDir b name n) w = some (some entries, w')) {dirent : Dirent}
    (hd : dirent ∈ entries) :
    ∃ item ∈ cursor.items, ∃ p h, item.inode = .ok p ∧
      dirent = direntOf b p.inode (.of item.entry.name h) := by
  obtain ⟨dirp, v, hopen, hread⟩ := runAlone_bind_some o _ hlist
  by_cases hroom : DirRoom o (afterReal o w name) (realStream (w.outcome o (.opendir name)))
  · have hstream := open_found b o hfound hroom
    rcases enumerated_cases b o cursor.final (w.used .malloc + 1) cursor.items [] with
      ⟨-, he⟩ | ⟨-, nodes, hnodes, -, he⟩ | ⟨-, -, he⟩
    · rw [he] at hstream
      exact absurd (hstream.symm.trans hopen) nofun
    · rw [he] at hstream
      obtain ⟨dir, v', hrun, hpend⟩ := hstream
      have hsame : some (some dir, v') = some (dirp, v) := hrun.symm.trans hopen
      cases hsame
      rw [drain_some o hread, hpend, hreal, realListing, List.nil_append, List.nil_append] at hd
      obtain ⟨node, hnode, rfl⟩ := List.mem_map.mp hd
      exact shows_of_mem b hnodes hnode
    · rw [he] at hstream
      obtain ⟨dir, v', hrun, hpend⟩ := hstream
      have hsame : some (some dir, v') = some (dirp, v) := hrun.symm.trans hopen
      cases hsame
      rw [drain_some o hread, hpend, hreal] at hd
      cases hd
  · have hcases := sqfsOpendir_cases o b w name
    rw [hfound] at hcases
    obtain ⟨u, hu, hrun, -⟩ := hcases
    obtain ⟨u', hfull, -⟩ := run_opendirInsert_full b o dirReader inode cursor
      (fun hr => hroom ((dirRoom_congr o hu _).mp hr))
    have hsame : some (none, u') = some (dirp, v) := (hrun.trans hfull).symm.trans hopen
    cases hsame
    cases hread

/-- Every entry delivered from a directory that only the image has shows an item of it,
and `sqfs_xstat` on its path agrees exactly when the path is routed, a directory reader can
be made and the inode is a directory's or a plain file's; all others are announced as plain
files. -/
theorem readdir_stat_agree_iff {w w' v : World} {dir : CString} {dirReader n : Nat}
    {inode : InodePtr} {cursor : DirCursor} {entries : List Dirent} {e : Errno}
    (hreal : w.outcome o (.opendir (some dir)) = .error e)
    (hfound : lowerDir o w (some dir) = .found dirReader inode cursor)
    (hlist : runAlone o (listDir b (some dir) n) w = some (some entries, w'))
    (hnames : ∀ item ∈ cursor.items, FileName item.entry.name)
    (hfind : ∀ item ∈ cursor.items, FindsEntry o (w.routed (some dir)).2 item)
    (henv : v.env = w.env) (hmgr : v.mgr = w.mgr)
    (hxstat : ∀ item ∈ cursor.items,
      ∃ e, v.outcome o (.xstat 3 (some (entryPath dir item.entry.name))) = .error e) :
    ∀ dirent ∈ entries, ∃ item ∈ cursor.items, ∃ p h, item.inode = .ok p ∧
      dirent = direntOf b p.inode (.of item.entry.name h) ∧
      (StatAgrees b o v dir dirent ↔
        (v.routed (some (entryPath dir item.entry.name))).1 = 0 ∧
          o.answer (v.used .dirReaderCreate) .dirReaderCreate ≠ none ∧
          dirOrFile p.inode = true) := by
  intro dirent hd
  obtain ⟨item, hitem, p, h, hi, rfl⟩ := delivered_item b o hreal hfound hlist hd
  have hrouted : v.routed (some dir) = w.routed (some dir) := World.routed_congr henv (some dir)
  have hlower : (w.routed (some dir)).1 = 0 ∧ w.mgr.loaded = true := by
    by_contra hno
    rw [lowerDir, if_pos] at hfound
    · cases hfound
    · rw [not_and_or, Bool.not_eq_true] at hno
      exact hno
  refine ⟨item, hitem, p, h, hi, rfl, statAgrees_iff b o h (hnames item hitem) ?_ ?_ hi ?_
    (hxstat item hitem)⟩
  · rw [hrouted]
    exact hlower.1
  · rw [hmgr]
    exact hlower.2
  · rw [hrouted]
    exact hfind item hitem

/-- The entry "m" with the given inode. -/
def itemWith (inode : Inode) : DirItem :=
  { imageItem with inode := .ok { addr := 48, inode } }

/-- A process whose image has a directory with that entry and the real filesystem not;
the second real `opendir` is the one of the backing directory. -/
def imageOnly (inode : Inode) : Oracle where
  answer := fun n c =>
    match c with
    | .opendir _ => if n = 0 then .error Errno.ENOENT else .ok { addr := n + 1024, entries := [] }
    | .findByPath path =>
      if path = ascii "f" then .ok { addr := 2048, inode := plainDir }
      else .ok { addr := 48, inode }
    | .openDir _ => .ok { items := [itemWith inode], final := .ok () }
    | c => bareAnswer n c
  clobber := fun _ _ => none
  text := fun _ => [0x78]
  writes := fun _ => []

private theorem imageOnly_found (inode : Inode) :
    lowerDir (imageOnly inode) .initial (some hookFile) =
      .found 16 { addr := 2048, inode := plainDir } { items := [itemWith inode], final := .ok () } := by
  simp only [lowerDir, World.lookup, World.imageEntry, hookFile_routed]
  rfl

private theorem imageOnly_finds (inode : Inode) :
    FindsEntry (imageOnly inode) (World.initial.routed (some hookFile)).2 (itemWith inode) := by
  intro p hp k
  cases hp
  rw [hookFile_routed]
  have hne : joinPath (ascii "f") (ascii "m") ≠ ascii "f" := by decide
  refine ⟨{ addr := 48, inode }, ?_, rfl⟩
  simp only [imageOnly, itemWith, imageItem, hne, if_false]

private theorem itemWith_fileName (inode : Inode) : FileName (itemWith inode).entry.name := by
  have h : FileName (ascii "m") := ⟨by decide, by decide, by decide, by decide⟩
  exact h

private theorem imageOnly_room (inode : Inode) :
    DirRoom (imageOnly inode) (afterReal (imageOnly inode) .initial (some hookFile))
      (realStream (World.initial.outcome (imageOnly inode) (.opendir (some hookFile)))) :=
  ⟨nofun, nofun⟩

private theorem imageOnly_enumerated (inode : Inode) :
    enumerated .b64 (imageOnly inode) (.ok ()) 1 [itemWith inode] [] =
      some [nodeOf .b64 17 { addr := 48, inode } (.of (ascii "m") (by decide))] := by
  have hlen : (itemWith inode).entry.name.length < dNameSize :=
    (by decide : (ascii "m").length < dNameSize)
  have hname : copyName (itemWith inode).entry = some (.of (ascii "m") hlen) := copyName_of_lt hlen
  rw [enumerated, hname]
  rfl

/-- What a client gets of that directory. -/
private theorem imageOnly_listed (inode : Inode) :
    ∃ w', runAlone (imageOnly inode) (listDir .b64 (some hookFile) 2) .initial =
      some (some [direntOf .b64 inode (.of (ascii "m") (by decide))], w') := by
  obtain ⟨dir, v, hopen, hpend⟩ := open_enumerated .b64 (imageOnly inode) (imageOnly_found inode)
    (imageOnly_room inode) (imageOnly_enumerated inode)
  have hshort : (pending v dir).length < 2 := by
    rw [hpend]
    exact Nat.one_lt_two
  obtain ⟨w', hrun⟩ := run_drain (imageOnly inode) dir hshort
  refine ⟨w', ?_⟩
  rw [listDir, runAlone_bind, hopen, Option.bind_some, hrun, hpend]
  rfl

theorem readdir_stat_agree_iff_file :
    ∃ item ∈ [itemWith (plainFile 5)], ∃ p h, item.inode = .ok p ∧
      direntOf .b64 (plainFile 5) (.of (ascii "m") (by decide)) =
        direntOf .b64 p.inode (.of item.entry.name h) ∧
      (StatAgrees .b64 (imageOnly (plainFile 5)) .initial hookFile
          (direntOf .b64 (plainFile 5) (.of (ascii "m") (by decide))) ↔
        (World.initial.routed (some (entryPath hookFile item.entry.name))).1 = 0 ∧
          (imageOnly (plainFile 5)).answer (World.initial.used .dirReaderCreate)
            .dirReaderCreate ≠ none ∧
          dirOrFile p.inode = true) := by
  obtain ⟨w', hlist⟩ := imageOnly_listed (plainFile 5)
  refine readdir_stat_agree_iff .b64 (imageOnly (plainFile 5)) rfl (imageOnly_found (plainFile 5))
    hlist ?_ ?_ rfl rfl ?_ _ (List.mem_singleton.mpr rfl)
  · intro item hitem
    rw [List.mem_singleton.mp hitem]
    exact itemWith_fileName (plainFile 5)
  · intro item hitem
    rw [List.mem_singleton.mp hitem]
    exact imageOnly_finds (plainFile 5)
  · intro item _
    exact ⟨Errno.ENOENT, rfl⟩

/-- A symbolic link of the image. -/
def symbolicLink : Inode :=
  { mode := 0o777, modTime := 0, inodeNumber := 6, data := .slink 1 4 }

/-- A symbolic link is announced as a plain file, and `sqfs_xstat` reports a link. -/
theorem link_announced_as_file :
    (∃ w', runAlone (imageOnly symbolicLink) (listDir .b64 (some hookFile) 2) .initial =
      some (some [direntOf .b64 symbolicLink (.of (ascii "m") (by decide))], w')) ∧
    (World.initial.routed (some (entryPath hookFile (ascii "m")))).1 = 0 ∧
    (direntOf .b64 symbolicLink (.of (ascii "m") (by decide))).dType = DT_REG ∧
    fileType (sqfsInodeMode symbolicLink) = 10 ∧
    ¬ StatAgrees .b64 (imageOnly symbolicLink) .initial hookFile
      (direntOf .b64 symbolicLink (.of (ascii "m") (by decide))) := by
  refine ⟨imageOnly_listed symbolicLink, by decide +kernel, rfl, by decide, ?_⟩
  have hrouted : (World.initial.routed (some hookFile)).1 = 0 := by rw [hookFile_routed]
  have hiff := statAgrees_iff .b64 (imageOnly symbolicLink)
    (by decide : (itemWith symbolicLink).entry.name.length < dNameSize)
    (itemWith_fileName symbolicLink) hrouted rfl rfl (imageOnly_finds symbolicLink)
    ⟨Errno.ENOENT, rfl⟩
  rintro h
  exact absurd (hiff.mp h).2.2 (by decide)

end HookSqfs.Hooks
