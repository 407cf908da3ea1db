import HookSqfs.Hooks.DirStreams

/-! The listing of a directory that both layers may have. -/
namespace HookSqfs.Hooks
open Manager Interaction Tables
variable (b : Bits) (o : Oracle)

section enumeration
variable (final : Except SqfsError Unit)

/-- The reader gives its end marker, every entry's inode and memory for every node. -/
def Complete (n : Nat) (items : List DirItem) : Prop :=
  final = .ok () ∧ (∀ item ∈ items, ∃ inode, item.inode = .ok inode) ∧
    ∀ k < items.length, o.answer (n + k) .malloc ≠ none

/-- The enumeration gets to an entry whose name leaves no room for its terminator. -/
def LongNameReached : Nat → List DirItem → Prop
  | _, [] => False
  | n, item :: items =>
    (∃ inode, item.inode = .ok inode) ∧ o.answer n .malloc ≠ none ∧
      (dNameSize ≤ item.entry.name.length ∨ LongNameReached (n + 1) items)

/-- The node shows the entry's own name and its inode's number. -/
def ShowsItem (node : SqfsDirEntryNode) (item : DirItem) : Prop :=
  ∃ inode h, item.inode = .ok inode ∧
    node.dirent = direntOf b inode.inode (.of item.entry.name h)

private theorem complete_cons {n : Nat} {item : DirItem} {items : List DirItem} :
    Complete o final n (item :: items) ↔
      (∃ inode, item.inode = .ok inode) ∧ o.answer n .malloc ≠ none ∧
        Complete o final (n + 1) items := by
  constructor
  · rintro ⟨hfinal, hinodes, hmalloc⟩
    refine ⟨hinodes item List.mem_cons_self, hmalloc 0 (Nat.succ_pos _), hfinal,
      fun i hi => hinodes i (List.mem_cons_of_mem _ hi), fun k hk => ?_⟩
    rw [Nat.add_assoc, Nat.add_comm 1]
    exact hmalloc (k + 1) (Nat.succ_lt_succ hk)
  · rintro ⟨hinode, hm, hfinal, hinodes, hmalloc⟩
    refine ⟨hfinal, fun i hi => ?_, fun k hk => ?_⟩
    · rcases List.mem_cons.mp hi with rfl | hi
      · exact hinode
      · exact hinodes i hi
    · cases k with
      | zero => exact hm
      | succ k =>
        rw [← Nat.add_assoc, Nat.add_right_comm]
        exact hmalloc k (Nat.lt_of_succ_lt_succ hk)

/-- The enumeration is undefined at a name that is too long, gives a node for each item
where it is complete, and else nothing. -/
theorem enumerated_cases (n : Nat) (items : List DirItem) (list : List SqfsDirEntryNode) :
    LongNameReached o n items ∧ enumerated b o final n items list = none ∨
    ¬ LongNameReached o n items ∧ (∃ nodes, List.Forall₂ (ShowsItem b) nodes items ∧
      Complete o final n items ∧ enumerated b o final n items list = some (list ++ nodes)) ∨
    ¬ LongNameReached o n items ∧ ¬ Complete o final n items ∧
      enumerated b o final n items list = some [] := by
  induction items generalizing n list with
  | nil =>
    cases final with
    | ok u =>
      exact .inr (.inl ⟨id, [], .nil, ⟨rfl, nofun, nofun⟩, by rw [enumerated, List.append_nil]⟩)
    | error e =>
      refine .inr (.inr ⟨id, ?_, rfl⟩)
      rintro ⟨hfinal, -⟩
      cases hfinal
  | cons item items ih =>
    rw [complete_cons, LongNameReached]
    by_cases hgood : (∃ inode, item.inode = .ok inode) ∧ o.answer n .malloc ≠ none
    · obtain ⟨⟨inode, hi⟩, hm⟩ := hgood
      obtain ⟨addr, haddr⟩ := Option.ne_none_iff_exists'.mp hm
      by_cases hlen : item.entry.name.length < dNameSize
      · have hstep : enumerated b o final n (item :: items) list = enumerated b o final (n + 1)
            items (list ++ [nodeOf b addr inode (.of item.entry.name hlen)]) := by
          simp only [enumerated, haddr, hi, copyName_of_lt hlen, Option.bind_some]
        have hshow : ShowsItem b (nodeOf b addr inode (.of item.entry.name hlen)) item :=
          ⟨inode, hlen, hi, rfl⟩
        rw [hstep]
        rcases ih (n + 1) (list ++ [nodeOf b addr inode (.of item.entry.name hlen)]) with
          ⟨hlong, he⟩ | ⟨hshort, nodes, hnodes, hcomplete, he⟩ | ⟨hshort, hnot, he⟩
        · exact .inl ⟨⟨⟨inode, hi⟩, hm, .inr hlong⟩, he⟩
        · refine .inr (.inl ⟨?_, _, .cons hshow hnodes, ⟨⟨inode, hi⟩, hm, hcomplete⟩, ?_⟩)
          · rintro ⟨-, -, hlong | hlong⟩
            · omega
            · exact hshort hlong
          · rw [he, List.append_assoc, List.singleton_append]
        · refine .inr (.inr ⟨?_, fun h => hnot h.2.2, he⟩)
          rintro ⟨-, -, hlong | hlong⟩
          · omega
          · exact hshort hlong
      · refine .inl ⟨⟨⟨inode, hi⟩, hm, .inl (Nat.le_of_not_lt hlen)⟩, ?_⟩
        simp only [enumerated, haddr, hi, copyName_of_ge (Nat.le_of_not_lt hlen), Option.bind_none]
    · refine .inr (.inr ⟨fun h => hgood ⟨h.1, h.2.1⟩, fun h => hgood ⟨h.1, h.2.1⟩, ?_⟩)
      rw [enumerated]
      split
      · rename_i addr inode haddr hi
        exact absurd ⟨⟨inode, hi⟩, by simp [haddr]⟩ hgood
      · rfl

end enumeration

/-- A client reads a stream up to its end, with at most `n` calls. -/
def drain (dirp : Nat) : Nat → Hook (Option (List Dirent))
  | 0 => return none
  | n + 1 => do
    let result ← sqfsReaddir dirp
    match result with
    | none => return some []
    | some dirent => do
      let rest ← drain dirp n
      return rest.map (dirent :: ·)

/-- A client opens a directory and reads it up to its end. -/
def listDir (name : Option CString) (n : Nat) : Hook (Option (List Dirent)) := do
  let dirp ← sqfsOpendir b name
  match dirp with
  | none => return none
  | some dirp => drain dirp n

/-- A client that makes enough calls gets all that a stream has left. -/
theorem run_drain (dirp : Nat) {n : Nat} {w : World} (h : (pending w dirp).length < n) :
    ∃ w', runAlone o (drain dirp n) w = some (some (pending w dirp), w') := by
  induction n generalizing w with
  | zero => omega
  | succ n ih =>
    obtain ⟨w1, hrun, htail, -⟩ := run_sqfsReaddir o dirp w
    rw [drain, runAlone_bind, hrun, Option.bind_some]
    cases hp : pending w dirp with
    | nil => exact ⟨w1, rfl⟩
    | cons dirent entries =>
      rw [hp] at htail h
      obtain ⟨w', hdrain⟩ := ih (by rw [htail]; exact Nat.lt_of_succ_lt_succ h)
      refine ⟨w', ?_⟩
      simp only [List.head?_cons, runAlone_bind, hdrain, htail, List.tail_cons]
      rfl

/-- Every node shows an item. -/
theorem shows_of_mem {items : List DirItem} {nodes : List SqfsDirEntryNode}
    (h : List.Forall₂ (ShowsItem b) nodes items) {node : SqfsDirEntryNode} (hn : node ∈ nodes) :
    ∃ item ∈ items, ∃ p hlen, item.inode = .ok p ∧
      node.dirent = direntOf b p.inode (.of item.entry.name hlen) := by
  induction h with
  | nil => cases hn
  | @cons a item nodes items hshow _ ih =>
    rcases List.mem_cons.mp hn with rfl | hn
    · exact ⟨item, List.mem_cons_self, hshow⟩
    · obtain ⟨item', hitem, hshow'⟩ := ih hn
      exact ⟨item', List.mem_cons_of_mem _ hitem, hshow'⟩

/-- The entries that the real stream of a directory yields. -/
def realListing : Except Errno DirStream → List Dirent
  | .error _ => []
  | .ok s => s.entries

private theorem afterReal_entries {w : World} {name : Option CString} {s : DirStream}
    (hreal : w.outcome o (.opendir name) = .ok s) :
    (afterReal o w name).streams s.addr = some s := by
  rw [afterReal, hreal]
  exact Function.update_self ..

/-- A directory of the image: `sqfs_opendir` is undefined at a name that is too long, or
opens a stream with the real entries and then the enumerated ones. -/
theorem open_found {w : World} {name : Option CString} {dirReader : Nat}
    {inode : InodePtr} {cursor : DirCursor}
    (hfound : lowerDir o w name = .found dirReader inode cursor)
    (hroom : DirRoom o (afterReal o w name) (realStream (w.outcome o (.opendir name)))) :
    match enumerated b o cursor.final (w.used .malloc + 1) cursor.items [] with
    | none => runAlone o (sqfsOpendir b name) w = none
    | some list => ∃ dir w', runAlone o (sqfsOpendir b name) w = some (some dir, w') ∧
        pending w' dir = realListing (w.outcome o (.opendir name)) ++ list.map (·.dirent) := by
  have hcases := sqfsOpendir_cases o b w name
  rw [hfound] at hcases
  obtain ⟨v, hv, hrun, -⟩ := hcases
  obtain ⟨hdir, hm⟩ := (dirRoom_congr o hv _).mpr hroom
  obtain ⟨dir, hdir⟩ := Option.ne_none_iff_exists'.mp hdir
  obtain ⟨addr, hm⟩ := Option.ne_none_iff_exists'.mp hm
  have hcount : v.used .malloc = w.used .malloc := hv.malloc.trans (by simp [afterReal, Ext.fn])
  have hinsert := run_opendirInsert b o dirReader inode cursor hdir hm
  rw [hcount] at hinsert
  rw [hrun]
  cases hl : enumerated b o cursor.final (w.used .malloc + 1) cursor.items [] with
  | none =>
    rw [hl] at hinsert
    exact hinsert
  | some list =>
    rw [hl] at hinsert
    obtain ⟨v', w', hready, hend, hw'⟩ := hinsert
    refine ⟨dir, w', hend, ?_⟩
    have hentry : lookup DirMapEntry.key dir w'.dirMap = some (freshEntry addr dir dirReader
        (realStream (w.outcome o (.opendir name))) list) := by
      rw [hw'.dirMap]
      exact if_pos rfl
    have hnodes : pendingNodes (freshEntry addr dir dirReader
        (realStream (w.outcome o (.opendir name))) list) = list := rfl
    rw [pending_mapped hentry, hnodes]
    cases hreal : w.outcome o (.opendir name) with
    | error e => rfl
    | ok s =>
      rw [hreal] at hdir hready
      cases hdir
      have hstream : w'.streams s.addr = some s := by
        rw [hw'.streams, ← afterReal_entries o hreal, ← hv.streams]
        exact congrFun (Undisturbed.streams hready) s.addr
      rw [realEntries, hstream]
      rfl

theorem open_enumerated {w : World} {name : Option CString} {dirReader : Nat}
    {inode : InodePtr} {cursor : DirCursor} {list : List SqfsDirEntryNode}
    (hfound : lowerDir o w name = .found dirReader inode cursor)
    (hroom : DirRoom o (afterReal o w name) (realStream (w.outcome o (.opendir name))))
    (hlist : enumerated b o cursor.final (w.used .malloc + 1) cursor.items [] = some list) :
    ∃ dir w', runAlone o (sqfsOpendir b name) w = some (some dir, w') ∧
      pending w' dir = realListing (w.outcome o (.opendir name)) ++ list.map (·.dirent) := by
  have hopen := open_found b o hfound hroom
  rw [hlist] at hopen
  exact hopen

/-- A directory of the image. -/
def plainDir : Inode :=
  { mode := 0o755, modTime := 0, inodeNumber := 1, data := .dir 2 3 }

/-- A process that finds the given listings in both layers. -/
def bothLayers (entries : List Dirent) (items : List DirItem) : Oracle where
  answer := fun n c =>
    match c with
    | .opendir _ => .ok { addr := 1024, entries }
    | .findByPath _ => .ok { addr := 2048, inode := plainDir }
    | .openDir _ => .ok { items, final := .ok () }
    | c => bareAnswer n c
  clobber := fun _ _ => none
  text := fun _ => [0x78]
  writes := fun _ => []

theorem bothLayers_found (entries : List Dirent) (items : List DirItem) :
    lowerDir (bothLayers entries items) .initial (some hookFile) =
      .found 16 { addr := 2048, inode := plainDir } { items, final := .ok () } := by
  simp only [lowerDir, World.lookup, World.imageEntry, hookFile_routed]
  rfl

theorem bothLayers_room (entries : List Dirent) (items : List DirItem) :
    DirRoom (bothLayers entries items) (afterReal (bothLayers entries items) .initial
      (some hookFile)) (realStream (World.initial.outcome (bothLayers entries items)
        (.opendir (some hookFile)))) := ⟨nofun, nofun⟩

/-- An entry of the real directory that the image does not have. -/
def otherEntry : Dirent :=
  { dIno := 10, dOff := 2, dReclen := 24, dType := DT_REG, dName := .of (ascii "r") (by decide) }

/-- The entry "m" of the image. -/
def imageItem : DirItem :=
  { entry := { addr := 32, size := 0, name := ascii "m", name_length := by decide }
    inode := .ok { addr := 48, inode := plainFile 5 } }

end HookSqfs.Hooks
