import HookSqfs.Hooks.MergedListing

/-! The names that `enumerate_dir` copies into `d_name` and `sqfs_readdir` returns. -/
namespace HookSqfs.Hooks
open Manager Interaction Memory
variable (b : Bits) (o : Oracle)

/-- The name and its terminator fit into `d_name`. -/
def fits (item : DirItem) : Bool := item.entry.name.length < dNameSize

/-- `d_name` starts with the bytes of the entry's name and a terminator. -/
def IsNamed (dirent : Dirent) (item : DirItem) : Prop :=
  Filled dirent.dName.cells (item.entry.name ++ [NUL])

/-- Opening the directory and reading the stream writes nothing outside `d_name` and gives
the real entries and then some of the image's, each with its own name, terminated. None of
these has a name that does not fit; where the reader gives everything they are all that
fit, or a name that does not has failed the enumeration as a whole. -/
def NamesDelivered (w : World) (name : Option CString) (real : List Dirent)
    (cursor : DirCursor) : Prop :=
  ∃ m kept, kept.Sublist cursor.items ∧ (∀ item ∈ kept, fits item = true) ∧
    (Complete o cursor.final (w.used .malloc + 1) cursor.items →
      kept = cursor.items.filter fits ∨ kept = [] ∧ ∃ item ∈ cursor.items, fits item = false) ∧
    ∀ n, m ≤ n → ∃ lower w', runAlone o (listDir b name n) w = some (some (real ++ lower), w') ∧
      List.Forall₂ IsNamed lower kept

/-- Reaching a name that is too long, `sqfs_opendir` writes past `d_name`. -/
theorem opendir_undefined {w : World} {name : Option CString} {dirReader : Nat}
    {inode : InodePtr} {cursor : DirCursor}
    (hfound : lowerDir o w name = .found dirReader inode cursor)
    (hroom : DirRoom o (afterReal o w name) (realStream (w.outcome o (.opendir name))))
    (hlong : LongNameReached o (w.used .malloc + 1) cursor.items) :
    runAlone o (sqfsOpendir b name) w = none := by
  have hopen := open_found b o hfound hroom
  rcases enumerated_cases b o cursor.final (w.used .malloc + 1) cursor.items [] with
    ⟨-, he⟩ | ⟨hshort, -⟩ | ⟨hshort, -⟩
  · rwa [he] at hopen
  · exact absurd hlong hshort
  · exact absurd hlong hshort

/-- Every node is named as its item, and every such item fits. -/
private theorem named_of_shows {items : List DirItem} {nodes : List SqfsDirEntryNode}
    (h : List.Forall₂ (ShowsItem b) nodes items) :
    List.Forall₂ IsNamed (nodes.map (·.dirent)) items ∧ ∀ item ∈ items, fits item = true := by
  induction h with
  | nil => exact ⟨.nil, nofun⟩
  | cons hshow _ ih =>
    obtain ⟨inode, hlen, -, hdirent⟩ := hshow
    refine ⟨.cons ?_ ih.1, fun item hitem => ?_⟩
    · beta_reduce
      rw [IsNamed, hdirent]
      exact (DName.of _ hlen).filled
    · rcases List.mem_cons.mp hitem with rfl | hitem
      · exact decide_eq_true hlen
      · exact ih.2 item hitem

private theorem lists_of_open {w v : World} {name : Option CString} {dir : Nat}
    {entries : List Dirent} (hopen : runAlone o (sqfsOpendir b name) w = some (some dir, v))
    (hpend : pending v dir = entries) {n : Nat} (hn : (pending v dir).length + 1 ≤ n) :
    ∃ w', runAlone o (listDir b name n) w = some (some entries, w') := by
  obtain ⟨w', hrun⟩ := run_drain o dir hn
  refine ⟨w', ?_⟩
  rw [listDir, runAlone_bind, hopen, Option.bind_some, ← hpend]
  exact hrun

/-- The names of the image's entries are delivered, terminated and inside `d_name`, exactly
when the enumeration gets to no entry whose name and terminator overrun it. -/
theorem entry_names_fit_iff {w : World} {name : Option CString} {dirReader : Nat}
    {inode : InodePtr} {cursor : DirCursor}
    (hfound : lowerDir o w name = .found dirReader inode cursor)
    (hroom : DirRoom o (afterReal o w name) (realStream (w.outcome o (.opendir name)))) :
    NamesDelivered b o w name (realListing (w.outcome o (.opendir name))) cursor ↔
      ¬ LongNameReached o (w.used .malloc + 1) cursor.items := by
  rcases enumerated_cases b o cursor.final (w.used .malloc + 1) cursor.items [] with
    ⟨hlong, he⟩ | ⟨hshort, nodes, hnodes, -, he⟩ | ⟨hshort, hnot, he⟩
  · refine iff_of_false ?_ (fun h => h hlong)
    rintro ⟨m, kept, -, -, -, hm⟩
    obtain ⟨lower, w', hrun, -⟩ := hm m (Nat.le_refl m)
    rw [listDir, runAlone_bind, opendir_undefined b o hfound hroom hlong] at hrun
    cases hrun
  · obtain ⟨dir, v, hrun, hpend⟩ := open_enumerated b o hfound hroom he
    obtain ⟨hnamed, hfits⟩ := named_of_shows b hnodes
    refine iff_of_true
      ⟨(pending v dir).length + 1, cursor.items, .refl _, hfits, fun _ => .inl ?_, fun n hn => ?_⟩
      hshort
    · exact (List.filter_eq_self.mpr hfits).symm
    · obtain ⟨w', hlist⟩ := lists_of_open b o hrun hpend hn
      exact ⟨_, w', hlist, hnamed⟩
  · obtain ⟨dir, v, hrun, hpend⟩ := open_enumerated b o hfound hroom he
    refine iff_of_true ⟨(pending v dir).length + 1, [], List.nil_sublist _,
      fun _ hitem => absurd hitem List.not_mem_nil, fun h => absurd h hnot, fun n hn => ?_⟩ hshort
    obtain ⟨w', hlist⟩ := lists_of_open b o hrun hpend hn
    exact ⟨_, w', hlist, .nil⟩

/-- A real directory with "r" over one of the image with "m". -/
theorem entry_names_fit_iff_short :
    NamesDelivered .b64 (bothLayers [otherEntry] [imageItem]) .initial (some hookFile)
        (realListing (World.initial.outcome (bothLayers [otherEntry] [imageItem])
          (.opendir (some hookFile))))
        { items := [imageItem], final := .ok () } ↔
      ¬ LongNameReached (bothLayers [otherEntry] [imageItem]) (World.initial.used .malloc + 1)
        [imageItem] :=
  entry_names_fit_iff .b64 (bothLayers [otherEntry] [imageItem])
    (bothLayers_found [otherEntry] [imageItem]) (bothLayers_room [otherEntry] [imageItem])

/-- A name that is longer than `d_name`. -/
def longName : CString := List.replicate 300 0x61

theorem length_longName : longName.length = 300 := List.length_replicate

/-- An entry of the image with that name. -/
def longItem : DirItem :=
  { entry := { addr := 32, size := 299, name := longName, name_length := length_longName }
    inode := .ok { addr := 48, inode := plainFile 5 } }

theorem longName_reached : LongNameReached (bothLayers [] [longItem]) 1 [longItem] := by
  refine ⟨⟨_, rfl⟩, nofun, .inl ?_⟩
  change 256 ≤ longName.length
  rw [length_longName]
  omega

/-- The copy of such a name leaves the array: `sqfs_opendir` writes past `d_name`, and no
name is delivered or rejected. -/
theorem long_name_overruns :
    lowerDir (bothLayers [] [longItem]) .initial (some hookFile) =
        .found 16 { addr := 2048, inode := plainDir } { items := [longItem], final := .ok () } ∧
      longItem.entry.name.length = 300 ∧ copyName longItem.entry = none ∧
      runAlone (bothLayers [] [longItem]) (sqfsOpendir .b64 (some hookFile)) .initial = none ∧
      ¬ NamesDelivered .b64 (bothLayers [] [longItem]) .initial (some hookFile) []
        { items := [longItem], final := .ok () } := by
  have hfound := bothLayers_found [] [longItem]
  have hundefined := opendir_undefined .b64 (bothLayers [] [longItem]) hfound
    (bothLayers_room [] [longItem]) longName_reached
  refine ⟨hfound, length_longName, copyName_of_ge ?_, hundefined, ?_⟩
  · change 256 ≤ longName.length
    rw [length_longName]
    omega
  · rintro ⟨m, kept, -, -, -, hm⟩
    obtain ⟨lower, w', hrun, -⟩ := hm m (Nat.le_refl m)
    rw [listDir, runAlone_bind, hundefined] at hrun
    cases hrun

end HookSqfs.Hooks
