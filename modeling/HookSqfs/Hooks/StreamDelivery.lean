import HookSqfs.Hooks.EntryNames
import HookSqfs.Hooks.LockDiscipline
import HookSqfs.Tables.Queues

/-! Threads that read directory streams: whatever they do, each stream is a queue that
they take from in turn. -/
namespace HookSqfs.Hooks
open Manager Interaction Tables Program
variable (b : Bits) (o : Oracle)

/-- Any number of `sqfs_readdir` calls, on any streams. Each has an `errno` of its own. -/
def readdirSystem : System Req Answer World Errno Nat (Option Dirent) where
  handle := World.handle o
  depth := World.depth
  enter n e w := { w with errno := e, caller := n }
  locals := World.errno
  program := sqfsReaddir
  admits _ _ := True
  begins _ _ w := w
  ends _ _ _ w := w

/-- The stream has an entry in `dir_map`. -/
def IsMapped (w : World) (dirp : Nat) : Prop := (lookup DirMapEntry.key dirp w.dirMap).isSome

/-- At most one entry is taken, and the same streams are mapped. -/
structure TakesOne (w : World) (ts : List (Take Nat Dirent)) (w' : World) : Prop where
  one : ts.length ≤ 1
  takes : Take.Runs (pending w) ts (pending w')
  mapped : ∀ dirp, IsMapped w' dirp ↔ IsMapped w dirp

def readdirProtocol : Protocol (readdirSystem o) (Take Nat Dirent) where
  inv w := w.depth = 0
  free _ h := h
  effect _ := TakesOne
  rely _ w w' := ∀ dirp, IsMapped w' dirp ↔ IsMapped w dirp
  relied _ h := h.mapped

/-- A burst that touches neither `dir_map` nor a stream. -/
private theorem takesOne_idle {w w' : World} (hmap : w'.dirMap = w.dirMap)
    (hstreams : w'.streams = w.streams) : TakesOne w [] w' := by
  refine ⟨Nat.zero_le 1, ?_, ?_⟩
  · change pending w' = pending w
    funext dirp
    unfold pending realEntries
    rw [hmap, hstreams]
  · intro dirp
    rw [IsMapped, hmap]
    rfl

/-- A burst that moves past the next entry of a stream. -/
private theorem takesOne_next {w w' : World} {dirp : Nat}
    (htail : pending w' dirp = (pending w dirp).tail) (hothers : OthersKept w w' dirp)
    (hsome : (lookup DirMapEntry.key dirp w'.dirMap).isSome =
      (lookup DirMapEntry.key dirp w.dirMap).isSome) :
    TakesOne w [(dirp, (pending w dirp).head?)] w' := by
  refine ⟨Nat.le_refl 1, ⟨rfl, ?_⟩, ?_⟩
  · change pending w' = Function.update (pending w) dirp (pending w dirp).tail
    funext d
    by_cases hd : d = dirp
    · rw [hd, Function.update_self, htail]
    · rw [Function.update_of_ne hd, hothers.pending hd]
  · intro d
    by_cases hd : d = dirp
    · rw [hd, IsMapped, hsome]
      rfl
    · rw [IsMapped, (hothers d hd).1]
      rfl

/-- A section that frees the lock with its last request. -/
private abbrev Closes {α : Type} (p : Hook α) : Prop :=
  p.Closing (fun e => e.keepsDepth = true) fun e => e = .unlock

private theorem closes_return {α : Type} (r : α) : Closes (do sqfsUnlock; return r) :=
  .inl ⟨rfl, fun _ => ⟨r, rfl⟩⟩

private theorem dumpDirent_closes {α : Type} (logReaddir : Bool) (shown : List Object) (r : α) :
    Closes (do dumpDirent logReaddir shown; sqfsUnlock; return r) :=
  (dumpDirent_depth logReaddir shown).bind_closing fun _ => closes_return r

private theorem readdirLower_closes (logReaddir : Bool) (dirp : Nat) :
    Closes (readdirLower logReaddir dirp) := by
  refine .inr ⟨rfl, fun found => ?_⟩
  change Closes (if found.dirEntryListReachedEnd then _ else _)
  split
  · exact dumpDirent_closes logReaddir [] none
  · refine .inr ⟨rfl, fun _ => ?_⟩
    cases (if found.dirEntryCurrent = [] then found.dirEntryList else found.dirEntryCurrent) with
    | nil => exact closes_return none
    | cons node next =>
      have hend : (if next = [] then ask (.dirMapSetReachedEnd dirp) else pure () : Hook Unit).All
          fun e => e.keepsDepth := Program.All.ite ⟨rfl, fun _ => trivial⟩ trivial
      exact .inr ⟨rfl, fun _ => .inr ⟨rfl, fun _ => hend.bind_closing fun _ =>
        dumpDirent_closes logReaddir [node.object] (some node.dirent)⟩⟩

private theorem mapped_closes (logReaddir : Bool) (dirp : Nat) : Closes (do
    let found : DirMapEntry ← ask (.dirMapEntry dirp)
    if found.isRealDir then do
      let result : Option Dirent ← call (.readdir dirp)
      match result with
      | some dirent => do
        dumpDirent logReaddir []
        sqfsUnlock
        return some dirent
      | none => readdirLower logReaddir dirp
    else readdirLower logReaddir dirp) := by
  refine .inr ⟨rfl, fun found => ?_⟩
  change Closes (if found.isRealDir then _ else _)
  split
  · refine .inr ⟨rfl, fun result => ?_⟩
    cases result with
    | none => exact readdirLower_closes logReaddir dirp
    | some dirent => exact dumpDirent_closes logReaddir [] (some dirent)
  · exact readdirLower_closes logReaddir dirp

variable {o}

private theorem settle_closes {α : Type} {p : Hook α} (hp : Closes p) {w w' : World} {a : α}
    (hw : w.depth = 1) (hrun : runAlone o p w = some (a, w')) :
    p.settle (World.handle o) World.depth w = (.ret a, w') ∧ w'.depth = 0 := by
  have hkeep : ∀ w (e : Req), e.keepsDepth = true → (World.handle o w e).2.depth = w.depth :=
    fun w _ he => handle_depth o w he
  have hunlock : ∀ w (e : Req), e = .unlock → w.depth = 1 → (World.handle o w e).2.depth = 0 := by
    rintro w _ rfl hw
    exact congrArg (· - 1) hw
  exact settle_closing hkeep hunlock hp hw hrun

/-- On a mapped stream one burst does everything from the lock to the result. -/
private theorem burst_readdir_mapped (logReaddir : Bool) {dirp : Nat} {w w' : World}
    {r : Option Dirent} (hw : w.depth = 0) {e : DirMapEntry}
    (he : lookup DirMapEntry.key dirp w.dirMap = some e)
    (hrun : runAlone o (readdirLocked logReaddir dirp) w = some (r, w')) :
    (readdirLocked logReaddir dirp).burst (World.handle o) World.depth w = (.ret r, w') ∧
      w'.depth = 0 := by
  have hheld : w.locked.depth = 1 := congrArg (· + 1) hw
  have hfind : (lookup DirMapEntry.key dirp w.locked.dirMap).isSome = true := by
    rw [World.locked_dirMap, he]
    rfl
  rw [readdirLocked, Program.ask_bind, runAlone_lock, Program.ask_bind, runAlone_dirMapFind, hfind,
    if_pos rfl] at hrun
  change settle (World.handle o) World.depth (.request (.dirMapFind dirp) _) w.locked = _ ∧ _
  rw [settle_held (hheld ▸ one_ne_zero)]
  change settle (World.handle o) World.depth
    (if (lookup DirMapEntry.key dirp w.locked.dirMap).isSome then _ else _) w.locked = _ ∧ _
  rw [hfind, if_pos rfl]
  exact settle_closes (mapped_closes logReaddir dirp) hheld hrun

/-- On any other stream the burst ends before the real call. -/
private theorem burst_readdir_unmapped (logReaddir : Bool) {dirp : Nat} {w : World}
    (hw : w.depth = 0) (hmiss : lookup DirMapEntry.key dirp w.dirMap = none) :
    (readdirLocked logReaddir dirp).burst (World.handle o) World.depth w =
      (do let result : Option Dirent ← call (.readdir dirp); return result, w.locked.unlocked) := by
  have hheld : w.locked.depth ≠ 0 := Nat.succ_ne_zero _
  change settle (World.handle o) World.depth (.request (.dirMapFind dirp) _) w.locked = _
  rw [settle_held hheld]
  change settle (World.handle o) World.depth
    (if (lookup DirMapEntry.key dirp w.dirMap).isSome then _ else _) w.locked = _
  rw [hmiss, Option.isSome_none, if_neg Bool.false_ne_true]
  change settle (World.handle o) World.depth (.request .unlock _) w.locked = _
  rw [settle_held hheld]
  exact settle_free hw _

/-- The real `readdir` of a stream that is not mapped. -/
private theorem outline_realReaddir (n dirp : Nat) :
    Outline (readdirProtocol o) n (fun r t _ => t = [(dirp, r)])
      (fun t w => t = [] ∧ lookup DirMapEntry.key dirp w.dirMap = none)
      (do let result : Option Dirent ← call (.readdir dirp); return result) := by
  refine Outline.plain fun l t w hw ht => ?_
  obtain ⟨rfl, hmiss⟩ := ht
  obtain ⟨hout, hafter⟩ := afterReaddir o (entered n l w) dirp
  obtain ⟨hreal, hothers, hmap⟩ := hafter ((entered n l w).outcome o (.readdir dirp))
  have hpend : pending w dirp = realEntries w dirp := by rw [pending, hmiss]
  have hmiss' : lookup DirMapEntry.key dirp ((entered n l w).afterCall o (.readdir dirp)
      ((entered n l w).outcome o (.readdir dirp))).dirMap = none := by
    rw [hmap]
    exact hmiss
  have htail : pending ((entered n l w).afterCall o (.readdir dirp)
      ((entered n l w).outcome o (.readdir dirp))) dirp = (pending w dirp).tail := by
    rw [hpend, pending, hmiss']
    exact hreal
  have htakes := takesOne_next htail hothers (by rw [hmiss, hmiss'])
  refine ⟨_, fun t _ => t = [(dirp, (pending w dirp).head?)], htakes, hw, fun _ _ _ h _ => h, rfl, ?_⟩
  change Outline (readdirProtocol o) n _ _ (.ret ((entered n l w).outcome o (.readdir dirp)))
  rw [hout, hpend]
  exact .ret fun _ _ _ h => h

private theorem outline_readdirLocked (n : Nat) (logReaddir : Bool) (dirp : Nat) :
    Outline (readdirProtocol o) n (fun r t _ => t = [(dirp, r)]) (fun t _ => t = [])
      (readdirLocked logReaddir dirp) := by
  refine Outline.burst fun l t w hw ht => ?_
  rw [ht]
  cases he : lookup DirMapEntry.key dirp w.dirMap with
  | some e =>
    obtain ⟨w', hrun, htail, hothers, hsome⟩ :=
      run_readdirLocked o logReaddir dirp (entered n l w)
    obtain ⟨hburst, hdepth⟩ := burst_readdir_mapped (w := entered n l w) logReaddir hw he hrun
    exact ⟨_, w', _, fun t _ => t = [(dirp, (pending w dirp).head?)], hburst,
      takesOne_next htail hothers hsome, hdepth, fun _ _ _ h _ => h, rfl, .ret fun _ _ _ h => h⟩
  | none =>
    refine ⟨_, (entered n l w).locked.unlocked, [], _,
      burst_readdir_unmapped (w := entered n l w) logReaddir hw he, takesOne_idle rfl rfl, hw, ?_,
      ⟨rfl, he⟩, outline_realReaddir n dirp⟩
    rintro t w w' ⟨ht, hmiss⟩ hrely
    refine ⟨ht, Option.not_isSome_iff_eq_none.mp fun h => ?_⟩
    have hsome := (hrely dirp).mp h
    rw [IsMapped, hmiss] at hsome
    cases hsome

/-- A call reads the filter, and then takes the next entry of its stream. -/
theorem outline_sqfsReaddir (n dirp : Nat) :
    Outline (readdirProtocol o) n (fun r t _ => t = [(dirp, r)]) (fun t _ => t = [])
      (sqfsReaddir dirp) := by
  rw [sqfsReaddir_eq]
  refine Outline.plain fun l t w hw ht => ⟨[], fun t _ => t = [], takesOne_idle rfl rfl, hw,
    fun _ _ _ h _ => h, ?_, ?_⟩
  · exact (List.append_nil t).trans ht
  · exact outline_readdirLocked n _ dirp

variable (o) in
def readdirOutlined : Outlined (readdirSystem o) (Take Nat Dirent) where
  toProtocol := readdirProtocol o
  pre _ _ t _ := t = []
  post _ dirp r t _ := t = [(dirp, r)]
  stable _ _ _ _ _ h _ := h
  outline := outline_sqfsReaddir
  begins _ _ _ hw _ := ⟨hw, rfl, fun _ _ _ => Iff.rfl⟩
  ends _ _ _ _ _ hw _ := ⟨hw, fun _ _ _ => Iff.rfl⟩

/-- The history is a run of takes from what the streams have left. -/
private theorem trace_takes {w₀ w : World} {ls : List (Label World Nat (Option Dirent))}
    {hist : List (Nat × Take Nat Dirent)} (h : (readdirProtocol o).Trace w₀ ls hist w) :
    Take.Runs (pending w₀) (hist.map (·.2)) (pending w) := by
  induction h with
  | nil => rfl
  | started n call trace ih => exact ih
  | finished n call r trace ih => exact ih
  | moved n trace inv effect ih =>
    rename_i ls hist w w' ts
    have hts : (ts.map (n, ·)).map (·.2) = ts := by simp
    rw [List.map_append, hts, Take.runs_append]
    exact ⟨_, ih, effect.takes⟩

variable (o)

/-- In every run of calls of `readdir` from `w`, with what each burst takes as its
history, no call is undefined, each takes the one result that it returns, and the results
on `dir` are the entries in order, each once, and then `NULL` for ever. -/
def ReadsInTurn (w : World) (dir : Nat) (entries : List Dirent) : Prop :=
  ∀ ls c, (readdirSystem o).Run w ls c → ∃ hist : List (Nat × Take Nat Dirent),
    (readdirProtocol o).Trace w ls hist c.world ∧
      (∀ call ∈ c.running, call.rest ≠ .undefined) ∧
      (∀ n dirp r, .finished n dirp r ∈ ls → trail n hist = [(dirp, r)]) ∧
      ∀ (i : Nat) (r : Option Dirent), (Take.given dir (hist.map (·.2)))[i]? = some r →
        r = entries[i]?

/-- Any number of threads read what the stream has left in turn, whatever they do on
other streams. -/
theorem reads_in_turn {w : World} (hw : w.depth = 0) (dir : Nat) :
    ReadsInTurn o w dir (pending w dir) := by
  intro ls c run
  obtain ⟨hist, h⟩ := (readdirOutlined o).holds hw run
  refine ⟨hist, h.trace, ?_, ?_, ?_⟩
  · intro call hcall hundefined
    obtain ⟨P, -, -, hout⟩ := h.places call hcall
    rw [hundefined] at hout
    cases hout
  · intro n dirp r hfinished
    obtain ⟨⟨v, hpost⟩, -⟩ := h.results n dirp r hfinished
    exact hpost
  · intro i r hr
    exact Take.given_in_order (trace_takes h.trace) hr

/-- The entry has the item's own name and its inode's number. -/
def IsEntryOf (dirent : Dirent) (item : DirItem) : Prop :=
  dirent.dName.name = item.entry.name ∧
    ∃ inode, item.inode = .ok inode ∧ dirent.dIno = inode.inode.inodeNumber.toNat

/-- Opening the directory gives a stream that threads read in turn: first the real entries,
then one for each of the image's, or none of them where the enumeration was cut short. -/
def DeliversInTurn (w : World) (name : Option CString) (real : List Dirent)
    (cursor : DirCursor) : Prop :=
  ∃ dir v lower, runAlone o (sqfsOpendir b name) w = some (some dir, v) ∧
    (Complete o cursor.final (w.used .malloc + 1) cursor.items →
      List.Forall₂ IsEntryOf lower cursor.items) ∧
    (¬ Complete o cursor.final (w.used .malloc + 1) cursor.items → lower = []) ∧
    ReadsInTurn o v dir (real ++ lower)

private theorem entries_of_shows {items : List DirItem} {nodes : List SqfsDirEntryNode}
    (h : List.Forall₂ (ShowsItem b) nodes items) :
    List.Forall₂ IsEntryOf (nodes.map (·.dirent)) items := by
  rw [List.forall₂_map_left_iff]
  refine h.imp ?_
  rintro node item ⟨inode, hlen, hinode, hdirent⟩
  rw [hdirent]
  exact ⟨rfl, inode, hinode, rfl⟩

/-- Threads that read a merged stream get its entries in turn exactly when the enumeration
gets to no entry whose name and terminator overrun `d_name`. -/
theorem delivers_in_turn_iff {w : World} (hfree : w.depth = 0) {name : Option CString}
    {dirReader : Nat} {inode : InodePtr} {cursor : DirCursor}
    (hfound : lowerDir o w name = .found dirReader inode cursor)
    (hroom : DirRoom o (afterReal o w name) (realStream (w.outcome o (.opendir name)))) :
    DeliversInTurn b o w name (realListing (w.outcome o (.opendir name))) cursor ↔
      ¬ LongNameReached o (w.used .malloc + 1) cursor.items := by
  have hopen := open_found b o hfound hroom
  have hreads : ∀ dir v, runAlone o (sqfsOpendir b name) w = some (some dir, v) →
      ReadsInTurn o v dir (pending v dir) := by
    intro dir v hrun
    have hdepth := (sqfsOpendir_balanced b name).run_depth o hrun
    exact reads_in_turn o (hdepth.trans hfree) dir
  rcases enumerated_cases b o cursor.final (w.used .malloc + 1) cursor.items [] with
    ⟨hlong, he⟩ | ⟨hshort, nodes, hnodes, hcomplete, he⟩ | ⟨hshort, hnot, he⟩
  · constructor
    · rintro ⟨dir, v, lower, hrun, -⟩
      rw [opendir_undefined b o hfound hroom hlong] at hrun
      cases hrun
    · intro h
      exact absurd hlong h
  · rw [he] at hopen
    obtain ⟨dir, v, hrun, hpend⟩ := hopen
    have hdelivers : DeliversInTurn b o w name (realListing (w.outcome o (.opendir name)))
        cursor := ⟨dir, v, nodes.map (·.dirent), hrun, fun _ => entries_of_shows b hnodes,
      fun h => absurd hcomplete h, hpend ▸ hreads dir v hrun⟩
    exact iff_of_true hdelivers hshort
  · rw [he] at hopen
    obtain ⟨dir, v, hrun, hpend⟩ := hopen
    have hdelivers : DeliversInTurn b o w name (realListing (w.outcome o (.opendir name)))
        cursor := ⟨dir, v, [], hrun, fun h => absurd h hnot, fun _ => rfl,
      hpend ▸ hreads dir v hrun⟩
    exact iff_of_true hdelivers hshort

/-- A real directory with "r" over one of the image with "m". -/
theorem delivers_in_turn_iff_short :
    DeliversInTurn .b64 (bothLayers [otherEntry] [imageItem]) .initial (some hookFile)
        (realListing (World.initial.outcome (bothLayers [otherEntry] [imageItem])
          (.opendir (some hookFile))))
        { items := [imageItem], final := .ok () } ↔
      ¬ LongNameReached (bothLayers [otherEntry] [imageItem]) (World.initial.used .malloc + 1)
        [imageItem] :=
  delivers_in_turn_iff .b64 (bothLayers [otherEntry] [imageItem]) rfl
    (bothLayers_found [otherEntry] [imageItem]) (bothLayers_room [otherEntry] [imageItem])

/-- With one entry of 300 bytes in the image no thread ever has a stream to read. -/
theorem long_name_not_delivered :
    lowerDir (bothLayers [] [longItem]) .initial (some hookFile) =
        .found 16 { addr := 2048, inode := plainDir } { items := [longItem], final := .ok () } ∧
      longItem.entry.name.length = 300 ∧
      ¬ DeliversInTurn .b64 (bothLayers [] [longItem]) .initial (some hookFile)
        (realListing (World.initial.outcome (bothLayers [] [longItem]) (.opendir (some hookFile))))
        { items := [longItem], final := .ok () } := by
  have hfound := bothLayers_found [] [longItem]
  refine ⟨hfound, length_longName, ?_⟩
  rintro ⟨dir, v, lower, hrun, -⟩
  rw [opendir_undefined .b64 (bothLayers [] [longItem]) hfound
    (bothLayers_room [] [longItem]) longName_reached] at hrun
  cases hrun

end HookSqfs.Hooks
