import HookSqfs.Hooks.DirHandling

/-! Threads at work on files and directories of the image: nothing is used or released that is
not there, and but for what enumerations lose nothing is left over. -/
namespace HookSqfs.Hooks
open Manager Interaction Tables

/-- What a request reads, uses or releases is live, and an entry that it takes from a table is
there. The other requests get at no object. -/
def UsesLive (live : Multiset Object) (w : World) : ImageReq → Prop
  | .hook (.deref objects) => ∀ x ∈ objects, x ∈ live
  | .hook (.call (.dataReaderRead p _ _)) | .hook (.call (.openDir p)) => p.object ∈ live
  | .hook (.call (.free addr)) => ⟨.malloc, addr⟩ ∈ live
  | .hook (.call (.sqfsFree addr)) => ⟨.library, addr⟩ ∈ live
  | .hook (.call (.sqfsDestroy addr)) => readerObject addr ∈ live
  | .hook (.fdMapEntry key) | .hook (.fdMapSetOffset key _) | .hook (.fdMapDel key) =>
    ∃ entry, lookup FDMapEntry.key key w.fdMap = some entry ∧ entry.object ∈ live
  | .hook (.fdMapAdd entry) => entry.object ∈ live ∧ entry.inode.object ∈ live
  | .hook (.dirMapEntry key) | .hook (.dirMapDel key) | .hook (.dirMapSetReachedEnd key) =>
    ∃ entry, lookup DirMapEntry.key key w.dirMap = some entry ∧ entry.object ∈ live
  | .hook (.dirMapSetList key list) | .hook (.dirMapSetCurrent key list) =>
    (∃ entry, lookup DirMapEntry.key key w.dirMap = some entry ∧ entry.object ∈ live) ∧
      ∀ node ∈ list, node.object ∈ live
  | .hook (.dirMapAdd entry) => entry.object ∈ live ∧ readerObject entry.dirReader ∈ live
  | _ => True

theorem fdObjects_of_lookup {fdMap : List FDMapEntry} {key : Int} {entry : FDMapEntry}
    (h : lookup FDMapEntry.key key fdMap = some entry) :
    entry.object ∈ fdObjects fdMap ∧ entry.inode.object ∈ fdObjects fdMap := by
  rw [fdObjects_remove h]
  simp

theorem dirObjects_of_lookup {dirMap : List DirMapEntry} {key : Nat} {entry : DirMapEntry}
    (h : lookup DirMapEntry.key key dirMap = some entry) : entryObjects entry ≤ dirObjects dirMap := by
  rw [dirObjects_remove h]
  exact Multiset.le_add_right _ _

theorem entry_mem_entryObjects (entry : DirMapEntry) : entry.object ∈ entryObjects entry :=
  Multiset.mem_cons_self _ _

theorem node_mem_entryObjects {entry : DirMapEntry} {node : SqfsDirEntryNode}
    (h : node ∈ entry.dirEntryList) : node.object ∈ entryObjects entry :=
  Multiset.mem_cons_of_mem (Multiset.mem_cons_of_mem (node_mem_nodesHeld h))

section
variable {base w : World} {before after : List (Nat × Hand)} {held : Nat} {g : Hand}
  {table live : Multiset Object} {entries : Bool}

/-- The directories of the table are live, but for a list that is being filled. -/
private theorem Accounted.table_live (h : Accounted base w (before ++ (held, g) :: after))
    (hothers : ∀ y ∈ before ++ after, y.1 = 0)
    (htable : dirObjects w.dirMap =
      table + ((before ++ (held, g) :: after).map fun x => x.2.owed).sum) :
    (g.filling = none → table = dirObjects w.dirMap) ∧
      ∀ entry, g.filling = some entry → entry.object ∈ table := by
  rw [h.owed_alone hothers] at htable
  refine ⟨fun hnone => ?_, fun entry hentry => ?_⟩
  · rw [htable, Hand.owed_none hnone, add_zero]
  · have hlookup := (h.knows (held, g) (List.mem_append_right _ List.mem_cons_self)).filling entry hentry
    have howed : g.owed = nodesHeld entry.dirEntryList := by
      rw [Hand.owed, hentry]
      rfl
    rw [howed, dirObjects_remove hlookup.2.1, entryObjects, Multiset.cons_add, Multiset.cons_add,
      add_comm (nodesHeld entry.dirEntryList), ← Multiset.cons_add, ← Multiset.cons_add] at htable
    rw [← add_right_cancel htable]
    exact Multiset.mem_cons_self _ _

/-- What a thread may do is sound where its hand is part of the account. -/
private theorem Accounted.usesLive (h : Accounted base w (before ++ (held, g) :: after))
    (hothers : held ≠ 0 → ∀ y ∈ before ++ after, y.1 = 0)
    (htable : dirObjects w.dirMap =
      table + ((before ++ (held, g) :: after).map fun x => x.2.owed).sum)
    (hlive : fdObjects w.fdMap + table +
      ((before ++ (held, g) :: after).map fun x => x.2.held).sum = live)
    {e : ImageReq} (hpermits : (memoryContract entries).permits held g e) : UsesLive live w e := by
  have hknows : Knows w (held, g) := h.knows _ (List.mem_append_right _ List.mem_cons_self)
  have hlive : ∀ x, x ∈ fdObjects w.fdMap ∨ x ∈ table ∨ x ∈ g.held → x ∈ live := by
    intro x hx
    rw [Accounted.sum_middle] at hlive
    rw [← hlive]
    simp only [Multiset.mem_add]
    tauto
  have hseen : ∀ entry, g.seen = some entry → lookup FDMapEntry.key entry.key w.fdMap = some entry ∧
      entry.object ∈ live ∧ entry.inode.object ∈ live := by
    intro entry hentry
    have hlookup := (hknows.seen entry hentry).2
    obtain ⟨haddr, hinode⟩ := fdObjects_of_lookup hlookup
    exact ⟨hlookup, hlive _ (.inl haddr), hlive _ (.inl hinode)⟩
  have hdir : ∀ key entry, held ≠ 0 → g.filling = none →
      lookup DirMapEntry.key key w.dirMap = some entry → ∀ x ∈ entryObjects entry, x ∈ live := by
    intro key entry hheld hnone hentry x hx
    have hsame := (h.table_live (hothers hheld) htable).1 hnone
    refine hlive _ (.inr (.inl ?_))
    rw [hsame]
    exact Multiset.mem_of_le (dirObjects_of_lookup hentry) hx
  have hdirSeen : ∀ entry, g.filling = none → g.dirSeen = some entry →
      lookup DirMapEntry.key entry.key w.dirMap = some entry ∧ ∀ x ∈ entryObjects entry, x ∈ live := by
    intro entry hnone hentry
    obtain ⟨hheld, hlookup⟩ := hknows.dirSeen entry hentry
    exact ⟨hlookup, hdir _ entry hheld hnone hlookup⟩
  cases e with
  | hook e =>
    cases e with
    | deref objects =>
      intro x hx
      rcases hpermits x hx with hheld | ⟨entry, hentry, hsame⟩ | ⟨hnone, entry, hentry, hmem⟩
      · exact hlive _ (.inr (.inr hheld))
      · obtain ⟨-, haddr, hinode⟩ := hseen entry hentry
        rcases hsame with rfl | rfl
        · exact haddr
        · exact hinode
      · exact (hdirSeen entry hnone hentry).2 x hmem
    | call c =>
      cases c with
      | dataReaderRead p offset size =>
        obtain ⟨entry, hentry, rfl⟩ := hpermits
        exact (hseen entry hentry).2.2
      | openDir p => exact hlive _ (.inr (.inr hpermits))
      | free addr => exact hlive _ (.inr (.inr hpermits))
      | sqfsFree addr => exact hlive _ (.inr (.inr hpermits))
      | sqfsDestroy addr => exact hlive _ (.inr (.inr hpermits))
      | _ => trivial
    | fdMapEntry key =>
      obtain ⟨entry, hentry⟩ := Option.isSome_iff_exists.mp (hknows.found key hpermits).2
      exact ⟨entry, hentry, hlive _ (.inl (fdObjects_of_lookup hentry).1)⟩
    | fdMapSetOffset key offset =>
      obtain ⟨entry, hentry, rfl⟩ := hpermits
      obtain ⟨hlookup, haddr, -⟩ := hseen entry hentry
      exact ⟨entry, hlookup, haddr⟩
    | fdMapDel key =>
      obtain ⟨entry, hentry, rfl⟩ := hpermits
      obtain ⟨hlookup, haddr, -⟩ := hseen entry hentry
      exact ⟨entry, hlookup, haddr⟩
    | fdMapAdd entry =>
      have hle : entry.object ::ₘ {entry.inode.object} ≤ g.held := hpermits
      exact ⟨hlive _ (.inr (.inr (Multiset.mem_of_le hle (by simp)))),
        hlive _ (.inr (.inr (Multiset.mem_of_le hle (by simp))))⟩
    | dirMapEntry key =>
      obtain ⟨hnone, hkey⟩ := hpermits
      obtain ⟨hheld, hsome⟩ := hknows.dirFound key hkey
      obtain ⟨entry, hentry⟩ := Option.isSome_iff_exists.mp hsome
      exact ⟨entry, hentry, hdir key entry hheld hnone hentry _ (entry_mem_entryObjects entry)⟩
    | dirMapAdd entry =>
      have hle : entry.object ::ₘ {readerObject entry.dirReader} ≤ g.held := hpermits.1
      exact ⟨hlive _ (.inr (.inr (Multiset.mem_of_le hle (by simp)))),
        hlive _ (.inr (.inr (Multiset.mem_of_le hle (by simp))))⟩
    | dirMapDel key =>
      obtain ⟨hnone, entry, hentry, rfl⟩ := hpermits
      obtain ⟨hlookup, hobjects⟩ := hdirSeen entry hnone hentry
      exact ⟨entry, hlookup, hobjects _ (entry_mem_entryObjects entry)⟩
    | dirMapSetReachedEnd key =>
      obtain ⟨hnone, entry, hentry, rfl⟩ := hpermits
      obtain ⟨hlookup, hobjects⟩ := hdirSeen entry hnone hentry
      exact ⟨entry, hlookup, hobjects _ (entry_mem_entryObjects entry)⟩
    | dirMapSetCurrent key current =>
      obtain ⟨hnone, entry, hentry, rfl, hsuffix⟩ := hpermits
      obtain ⟨hlookup, hobjects⟩ := hdirSeen entry hnone hentry
      exact ⟨⟨entry, hlookup, hobjects _ (entry_mem_entryObjects entry)⟩, fun node hnode =>
        hobjects _ (node_mem_entryObjects (hsuffix.subset hnode))⟩
    | dirMapSetList key list =>
      obtain ⟨hle, entry, hentry, rfl⟩ := hpermits
      obtain ⟨hheld, hlookup, -⟩ := hknows.filling entry hentry
      refine ⟨⟨entry, hlookup, hlive _ (.inr (.inl ?_))⟩, fun node hnode => hlive _ (.inr (.inr ?_))⟩
      · exact (h.table_live (hothers hheld) htable).2 entry hentry
      · exact Multiset.mem_of_le hle (node_mem_nodesHeld hnode)
    | _ => trivial
  | _ => exact hpermits.elim

end

section pool
variable {b : Bits} {image : Set Int} {R : Type} {o : Oracle} {i : Nat → ImageOracle}
  {entries : Bool} {threads : List (Thread ImageReq ImageAnswer Errno R)} {s : Process}
  {turns : List (Turn ImageReq ImageAnswer)} {c : Pool ImageReq ImageAnswer Process Errno R}

theorem HookClient.meets {p : Loader R} (h : HookClient b image p) (held : Multiset Object) :
    p.Meets managerLocking (memoryContract entries) 0 (.empty held) fun _ n g => n = 0 ∧
      ∃ lost, Loses entries lost ∧ g = .empty (lost + held) := by
  induction h generalizing held with
  | done r => exact ⟨rfl, 0, fun _ => rfl, congrArg Hand.empty (zero_add held).symm⟩
  | getErrno rest ih =>
    refine ⟨trivial, ?_⟩
    rintro e _ ⟨-, -, rfl⟩
    exact ih e held
  | setErrno e rest ih =>
    refine ⟨trivial, ?_⟩
    rintro _ _ ⟨-, -, rfl⟩
    exact ih held
  | call h rest ih =>
    apply Program.Meets.bind (h.lossy entries held)
    rintro a _ _ ⟨rfl, lost, hlost, rfl⟩
    refine (ih a (lost + held)).mono ?_
    rintro _ _ _ ⟨rfl, lost', hlost', rfl⟩
    refine ⟨rfl, lost' + lost, fun hno => ?_, congrArg Hand.empty (add_assoc _ _ _).symm⟩
    rw [hlost hno, hlost' hno, add_zero]

private theorem kept_hooks (entries : Bool) (hfree : ∀ t ∈ threads, t.held = 0)
    (hclients : ∀ t ∈ threads, HookClient b image t.rest)
    (hcursors : ∀ e ∈ s.world.dirMap, e.dirEntryCurrent <:+ e.dirEntryList)
    (hentries : ∀ turn ∈ turns, readsEntry turn.request = true → entries = true)
    (hsteps : (threadMachine o i).Steps ⟨s, threads⟩ turns c) :
    ∃ xs, (threadMachine o i).Kept (memoryContract entries)
      (fun s' xs => Accounted s.world s'.world xs)
      (fun _ n g => n = 0 ∧ ∃ lost, Loses entries lost ∧ g = .empty lost) c xs := by
  have hstart : (threadMachine o i).Kept (memoryContract entries)
      (fun s' xs => Accounted s.world s'.world xs)
      (fun _ n g => n = 0 ∧ ∃ lost, Loses entries lost ∧ g = .empty lost)
      ⟨s, threads⟩ (threads.map fun _ => (0, Hand.empty 0)) := by
    refine ⟨⟨⟨[], dirObjects s.world.dirMap, (List.append_nil _).symm, ?_, ?_⟩, ?_, hcursors⟩, ?_⟩
    · simp [Hand.owed_none, Hand.empty]
    · simp [Hand.empty, objects, replay]
    · intro x hx
      obtain ⟨t, -, rfl⟩ := List.mem_map.mp hx
      exact .empty 0 0
    · rw [List.forall₂_map_right_iff, List.forall₂_same]
      refine fun t ht => ⟨hfree t ht, ((hclients t ht).meets 0).mono ?_⟩
      rintro _ _ _ ⟨hn, lost, hlost, rfl⟩
      exact ⟨hn, lost, hlost, congrArg Hand.empty (add_zero lost)⟩
  have horder : Orderly (threadMachine o i).locking (⟨s, threads⟩ : Pool _ _ Process _ _).threads :=
    orderly_clients hfree fun t ht => (hclients t ht).client
  exact horder.kept memoryContract_upheld hstart hsteps hentries

/-- What the threads lost, once all of them are done. -/
private theorem lost_of_kept {xs : List (Nat × Hand)} {inv : Process → List (Nat × Hand) → Prop}
    (hkept : (threadMachine o i).Kept (memoryContract entries) inv
      (fun _ n g => n = 0 ∧ ∃ lost, Loses entries lost ∧ g = .empty lost) c xs)
    (hdone : ∀ t ∈ c.threads, ∃ r, t.rest = .ret r) :
    (xs.map fun x => x.2.owed).sum = 0 ∧ Loses entries (xs.map fun x => x.2.held).sum := by
  have hpairs : List.Forall₂ (fun x t => (∃ lost, Loses entries lost ∧ x.2 = .empty lost) ∧
      t ∈ c.threads) xs c.threads := by
    refine .flip (((List.forall₂_and_left _ _).mpr
      ⟨fun _ ht => ht, Orderly.returned hkept hdone⟩).imp ?_)
    rintro t x ⟨ht, r, -, -, hlost⟩
    exact ⟨hlost, ht⟩
  have hends := ((List.forall₂_and_left _ _).mp hpairs).1
  constructor
  · rw [List.sum_eq_zero_iff]
    intro owed howed
    obtain ⟨x, hx, rfl⟩ := List.mem_map.mp howed
    obtain ⟨lost, -, hg⟩ := hends x hx
    rw [hg]
    rfl
  · intro hno
    rw [List.sum_eq_zero_iff]
    intro held hheld
    obtain ⟨x, hx, rfl⟩ := List.mem_map.mp hheld
    obtain ⟨lost, hlost, hg⟩ := hends x hx
    rw [hg]
    exact hlost hno

/-- However the requests of the threads are interleaved: no object is released twice or before
it is there; none is used or taken from a table that is not live; what `fd_map` refers to is
live at every moment, and what `dir_map` refers to whenever the lock is free. Once all threads are
done nothing else is live, unless an entry of a directory was read. -/
theorem memory_safe (hfree : ∀ t ∈ threads, t.held = 0)
    (hclients : ∀ t ∈ threads, HookClient b image t.rest)
    (hcursors : ∀ e ∈ s.world.dirMap, e.dirEntryCurrent <:+ e.dirEntryList)
    (hsteps : (threadMachine o i).Steps ⟨s, threads⟩ turns c) :
    ∃ events live, c.world.world.ledger = s.world.ledger ++ events ∧
      replay (objects s.world) events = some live ∧
      fdObjects c.world.world.fdMap ≤ live ∧
      ((∀ t ∈ c.threads, t.held = 0) → objects c.world.world ≤ live) ∧
      (∀ t ∈ c.threads, ∀ e k, t.rest = .request e k → UsesLive live c.world.world e) ∧
      ((∀ t ∈ c.threads, ∃ r, t.rest = .ret r) →
        (∀ turn ∈ turns, readsEntry turn.request = false) → live = objects c.world.world) := by
  have horder : Orderly (threadMachine o i).locking (⟨s, threads⟩ : Pool _ _ Process _ _).threads :=
    orderly_clients hfree fun t ht => (hclients t ht).client
  obtain ⟨xs, hkept⟩ := kept_hooks true hfree hclients hcursors (fun _ _ _ => rfl) hsteps
  obtain ⟨events, table, hledger, htable, hreplay⟩ := hkept.inv.ledger
  refine ⟨events, _, hledger, hreplay, ?_, ?_, ?_, ?_⟩
  · rw [add_assoc]
    exact Multiset.le_add_right _ _
  · intro hnobody
    have hnone : (xs.map fun x => x.2.owed).sum = 0 := by
      rw [List.sum_eq_zero_iff]
      intro owed howed
      obtain ⟨x, hx, rfl⟩ := List.mem_map.mp howed
      exact (hkept.inv.knows x hx).owed_of_free (Orderly.free_of_threads hkept.threads hnobody x hx)
    rw [objects, htable, hnone, add_zero]
    exact Multiset.le_add_right _ _
  · intro t ht e k hrest
    obtain ⟨before, after, hsplit⟩ := List.append_of_mem ht
    have hthreads := hkept.threads
    have hexclusive := horder.steps hsteps
    rw [hsplit] at hthreads hexclusive
    obtain ⟨xb, ⟨held, g⟩, xa, rfl, ⟨hheld, hmeets⟩, hb, ha⟩ := Orderly.forall₂_split hthreads
    rw [hrest] at hmeets
    refine hkept.inv.usesLive (fun hne => ?_) htable rfl hmeets.1
    exact Orderly.free_of_threads (List.rel_append hb ha) (hexclusive.others_free (hheld ▸ hne))
  · intro hdone hnothing
    obtain ⟨ys, hkept'⟩ := kept_hooks false hfree hclients hcursors
      (fun turn hturn hread => absurd ((hnothing turn hturn).symm.trans hread) nofun) hsteps
    obtain ⟨events', table', hledger', htable', hreplay'⟩ := hkept'.inv.ledger
    obtain ⟨howed, hlost⟩ := lost_of_kept hkept' hdone
    have hevents : events = events' := List.append_cancel_left (hledger.symm.trans hledger')
    rw [hevents, hreplay'] at hreplay
    rw [howed, add_zero] at htable'
    rw [← Option.some.inj hreplay, hlost rfl, add_zero, objects, htable']

end pool

/-- One open directory of the image, with one entry. -/
def oneListed : Process :=
  let node : SqfsDirEntryNode := { addr := 30, inode := { addr := 31, inode := default }, dirent := default }
  let entry : DirMapEntry :=
    { addr := 20, key := 5, dirReader := 21, isRealDir := false, dirEntryList := [node]
      dirEntryCurrent := [], dirEntryListReachedEnd := false }
  { loading := { Loading.blank with world := { Loading.blank.world with dirMap := [entry] } }
    requests := 0 }

/-- One thread closes it while another one reads it. -/
def closerAndReader : List (Thread ImageReq ImageAnswer Errno Unit) :=
  [{ id := 0, locals := 0, held := 0, rest := relay (sqfsClosedir 5) >>= fun _ => .ret () },
    { id := 1, locals := 0, held := 0, rest := relay (sqfsReaddir 5) >>= fun _ => .ret () }]

/-- The closing one has taken the entry out and is about to release its reader. -/
private theorem closer_releases :
    ∃ turns c, (threadMachine .bare fun _ => .sound).Steps ⟨oneListed, closerAndReader⟩ turns c ∧
      c.world.world.dirMap = [] ∧
      ∃ t ∈ c.threads, ∃ k, t.rest = .request (.hook (.call (.sqfsDestroy 21))) k := by
  let lock : ImageReq := .hook .lock
  let find : ImageReq := .hook (.dirMapFind 5)
  let entry : ImageReq := .hook (.dirMapEntry 5)
  let del : ImageReq := .hook (.dirMapDel 5)
  let deref : ImageReq := .hook (.deref [⟨.malloc, 20⟩])
  refine ⟨_, _, ((((Machine.Steps.nil.snoc (.turn _ [] _ 0 0 0 lock _ fun _ => ?_)).snoc
    (.turn _ [] _ 0 _ 1 find _ fun _ => ?_)).snoc (.turn _ [] _ 0 _ 1 entry _ fun _ => ?_)).snoc
    (.turn _ [] _ 0 _ 1 del _ fun _ => ?_)).snoc (.turn _ [] _ 0 _ 1 deref _ fun _ => ?_), rfl, _,
    List.mem_cons_self, _, rfl⟩
  all_goals simp

theorem memory_safe_closing :
    ∃ turns c, (threadMachine .bare fun _ => .sound).Steps ⟨oneListed, closerAndReader⟩ turns c ∧
      c.world.world.dirMap = [] ∧
      ∃ events live, c.world.world.ledger = events ∧
        replay {⟨.malloc, 20⟩, readerObject 21, ⟨.library, 31⟩, ⟨.malloc, 30⟩} events = some live ∧
          readerObject 21 ∈ live := by
  have hfree : ∀ t ∈ closerAndReader, t.held = 0 := by
    simp [closerAndReader]
  have hclients : ∀ t ∈ closerAndReader, HookClient .b64 ∅ t.rest := by
    simp only [closerAndReader, List.mem_cons, List.not_mem_nil, or_false]
    rintro t (rfl | rfl)
    · exact .call (.closedir 5) fun _ => .done ()
    · exact .call (.readdir 5) fun _ => .done ()
  have hcursors : ∀ e ∈ oneListed.world.dirMap, e.dirEntryCurrent <:+ e.dirEntryList := by
    intro e he
    cases List.mem_singleton.mp he
    exact List.nil_suffix
  obtain ⟨turns, c, hsteps, hmap, t, ht, k, hrest⟩ := closer_releases
  obtain ⟨events, live, hledger, hreplay, -, -, huses, -⟩ :=
    memory_safe hfree hclients hcursors hsteps
  exact ⟨turns, c, hsteps, hmap, events, live, hledger, hreplay, huses t ht _ k hrest⟩

end HookSqfs.Hooks
