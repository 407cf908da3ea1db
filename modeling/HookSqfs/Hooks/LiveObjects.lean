import HookSqfs.Hooks.EnumerationLedger
import HookSqfs.Hooks.OpenCloseOutlines
import HookSqfs.Hooks.ThreadPool
import HookSqfs.Interaction.Contracts
import Mathlib.Tactic.Abel

/-! The objects behind descriptors and directory streams, with any number of threads at work:
each is at every moment with one thread or in a table, and none is used or released that is in
neither. -/
namespace HookSqfs.Hooks
open Manager Interaction Tables

/-- The objects in `fd_map`: each entry and its inode. -/
def fdObjects : List FDMapEntry → Multiset Object
  | [] => 0
  | entry :: fdMap => entry.object ::ₘ entry.inode.object ::ₘ fdObjects fdMap

theorem fdObjects_remove {fdMap : List FDMapEntry} {key : Int} {entry : FDMapEntry}
    (h : lookup FDMapEntry.key key fdMap = some entry) :
    fdObjects fdMap =
      entry.object ::ₘ entry.inode.object ::ₘ fdObjects (remove FDMapEntry.key key fdMap) := by
  induction fdMap with
  | nil => cases h
  | cons e fdMap ih =>
    rw [lookup_cons] at h
    rw [remove]
    split at h
    · rename_i hkey
      cases h
      rw [if_pos hkey]
      rfl
    · rename_i hkey
      rw [if_neg hkey, fdObjects, fdObjects, ih h, Multiset.cons_swap e.inode.object,
        Multiset.cons_swap e.object, Multiset.cons_swap e.inode.object, Multiset.cons_swap e.object]

theorem fdObjects_setOffset (fdMap : List FDMapEntry) (key : Int) (offset : BitVec 64) :
    fdObjects (adjust FDMapEntry.key key (fun e => { e with offset }) fdMap) = fdObjects fdMap := by
  induction fdMap with
  | nil => rfl
  | cons e fdMap ih =>
    rw [adjust]
    split
    · rfl
    · rw [fdObjects, fdObjects, ih]

/-- The objects of an entry of `dir_map`: itself, its reader and its list. -/
def entryObjects (entry : DirMapEntry) : Multiset Object :=
  entry.object ::ₘ readerObject entry.dirReader ::ₘ nodesHeld entry.dirEntryList

def dirObjects : List DirMapEntry → Multiset Object
  | [] => 0
  | entry :: dirMap => entryObjects entry + dirObjects dirMap

theorem dirObjects_remove {dirMap : List DirMapEntry} {key : Nat} {entry : DirMapEntry}
    (h : lookup DirMapEntry.key key dirMap = some entry) :
    dirObjects dirMap = entryObjects entry + dirObjects (remove DirMapEntry.key key dirMap) := by
  induction dirMap with
  | nil => cases h
  | cons e dirMap ih =>
    rw [lookup_cons] at h
    rw [remove]
    split at h
    · rename_i hkey
      cases h
      rw [if_pos hkey]
      rfl
    · rename_i hkey
      rw [if_neg hkey, dirObjects, dirObjects, ih h]
      abel

/-- A change in place that is paid for with the lists before and after it. -/
theorem dirObjects_adjust {dirMap : List DirMapEntry} {key : Nat} {entry : DirMapEntry}
    {f : DirMapEntry → DirMapEntry} (h : lookup DirMapEntry.key key dirMap = some entry)
    (hf : ∀ e, (f e).addr = e.addr ∧ (f e).dirReader = e.dirReader) :
    dirObjects (adjust DirMapEntry.key key f dirMap) + nodesHeld entry.dirEntryList =
      dirObjects dirMap + nodesHeld (f entry).dirEntryList := by
  induction dirMap with
  | nil => cases h
  | cons e dirMap ih =>
    rw [lookup_cons] at h
    rw [adjust]
    split at h
    · rename_i hkey
      cases h
      rw [if_pos hkey, dirObjects, dirObjects, entryObjects, entryObjects, DirMapEntry.object,
        DirMapEntry.object, (hf entry).1, (hf entry).2]
      simp only [← Multiset.singleton_add]
      abel
    · rename_i hkey
      rw [if_neg hkey, dirObjects, dirObjects, add_assoc, ih h, add_assoc]

/-- The objects in the two tables. -/
def objects (w : World) : Multiset Object := fdObjects w.fdMap + dirObjects w.dirMap

/-- What a thread has in hand: the objects it holds, and under the lock a key and an entry
that it has found in each table, and an entry of `dir_map` whose list it still fills. The nodes
of that list are among the objects it holds. -/
structure Hand where
  held : Multiset Object
  found : Option Int
  seen : Option FDMapEntry
  dirFound : Option Nat
  dirSeen : Option DirMapEntry
  filling : Option DirMapEntry

namespace Hand

/-- With nothing found and nothing to fill. -/
def empty (held : Multiset Object) : Hand :=
  { held, found := none, seen := none, dirFound := none, dirSeen := none, filling := none }

/-- What is in the table and held as well. -/
def owed (g : Hand) : Multiset Object := g.filling.elim 0 fun entry => nodesHeld entry.dirEntryList

theorem owed_none {g : Hand} (h : g.filling = none) : g.owed = 0 := by
  rw [owed, h]
  rfl

/-- What it may use: what it holds, and what is of an entry that it has found. -/
def reaches (g : Hand) (x : Object) : Prop :=
  x ∈ g.held ∨ (∃ entry, g.seen = some entry ∧ (x = entry.object ∨ x = entry.inode.object)) ∨
    g.filling = none ∧ ∃ entry, g.dirSeen = some entry ∧ x ∈ entryObjects entry

/-- What it may do: use and take out what it has found, put in and release what it holds. -/
def permits (g : Hand) : Req → Prop
  | .call (.dataReaderRead p _ _) => ∃ entry, g.seen = some entry ∧ entry.inode = p
  | .call (.openDir p) => p.object ∈ g.held
  | .call (.free addr) => ⟨.malloc, addr⟩ ∈ g.held
  | .call (.sqfsFree addr) => ⟨.library, addr⟩ ∈ g.held
  | .call (.sqfsDestroy addr) => readerObject addr ∈ g.held
  | .deref objects => ∀ x ∈ objects, g.reaches x
  | .fdMapEntry key => g.found = some key
  | .fdMapAdd entry => entry.object ::ₘ {entry.inode.object} ≤ g.held
  | .fdMapDel key | .fdMapSetOffset key _ => ∃ entry, g.seen = some entry ∧ entry.key = key
  | .dirMapEntry key => g.filling = none ∧ g.dirFound = some key
  | .dirMapAdd entry => entry.object ::ₘ {readerObject entry.dirReader} ≤ g.held ∧ g.filling = none ∧
    entry.dirEntryList = [] ∧ entry.dirEntryCurrent = []
  | .dirMapDel key => g.filling = none ∧ ∃ entry, g.dirSeen = some entry ∧ entry.key = key
  | .dirMapSetList key list => nodesHeld list ≤ g.held ∧
    ∃ entry, g.filling = some entry ∧ entry.key = key
  | .dirMapSetCurrent key current => g.filling = none ∧
    ∃ entry, g.dirSeen = some entry ∧ entry.key = key ∧ current <:+ entry.dirEntryList
  | .dirMapSetReachedEnd key => g.filling = none ∧ ∃ entry, g.dirSeen = some entry ∧ entry.key = key
  | .unlock => g.owed ≤ g.held
  | _ => True

def next (g : Hand) : (e : Req) → Answer e → Hand
  | .call c, a => { g with held := (replay g.held (c.events a)).getD g.held }
  | .fdMapFind key, found => if found then { g with found := some key } else g
  | .fdMapEntry _, entry => { g with seen := some entry }
  | .fdMapAdd entry, _ =>
    { g with held := g.held - (entry.object ::ₘ {entry.inode.object}), found := none, seen := none }
  | .fdMapDel _, _ =>
    { g with
      held := g.seen.elim g.held fun entry => entry.object ::ₘ entry.inode.object ::ₘ g.held
      found := none
      seen := none }
  | .fdMapSetOffset _ offset, _ => { g with seen := g.seen.map fun entry => { entry with offset } }
  | .dirMapFind key, found => if found then { g with dirFound := some key } else g
  | .dirMapEntry _, entry => { g with dirSeen := some entry }
  | .dirMapAdd entry, _ =>
    { g with
      held := g.held - (entry.object ::ₘ {readerObject entry.dirReader})
      dirFound := none
      dirSeen := none
      filling := some entry }
  | .dirMapDel _, _ =>
    { g with
      held := g.dirSeen.elim g.held fun entry => entryObjects entry + g.held
      dirFound := none
      dirSeen := none }
  | .dirMapSetList _ list, _ =>
    { g with
      dirFound := none
      dirSeen := none
      filling := g.filling.map fun entry => { entry with dirEntryList := list } }
  | .dirMapSetCurrent _ current, _ =>
    { g with dirSeen := g.dirSeen.map fun entry => { entry with dirEntryCurrent := current } }
  | .dirMapSetReachedEnd _, _ =>
    { g with dirSeen := g.dirSeen.map fun entry => { entry with dirEntryListReachedEnd := true } }
  | .unlock, _ => empty (g.held - g.owed)
  | _, _ => g

def told : (e : Req) → Answer e → Prop
  | .fdMapEntry key, entry => entry.key = key
  | .dirMapEntry key, entry => entry.key = key ∧ entry.dirEntryCurrent <:+ entry.dirEntryList
  | _, _ => True

end Hand

/-- The libsquashfs call that gives an entry of a directory. -/
def readsEntry : ImageReq → Bool
  | .hook (.call (.dirReaderRead (some _))) => true
  | _ => false

/-- In runs that read entries of directories, or in runs that do not. -/
def memoryContract (entries : Bool) : Contract ImageReq ImageAnswer Hand where
  permits _ g
    | .hook e => g.permits e
    | _ => False
  answers _ g
    | .hook e, a, g' => Hand.told e a ∧ (readsEntry (.hook e) = true → entries = true) ∧ g' = g.next e a
    | _, _, _ => True
  undefined := True

/-- What one thread has found is there. -/
structure Knows (w : World) (x : Nat × Hand) : Prop where
  found : ∀ key, x.2.found = some key → x.1 ≠ 0 ∧ (lookup FDMapEntry.key key w.fdMap).isSome
  seen : ∀ entry, x.2.seen = some entry →
    x.1 ≠ 0 ∧ lookup FDMapEntry.key entry.key w.fdMap = some entry
  dirFound : ∀ key, x.2.dirFound = some key →
    x.1 ≠ 0 ∧ (lookup DirMapEntry.key key w.dirMap).isSome
  dirSeen : ∀ entry, x.2.dirSeen = some entry →
    x.1 ≠ 0 ∧ lookup DirMapEntry.key entry.key w.dirMap = some entry
  filling : ∀ entry, x.2.filling = some entry →
    x.1 ≠ 0 ∧ lookup DirMapEntry.key entry.key w.dirMap = some entry ∧ entry.dirEntryCurrent = []

namespace Knows
variable {w w' : World} {x : Nat × Hand} {held held' : Nat} {g : Hand}

theorem congr (h : Knows w x) (hfd : w'.fdMap = w.fdMap) (hdir : w'.dirMap = w.dirMap) :
    Knows w' x := by
  refine ⟨?_, ?_, ?_, ?_, ?_⟩
  · rw [hfd]
    exact h.found
  · rw [hfd]
    exact h.seen
  · rw [hdir]
    exact h.dirFound
  · rw [hdir]
    exact h.dirSeen
  · rw [hdir]
    exact h.filling

/-- Without the lock nothing is known. -/
theorem of_free (h : Knows w x) (hfree : x.1 = 0) : Knows w' x where
  found key hkey := absurd hfree (h.found key hkey).1
  seen entry hentry := absurd hfree (h.seen entry hentry).1
  dirFound key hkey := absurd hfree (h.dirFound key hkey).1
  dirSeen entry hentry := absurd hfree (h.dirSeen entry hentry).1
  filling entry hentry := absurd hfree (h.filling entry hentry).1

theorem owed_of_free (h : Knows w x) (hfree : x.1 = 0) : x.2.owed = 0 := by
  cases hfilling : x.2.filling with
  | none => exact Hand.owed_none hfilling
  | some entry => exact absurd hfree (h.filling entry hfilling).1

theorem locked (h : Knows w (held, g)) (hheld : held ≠ 0 → held' ≠ 0) : Knows w (held', g) where
  found key hkey := (h.found key hkey).imp_left hheld
  seen entry hentry := (h.seen entry hentry).imp_left hheld
  dirFound key hkey := (h.dirFound key hkey).imp_left hheld
  dirSeen entry hentry := (h.dirSeen entry hentry).imp_left hheld
  filling entry hentry := (h.filling entry hentry).imp_left hheld

theorem empty (held : Multiset Object) (n : Nat) : Knows w (n, .empty held) :=
  ⟨nofun, nofun, nofun, nofun, nofun⟩

end Knows

/-- Since `base` the ledger is in order, and what is live is in a table or with a thread: `table`
is what `dir_map` has but for the lists that are being filled. -/
structure Accounted (base w : World) (xs : List (Nat × Hand)) : Prop where
  ledger : ∃ events table, w.ledger = base.ledger ++ events ∧
    dirObjects w.dirMap = table + (xs.map fun x => x.2.owed).sum ∧
    replay (objects base) events = some (fdObjects w.fdMap + table + (xs.map fun x => x.2.held).sum)
  knows : ∀ x ∈ xs, Knows w x
  cursors : ∀ e ∈ w.dirMap, e.dirEntryCurrent <:+ e.dirEntryList

/-- What others hold does not matter to the events of one. -/
theorem replay_frame {held held' : Multiset Object} {events : List (LedgerEvent Object)}
    (h : replay held events = some held') (others : Multiset Object) :
    replay (others + held) events = some (others + held') := by
  induction events generalizing held with
  | nil =>
    cases h
    rfl
  | cons e events ih =>
    cases e with
    | acquired addr =>
      have hnext : replay (addr ::ₘ held) events = some held' := h
      have hrest := ih hnext
      rw [Multiset.add_cons] at hrest
      exact hrest
    | released addr =>
      by_cases haddr : addr ∈ held
      · have hnext : replay (held.erase addr) events = some held' := by
          change (if addr ∈ held then some (held.erase addr) else none).bind _ = _ at h
          rw [if_pos haddr] at h
          exact h
        change (if addr ∈ others + held then some ((others + held).erase addr) else none).bind _ = _
        rw [if_pos (Multiset.mem_add.mpr (.inr haddr)), Multiset.erase_add_right_pos _ haddr]
        exact ih hnext
      · change (if addr ∈ held then some (held.erase addr) else none).bind _ = _ at h
        rw [if_neg haddr] at h
        cases h

/-- A permitted call obtains, or releases what is in hand. -/
theorem Hand.permits.replays {g : Hand} {c : Ext} (h : g.permits (.call c)) (a : c.Ans) :
    replay g.held (c.events a) = some (g.next (.call c) a).held := by
  have hsome : ∃ held, replay g.held (c.events a) = some held := by
    have hrelease : ∀ x, x ∈ g.held → ∃ held, replay g.held [.released x] = some held := by
      intro x hx
      exact ⟨g.held.erase x, by simp [replay, LedgerEvent.apply, hx]⟩
    cases c with
    | free addr => exact hrelease _ h
    | sqfsFree addr => exact hrelease _ h
    | sqfsDestroy addr => exact hrelease _ h
    | dirReaderRead item => cases item <;> exact ⟨_, rfl⟩
    | dirReaderGetInode inode => cases inode <;> exact ⟨_, rfl⟩
    | _ => cases a <;> exact ⟨_, rfl⟩
  obtain ⟨held, hheld⟩ := hsome
  rw [hheld, Hand.next, hheld]
  rfl

namespace Accounted
variable {base w w' : World} {before after : List (Nat × Hand)} {held held' : Nat} {g g' : Hand}

theorem sum_middle (f : Nat × Hand → Multiset Object) (x : Nat × Hand) :
    ((before ++ x :: after).map f).sum = ((before ++ after).map f).sum + f x := by
  simp only [List.map_append, List.map_cons, List.sum_append, List.sum_cons]
  rw [add_comm (f x), add_assoc]

private theorem self (h : Accounted base w (before ++ (held, g) :: after)) : Knows w (held, g) :=
  h.knows _ (mem_middle.mpr (.inl rfl))

/-- One thread changes what it has in hand, the tables, or both; where a table changes, the
others have found nothing in it. -/
private theorem update (h : Accounted base w (before ++ (held, g) :: after))
    (hledger : ∃ events, w'.ledger = w.ledger ++ events ∧ ∀ table owed,
      owed = ((before ++ after).map fun x => x.2.owed).sum →
      dirObjects w.dirMap = table + (owed + g.owed) →
      ∃ table', dirObjects w'.dirMap = table' + (owed + g'.owed) ∧ ∀ others,
        replay (others + (fdObjects w.fdMap + table + g.held)) events =
          some (others + (fdObjects w'.fdMap + table' + g'.held)))
    (hself : Knows w' (held', g'))
    (hothers : (w'.fdMap = w.fdMap ∧ w'.dirMap = w.dirMap) ∨ ∀ x ∈ before ++ after, x.1 = 0)
    (hcursors : ∀ e ∈ w'.dirMap, e.dirEntryCurrent <:+ e.dirEntryList) :
    Accounted base w' (before ++ (held', g') :: after) where
  ledger := by
    obtain ⟨events, table, hevents, htable, hlive⟩ := h.ledger
    obtain ⟨events', hevents', hchange⟩ := hledger
    rw [sum_middle] at htable
    obtain ⟨table', htable', hreplay⟩ := hchange table _ rfl htable
    refine ⟨events ++ events', table', ?_, ?_, ?_⟩
    · rw [hevents', hevents, List.append_assoc]
    · rw [sum_middle]
      exact htable'
    · have hnow := hreplay ((before ++ after).map fun x => x.2.held).sum
      rw [add_left_comm, add_left_comm _ (fdObjects w'.fdMap + table')] at hnow
      rw [replay_append, hlive, Option.bind_some, sum_middle, sum_middle]
      exact hnow
  knows x hx := by
    rcases mem_middle.mp hx with rfl | hx
    · exact hself
    · have hknows := h.knows x (mem_middle.mpr (.inr hx))
      rcases hothers with ⟨hfd, hdir⟩ | hfree
      · exact hknows.congr hfd hdir
      · exact hknows.of_free (hfree x hx)
  cursors := hcursors

/-- Only what the thread has found in the tables changes. -/
private theorem still (h : Accounted base w (before ++ (held, g) :: after))
    (hledger : w'.ledger = w.ledger) (hfd : w'.fdMap = w.fdMap) (hdir : w'.dirMap = w.dirMap)
    (hheld : g'.held = g.held) (howed : g'.owed = g.owed) (hself : Knows w' (held', g')) :
    Accounted base w' (before ++ (held', g') :: after) := by
  refine h.update ⟨[], hledger.trans (List.append_nil _).symm, fun table owed _ htable => ?_⟩ hself
    (.inl ⟨hfd, hdir⟩) (hdir ▸ h.cursors)
  rw [hfd, hdir, hheld, howed]
  exact ⟨table, htable, fun others => rfl⟩

/-- A request that has nothing to do with the objects. -/
private theorem idle (h : Accounted base w (before ++ (held, g) :: after))
    (hledger : w'.ledger = w.ledger) (hfd : w'.fdMap = w.fdMap) (hdir : w'.dirMap = w.dirMap)
    (hheld : held ≠ 0 → held' ≠ 0) : Accounted base w' (before ++ (held', g) :: after) :=
  h.still hledger hfd hdir rfl rfl ((h.self.locked hheld).congr hfd hdir)

private theorem call {c : Ext} (h : Accounted base w (before ++ (held, g) :: after))
    (hc : g.permits (.call c)) (o : Oracle) (a : c.Ans) :
    Accounted base (w.afterCall o c a) (before ++ (held, g.next (.call c) a) :: after) := by
  have hfd : (w.afterCall o c a).fdMap = w.fdMap := w.afterCall_fdMap o c a
  have hdir : (w.afterCall o c a).dirMap = w.dirMap := w.afterCall_dirMap o c a
  have hself : Knows w (held, g.next (.call c) a) :=
    ⟨h.self.found, h.self.seen, h.self.dirFound, h.self.dirSeen, h.self.filling⟩
  refine h.update ⟨_, w.afterCall_ledger o c a, fun table owed _ htable => ?_⟩ (hself.congr hfd hdir)
    (.inl ⟨hfd, hdir⟩) (hdir ▸ h.cursors)
  rw [hfd, hdir]
  refine ⟨table, htable, fun others => ?_⟩
  have hcall := replay_frame (hc.replays a) (others + (fdObjects w.fdMap + table))
  rw [add_assoc, add_assoc others] at hcall
  exact hcall

/-- While the others hold nothing, they owe nothing. -/
theorem owed_alone (h : Accounted base w (before ++ (held, g) :: after))
    (hothers : ∀ x ∈ before ++ after, x.1 = 0) :
    ((before ++ (held, g) :: after).map fun x => x.2.owed).sum = g.owed := by
  have hnone : ((before ++ after).map fun x => x.2.owed).sum = 0 := by
    rw [List.sum_eq_zero_iff]
    intro owed howed
    obtain ⟨x, hx, rfl⟩ := List.mem_map.mp howed
    exact (h.knows x (mem_middle.mpr (.inr hx))).owed_of_free (hothers x hx)
  rw [sum_middle, hnone, zero_add]

/-- Only the thread under the lock changes a table. -/
private theorem change (h : Accounted base w (before ++ (held, g) :: after))
    (hothers : ∀ x ∈ before ++ after, x.1 = 0) (hledger : w'.ledger = w.ledger)
    (htables : ∀ table, dirObjects w.dirMap = table + g.owed →
      ∃ table', dirObjects w'.dirMap = table' + g'.owed ∧
        fdObjects w.fdMap + table + g.held = fdObjects w'.fdMap + table' + g'.held)
    (hself : Knows w' (held', g'))
    (hcursors : ∀ e ∈ w'.dirMap, e.dirEntryCurrent <:+ e.dirEntryList) :
    Accounted base w' (before ++ (held', g') :: after) := by
  refine h.update ⟨[], hledger.trans (List.append_nil _).symm, fun table owed howed htable => ?_⟩
    hself (.inr hothers) hcursors
  have hnone : owed = 0 := by
    have halone := h.owed_alone hothers
    rw [sum_middle, ← howed] at halone
    exact add_eq_right.mp halone
  subst hnone
  rw [zero_add] at htable
  obtain ⟨table', htable', hsame⟩ := htables table htable
  refine ⟨table', htable'.trans (congrArg (table' + ·) (zero_add _).symm), fun others => ?_⟩
  rw [hsame]
  rfl

/-- Only `fd_map` and what the thread holds change. -/
private theorem changeFd (h : Accounted base w (before ++ (held, g) :: after))
    (hothers : ∀ x ∈ before ++ after, x.1 = 0) (hledger : w'.ledger = w.ledger)
    (hdir : w'.dirMap = w.dirMap) {m : Multiset Object}
    (hfd : fdObjects w.fdMap + g.held = fdObjects w'.fdMap + m) :
    Accounted base w'
      (before ++ (held, { g with held := m, found := none, seen := none }) :: after) := by
  refine h.change hothers hledger (fun table htable => ⟨table, hdir.symm ▸ htable, ?_⟩) ?_
    (hdir ▸ h.cursors)
  · rw [add_right_comm, hfd, add_right_comm]
  · refine ⟨nofun, nofun, ?_, ?_, ?_⟩
    · rw [hdir]
      exact h.self.dirFound
    · rw [hdir]
      exact h.self.dirSeen
    · rw [hdir]
      exact h.self.filling

private theorem find (h : Accounted base w (before ++ (held, g) :: after)) (hheld : held ≠ 0)
    (key : Int) : Accounted base w
      (before ++ (held, g.next (.fdMapFind key) (lookup FDMapEntry.key key w.fdMap).isSome) :: after) := by
  cases hfound : (lookup FDMapEntry.key key w.fdMap).isSome with
  | false => exact h
  | true =>
    refine h.still rfl rfl rfl rfl rfl
      ⟨fun key' hkey => ?_, h.self.seen, h.self.dirFound, h.self.dirSeen, h.self.filling⟩
    cases hkey
    exact ⟨hheld, hfound⟩

private theorem entry {key : Int} (h : Accounted base w (before ++ (held, g) :: after))
    (hkey : g.found = some key) :
    ((lookup FDMapEntry.key key w.fdMap).getD default).key = key ∧
      Accounted base w (before ++
        (held, g.next (.fdMapEntry key) ((lookup FDMapEntry.key key w.fdMap).getD default)) :: after) := by
  obtain ⟨hheld, hsome⟩ := h.self.found key hkey
  obtain ⟨entry, hentry⟩ := Option.isSome_iff_exists.mp hsome
  rw [hentry]
  refine ⟨(lookup_some hentry).2, h.still rfl rfl rfl rfl rfl
    ⟨h.self.found, fun entry' hentry' => ?_, h.self.dirFound, h.self.dirSeen, h.self.filling⟩⟩
  cases hentry'
  exact ⟨hheld, (lookup_some hentry).2.symm ▸ hentry⟩

/-- An entry and its inode go from the thread into the table. -/
private theorem add {entry : FDMapEntry} (h : Accounted base w (before ++ (held, g) :: after))
    (hheld : entry.object ::ₘ {entry.inode.object} ≤ g.held) (hothers : ∀ x ∈ before ++ after, x.1 = 0)
    (hledger : w'.ledger = w.ledger) (hmap : w'.fdMap = entry :: w.fdMap)
    (hdir : w'.dirMap = w.dirMap) :
    Accounted base w' (before ++ (held, g.next (.fdMapAdd entry) ()) :: after) := by
  refine h.changeFd hothers hledger hdir ?_
  obtain ⟨rest, hrest⟩ := Multiset.le_iff_exists_add.mp hheld
  rw [hmap, fdObjects, hrest, add_tsub_cancel_left]
  simp only [← Multiset.singleton_add]
  abel

/-- They come back from it. -/
private theorem del {entry : FDMapEntry} (h : Accounted base w (before ++ (held, g) :: after))
    (hentry : g.seen = some entry) (hothers : ∀ x ∈ before ++ after, x.1 = 0)
    (hledger : w'.ledger = w.ledger) (hmap : w'.fdMap = remove FDMapEntry.key entry.key w.fdMap)
    (hdir : w'.dirMap = w.dirMap) :
    Accounted base w' (before ++ (held, g.next (.fdMapDel entry.key) ()) :: after) := by
  refine h.changeFd hothers hledger hdir ?_
  rw [fdObjects_remove (h.self.seen entry hentry).2, hmap, hentry]
  simp only [← Multiset.singleton_add, Option.elim_some]
  abel

/-- The entry that was seen gets another offset. -/
private theorem setOffset {entry : FDMapEntry} {offset : BitVec 64}
    (h : Accounted base w (before ++ (held, g) :: after)) (hentry : g.seen = some entry)
    (hothers : ∀ x ∈ before ++ after, x.1 = 0) (hledger : w'.ledger = w.ledger)
    (hmap : w'.fdMap = adjust FDMapEntry.key entry.key (fun e => { e with offset }) w.fdMap)
    (hdir : w'.dirMap = w.dirMap) :
    Accounted base w' (before ++ (held, g.next (.fdMapSetOffset entry.key offset) ()) :: after) := by
  obtain ⟨hheld, hlookup⟩ := h.self.seen entry hentry
  have hkey : ∀ e : FDMapEntry, { e with offset }.key = e.key := fun _ => rfl
  refine h.change hothers hledger (fun table htable => ⟨table, hdir.symm ▸ htable, ?_⟩)
    ⟨?_, ?_, ?_, ?_, ?_⟩ (hdir ▸ h.cursors)
  · rw [hmap, fdObjects_setOffset]
    rfl
  · intro key hfound
    refine (h.self.found key hfound).imp_right fun hsome => ?_
    rw [Option.isSome_iff_ne_none, Ne, lookup_eq_none] at hsome ⊢
    rw [hmap, map_adjust hkey]
    exact hsome
  · rw [Hand.next, hentry]
    rintro entry' hentry'
    cases hentry'
    have hadjusted : lookup FDMapEntry.key entry.key w'.fdMap = some { entry with offset } := by
      rw [hmap, lookup_adjust_self hkey, hlookup, Option.map_some]
    exact ⟨hheld, hadjusted⟩
  · rw [hdir]
    exact h.self.dirFound
  · rw [hdir]
    exact h.self.dirSeen
  · rw [hdir]
    exact h.self.filling

private theorem dirFind (h : Accounted base w (before ++ (held, g) :: after)) (hheld : held ≠ 0)
    (key : Nat) : Accounted base w
      (before ++ (held, g.next (.dirMapFind key) (lookup DirMapEntry.key key w.dirMap).isSome) :: after) := by
  cases hfound : (lookup DirMapEntry.key key w.dirMap).isSome with
  | false => exact h
  | true =>
    refine h.still rfl rfl rfl rfl rfl
      ⟨h.self.found, h.self.seen, fun key' hkey => ?_, h.self.dirSeen, h.self.filling⟩
    cases hkey
    exact ⟨hheld, hfound⟩

private theorem dirEntry {key : Nat} (h : Accounted base w (before ++ (held, g) :: after))
    (hkey : g.dirFound = some key) :
    Hand.told (.dirMapEntry key) ((lookup DirMapEntry.key key w.dirMap).getD default) ∧
      Accounted base w (before ++
        (held, g.next (.dirMapEntry key) ((lookup DirMapEntry.key key w.dirMap).getD default)) :: after) := by
  obtain ⟨hheld, hsome⟩ := h.self.dirFound key hkey
  obtain ⟨entry, hentry⟩ := Option.isSome_iff_exists.mp hsome
  obtain ⟨hmem, hentrykey⟩ := lookup_some hentry
  rw [hentry]
  refine ⟨⟨hentrykey, h.cursors entry hmem⟩, h.still rfl rfl rfl rfl rfl
    ⟨h.self.found, h.self.seen, h.self.dirFound, fun entry' hentry' => ?_, h.self.filling⟩⟩
  cases hentry'
  exact ⟨hheld, hentrykey.symm ▸ hentry⟩

/-- An entry and its reader go from the thread into the table; its list is still empty. -/
private theorem dirAdd {entry : DirMapEntry} (h : Accounted base w (before ++ (held, g) :: after))
    (hpermits : g.permits (.dirMapAdd entry)) (hheld : held ≠ 0)
    (hothers : ∀ x ∈ before ++ after, x.1 = 0) (hledger : w'.ledger = w.ledger)
    (hfd : w'.fdMap = w.fdMap) (hmap : w'.dirMap = entry :: w.dirMap) :
    Accounted base w' (before ++ (held, g.next (.dirMapAdd entry) ()) :: after) := by
  obtain ⟨hle, hfilling, hlist, hcurrent⟩ := hpermits
  have hempty : nodesHeld entry.dirEntryList = 0 := by
    rw [hlist]
    rfl
  refine h.change hothers hledger (fun table htable => ?_) ⟨?_, ?_, nofun, nofun, ?_⟩ ?_
  · rw [Hand.owed_none hfilling, add_zero] at htable
    obtain ⟨rest, hrest⟩ := Multiset.le_iff_exists_add.mp hle
    refine ⟨entryObjects entry + table, ?_, ?_⟩
    · rw [hmap, dirObjects, htable, Hand.owed, Hand.next, Option.elim_some, hempty, add_zero]
    · rw [hfd, Hand.next, hrest, add_tsub_cancel_left, entryObjects, hempty]
      simp only [← Multiset.singleton_add]
      abel
  · rw [hfd]
    exact h.self.found
  · rw [hfd]
    exact h.self.seen
  · rintro entry' hentry'
    cases hentry'
    rw [hmap]
    exact ⟨hheld, if_pos rfl, hcurrent⟩
  · rw [hmap, List.forall_mem_cons, hlist, hcurrent]
    exact ⟨List.suffix_rfl, h.cursors⟩

/-- They come back from it, with the nodes. -/
private theorem dirDel {entry : DirMapEntry} (h : Accounted base w (before ++ (held, g) :: after))
    (hfilling : g.filling = none) (hentry : g.dirSeen = some entry)
    (hothers : ∀ x ∈ before ++ after, x.1 = 0) (hledger : w'.ledger = w.ledger)
    (hfd : w'.fdMap = w.fdMap) (hmap : w'.dirMap = remove DirMapEntry.key entry.key w.dirMap) :
    Accounted base w' (before ++ (held, g.next (.dirMapDel entry.key) ()) :: after) := by
  refine h.change hothers hledger (fun table htable => ?_) ⟨?_, ?_, nofun, nofun, ?_⟩ ?_
  · rw [Hand.owed_none hfilling, add_zero] at htable
    have hheld : (g.next (.dirMapDel entry.key) ()).held = entryObjects entry + g.held := by
      rw [Hand.next, hentry]
      rfl
    have howed : (g.next (.dirMapDel entry.key) ()).owed = 0 := Hand.owed_none hfilling
    refine ⟨dirObjects w'.dirMap, ?_, ?_⟩
    · rw [howed, add_zero]
    · rw [← htable, dirObjects_remove (h.self.dirSeen entry hentry).2, hmap, hfd, hheld]
      abel
  · rw [hfd]
    exact h.self.found
  · rw [hfd]
    exact h.self.seen
  · rw [Hand.next, hfilling]
    nofun
  · rw [hmap]
    exact fun e he => h.cursors e ((remove_sublist entry.key w.dirMap).subset he)

/-- The list that is being filled changes; its nodes stay with the thread. -/
private theorem dirSetList {entry : DirMapEntry} {list : List SqfsDirEntryNode}
    (h : Accounted base w (before ++ (held, g) :: after)) (hentry : g.filling = some entry)
    (hothers : ∀ x ∈ before ++ after, x.1 = 0) (hledger : w'.ledger = w.ledger)
    (hfd : w'.fdMap = w.fdMap) (hmap : w'.dirMap =
      adjust DirMapEntry.key entry.key (fun e => { e with dirEntryList := list }) w.dirMap) :
    Accounted base w' (before ++ (held, g.next (.dirMapSetList entry.key list) ()) :: after) := by
  obtain ⟨hheld, hlookup, hcurrent⟩ := h.self.filling entry hentry
  refine h.change hothers hledger (fun table htable => ⟨table, ?_, ?_⟩) ⟨?_, ?_, nofun, nofun, ?_⟩ ?_
  · rw [Hand.owed, hentry, Option.elim_some] at htable
    rw [Hand.owed, Hand.next, hentry, Option.map_some, Option.elim_some, hmap]
    refine add_right_cancel (b := nodesHeld entry.dirEntryList) ?_
    rw [dirObjects_adjust (f := fun e => { e with dirEntryList := list }) hlookup fun _ => ⟨rfl, rfl⟩,
      htable]
    abel
  · rw [hfd]
    rfl
  · rw [hfd]
    exact h.self.found
  · rw [hfd]
    exact h.self.seen
  · rw [Hand.next, hentry]
    rintro entry' hentry'
    cases hentry'
    have hkey : ∀ e : DirMapEntry, { e with dirEntryList := list }.key = e.key := fun _ => rfl
    have hadjusted : lookup DirMapEntry.key entry.key w'.dirMap =
        some { entry with dirEntryList := list } := by
      rw [hmap, lookup_adjust_self hkey, hlookup, Option.map_some]
    exact ⟨hheld, hadjusted, hcurrent⟩
  · rw [hmap]
    intro e he
    rcases mem_adjust he with he | ⟨found, hfound, rfl⟩
    · exact h.cursors e he
    · have hsame : found = entry := Option.some.inj (hfound.symm.trans hlookup)
      rw [hsame, hcurrent]
      exact List.nil_suffix

/-- A change in place of an entry that has been seen, which leaves its list. -/
private theorem dirAdjust {entry : DirMapEntry} {f : DirMapEntry → DirMapEntry}
    (h : Accounted base w (before ++ (held, g) :: after)) (hfilling : g.filling = none)
    (hentry : g.dirSeen = some entry) (hothers : ∀ x ∈ before ++ after, x.1 = 0)
    (hledger : w'.ledger = w.ledger) (hfd : w'.fdMap = w.fdMap)
    (hmap : w'.dirMap = adjust DirMapEntry.key entry.key f w.dirMap)
    (hf : ∀ e, (f e).key = e.key ∧ (f e).addr = e.addr ∧ (f e).dirReader = e.dirReader ∧
      (f e).dirEntryList = e.dirEntryList)
    (hcursor : (f entry).dirEntryCurrent <:+ entry.dirEntryList) :
    Accounted base w' (before ++ (held, { g with dirSeen := g.dirSeen.map f }) :: after) := by
  obtain ⟨hheld, hlookup⟩ := h.self.dirSeen entry hentry
  have hkeys : w'.dirMap.map DirMapEntry.key = w.dirMap.map DirMapEntry.key := by
    rw [hmap]
    exact map_adjust (fun e => (hf e).1) entry.key w.dirMap
  refine h.change hothers hledger (fun table htable => ⟨table, ?_, ?_⟩) ⟨?_, ?_, ?_, ?_, ?_⟩ ?_
  · rw [hmap]
    refine .trans ?_ htable
    refine add_right_cancel (b := nodesHeld entry.dirEntryList) ?_
    rw [dirObjects_adjust hlookup fun e => ⟨(hf e).2.1, (hf e).2.2.1⟩, (hf entry).2.2.2]
  · rw [hfd]
  · rw [hfd]
    exact h.self.found
  · rw [hfd]
    exact h.self.seen
  · intro key hkey
    refine (h.self.dirFound key hkey).imp_right fun hsome => ?_
    rw [Option.isSome_iff_ne_none, Ne, lookup_eq_none, not_not] at hsome ⊢
    exact hkeys ▸ hsome
  · rw [hentry]
    rintro entry' hentry'
    cases hentry'
    refine ⟨hheld, ?_⟩
    rw [hmap, (hf entry).1, lookup_adjust_self fun e => (hf e).1, hlookup]
    rfl
  · rw [hfilling]
    nofun
  · rw [hmap]
    intro e he
    rcases mem_adjust he with he | ⟨found, hfound, rfl⟩
    · exact h.cursors e he
    · have hsame : found = entry := Option.some.inj (hfound.symm.trans hlookup)
      rw [hsame, (hf entry).2.2.2]
      exact hcursor

/-- The nodes of the list that was filled stay in the table. -/
private theorem unlock (h : Accounted base w (before ++ (held, g) :: after))
    (hpermits : g.owed ≤ g.held) (hothers : held ≠ 0 → ∀ x ∈ before ++ after, x.1 = 0)
    (hledger : w'.ledger = w.ledger) (hfd : w'.fdMap = w.fdMap) (hdir : w'.dirMap = w.dirMap) :
    Accounted base w' (before ++ (held', g.next .unlock ()) :: after) := by
  have howed : (g.next .unlock ()).owed = 0 := Hand.owed_none (g := .empty _) rfl
  by_cases hheld : held = 0
  · have hnone : g.owed = 0 := h.self.owed_of_free hheld
    have hsame : (g.next .unlock ()).held = g.held := by
      rw [Hand.next, hnone]
      exact tsub_zero g.held
    exact h.still hledger hfd hdir hsame (howed.trans hnone.symm) (.empty _ _)
  · refine h.change (hothers hheld) hledger (fun table htable => ⟨table + g.owed, ?_, ?_⟩) (.empty _ _)
      (hdir ▸ h.cursors)
    · rw [hdir, htable, howed, add_zero]
    · obtain ⟨rest, hrest⟩ := Multiset.le_iff_exists_add.mp hpermits
      rw [hfd, Hand.next, Hand.empty, hrest, add_tsub_cancel_left]
      abel

/-- A permitted request of one thread. -/
private theorem request {o : Oracle} {e : Req} (h : Accounted base w (before ++ (held, g) :: after))
    (hpermits : g.permits e) (hneeds : guarded e = true → held ≠ 0)
    (hothers : held ≠ 0 → ∀ x ∈ before ++ after, x.1 = 0) :
    Hand.told e (World.handle o w e).1 ∧ Accounted base (World.handle o w e).2
      (before ++ (managerLocking.after (.hook e) held, g.next e (World.handle o w e).1) :: after) := by
  cases e with
  | call c => exact ⟨trivial, h.call hpermits o _⟩
  | fdMapFind key => exact ⟨trivial, h.find (hneeds rfl) key⟩
  | fdMapEntry key => exact h.entry hpermits
  | fdMapAdd entry => exact ⟨trivial, h.add hpermits (hothers (hneeds rfl)) rfl rfl rfl⟩
  | fdMapDel key =>
    obtain ⟨entry, hentry, rfl⟩ := hpermits
    exact ⟨trivial, h.del hentry (hothers (hneeds rfl)) rfl rfl rfl⟩
  | fdMapSetOffset key offset =>
    obtain ⟨entry, hentry, rfl⟩ := hpermits
    exact ⟨trivial, h.setOffset hentry (hothers (hneeds rfl)) rfl rfl rfl⟩
  | dirMapFind key => exact ⟨trivial, h.dirFind (hneeds rfl) key⟩
  | dirMapEntry key => exact h.dirEntry hpermits.2
  | dirMapAdd entry =>
    have hheld : held ≠ 0 := hneeds rfl
    exact ⟨trivial, h.dirAdd hpermits hheld (hothers hheld) rfl rfl rfl⟩
  | dirMapDel key =>
    obtain ⟨hfilling, entry, hentry, rfl⟩ := hpermits
    exact ⟨trivial, h.dirDel hfilling hentry (hothers (hneeds rfl)) rfl rfl rfl⟩
  | dirMapSetList key list =>
    obtain ⟨-, entry, hentry, rfl⟩ := hpermits
    exact ⟨trivial, h.dirSetList hentry (hothers (hneeds rfl)) rfl rfl rfl⟩
  | dirMapSetCurrent key current =>
    obtain ⟨hfilling, entry, hentry, rfl, hcurrent⟩ := hpermits
    exact ⟨trivial, h.dirAdjust hfilling hentry (hothers (hneeds rfl)) rfl rfl rfl
      (fun _ => ⟨rfl, rfl, rfl, rfl⟩) hcurrent⟩
  | dirMapSetReachedEnd key =>
    obtain ⟨hfilling, entry, hentry, rfl⟩ := hpermits
    have hcursor := h.cursors entry (lookup_some (h.self.dirSeen entry hentry).2).1
    exact ⟨trivial, h.dirAdjust hfilling hentry (hothers (hneeds rfl)) rfl rfl rfl
      (fun _ => ⟨rfl, rfl, rfl, rfl⟩) hcursor⟩
  | lock => exact ⟨trivial, h.idle rfl rfl rfl fun _ => Nat.succ_ne_zero _⟩
  | unlock => exact ⟨trivial, h.unlock hpermits hothers rfl rfl rfl⟩
  | getenv v => cases v <;> exact ⟨trivial, h.idle rfl rfl rfl id⟩
  | _ => exact ⟨trivial, h.idle rfl rfl rfl id⟩

end Accounted

section
variable {o : Oracle} {i : Nat → ImageOracle} {base : World} {entries : Bool}

theorem memoryContract_upheld : (threadMachine o i).Upholds (memoryContract entries)
    (fun e _ => readsEntry e = true → entries = true) fun s xs => Accounted base s.world xs where
  serves := by
    intro s n l before after held g e h hpermits _ hothers hneeds hgrants
    cases e with
    | hook e =>
      have henter : Accounted base { s.world with errno := l, caller := n }
          (before ++ (held, g) :: after) := h.idle rfl rfl rfl id
      have hguarded : guarded e = true → held ≠ 0 := by
        intro he
        cases e with
        | lock => cases he
        | _ => exact hneeds rfl he
      obtain ⟨htold, haccounted⟩ := henter.request (o := o) hpermits hguarded hothers
      exact ⟨_, ⟨htold, hgrants, rfl⟩, haccounted⟩
    | _ => exact hpermits.elim

end

end HookSqfs.Hooks
