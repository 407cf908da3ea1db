import HookSqfs.Hooks.DirGhost

/-! Who has which stream, and which streams `dir_map` has: what a request of one call
keeps for all of them. -/
namespace HookSqfs.Hooks
open Manager Interaction Tables
variable {o : Oracle}

/-- The key and the mark of an entry. -/
def mark (e : DirMapEntry) : Nat × Bool := (e.key, e.isRealDir)

theorem dirKeys_eq (w : World) : dirKeys w = (w.dirMap.map mark).map Prod.fst := by
  rw [List.map_map]
  rfl

/-- What a request does to the streams and to the keys and marks of `dir_map`. -/
inductive DirEffect (w v : World) : (e : Req) → Answer e → Prop where
  | opened {name : Option CString} {stream : DirStream} (hnew : w.streams stream.addr = none)
      (hstreams : v.streams = Function.update w.streams stream.addr (some stream))
      (hmap : v.dirMap = w.dirMap) : DirEffect w v (.call (.opendir name)) (.ok stream)
  | closed {dir : Nat} {a : Except Errno Unit}
      (hstreams : v.streams = Function.update w.streams dir none)
      (hmap : v.dirMap = w.dirMap) : DirEffect w v (.call (.closedir dir)) a
  | added {entry : DirMapEntry} (hstreams : v.streams = w.streams)
      (hmap : v.dirMap = entry :: w.dirMap) : DirEffect w v (.dirMapAdd entry) ()
  | removed {key : Nat} (hstreams : v.streams = w.streams)
      (hmap : v.dirMap = remove DirMapEntry.key key w.dirMap) : DirEffect w v (.dirMapDel key) ()
  | looked {key : Nat} (hstreams : v.streams = w.streams) (hmap : v.dirMap = w.dirMap) :
      DirEffect w v (.dirMapFind key) (lookup DirMapEntry.key key w.dirMap).isSome
  | quiet {e : Req} {a : Answer e} (hstreams : ∀ dir, v.streams dir = none ↔ w.streams dir = none)
      (hmap : v.dirMap.map mark = w.dirMap.map mark)
      (hhold : ∀ hold, DirGhost.holdAfter hold e a = hold)
      (howner : ∀ owner n, DirWorld.ownerAfter owner n e a = owner)
      (hinserted : ∀ u : DirWorld, (u.recorded e a v).insertedBy = u.insertedBy) :
      DirEffect w v e a

private theorem DirEffect.same {w v : World} {e : Req} {a : Answer e}
    (hstreams : v.streams = w.streams) (hmap : v.dirMap.map mark = w.dirMap.map mark)
    (hhold : ∀ hold, DirGhost.holdAfter hold e a = hold)
    (howner : ∀ owner n, DirWorld.ownerAfter owner n e a = owner)
    (hinserted : ∀ u : DirWorld, (u.recorded e a v).insertedBy = u.insertedBy) :
    DirEffect w v e a := by
  refine .quiet (fun dir => ?_) hmap hhold howner hinserted
  rw [hstreams]

private theorem effect_call (w : World) (c : Ext) :
    DirEffect w (w.afterCall o c (w.outcome o c)) (.call c) (w.outcome o c) := by
  have hother (hc : c.fn.onStreams = false)
      (hhold : ∀ hold, DirGhost.holdAfter hold (.call c) (w.outcome o c) = hold)
      (howner : ∀ owner n, DirWorld.ownerAfter owner n (.call c) (w.outcome o c) = owner) :
      DirEffect w (w.afterCall o c (w.outcome o c)) (.call c) (w.outcome o c) :=
    .same (w.afterCall_streams o c _ hc) (congrArg _ (w.afterCall_dirMap o c _)) hhold howner
      fun _ => rfl
  cases c with
  | opendir name =>
    cases hs : w.outcome o (.opendir name) with
    | error e =>
      exact .same rfl (congrArg _ (w.afterCall_dirMap o (.opendir name) (.error e)))
        (fun _ => rfl) (fun _ _ => rfl) fun _ => rfl
    | ok stream =>
      exact .opened (World.grantStream_ok hs).2 rfl (w.afterCall_dirMap o (.opendir name) (.ok stream))
  | readdir dirp =>
    refine .quiet (fun dir => ?_) (congrArg _ (w.afterCall_dirMap o (.readdir dirp) _))
      (fun _ => rfl) (fun _ _ => rfl) fun _ => rfl
    change Function.update w.streams dirp _ dir = none ↔ _
    by_cases hd : dir = dirp
    · rw [hd, Function.update_self, Option.map_eq_none_iff]
    · rw [Function.update_of_ne hd]
  | closedir dir => exact .closed rfl (w.afterCall_dirMap o (.closedir dir) _)
  | _ => exact hother rfl (fun _ => rfl) fun _ _ => rfl

theorem effect_handle (w : World) (e : Req) :
    DirEffect w (World.handle o w e).2 e (World.handle o w e).1 := by
  cases e with
  | call c => exact effect_call w c
  | getenv v => cases v <;> exact .same rfl rfl (fun _ => rfl) (fun _ _ => rfl) fun _ => rfl
  | dirMapAdd entry => exact .added rfl rfl
  | dirMapDel key => exact .removed rfl rfl
  | dirMapFind key => exact .looked rfl rfl
  | dirMapSetList key list =>
    refine .same rfl ?_ (fun _ => rfl) (fun _ _ => rfl) fun _ => rfl
    apply map_adjust
    intro e
    rfl
  | dirMapSetCurrent key current =>
    refine .same rfl ?_ (fun _ => rfl) (fun _ _ => rfl) fun _ => rfl
    apply map_adjust
    intro e
    rfl
  | dirMapSetReachedEnd key =>
    refine .same rfl ?_ (fun _ => rfl) (fun _ _ => rfl) fun _ => rfl
    apply map_adjust
    intro e
    rfl
  | _ => exact .same rfl rfl (fun _ => rfl) (fun _ _ => rfl) fun _ => rfl

/-- What it means that a call has the hold `h` on a stream. -/
structure Hold.Stands (w : DirWorld) (n dir : Nat) (h : Hold) : Prop where
  owner : h ≠ .unknown → w.owner dir = some (.call n)
  free : h = .free → dir ∉ dirKeys w.world
  mapped : h = .mapped → dir ∈ dirKeys w.world

namespace Hold.Stands
variable {w w' : DirWorld} {n dir : Nat} {h : Hold}

theorem unknown : Hold.Stands w n dir .unknown := ⟨fun hn => absurd rfl hn, nofun, nofun⟩

theorem congr (hs : h.Stands w n dir) (howner : w'.owner dir = w.owner dir)
    (hkeys : dir ∈ dirKeys w'.world ↔ dir ∈ dirKeys w.world) : h.Stands w' n dir where
  owner hn := howner.trans (hs.owner hn)
  free hf := fun hmem => hs.free hf (hkeys.mp hmem)
  mapped hm := hkeys.mpr (hs.mapped hm)

/-- A stream that is not the call's. -/
theorem eq_unknown (hs : h.Stands w n dir) (howner : w.owner dir ≠ some (.call n)) : h = .unknown := by
  by_contra hn
  exact howner (hs.owner hn)

end Hold.Stands

/-- The entry was made by an `opendir`, and it is marked real exactly where its stream is
the one that the real `opendir` of that path gave. -/
def Inserted (w : DirWorld) (γ : Nat → Option DirGhost) (m : Nat × Bool) : Prop :=
  ∃ n g name real, w.insertedBy m.1 = some n ∧ γ n = some g ∧ g.call = some (.opendir name) ∧
    g.ledger.real = some (name, real) ∧ m.2 = real.isSome ∧ ∀ dir, real = some dir → m.1 = dir

/-- Every open stream has an owner, the keys of `dir_map` are distinct open streams, and
each call knows what it thinks it knows of them. -/
structure DirOwned (w : DirWorld) (γ : Nat → Option DirGhost) : Prop where
  distinct : (dirKeys w.world).Nodup
  owned : ∀ dir, w.world.streams dir = none ↔ w.owner dir = none
  opened : ∀ key ∈ dirKeys w.world, w.world.streams key ≠ none
  marked : ∀ m ∈ w.world.dirMap.map mark, Inserted w γ m
  holds : ∀ n g dir, γ n = some g → (g.hold dir).Stands w n dir

theorem real_after {ledger : CallLedger} {x : Option CString × Option Nat} (h : ledger.real = some x)
    (e : Req) (a : Answer e) : (ledger.after e a).real = some x := by
  cases e with
  | call c =>
    change ledger.real.or (c.opened a) = some x
    rw [h]
    rfl
  | _ => exact h

namespace DirOwned
variable {w : DirWorld} {γ : Nat → Option DirGhost} {g : DirGhost} {e : Req} {a : Answer e}
  {v : World}

private theorem inserted_request {m : Nat × Bool} (hm : Inserted w γ m)
    (hg : γ w.world.caller = some g)
    (hinserted : (w.recorded e a v).insertedBy m.1 = w.insertedBy m.1) :
    Inserted (w.recorded e a v) (Function.update γ w.world.caller (some (g.after e a))) m := by
  obtain ⟨n, g', name, real, hn, hg', hcall, hreal, hmark⟩ := hm
  by_cases hcaller : n = w.world.caller
  · rw [hcaller, hg] at hg'
    cases hg'
    refine ⟨n, g.after e a, name, real, hinserted.trans hn, ?_, hcall, ?_, hmark⟩
    · rw [hcaller, Function.update_self]
    · exact real_after hreal e a
  · refine ⟨n, g', name, real, hinserted.trans hn, ?_, hcall, hreal, hmark⟩
    rw [Function.update_of_ne hcaller]
    exact hg'

/-- Of a stream that one call has, the others know nothing. -/
private theorem others_unknown (h : DirOwned w γ) {n m dir : Nat} {g : DirGhost}
    (howner : w.owner dir = some (.call m)) (hn : n ≠ m) (hg : γ n = some g) :
    g.hold dir = .unknown := by
  apply (h.holds n g dir hg).eq_unknown
  rw [howner]
  exact fun he => hn (Owner.call.inj (Option.some.inj he)).symm

/-- A request that changes what its call knows of one stream, on which no other call has
a hold. -/
private theorem holds_request (h : DirOwned w γ) (hg : γ w.world.caller = some g) {w' : DirWorld}
    {g' : DirGhost} {x : Nat} {hx : Hold} (hhold : g'.hold = Function.update g.hold x hx)
    (hself : hx.Stands w' w.world.caller x)
    (hothers : ∀ n g, n ≠ w.world.caller → γ n = some g → g.hold x = .unknown)
    (howner : ∀ dir, dir ≠ x → w'.owner dir = w.owner dir)
    (hkeys : ∀ dir, dir ≠ x → (dir ∈ dirKeys w'.world ↔ dir ∈ dirKeys w.world)) :
    ∀ n g dir, Function.update γ w.world.caller (some g') n = some g →
      (g.hold dir).Stands w' n dir := by
  intro n g₁ dir hg₁
  by_cases hn : n = w.world.caller
  · rw [hn, Function.update_self] at hg₁
    cases hg₁
    rw [hn, hhold]
    by_cases hd : dir = x
    · rw [hd, Function.update_self]
      exact hself
    · rw [Function.update_of_ne hd]
      exact (h.holds _ g dir hg).congr (howner dir hd) (hkeys dir hd)
  · rw [Function.update_of_ne hn] at hg₁
    by_cases hd : dir = x
    · rw [hd, hothers n g₁ hn hg₁]
      exact .unknown
    · exact (h.holds n g₁ dir hg₁).congr (howner dir hd) (hkeys dir hd)

private theorem opened_keys (hmap : v.dirMap = w.world.dirMap) :
    dirKeys (w.recorded e a v).world = dirKeys w.world :=
  congrArg (List.map DirMapEntry.key) hmap

private theorem request_opendir (h : DirOwned w γ) (hg : γ w.world.caller = some g)
    {name : Option CString} {stream : DirStream} (hnew : w.world.streams stream.addr = none)
    (hstreams : v.streams = Function.update w.world.streams stream.addr (some stream))
    (hmap : v.dirMap = w.world.dirMap) :
    DirOwned (w.recorded (.call (.opendir name)) (.ok stream) v)
      (Function.update γ w.world.caller (some (g.after (.call (.opendir name)) (.ok stream)))) := by
  have hkeys : dirKeys (w.recorded (.call (.opendir name)) (.ok stream) v).world =
    dirKeys w.world := opened_keys hmap
  refine ⟨?_, ?_, ?_, ?_, h.holds_request hg rfl ?_ ?_ (fun _ hd => Function.update_of_ne hd ..) ?_⟩
  · rw [hkeys]
    exact h.distinct
  · intro dir
    change v.streams dir = none ↔ Function.update w.owner stream.addr _ dir = none
    rw [hstreams]
    by_cases hd : dir = stream.addr
    · rw [hd, Function.update_self, Function.update_self]
      exact iff_of_false nofun nofun
    · rw [Function.update_of_ne hd, Function.update_of_ne hd]
      exact h.owned dir
  · intro key hkey
    change v.streams key ≠ none
    rw [hkeys] at hkey
    rw [hstreams]
    by_cases hk : key = stream.addr
    · rw [hk, Function.update_self]
      exact nofun
    · rw [Function.update_of_ne hk]
      exact h.opened key hkey
  · intro m hm
    change m ∈ v.dirMap.map mark at hm
    rw [hmap] at hm
    exact inserted_request (h.marked m hm) hg rfl
  · refine ⟨fun _ => Function.update_self .., fun _ hmem => ?_, nofun⟩
    rw [hkeys] at hmem
    exact h.opened _ hmem hnew
  · intro n g' _ hg'
    have hnone : w.owner stream.addr = none := (h.owned _).mp hnew
    exact (h.holds n g' _ hg').eq_unknown (hnone ▸ nofun)
  · intro d _
    rw [hkeys]

private theorem request_closedir (h : DirOwned w γ) (hg : γ w.world.caller = some g) {dir : Nat}
    {ret : Except Errno Unit} (hfree : g.hold dir = .free)
    (hstreams : v.streams = Function.update w.world.streams dir none)
    (hmap : v.dirMap = w.world.dirMap) :
    DirOwned (w.recorded (.call (.closedir dir)) ret v)
      (Function.update γ w.world.caller (some (g.after (.call (.closedir dir)) ret))) := by
  have hkeys : dirKeys (w.recorded (.call (.closedir dir)) ret v).world = dirKeys w.world :=
    opened_keys hmap
  have hstands := h.holds _ g dir hg
  rw [hfree] at hstands
  refine ⟨?_, ?_, ?_, ?_, h.holds_request hg rfl .unknown ?_
    (fun _ hd => Function.update_of_ne hd ..) ?_⟩
  · rw [hkeys]
    exact h.distinct
  · intro d
    change v.streams d = none ↔ Function.update w.owner dir none d = none
    rw [hstreams]
    by_cases hd : d = dir
    · rw [hd, Function.update_self, Function.update_self]
      exact iff_of_true rfl rfl
    · rw [Function.update_of_ne hd, Function.update_of_ne hd]
      exact h.owned d
  · intro key hkey
    change v.streams key ≠ none
    rw [hkeys] at hkey
    have hk : key ≠ dir := fun he => hstands.free rfl (he ▸ hkey)
    rw [hstreams, Function.update_of_ne hk]
    exact h.opened key hkey
  · intro m hm
    change m ∈ v.dirMap.map mark at hm
    rw [hmap] at hm
    exact inserted_request (h.marked m hm) hg rfl
  · exact fun n g' hn hg' => h.others_unknown (hstands.owner nofun) hn hg'
  · intro d _
    rw [hkeys]

private theorem request_add (h : DirOwned w γ) (hg : γ w.world.caller = some g)
    {entry : DirMapEntry} (hallows : g.Allows (.dirMapAdd entry))
    (hstreams : v.streams = w.world.streams) (hmap : v.dirMap = entry :: w.world.dirMap) :
    DirOwned (w.recorded (.dirMapAdd entry) () v)
      (Function.update γ w.world.caller (some (g.after (.dirMapAdd entry) ()))) := by
  obtain ⟨hfree, name, real, hcall, hreal, hmark⟩ := hallows
  have hstands := h.holds _ g entry.key hg
  rw [hfree] at hstands
  have howner := hstands.owner nofun
  have hkeys : dirKeys (w.recorded (.dirMapAdd entry) () v).world = entry.key :: dirKeys w.world :=
    congrArg (List.map DirMapEntry.key) hmap
  refine ⟨?_, ?_, ?_, ?_, h.holds_request hg rfl ⟨fun _ => howner, nofun, fun _ => ?_⟩
    (fun n g' hn hg' => h.others_unknown howner hn hg') (fun _ _ => rfl) ?_⟩
  · rw [hkeys, List.nodup_cons]
    exact ⟨hstands.free rfl, h.distinct⟩
  · intro d
    change v.streams d = none ↔ w.owner d = none
    rw [hstreams]
    exact h.owned d
  · intro key hkey
    change v.streams key ≠ none
    rw [hstreams]
    rw [hkeys] at hkey
    rcases List.mem_cons.mp hkey with rfl | hkey
    · intro hnone
      rw [(h.owned _).mp hnone] at howner
      cases howner
    · exact h.opened key hkey
  · intro m hm
    change m ∈ v.dirMap.map mark at hm
    rw [hmap, List.map_cons] at hm
    rcases List.mem_cons.mp hm with rfl | hm
    · exact ⟨_, _, name, real, Function.update_self .., Function.update_self .., hcall, hreal, hmark⟩
    · have hmem : m.1 ∈ dirKeys w.world := by
        rw [dirKeys_eq]
        exact List.mem_map_of_mem hm
      have hne : m.1 ≠ entry.key := fun he => hstands.free rfl (he ▸ hmem)
      exact inserted_request (h.marked m hm) hg (Function.update_of_ne hne ..)
  · rw [hkeys]
    exact List.mem_cons_self
  · intro d hd
    rw [hkeys, List.mem_cons]
    exact or_iff_right hd

private theorem request_del (h : DirOwned w γ) (hg : γ w.world.caller = some g) {key : Nat}
    (hmapped : g.hold key = .mapped) (hstreams : v.streams = w.world.streams)
    (hmap : v.dirMap = remove DirMapEntry.key key w.world.dirMap) :
    DirOwned (w.recorded (.dirMapDel key) () v)
      (Function.update γ w.world.caller (some (g.after (.dirMapDel key) ()))) := by
  have hstands := h.holds _ g key hg
  rw [hmapped] at hstands
  have howner := hstands.owner nofun
  have hkeys : dirKeys (w.recorded (.dirMapDel key) () v).world =
      (remove DirMapEntry.key key w.world.dirMap).map DirMapEntry.key :=
    congrArg (List.map DirMapEntry.key) hmap
  refine ⟨?_, ?_, ?_, ?_, h.holds_request hg rfl ⟨fun _ => howner, fun _ hmem => ?_, nofun⟩
    (fun n g' hn hg' => h.others_unknown howner hn hg') (fun _ _ => rfl) ?_⟩
  · rw [hkeys]
    exact nodup_remove h.distinct
  · intro d
    change v.streams d = none ↔ w.owner d = none
    rw [hstreams]
    exact h.owned d
  · intro k hk
    change v.streams k ≠ none
    rw [hstreams]
    rw [hkeys] at hk
    exact h.opened k (((remove_sublist key w.world.dirMap).map _).subset hk)
  · intro m hm
    change m ∈ v.dirMap.map mark at hm
    rw [hmap] at hm
    exact inserted_request (h.marked m (((remove_sublist key w.world.dirMap).map _).subset hm)) hg rfl
  · rw [hkeys] at hmem
    exact lookup_eq_none.mp (lookup_remove_self h.distinct) hmem
  · intro d hd
    have hsame : lookup DirMapEntry.key d (remove DirMapEntry.key key w.world.dirMap) =
      lookup DirMapEntry.key d w.world.dirMap := lookup_remove_ne hd _
    rw [hkeys, ← not_iff_not, ← lookup_eq_none, hsame, lookup_eq_none]
    rfl

/-- A look-up tells the call whether its stream is mapped. -/
private theorem request_find (h : DirOwned w γ) (hg : γ w.world.caller = some g) {key : Nat}
    (hstreams : v.streams = w.world.streams) (hmap : v.dirMap = w.world.dirMap) :
    DirOwned (w.recorded (.dirMapFind key) (lookup DirMapEntry.key key w.world.dirMap).isSome v)
      (Function.update γ w.world.caller (some (g.after (.dirMapFind key)
        (lookup DirMapEntry.key key w.world.dirMap).isSome))) := by
  generalize hf : (lookup DirMapEntry.key key w.world.dirMap).isSome = found
  have hkeys : dirKeys (w.recorded (.dirMapFind key) found v).world = dirKeys w.world :=
    opened_keys hmap
  have hfound : found = true ↔ key ∈ dirKeys w.world := by
    rw [← hf, Option.isSome_iff_ne_none, ← not_iff_not, not_not, lookup_eq_none]
    rfl
  refine ⟨?_, ?_, ?_, ?_, ?_⟩
  · rw [hkeys]
    exact h.distinct
  · intro d
    change v.streams d = none ↔ w.owner d = none
    rw [hstreams]
    exact h.owned d
  · intro k hk
    change v.streams k ≠ none
    rw [hstreams]
    rw [hkeys] at hk
    exact h.opened k hk
  · intro m hm
    change m ∈ v.dirMap.map mark at hm
    rw [hmap] at hm
    exact inserted_request (h.marked m hm) hg rfl
  · intro n g₁ d hg₁
    have hold {n : Nat} {g : DirGhost} (hg : γ n = some g) (d : Nat) :
        (g.hold d).Stands (w.recorded (.dirMapFind key) found v) n d :=
      (h.holds n g d hg).congr rfl (by rw [hkeys])
    by_cases hn : n = w.world.caller
    · rw [hn, Function.update_self] at hg₁
      cases hg₁
      rw [hn]
      change (Function.update g.hold key ((g.hold key).found found) d).Stands _ _ _
      by_cases hd : d = key
      · rw [hd, Function.update_self]
        have hstands := hold hg key
        generalize g.hold key = known at hstands ⊢
        cases known with
        | held =>
          cases found with
          | true => exact ⟨fun _ => hstands.owner nofun, nofun, fun _ => hkeys ▸ hfound.mp rfl⟩
          | false =>
            refine ⟨fun _ => hstands.owner nofun, fun _ hmem => ?_, nofun⟩
            exact absurd (hfound.mpr (hkeys ▸ hmem)) Bool.false_ne_true
        | unknown => exact hstands
        | free => exact hstands
        | mapped => exact hstands
      · rw [Function.update_of_ne hd]
        exact hold hg d
    · rw [Function.update_of_ne hn] at hg₁
      exact hold hg₁ d

/-- A request that changes none of this. -/
private theorem request_quiet (h : DirOwned w γ) (hg : γ w.world.caller = some g)
    (hstreams : ∀ dir, v.streams dir = none ↔ w.world.streams dir = none)
    (hmap : v.dirMap.map mark = w.world.dirMap.map mark)
    (hhold : ∀ hold, DirGhost.holdAfter hold e a = hold)
    (howner : ∀ owner n, DirWorld.ownerAfter owner n e a = owner)
    (hinserted : ∀ u : DirWorld, (u.recorded e a v).insertedBy = u.insertedBy) :
    DirOwned (w.recorded e a v) (Function.update γ w.world.caller (some (g.after e a))) := by
  have hkeys : dirKeys (w.recorded e a v).world = dirKeys w.world := by
    rw [dirKeys_eq, dirKeys_eq]
    exact congrArg (List.map Prod.fst) hmap
  have howner' : (w.recorded e a v).owner = w.owner := howner w.owner _
  refine ⟨?_, ?_, ?_, ?_, ?_⟩
  · rw [hkeys]
    exact h.distinct
  · intro d
    rw [howner']
    exact (hstreams d).trans (h.owned d)
  · intro k hk
    rw [hkeys] at hk
    exact fun hnone => h.opened k hk ((hstreams k).mp hnone)
  · intro m hm
    change m ∈ v.dirMap.map mark at hm
    rw [hmap] at hm
    exact inserted_request (h.marked m hm) hg (congrFun (hinserted w) m.1)
  · intro n g₁ d hg₁
    by_cases hn : n = w.world.caller
    · rw [hn, Function.update_self] at hg₁
      cases hg₁
      rw [hn]
      change (DirGhost.holdAfter g.hold e a d).Stands _ _ _
      rw [hhold]
      exact (h.holds _ g d hg).congr (congrFun howner' d) (by rw [hkeys])
    · rw [Function.update_of_ne hn] at hg₁
      exact (h.holds n g₁ d hg₁).congr (congrFun howner' d) (by rw [hkeys])

/-- Every allowed request keeps the ownership. -/
theorem request (h : DirOwned w γ) (hg : γ w.world.caller = some g) (hallows : g.Allows e)
    (heffect : DirEffect w.world v e a) :
    DirOwned (w.recorded e a v) (Function.update γ w.world.caller (some (g.after e a))) := by
  cases heffect with
  | opened hnew hstreams hmap => exact h.request_opendir hg hnew hstreams hmap
  | closed hstreams hmap => exact h.request_closedir hg hallows hstreams hmap
  | added hstreams hmap => exact h.request_add hg hallows hstreams hmap
  | removed hstreams hmap => exact h.request_del hg hallows hstreams hmap
  | looked hstreams hmap => exact h.request_find hg hstreams hmap
  | quiet hstreams hmap hhold howner hinserted =>
    exact h.request_quiet hg hstreams hmap hhold howner hinserted

end DirOwned
end HookSqfs.Hooks
