import HookSqfs.Hooks.DirCalls
import HookSqfs.Hooks.DirOwnership
import HookSqfs.Interaction.Discipline
import Mathlib.Data.List.Forall2

/-! The discipline of the calls on directories, whatever their interleaving. -/
namespace HookSqfs.Hooks
open Manager Interaction Tables
variable {o : Oracle} {w₀ : World}

/-- A request that writes `dir_map`, and the map before and after it. -/
def Explains (e : Req) (change : List DirMapEntry × List DirMapEntry) : Prop :=
  ∀ key, e = .dirMapDel key → key ∈ change.1.map DirMapEntry.key ∧
    change.2 = remove DirMapEntry.key key change.1

/-- The ghost state of a call that has begun agrees with the record of what it has done. -/
structure Recorded (w : DirWorld) (n : Nat) (g : DirGhost) : Prop where
  call : w.calls n = g.call
  ledger : w.ledgers n = g.ledger
  finds : (w.looks n).map (fun look => (look.1, (lookup DirMapEntry.key look.1 look.2).isSome)) =
    g.finds
  writes : List.Forall₂ Explains g.writes (w.changes n)
  errno : ∀ e, g.errno = some e → w.errnos n = e

/-- The invariant. The environment and the image are those of `w₀`. -/
structure DirInv (w₀ : World) (w : DirWorld) (γ : Nat → Option DirGhost) : Prop where
  env : w.world.env = w₀.env
  mgr : w.world.mgr = w₀.mgr
  owned : DirOwned w γ
  recorded : ∀ n, ∃ g, γ n = some g ∧ (g.call ≠ none → Recorded w n g)

/-- What the call that is at work knows of its `errno` is right. -/
def DirActing (n : Nat) (s : Option DirGhost) (w : DirWorld) : Prop :=
  w.world.caller = n ∧ ∀ g e, s = some g → g.errno = some e → w.world.errno = e

theorem handle_unchanged (w : World) (e : Req) :
    (World.handle o w e).2.env = w.env ∧ (World.handle o w e).2.mgr = w.mgr ∧
      (World.handle o w e).2.caller = w.caller := by
  cases e with
  | getenv v => cases v <;> exact ⟨rfl, rfl, rfl⟩
  | call c => exact ⟨w.afterCall_env o c _, w.afterCall_mgr o c _, w.afterCall_caller o c _⟩
  | _ => exact ⟨rfl, rfl, rfl⟩

/-- What is known of `errno` after a request is right. -/
private theorem errnoAfter_sound {known : Option Errno} {w : World} {e : Req} {x : Errno}
    (hknown : ∀ x, known = some x → w.errno = x)
    (hx : DirGhost.errnoAfter known e (World.handle o w e).1 = some x) :
    (World.handle o w e).2.errno = x := by
  cases e with
  | getenv v => cases v <;> exact hknown x hx
  | setErrno e => exact Option.some.inj hx
  | getErrno => exact Option.some.inj hx
  | call c =>
    change ((c.failure (w.outcome o c)).getD _) = x
    change c.failure (w.outcome o c) = some x at hx
    rw [hx]
    rfl
  | _ => exact hknown x hx

private theorem DirInv.plausible {w : DirWorld} {γ : Nat → Option DirGhost} {g : DirGhost}
    (h : DirInv w₀ w γ) (hg : γ w.world.caller = some g)
    (herrno : ∀ e, g.errno = some e → w.world.errno = e) (e : Req) :
    g.Plausible w₀ e (World.handle o w.world e).1 := by
  cases e with
  | getenv v =>
    cases v with
    | hooksqfsPrefix => exact congrArg Env.hooksqfsPrefix h.env
    | hooksqfsFile => exact congrArg Env.hooksqfsFile h.env
    | hooksqfsLogInclude => trivial
  | getMgr => exact h.mgr
  | getErrno => exact herrno
  | dirMapEntry key =>
    intro hmapped
    have hmem := (h.owned.holds _ g key hg).mapped hmapped
    have hfound : lookup DirMapEntry.key key w.world.dirMap ≠ none :=
      fun hnone => lookup_eq_none.mp hnone hmem
    obtain ⟨entry, hentry⟩ := Option.ne_none_iff_exists'.mp hfound
    change ((lookup DirMapEntry.key key w.world.dirMap).getD default).key = key
    rw [hentry]
    exact (lookup_some hentry).2
  | _ => trivial

/-- The record of the call that makes an allowed request. -/
private theorem Recorded.request {w : DirWorld} {γ : Nat → Option DirGhost} {g : DirGhost} {e : Req}
    (h : Recorded w w.world.caller g) (howned : DirOwned w γ) (hg : γ w.world.caller = some g)
    (hallows : g.Allows e) (herrno : ∀ e, g.errno = some e → w.world.errno = e) :
    Recorded (DirWorld.handle o w e).2 w.world.caller
      (g.after e (DirWorld.handle o w e).1) where
  call := h.call
  ledger := by
    change Function.update w.ledgers w.world.caller _ w.world.caller = _
    rw [Function.update_self, h.ledger]
    rfl
  finds := by
    cases e with
    | dirMapFind key =>
      change (Function.update w.looks w.world.caller _ w.world.caller).map _ = g.finds ++ [_]
      rw [Function.update_self, List.map_append, h.finds]
      rfl
    | _ => exact h.finds
  writes := by
    change List.Forall₂ Explains (if writesDirMap e = true then g.writes ++ [e] else g.writes)
      ((if writesDirMap e = true then Function.update w.changes w.world.caller _ else w.changes)
        w.world.caller)
    split
    · rw [Function.update_self]
      refine List.rel_append h.writes (.cons ?_ .nil)
      rintro key rfl
      exact ⟨(howned.holds _ g key hg).mapped hallows, rfl⟩
    · exact h.writes
  errno := by
    intro x hx
    change Function.update w.errnos w.world.caller _ w.world.caller = x
    rw [Function.update_self]
    exact errnoAfter_sound herrno hx

/-- The records of the other calls. -/
private theorem Recorded.frame {w : DirWorld} {n : Nat} {g : DirGhost} (h : Recorded w n g)
    (hn : n ≠ w.world.caller) (e : Req) : Recorded (DirWorld.handle o w e).2 n g where
  call := h.call
  ledger := (Function.update_of_ne hn ..).trans h.ledger
  finds := by
    cases e with
    | dirMapFind key =>
      change (Function.update w.looks w.world.caller _ n).map _ = g.finds
      rw [Function.update_of_ne hn, h.finds]
    | _ => exact h.finds
  writes := by
    change List.Forall₂ Explains g.writes
      ((if writesDirMap e = true then Function.update w.changes w.world.caller _ else w.changes) n)
    split
    · rw [Function.update_of_ne hn]
      exact h.writes
    · exact h.writes
  errno x hx := (Function.update_of_ne hn ..).trans (h.errno x hx)

private theorem DirInv.enters {w : DirWorld} {γ : Nat → Option DirGhost} (h : DirInv w₀ w γ)
    (n : Nat) (e : Errno) :
    DirInv w₀ { w with world := { w.world with errno := e, caller := n } } γ where
  env := h.env
  mgr := h.mgr
  owned := by
    refine ⟨h.owned.distinct, h.owned.owned, h.owned.opened, h.owned.marked, ?_⟩
    exact fun m g dir hg => (h.owned.holds m g dir hg).congr rfl Iff.rfl
  recorded m := by
    obtain ⟨g, hg, hrecorded⟩ := h.recorded m
    refine ⟨g, hg, fun hcall => ?_⟩
    obtain ⟨hc, hl, hf, hw, he⟩ := hrecorded hcall
    exact ⟨hc, hl, hf, hw, he⟩

/-- Every allowed request keeps the invariant. -/
private theorem DirInv.request {w : DirWorld} {γ : Nat → Option DirGhost} {n : Nat} {e : Req}
    {s : Option DirGhost} (h : DirInv w₀ w γ) (hact : DirActing n (γ n) w)
    (hs : dirRules w₀ e (DirWorld.handle o w e).1 (γ n) = some s) :
    DirInv w₀ (DirWorld.handle o w e).2 (Function.update γ n s) ∧
      DirActing n s (DirWorld.handle o w e).2 := by
  obtain ⟨rfl, herrno⟩ := hact
  obtain ⟨g, hg, hrecorded⟩ := h.recorded w.world.caller
  have herrno : ∀ e, g.errno = some e → w.world.errno = e := fun e he => herrno g e hg he
  obtain ⟨henv, hmgr, hcaller⟩ := handle_unchanged (o := o) w.world e
  have hplausible : g.Plausible w₀ e (DirWorld.handle o w e).1 := h.plausible hg herrno e
  rw [hg, dirRules, if_pos hplausible] at hs
  split at hs
  · rename_i hallows
    cases hs
    refine ⟨⟨henv.trans h.env, hmgr.trans h.mgr, ?_, fun m => ?_⟩, hcaller, ?_⟩
    · exact h.owned.request hg hallows (effect_handle w.world e)
    · by_cases hm : m = w.world.caller
      · rw [hm, Function.update_self]
        exact ⟨_, rfl, fun hcall => (hrecorded hcall).request h.owned hg hallows herrno⟩
      · rw [Function.update_of_ne hm]
        obtain ⟨g', hg', hrecorded'⟩ := h.recorded m
        exact ⟨g', hg', fun hcall => (hrecorded' hcall).frame hm e⟩
    · rintro _ x ⟨⟩ hx
      exact errnoAfter_sound herrno hx
  · cases hs

/-- A call that begins has done nothing. -/
private theorem Recorded.begun (w : DirWorld) (n : Nat) (call : DirCall) :
    Recorded (w.begins n call) n (.start call) where
  call := Function.update_self ..
  ledger := Function.update_self ..
  finds := by
    change (Function.update w.looks n [] n).map _ = []
    rw [Function.update_self]
    rfl
  writes := by
    change List.Forall₂ Explains [] (Function.update w.changes n [] n)
    rw [Function.update_self]
    exact .nil
  errno := nofun

private theorem Recorded.begins {w : DirWorld} {m n : Nat} {g : DirGhost} (h : Recorded w m g)
    (hm : m ≠ n) (call : DirCall) : Recorded (w.begins n call) m g where
  call := (Function.update_of_ne hm ..).trans h.call
  ledger := (Function.update_of_ne hm ..).trans h.ledger
  finds := by
    change (Function.update w.looks n [] m).map _ = g.finds
    rw [Function.update_of_ne hm]
    exact h.finds
  writes := by
    change List.Forall₂ Explains g.writes (Function.update w.changes n [] m)
    rw [Function.update_of_ne hm]
    exact h.writes
  errno := h.errno

/-- A stream that goes from one owner to another, neither of them the call `n`. -/
private theorem handed_stands {w : DirWorld} {n dir d : Nat} {h : Hold} {c c' : Owner}
    (hs : h.Stands w n d) (howner : w.owner dir = some c) (hc : c ≠ .call n) :
    h.Stands { w with owner := Function.update w.owner dir (some c') } n d := by
  by_cases hd : d = dir
  · have hunknown : h = .unknown := by
      apply hs.eq_unknown
      rw [hd, howner]
      exact fun he => hc (Option.some.inj he)
    rw [hunknown]
    exact .unknown
  · exact hs.congr (Function.update_of_ne hd ..) Iff.rfl

private theorem handed_owned {w : DirWorld} {dir : Nat} {c c' : Owner}
    (howned : ∀ d, w.world.streams d = none ↔ w.owner d = none) (howner : w.owner dir = some c)
    (d : Nat) :
    w.world.streams d = none ↔ Function.update w.owner dir (some c') d = none := by
  rw [howned]
  by_cases hd : d = dir
  · rw [hd, Function.update_self, howner]
    exact iff_of_false nofun nofun
  · rw [Function.update_of_ne hd]

/-- An entry keeps the call that made it where the calls keep what they have done. -/
private theorem Inserted.mono {w w' : DirWorld} {γ γ' : Nat → Option DirGhost} {m : Nat × Bool}
    (hm : Inserted w γ m) (hinserted : w'.insertedBy = w.insertedBy)
    (hγ : ∀ n g, γ n = some g → g.call ≠ none → ∃ g', γ' n = some g' ∧ g'.call = g.call ∧
      g'.ledger = g.ledger) : Inserted w' γ' m := by
  obtain ⟨n, g, name, real, hn, hg, hcall, hreal, hmark⟩ := hm
  obtain ⟨g', hg', hcall', hledger⟩ := hγ n g hg (hcall ▸ nofun)
  exact ⟨n, g', name, real, hinserted ▸ hn, hg', hcall'.trans hcall, hledger ▸ hreal, hmark⟩

private theorem DirInv.begins {w : DirWorld} {γ : Nat → Option DirGhost} {n : Nat} {call : DirCall}
    (h : DirInv w₀ w γ) (hblank : γ n = some .blank)
    (hadmits : ∀ dir, call.closes = some dir → w.owner dir = some .client) :
    DirInv w₀ (w.begins n call) (Function.update γ n (some (.start call))) := by
  have hstarted (m : Nat) (g : DirGhost) (hg : γ m = some g) (hcall : g.call ≠ none) : m ≠ n := by
    rintro rfl
    rw [hblank] at hg
    cases hg
    exact hcall rfl
  have hstands (m d : Nat) (k : Hold) (hs : k.Stands w m d) : k.Stands (w.begins n call) m d := by
    unfold DirWorld.begins
    cases hcloses : call.closes with
    | none => exact hs.congr rfl Iff.rfl
    | some dir => exact (handed_stands hs (hadmits dir hcloses) nofun).congr rfl Iff.rfl
  refine ⟨h.env, h.mgr, ⟨h.owned.distinct, ?_, h.owned.opened, fun m hm => ?_, ?_⟩, fun m => ?_⟩
  · unfold DirWorld.begins
    cases hcloses : call.closes with
    | none => exact h.owned.owned
    | some dir => exact handed_owned h.owned.owned (hadmits dir hcloses)
  · refine (h.owned.marked m hm).mono rfl ?_
    intro k g hg hcall
    refine ⟨g, ?_, rfl, rfl⟩
    rw [Function.update_of_ne (hstarted k g hg hcall)]
    exact hg
  · intro m g d hg
    by_cases hm : m = n
    · rw [hm, Function.update_self] at hg
      cases hg
      rw [hm]
      change (if call.closes = some d then Hold.held else .unknown).Stands _ _ _
      split
      · rename_i hcloses
        refine ⟨fun _ => ?_, nofun, nofun⟩
        unfold DirWorld.begins
        rw [hcloses]
        exact Function.update_self ..
      · exact .unknown
    · rw [Function.update_of_ne hm] at hg
      exact hstands m d _ (h.owned.holds m g d hg)
  · by_cases hm : m = n
    · rw [hm, Function.update_self]
      exact ⟨_, rfl, fun _ => .begun w n call⟩
    · rw [Function.update_of_ne hm]
      obtain ⟨g, hg, hrecorded⟩ := h.recorded m
      exact ⟨g, hg, fun hcall => (hrecorded hcall).begins hm call⟩

private theorem DirInv.ends {w : DirWorld} {γ : Nat → Option DirGhost} {n : Nat} {call : DirCall}
    {r : DirResult} (h : DirInv w₀ w γ) (hgoal : ∀ g, γ n = some g → DirGoal w₀ call r g) :
    DirInv w₀ (w.ends r) (Function.update γ n ((γ n).map DirGhost.retire)) := by
  obtain ⟨g, hg, hrecorded⟩ := h.recorded n
  have hworld : (w.ends r).world = w.world ∧ (w.ends r).insertedBy = w.insertedBy := by
    unfold DirWorld.ends
    split <;> exact ⟨rfl, rfl⟩
  have hrecords (m : Nat) (g : DirGhost) (hm : Recorded w m g) : Recorded (w.ends r) m g := by
    unfold DirWorld.ends
    split <;> exact ⟨hm.call, hm.ledger, hm.finds, hm.writes, hm.errno⟩
  have howner (dir : Nat) (hr : r = .stream (some dir)) : w.owner dir = some (.call n) := by
    subst hr
    have hne : g.hold dir ≠ .unknown := by
      cases call with
      | opendir name => exact hgoal g hg
      | readdir dirp => exact (hgoal g hg).elim
      | closedir d => exact (hgoal g hg).elim
    exact (h.owned.holds n g dir hg).owner hne
  have hothers (m d : Nat) (k : Hold) (hm : m ≠ n) (hs : k.Stands w m d) :
      k.Stands (w.ends r) m d := by
    unfold DirWorld.ends
    split
    · rename_i dir
      exact handed_stands hs (howner dir rfl) fun he => hm (Owner.call.inj he).symm
    · exact hs
  rw [hg]
  refine ⟨hworld.1 ▸ h.env, hworld.1 ▸ h.mgr, ⟨hworld.1 ▸ h.owned.distinct, ?_,
    hworld.1 ▸ h.owned.opened, fun m hm => ?_, ?_⟩, fun m => ?_⟩
  · unfold DirWorld.ends
    split
    · rename_i dir
      exact handed_owned h.owned.owned (howner dir rfl)
    · exact h.owned.owned
  · rw [hworld.1] at hm
    refine (h.owned.marked m hm).mono hworld.2 ?_
    intro k g' hg' _
    by_cases hk : k = n
    · rw [hk, hg] at hg'
      cases hg'
      rw [hk, Function.update_self]
      exact ⟨_, rfl, rfl, rfl⟩
    · rw [Function.update_of_ne hk]
      exact ⟨g', hg', rfl, rfl⟩
  · intro m g' d hg'
    by_cases hm : m = n
    · rw [hm, Function.update_self] at hg'
      cases hg'
      exact .unknown
    · rw [Function.update_of_ne hm] at hg'
      exact hothers m d _ hm (h.owned.holds m g' d hg')
  · by_cases hm : m = n
    · rw [hm, Function.update_self]
      refine ⟨_, rfl, fun hcall => ?_⟩
      obtain ⟨hc, hl, hf, hw, he⟩ := hrecords n g (hrecorded hcall)
      exact ⟨hc, hl, hf, hw, he⟩
    · rw [Function.update_of_ne hm]
      obtain ⟨g', hg', hrecorded'⟩ := h.recorded m
      exact ⟨g', hg', fun hcall => hrecords m g' (hrecorded' hcall)⟩

/-- Every call keeps to its rules, and these keep the invariant. -/
noncomputable def dirDiscipline (b : Bits) (o : Oracle) (w₀ : World) :
    Discipline (dirSystem b o) (Option DirGhost) where
  rules := dirRules w₀
  blank := some .blank
  start call := some (.start call)
  retire := Option.map DirGhost.retire
  goal call r s := ∀ g, s = some g → DirGoal w₀ call r g ∧ g.call = some call
  inv := DirInv w₀
  acting := DirActing
  knows s l := ∀ g e, s = some g → g.errno = some e → l = e
  tracks call := (does_program b call).same_call
  start_knows call l := by
    rintro g e ⟨⟩ he
    cases he
  enters h hknows := ⟨h.enters _ _, rfl, hknows⟩
  requests h hact hs := h.request hact hs
  leaves hact := hact.2
  begins h hblank hadmits := h.begins hblank hadmits
  ends h hgoal := h.ends fun g hg => (hgoal g hg).1

end HookSqfs.Hooks
