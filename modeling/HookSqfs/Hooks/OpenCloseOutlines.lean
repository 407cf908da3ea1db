import HookSqfs.Hooks.FdOutlines
import HookSqfs.Hooks.Requests

/-! Outlines of `close` and `open`: between the locked section and the real call a
descriptor is the call's own. -/
namespace HookSqfs.Hooks
open Manager Interaction Tables Program
variable {b : Bits} {o : Oracle}

theorem mem_keys_iff {fd : Int} {m : List FDMapEntry} :
    fd ∈ m.map FDMapEntry.key ↔ (lookup FDMapEntry.key fd m).isSome := by
  rw [← not_iff_not, ← lookup_eq_none, Option.not_isSome_iff_eq_none]

/-- A locked section that takes the entry of a descriptor that the call owns. -/
theorem closed_section {n : Nat} {fd : Int} {w v : World} (hw : FdInv w)
    (howner : w.owner fd = some (.call n)) (hdepth : v.depth = 0)
    (hmap : v.fdMap = remove FDMapEntry.key fd w.fdMap) (hfds : v.fds = w.fds)
    (hown : v.owner = w.owner) (hby : v.insertedBy = Function.update w.insertedBy fd none) :
    Spares n w v ∧ FdInv v ∧ fd ∉ fdKeys v := by
  have hgone : fd ∉ fdKeys v := by
    rw [fdKeys, hmap, ← lookup_eq_none]
    exact lookup_remove_self hw.distinct
  have hkeys : ∀ fd', fd' ≠ fd → (fd' ∈ fdKeys v ↔ fd' ∈ fdKeys w) := by
    intro fd' hne
    rw [fdKeys, fdKeys, hmap, mem_keys_iff, mem_keys_iff, lookup_remove_ne hne]
  refine ⟨fun fd' c hc hne => ?_, ⟨hdepth, fun fd' => ?_, ?_, fun key hkey => ?_⟩, hgone⟩
  · have hfd : fd' ≠ fd := by
      rintro rfl
      exact hne (Option.some.inj (hc.symm.trans howner))
    exact ⟨by rw [hown, hc], by rw [hfds], hkeys fd' hfd⟩
  · rw [hfds, hown]
    exact hw.owned fd'
  · rw [fdKeys, hmap]
    exact nodup_remove hw.distinct
  · have hne : key ≠ fd := by
      rintro rfl
      exact hgone hkey
    obtain ⟨m, hfd, hm⟩ := hw.backed key ((hkeys key hne).mp hkey)
    exact ⟨m, hfds ▸ hfd, by rw [hby, Function.update_of_ne hne, hm]⟩

/-- The real close of a descriptor that the call owns and `fd_map` does not have. -/
theorem lost_call {n : Nat} {fd : Int} {w v : World} (hw : FdInv w)
    (howner : w.owner fd = some (.call n)) (hgone : fd ∉ fdKeys w) (hdepth : v.depth = w.depth)
    (hmap : v.fdMap = w.fdMap) (hfds : v.fds = Function.update w.fds fd none)
    (hown : v.owner = Function.update w.owner fd none) (hby : v.insertedBy = w.insertedBy) :
    Spares n w v ∧ FdInv v := by
  have hkeys : fdKeys v = fdKeys w := by rw [fdKeys, fdKeys, hmap]
  refine ⟨fun fd' c hc hne => ?_, hdepth.trans hw.free, fun fd' => ?_, hkeys ▸ hw.distinct,
    fun key hkey => ?_⟩
  · have hfd : fd' ≠ fd := by
      rintro rfl
      exact hne (Option.some.inj (hc.symm.trans howner))
    rw [hown, hfds, Function.update_of_ne hfd, Function.update_of_ne hfd, hkeys]
    exact ⟨hc, rfl, Iff.rfl⟩
  · rw [hfds, hown]
    by_cases hfd : fd' = fd
    · rw [hfd, Function.update_self, Function.update_self]
      exact iff_of_true rfl rfl
    · rw [Function.update_of_ne hfd, Function.update_of_ne hfd]
      exact hw.owned fd'
  · rw [hkeys] at hkey
    have hne : key ≠ fd := by
      rintro rfl
      exact hgone hkey
    obtain ⟨m, hfd, hm⟩ := hw.backed key hkey
    exact ⟨m, by rw [hfds, Function.update_of_ne hne, hfd], hby ▸ hm⟩

/-- A new descriptor for the call. -/
theorem gained_call {n fd : Nat} {d : Descriptor} {w v : World} (hw : FdInv w)
    (hfresh : w.fds fd = none) (hdepth : v.depth = w.depth)
    (hmap : v.fdMap = w.fdMap) (hfds : v.fds = Function.update w.fds fd (some d))
    (hown : v.owner = Function.update w.owner fd (some (.call n)))
    (hby : v.insertedBy = w.insertedBy) :
    Spares n w v ∧ FdInv v := by
  have hkeys : fdKeys v = fdKeys w := by rw [fdKeys, fdKeys, hmap]
  have hnone := (hw.owned fd).mp hfresh
  refine ⟨fun fd' c hc _ => ?_, hdepth.trans hw.free, fun fd' => ?_, hkeys ▸ hw.distinct,
    fun key hkey => ?_⟩
  · have hfd : fd' ≠ fd := by
      rintro rfl
      exact Option.some_ne_none c (hc.symm.trans hnone)
    rw [hown, hfds, Function.update_of_ne hfd, Function.update_of_ne hfd, hkeys]
    exact ⟨hc, rfl, Iff.rfl⟩
  · rw [hfds, hown]
    by_cases hfd : fd' = fd
    · rw [hfd, Function.update_self, Function.update_self]
      exact iff_of_false (Option.some_ne_none _) (Option.some_ne_none _)
    · rw [Function.update_of_ne hfd, Function.update_of_ne hfd]
      exact hw.owned fd'
  · rw [hkeys] at hkey
    obtain ⟨m, hfd, hm⟩ := hw.backed key hkey
    have hne : key ≠ fd := by
      rintro rfl
      exact Option.some_ne_none _ (hfd.symm.trans hfresh)
    exact ⟨m, by rw [hfds, Function.update_of_ne hne, hfd], hby ▸ hm⟩

/-- A section that makes a backing descriptor and its entry. -/
theorem opened_section (n : Nat) {fd addr : Nat} {inode : InodePtr} {w v : World} (hw : FdInv w)
    (hdepth : v.depth = 0) (h : OpenServed w v inode fd addr) :
    Spares n w v ∧ FdInv v := by
  have hnone := (hw.owned fd).mp h.fresh
  have hnew : (fd : Int) ∉ fdKeys w := by
    intro hkey
    obtain ⟨m, hfd, -⟩ := hw.backed fd hkey
    exact Option.some_ne_none _ (hfd.symm.trans h.fresh)
  have hkeys : fdKeys v = (fd : Int) :: fdKeys w := by rw [fdKeys, h.fdMap]; rfl
  refine ⟨fun fd' c hc _ => ?_, hdepth, fun fd' => ?_, ?_, fun key hkey => ?_⟩
  · have hfd : fd' ≠ fd := by
      rintro rfl
      exact Option.some_ne_none c (hc.symm.trans hnone)
    rw [h.owner, h.fds, Function.update_of_ne hfd, Function.update_of_ne hfd, hkeys,
      List.mem_cons]
    exact ⟨hc, rfl, or_iff_right hfd⟩
  · rw [h.fds, h.owner]
    by_cases hfd : fd' = fd
    · rw [hfd, Function.update_self, Function.update_self]
      exact iff_of_false (Option.some_ne_none _) (Option.some_ne_none _)
    · rw [Function.update_of_ne hfd, Function.update_of_ne hfd]
      exact hw.owned fd'
  · rw [hkeys]
    exact List.nodup_cons.mpr ⟨hnew, hw.distinct⟩
  · rw [hkeys] at hkey
    rw [h.fds, h.insertedBy]
    rcases List.mem_cons.mp hkey with rfl | hkey
    · exact ⟨w.caller, by rw [Function.update_self], by rw [Function.update_self]⟩
    · obtain ⟨m, hfd, hm⟩ := hw.backed key hkey
      have hne : key ≠ fd := by
        rintro rfl
        exact hnew hkey
      exact ⟨m, by rw [Function.update_of_ne hne, hfd], by rw [Function.update_of_ne hne, hm]⟩

/-- One operation, which takes the entry of `fd` or finds none. -/
def ClosedOnce (fd : Int) (t : List FdEvent) : Prop :=
  ∃ op, ops t = [op] ∧ (op = .closed fd ∨ op = .missed fd)

theorem ClosedOnce.calm {fd : Int} {t : List FdEvent} (h : ClosedOnce fd t) (w w' : World) :
    ClosedOnce fd (t ++ [⟨w, w', none⟩]) := by
  obtain ⟨op, hop, hfd⟩ := h
  exact ⟨op, (ops_none t w w').trans hop, hfd⟩

/-- What a closing call knows between the unlock and the real close. -/
structure Released (n : Nat) (fd : Int) (t : List FdEvent) (w : World) : Prop where
  closed : ClosedOnce fd t
  owner : w.owner fd = some (.call n)
  gone : fd ∉ fdKeys w

theorem Released.stable (n : Nat) (fd : Int) : (fdProtocol b o).Stable n (Released n fd) := by
  intro t w w' h hrely
  obtain ⟨howner, -, hkeys⟩ := hrely fd h.owner
  exact ⟨h.closed, howner, fun hmem => h.gone (hkeys.mp hmem)⟩

/-- The entry of the closed descriptor goes, and its inode with it. -/
def sqfsCloseMapped (fd : Int) : Hook Unit := do
  let entry : FDMapEntry ← ask (.fdMapEntry fd)
  deref [entry.object, entry.inode.object]
  ask (.fdMapDel fd)
  deref [entry.object]
  call (.sqfsFree entry.inode.addr)
  call (.free entry.addr)

theorem sqfsCloseMapped_all (fd : Int) : (sqfsCloseMapped fd).All fun e => e.keepsDepth :=
  ⟨rfl, fun _ => ⟨rfl, fun _ => ⟨rfl, fun _ => ⟨rfl, fun _ => ⟨rfl, fun _ => ⟨rfl, fun _ => trivial⟩⟩⟩⟩⟩⟩

theorem sqfsCloseImpl_eq (func : CString) (fd : Int) (realClose : Hook (Except Errno Unit)) :
    sqfsCloseImpl func fd (some realClose) = dispatch fd (sqfsCloseMapped fd)
      (fun _ => do
        let ret ← realClose
        let savedErrno ← getErrno
        logHook (some func)
        setErrno savedErrno
        return realClosed ret)
      (do
        let ret ← realClose
        return realClosed ret) := rfl

theorem run_sqfsCloseMapped {w : World} {fd : Int} {entry : FDMapEntry}
    (hentry : lookup FDMapEntry.key fd w.fdMap = some entry) :
    ∃ v, runAlone o (sqfsCloseMapped fd) w = some ((), v) ∧ Undisturbed { w with
      fdMap := remove FDMapEntry.key fd w.fdMap
      insertedBy := Function.update w.insertedBy fd none } v := by
  rw [sqfsCloseMapped, Program.ask_bind, runAlone_fdMapEntry, hentry, Option.getD_some]
  refine ⟨_, rfl, ?_⟩
  exact (Quiet.afterCall _ o (.sqfsFree entry.inode.addr) () rfl rfl).toUndisturbed.trans
    (Quiet.afterCall _ o (.free entry.addr) () rfl rfl).toUndisturbed

/-- The requests of the two real closes of `fd`. -/
def ClosesFd (fd : Int) (p : Hook (Except Errno Unit)) : Prop :=
  p = call (.close fd) ∨ p = call (.closeNocancel fd)

/-- What a closing call ends with: one operation on `fd`, or none without a real close. -/
def closeAnswers (fd : Int) (r : Int) (t : List FdEvent) : Prop :=
  ops t = [] ∧ r = -1 ∨ ClosedOnce fd t

theorem outline_realClose {n : Nat} {fd : Int} {p : Hook (Except Errno Unit)} (hp : ClosesFd fd p) :
    Outline (fdProtocol b o) n
      (fun _ t _ => ClosedOnce fd t) (Released n fd) p := by
  have hstep : ∀ (c : Ext), (∀ u : World, u.effect c (u.outcome o c) = u.lose fd) →
      Outline (fdProtocol b o) n (fun _ t _ => ClosedOnce fd t) (Released n fd) (call c) := by
    intro c hc
    refine Outline.plain fun l t w hw ht => ?_
    have hv : (entered n l w).effect c ((entered n l w).outcome o c) = (entered n l w).lose fd :=
      hc _
    have hfds : ((entered n l w).afterCall o c ((entered n l w).outcome o c)).fds =
        Function.update w.fds fd none := congrArg World.fds hv
    have hown : ((entered n l w).afterCall o c ((entered n l w).outcome o c)).owner =
        Function.update w.owner fd none := congrArg World.owner hv
    obtain ⟨hspares, hinv⟩ := lost_call hw ht.owner ht.gone
      ((entered n l w).afterCall_depth o c _) ((entered n l w).afterCall_fdMap o c _) hfds hown
      ((entered n l w).afterCall_insertedBy o c _)
    exact ⟨[⟨w, _, none⟩], fun t _ => ClosedOnce fd t,
      ⟨none, rfl, hspares, (entered n l w).afterCall_fdMap o c _⟩, hinv, fun _ _ _ h _ => h,
      ht.closed.calm _ _, .ret fun _ _ _ h => h⟩
  rcases hp with rfl | rfl
  · exact hstep (.close fd) fun _ => rfl
  · exact hstep (.closeNocancel fd) fun _ => rfl

/-- A closing call until its locked section. -/
def Closing (n : Nat) (fd : Int) (t : List FdEvent) (w : World) : Prop :=
  ops t = [] ∧ w.owner fd = some (.call n)

theorem outline_sqfsCloseImpl {n : Nat} {fd : Int} (func : CString)
    {realClose : Option (Hook (Except Errno Unit))}
    (hreal : ∀ p, realClose = some p → ClosesFd fd p) :
    Outline (fdProtocol b o) n (fun r t _ => closeAnswers fd r t)
      (Closing n fd) (sqfsCloseImpl func fd realClose) := by
  cases realClose with
  | none =>
    refine Outline.plain fun l t w hw ht => ?_
    have hcalm : Calm w ((entered n l w).withErrno Errno.ENOSYS) := ⟨rfl, rfl, rfl, rfl, rfl⟩
    exact ⟨_, fun t _ => ops t = [], .of_calm o n hcalm, (SameKeys.of_calm hcalm).inv hw,
      fun _ _ _ h _ => h, (ops_none _ _ _).trans ht.1, .ret fun _ _ _ h => .inl ⟨h, rfl⟩⟩
  | some realClose =>
    have hclose := hreal realClose rfl
    rw [sqfsCloseImpl_eq]
    refine outline_dispatch (fun _ => Released n fd) (Released n fd) (sqfsCloseMapped_all fd)
      (fun _ => Released.stable n fd) (Released.stable n fd) ?_ ?_ ?_ ?_
    · intro l t w hw ht entry hentry
      obtain ⟨v, hrun, hv⟩ := run_sqfsCloseMapped (o := o) (w := (entered n l w).locked) hentry
      refine ⟨(), v, .closed fd, hrun, fun hdepth => ?_⟩
      obtain ⟨hspares, hinv, hgone⟩ := closed_section (v := v.unlocked) hw ht.2
        (congrArg (· - 1) hdepth) hv.fdMap hv.fds hv.owner hv.insertedBy
      have howner : v.unlocked.owner fd = some (.call n) := (congrFun hv.owner fd).trans ht.2
      exact ⟨⟨by rw [hentry]; rfl, hv.fdMap⟩, hspares, hinv,
        ⟨.closed fd, ops_some ht.1 _ _ _, .inl rfl⟩, howner, hgone⟩
    · intro t w w' hw ht hmiss hcalm
      refine ⟨⟨.missed fd, ops_some ht.1 _ _ _, .inr rfl⟩, hcalm.owner ▸ ht.2, ?_⟩
      rw [fdKeys, hcalm.fdMap]
      exact lookup_eq_none.mp hmiss
    · intro a
      refine (outline_realClose hclose).bind fun ret => ?_
      have htail : (do
          let savedErrno ← getErrno
          logHook (some func)
          setErrno savedErrno
          return realClosed ret : Hook Int).All fun e => e.calm :=
        ⟨rfl, fun _ => (logHook_calm _).bind fun _ => ⟨rfl, fun _ => trivial⟩⟩
      exact (outline_calm (P := fun t _ => ClosedOnce fd t) htail (fun _ _ _ h _ => h)
        fun t w w' ht _ => ht.calm w w').post fun r t _ _ ht => .inr ht
    · refine (outline_realClose hclose).bind fun ret => ?_
      exact .ret fun t _ _ ht => .inr ht

private theorem outline_closing {n : Nat} {fd : Int} {α : Type} {p : Hook α}
    (hp : p.All fun e => e.calm) :
    Outline (fdProtocol b o) n (fun _ => Closing n fd) (Closing n fd) p := by
  apply outline_calm hp
  · intro t w w' h hrely
    exact ⟨h.1, (hrely fd h.2).1⟩
  · intro t w w' h hcalm
    exact ⟨(ops_none t w w').trans h.1, hcalm.owner ▸ h.2⟩

theorem outline_sqfsClose (n : Nat) (fd : Int) :
    Outline (fdProtocol b o) n (fun r t _ => closeAnswers fd r t) (Closing n fd)
      (sqfsClose fd) := by
  refine (outline_closing (p := realPresent .close) ⟨rfl, fun _ => trivial⟩).bind fun present => ?_
  refine outline_sqfsCloseImpl (ascii "sqfs_close") fun p hp => ?_
  cases present with
  | false => cases hp
  | true =>
    cases hp
    exact .inl rfl

theorem outline_sqfsCloseNocancel (n : Nat) (fd : Int) :
    Outline (fdProtocol b o) n (fun r t _ => closeAnswers fd r t) (Closing n fd)
      (sqfsCloseNocancel fd) := by
  refine (outline_closing (p := realPresent .closeNocancel) ⟨rfl, fun _ => trivial⟩).bind
    fun nocancel => ?_
  refine (outline_closing (p := realPresent .close) ⟨rfl, fun _ => trivial⟩).bind fun present => ?_
  refine outline_sqfsCloseImpl (ascii "sqfs_close_nocancel") fun p hp => ?_
  cases nocancel with
  | true =>
    cases hp
    exact .inr rfl
  | false =>
    cases present with
    | false => cases hp
    | true =>
      cases hp
      exact .inl rfl

/-- What an `open` knows before its locked section. -/
structure Untouched (t : List FdEvent) : Prop where
  ops : ops t = []
  unchanged : Unchanged t

theorem untouched_nil : Untouched [] := ⟨rfl, fun _ hev => absurd hev List.not_mem_nil⟩

theorem Untouched.calm {t : List FdEvent} (h : Untouched t) {w w' : World} (hcalm : Calm w w') :
    Untouched (t ++ [⟨w, w', none⟩]) := by
  refine ⟨(ops_none t w w').trans h.ops, ?_⟩
  intro ev hev
  rcases List.mem_append.mp hev with hev | hev
  · exact h.unchanged ev hev
  · rw [List.mem_singleton.mp hev]
    exact ⟨hcalm.fdMap, hcalm.fds⟩

/-- What an `open` ends with: a failure that touched nothing, a real descriptor, or one
with its entry. -/
def openAnswers (n : Nat) (r : Int) (t : List FdEvent) (w : World) : Prop :=
  r = -1 ∧ Untouched t ∨ (∃ fd : Nat, r = fd ∧ w.owner fd = some (.call n)) ∧
    (ops t = [] ∨ ∃ entry, ops t = [.opened entry] ∧ r = entry.key)

theorem openAnswers_stable (n : Nat) (r : Int) :
    (fdProtocol b o).Stable n (openAnswers n r) := by
  intro t w w' h hrely
  rcases h with h | ⟨⟨fd, hr, howner⟩, hops⟩
  · exact .inl h
  · exact .inr ⟨⟨fd, hr, (hrely fd howner).1⟩, hops⟩

theorem openAnswers_calm {n : Nat} {r : Int} {t : List FdEvent} {w w' : World}
    (h : openAnswers n r t w) (hcalm : Calm w w') :
    openAnswers n r (t ++ [⟨w, w', none⟩]) w' := by
  rcases h with ⟨hr, ht⟩ | ⟨⟨fd, hr, howner⟩, hops⟩
  · exact .inl ⟨hr, ht.calm hcalm⟩
  · refine .inr ⟨⟨fd, hr, hcalm.owner ▸ howner⟩, ?_⟩
    rw [ops_none]
    exact hops

/-- `sqfs_open` once the real open failed and the path is routed. -/
def openRouted (relative : CString) (flags : BitVec 32) : Hook Int := do
  sqfsLock
  let inode ← sqfsFindInode (some relative)
  match inode with
  | none => do
    let findErrno ← getErrno
    sqfsUnlock
    logHook (some (ascii "sqfs_open"))
    setErrno findErrno
    return -1
  | some inode => openFound flags inode

/-- The locked section of `sqfs_open` and what is left after it. -/
theorem burst_openRouted (relative : CString) (flags : BitVec 32) {w : World} (hw : w.depth = 0) :
    ∃ p v, (openRouted relative flags).burst (World.handle o) World.depth w = (p, v) ∧
      v.depth = 0 ∧
      ((∃ e, p = (do
          logHook (some (ascii "sqfs_open"))
          setErrno e
          return -1) ∧ OpenFailed w v) ∨
        ∃ r inode, p = (do
          logHook (some (ascii "sqfs_open"))
          return r) ∧ OpenEnds w v inode r) := by
  have hheld : w.locked.depth ≠ 0 := Nat.succ_ne_zero _
  obtain ⟨v, hrun, -, hv, -⟩ := run_sqfsFindInode o relative w.locked
  have hsection := settle_section o (sqfsFindInode_keepsDepth (some relative)) (fun inode =>
    match inode with
    | none => (do
      let findErrno ← getErrno
      sqfsUnlock
      logHook (some (ascii "sqfs_open"))
      setErrno findErrno
      return -1 : Hook Int)
    | some inode => openFound flags inode) hheld hrun
  have hone : v.depth = 1 := hsection.2.trans (congrArg (· + 1) hw)
  have hfree : ∀ u : World, u.depth = 1 → u.unlocked.depth = 0 := fun u hu => congrArg (· - 1) hu
  have hfound : Undisturbed w v := ((Quiet.locked w).trans hv).toUndisturbed
  cases hinode : (w.locked.lookup o 0 relative).toOption with
  | none =>
    refine ⟨_, v.unlocked, hsection.1.trans ?_, hfree v hone, .inl ⟨v.errno, rfl,
      .of_undisturbed (hfound.trans (Quiet.unlocked v).toUndisturbed)⟩⟩
    rw [hinode]
    change settle (World.handle o) World.depth (.request .getErrno _) v = _
    rw [settle_held (hone ▸ one_ne_zero)]
    change settle (World.handle o) World.depth (.request .unlock _) v = _
    rw [settle_held (hone ▸ one_ne_zero)]
    exact settle_free (hfree v hone) _
  | some inode =>
    obtain ⟨r, u, hinsert, hends, -⟩ := run_openInsert o flags inode v
    have hrest := settle_section o (openInsert_keepsDepth flags inode) (fun fd => (do
      sqfsUnlock
      logHook (some (ascii "sqfs_open"))
      return fd : Hook Int)) (hone ▸ one_ne_zero) hinsert
    have hu : u.depth = 1 := hrest.2.trans hone
    refine ⟨_, u.unlocked, hsection.1.trans ?_, hfree u hu, .inr ⟨r, inode, rfl,
      (OpenEnds.before hfound hends).after (Quiet.unlocked u).toUndisturbed⟩⟩
    rw [hinode]
    refine hrest.1.trans ?_
    change settle (World.handle o) World.depth (.request .unlock _) u = _
    rw [settle_held (hu ▸ one_ne_zero)]
    exact settle_free (hfree u hu) _

theorem OpenFailed.calm {n : Nat} {l : Errno} {w v : World} (hw : FdInv w)
    (h : OpenFailed (entered n l w) v) (hdepth : v.depth = 0) : Calm w v :=
  ⟨hdepth.trans hw.free.symm, h.fdMap, h.fds, h.owner fun fd hfd => (hw.owned fd).mp hfd,
    h.insertedBy⟩

theorem outline_openRouted (n : Nat) (relative : CString) (flags : BitVec 32) :
    Outline (fdProtocol b o) n (openAnswers n) (fun t _ => Untouched t)
      (openRouted relative flags) := by
  refine Outline.burst fun l t w hw ht => ?_
  obtain ⟨p, v, hburst, hdepth, hp⟩ := burst_openRouted (o := o) relative flags
    (w := entered n l w) hw.free
  refine ⟨p, v, ?_⟩
  have hfailed : OpenFailed (entered n l w) v → ∀ r, r = -1 →
      FdEffect o n w [⟨w, v, none⟩] v ∧ FdInv v ∧ openAnswers n r (t ++ [⟨w, v, none⟩]) v := by
    intro h r hr
    have hcalm := h.calm hw hdepth
    exact ⟨.of_calm o n hcalm, (SameKeys.of_calm hcalm).inv hw, .inl ⟨hr, ht.calm hcalm⟩⟩
  have htail : ∀ r p, p = (do
      logHook (some (ascii "sqfs_open"))
      return r : Hook Int) → Outline (fdProtocol b o) n (openAnswers n) (openAnswers n r) p := by
    intro r p hp
    rw [hp]
    exact (outline_calm (logHook_calm _) (openAnswers_stable n r) fun _ _ _ =>
      openAnswers_calm).bind fun _ => .ret fun _ _ _ h => h
  rcases hp with ⟨e, hp, hf⟩ | ⟨r, inode, hp, hf | ⟨fd, addr, hr, hs⟩⟩
  · obtain ⟨heffect, hinv, hans⟩ := hfailed hf (-1) rfl
    refine ⟨_, openAnswers n (-1), hburst, heffect, hinv, openAnswers_stable n _, hans, ?_⟩
    rw [hp]
    exact (outline_calm (logHook_calm _) (openAnswers_stable n _) fun _ _ _ =>
      openAnswers_calm).bind fun _ => (outline_calm (p := setErrno e) ⟨rfl, fun _ => trivial⟩
        (openAnswers_stable n _) fun _ _ _ => openAnswers_calm).bind fun _ =>
          .ret fun _ _ _ h => h
  · obtain ⟨heffect, hinv, hans⟩ := hfailed hf.2 r hf.1
    exact ⟨_, openAnswers n r, hburst, heffect, hinv, openAnswers_stable n _, hans, htail r p hp⟩
  · obtain ⟨hspares, hinv⟩ := opened_section n (w := entered n l w) ⟨hw.free, hw.owned, hw.distinct,
      hw.backed⟩ hdepth hs
    have howner : v.owner fd = some (.call n) := by
      rw [hs.owner]
      exact Function.update_self ..
    refine ⟨[⟨w, v, some (.opened { addr, key := fd, inode, offset := 0 })⟩], openAnswers n r,
      hburst, ⟨_, rfl, hspares, hs.fresh, rfl, hs.fdMap⟩, hinv, openAnswers_stable n _,
      .inr ⟨⟨fd, hr, howner⟩, .inr ⟨_, ops_some ht.ops _ _ _, hr⟩⟩, htail r p hp⟩

theorem openLower_eq (pathname : Option CString) (flags : BitVec 32) :
    openLower pathname flags = (do
      let savedErrno ← getErrno
      let checked ← sqfsCheckPath pathname
      if checked.1 ≠ 0 then do
        setErrno savedErrno
        return -1
      else openRouted checked.2 flags) := rfl

theorem outline_openLower (n : Nat) (pathname : Option CString) (flags : BitVec 32) :
    Outline (fdProtocol b o) n (openAnswers n) (fun t _ => Untouched t)
      (openLower pathname flags) := by
  have hcalm : ∀ {α : Type} {p : Hook α}, (p.All fun e => e.calm) →
      Outline (fdProtocol b o) n (fun _ t _ => Untouched t) (fun t _ => Untouched t) p :=
    fun hp => outline_calm hp (fun _ _ _ h _ => h) fun _ _ _ ht hcalm => ht.calm hcalm
  rw [openLower_eq]
  refine (hcalm (p := getErrno) ⟨rfl, fun _ => trivial⟩).bind fun saved => ?_
  refine (hcalm (sqfsCheckPath_all pathname)).bind fun checked => ?_
  split
  · exact (hcalm (p := setErrno saved) ⟨rfl, fun _ => trivial⟩).bind fun _ =>
      .ret fun _ _ _ ht => .inl ⟨rfl, ht⟩
  · exact outline_openRouted n checked.2 flags

/-- `sqfs_open` once the real call has answered. -/
def openRest (pathname : Option CString) (flags : BitVec 32) : Except Errno Nat → Hook Int
  | .ok fd => return fd
  | .error _ => openLower pathname flags

theorem sqfsOpen_eq (pathname : Option CString) (flags mode : BitVec 32) :
    sqfsOpen pathname flags mode =
      .request (.call (openCall pathname flags mode)) (openRest pathname flags) := by
  apply congrArg (Program.request _)
  funext fd
  cases fd <;> rfl

/-- The real `open` comes first. -/
theorem outline_sqfsOpen (n : Nat) (pathname : Option CString) (flags mode : BitVec 32) :
    Outline (fdProtocol b o) n (openAnswers n) (fun t _ => t = [])
      (sqfsOpen pathname flags mode) := by
  rw [sqfsOpen_eq]
  refine Outline.plain fun l t w hw ht => ?_
  rw [ht]
  change ∃ (evs : List FdEvent) (P' : Assertion World FdEvent),
    FdEffect o n w evs ((entered n l w).afterCall o (openCall pathname flags mode)
      ((entered n l w).outcome o (openCall pathname flags mode))) ∧
    FdInv ((entered n l w).afterCall o (openCall pathname flags mode)
      ((entered n l w).outcome o (openCall pathname flags mode))) ∧
    (fdProtocol b o).Stable n P' ∧
    P' ([] ++ evs) ((entered n l w).afterCall o (openCall pathname flags mode)
      ((entered n l w).outcome o (openCall pathname flags mode))) ∧
    Outline (fdProtocol b o) n (openAnswers n) P'
      (openRest pathname flags ((entered n l w).outcome o (openCall pathname flags mode)))
  cases hout : (entered n l w).outcome o (openCall pathname flags mode) with
  | error e =>
    have hcalm : Calm w ((entered n l w).afterCall o (openCall pathname flags mode) (.error e)) :=
      ⟨rfl, rfl, rfl, rfl, rfl⟩
    exact ⟨_, fun t _ => Untouched t, .of_calm o n hcalm, (SameKeys.of_calm hcalm).inv hw,
      fun _ _ _ h _ => h, untouched_nil.calm hcalm, outline_openLower n pathname flags⟩
  | ok fd =>
    have hfresh : w.fds fd = none := (World.grantFd_ok hout).2
    obtain ⟨hspares, hinv⟩ := gained_call (n := n) (d := .opened n)
      (v := (entered n l w).afterCall o (openCall pathname flags mode) (.ok fd)) hw hfresh rfl rfl
      rfl rfl rfl
    exact ⟨_, openAnswers n fd, ⟨none, rfl, hspares, rfl⟩, hinv, openAnswers_stable n _,
      .inr ⟨⟨fd, rfl, Function.update_self ..⟩, .inl rfl⟩, .ret fun _ _ _ h => h⟩

end HookSqfs.Hooks
