import HookSqfs.Hooks.FdSystem
import HookSqfs.Hooks.ThreadPool
import HookSqfs.Interaction.Contracts

/-! What a thread may count on that has one descriptor at a time and leaves those of the
other threads alone. -/
namespace HookSqfs.Clients
open Manager Hooks Interaction Tables

/-- The descriptor of a thread: none, one that `fd_map` does not serve, or one that it does. -/
inductive Slot where
  | closed
  | bare (fd : Nat)
  | mapped (fd : Nat) (inode : InodePtr) (offset : BitVec 64)

namespace Slot

def fd : Slot → Option Nat
  | .closed => none
  | .bare fd | .mapped fd _ _ => some fd

/-- The requests on descriptors are about its own, and it opens nothing but `path`. -/
def permits (path : CString) (slot : Slot) : Req → Prop
  | .fdMapAdd entry => ∃ fd : Nat, slot = .bare fd ∧ entry.key = fd
  | .fdMapDel key | .fdMapSetOffset key _ =>
    ∃ (fd : Nat) (inode : InodePtr) (offset : BitVec 64), slot = .mapped fd inode offset ∧ key = fd
  | .call (.memfdCreate _) => slot = .closed
  | .call (.close key) => ∃ fd : Nat, slot = .bare fd ∧ key = fd
  | .call (.open pathname _ _) => pathname = some path
  | .call (.openat ..) | .call (.closeNocancel _) => False
  | _ => True

def next : Slot → (e : Req) → Answer e → Slot
  | .bare fd, .fdMapAdd entry, _ => .mapped fd entry.inode entry.offset
  | .bare _, .call (.close _), _ => .closed
  | .mapped fd _ _, .fdMapDel _, _ => .bare fd
  | .mapped fd inode _, .fdMapSetOffset _ offset, _ => .mapped fd inode offset
  | .closed, .call (.memfdCreate _), .ok fd => .bare fd
  | slot, _, _ => slot

/-- What an answer tells it: the environment, that the image is loaded, its own entry, and
what the surroundings answer. -/
def told (o : Oracle) (env : Env) (slot : Slot) : (e : Req) → Answer e → Prop
  | .getenv .hooksqfsPrefix, value => value = env.hooksqfsPrefix
  | .getenv .hooksqfsFile, value => value = env.hooksqfsFile
  | .realPresent f, present => present = env.realPresent f
  | .getMgr, mgr => mgr.loaded = true
  | .fdMapFind key, found =>
    ∀ (fd : Nat) (inode : InodePtr) (offset : BitVec 64), slot = .mapped fd inode offset →
      key = fd → found = true
  | .fdMapEntry key, entry =>
    ∀ (fd : Nat) (inode : InodePtr) (offset : BitVec 64), slot = .mapped fd inode offset →
      key = fd → entry.key = key ∧ entry.inode = inode ∧ entry.offset = offset
  | .call c, a => ∃ (w : World) (n : Nat), a = w.granted c (o.answer n c)
  | _, _ => True

/-- The descriptor is open, and `fd_map` has what the thread knows. -/
def Holds (w : World) : Slot → Prop
  | .closed => True
  | .bare fd => (w.fds fd).isSome ∧ lookup FDMapEntry.key fd w.fdMap = none
  | .mapped fd inode offset => (w.fds fd).isSome ∧
      ∃ entry, lookup FDMapEntry.key fd w.fdMap = some entry ∧ entry.inode = inode ∧
        entry.offset = offset

theorem Holds.isOpen {w : World} {slot : Slot} {n : Nat} (h : slot.Holds w) (hn : slot.fd = some n) :
    (w.fds n).isSome := by
  cases slot with
  | closed => cases hn
  | bare fd =>
    cases hn
    exact h.1
  | mapped fd inode offset =>
    cases hn
    exact h.1

theorem Holds.frame {w w' : World} {slot : Slot} (h : slot.Holds w)
    (hsame : ∀ n, slot.fd = some n → w'.fds n = w.fds n ∧
      lookup FDMapEntry.key n w'.fdMap = lookup FDMapEntry.key n w.fdMap) : slot.Holds w' := by
  cases slot with
  | closed => trivial
  | bare fd =>
    obtain ⟨hfds, hlookup⟩ := hsame fd rfl
    exact ⟨hfds ▸ h.1, hlookup.trans h.2⟩
  | mapped fd inode offset =>
    obtain ⟨hfds, hlookup⟩ := hsame fd rfl
    obtain ⟨hopen, entry, hentry, heq⟩ := h
    exact ⟨hfds ▸ hopen, entry, hlookup.trans hentry, heq⟩

end Slot

/-- Nothing runs out and no close reports an error. -/
def NotRefused : (e : Req) → Answer e → Prop
  | .call (.memfdCreate _), a => ∃ fd, a = .ok fd
  | .call .malloc, a | .call .dirReaderCreate, a => a ≠ none
  | .call (.close _), a => a = .ok ()
  | _, _ => True

def NotRefusedLoad : (e : ImageReq) → ImageAnswer e → Prop
  | .hook e, a => NotRefused e a
  | _, _ => True

def descriptorContract (o : Oracle) (env : Env) (path : CString) :
    Contract ImageReq ImageAnswer Slot where
  permits _ slot
    | .hook e => slot.permits path e
    | _ => False
  answers _ slot
    | .hook e, a, slot' => slot.told o env e a ∧ NotRefused e a ∧ slot' = slot.next e a
    | _, _, _ => True
  undefined := False

/-- The process as the threads share it: what `fd_map` serves is open, the image is loaded,
and no two threads have one descriptor. -/
structure Shared (env : Env) (w : World) (xs : List (Nat × Slot)) : Prop where
  env : w.env = env
  loaded : w.mgr.loaded = true
  served : ∀ key, (lookup FDMapEntry.key key w.fdMap).isSome → (w.fds key).isSome
  distinct : (fdKeys w).Nodup
  holds : ∀ x ∈ xs, x.2.Holds w
  apart : xs.Pairwise fun x y => ∀ n, x.2.fd = some n → y.2.fd ≠ some n

namespace Shared
variable {env : Env} {w w' : World} {before after : List (Nat × Slot)} {held held' : Nat}
  {slot slot' : Slot} {xs : List (Nat × Slot)}

private theorem apart_middle {y : Nat × Slot} : (before ++ y :: after).Pairwise
      (fun x y => ∀ n, x.2.fd = some n → y.2.fd ≠ some n) ↔
    (∀ x ∈ before ++ after, ∀ n, y.2.fd = some n → x.2.fd ≠ some n) ∧
      (before ++ after).Pairwise fun x y => ∀ n, x.2.fd = some n → y.2.fd ≠ some n := by
  rw [List.pairwise_middle fun h n hn hn' => h n hn' hn, List.pairwise_cons]

/-- The state and one thread's descriptor change; the other threads find theirs as it was. -/
private theorem update (h : Shared env w (before ++ (held, slot) :: after)) (henv : w'.env = w.env)
    (hmgr : w'.mgr = w.mgr)
    (hserved : ∀ key, (lookup FDMapEntry.key key w'.fdMap).isSome → (w'.fds key).isSome)
    (hdistinct : (fdKeys w').Nodup) (hself : slot'.Holds w')
    (hfresh : ∀ n, slot'.fd = some n → slot.fd = some n ∨ w.fds n = none)
    (hothers : ∀ n : Nat, slot.fd ≠ some n → (w.fds n).isSome → w'.fds n = w.fds n ∧
      lookup FDMapEntry.key n w'.fdMap = lookup FDMapEntry.key n w.fdMap) :
    Shared env w' (before ++ (held', slot') :: after) := by
  obtain ⟨hapart, hpairs⟩ := apart_middle.mp h.apart
  have hholds : ∀ x ∈ before ++ after, x.2.Holds w := fun x hx =>
    h.holds x (mem_middle.mpr (.inr hx))
  refine ⟨henv.trans h.env, hmgr ▸ h.loaded, hserved, hdistinct, fun x hx => ?_,
    apart_middle.mpr ⟨fun x hx n hn hxn => ?_, hpairs⟩⟩
  · rcases mem_middle.mp hx with rfl | hx
    · exact hself
    · refine (hholds x hx).frame fun n hn => hothers n (fun hslot => ?_) ((hholds x hx).isOpen hn)
      exact hapart x hx n hslot hn
  · rcases hfresh n hn with hslot | hfree
    · exact hapart x hx n hslot hxn
    · have hopen := (hholds x hx).isOpen hxn
      rw [hfree] at hopen
      cases hopen

/-- Threads that have no descriptor yet. -/
theorem restart (h : Shared env w xs) {ys : List (Nat × Slot)}
    (hclosed : ∀ y ∈ ys, y.2 = .closed) : Shared env w ys where
  env := h.env
  loaded := h.loaded
  served := h.served
  distinct := h.distinct
  holds y hy := hclosed y hy ▸ trivial
  apart := by
    refine List.Pairwise.imp_of_mem (fun hx _ _ n hn => ?_)
      (List.pairwise_of_forall (R := fun _ _ => True) fun _ _ => trivial)
    rw [hclosed _ hx] at hn
    cases hn

theorem closed (h : Shared env w xs) {X : Type} (ys : List X) :
    Shared env w (ys.map fun _ => (0, .closed)) := by
  refine h.restart fun y hy => ?_
  obtain ⟨x, -, rfl⟩ := List.mem_map.mp hy
  rfl

/-- A change of what the threads do not share. -/
theorem same (h : Shared env w (before ++ (held, slot) :: after)) (henv : w'.env = w.env)
    (hmgr : w'.mgr = w.mgr) (hmap : w'.fdMap = w.fdMap) (hfds : w'.fds = w.fds) :
    Shared env w' (before ++ (held', slot) :: after) := by
  refine h.update henv hmgr ?_ ?_ ?_ (fun n hn => .inl hn) fun n _ _ => ?_
  · rw [hmap, hfds]
    exact h.served
  · rw [fdKeys, hmap]
    exact h.distinct
  · refine (h.holds _ (mem_middle.mpr (.inl rfl))).frame fun n _ => ?_
    rw [hmap, hfds]
    exact ⟨rfl, rfl⟩
  · rw [hmap, hfds]
    exact ⟨rfl, rfl⟩

/-- Its descriptor is entered in `fd_map`. -/
private theorem add {o : Oracle} {path : CString} {entry : FDMapEntry}
    (h : Shared env w (before ++ (held, slot) :: after))
    (hp : slot.permits path (.fdMapAdd entry)) :
    Shared env (World.handle o w (.fdMapAdd entry)).2
      (before ++ (held', slot.next (.fdMapAdd entry) ()) :: after) := by
  obtain ⟨fd, rfl, hkey⟩ := hp
  obtain ⟨hopen, hnone⟩ := h.holds _ (mem_middle.mpr (.inl rfl))
  refine h.update rfl rfl (fun key hkey' => ?_) ?_ ⟨hopen, entry, ?_, rfl, rfl⟩
    (fun n hn => .inl hn) fun n hn _ => ⟨rfl, ?_⟩
  · change (lookup FDMapEntry.key key (entry :: w.fdMap)).isSome at hkey'
    rw [lookup_cons] at hkey'
    split at hkey'
    · rename_i he
      rw [← he, hkey]
      exact hopen
    · exact h.served key hkey'
  · refine List.nodup_cons.mpr ⟨?_, h.distinct⟩
    rw [hkey]
    exact lookup_eq_none.mp hnone
  · exact if_pos hkey
  · refine if_neg fun he => hn ?_
    rw [hkey] at he
    exact congrArg some (Int.ofNat.inj he)

/-- It is taken out. -/
private theorem del {o : Oracle} {path : CString} {key : Int}
    (h : Shared env w (before ++ (held, slot) :: after)) (hp : slot.permits path (.fdMapDel key)) :
    Shared env (World.handle o w (.fdMapDel key)).2
      (before ++ (held', slot.next (.fdMapDel key) ()) :: after) := by
  obtain ⟨fd, inode, offset, rfl, rfl⟩ := hp
  obtain ⟨hopen, -⟩ := h.holds _ (mem_middle.mpr (.inl rfl))
  refine h.update rfl rfl (fun key hkey => ?_) (nodup_remove h.distinct)
    ⟨hopen, lookup_remove_self h.distinct⟩ (fun n hn => .inl hn) fun n hn _ => ⟨rfl, ?_⟩
  · by_cases he : key = (fd : Int)
    · rw [he]
      exact hopen
    · refine h.served key ?_
      rw [← lookup_remove_ne he w.fdMap]
      exact hkey
  · refine lookup_remove_ne (fun he => hn ?_) w.fdMap
    exact congrArg some (Int.ofNat.inj he.symm)

/-- Its offset is set. -/
private theorem setOffset {o : Oracle} {path : CString} {key : Int} {position : BitVec 64}
    (h : Shared env w (before ++ (held, slot) :: after))
    (hp : slot.permits path (.fdMapSetOffset key position)) :
    Shared env (World.handle o w (.fdMapSetOffset key position)).2
      (before ++ (held', slot.next (.fdMapSetOffset key position) ()) :: after) := by
  obtain ⟨fd, inode, offset, rfl, rfl⟩ := hp
  obtain ⟨hopen, entry, hentry, rfl, rfl⟩ := h.holds _ (mem_middle.mpr (.inl rfl))
  have hkeys : ∀ e : FDMapEntry, ({ e with offset := position } : FDMapEntry).key = e.key :=
    fun _ => rfl
  refine h.update rfl rfl (fun key hkey => ?_) ?_
    ⟨hopen, { entry with offset := position }, ?_, rfl, rfl⟩ (fun n hn => .inl hn)
    fun n hn _ => ⟨rfl, ?_⟩
  · by_cases he : key = (fd : Int)
    · rw [he]
      exact hopen
    · refine h.served key ?_
      rw [← lookup_adjust_ne hkeys he w.fdMap]
      exact hkey
  · change ((adjust FDMapEntry.key fd _ w.fdMap).map FDMapEntry.key).Nodup
    rw [map_adjust hkeys]
    exact h.distinct
  · change lookup FDMapEntry.key fd (adjust FDMapEntry.key fd _ w.fdMap) = _
    rw [lookup_adjust_self hkeys, hentry]
    rfl
  · refine lookup_adjust_ne hkeys (fun he => hn ?_) w.fdMap
    exact congrArg some (Int.ofNat.inj he.symm)

/-- A new descriptor. -/
private theorem memfd {o : Oracle} {flags : BitVec 32}
    (h : Shared env w (before ++ (held, .closed) :: after)) {fd : Nat}
    (hfd : w.outcome o (.memfdCreate flags) = .ok fd) :
    Shared env (w.afterCall o (.memfdCreate flags) (.ok fd)) (before ++ (held', .bare fd) :: after) := by
  have hnew : w.fds fd = none := (World.grantFd_ok hfd).2
  have hfds : ∀ key : Int, key ≠ fd → (w.gain fd (.backing w.caller)).fds key = w.fds key :=
    fun key hkey => Function.update_of_ne hkey _ _
  have hunserved : lookup FDMapEntry.key (fd : Int) w.fdMap = none := by
    by_contra hsome
    have hopen := h.served fd (Option.isSome_iff_ne_none.mpr hsome)
    rw [hnew] at hopen
    cases hopen
  have hgained : ∀ key, (w.fds key).isSome → ((w.gain fd (.backing w.caller)).fds key).isSome := by
    intro key hkey
    by_cases he : key = (fd : Int)
    · rw [he, World.gain_fds, Function.update_self]
      rfl
    · rw [hfds key he]
      exact hkey
  refine h.update rfl rfl (fun key hkey => hgained key (h.served key hkey)) h.distinct
    ⟨?_, hunserved⟩ (fun n hn => .inr ?_) fun n _ hopen => ⟨hfds n fun he => ?_, rfl⟩
  · change ((w.gain fd (.backing w.caller)).fds fd).isSome
    rw [World.gain_fds, Function.update_self]
    rfl
  · cases hn
    exact hnew
  · rw [he, hnew] at hopen
    cases hopen

/-- Its descriptor is closed. -/
private theorem close {o : Oracle} {fd : Nat} {a : Except Errno Unit}
    (h : Shared env w (before ++ (held, .bare fd) :: after)) :
    Shared env (w.afterCall o (.close fd) a) (before ++ (held', .closed) :: after) := by
  obtain ⟨-, hnone⟩ := h.holds _ (mem_middle.mpr (.inl rfl))
  have hfds : ∀ key : Int, key ≠ fd → (w.lose fd).fds key = w.fds key :=
    fun key hkey => Function.update_of_ne hkey _ _
  refine h.update rfl rfl (fun key hkey => ?_) h.distinct trivial (fun n hn => by cases hn)
    fun n hn _ => ⟨hfds n fun he => hn (congrArg some (Int.ofNat.inj he.symm)), rfl⟩
  have hne : key ≠ (fd : Int) := by
    intro he
    change (lookup FDMapEntry.key key w.fdMap).isSome at hkey
    rw [he, hnone] at hkey
    cases hkey
  change ((w.lose fd).fds key).isSome
  rw [hfds key hne]
  exact h.served key hkey

end Shared

section
variable {o : Oracle} {i : Nat → ImageOracle} {env : Env} {path : CString} {w : World}
  {before after : List (Nat × Slot)} {held held' : Nat} {slot : Slot}

private theorem told_handle (h : Shared env w (before ++ (held, slot) :: after)) (e : Req) :
    slot.told o env e (World.handle o w e).1 := by
  have hholds : slot.Holds w := h.holds (held, slot) (List.mem_append_right before List.mem_cons_self)
  cases e with
  | getenv v =>
    cases v with
    | hooksqfsLogInclude => trivial
    | _ => exact h.env ▸ rfl
  | realPresent f => exact h.env ▸ rfl
  | getMgr => exact h.loaded
  | fdMapFind key =>
    rintro fd inode offset rfl rfl
    obtain ⟨-, entry, hentry, -⟩ := hholds
    exact congrArg Option.isSome hentry
  | fdMapEntry key =>
    rintro fd inode offset rfl rfl
    obtain ⟨-, entry, hentry, hinode, hoffset⟩ := hholds
    have hanswer : (World.handle o w (.fdMapEntry fd)).1 = entry := by
      change (lookup FDMapEntry.key fd w.fdMap).getD default = entry
      rw [hentry]
      rfl
    rw [hanswer]
    exact ⟨(lookup_some hentry).2, hinode, hoffset⟩
  | call c => exact ⟨w, w.used c.fn, rfl⟩
  | _ => trivial

theorem Slot.next_call {c : Ext} (hc : c.fn.onDescriptors = false) (a : c.Ans) :
    slot.next (.call c) a = slot := by
  cases c with
  | memfdCreate flags => cases hc
  | close fd => cases hc
  | _ => cases slot <;> rfl

private theorem shared_call {c : Ext}
    (hupper : ∀ n flags mode, ∃ e, o.answer n (.open (some path) flags mode) = .error e)
    (h : Shared env w (before ++ (held, slot) :: after)) (hp : slot.permits path (.call c))
    (hgranted : NotRefused (.call c) (w.outcome o c)) :
    Shared env (w.afterCall o c (w.outcome o c))
      (before ++ (held', slot.next (.call c) (w.outcome o c)) :: after) := by
  have hother (hc : c.fn.onDescriptors = false) : Shared env (w.afterCall o c (w.outcome o c))
      (before ++ (held', slot.next (.call c) (w.outcome o c)) :: after) := by
    rw [Slot.next_call hc]
    exact h.same (w.afterCall_env o c _) (w.afterCall_mgr o c _) (w.afterCall_fdMap o c _)
      (w.afterCall_fds o c _ hc)
  cases c with
  | memfdCreate flags =>
    have hslot : slot = .closed := hp
    obtain ⟨fd, hfd⟩ : ∃ fd, w.outcome o (.memfdCreate flags) = .ok fd := hgranted
    subst hslot
    rw [hfd]
    exact h.memfd hfd
  | close key =>
    obtain ⟨fd, rfl, rfl⟩ := hp
    exact h.close
  | «open» pathname flags mode =>
    have hpath : pathname = some path := hp
    subst hpath
    obtain ⟨e, he⟩ := hupper (w.used .open) flags mode
    have hanswer : w.outcome o (.open (some path) flags mode) = .error e := congrArg w.grantFd he
    rw [hanswer]
    cases slot <;> exact h.same rfl rfl rfl rfl
  | openat p flags => exact hp.elim
  | closeNocancel fd => exact hp.elim
  | _ => exact hother rfl

/-- A permitted request keeps what the threads share. -/
private theorem shared_handle
    (hupper : ∀ n flags mode, ∃ e, o.answer n (.open (some path) flags mode) = .error e)
    (h : Shared env w (before ++ (held, slot) :: after)) {e : Req} (hp : slot.permits path e)
    (hgranted : NotRefused e (World.handle o w e).1) :
    Shared env (World.handle o w e).2
      (before ++ (held', slot.next e (World.handle o w e).1) :: after) := by
  cases e with
  | fdMapAdd entry => exact h.add hp
  | fdMapDel key => exact h.del hp
  | fdMapSetOffset key offset => exact h.setOffset hp
  | getenv v => cases v <;> cases slot <;> exact h.same rfl rfl rfl rfl
  | call c => exact shared_call hupper h hp hgranted
  | _ => cases slot <;> exact h.same rfl rfl rfl rfl

/-- The process of one descriptor, where a thread has its turn. -/
theorem Shared.turn {slot : Slot} {s : Process}
    (hupper : ∀ n flags mode, ∃ e, o.answer n (.open (some path) flags mode) = .error e)
    (h : Shared env s.world [(0, slot)]) {e : Req} (hp : slot.permits path e) (n : Nat) (l : Errno)
    (hgranted : NotRefused e ((threadMachine o i).handle (s.enter n l) (.hook e)).1) :
    slot.told o env e ((threadMachine o i).handle (s.enter n l) (.hook e)).1 ∧
      Shared env ((threadMachine o i).handle (s.enter n l) (.hook e)).2.world
        [(0, slot.next e ((threadMachine o i).handle (s.enter n l) (.hook e)).1)] := by
  have hone : Shared env s.world ([] ++ (0, slot) :: []) := h
  have henter : Shared env { s.world with errno := l, caller := n } ([] ++ (0, slot) :: []) :=
    hone.same rfl rfl rfl rfl
  exact ⟨told_handle henter e, shared_handle hupper henter hp hgranted⟩

theorem descriptorContract_upheld
    (hupper : ∀ n flags mode, ∃ e, o.answer n (.open (some path) flags mode) = .error e) :
    (threadMachine o i).Upholds (descriptorContract o env path) NotRefusedLoad
      fun s xs => Shared env s.world xs where
  serves := by
    intro s n l before after held slot e hinv hpermits _ _ _ hgranted
    cases e with
    | hook e =>
      have henter : Shared env { s.world with errno := l, caller := n }
          (before ++ (held, slot) :: after) := hinv.same rfl rfl rfl rfl
      exact ⟨_, ⟨told_handle henter e, hgranted, rfl⟩,
        shared_handle hupper henter hpermits hgranted⟩
    | _ => exact hpermits.elim

end

end HookSqfs.Clients
