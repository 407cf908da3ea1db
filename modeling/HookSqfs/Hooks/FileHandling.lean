import HookSqfs.Hooks.LiveObjects
import HookSqfs.Hooks.PathHooks

/-! The hooks on files use and release only what their thread has in hand or has found, and
leave it with what it had. -/
namespace HookSqfs.Hooks
open Manager Interaction Tables

/-- A request that takes neither the lock nor what it guards, and reads no object. -/
def apart : Req → Bool
  | .lock | .unlock | .fdMapFind _ | .fdMapEntry _ | .fdMapAdd _ | .fdMapDel _
  | .fdMapSetOffset .. | .dirMapFind _ | .dirMapEntry _ | .dirMapAdd _ | .dirMapDel _
  | .dirMapSetList .. | .dirMapSetCurrent .. | .dirMapSetReachedEnd _ | .deref _
  | .call (.dataReaderRead ..) | .call (.openDir _) => false
  | _ => true

theorem apart.of_log {e : Req} (h : e.isLog = true) : apart e = true := by
  unfold Req.isLog at h
  split at h <;> first | rfl | cases h

theorem apart.of_backing {e : Req} (h : e.isBacking = true) : apart e = true := by
  cases e with
  | call c => cases c <;> first | rfl | cases h
  | _ => first | rfl | cases h

theorem apart.of_lookup {e : Req} (h : e.isLookup = true) : apart e = true := by
  cases e with
  | call c => cases c <;> first | rfl | cases h
  | _ => first | rfl | cases h

theorem apart.after {e : Req} (h : apart e = true) (n : Nat) :
    managerLocking.after (.hook e) n = n := by
  cases e with
  | lock => cases h
  | unlock => cases h
  | _ => rfl

/-- What the ledger allows is permitted. -/
theorem apart.permits {g : Hand} {e : Req} (h : apart e = true)
    (hheld : ∀ a, ∃ held, holdings e a g.held = some held) : g.permits e := by
  have hreleases : ∀ x, (∃ held, replay g.held [.released x] = some held) → x ∈ g.held := by
    rintro x ⟨held, hheld⟩
    by_contra hnot
    simp [replay, LedgerEvent.apply, hnot] at hheld
  cases e with
  | call c =>
    cases c with
    | free addr => exact hreleases _ (hheld ())
    | sqfsFree addr => exact hreleases _ (hheld ())
    | sqfsDestroy addr => exact hreleases _ (hheld ())
    | _ => first | exact absurd h Bool.false_ne_true | trivial
  | _ => first | exact absurd h Bool.false_ne_true | trivial

/-- Only what is held changes. -/
theorem apart.next {g : Hand} {e : Req} {a : Answer e} {held : Multiset Object} (h : apart e = true)
    (hheld : holdings e a g.held = some held) : g.next e a = { g with held } := by
  cases e with
  | call c =>
    have hheld : replay g.held (c.events a) = some held := hheld
    rw [Hand.next, hheld]
    rfl
  | _ =>
    first
    | exact absurd h Bool.false_ne_true
    | cases hheld
      rfl

section
variable {b : Bits} {α β : Type} {p : Hook α} {n : Nat} {g : Hand} {held : Multiset Object}
  {fd : Int} {entries : Bool} {Q S : α → Nat → Hand → Prop}

/-- Whatever it is answered, the hook does what it may with what the thread has in hand, and
comes to an end with `Q`. -/
def Handles (entries : Bool) (p : Hook α) (n : Nat) (g : Hand) (Q : α → Nat → Hand → Prop) : Prop :=
  (relay p).Meets managerLocking (memoryContract entries) n g Q

namespace Handles

theorem ret {a : α} (h : Q a n g) : Handles entries (.ret a) n g Q := h

theorem request {e : Req} {k : Answer e → Hook α} (hp : g.permits e)
    (h : ∀ a, Hand.told e a → Handles entries (k a) (managerLocking.after (.hook e) n) (g.next e a) Q) :
    Handles entries (.request e k) n g Q :=
  ⟨hp, fun a _ ⟨htold, _, hnext⟩ => hnext ▸ h a htold⟩

theorem mono (hp : Handles entries p n g S) (h : ∀ a n g, S a n g → Q a n g) : Handles entries p n g Q :=
  Program.Meets.mono hp h

theorem bind {f : α → Hook β} {Q : β → Nat → Hand → Prop} (hp : Handles entries p n g S)
    (hf : ∀ a n g, S a n g → Handles entries (f a) n g Q) : Handles entries (p >>= f) n g Q := by
  rw [Handles, relay_bind]
  exact Program.Meets.bind hp hf

theorem ite {c : Prop} [Decidable c] {q : Hook α} (hp : c → Handles entries p n g Q)
    (hq : ¬ c → Handles entries q n g Q) : Handles entries (if c then p else q) n g Q := by
  split
  · rename_i h
    exact hp h
  · rename_i h
    exact hq h

/-- Apart from the lock and the table, what is allowed is what the ledger allows. -/
theorem of_tracks {R : α → Multiset Object → Prop} (hp : p.All fun e => apart e)
    (ht : p.Tracks holdings g.held R) :
    Handles entries p n g fun a n' g' => n' = n ∧ ∃ held, g' = { g with held } ∧ R a held := by
  induction p generalizing g with
  | ret a => exact ⟨rfl, g.held, rfl, ht⟩
  | undefined => exact hp.elim
  | request e k ih =>
    obtain ⟨he, hk⟩ := hp
    refine request (apart.permits he fun a => (ht a).imp fun _ h => h.1) fun a _ => ?_
    obtain ⟨held, hheld, hrest⟩ := ht a
    rw [apart.after he, apart.next he hheld]
    exact ih a (g := { g with held }) (hk a) hrest

theorem of_all (hp : p.All fun e => apart e) (hkeeps : p.All fun e => e.keepsLedger) :
    Handles entries p n g fun _ n' g' => n' = n ∧ g' = g := by
  apply (of_tracks hp (Program.Tracks.of_all (fun e a he => holdings_idle e a g.held he) hkeeps)).mono
  rintro a _ _ ⟨rfl, held, rfl, rfl⟩
  exact ⟨rfl, rfl⟩

theorem idle {e : Req} {k : Answer e → Hook α} (he : apart e = true) (hkeeps : e.keepsLedger = true)
    (h : ∀ a, Handles entries (k a) n g Q) : Handles entries (.request e k) n g Q := by
  have hask : Handles entries (Program.ask e) n g fun _ n' g' => n' = n ∧ g' = g :=
    of_all ⟨he, fun _ => trivial⟩ ⟨hkeeps, fun _ => trivial⟩
  apply hask.bind
  rintro a _ _ ⟨rfl, rfl⟩
  exact h a

theorem logHook (funcName : Option CString) :
    Handles entries (logHook funcName) n g fun _ n' g' => n' = n ∧ g' = g :=
  of_all ((logHook_all funcName).mono fun _ he => apart.of_log he)
    ((logHook_all funcName).mono fun _ he => Req.isLog.keepsLedger he)

theorem log {f : Unit → Hook β} {Q : β → Nat → Hand → Prop} (funcName : Option CString)
    (h : Handles entries (f ()) n g Q) : Handles entries (Manager.logHook funcName >>= f) n g Q := by
  apply (logHook funcName).bind
  rintro _ _ _ ⟨rfl, rfl⟩
  exact h

/-- What is read is within reach. -/
theorem deref {objects : List Object} {k : Unit → Hook α} (hreach : ∀ x ∈ objects, g.reaches x)
    (h : Handles entries (k ()) n g Q) : Handles entries (.request (.deref objects) k) n g Q :=
  request hreach fun _ _ => h

/-- What is released is in hand. -/
theorem release {c : Ext} {x : Object} {k : c.Ans → Hook α} (hp : (g.permits (.call c)) = (x ∈ g.held))
    (hevents : ∀ a, c.events a = [.released x]) (hheld : g.held = x ::ₘ held)
    (h : ∀ a, Handles entries (k a) n { g with held } Q) : Handles entries (.request (.call c) k) n g Q := by
  refine request (hp ▸ hheld ▸ Multiset.mem_cons_self x held) fun a _ => ?_
  have hnext : g.next (.call c) a = { g with held } := by
    rw [Hand.next, hevents, hheld]
    simp [replay, LedgerEvent.apply]
  rw [hnext]
  exact h a

end Handles

/-- An entry of `fd_map` that was found and its inode are within reach. -/
theorem Hand.reaches_seen {g : Hand} {entry entry' : FDMapEntry} (h : g.seen = some entry')
    (hsame : entry'.object = entry.object ∧ entry'.inode = entry.inode) :
    ∀ x ∈ [entry.object, entry.inode.object], g.reaches x := by
  intro x hx
  refine .inr (.inl ⟨entry', h, ?_⟩)
  rw [hsame.1, hsame.2]
  simpa using hx

/-- A section that is about to end has as much in hand as before it, and nothing to fill. -/
structure Left (held : Multiset Object) (g : Hand) : Prop where
  held : g.held = held
  filling : g.filling = none

theorem Handles.unlock {k : Unit → Hook α} (hg : Left held g)
    (h : Handles entries (k ()) n (.empty held) Q) : Handles entries (.request .unlock k) (n + 1) g Q := by
  have howed : g.owed = 0 := Hand.owed_none hg.filling
  have hnext : g.next .unlock () = .empty held := by
    rw [Hand.next, howed, tsub_zero, hg.held]
  have hpermits : g.owed ≤ g.held := by
    rw [howed]
    exact Multiset.zero_le g.held
  refine .request hpermits fun _ _ => ?_
  rw [hnext]
  exact h

/-- The hook leaves the thread with what it had, and without the lock. -/
def Tidy (p : Hook α) : Prop :=
  ∀ entries held, Handles entries p 0 (.empty held) fun _ n g => n = 0 ∧ g = .empty held

namespace Tidy

theorem ret (a : α) : Tidy (.ret a) := fun _ _ => ⟨rfl, rfl⟩

theorem bind {f : α → Hook β} (hp : Tidy p) (hf : ∀ a, Tidy (f a)) : Tidy (p >>= f) := by
  intro entries held
  apply (hp entries held).bind
  rintro a _ _ ⟨rfl, rfl⟩
  exact hf a entries held

theorem of_all (hp : p.All fun e => apart e) (hkeeps : p.All fun e => e.keepsLedger) : Tidy p :=
  fun _ _ => Handles.of_all hp hkeeps

theorem idle {e : Req} {k : Answer e → Hook α} (he : apart e = true) (hkeeps : e.keepsLedger = true)
    (h : ∀ a, Tidy (k a)) : Tidy (.request e k) :=
  fun entries held => .idle he hkeeps fun a => h a entries held

theorem ite {c : Prop} [Decidable c] {q : Hook α} (hp : Tidy p) (hq : Tidy q) :
    Tidy (if c then p else q) :=
  fun entries held => .ite (fun _ => hp entries held) fun _ => hq entries held

theorem log {f : Unit → Hook β} (funcName : Option CString) (h : Tidy (f ())) :
    Tidy (logHook funcName >>= f) :=
  fun entries held => .log funcName (h entries held)

/-- A hook that looks its descriptor up: with the key found, the section ends with as much in
hand. -/
theorem dispatch {mapped : Hook α} {after : α → Hook β} {fall : Hook β}
    (hmapped : ∀ entries held, Handles entries mapped 1 { Hand.empty held with found := some fd }
      fun _ n g => n = 1 ∧ Left held g)
    (hafter : ∀ a, Tidy (after a)) (hfall : Tidy fall) : Tidy (dispatch fd mapped after fall) := by
  intro entries held
  refine .request trivial fun _ _ => .request trivial fun found _ => ?_
  cases found with
  | true =>
    refine Handles.bind (p := mapped) (hmapped entries held) ?_
    rintro a _ g ⟨rfl, hg⟩
    exact .unlock hg (hafter a entries held)
  | false => exact .unlock ⟨rfl, rfl⟩ (hfall entries held)

end Tidy
end

section
variable {b : Bits} {n : Nat} {held : Multiset Object} {entries : Bool}

theorem sqfsReadMapped_handles (fd : Int) (count : BitVec b.width) :
    Handles entries (sqfsReadMapped b fd count) n { Hand.empty held with found := some fd }
      fun _ n' g => n' = n ∧ Left held g := by
  refine .request rfl fun entry hkey => .request ⟨entry, rfl, rfl⟩ fun ret _ =>
    .deref (Hand.reaches_seen rfl ⟨rfl, rfl⟩) ?_
  cases ret with
  | error e => exact .log _ (.idle rfl rfl fun _ => .ret ⟨rfl, rfl, rfl⟩)
  | ok data =>
    exact .log _ (.request ⟨entry, rfl, hkey⟩ fun _ _ => .idle rfl rfl fun _ => .ret ⟨rfl, rfl, rfl⟩)

theorem sqfsPreadMapped_handles (func : CString) (fd : Int) (entry : FDMapEntry)
    (count : BitVec b.width) (offset : BitVec 64) :
    Handles entries (sqfsPreadMapped b func entry count offset) n
      { Hand.empty held with found := some fd, seen := some entry } fun _ n' g => n' = n ∧ Left held g := by
  refine .ite (fun _ => .idle rfl rfl fun _ => .ret ⟨rfl, rfl, rfl⟩) fun _ => ?_
  refine .request ⟨entry, rfl, rfl⟩ fun ret _ => .deref (Hand.reaches_seen rfl ⟨rfl, rfl⟩) ?_
  cases ret with
  | error e => exact .log _ (.idle rfl rfl fun _ => .ret ⟨rfl, rfl, rfl⟩)
  | ok data => exact .log _ (.idle rfl rfl fun _ => .ret ⟨rfl, rfl, rfl⟩)

theorem sqfsLseekMapped_handles (func : CString) (fd : Int) (entry : FDMapEntry)
    (offset : BitVec 64) (whence : Int) (maxReturn : BitVec 64) :
    Handles entries (sqfsLseekMapped func entry offset whence maxReturn) n
      { Hand.empty held with found := some fd, seen := some entry } fun _ n' g => n' = n ∧ Left held g := by
  refine .deref (Hand.reaches_seen rfl ⟨rfl, rfl⟩) ?_
  cases sqfsSeekCalculate entry offset whence with
  | error err =>
    exact .idle rfl rfl fun _ => .deref (Hand.reaches_seen rfl ⟨rfl, rfl⟩)
      (.log _ (.ret ⟨rfl, rfl, rfl⟩))
  | ok newOffset =>
    refine .ite (fun _ => .idle rfl rfl fun _ => .deref (Hand.reaches_seen rfl ⟨rfl, rfl⟩)
      (.log _ (.ret ⟨rfl, rfl, rfl⟩))) fun _ => ?_
    -- the entry that was seen has another offset now, and the same objects
    exact .request ⟨entry, rfl, rfl⟩ fun _ _ => .idle rfl rfl fun _ =>
      .deref (Hand.reaches_seen rfl ⟨rfl, rfl⟩) (.log _ (.ret ⟨rfl, rfl, rfl⟩))

theorem sqfsCloseMapped_handles (fd : Int) :
    Handles entries (sqfsCloseMapped fd) n { Hand.empty held with found := some fd }
      fun _ n' g => n' = n ∧ Left held g := by
  refine .request rfl fun entry hkey => .deref (Hand.reaches_seen rfl ⟨rfl, rfl⟩)
    (.request ⟨entry, rfl, hkey⟩ fun _ _ => .deref ?_ ?_)
  · rintro x hx
    cases List.mem_singleton.mp hx
    exact .inl (Multiset.mem_cons_self entry.object _)
  · -- the inode goes before the entry
    exact .release rfl (fun _ => rfl) (Multiset.cons_swap entry.object entry.inode.object held)
      fun _ => .release rfl (fun _ => rfl) rfl fun _ => .ret ⟨rfl, rfl, rfl⟩

theorem sqfsRead_tidy (fd : Int) (count : BitVec b.width) : Tidy (sqfsRead b fd count) := by
  rw [sqfsRead_eq]
  exact .dispatch (fun _ _ => sqfsReadMapped_handles fd count) (fun r => .ret r)
    (.idle rfl rfl fun _ => .ret _)

theorem sqfsPread_tidy (fd : Int) (count offset : BitVec b.width) :
    Tidy (sqfsPread b fd count offset) := by
  rw [sqfsPread_eq]
  exact .dispatch (fun _ _ => .request rfl fun entry _ => sqfsPreadMapped_handles _ fd entry count _)
    (fun r => .ret r) (.idle rfl rfl fun _ => .ret _)

theorem sqfsPread64_tidy (fd : Int) (count : BitVec b.width) (offset : BitVec 64) :
    Tidy (sqfsPread64 b fd count offset) := by
  rw [sqfsPread64_eq]
  exact .dispatch (fun _ _ => .request rfl fun entry _ => sqfsPreadMapped_handles _ fd entry count _)
    (fun r => .ret r) (.idle rfl rfl fun _ => .ite (.idle rfl rfl fun _ => .ret _)
      (.idle rfl rfl fun _ => .ret _))

theorem sqfsLseek_tidy (fd : Int) (offset : BitVec b.width) (whence : Int) :
    Tidy (sqfsLseek b fd offset whence) := by
  rw [sqfsLseek_eq]
  refine .dispatch (fun _ _ => .request rfl fun entry _ => ?_) (fun r => ?_)
    (.idle rfl rfl fun _ => .ret _)
  · exact sqfsLseekMapped_handles _ fd entry _ whence _
  · cases r <;> exact .ret _

theorem sqfsLseek64_tidy (fd : Int) (offset : BitVec 64) (whence : Int) :
    Tidy (sqfsLseek64 fd offset whence) := by
  rw [sqfsLseek64_eq]
  refine .dispatch (fun _ _ => .request rfl fun entry _ => ?_) (fun r => ?_)
    (.idle rfl rfl fun _ => .ite (.idle rfl rfl fun _ => .ret _) (.idle rfl rfl fun _ => .ret _))
  · exact sqfsLseekMapped_handles _ fd entry _ whence _
  · cases r <;> exact .ret _

/-- The real close, and the log after a descriptor of the table. -/
theorem sqfsCloseImpl_tidy (func : CString) (fd : Int) {realClose : Option (Hook (Except Errno Unit))}
    (hreal : ∀ p, realClose = some p → Tidy p) : Tidy (sqfsCloseImpl func fd realClose) := by
  cases realClose with
  | none => exact .idle rfl rfl fun _ => .ret _
  | some realClose =>
    have hclose : Tidy realClose := hreal realClose rfl
    rw [sqfsCloseImpl_eq]
    refine .dispatch (fun _ _ => sqfsCloseMapped_handles fd) (fun _ => hclose.bind fun ret => ?_)
      (hclose.bind fun ret => .ret _)
    exact .idle rfl rfl fun _ => Tidy.log _ (.idle rfl rfl fun _ => .ret _)

theorem sqfsClose_tidy (fd : Int) : Tidy (sqfsClose fd) := by
  refine .idle rfl rfl fun present => sqfsCloseImpl_tidy _ fd fun p hp => ?_
  cases present with
  | false => cases hp
  | true =>
    cases hp
    exact .idle rfl rfl fun _ => .ret _

theorem sqfsCloseNocancel_tidy (fd : Int) : Tidy (sqfsCloseNocancel fd) := by
  refine .idle rfl rfl fun nocancel => .idle rfl rfl fun present =>
    sqfsCloseImpl_tidy _ fd fun p hp => ?_
  cases nocancel with
  | true =>
    cases hp
    exact .idle rfl rfl fun _ => .ret _
  | false =>
    cases present with
    | false => cases hp
    | true =>
      cases hp
      exact .idle rfl rfl fun _ => .ret _

/-- A found inode is in hand. -/
theorem sqfsFindInode_handles (relative : Option CString) :
    Handles entries (sqfsFindInode relative) n (.empty held)
      fun r n' g => n' = n ∧ g = .empty (withInode held r) := by
  apply (Handles.of_tracks (g := .empty held) ((sqfsFindInode_all relative).mono fun _ he =>
    apart.of_lookup he) (tracks_sqfsFindInode relative)).mono
  rintro r _ _ ⟨rfl, _, rfl, rfl⟩
  exact ⟨rfl, rfl⟩

/-- With the inode and the entry in the table, or the inode given back. -/
theorem openInsert_handles (flags : BitVec 32) (inode : InodePtr) :
    Handles entries (openInsert flags inode) n (.empty (inode.object ::ₘ held))
      fun _ n' g => n' = n ∧ g = .empty held := by
  have hbacking : Handles entries (createBackingFd flags) n (.empty (inode.object ::ₘ held))
      fun _ n' g => n' = n ∧ g = .empty (inode.object ::ₘ held) :=
    .of_all ((createBackingFd_all flags).mono fun _ he => apart.of_backing he)
      ((createBackingFd_all flags).mono fun _ he => Req.isBacking.keepsLedger he)
  apply hbacking.bind
  rintro fd _ _ ⟨rfl, rfl⟩
  refine .ite (fun _ => .release rfl (fun _ => rfl) rfl fun _ => .ret ⟨rfl, rfl⟩) fun _ => ?_
  refine .request trivial fun fdEntry _ => ?_
  cases fdEntry with
  | none =>
    exact .idle rfl rfl fun _ => .idle rfl rfl fun _ =>
      .release rfl (fun _ => rfl) rfl fun _ => .ret ⟨rfl, rfl⟩
  | some addr =>
    have hheld : ⟨.malloc, addr⟩ ::ₘ {inode.object} ≤ ⟨.malloc, addr⟩ ::ₘ inode.object ::ₘ held :=
      Multiset.cons_le_cons _ (Multiset.singleton_le.mpr (Multiset.mem_cons_self inode.object held))
    have hrest : ⟨.malloc, addr⟩ ::ₘ inode.object ::ₘ held - (⟨.malloc, addr⟩ ::ₘ {inode.object}) =
        held := by
      simp
    refine .request hheld fun _ _ => .idle rfl rfl fun _ => .ret ⟨rfl, ?_⟩
    exact congrArg Hand.empty hrest

theorem openFound_handles (flags : BitVec 32) (inode : InodePtr) :
    Handles entries (openFound flags inode) 1 (.empty (inode.object ::ₘ held))
      fun _ n g => n = 0 ∧ g = .empty held := by
  apply (openInsert_handles flags inode).bind
  rintro fd _ _ ⟨rfl, rfl⟩
  exact .unlock ⟨rfl, rfl⟩ (.log _ (.ret ⟨rfl, rfl⟩))

theorem openRouted_tidy (relative : CString) (flags : BitVec 32) : Tidy (openRouted relative flags) := by
  intro entries held
  refine .request trivial fun _ _ => (sqfsFindInode_handles (n := 1) (some relative)).bind ?_
  rintro (_ | inode) _ _ ⟨rfl, rfl⟩
  · exact .idle rfl rfl fun _ => .unlock ⟨rfl, rfl⟩ (.log _ (.idle rfl rfl fun _ => .ret ⟨rfl, rfl⟩))
  · exact openFound_handles flags inode

theorem sqfsCheckPath_tidy (pathname : Option CString) : Tidy (sqfsCheckPath pathname) :=
  .idle rfl rfl fun _ => .idle rfl rfl fun _ => .ret _

theorem sqfsOpen_tidy (pathname : Option CString) (flags mode : BitVec 32) :
    Tidy (sqfsOpen pathname flags mode) := by
  rw [sqfsOpen_eq]
  refine .idle rfl rfl fun fd => ?_
  cases fd with
  | ok fd => exact .ret _
  | error e =>
    rw [openRest, openLower_eq]
    exact .idle rfl rfl fun _ => (sqfsCheckPath_tidy pathname).bind fun checked =>
      .ite (.idle rfl rfl fun _ => .ret _) (openRouted_tidy checked.2 flags)

/-- Both calls that take the `stat` view give the inode back. -/
theorem sqfsStatImpl_handles (relative : Option CString) :
    Handles entries (sqfsStatImpl b relative) n (.empty held) fun _ n' g => n' = n ∧ g = .empty held := by
  apply (sqfsFindInode_handles relative).bind
  rintro (_ | inode) _ _ ⟨rfl, rfl⟩
  · exact .ret ⟨rfl, rfl⟩
  · refine .deref ?_ (.idle rfl rfl fun _ => .release rfl (fun _ => rfl) rfl fun _ => .ret ⟨rfl, rfl⟩)
    rintro x hx
    cases List.mem_singleton.mp hx
    exact .inl (Multiset.mem_cons_self inode.object held)

theorem sqfsXstat_tidy (ver : Int) (pathname : Option CString) (buf : Option Stat) :
    Tidy (sqfsXstat b ver pathname buf) := by
  have hlower : ∀ relative buf, Tidy (xstatLower b relative buf) := by
    intro relative buf entries held
    refine .request trivial fun _ _ => (sqfsStatImpl_handles (n := 1) (some relative)).bind ?_
    rintro (_ | st) _ _ ⟨rfl, rfl⟩
    · exact .idle rfl rfl fun _ => .unlock ⟨rfl, rfl⟩ (.idle rfl rfl fun _ => .ret ⟨rfl, rfl⟩)
    · exact .idle rfl rfl fun _ => .unlock ⟨rfl, rfl⟩ (.idle rfl rfl fun _ => .ret ⟨rfl, rfl⟩)
  refine .idle rfl rfl fun real => ?_
  cases real with
  | ok st => exact .ret _
  | error e =>
    refine (sqfsCheckPath_tidy pathname).bind fun checked => .ite (.idle rfl rfl fun _ => .ret _) ?_
    cases buf with
    | none => exact .idle rfl rfl fun _ => .ret _
    | some st =>
      exact .ite (Tidy.log _ (.idle rfl rfl fun _ => .ret _)) (hlower checked.2 st)

theorem sqfsAccess_tidy (pathname : Option CString) (mode : BitVec 32) :
    Tidy (sqfsAccess b pathname mode) := by
  have hlog : Tidy (accessLog pathname) :=
    .idle rfl rfl fun _ => .idle rfl rfl fun _ => .ite (fun _ _ => Handles.logHook _) (.ret _)
  have hreturn : Tidy (accessReturnErr pathname) := hlog.bind fun _ => .ret _
  refine .idle rfl rfl fun real => ?_
  cases real with
  | ok _ => exact hlog.bind fun _ => .ret _
  | error e =>
    refine (sqfsCheckPath_tidy pathname).bind fun checked => .ite (.idle rfl rfl fun _ => hreturn) ?_
    intro entries held
    refine .request trivial fun _ _ => (sqfsStatImpl_handles (n := 1) (some checked.2)).bind ?_
    rintro (_ | st) _ _ ⟨rfl, rfl⟩
    · exact .idle rfl rfl fun _ => .unlock ⟨rfl, rfl⟩ (.idle rfl rfl fun _ => hreturn entries held)
    · refine .idle rfl rfl fun _ => .unlock ⟨rfl, rfl⟩ ?_
      dsimp only
      cases accessDecision st.stMode mode with
      | some e => exact .idle rfl rfl fun _ => hreturn entries held
      | none => exact .log _ (.ret ⟨rfl, rfl⟩)

end
end HookSqfs.Hooks
