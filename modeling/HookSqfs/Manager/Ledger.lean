import HookSqfs.Interaction.Tracking
import HookSqfs.Manager.RequestKinds
import Mathlib.Data.Multiset.AddSub

/-! The objects that are held, as the ledger of a run records them. -/
namespace HookSqfs.Manager
open Interaction

section replay
variable {α : Type} [DecidableEq α]

/-- Only what is held may be released. -/
def LedgerEvent.apply (held : Multiset α) : LedgerEvent α → Option (Multiset α)
  | .acquired x => some (x ::ₘ held)
  | .released x => if x ∈ held then some (held.erase x) else none

/-- What is held after the events, when `held` was before. -/
def replay (held : Multiset α) (events : List (LedgerEvent α)) : Option (Multiset α) :=
  events.foldlM LedgerEvent.apply held

theorem replay_append (held : Multiset α) (es fs : List (LedgerEvent α)) :
    replay held (es ++ fs) = (replay held es).bind fun h => replay h fs :=
  List.foldlM_append

end replay

/-- What an outside call adds to the ledger. -/
def Ext.events : (c : Ext) → c.Ans → List (LedgerEvent Object)
  | .malloc, some addr => [.acquired ⟨.malloc, addr⟩]
  | .dirReaderCreate, some addr => [.acquired (readerObject addr)]
  | .getRootInode, .ok p | .findByPath _, .ok p => [.acquired p.object]
  | .dirReaderRead (some item), _ => [.acquired item.entry.object]
  | .dirReaderGetInode (.ok p), _ => [.acquired p.object]
  | .free addr, _ => [.released ⟨.malloc, addr⟩]
  | .sqfsFree addr, _ => [.released ⟨.library, addr⟩]
  | .sqfsDestroy addr, _ => [.released (readerObject addr)]
  | _, _ => []

theorem World.afterCall_ledger (w : World) (o : Oracle) (c : Ext) (a : c.Ans) :
    (w.afterCall o c a).ledger = w.ledger ++ c.events a := by
  unfold afterCall effect Ext.events
  split <;> first | rfl | exact (List.append_nil _).symm | simp_all

/-- The objects held, followed through a program. -/
def holdings : Tracker Req Answer (Multiset Object)
  | .call c, a, held => replay held (c.events a)
  | _, _, held => some held

/-- Between the two states the ledger is in order and leaves `held`. -/
def Holds (w₀ w : World) (held : Multiset Object) : Prop :=
  ∃ events, w.ledger = w₀.ledger ++ events ∧ replay 0 events = some held

namespace Holds
variable {w₀ w w' : World} {held held' : Multiset Object}

theorem refl (w : World) : Holds w w 0 := ⟨[], (List.append_nil _).symm, rfl⟩

theorem congr (h : Holds w₀ w held) (hl : w'.ledger = w.ledger) : Holds w₀ w' held := by
  obtain ⟨events, hw, hr⟩ := h
  exact ⟨events, hl.trans hw, hr⟩

theorem call {o : Oracle} {c : Ext} {a : c.Ans} (h : Holds w₀ w held)
    (hc : replay held (c.events a) = some held') : Holds w₀ (w.afterCall o c a) held' := by
  obtain ⟨events, hw, hr⟩ := h
  refine ⟨events ++ c.events a, ?_, ?_⟩
  · rw [w.afterCall_ledger, hw, List.append_assoc]
  · rw [replay_append, hr]
    exact hc

/-- What is held is determined by the two states. -/
theorem unique (h : Holds w₀ w held) (k : Holds w₀ w held') : held = held' := by
  obtain ⟨events, hw, hr⟩ := h
  obtain ⟨events', hw', hr'⟩ := k
  have he : events = events' := List.append_cancel_left (hw.symm.trans hw')
  rw [he, hr'] at hr
  exact (Option.some.inj hr).symm

end Holds

/-- A request that obtains and releases nothing. -/
def Req.keepsLedger : Req → Bool
  | .call c =>
    match c.fn with
    | .malloc | .dirReaderCreate | .getRootInode | .findByPath | .dirReaderRead
    | .dirReaderGetInode | .free | .sqfsFree | .sqfsDestroy => false
    | _ => true
  | _ => true

theorem Req.isLog.keepsLedger {e : Req} (h : e.isLog = true) : e.keepsLedger = true := by
  unfold isLog at h
  split at h <;> first | rfl | cases h

theorem Req.isBacking.keepsLedger {e : Req} (h : e.isBacking = true) : e.keepsLedger = true := by
  cases e with
  | call c => cases c <;> first | rfl | cases h
  | _ => rfl

theorem holdings_idle (e : Req) (a : Answer e) (held : Multiset Object) (h : e.keepsLedger = true) :
    holdings e a held = some held := by
  cases e with
  | call c => cases c <;> first | rfl | cases h
  | _ => rfl

private theorem Holds.handle {o : Oracle} {w₀ w : World} {held held' : Multiset Object} (e : Req)
    (h : Holds w₀ w held) (he : holdings e (World.handle o w e).1 held = some held') :
    Holds w₀ (World.handle o w e).2 held' := by
  cases e with
  | call c => exact h.call he
  | getenv v =>
    cases he
    cases v <;> exact h
  | _ =>
    cases he
    exact h

/-- What the ghost state says is held is what the ledger leaves. -/
theorem Holds.of_tracks {o : Oracle} {α : Type} {p : Hook α} {w₀ w w' : World}
    {held : Multiset Object} {Q : α → Multiset Object → Prop} {a : α} (hp : p.Tracks holdings held Q)
    (hw : Holds w₀ w held) (hrun : runAlone o p w = some (a, w')) :
    ∃ held', Q a held' ∧ Holds w₀ w' held' := by
  exact hp.run (fun _ e _ _ hs he => hs.handle e he) hw hrun

theorem Holds.of_all {o : Oracle} {α : Type} {p : Hook α} {w₀ w w' : World}
    {held : Multiset Object} {a : α} (hp : p.All fun e => e.keepsLedger) (hw : Holds w₀ w held)
    (hrun : runAlone o p w = some (a, w')) : Holds w₀ w' held := by
  obtain ⟨held', rfl, hw'⟩ := Holds.of_tracks
    (Program.Tracks.of_all (fun e a he => holdings_idle e a held he) hp) hw hrun
  exact hw'

section
variable {α : Type} {held : Multiset Object} {Q : α → Multiset Object → Prop}

/-- A call that obtains nothing and releases nothing. -/
theorem tracks_call_idle {c : Ext} {k : c.Ans → Hook α} (hc : (Req.call c).keepsLedger = true)
    (h : ∀ a, (k a).Tracks holdings held Q) :
    (Program.request (.call c) k : Hook α).Tracks holdings held Q :=
  .idle (fun a => holdings_idle _ a held hc) h

theorem tracks_release {c : Ext} {x : Object} {k : c.Ans → Hook α}
    (hc : ∀ a, c.events a = [.released x]) (h : ∀ a, (k a).Tracks holdings held Q) :
    (Program.request (.call c) k : Hook α).Tracks holdings (x ::ₘ held) Q := by
  intro a
  refine ⟨held, ?_, h a⟩
  simp [holdings, hc, replay, LedgerEvent.apply]

theorem tracks_logMsg : logMsg.Tracks holdings held fun _ held' => held' = held :=
  .of_all (fun e a he => holdings_idle e a held he)
    (logMsg_all.mono fun _ he => Req.isLog.keepsLedger he)

theorem tracks_logHook (funcName : Option CString) :
    (logHook funcName).Tracks holdings held fun _ held' => held' = held :=
  .of_all (fun e a he => holdings_idle e a held he)
    ((logHook_all funcName).mono fun _ he => Req.isLog.keepsLedger he)

/-- With the inode that a lookup hands to its caller. -/
def withInode (held : Multiset Object) (r : Option InodePtr) : Multiset Object :=
  r.elim held fun inode => inode.object ::ₘ held

private theorem tracks_imageCall (relative : CString) :
    (if relative = [] then call .getRootInode else call (.findByPath relative) :
      Hook (Except SqfsError InodePtr)).Tracks holdings held
        fun ret held' => held' = withInode held ret.toOption := by
  apply Program.Tracks.ite
  · rintro - (e | inode)
    · exact ⟨held, rfl, rfl⟩
    · exact ⟨inode.object ::ₘ held, rfl, rfl⟩
  · rintro - (e | inode)
    · exact ⟨held, rfl, rfl⟩
    · exact ⟨inode.object ::ₘ held, rfl, rfl⟩

/-- `sqfs_find_inode` hands its inode to the caller and gives its reader back. -/
theorem tracks_sqfsFindInode (relative : Option CString) :
    (sqfsFindInode relative).Tracks holdings held fun r held' => held' = withInode held r := by
  cases relative with
  | none => exact .idle (fun _ => rfl) fun _ => rfl
  | some relative =>
    refine .idle (fun _ => rfl) fun mgr => .ite (fun _ => ?_) fun _ => .idle (fun _ => rfl) fun _ => rfl
    intro reader
    cases reader with
    | none => exact ⟨held, rfl, .idle (fun _ => rfl) fun _ => rfl⟩
    | some reader =>
      refine ⟨readerObject reader ::ₘ held, rfl, (tracks_imageCall relative).bind ?_⟩
      rintro (e | inode) _ rfl
      · exact tracks_release (fun _ => rfl) fun _ => .idle (fun _ => rfl) fun _ => rfl
      · rw [withInode, Except.toOption, Option.elim_some, Multiset.cons_swap]
        exact tracks_release (fun _ => rfl) fun _ => rfl

end
end HookSqfs.Manager
