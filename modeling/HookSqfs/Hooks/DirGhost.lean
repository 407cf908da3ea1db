import HookSqfs.Hooks.Requests
import HookSqfs.Hooks.DirSystem
import HookSqfs.Interaction.Tracking
import HookSqfs.Manager.LookupOutcome

/-! What a call on directories knows along its path, and which requests that allows. -/
namespace HookSqfs.Hooks
open Manager Interaction Tables

/-- What a call knows of a stream: nothing, that it may close it, and then also that
`dir_map` has no entry for it or that it has one. -/
inductive Hold where
  | unknown
  | held
  | free
  | mapped
  deriving DecidableEq

def Hold.found : Hold → Bool → Hold
  | .held, true => .mapped
  | .held, false => .free
  | h, _ => h

/-- What a call has done and what it knows: of its `errno`, of the streams, and of the
answers of its look-ups. `writes` are its requests that write `dir_map`. -/
structure DirGhost where
  call : Option DirCall
  ledger : CallLedger
  errno : Option Errno
  hold : Nat → Hold
  finds : List (Nat × Bool)
  writes : List Req

namespace DirGhost

def blank : DirGhost :=
  { call := none, ledger := .blank, errno := none, hold := fun _ => .unknown, finds := [], writes := [] }

def start (call : DirCall) : DirGhost :=
  { blank with
    call := some call
    hold := fun dir => if call.closes = some dir then .held else .unknown }

/-- A call that has ended may close nothing. -/
def retire (g : DirGhost) : DirGhost := { g with hold := fun _ => .unknown }

def withErrno (g : DirGhost) (e : Option Errno) : DirGhost := { g with errno := e }

/-- What is known of `errno` after a request. -/
def errnoAfter (known : Option Errno) : (e : Req) → Answer e → Option Errno
  | .setErrno e, _ => some e
  | .getErrno, a => some a
  | .call c, a => c.failure a
  | _, _ => known

def holdAfter (hold : Nat → Hold) : (e : Req) → Answer e → Nat → Hold
  | .call (.opendir _), .ok stream => Function.update hold stream.addr .free
  | .call (.closedir dir), _ => Function.update hold dir .unknown
  | .dirMapAdd entry, _ => Function.update hold entry.key .mapped
  | .dirMapDel key, _ => Function.update hold key .free
  | .dirMapFind key, found => Function.update hold key ((hold key).found found)
  | _, _ => hold

def findsAfter (finds : List (Nat × Bool)) : (e : Req) → Answer e → List (Nat × Bool)
  | .dirMapFind key, found => finds ++ [(key, found)]
  | _, _ => finds

def after (g : DirGhost) (e : Req) (a : Answer e) : DirGhost where
  call := g.call
  ledger := g.ledger.after e a
  errno := errnoAfter g.errno e a
  hold := holdAfter g.hold e a
  finds := findsAfter g.finds e a
  writes := if writesDirMap e then g.writes ++ [e] else g.writes

/-- `sqfs_opendir` opens its path first; a call closes only a stream that it may close and
that is not mapped, and writes `dir_map` only for its stream. -/
def Allows (g : DirGhost) : Req → Prop
  | .call (.opendir name) => g.ledger.real = none → g.call = some (.opendir name)
  | .call (.closedir dir) => g.hold dir = .free
  | .dirMapAdd entry => g.hold entry.key = .free ∧ ∃ name real, g.call = some (.opendir name) ∧
      g.ledger.real = some (name, real) ∧ entry.isRealDir = real.isSome ∧
      ∀ dir, real = some dir → entry.key = dir
  | .dirMapDel key => g.hold key = .mapped
  | _ => True

/-- The answers that a call gets in a process with the environment and the image of `w₀`. -/
def Plausible (w₀ : World) (g : DirGhost) : (e : Req) → Answer e → Prop
  | .getenv .hooksqfsPrefix, a => a = w₀.env.hooksqfsPrefix
  | .getenv .hooksqfsFile, a => a = w₀.env.hooksqfsFile
  | .getMgr, a => a = w₀.mgr
  | .getErrno, a => ∀ e, g.errno = some e → a = e
  | .dirMapEntry key, a => g.hold key = .mapped → a.key = key
  | _, _ => True

end DirGhost

open Classical in
/-- The rules for one call; `none` is the ghost state after an answer that it cannot get. -/
noncomputable def dirRules (w₀ : World) : Tracker Req Answer (Option DirGhost)
  | _, _, none => some none
  | e, a, some g =>
    if g.Plausible w₀ e a then if g.Allows e then some (some (g.after e a)) else none
    else some none

/-- From `g` every path of plausible answers makes allowed requests only, and each that
returns ends with `Q`. -/
def Does {α : Type} (w₀ : World) (g : DirGhost) (p : Hook α) (Q : α → DirGhost → Prop) : Prop :=
  p.Tracks (dirRules w₀) (some g) fun r s => ∀ g', s = some g' → Q r g'

namespace Does
variable {α β : Type} {w₀ : World} {g : DirGhost} {Q R : α → DirGhost → Prop}

private theorem implausible {p : Hook α} :
    p.Tracks (dirRules w₀) none fun r s => ∀ g', s = some g' → Q r g' := by
  induction p with
  | ret a => exact fun g' hg => absurd hg (Option.some_ne_none g').symm
  | undefined => trivial
  | request e k ih => exact fun a => ⟨none, rfl, ih a⟩

theorem ret {a : α} (h : Q a g) : Does w₀ g (.ret a) Q := by
  intro g' hg
  cases hg
  exact h

theorem request {e : Req} {k : Answer e → Hook α} (hallows : g.Allows e)
    (h : ∀ a, g.Plausible w₀ e a → Does w₀ (g.after e a) (k a) Q) :
    Does w₀ g (.request e k) Q := by
  intro a
  by_cases ha : g.Plausible w₀ e a
  · refine ⟨some (g.after e a), ?_, h a ha⟩
    rw [dirRules, if_pos ha, if_pos hallows]
  · refine ⟨none, ?_, implausible⟩
    rw [dirRules, if_neg ha]

theorem mono {p : Hook α} (h : Does w₀ g p Q) (hQ : ∀ a g', Q a g' → R a g') : Does w₀ g p R :=
  Program.Tracks.mono h fun a _ hs g' hg => hQ a g' (hs g' hg)

theorem bind {p : Hook α} {f : α → Hook β} {S : β → DirGhost → Prop} (hp : Does w₀ g p Q)
    (hf : ∀ a g', Q a g' → Does w₀ g' (f a) S) : Does w₀ g (p >>= f) S := by
  refine Program.Tracks.bind hp ?_
  intro a s hs
  cases s with
  | none => exact implausible
  | some g' => exact hf a g' (hs g' rfl)

theorem ite {c : Prop} [Decidable c] {p q : Hook α} (hp : c → Does w₀ g p Q)
    (hq : ¬ c → Does w₀ g q Q) : Does w₀ g (if c then p else q) Q :=
  Program.Tracks.ite hp hq

/-- A program of requests that are always allowed and keep `P`. -/
theorem keep {p : Hook α} {q : Req → Prop} {P : DirGhost → Prop} (hp : p.All q)
    (hq : ∀ e g, q e → P g → g.Allows e ∧ ∀ a, P (g.after e a)) (hg : P g) :
    Does w₀ g p fun _ => P := by
  induction p generalizing g with
  | ret a => exact .ret hg
  | undefined => exact hp.elim
  | request e k ih =>
    obtain ⟨hallows, hafter⟩ := hq e g hp.1 hg
    exact .request hallows fun a _ => ih a (hp.2 a) (hafter a)

/-- The call stays the same. -/
theorem same_call {p : Hook α} (h : Does w₀ g p Q) :
    Does w₀ g p fun r g' => Q r g' ∧ g'.call = g.call := by
  induction p generalizing g with
  | ret a => exact .ret ⟨h g rfl, rfl⟩
  | undefined => trivial
  | request e k ih =>
    intro a
    obtain ⟨s, hs, hk⟩ := h a
    refine ⟨s, hs, ?_⟩
    cases s with
    | none => exact implausible
    | some g' =>
      have hcall : g'.call = g.call := by
        rw [dirRules] at hs
        split at hs
        · split at hs
          · cases hs
            rfl
          · cases hs
        · cases hs
      exact mono (ih a hk) fun r g'' hr => ⟨hr.1, hr.2.trans hcall⟩

end Does
end HookSqfs.Hooks
