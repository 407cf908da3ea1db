import HookSqfs.Interaction.Sections
import Mathlib.Data.List.Nodup
import Mathlib.Logic.Function.Iterate

/-! Any number of calls at work on one state, interleaved at their breaks, and a proof
method for them: each call has an outline whose assertions the steps of the others keep. -/
namespace HookSqfs.Interaction
open Program

/-- Calls of type `C` with results in `R` on the shared state `W`. A call has locals of
its own, brought into the state for its bursts; its begin and its end may do some
bookkeeping in the state. -/
structure System (E : Type) (A : E → Type) (W L C R : Type) where
  handle : Handler E A W
  depth : W → Nat
  enter : Nat → L → W → W
  locals : W → L
  program : C → Program E A R
  admits : W → C → Prop
  begins : Nat → C → W → W
  ends : Nat → C → R → W → W

variable {E : Type} {A : E → Type} {W L C R Ev : Type}

/-- A call at work. -/
structure Running (E : Type) (A : E → Type) (L C R : Type) where
  id : Nat
  call : C
  locals : L
  rest : Program E A R

structure Config (E : Type) (A : E → Type) (W L C R : Type) where
  world : W
  next : Nat
  running : List (Running E A L C R)

inductive Label (W C R : Type) where
  | started (id : Nat) (call : C)
  | moved (id : Nat) (before after : W)
  | finished (id : Nat) (call : C) (result : R)

/-- The call that makes a burst. -/
def Label.mover : Label W C R → Option Nat
  | .moved id _ _ => some id
  | _ => none

namespace System
variable (S : System E A W L C R)

/-- The burst of a call in the shared state. -/
def burstOf {α : Type} (n : Nat) (l : L) (p : Program E A α) (w : W) : Program E A α × W :=
  p.burst S.handle S.depth (S.enter n l w)

/-- A call starts, with any locals, a running call makes its next burst, or it returns. -/
inductive Step : Config E A W L C R → Label W C R → Config E A W L C R → Prop where
  | start (w : W) (n : Nat) (rs : List (Running E A L C R)) (call : C) (l : L)
      (h : S.admits w call) :
      Step ⟨w, n, rs⟩ (.started n call)
        ⟨S.begins n call w, n + 1, ⟨n, call, l, S.program call⟩ :: rs⟩
  | move (w : W) (n : Nat) (before after : List (Running E A L C R)) (id : Nat) (call : C) (l : L)
      (e : E) (k : A e → Program E A R) :
      Step ⟨w, n, before ++ ⟨id, call, l, .request e k⟩ :: after⟩
        (.moved id w (S.burstOf id l (.request e k) w).2)
        ⟨(S.burstOf id l (.request e k) w).2, n,
          before ++ ⟨id, call, S.locals (S.burstOf id l (.request e k) w).2,
            (S.burstOf id l (.request e k) w).1⟩ :: after⟩
  | finish (w : W) (n : Nat) (before after : List (Running E A L C R)) (id : Nat) (call : C)
      (l : L) (r : R) :
      Step ⟨w, n, before ++ ⟨id, call, l, .ret r⟩ :: after⟩ (.finished id call r)
        ⟨S.ends id call r w, n, before ++ after⟩

/-- A run from a state in which no call is at work. -/
inductive Run (w₀ : W) : List (Label W C R) → Config E A W L C R → Prop where
  | nil : Run w₀ [] ⟨w₀, 0, []⟩
  | snoc {ls : List (Label W C R)} {c c' : Config E A W L C R} {l : Label W C R}
      (run : Run w₀ ls c) (step : S.Step c l c') : Run w₀ (ls ++ [l]) c'

/-- The first running call makes its next burst. -/
def advance : Config E A W L C R → Config E A W L C R
  | ⟨w, n, ⟨id, call, l, .request e k⟩ :: rs⟩ =>
    ⟨(S.burstOf id l (.request e k) w).2, n,
      ⟨id, call, S.locals (S.burstOf id l (.request e k) w).2,
        (S.burstOf id l (.request e k) w).1⟩ :: rs⟩
  | c => c

variable {S}

theorem Run.advance {w₀ : W} {ls : List (Label W C R)} {c : Config E A W L C R}
    (run : S.Run w₀ ls c) : ∃ ls', S.Run w₀ ls' (S.advance c) := by
  obtain ⟨w, n, rs⟩ := c
  cases rs with
  | nil => exact ⟨ls, run⟩
  | cons r rs =>
    obtain ⟨id, call, l, p⟩ := r
    cases p with
    | ret a => exact ⟨ls, run⟩
    | undefined => exact ⟨ls, run⟩
    | request e k => exact ⟨_, run.snoc (.move w n [] rs id call l e k)⟩

/-- A call that is left to work alone for `k` bursts. -/
theorem Run.alone {w₀ : W} {ls : List (Label W C R)} {w : W} {n : Nat}
    {rs : List (Running E A L C R)} (run : S.Run w₀ ls ⟨w, n, rs⟩) {call : C} (l : L)
    (h : S.admits w call) (k : Nat) :
    ∃ ls', S.Run w₀ ls'
      (S.advance^[k] ⟨S.begins n call w, n + 1, ⟨n, call, l, S.program call⟩ :: rs⟩) := by
  induction k with
  | zero => exact ⟨_, run.snoc (.start w n rs call l h)⟩
  | succ k ih =>
    obtain ⟨ls', hrun⟩ := ih
    rw [Function.iterate_succ_apply']
    exact hrun.advance

end System

/-- The invariant of the shared state, what a burst of a call does to it with the events
it stands for, and what a call relies on in the steps of the others. -/
structure Protocol (S : System E A W L C R) (Ev : Type) where
  inv : W → Prop
  free : ∀ w, inv w → S.depth w = 0
  effect : Nat → W → List Ev → W → Prop
  rely : Nat → W → W → Prop
  relied : ∀ {i j : Nat} {w w' : W} {evs : List Ev}, i ≠ j → effect j w evs w' → rely i w w'

/-- What a call knows at a break: about its own events so far and the state. -/
abbrev Assertion (W Ev : Type) := List Ev → W → Prop

variable {S : System E A W L C R} (M : Protocol S Ev)

def Protocol.Stable (n : Nat) (P : Assertion W Ev) : Prop :=
  ∀ t w w', P t w → M.rely n w w' → P t w'

/-- From any state with the precondition, every burst of the program has its effect and
keeps the invariant, and at its return the postcondition holds. -/
inductive Outline (n : Nat) {α : Type} (Q : α → Assertion W Ev) :
    Assertion W Ev → Program E A α → Prop where
  | ret {P : Assertion W Ev} {a : α} (post : ∀ t w, M.inv w → P t w → Q a t w) :
      Outline n Q P (.ret a)
  | request {P : Assertion W Ev} {e : E} {k : A e → Program E A α}
      (next : L → List Ev → W → Assertion W Ev)
      (stable : ∀ l t w, M.inv w → P t w → M.Stable n (next l t w))
      (step : ∀ l t w, M.inv w → P t w →
        ∃ evs, M.effect n w evs (S.burstOf n l (.request e k) w).2 ∧
          M.inv (S.burstOf n l (.request e k) w).2 ∧
          next l t w (t ++ evs) (S.burstOf n l (.request e k) w).2)
      (rest : ∀ l t w, M.inv w → P t w →
        Outline n Q (next l t w) (S.burstOf n l (.request e k) w).1) :
      Outline n Q P (.request e k)

namespace Outline
variable {M} {n : Nat} {α β : Type} {P P' : Assertion W Ev} {Q Q' : α → Assertion W Ev}

theorem pre {p : Program E A α} (h : Outline M n Q P' p)
    (hp : ∀ t w, M.inv w → P t w → P' t w) : Outline M n Q P p := by
  cases h with
  | ret post => exact .ret fun t w hi hw => post t w hi (hp t w hi hw)
  | request next stable step rest =>
    exact .request next (fun l t w hi hw => stable l t w hi (hp t w hi hw))
      (fun l t w hi hw => step l t w hi (hp t w hi hw))
      (fun l t w hi hw => rest l t w hi (hp t w hi hw))

theorem post {p : Program E A α} (h : Outline M n Q P p)
    (hq : ∀ a t w, M.inv w → Q a t w → Q' a t w) : Outline M n Q' P p := by
  induction h with
  | ret post => exact .ret fun t w hi hw => hq _ t w hi (post t w hi hw)
  | request next stable step rest ih => exact .request next stable step ih

/-- The sequence rule. -/
theorem bind {p : Program E A α} {f : α → Program E A β} {T : β → Assertion W Ev}
    (hp : Outline M n Q P p) (hf : ∀ a, Outline M n T (Q a) (f a)) :
    Outline M n T P (p >>= f) := by
  induction hp with
  | ret post => exact (hf _).pre post
  | request next stable step rest ih =>
    rename_i P e k
    have hburst : ∀ l t w, M.inv w → P t w → S.burstOf n l (.request e fun a => k a >>= f) w =
        ((S.burstOf n l (.request e k) w).1 >>= f, (S.burstOf n l (.request e k) w).2) := by
      intro l t w hi hw
      obtain ⟨evs, -, hinv, -⟩ := step l t w hi hw
      exact burst_bind f (M.free _ hinv)
    change Outline M n T P (.request e fun a => k a >>= f)
    refine .request next stable (fun l t w hi hw => ?_) (fun l t w hi hw => ?_)
    · rw [hburst l t w hi hw]
      exact step l t w hi hw
    · rw [hburst l t w hi hw]
      exact ih l t w hi hw

/-- The rule for one burst: `p` and `w'` are what it leaves. -/
theorem burst {e : E} {k : A e → Program E A α}
    (h : ∀ l t w, M.inv w → P t w → ∃ p w' evs P',
      S.burstOf n l (.request e k) w = (p, w') ∧ M.effect n w evs w' ∧ M.inv w' ∧
        M.Stable n P' ∧ P' (t ++ evs) w' ∧ Outline M n Q P' p) :
    Outline M n Q P (.request e k) := by
  classical
  have hnext : ∀ l t w, ∃ P' : Assertion W Ev, M.inv w → P t w →
      M.Stable n P' ∧ Outline M n Q P' (S.burstOf n l (.request e k) w).1 ∧
        ∃ evs, M.effect n w evs (S.burstOf n l (.request e k) w).2 ∧
          M.inv (S.burstOf n l (.request e k) w).2 ∧
          P' (t ++ evs) (S.burstOf n l (.request e k) w).2 := by
    intro l t w
    by_cases hw : M.inv w ∧ P t w
    · obtain ⟨p, w', evs, P', hburst, heffect, hinv, hstable, hP', hout⟩ := h l t w hw.1 hw.2
      rw [hburst]
      exact ⟨P', fun _ _ => ⟨hstable, hout, evs, heffect, hinv, hP'⟩⟩
    · exact ⟨P, fun hi hp => absurd ⟨hi, hp⟩ hw⟩
  choose next hspec using hnext
  exact .request next (fun l t w hi hw => (hspec l t w hi hw).1)
    (fun l t w hi hw => (hspec l t w hi hw).2.2) (fun l t w hi hw => (hspec l t w hi hw).2.1)

/-- The rule for a request that leaves the lock free. -/
theorem plain {e : E} {k : A e → Program E A α}
    (h : ∀ l t w, M.inv w → P t w → ∃ evs P',
      M.effect n w evs (S.handle (S.enter n l w) e).2 ∧ M.inv (S.handle (S.enter n l w) e).2 ∧
        M.Stable n P' ∧ P' (t ++ evs) (S.handle (S.enter n l w) e).2 ∧
        Outline M n Q P' (k (S.handle (S.enter n l w) e).1)) :
    Outline M n Q P (.request e k) := by
  refine burst fun l t w hi hw => ?_
  obtain ⟨evs, P', heffect, hinv, hstable, hP', hout⟩ := h l t w hi hw
  exact ⟨_, _, evs, P', burst_plain (M.free _ hinv) k, heffect, hinv, hstable, hP', hout⟩

/-- A program all of whose requests keep an assertion. -/
theorem of_all {q : E → Prop} {p : Program E A α} (hp : p.All q) (stable : M.Stable n P)
    (step : ∀ e, q e → ∀ l t w, M.inv w → P t w →
      ∃ evs, M.effect n w evs (S.handle (S.enter n l w) e).2 ∧
        M.inv (S.handle (S.enter n l w) e).2 ∧ P (t ++ evs) (S.handle (S.enter n l w) e).2) :
    Outline M n (fun _ => P) P p := by
  induction p with
  | ret a => exact .ret fun _ _ _ hw => hw
  | undefined => exact hp.elim
  | request e k ih =>
    refine plain fun l t w hi hw => ?_
    obtain ⟨evs, heffect, hinv, hP⟩ := step e hp.1 l t w hi hw
    exact ⟨evs, P, heffect, hinv, stable, hP, ih _ (hp.2 _)⟩

end Outline

/-- The events of one call in a history. -/
def trail (n : Nat) (hist : List (Nat × Ev)) : List Ev :=
  hist.filterMap fun x => if x.1 = n then some x.2 else none

/-- A run with its events: the state goes from burst to burst, each with its effect. -/
inductive Protocol.Trace (w₀ : W) : List (Label W C R) → List (Nat × Ev) → W → Prop where
  | nil : Trace w₀ [] [] w₀
  | started {ls : List (Label W C R)} {hist : List (Nat × Ev)} {w : W} (n : Nat) (call : C)
      (trace : Trace w₀ ls hist w) :
      Trace w₀ (ls ++ [.started n call]) hist (S.begins n call w)
  | moved {ls : List (Label W C R)} {hist : List (Nat × Ev)} {w w' : W} {evs : List Ev} (n : Nat)
      (trace : Trace w₀ ls hist w) (inv : M.inv w) (effect : M.effect n w evs w') :
      Trace w₀ (ls ++ [.moved n w w']) (hist ++ evs.map (n, ·)) w'
  | finished {ls : List (Label W C R)} {hist : List (Nat × Ev)} {w : W} (n : Nat) (call : C) (r : R)
      (trace : Trace w₀ ls hist w) :
      Trace w₀ (ls ++ [.finished n call r]) hist (S.ends n call r w)

/-- An outline for the program of every call that clients may make. -/
structure Outlined (S : System E A W L C R) (Ev : Type) extends Protocol S Ev where
  pre : Nat → C → Assertion W Ev
  post : Nat → C → R → Assertion W Ev
  stable : ∀ n call, toProtocol.Stable n (pre n call)
  outline : ∀ n call, Outline toProtocol n (post n call) (pre n call) (S.program call)
  begins : ∀ n call w, inv w → S.admits w call →
    inv (S.begins n call w) ∧ pre n call [] (S.begins n call w) ∧
      ∀ i, i ≠ n → rely i w (S.begins n call w)
  ends : ∀ n call r t w, inv w → post n call r t w →
    inv (S.ends n call r w) ∧ ∀ i, i ≠ n → rely i w (S.ends n call r w)

theorem trail_append (n : Nat) (hist more : List (Nat × Ev)) :
    trail n (hist ++ more) = trail n hist ++ trail n more :=
  List.filterMap_append

theorem trail_own (n : Nat) (evs : List Ev) : trail n (evs.map (n, ·)) = evs := by
  induction evs with
  | nil => rfl
  | cons ev evs ih => simp [trail]

theorem trail_other {i n : Nat} (h : i ≠ n) (evs : List Ev) : trail i (evs.map (n, ·)) = [] := by
  induction evs with
  | nil => rfl
  | cons ev evs ih => simp [trail, h.symm]

theorem trail_fresh {n : Nat} {hist : List (Nat × Ev)} (h : ∀ x ∈ hist, x.1 ≠ n) :
    trail n hist = [] := by
  rw [trail, List.filterMap_eq_nil_iff]
  intro x hx
  exact if_neg (h x hx)

/-- Every burst has its effect, and its events are in the trail of its call. -/
theorem Protocol.Trace.moved_mem {M : Protocol S Ev} {w₀ w : W} {ls : List (Label W C R)}
    {hist : List (Nat × Ev)} (h : M.Trace w₀ ls hist w) {n : Nat} {u v : W}
    (hmem : .moved n u v ∈ ls) : ∃ evs, M.effect n u evs v ∧ evs ⊆ trail n hist := by
  induction h with
  | nil => cases hmem
  | started n call trace ih =>
    rcases List.mem_append.mp hmem with hmem | hmem
    · exact ih hmem
    · cases List.mem_singleton.mp hmem
  | moved i trace inv effect ih =>
    rcases List.mem_append.mp hmem with hmem | hmem
    · obtain ⟨evs, heffect, hsub⟩ := ih hmem
      refine ⟨evs, heffect, fun ev hev => ?_⟩
      rw [trail_append]
      exact List.mem_append_left _ (hsub hev)
    · cases List.mem_singleton.mp hmem
      refine ⟨_, effect, fun ev hev => ?_⟩
      rw [trail_append, trail_own]
      exact List.mem_append_right _ hev
  | finished n call r trace ih =>
    rcases List.mem_append.mp hmem with hmem | hmem
    · exact ih hmem
    · cases List.mem_singleton.mp hmem

/-- Every event of a history belongs to a burst of its call. -/
theorem Protocol.Trace.effect_of_mem {M : Protocol S Ev} {w₀ w : W} {ls : List (Label W C R)}
    {hist : List (Nat × Ev)} (h : M.Trace w₀ ls hist w) {n : Nat} {ev : Ev}
    (hmem : ev ∈ trail n hist) : ∃ u v evs, M.inv u ∧ M.effect n u evs v ∧ ev ∈ evs := by
  induction h with
  | nil => cases hmem
  | started i call trace ih => exact ih hmem
  | finished i call r trace ih => exact ih hmem
  | moved i trace inv effect ih =>
    rw [trail_append] at hmem
    rcases List.mem_append.mp hmem with hmem | hmem
    · exact ih hmem
    · by_cases hn : n = i
      · rw [hn, trail_own] at hmem
        exact ⟨_, _, _, inv, hn ▸ effect, hmem⟩
      · rw [trail_other hn] at hmem
        cases hmem

theorem ids_ne {before after : List (Running E A L C R)} {r : Running E A L C R}
    (h : ((before ++ r :: after).map (·.id)).Nodup) :
    ∀ r' ∈ before ++ after, r'.id ≠ r.id := by
  have hperm : (before ++ r :: after).Perm (r :: (before ++ after)) := List.perm_middle
  have hnodup := (hperm.map (·.id)).nodup_iff.mp h
  intro r' hr' he
  exact (List.nodup_cons.mp hnodup).1 (List.mem_map.mpr ⟨r', hr', he⟩)

theorem mem_split {before after : List (Running E A L C R)} {r r' : Running E A L C R} :
    r' ∈ before ++ r :: after ↔ r' = r ∨ r' ∈ before ++ after := by
  simp only [List.mem_append, List.mem_cons]
  tauto

theorem finished_of_append {ls : List (Label W C R)} {l : Label W C R} {n : Nat} {call : C}
    {r : R} (h : .finished n call r ∈ ls ++ [l]) (hl : l ≠ .finished n call r) :
    .finished n call r ∈ ls := by
  rcases List.mem_append.mp h with h | h
  · exact h
  · exact absurd (List.mem_singleton.mp h).symm hl

namespace Outlined
variable (O : Outlined S Ev)

/-- A running call is somewhere in its outline. -/
def Places (hist : List (Nat × Ev)) (w : W) (r : Running E A L C R) : Prop :=
  ∃ P, O.Stable r.id P ∧ P (trail r.id hist) w ∧
    Outline O.toProtocol r.id (O.post r.id r.call) P r.rest

/-- What every configuration of a run satisfies. -/
structure Holds (w₀ : W) (ls : List (Label W C R)) (hist : List (Nat × Ev))
    (c : Config E A W L C R) : Prop where
  inv : O.inv c.world
  trace : O.toProtocol.Trace w₀ ls hist c.world
  fresh : ∀ x ∈ hist, x.1 < c.next
  older : ∀ r ∈ c.running, r.id < c.next
  distinct : (c.running.map (·.id)).Nodup
  places : ∀ r ∈ c.running, O.Places hist c.world r
  results : ∀ n call r, .finished n call r ∈ ls →
    (∃ w, O.post n call r (trail n hist) w) ∧ n < c.next ∧ ∀ r' ∈ c.running, r'.id ≠ n

variable {O} {w₀ : W} {ls : List (Label W C R)} {hist : List (Nat × Ev)}

/-- A call that others' steps pass by stays in its place. -/
private theorem Places.kept {w w' : W} {r : Running E A L C R} {hist' : List (Nat × Ev)}
    (h : O.Places hist w r) (hr : O.rely r.id w w') (ht : trail r.id hist' = trail r.id hist) :
    O.Places hist' w' r := by
  obtain ⟨P, hstable, hP, hout⟩ := h
  exact ⟨P, hstable, ht ▸ hstable _ _ _ hP hr, hout⟩

private theorem Holds.start {w : W} {n : Nat} {rs : List (Running E A L C R)}
    (h : O.Holds w₀ ls hist ⟨w, n, rs⟩) {call : C} (l : L) (hadm : S.admits w call) :
    O.Holds w₀ (ls ++ [.started n call]) hist
      ⟨S.begins n call w, n + 1, ⟨n, call, l, S.program call⟩ :: rs⟩ := by
  obtain ⟨hinv, hpre, hrely⟩ := O.begins n call w h.inv hadm
  have hnew : trail n hist = [] := trail_fresh fun x hx => Nat.ne_of_lt (h.fresh x hx)
  have hold : ∀ r ∈ rs, r.id ≠ n := fun r hr => Nat.ne_of_lt (h.older r hr)
  refine ⟨hinv, .started n call h.trace, fun x hx => Nat.lt_succ_of_lt (h.fresh x hx), ?_, ?_, ?_,
    ?_⟩
  · intro r hr
    rcases List.mem_cons.mp hr with rfl | hr
    · exact Nat.lt_succ_self n
    · exact Nat.lt_succ_of_lt (h.older r hr)
  · refine List.nodup_cons.mpr ⟨fun hn => ?_, h.distinct⟩
    obtain ⟨r, hr, he⟩ := List.mem_map.mp hn
    exact hold r hr he
  · intro r hr
    rcases List.mem_cons.mp hr with rfl | hr
    · exact ⟨O.pre n call, O.stable n call, hnew.symm ▸ hpre, O.outline n call⟩
    · exact (h.places r hr).kept (hrely r.id (hold r hr)) rfl
  · intro m call' r hm
    obtain ⟨hpost, hlt, hne⟩ := h.results m call' r (finished_of_append hm nofun)
    refine ⟨hpost, Nat.lt_succ_of_lt hlt, fun r' hr' => ?_⟩
    rcases List.mem_cons.mp hr' with rfl | hr'
    · exact Nat.ne_of_gt hlt
    · exact hne r' hr'

private theorem Holds.move {w : W} {n : Nat} {before after : List (Running E A L C R)} {id : Nat}
    {call : C} {l : L} {e : E} {k : A e → Program E A R}
    (h : O.Holds w₀ ls hist ⟨w, n, before ++ ⟨id, call, l, .request e k⟩ :: after⟩) :
    ∃ hist', O.Holds w₀ (ls ++ [.moved id w (S.burstOf id l (.request e k) w).2]) hist'
      ⟨(S.burstOf id l (.request e k) w).2, n,
        before ++ ⟨id, call, S.locals (S.burstOf id l (.request e k) w).2,
          (S.burstOf id l (.request e k) w).1⟩ :: after⟩ := by
  obtain ⟨P, hstable, hP, hout⟩ := h.places _ (mem_split.mpr (.inl rfl))
  have hothers := ids_ne h.distinct
  have hlt : id < n := h.older _ (mem_split.mpr (.inl rfl))
  cases hout with
  | request next stable step rest =>
    obtain ⟨evs, heffect, hinv, hnext⟩ := step l _ w h.inv hP
    have hkeep : ∀ r ∈ before ++ after, O.Places (hist ++ evs.map (id, ·))
        (S.burstOf id l (.request e k) w).2 r := by
      intro r hr
      refine (h.places r (mem_split.mpr (.inr hr))).kept (O.relied (hothers r hr) heffect) ?_
      rw [trail_append, trail_other (hothers r hr), List.append_nil]
    refine ⟨hist ++ evs.map (id, ·), hinv, Protocol.Trace.moved id h.trace h.inv heffect, ?_, ?_, ?_, ?_, ?_⟩
    · intro x hx
      rcases List.mem_append.mp hx with hx | hx
      · exact h.fresh x hx
      · obtain ⟨ev, -, rfl⟩ := List.mem_map.mp hx
        exact hlt
    · intro r hr
      rcases mem_split.mp hr with rfl | hr
      · exact hlt
      · exact h.older r (mem_split.mpr (.inr hr))
    · simpa using h.distinct
    · intro r hr
      rcases mem_split.mp hr with rfl | hr
      · refine ⟨next l _ w, stable l _ w h.inv hP, ?_, rest l _ w h.inv hP⟩
        rw [trail_append, trail_own]
        exact hnext
      · exact hkeep r hr
    · intro m call' r hm
      obtain ⟨⟨v, hpost⟩, hlt, hne⟩ := h.results m call' r (finished_of_append hm nofun)
      have hid : m ≠ id := (hne _ (mem_split.mpr (.inl rfl))).symm
      refine ⟨⟨v, ?_⟩, hlt, fun r' hr' => ?_⟩
      · rw [trail_append, trail_other hid, List.append_nil]
        exact hpost
      · rcases mem_split.mp hr' with rfl | hr'
        · exact hid.symm
        · exact hne r' (mem_split.mpr (.inr hr'))

private theorem Holds.finish {w : W} {n : Nat} {before after : List (Running E A L C R)} {id : Nat}
    {call : C} {l : L} {r : R}
    (h : O.Holds w₀ ls hist ⟨w, n, before ++ ⟨id, call, l, .ret r⟩ :: after⟩) :
    O.Holds w₀ (ls ++ [.finished id call r]) hist ⟨S.ends id call r w, n, before ++ after⟩ := by
  obtain ⟨P, hstable, hP, hout⟩ := h.places _ (mem_split.mpr (.inl rfl))
  have hothers := ids_ne h.distinct
  cases hout with
  | ret post =>
    have hpost := post _ w h.inv hP
    obtain ⟨hinv, hrely⟩ := O.ends id call r _ w h.inv hpost
    refine ⟨hinv, .finished id call r h.trace, h.fresh,
      fun r' hr' => h.older r' (mem_split.mpr (.inr hr')), ?_, fun r' hr' =>
        (h.places r' (mem_split.mpr (.inr hr'))).kept (hrely r'.id (hothers r' hr')) rfl, ?_⟩
    · exact h.distinct.sublist (((List.sublist_cons_self _ _).append_left before).map _)
    · intro m call' r' hm
      rcases List.mem_append.mp hm with hm | hm
      · obtain ⟨hp, hlt, hne⟩ := h.results m call' r' hm
        exact ⟨hp, hlt, fun r'' hr'' => hne r'' (mem_split.mpr (.inr hr''))⟩
      · cases List.mem_singleton.mp hm
        exact ⟨⟨w, hpost⟩, h.older _ (mem_split.mpr (.inl rfl)), hothers⟩

/-- Every run from a state with the invariant has a history of events: each burst has
the effect of its events, and each result satisfies its postcondition with the events
of its call. -/
theorem holds (hinit : O.inv w₀) {c : Config E A W L C R} (run : S.Run w₀ ls c) :
    ∃ hist, O.Holds w₀ ls hist c := by
  induction run with
  | nil => exact ⟨[], hinit, .nil, nofun, nofun, List.nodup_nil, nofun, nofun⟩
  | snoc run step ih =>
    obtain ⟨hist, h⟩ := ih
    cases step with
    | start w n rs call l hadm => exact ⟨hist, h.start l hadm⟩
    | move w n before after id call l e k => exact h.move
    | finish w n before after id call l r => exact ⟨hist, h.finish⟩

end Outlined
end HookSqfs.Interaction
