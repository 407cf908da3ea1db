import HookSqfs.Interaction.Interleaving
import HookSqfs.Interaction.Tracking
import Mathlib.Logic.Function.Basic

/-! A discipline for calls at work on one state: each call has a ghost state that allows
its requests, and an invariant over the state and all ghost states that every allowed
request keeps. Nothing is asked of the places where the calls are interleaved. -/
namespace HookSqfs.Interaction
open Program
variable {E : Type} {A : E → Type} {W L C R : Type}

/-- The rules for one call at a time, and the invariant. `acting` is what a call that is
making a burst knows of the state, `knows` what it knows of its locals between bursts. -/
structure Discipline (S : System E A W L C R) (G : Type) where
  rules : Tracker E A G
  blank : G
  start : C → G
  retire : G → G
  goal : C → R → G → Prop
  inv : W → (Nat → G) → Prop
  acting : Nat → G → W → Prop
  knows : G → L → Prop
  tracks : ∀ call, (S.program call).Tracks rules (start call) (goal call)
  start_knows : ∀ call l, knows (start call) l
  enters : ∀ {n l w γ}, inv w γ → knows (γ n) l →
    inv (S.enter n l w) γ ∧ acting n (γ n) (S.enter n l w)
  requests : ∀ {n w γ e g}, inv w γ → acting n (γ n) w →
    rules e (S.handle w e).1 (γ n) = some g →
    inv (S.handle w e).2 (Function.update γ n g) ∧ acting n g (S.handle w e).2
  leaves : ∀ {n g w}, acting n g w → knows g (S.locals w)
  begins : ∀ {n call w γ}, inv w γ → γ n = blank → S.admits w call →
    inv (S.begins n call w) (Function.update γ n (start call))
  ends : ∀ {n call r w γ}, inv w γ → goal call r (γ n) →
    inv (S.ends n call r w) (Function.update γ n (retire (γ n)))

namespace Discipline
variable {S : System E A W L C R} {G α : Type} (D : Discipline S G)

/-- A burst of allowed requests. -/
private theorem settle_keeps {n : Nat} (p : Program E A α) {Q : α → G → Prop} {w : W}
    {γ : Nat → G} (hinv : D.inv w γ) (hact : D.acting n (γ n) w)
    (hp : p.Tracks D.rules (γ n) Q) :
    ∃ g, D.inv (p.settle S.handle S.depth w).2 (Function.update γ n g) ∧
      D.acting n g (p.settle S.handle S.depth w).2 ∧
      (p.settle S.handle S.depth w).1.Tracks D.rules g Q := by
  induction p generalizing w γ with
  | ret a =>
    refine ⟨γ n, ?_, hact, hp⟩
    rw [Function.update_eq_self]
    exact hinv
  | undefined =>
    refine ⟨γ n, ?_, hact, trivial⟩
    rw [Function.update_eq_self]
    exact hinv
  | request e k ih =>
    by_cases hfree : S.depth w = 0
    · rw [settle_free hfree]
      refine ⟨γ n, ?_, hact, hp⟩
      rw [Function.update_eq_self]
      exact hinv
    · rw [settle_held hfree]
      obtain ⟨g, hg, hk⟩ := hp (S.handle w e).1
      obtain ⟨hinv', hact'⟩ := D.requests hinv hact hg
      have hself : Function.update γ n g n = g := Function.update_self ..
      obtain ⟨g', hg'⟩ := ih _ hinv' (hself.symm ▸ hact') (hself.symm ▸ hk)
      rw [Function.update_idem] at hg'
      exact ⟨g', hg'⟩

private theorem burst_keeps {n : Nat} {l : L} {e : E} {k : A e → Program E A α}
    {Q : α → G → Prop} {w : W} {γ : Nat → G} (hinv : D.inv w γ) (hknows : D.knows (γ n) l)
    (hp : (Program.request e k : Program E A α).Tracks D.rules (γ n) Q) :
    ∃ g, D.inv (S.burstOf n l (.request e k) w).2 (Function.update γ n g) ∧
      D.acting n g (S.burstOf n l (.request e k) w).2 ∧
      (S.burstOf n l (.request e k) w).1.Tracks D.rules g Q := by
  obtain ⟨hinv, hact⟩ := D.enters hinv hknows
  obtain ⟨g, hg, hk⟩ := hp (S.handle (S.enter n l w) e).1
  obtain ⟨hinv', hact'⟩ := D.requests hinv hact hg
  have hself : Function.update γ n g n = g := Function.update_self ..
  obtain ⟨g', hg'⟩ := D.settle_keeps _ hinv' (hself.symm ▸ hact') (hself.symm ▸ hk)
  rw [Function.update_idem] at hg'
  exact ⟨g', hg'⟩

/-- What every configuration of a run satisfies, with the ghost states `γ`. -/
structure Kept (γ : Nat → G) (ls : List (Label W C R)) (c : Config E A W L C R) : Prop where
  inv : D.inv c.world γ
  unborn : ∀ n, c.next ≤ n → γ n = D.blank
  older : ∀ r ∈ c.running, r.id < c.next
  distinct : (c.running.map (·.id)).Nodup
  running : ∀ r ∈ c.running, D.knows (γ r.id) r.locals ∧
    r.rest.Tracks D.rules (γ r.id) (D.goal r.call)
  finished : ∀ n call r, .finished n call r ∈ ls → n < c.next ∧ (∀ r' ∈ c.running, r'.id ≠ n) ∧
    ∃ g, D.goal call r g ∧ γ n = D.retire g

variable {D} {γ : Nat → G} {ls : List (Label W C R)}

private theorem Kept.start {w : W} {n : Nat} {rs : List (Running E A L C R)}
    (h : D.Kept γ ls ⟨w, n, rs⟩) {call : C} (l : L) (hadm : S.admits w call) :
    D.Kept (Function.update γ n (D.start call)) (ls ++ [.started n call])
      ⟨S.begins n call w, n + 1, ⟨n, call, l, S.program call⟩ :: rs⟩ := by
  have hold : ∀ r ∈ rs, r.id ≠ n := fun r hr => Nat.ne_of_lt (h.older r hr)
  refine ⟨D.begins h.inv (h.unborn n (Nat.le_refl n)) hadm, ?_, ?_, ?_, ?_, ?_⟩
  · intro m hm
    rw [Function.update_of_ne (Nat.ne_of_gt hm)]
    exact h.unborn m (Nat.le_of_succ_le hm)
  · intro r hr
    rcases List.mem_cons.mp hr with rfl | hr
    · exact Nat.lt_succ_self n
    · exact Nat.lt_succ_of_lt (h.older r hr)
  · refine List.nodup_cons.mpr ⟨fun hn => ?_, h.distinct⟩
    obtain ⟨r, hr, he⟩ := List.mem_map.mp hn
    exact hold r hr he
  · intro r hr
    rcases List.mem_cons.mp hr with rfl | hr
    · rw [Function.update_self]
      exact ⟨D.start_knows call l, D.tracks call⟩
    · rw [Function.update_of_ne (hold r hr)]
      exact h.running r hr
  · intro m call' r hm
    obtain ⟨hlt, hne, g, hgoal, hg⟩ := h.finished m call' r (finished_of_append hm nofun)
    refine ⟨Nat.lt_succ_of_lt hlt, fun r' hr' => ?_, g, hgoal, ?_⟩
    · rcases List.mem_cons.mp hr' with rfl | hr'
      · exact Nat.ne_of_gt hlt
      · exact hne r' hr'
    · rw [Function.update_of_ne (Nat.ne_of_lt hlt)]
      exact hg

private theorem Kept.move {w : W} {n : Nat} {before after : List (Running E A L C R)} {id : Nat}
    {call : C} {l : L} {e : E} {k : A e → Program E A R}
    (h : D.Kept γ ls ⟨w, n, before ++ ⟨id, call, l, .request e k⟩ :: after⟩) :
    ∃ γ', D.Kept γ' (ls ++ [.moved id w (S.burstOf id l (.request e k) w).2])
      ⟨(S.burstOf id l (.request e k) w).2, n,
        before ++ ⟨id, call, S.locals (S.burstOf id l (.request e k) w).2,
          (S.burstOf id l (.request e k) w).1⟩ :: after⟩ := by
  obtain ⟨hknows, htracks⟩ := h.running _ (mem_split.mpr (.inl rfl))
  obtain ⟨g, hinv, hact, hrest⟩ := D.burst_keeps h.inv hknows htracks
  have hothers := ids_ne h.distinct
  have hlt : id < n := h.older _ (mem_split.mpr (.inl rfl))
  refine ⟨Function.update γ id g, hinv, ?_, ?_, ?_, ?_, ?_⟩
  · intro m hm
    rw [Function.update_of_ne (Nat.ne_of_gt (Nat.lt_of_lt_of_le hlt hm))]
    exact h.unborn m hm
  · intro r hr
    rcases mem_split.mp hr with rfl | hr
    · exact hlt
    · exact h.older r (mem_split.mpr (.inr hr))
  · simpa using h.distinct
  · intro r hr
    rcases mem_split.mp hr with rfl | hr
    · rw [Function.update_self]
      exact ⟨D.leaves hact, hrest⟩
    · rw [Function.update_of_ne (hothers r hr)]
      exact h.running r (mem_split.mpr (.inr hr))
  · intro m call' r hm
    obtain ⟨hltm, hne, g', hgoal, hg'⟩ := h.finished m call' r (finished_of_append hm nofun)
    have hid : m ≠ id := (hne _ (mem_split.mpr (.inl rfl))).symm
    refine ⟨hltm, fun r' hr' => ?_, g', hgoal, ?_⟩
    · rcases mem_split.mp hr' with rfl | hr'
      · exact hid.symm
      · exact hne r' (mem_split.mpr (.inr hr'))
    · rw [Function.update_of_ne hid]
      exact hg'

private theorem Kept.finish {w : W} {n : Nat} {before after : List (Running E A L C R)} {id : Nat}
    {call : C} {l : L} {r : R}
    (h : D.Kept γ ls ⟨w, n, before ++ ⟨id, call, l, .ret r⟩ :: after⟩) :
    D.Kept (Function.update γ id (D.retire (γ id))) (ls ++ [.finished id call r])
      ⟨S.ends id call r w, n, before ++ after⟩ := by
  obtain ⟨-, hgoal⟩ := h.running _ (mem_split.mpr (.inl rfl))
  have hothers := ids_ne h.distinct
  have hlt : id < n := h.older _ (mem_split.mpr (.inl rfl))
  refine ⟨D.ends h.inv hgoal, ?_, fun r' hr' => h.older r' (mem_split.mpr (.inr hr')), ?_, ?_, ?_⟩
  · intro m hm
    rw [Function.update_of_ne (Nat.ne_of_gt (Nat.lt_of_lt_of_le hlt hm))]
    exact h.unborn m hm
  · exact h.distinct.sublist (((List.sublist_cons_self _ _).append_left before).map _)
  · intro r' hr'
    rw [Function.update_of_ne (hothers r' hr')]
    exact h.running r' (mem_split.mpr (.inr hr'))
  · intro m call' r' hm
    rcases List.mem_append.mp hm with hm | hm
    · obtain ⟨hltm, hne, g, hg⟩ := h.finished m call' r' hm
      have hid : m ≠ id := (hne _ (mem_split.mpr (.inl rfl))).symm
      refine ⟨hltm, fun r'' hr'' => hne r'' (mem_split.mpr (.inr hr'')), g, ?_⟩
      rw [Function.update_of_ne hid]
      exact hg
    · cases List.mem_singleton.mp hm
      refine ⟨hlt, hothers, γ id, hgoal, ?_⟩
      rw [Function.update_self]

/-- The discipline holds in every run. -/
theorem kept {w₀ : W} (hinit : D.inv w₀ fun _ => D.blank) {c : Config E A W L C R}
    (run : S.Run w₀ ls c) : ∃ γ, D.Kept γ ls c := by
  induction run with
  | nil => exact ⟨_, hinit, fun _ _ => rfl, nofun, List.nodup_nil, nofun, nofun⟩
  | snoc run step ih =>
    obtain ⟨γ, h⟩ := ih
    cases step with
    | start w n rs call l hadm => exact ⟨_, h.start l hadm⟩
    | move w n before after id call l e k => exact h.move
    | finish w n before after id call l r => exact ⟨_, h.finish⟩

end Discipline
end HookSqfs.Interaction
