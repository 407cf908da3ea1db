import HookSqfs.Interaction.Program

/-! A ghost state that follows a program along each of its paths, whatever is answered. -/
namespace HookSqfs.Interaction
variable {E : Type} {A : E → Type} {S W α β : Type}

/-- What a request and its answer do to the ghost state; `none` forbids the request. -/
abbrev Tracker (E : Type) (A : E → Type) (S : Type) := (e : E) → A e → S → Option S

namespace Program

/-- No path makes a forbidden request, and each that returns ends with `Q`. -/
def Tracks (t : Tracker E A S) : Program E A α → S → (α → S → Prop) → Prop
  | .ret a, s, Q => Q a s
  | .undefined, _, _ => True
  | .request e k, s, Q => ∀ a, ∃ s', t e a s = some s' ∧ (k a).Tracks t s' Q

variable {t : Tracker E A S} {p q : Program E A α} {s : S} {Q R : α → S → Prop}

namespace Tracks

/-- A request that has no effect on the ghost state. -/
theorem idle {e : E} {k : A e → Program E A α} (ht : ∀ a, t e a s = some s)
    (h : ∀ a, (k a).Tracks t s Q) : (Program.request e k).Tracks t s Q :=
  fun a => ⟨s, ht a, h a⟩

theorem mono (h : p.Tracks t s Q) (hQ : ∀ a s', Q a s' → R a s') : p.Tracks t s R := by
  induction p generalizing s with
  | ret a => exact hQ a s h
  | undefined => trivial
  | request e k ih =>
    intro a
    obtain ⟨s', hs', hk⟩ := h a
    exact ⟨s', hs', ih a hk⟩

theorem bind {f : α → Program E A β} {Q : β → S → Prop} (hp : p.Tracks t s R)
    (hf : ∀ a s', R a s' → (f a).Tracks t s' Q) : (p >>= f).Tracks t s Q := by
  induction p generalizing s with
  | ret a => exact hf a s hp
  | undefined => trivial
  | request e k ih =>
    intro a
    obtain ⟨s', hs', hk⟩ := hp a
    exact ⟨s', hs', ih a hk⟩

theorem ite {c : Prop} [Decidable c] (hp : c → p.Tracks t s Q) (hq : ¬ c → q.Tracks t s Q) :
    (if c then p else q).Tracks t s Q := by
  split
  · rename_i h
    exact hp h
  · rename_i h
    exact hq h

/-- A program whose requests have no effect on the ghost state. -/
theorem of_all {r : E → Prop} (hr : ∀ e a, r e → t e a s = some s) (hp : p.All r) :
    p.Tracks t s fun _ s' => s' = s := by
  induction p with
  | ret a => rfl
  | undefined => trivial
  | request e k ih => exact fun a => ⟨s, hr e a hp.1, ih a (hp.2 a)⟩

/-- Each request replaced by a program that has its effect on the ghost state. -/
theorem interpret {E' : Type} {A' : E' → Type} {t' : Tracker E' A' S}
    {f : (e : E) → Program E' A' (A e)}
    (hf : ∀ e s, (∀ a, ∃ s', t e a s = some s') →
      (f e).Tracks t' s fun a s' => t e a s = some s')
    (hp : p.Tracks t s Q) : (p.interpret f).Tracks t' s Q := by
  induction p generalizing s with
  | ret a => exact hp
  | undefined => trivial
  | request e k ih =>
    have hdefined : ∀ a, ∃ s', t e a s = some s' := by
      intro a
      obtain ⟨s', hs', -⟩ := hp a
      exact ⟨s', hs'⟩
    refine (hf e s hdefined).bind ?_
    intro a s' ha
    obtain ⟨s'', hs'', hk⟩ := hp a
    rw [ha] at hs''
    cases hs''
    exact ih a hk

/-- What the ghost state stands for holds at the end of a run. -/
theorem run {h : Handler E A W} {stands : W → S → Prop}
    (hstep : ∀ w e s s', stands w s → t e (h w e).1 s = some s' → stands (h w e).2 s')
    (hp : p.Tracks t s Q) {w w' : W} {a : α} (hw : stands w s) (hrun : p.run h w = some (a, w')) :
    ∃ s', Q a s' ∧ stands w' s' := by
  induction p generalizing s w with
  | ret b =>
    cases hrun
    exact ⟨s, hp, hw⟩
  | undefined => cases hrun
  | request e k ih =>
    obtain ⟨s', hs', hk⟩ := hp (h w e).1
    exact ih (h w e).1 hk (hstep w e s s' hw hs') hrun

end Tracks

/-- A program whose requests all keep a relation runs to an end that is so related. -/
theorem All.runs {h : Handler E A W} {r : E → Prop} {keeps : W → W → Prop}
    (hrefl : ∀ w, keeps w w) (htrans : ∀ u v w, keeps u v → keeps v w → keeps u w)
    (hstep : ∀ w e, r e → keeps w (h w e).2) (hp : p.All r) (w : W) :
    ∃ a w', p.run h w = some (a, w') ∧ keeps w w' := by
  induction p generalizing w with
  | ret a => exact ⟨a, w, rfl, hrefl w⟩
  | undefined => exact hp.elim
  | request e k ih =>
    obtain ⟨a, w', hrun, hw'⟩ := ih (h w e).1 (hp.2 _) (h w e).2
    exact ⟨a, w', hrun, htrans _ _ _ (hstep w e hp.1) hw'⟩

end Program
end HookSqfs.Interaction
