import HookSqfs.Interaction.Program

/-! Two runs, each of its program and from its state, that keep a relation indexed by a
ghost state and give the same result. -/
namespace HookSqfs.Interaction
variable {E : Type} {A : E → Type} {S W α β : Type}

namespace Program

/-- From related states both runs are undefined, or both end with one result in related
states. -/
def Twin (h₁ h₂ : Handler E A W) (rel : S → W → W → Prop) (s : S) (p₁ p₂ : Program E A α)
    (Q : α → S → Prop) : Prop :=
  ∀ w₁ w₂, rel s w₁ w₂ → p₁.run h₁ w₁ = none ∧ p₂.run h₂ w₂ = none ∨
    ∃ a v₁ v₂ s', p₁.run h₁ w₁ = some (a, v₁) ∧ p₂.run h₂ w₂ = some (a, v₂) ∧ rel s' v₁ v₂ ∧ Q a s'

namespace Twin
variable {h₁ h₂ : Handler E A W} {rel : S → W → W → Prop} {s : S} {p₁ p₂ : Program E A α}
  {Q R : α → S → Prop}

theorem ret {a : α} (h : Q a s) : Twin h₁ h₂ rel s (.ret a) (.ret a) Q :=
  fun w₁ w₂ hw => .inr ⟨a, w₁, w₂, s, rfl, rfl, hw, h⟩

theorem undefined : Twin h₁ h₂ rel s (.undefined : Program E A α) .undefined Q :=
  fun _ _ _ => .inl ⟨rfl, rfl⟩

/-- A request that both runs make, with one answer. -/
theorem request {e : E} {k₁ k₂ : A e → Program E A α} {next : A e → S}
    (hstep : ∀ w₁ w₂, rel s w₁ w₂ → (h₁ w₁ e).1 = (h₂ w₂ e).1 ∧
      rel (next (h₁ w₁ e).1) (h₁ w₁ e).2 (h₂ w₂ e).2)
    (h : ∀ a, Twin h₁ h₂ rel (next a) (k₁ a) (k₂ a) Q) :
    Twin h₁ h₂ rel s (.request e k₁) (.request e k₂) Q := by
  intro w₁ w₂ hw
  obtain ⟨hanswer, hw'⟩ := hstep w₁ w₂ hw
  have hrest := h (h₁ w₁ e).1 _ _ hw'
  rw [run_request, run_request, ← hanswer]
  exact hrest

/-- A request that may be answered differently. -/
theorem differ {e : E} {k₁ k₂ : A e → Program E A α} {s' : S}
    (hstep : ∀ w₁ w₂, rel s w₁ w₂ → rel s' (h₁ w₁ e).2 (h₂ w₂ e).2)
    (h : ∀ a₁ a₂, Twin h₁ h₂ rel s' (k₁ a₁) (k₂ a₂) Q) :
    Twin h₁ h₂ rel s (.request e k₁) (.request e k₂) Q :=
  fun w₁ w₂ hw => h (h₁ w₁ e).1 (h₂ w₂ e).1 _ _ (hstep w₁ w₂ hw)

theorem mono (h : Twin h₁ h₂ rel s p₁ p₂ Q) (hQ : ∀ a s', Q a s' → R a s') :
    Twin h₁ h₂ rel s p₁ p₂ R := by
  intro w₁ w₂ hw
  apply (h w₁ w₂ hw).imp id
  rintro ⟨a, v₁, v₂, s', hrun₁, hrun₂, hv, hq⟩
  exact ⟨a, v₁, v₂, s', hrun₁, hrun₂, hv, hQ a s' hq⟩

theorem bind {f₁ f₂ : α → Program E A β} {Q : β → S → Prop} (hp : Twin h₁ h₂ rel s p₁ p₂ R)
    (hf : ∀ a s', R a s' → Twin h₁ h₂ rel s' (f₁ a) (f₂ a) Q) :
    Twin h₁ h₂ rel s (p₁ >>= f₁) (p₂ >>= f₂) Q := by
  intro w₁ w₂ hw
  rw [run_bind, run_bind]
  rcases hp w₁ w₂ hw with ⟨hrun₁, hrun₂⟩ | ⟨a, v₁, v₂, s', hrun₁, hrun₂, hv, hr⟩
  · rw [hrun₁, hrun₂]
    exact .inl ⟨rfl, rfl⟩
  · rw [hrun₁, hrun₂]
    exact hf a s' hr v₁ v₂ hv

theorem ite {c : Prop} [Decidable c] {q₁ q₂ : Program E A α} (hp : c → Twin h₁ h₂ rel s p₁ p₂ Q)
    (hq : ¬ c → Twin h₁ h₂ rel s q₁ q₂ Q) :
    Twin h₁ h₂ rel s (if c then p₁ else q₁) (if c then p₂ else q₂) Q := by
  by_cases hc : c
  · rw [if_pos hc, if_pos hc]
    exact hp hc
  · rw [if_neg hc, if_neg hc]
    exact hq hc

/-- A program whose requests have one answer and keep the relation. -/
theorem of_all {q : E → Prop} {p : Program E A α}
    (hstep : ∀ w₁ w₂ e, q e → rel s w₁ w₂ → (h₁ w₁ e).1 = (h₂ w₂ e).1 ∧
      rel s (h₁ w₁ e).2 (h₂ w₂ e).2)
    (hp : p.All q) : Twin h₁ h₂ rel s p p fun _ s' => s' = s := by
  induction p with
  | ret a => exact ret rfl
  | undefined => exact undefined
  | request e k ih => exact request (fun w₁ w₂ hw => hstep w₁ w₂ e hp.1 hw) fun a => ih a (hp.2 a)

end Twin
end Program
end HookSqfs.Interaction
