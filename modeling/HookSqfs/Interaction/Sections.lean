import HookSqfs.Interaction.Program

/-! Critical sections. Between two breaks a program makes one request outside the lock,
or runs on without a break for as long as the lock is held. -/
namespace HookSqfs.Interaction.Program
variable {E : Type} {A : E → Type} {W α β : Type} (h : Handler E A W) (depth : W → Nat)

/-- Run on while the lock is held. -/
def settle : Program E A α → W → Program E A α × W
  | .ret a, w => (.ret a, w)
  | .undefined, w => (.undefined, w)
  | .request e k, w =>
    if depth w = 0 then (.request e k, w) else settle (k (h w e).1) (h w e).2

/-- What a program does up to its next break: what is left of it, and the state. -/
def burst : Program E A α → W → Program E A α × W
  | .ret a, w => (.ret a, w)
  | .undefined, w => (.undefined, w)
  | .request e k, w => settle h depth (k (h w e).1) (h w e).2

variable {h depth}

theorem settle_free {w : W} (hw : depth w = 0) (p : Program E A α) :
    settle h depth p w = (p, w) := by
  cases p with
  | ret a => rfl
  | undefined => rfl
  | request e k => exact if_pos hw

theorem settle_held {w : W} (hw : depth w ≠ 0) (e : E) (k : A e → Program E A α) :
    settle h depth (.request e k) w = settle h depth (k (h w e).1) (h w e).2 :=
  if_neg hw

/-- A request that leaves the lock free is a burst of its own. -/
theorem burst_plain {w : W} {e : E} (hw : depth (h w e).2 = 0) (k : A e → Program E A α) :
    burst h depth (.request e k) w = (k (h w e).1, (h w e).2) :=
  settle_free hw _

/-- A program that does not touch the lock runs to its end inside the section. -/
theorem settle_bind {q : E → Prop} (hq : ∀ w e, q e → depth (h w e).2 = depth w)
    {p : Program E A α} (hp : p.All q) (f : α → Program E A β) {w w' : W} {a : α}
    (hw : depth w ≠ 0) (hrun : p.run h w = some (a, w')) :
    settle h depth (p >>= f) w = settle h depth (f a) w' ∧ depth w' = depth w := by
  induction p generalizing w with
  | ret b =>
    cases hrun
    exact ⟨rfl, rfl⟩
  | undefined => exact hp.elim
  | request e k ih =>
    have hkeep := hq w e hp.1
    obtain ⟨hsettle, hdepth⟩ := ih (h w e).1 (hp.2 _) (hkeep ▸ hw) hrun
    refine ⟨?_, hdepth.trans hkeep⟩
    rw [request_bind, settle_held hw]
    exact hsettle

/-- Every path makes requests with `q` and then one with `u`, which is its last. -/
def Closing (q u : E → Prop) : Program E A α → Prop
  | .ret _ => False
  | .undefined => False
  | .request e k => (u e ∧ ∀ a, ∃ r, k a = .ret r) ∨ q e ∧ ∀ a, (k a).Closing q u

theorem All.bind_closing {q u : E → Prop} {p : Program E A α} {f : α → Program E A β}
    (hp : p.All q) (hf : ∀ a, (f a).Closing q u) : (p >>= f).Closing q u := by
  induction p with
  | ret a => exact hf a
  | undefined => exact hp.elim
  | request e k ih => exact .inr ⟨hp.1, fun a => ih a (hp.2 a)⟩

/-- A section that frees the lock with its last request runs to its end in one burst. -/
theorem settle_closing {q u : E → Prop} (hq : ∀ w e, q e → depth (h w e).2 = depth w)
    (hu : ∀ w e, u e → depth w = 1 → depth (h w e).2 = 0) {p : Program E A α}
    (hp : p.Closing q u) {w w' : W} {a : α} (hw : depth w = 1) (hrun : p.run h w = some (a, w')) :
    settle h depth p w = (.ret a, w') ∧ depth w' = 0 := by
  induction p generalizing w with
  | ret b => exact hp.elim
  | undefined => exact hp.elim
  | request e k ih =>
    rw [settle_held (hw ▸ Nat.one_ne_zero)]
    rcases hp with ⟨hlast, hret⟩ | ⟨hkeep, hrest⟩
    · obtain ⟨r, hr⟩ := hret (h w e).1
      rw [run_request, hr] at hrun
      cases hrun
      rw [hr]
      exact ⟨rfl, hu w e hlast hw⟩
    · exact ih _ (hrest _) ((hq w e hkeep).trans hw) hrun

private theorem settle_then {p : Program E A α} (f : α → Program E A β) {w : W}
    (hw : depth (settle h depth p w).2 = 0) :
    settle h depth (p >>= f) w =
      ((settle h depth p w).1 >>= f, (settle h depth p w).2) := by
  induction p generalizing w with
  | ret a => exact settle_free hw (f a)
  | undefined => rfl
  | request e k ih =>
    by_cases hfree : depth w = 0
    · rw [settle_free hfree, settle_free hfree]
    · rw [settle_held hfree] at hw ⊢
      rw [request_bind, settle_held hfree]
      exact ih (h w e).1 hw

/-- A burst that ends with the lock free is the same with a program to follow. -/
theorem burst_bind {e : E} {k : A e → Program E A α} (f : α → Program E A β) {w : W}
    (hw : depth (burst h depth (.request e k) w).2 = 0) :
    burst h depth (.request e k >>= f) w =
      ((burst h depth (.request e k) w).1 >>= f, (burst h depth (.request e k) w).2) :=
  settle_then f hw

end HookSqfs.Interaction.Program
