import Mathlib.Logic.Basic

/-! Programs over a request signature: a request is answered from outside and
the program goes on with the answer. Undefined behaviour is a program of its own. -/
namespace HookSqfs.Interaction

/-- A finite program that asks requests of type `E` and reads answers `A e`. -/
inductive Program (E : Type) (A : E → Type) (α : Type) where
  | ret : α → Program E A α
  | undefined : Program E A α
  | request : (e : E) → (A e → Program E A α) → Program E A α

/-- The state-passing meaning of one request. -/
abbrev Handler (E : Type) (A : E → Type) (W : Type) := W → (e : E) → A e × W

namespace Program
variable {E : Type} {A : E → Type} {W α β γ : Type}

protected def bind : Program E A α → (α → Program E A β) → Program E A β
  | .ret a, f => f a
  | .undefined, _ => .undefined
  | .request e k, f => .request e fun a => (k a).bind f

instance : Monad (Program E A) where
  pure := .ret
  bind := .bind

/-- Ask one request and return its answer. -/
def ask (e : E) : Program E A (A e) := .request e .ret

@[simp] theorem pure_eq (a : α) : (pure a : Program E A α) = .ret a := rfl

@[simp] theorem ret_bind (a : α) (f : α → Program E A β) : (.ret a >>= f) = f a := rfl

@[simp] theorem undefined_bind (f : α → Program E A β) :
    ((.undefined : Program E A α) >>= f) = .undefined := rfl

@[simp] theorem request_bind (e : E) (k : A e → Program E A α) (f : α → Program E A β) :
    (.request e k >>= f) = .request e fun a => k a >>= f := rfl

@[simp] theorem ask_bind (e : E) (f : A e → Program E A β) :
    (ask e >>= f) = .request e f := rfl

theorem bind_ret (p : Program E A α) : (p >>= .ret) = p := by
  induction p with
  | ret a => rfl
  | undefined => rfl
  | request e k ih => exact congrArg (Program.request e) (funext ih)

theorem bind_assoc' (p : Program E A α) (f : α → Program E A β) (g : β → Program E A γ) :
    (p >>= f >>= g) = (p >>= fun a => f a >>= g) := by
  induction p with
  | ret a => rfl
  | undefined => rfl
  | request e k ih => exact congrArg (Program.request e) (funext ih)

instance : LawfulMonad (Program E A) :=
  LawfulMonad.mk' (Program E A) bind_ret (fun _ _ => rfl) bind_assoc'

/-- Run to the end; `none` is undefined behaviour. -/
def run (h : Handler E A W) : Program E A α → W → Option (α × W)
  | .ret a, w => some (a, w)
  | .undefined, _ => none
  | .request e k, w => (k (h w e).1).run h (h w e).2

@[simp] theorem run_ret (h : Handler E A W) (a : α) (w : W) :
    (Program.ret a : Program E A α).run h w = some (a, w) := rfl

@[simp] theorem run_undefined (h : Handler E A W) (w : W) :
    (Program.undefined : Program E A α).run h w = none := rfl

@[simp] theorem run_request (h : Handler E A W) (e : E) (k : A e → Program E A α) (w : W) :
    (Program.request e k).run h w = (k (h w e).1).run h (h w e).2 := rfl

@[simp] theorem run_ask (h : Handler E A W) (e : E) (w : W) :
    (ask e : Program E A (A e)).run h w = some (h w e) := rfl

/-- Running in sequence is running the rest from where the first part stopped. -/
theorem run_bind (h : Handler E A W) (p : Program E A α) (f : α → Program E A β) (w : W) :
    (p >>= f).run h w = (p.run h w).bind fun out => (f out.1).run h out.2 := by
  induction p generalizing w with
  | ret a => rfl
  | undefined => rfl
  | request e k ih => exact ih (h w e).1 (h w e).2

/-- It runs to an end that satisfies `Q`. -/
def Ends (h : Handler E A W) (p : Program E A α) (w : W) (Q : α → W → Prop) : Prop :=
  ∃ a w', p.run h w = some (a, w') ∧ Q a w'

theorem ends_ret {h : Handler E A W} {a : α} {w : W} {Q : α → W → Prop} (hq : Q a w) :
    (Program.ret a : Program E A α).Ends h w Q := ⟨a, w, rfl, hq⟩

theorem Ends.mono {h : Handler E A W} {p : Program E A α} {w : W} {Q R : α → W → Prop}
    (hp : p.Ends h w Q) (hQ : ∀ a w', Q a w' → R a w') : p.Ends h w R := by
  obtain ⟨a, w', hrun, hq⟩ := hp
  exact ⟨a, w', hrun, hQ a w' hq⟩

theorem Ends.bind {h : Handler E A W} {p : Program E A α} {f : α → Program E A β} {w : W}
    {Q : α → W → Prop} {R : β → W → Prop} (hp : p.Ends h w Q)
    (hf : ∀ a w', Q a w' → (f a).Ends h w' R) : (p >>= f).Ends h w R := by
  obtain ⟨a, w', hrun, hq⟩ := hp
  obtain ⟨b, v, hb, hr⟩ := hf a w' hq
  refine ⟨b, v, ?_, hr⟩
  rw [run_bind, hrun]
  exact hb

theorem ends_ask_bind {h : Handler E A W} {e : E} {f : A e → Program E A β} {a : A e} {w w' : W}
    {Q : β → W → Prop} (he : h w e = (a, w')) (hf : (f a).Ends h w' Q) :
    (ask e >>= f).Ends h w Q := by
  obtain ⟨b, v, hrun, hq⟩ := hf
  refine ⟨b, v, ?_, hq⟩
  rw [run_bind, run_ask, he]
  exact hrun

/-- Each request replaced by a program over another signature. -/
def interpret {E' : Type} {A' : E' → Type} (f : (e : E) → Program E' A' (A e)) :
    Program E A α → Program E' A' α
  | .ret a => .ret a
  | .undefined => .undefined
  | .request e k => f e >>= fun a => (k a).interpret f

/-- No undefined behaviour is reachable and every request satisfies `q`, whatever the
answers are. -/
def All (q : E → Prop) : Program E A α → Prop
  | .ret _ => True
  | .undefined => False
  | .request e k => q e ∧ ∀ a, (k a).All q

@[simp] theorem all_ret (q : E → Prop) (a : α) : (Program.ret a : Program E A α).All q := trivial

@[simp] theorem all_request (q : E → Prop) (e : E) (k : A e → Program E A α) :
    (Program.request e k).All q ↔ q e ∧ ∀ a, (k a).All q := Iff.rfl

@[simp] theorem all_ask (q : E → Prop) (e : E) :
    (ask e : Program E A (A e)).All q ↔ q e := by
  simp [ask]

theorem All.ite {q : E → Prop} {c : Prop} [Decidable c] {p p' : Program E A α} (hp : p.All q)
    (hp' : p'.All q) : (if c then p else p').All q := by
  split
  · exact hp
  · exact hp'

theorem All.bind {q : E → Prop} {p : Program E A α} {f : α → Program E A β} (hp : p.All q)
    (hf : ∀ a, (f a).All q) : (p >>= f).All q := by
  induction p with
  | ret a => exact hf a
  | undefined => exact hp.elim
  | request e k ih => exact ⟨hp.1, fun a => ih a (hp.2 a)⟩

theorem All.mono {q r : E → Prop} {p : Program E A α} (hp : p.All q) (h : ∀ e, q e → r e) :
    p.All r := by
  induction p with
  | ret a => trivial
  | undefined => exact hp.elim
  | request e k ih => exact ⟨h e hp.1, fun a => ih a (hp.2 a)⟩

/-- A run whose requests keep a part of the state keeps it. -/
theorem All.run_keeps {X : Type} {q : E → Prop} {h : Handler E A W} {f : W → X}
    (hq : ∀ w e, q e → f (h w e).2 = f w) {p : Program E A α} (hp : p.All q) {w w' : W} {a : α}
    (hrun : p.run h w = some (a, w')) : f w' = f w := by
  induction p generalizing w with
  | ret b =>
    cases hrun
    rfl
  | undefined => exact hp.elim
  | request e k ih => exact (ih _ (hp.2 _) hrun).trans (hq w e hp.1)

theorem All.interpret {E' : Type} {A' : E' → Type} {q : E → Prop} {r : E' → Prop}
    {f : (e : E) → Program E' A' (A e)} {p : Program E A α} (hp : p.All q)
    (hf : ∀ e, q e → (f e).All r) : (p.interpret f).All r := by
  induction p with
  | ret a => trivial
  | undefined => exact hp.elim
  | request e k ih => exact (hf e hp.1).bind fun a => ih a (hp.2 a)

/-- Every request satisfies `q`. -/
def Makes (q : E → Prop) : Program E A α → Prop
  | .ret _ => True
  | .undefined => True
  | .request e k => q e ∧ ∀ a, (k a).Makes q

theorem Makes.bind {q : E → Prop} {p : Program E A α} {f : α → Program E A β} (hp : p.Makes q)
    (hf : ∀ a, (f a).Makes q) : (p >>= f).Makes q := by
  induction p with
  | ret a => exact hf a
  | undefined => trivial
  | request e k ih => exact ⟨hp.1, fun a => ih a (hp.2 a)⟩

theorem All.makes {q : E → Prop} {p : Program E A α} (hp : p.All q) : p.Makes q := by
  induction p with
  | ret a => trivial
  | undefined => trivial
  | request e k ih => exact ⟨hp.1, fun a => ih a (hp.2 a)⟩

theorem Makes.ite {q : E → Prop} {c : Prop} [Decidable c] {p p' : Program E A α} (hp : p.Makes q)
    (hp' : p'.Makes q) : (if c then p else p').Makes q := by
  split
  · exact hp
  · exact hp'

theorem Makes.interpret {E' : Type} {A' : E' → Type} {q : E' → Prop}
    {f : (e : E) → Program E' A' (A e)} (hf : ∀ e, (f e).Makes q) (p : Program E A α) :
    (p.interpret f).Makes q := by
  induction p with
  | ret a => trivial
  | undefined => trivial
  | request e k ih => exact (hf e).bind ih

/-- No path along answers with `q` is undefined. -/
def Defined (q : (e : E) → A e → Prop) : Program E A α → Prop
  | .ret _ => True
  | .undefined => False
  | .request e k => ∀ a, q e a → (k a).Defined q

section
variable {q : (e : E) → A e → Prop} {p : Program E A α}

theorem All.defined {r : E → Prop} (hp : p.All r) : p.Defined q := by
  induction p with
  | ret a => trivial
  | undefined => exact hp.elim
  | request e k ih => exact fun a _ => ih a (hp.2 a)

theorem Defined.bind {f : α → Program E A β} (hp : p.Defined q) (hf : ∀ a, (f a).Defined q) :
    (p >>= f).Defined q := by
  induction p with
  | ret a => exact hf a
  | undefined => exact hp.elim
  | request e k ih => exact fun a ha => ih a (hp a ha)

theorem Defined.ite {c : Prop} [Decidable c] {p' : Program E A α} (hp : p.Defined q)
    (hp' : p'.Defined q) : (if c then p else p').Defined q := by
  split
  · exact hp
  · exact hp'

theorem Defined.ne_undefined (hp : p.Defined q) : p ≠ .undefined := by
  rintro rfl
  exact hp

end

end Program
end HookSqfs.Interaction
