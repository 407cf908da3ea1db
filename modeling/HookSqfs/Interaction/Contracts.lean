import HookSqfs.Interaction.Mutex

/-! What a thread may request and what it is answered, from what it knows. Each program is
checked against the contract by itself; the threads together keep what the contract stands
for, however their requests are interleaved. -/
namespace HookSqfs.Interaction
variable {E : Type} {A : E → Type} {W L R V G : Type}

/-- The requests a thread may make that holds the lock so often and knows `g`, what it may be
answered and know then, and whether it may run into undefined behaviour. -/
structure Contract (E : Type) (A : E → Type) (G : Type) where
  permits : Nat → G → E → Prop
  answers : Nat → G → (e : E) → A e → G → Prop
  undefined : Prop

namespace Program
variable {α β : Type}

/-- Along the answers of the contract only permitted requests are made, and each end has `Q`. -/
def Meets (K : Locking E) (C : Contract E A G) :
    Program E A α → Nat → G → (α → Nat → G → Prop) → Prop
  | .ret a, held, g, Q => Q a held g
  | .undefined, _, _, _ => C.undefined
  | .request e k, held, g, Q => C.permits held g e ∧
      ∀ a g', C.answers held g e a g' → (k a).Meets K C (K.after e held) g' Q

namespace Meets
variable {K : Locking E} {C : Contract E A G} {p q : Program E A α} {held : Nat} {g : G}
  {Q S : α → Nat → G → Prop}

theorem mono (h : p.Meets K C held g Q) (hQ : ∀ a held g, Q a held g → S a held g) :
    p.Meets K C held g S := by
  induction p generalizing held g with
  | ret a => exact hQ a held g h
  | undefined => exact h
  | request e k ih => exact ⟨h.1, fun a g' ha => ih a (h.2 a g' ha)⟩

theorem bind {f : α → Program E A β} {Q : β → Nat → G → Prop} (hp : p.Meets K C held g S)
    (hf : ∀ a held g, S a held g → (f a).Meets K C held g Q) :
    (p >>= f).Meets K C held g Q := by
  induction p generalizing held g with
  | ret a => exact hf a held g hp
  | undefined => exact hp
  | request e k ih => exact ⟨hp.1, fun a g' ha => ih a (hp.2 a g' ha)⟩

theorem ite {c : Prop} [Decidable c] (hp : c → p.Meets K C held g Q)
    (hq : ¬ c → q.Meets K C held g Q) : (if c then p else q).Meets K C held g Q := by
  split
  · rename_i h
    exact hp h
  · rename_i h
    exact hq h

end Meets
end Program

/-- The machine keeps `inv`, over the state and what each thread holds and knows, where a
thread makes a permitted request and is granted an answer, and the answer is one of the
contract. -/
structure Machine.Upholds (M : Machine E A W L) (C : Contract E A G)
    (grants : (e : E) → A e → Prop) (inv : W → List (Nat × G) → Prop) : Prop where
  serves : ∀ {w : W} {n : Nat} {l : L} {before after : List (Nat × G)} {held : Nat} {g : G} {e : E},
    inv w (before ++ (held, g) :: after) → C.permits held g e →
    (M.locking.acquires e = true → ∀ x ∈ before ++ after, x.1 = 0) →
    (held ≠ 0 → ∀ x ∈ before ++ after, x.1 = 0) →
    (M.locking.acquires e = false → M.locking.guarded e = true → held ≠ 0) →
    grants e (M.handle (M.enter n l w) e).1 →
    ∃ g', C.answers held g e (M.handle (M.enter n l w) e).1 g' ∧
      inv (M.handle (M.enter n l w) e).2 (before ++ (M.locking.after e held, g') :: after)

/-- The threads, what they know, and the ends that they will come to. -/
structure Machine.Kept (M : Machine E A W L) (C : Contract E A G)
    (inv : W → List (Nat × G) → Prop) (Q : R → Nat → G → Prop) (c : Pool E A W L R)
    (xs : List (Nat × G)) : Prop where
  inv : inv c.world xs
  threads : List.Forall₂ (fun t x => t.held = x.1 ∧ t.rest.Meets M.locking C x.1 x.2 Q)
    c.threads xs

namespace Orderly
variable {M : Machine E A W L} {C : Contract E A G} {grants : (e : E) → A e → Prop}
  {inv : W → List (Nat × G) → Prop} {Q : R → Nat → G → Prop} {c c' : Pool E A W L R}
  {turn : Turn E A} {turns : List (Turn E A)} {xs : List (Nat × G)}

theorem free_of_threads {P : Thread E A L R → Nat × G → Prop} {ts : List (Thread E A L R)}
    {xs : List (Nat × G)} (h : List.Forall₂ (fun t x => t.held = x.1 ∧ P t x) ts xs)
    (hfree : ∀ t ∈ ts, t.held = 0) : ∀ x ∈ xs, x.1 = 0 := by
  induction h with
  | nil => simp
  | cons hx _ ih =>
    rw [List.forall_mem_cons] at hfree ⊢
    exact ⟨hx.1.symm.trans hfree.1, ih hfree.2⟩

theorem kept_step (h : Orderly M.locking c.threads) (hM : M.Upholds C grants inv)
    (hkept : M.Kept C inv Q c xs) (hstep : M.Step c turn c')
    (hgrants : grants turn.request turn.answer) : ∃ xs', M.Kept C inv Q c' xs' := by
  cases hstep with
  | turn w before after n l held e k free =>
    obtain ⟨xb, ⟨held', g⟩, xa, rfl, ⟨hheld, hpermits, hrest⟩, hb, ha⟩ :=
      forall₂_split hkept.threads
    have hheld : held = held' := hheld
    subst hheld
    have hothers : (∀ t ∈ before ++ after, t.held = 0) → ∀ x ∈ xb ++ xa, x.1 = 0 :=
      free_of_threads (List.rel_append hb ha)
    obtain ⟨g', hanswer, hinv⟩ := hM.serves (n := n) (l := l) hkept.inv hpermits
      (fun hacq => hothers (free hacq)) (fun hheld => hothers (h.others_free hheld))
      (fun hacq hguard => (h.guarded_alone rfl hacq hguard w).1) hgrants
    exact ⟨_, hinv, List.rel_append hb (.cons ⟨rfl, hrest _ g' hanswer⟩ ha)⟩

/-- Threads that meet the contract keep it on every run whose answers are granted. -/
theorem kept (h : Orderly M.locking c.threads) (hM : M.Upholds C grants inv)
    (hkept : M.Kept C inv Q c xs) (hsteps : M.Steps c turns c')
    (hgrants : ∀ turn ∈ turns, grants turn.request turn.answer) :
    ∃ xs', M.Kept C inv Q c' xs' := by
  induction hsteps with
  | nil => exact ⟨xs, hkept⟩
  | snoc hsteps hstep ih =>
    rw [List.forall_mem_append, List.forall_mem_singleton] at hgrants
    obtain ⟨xs', hkept'⟩ := ih hgrants.1
    exact (h.steps hsteps).kept_step hM hkept' hstep hgrants.2

end Orderly

namespace Orderly
variable {M : Machine E A W L} {C : Contract E A G} {inv : W → List (Nat × G) → Prop}
  {Q : R → Nat → G → Prop} {c : Pool E A W L R} {xs : List (Nat × G)}

/-- Each thread meets the contract from where it is. -/
theorem meets (hkept : M.Kept C inv Q c xs) :
    ∀ t ∈ c.threads, ∃ g, t.rest.Meets M.locking C t.held g Q := by
  intro t ht
  obtain ⟨before, after, hsplit⟩ := List.append_of_mem ht
  have hthreads := hkept.threads
  rw [hsplit] at hthreads
  obtain ⟨xb, x, xa, rfl, ⟨hheld, hrest⟩, -, -⟩ := forall₂_split hthreads
  exact ⟨x.2, hheld ▸ hrest⟩

/-- Where the contract forbids undefined behaviour, no thread runs into it. -/
theorem defined (hC : ¬ C.undefined) (hkept : M.Kept C inv Q c xs) :
    ∀ t ∈ c.threads, t.rest ≠ .undefined := by
  intro t ht hundefined
  obtain ⟨g, hg⟩ := meets hkept t ht
  rw [hundefined] at hg
  exact hC hg

/-- Where the contract forbids undefined behaviour and nobody can have a turn, every thread
has come to an end with `Q`. -/
theorem ended (h : Orderly M.locking c.threads) (hC : ¬ C.undefined)
    (hkept : M.Kept C inv Q c xs) (hstuck : ∀ turn c', ¬ M.Step c turn c') :
    ∀ t ∈ c.threads, ∃ r g, t.rest = .ret r ∧ Q r t.held g := by
  have hdefined := defined hC hkept
  intro t ht
  obtain ⟨g, hg⟩ := meets hkept t ht
  cases hrest : t.rest with
  | ret r =>
    rw [hrest] at hg
    exact ⟨r, g, rfl, hg⟩
  | undefined => exact absurd hrest (hdefined t ht)
  | request e k =>
    rcases h.progress hstuck with hend | ⟨t', ht', -, hundefined⟩
    · exact absurd hrest (hend t ht e k)
    · exact absurd hundefined (hdefined t' ht')

/-- What each thread returned goes with what it knows. -/
theorem returned (hkept : M.Kept C inv Q c xs) (hends : ∀ t ∈ c.threads, ∃ r, t.rest = .ret r) :
    List.Forall₂ (fun t x => ∃ r, t.rest = .ret r ∧ Q r x.1 x.2) c.threads xs := by
  refine ((List.forall₂_and_left _ _).mpr ⟨hends, hkept.threads⟩).imp ?_
  rintro t x ⟨⟨r, hr⟩, -, hmeets⟩
  rw [hr] at hmeets
  exact ⟨r, hr, hmeets⟩

theorem finished (h : Orderly M.locking c.threads) (hC : ¬ C.undefined)
    (hkept : M.Kept C inv Q c xs) (hstuck : ∀ turn c', ¬ M.Step c turn c') :
    List.Forall₂ (fun t x => ∃ r, t.rest = .ret r ∧ Q r x.1 x.2) c.threads xs := by
  refine returned hkept fun t ht => ?_
  obtain ⟨r, -, hr, -⟩ := h.ended hC hkept hstuck t ht
  exact ⟨r, hr⟩

end Orderly

/-! An invariant of what the lock guards. -/

/-- The invariant, and that the holder of the lock knows what is guarded. -/
structure Settled (view : W → V) (I : Nat → V → Prop) (w : W) (xs : List (Nat × V)) : Prop where
  holder : ∀ x ∈ xs, x.1 ≠ 0 → x.2 = view w ∧ I x.1 (view w)
  free : (∀ x ∈ xs, x.1 = 0) → I 0 (view w)

/-- Who takes the lock finds `I 0` and from then on knows what is guarded. It keeps `I` at the
depth it is at, and so leaves `I 0` behind. -/
def Machine.invariant (M : Machine E A W L) (view : W → V) (I : Nat → V → Prop) :
    Contract E A V where
  permits held v e := held ≠ 0 → ∀ a v', M.Serves view v e a v' → I (M.locking.after e held) v'
  answers held v e a v' :=
    if held = 0 then M.locking.acquires e = true → I 0 v' else M.Serves view v e a v'
  undefined := True

section
variable {M : Machine E A W L} {view : W → V} {I : Nat → V → Prop} {w w' : W}
  {before after : List (Nat × V)} {held : Nat} {g : V} {e : E}

/-- The state of the locks is that of one thread where the others are free. -/
private theorem Settled.one {n : Nat} {v : V} (hfree : ∀ x ∈ before ++ after, x.1 = 0)
    (hv : v = view w) (hI : I n (view w)) : Settled view I w (before ++ (n, v) :: after) where
  holder x hx hne := by
    rcases mem_middle.mp hx with rfl | hx
    · exact ⟨hv, hI⟩
    · exact absurd (hfree x hx) hne
  free hnone := by
    have hzero : n = 0 := hnone _ (mem_middle.mpr (.inl rfl))
    rw [hzero] at hI
    exact hI

private theorem Settled.take (hview : M.Guards view) (hI : ∀ v, I 0 v → I 1 v)
    (hinv : Settled view I w (before ++ (0, g) :: after)) (henter : view w' = view w)
    (hacq : M.locking.acquires e = true) (hfree : ∀ x ∈ before ++ after, x.1 = 0) :
    ∃ g', (M.invariant view I).answers 0 g e (M.handle w' e).1 g' ∧
      Settled view I (M.handle w' e).2 (before ++ (M.locking.after e 0, g') :: after) := by
  have hsame : view (M.handle w' e).2 = view w :=
    (hview.handle w' e (hview.unguarded hacq)).trans henter
  have hzero : I 0 (view w) := by
    refine hinv.free fun x hx => ?_
    rcases mem_middle.mp hx with rfl | hx
    · rfl
    · exact hfree x hx
  refine ⟨view w, fun _ => hzero, .one hfree hsame.symm ?_⟩
  rw [hsame, Locking.after_of_acquires hacq]
  exact hI _ hzero

private theorem Settled.plain (hview : M.Guards view)
    (hinv : Settled view I w (before ++ (0, g) :: after)) (henter : view w' = view w)
    (hacq : M.locking.acquires e = false) (hopen : M.locking.guarded e = false) :
    ∃ g', (M.invariant view I).answers 0 g e (M.handle w' e).1 g' ∧
      Settled view I (M.handle w' e).2 (before ++ (M.locking.after e 0, g') :: after) := by
  have hsame : view (M.handle w' e).2 = view w := (hview.handle w' e hopen).trans henter
  refine ⟨g, fun h => absurd (hacq.symm.trans h) Bool.false_ne_true, ?_⟩
  rw [Locking.after_zero hacq]
  constructor
  · rw [hsame]
    exact hinv.holder
  · rw [hsame]
    exact hinv.free

private theorem Settled.hold (hview : M.Guards view)
    (hinv : Settled view I w (before ++ (held, g) :: after)) (henter : view w' = view w)
    (hheld : held ≠ 0) (hpermits : (M.invariant view I).permits held g e)
    (hfree : ∀ x ∈ before ++ after, x.1 = 0) :
    ∃ g', (M.invariant view I).answers held g e (M.handle w' e).1 g' ∧
      Settled view I (M.handle w' e).2 (before ++ (M.locking.after e held, g') :: after) := by
  obtain ⟨hg, -⟩ := hinv.holder _ (mem_middle.mpr (.inl rfl)) hheld
  have hg : g = view w' := hg.trans henter.symm
  have hserves := hview.serves w' e
  rw [← hg] at hserves
  refine ⟨view (M.handle w' e).2, ?_, .one hfree rfl (hpermits hheld _ _ hserves)⟩
  simp only [Machine.invariant, if_neg hheld]
  exact hserves

theorem Machine.Guards.upholds (hview : M.Guards view) (hI : ∀ v, I 0 v → I 1 v) :
    M.Upholds (M.invariant view I) (fun _ _ => True) (Settled view I) where
  serves := by
    intro w n l before after held g e hinv hpermits hacquires hothers hneeds _
    have henter := hview.enter n l w
    by_cases hheld : held = 0
    · subst hheld
      cases hacq : M.locking.acquires e with
      | true => exact hinv.take hview hI henter hacq (hacquires hacq)
      | false =>
        have hopen : M.locking.guarded e = false := by
          by_contra hg
          exact hneeds hacq (Bool.of_not_eq_false hg) rfl
        exact hinv.plain hview henter hacq hopen
    · exact hinv.hold hview henter hheld hpermits (hothers hheld)

/-- An invariant that every program keeps by itself holds whenever the lock is free, and at
the depth of its holder where one has it. -/
theorem Orderly.invariant {c c' : Pool E A W L R} {turns : List (Turn E A)}
    {Q : R → Nat → V → Prop} (hview : M.Guards view) (hI : ∀ v, I 0 v → I 1 v)
    (h : Orderly M.locking c.threads) (hfree : ∀ t ∈ c.threads, t.held = 0)
    (hinit : I 0 (view c.world))
    (hmeets : ∀ t ∈ c.threads, t.rest.Meets M.locking (M.invariant view I) 0 (view c.world) Q)
    (hsteps : M.Steps c turns c') :
    ((∀ t ∈ c'.threads, t.held = 0) → I 0 (view c'.world)) ∧
      ∀ t ∈ c'.threads, t.held ≠ 0 → I t.held (view c'.world) := by
  have hstart : M.Kept (M.invariant view I) (Settled view I) Q c
      (c.threads.map fun _ => (0, view c.world)) := by
    refine ⟨⟨fun x hx hne => ?_, fun _ => hinit⟩, ?_⟩
    · obtain ⟨t, -, rfl⟩ := List.mem_map.mp hx
      exact absurd rfl hne
    · rw [List.forall₂_map_right_iff, List.forall₂_same]
      exact fun t ht => ⟨hfree t ht, hmeets t ht⟩
  obtain ⟨xs, hkept⟩ := h.kept (hview.upholds hI) hstart hsteps fun _ _ => trivial
  refine ⟨fun hnone => hkept.inv.free ?_, fun t ht hne => ?_⟩
  · exact Orderly.free_of_threads hkept.threads hnone
  · obtain ⟨before, after, hsplit⟩ := List.append_of_mem ht
    have hthreads := hkept.threads
    rw [hsplit] at hthreads
    obtain ⟨xb, x, xa, rfl, ⟨hheld, -⟩, -, -⟩ := Orderly.forall₂_split hthreads
    rw [hheld] at hne ⊢
    exact (hkept.inv.holder x (List.mem_append_right xb List.mem_cons_self) hne).2

/-- A program that keeps to the lock, and whose requests all keep `J` while it is held. -/
theorem Program.Tracks.meets {α : Type} {q : E → Prop} {p : Program E A α} {S : α → Nat → Prop}
    {J : V → Prop}
    (hkeeps : ∀ v e a v', q e → J v → M.Serves view v e a v' → J v') (hfinds : ∀ v, I 0 v → J v)
    (hleaves : ∀ n v, J v → I n v) (hq : p.Makes q) {v : V} (hv : held ≠ 0 → J v)
    (hp : p.Tracks M.locking.rules held S) :
    p.Meets M.locking (M.invariant view I) held v fun a held' v' =>
      S a held' ∧ (held' ≠ 0 → J v') := by
  induction p generalizing held v with
  | ret a => exact ⟨hp, hv⟩
  | undefined => trivial
  | request e k ih =>
    refine ⟨fun hne a v' hserves => hleaves _ _ (hkeeps v e a v' hq.1 (hv hne) hserves), ?_⟩
    intro a v' hanswer
    obtain ⟨held', hrules, hk⟩ := hp a
    obtain ⟨rfl, -⟩ := Locking.rules_some hrules
    refine ih a (hq.2 a) (fun hne => ?_) hk
    by_cases hheld : held = 0
    · subst hheld
      cases hacq : M.locking.acquires e with
      | true => exact hfinds v' (hanswer hacq)
      | false => exact absurd (Locking.after_zero hacq) hne
    · simp only [Machine.invariant, if_neg hheld] at hanswer
      exact hkeeps v e a v' hq.1 (hv hheld) hanswer

end
end HookSqfs.Interaction
