import HookSqfs.Interaction.Tracking
import Mathlib.Algebra.BigOperators.Group.List.Basic
import Mathlib.Data.List.Forall2
import Mathlib.Data.List.Pairwise
import Mathlib.Logic.Hydra

/-! Threads that take turns at every single request, and a recursive mutex that makes them
wait. Each thread keeps to the discipline of the lock on its own; what follows is about all
of them together, whatever is answered and whoever is given the turn. -/
namespace HookSqfs.Interaction
open Program

/-- The requests that take the lock, that give it back, and that need it. -/
structure Locking (E : Type) where
  acquires : E → Bool
  releases : E → Bool
  guarded : E → Bool

namespace Locking
variable {E : Type} (K : Locking E)

/-- How often the lock is held after a request of its holder. -/
def after (e : E) (held : Nat) : Nat :=
  if K.acquires e then held + 1 else if K.releases e then held - 1 else held

/-- The lock is given back and needed only where it is held. -/
def rules {A : E → Type} : Tracker E A Nat := fun e _ held =>
  if K.acquires e = false ∧ (K.releases e = true ∨ K.guarded e = true) ∧ held = 0 then none
  else some (K.after e held)

variable {K}

theorem after_of_acquires {e : E} (h : K.acquires e = true) (held : Nat) :
    K.after e held = held + 1 := if_pos h

theorem after_zero {e : E} (h : K.acquires e = false) : K.after e 0 = 0 := by
  rw [after, if_neg (by rw [h]; exact Bool.false_ne_true)]
  split <;> rfl

theorem rules_some {A : E → Type} {e : E} {a : A e} {held held' : Nat}
    (h : K.rules e a held = some held') :
    held' = K.after e held ∧
      (K.acquires e = false → K.releases e = true ∨ K.guarded e = true → held ≠ 0) := by
  rw [rules, Option.ite_none_left_eq_some] at h
  exact ⟨(Option.some.inj h.2).symm, fun hacq hneeds hzero => h.1 ⟨hacq, hneeds, hzero⟩⟩

end Locking

variable {E : Type} {A : E → Type} {W L R V : Type}

/-- A thread: its locals, how often it holds the lock, and what it has still to do. -/
structure Thread (E : Type) (A : E → Type) (L R : Type) where
  id : Nat
  locals : L
  held : Nat
  rest : Program E A R

structure Pool (E : Type) (A : E → Type) (W L R : Type) where
  world : W
  threads : List (Thread E A L R)

/-- What answers the threads. A thread's locals are brought into the state for its turn. -/
structure Machine (E : Type) (A : E → Type) (W L : Type) where
  handle : Handler E A W
  enter : Nat → L → W → W
  locals : W → L
  locking : Locking E

/-- Who had a turn, what was requested and what was answered. -/
structure Turn (E : Type) (A : E → Type) where
  id : Nat
  request : E
  answer : A request

namespace Machine
variable (M : Machine E A W L)

/-- A turn: a thread makes one request. It takes the lock only where no other has it. -/
inductive Step : Pool E A W L R → Turn E A → Pool E A W L R → Prop where
  | turn (w : W) (before after : List (Thread E A L R)) (id : Nat) (l : L) (held : Nat) (e : E)
      (k : A e → Program E A R)
      (free : M.locking.acquires e = true → ∀ t ∈ before ++ after, t.held = 0) :
      Step ⟨w, before ++ ⟨id, l, held, .request e k⟩ :: after⟩
        ⟨id, e, (M.handle (M.enter id l w) e).1⟩
        ⟨(M.handle (M.enter id l w) e).2,
          before ++ ⟨id, M.locals (M.handle (M.enter id l w) e).2, M.locking.after e held,
            k (M.handle (M.enter id l w) e).1⟩ :: after⟩

/-- Turns one after the other. -/
inductive Steps (c : Pool E A W L R) : List (Turn E A) → Pool E A W L R → Prop where
  | nil : Steps c [] c
  | snoc {turns : List (Turn E A)} {c' c'' : Pool E A W L R} {turn : Turn E A}
      (steps : Steps c turns c') (step : M.Step c' turn c'') : Steps c (turns ++ [turn]) c''

/-- No thread is started or forgotten. -/
theorem Steps.length {M : Machine E A W L} {c c' : Pool E A W L R} {turns : List (Turn E A)}
    (h : M.Steps c turns c') : c'.threads.length = c.threads.length := by
  induction h with
  | nil => rfl
  | snoc _ step ih =>
    rw [← ih]
    cases step with
    | turn w before after id l held e k free => simp

end Machine

section
variable (M : Machine E A W L) (view : W → V)

/-- A part of the state that only guarded requests change. -/
structure Machine.Guards : Prop where
  enter : ∀ n l w, view (M.enter n l w) = view w
  handle : ∀ w e, M.locking.guarded e = false → view (M.handle w e).2 = view w
  apart : ∀ e, M.locking.guarded e = true → M.locking.acquires e = false

/-- What a request may be answered where the lock guards `v`, and what it guards then. A
request without need of the lock may be answered as anywhere. -/
def Machine.Serves (v : V) (e : E) (a : A e) (v' : V) : Prop :=
  ∃ w, (M.handle w e).1 = a ∧ if M.locking.guarded e = true
    then view w = v ∧ view (M.handle w e).2 = v' else v' = v

variable {M view}

theorem Machine.Guards.serves (hview : M.Guards view) (w : W) (e : E) :
    M.Serves view (view w) e (M.handle w e).1 (view (M.handle w e).2) := by
  refine ⟨w, rfl, ?_⟩
  cases h : M.locking.guarded e with
  | true => rw [if_pos rfl]; exact ⟨rfl, rfl⟩
  | false => rw [if_neg Bool.false_ne_true]; exact hview.handle w e h

/-- A part of what the lock guards. -/
theorem Machine.Guards.part {X : Type} (hview : M.Guards view) (f : V → X) :
    M.Guards fun w => f (view w) where
  enter n l w := congrArg f (hview.enter n l w)
  handle w e h := congrArg f (hview.handle w e h)
  apart := hview.apart

theorem Machine.Guards.unguarded (hview : M.Guards view) {e : E}
    (hacq : M.locking.acquires e = true) : M.locking.guarded e = false := by
  by_contra hg
  exact Bool.false_ne_true ((hview.apart e (Bool.of_not_eq_false hg)).symm.trans hacq)

end

/-- One element picked out, and the others. -/
theorem mem_middle {X : Type} {before after : List X} {x x' : X} :
    x' ∈ before ++ x :: after ↔ x' = x ∨ x' ∈ before ++ after :=
  List.perm_middle.mem_iff.trans List.mem_cons

/-- Not two threads hold the lock, and each keeps to the discipline from where it is. -/
structure Orderly (K : Locking E) (threads : List (Thread E A L R)) : Prop where
  exclusive : threads.Pairwise fun t t' => t.held = 0 ∨ t'.held = 0
  disciplined : ∀ t ∈ threads, t.rest.Tracks K.rules t.held fun _ held => held = 0

namespace Orderly
variable {K : Locking E} {M : Machine E A W L} {before after : List (Thread E A L R)}
  {t : Thread E A L R} {c c' : Pool E A W L R} {turn : Turn E A} {turns : List (Turn E A)}

/-- Threads that hold nothing. -/
theorem of_free {threads : List (Thread E A L R)} (hfree : ∀ t ∈ threads, t.held = 0)
    (hrest : ∀ t ∈ threads, t.rest.Tracks K.rules 0 fun _ held => held = 0) :
    Orderly K threads where
  exclusive := List.Pairwise.imp_of_mem (fun ht _ _ => .inl (hfree _ ht))
    (List.pairwise_of_forall (R := fun _ _ => True) fun _ _ => trivial)
  disciplined t ht := by
    rw [hfree t ht]
    exact hrest t ht

private theorem exclusive_iff : (before ++ t :: after).Pairwise
      (fun t t' => t.held = 0 ∨ t'.held = 0) ↔
    (∀ t' ∈ before ++ after, t.held = 0 ∨ t'.held = 0) ∧
      (before ++ after).Pairwise fun t t' => t.held = 0 ∨ t'.held = 0 := by
  rw [List.pairwise_middle fun h => h.symm, List.pairwise_cons]

/-- While a thread holds the lock no other does. -/
theorem others_free (h : Orderly K (before ++ t :: after)) (ht : t.held ≠ 0) :
    ∀ t' ∈ before ++ after, t'.held = 0 := by
  intro t' ht'
  exact ((exclusive_iff.mp h.exclusive).1 t' ht').resolve_left ht

/-- What a relation over the threads says where one of them is picked out. -/
theorem forall₂_split {X : Type} {P : Thread E A L R → X → Prop} {xs : List X}
    (h : List.Forall₂ P (before ++ t :: after) xs) : ∃ xb x xa, xs = xb ++ x :: xa ∧ P t x ∧
      List.Forall₂ P before xb ∧ List.Forall₂ P after xa := by
  induction before generalizing xs with
  | nil =>
    obtain ⟨x, xa, hx, ha, rfl⟩ := List.forall₂_cons_left_iff.mp h
    exact ⟨[], x, xa, rfl, hx, .nil, ha⟩
  | cons u before ih =>
    obtain ⟨y, ys, hy, hys, rfl⟩ := List.forall₂_cons_left_iff.mp h
    obtain ⟨xb, x, xa, rfl, hx, hb, ha⟩ := ih hys
    exact ⟨y :: xb, x, xa, rfl, hx, .cons hy hb, ha⟩

/-- What the discipline says of the next request of a thread. -/
theorem next_request (h : Orderly K (before ++ t :: after)) {e : E} {k : A e → Program E A R}
    (hrest : t.rest = .request e k) (a : A e) :
    (k a).Tracks K.rules (K.after e t.held) (fun _ held => held = 0) ∧
      (K.acquires e = false → K.releases e = true ∨ K.guarded e = true → t.held ≠ 0) := by
  have htracks := h.disciplined t (mem_middle.mpr (.inl rfl))
  rw [hrest] at htracks
  obtain ⟨held, hrules, hk⟩ := htracks a
  obtain ⟨rfl, hneeds⟩ := Locking.rules_some hrules
  exact ⟨hk, hneeds⟩

/-- A turn keeps the order. -/
theorem step (h : Orderly M.locking c.threads) (hstep : M.Step c turn c') :
    Orderly M.locking c'.threads := by
  cases hstep with
  | turn w before after id l held e k free =>
    obtain ⟨hothers, hpairs⟩ := exclusive_iff.mp h.exclusive
    refine ⟨exclusive_iff.mpr ⟨fun t' ht' => ?_, hpairs⟩, fun t' ht' => ?_⟩
    · cases hacq : M.locking.acquires e with
      | true => exact .inr (free hacq t' ht')
      | false =>
        refine (hothers t' ht').imp_left fun (hheld : held = 0) => ?_
        rw [hheld]
        exact Locking.after_zero hacq
    · rcases mem_middle.mp ht' with rfl | ht'
      · exact (h.next_request rfl _).1
      · exact h.disciplined t' (mem_middle.mpr (.inr ht'))

theorem steps (h : Orderly M.locking c.threads) (hsteps : M.Steps c turns c') :
    Orderly M.locking c'.threads := by
  induction hsteps with
  | nil => exact h
  | snoc _ hstep ih => exact ih.step hstep

/-- A thread that is about to make a guarded request holds the lock, and no other does. -/
theorem guarded_alone (h : Orderly M.locking (before ++ t :: after)) {e : E}
    {k : A e → Program E A R} (hrest : t.rest = .request e k)
    (hfree : M.locking.acquires e = false) (he : M.locking.guarded e = true) (w : W) :
    t.held ≠ 0 ∧ ∀ t' ∈ before ++ after, t'.held = 0 := by
  have hheld := (h.next_request hrest (M.handle w e).1).2 hfree (.inr he)
  exact ⟨hheld, h.others_free hheld⟩

/-- A turn of another thread leaves what the lock guards to its holder. -/
private theorem step_undisturbed {view : W → V} (hview : M.Guards view)
    (h : Orderly M.locking c.threads) (hstep : M.Step c turn c') (ht : t ∈ c.threads)
    (hheld : t.held ≠ 0) (hid : t.id ≠ turn.id) : view c'.world = view c.world ∧ t ∈ c'.threads := by
  cases hstep with
  | turn w before after id l held e k free =>
    have hother : t ∈ before ++ after :=
      (mem_middle.mp ht).resolve_left fun he => hid (congrArg Thread.id he)
    have hzero : held = 0 := ((exclusive_iff.mp h.exclusive).1 t hother).resolve_right hheld
    have hopen : M.locking.guarded e = false := by
      by_contra hg
      have hg := Bool.of_not_eq_false hg
      exact (h.guarded_alone rfl (hview.apart e hg) hg w).1 hzero
    exact ⟨(hview.handle _ e hopen).trans (hview.enter ..), mem_middle.mpr (.inr hother)⟩

/-- Whatever the others do while a thread holds the lock and waits for its turn, it finds
what the lock guards as it left it. -/
theorem undisturbed {view : W → V} (hview : M.Guards view) (h : Orderly M.locking c.threads)
    (hsteps : M.Steps c turns c') (ht : t ∈ c.threads) (hheld : t.held ≠ 0) (hid : ∀ turn ∈ turns, t.id ≠ turn.id) :
    view c'.world = view c.world ∧ t ∈ c'.threads := by
  induction hsteps with
  | nil => exact ⟨rfl, ht⟩
  | snoc hsteps hstep ih =>
    rw [List.forall_mem_append, List.forall_mem_singleton] at hid
    obtain ⟨hsame, hmem⟩ := ih hid.1
    obtain ⟨hsame', hmem'⟩ := (h.steps hsteps).step_undisturbed hview hstep hmem hheld hid.2
    exact ⟨hsame'.trans hsame, hmem'⟩

/-- A depth that the state keeps is how often its threads hold the lock. -/
theorem depth_steps (depth : W → Nat) (henter : ∀ n l w, depth (M.enter n l w) = depth w)
    (hhandle : ∀ w e, depth (M.handle w e).2 = M.locking.after e (depth w))
    (h : Orderly M.locking c.threads) (hdepth : depth c.world = (c.threads.map Thread.held).sum)
    (hsteps : M.Steps c turns c') : depth c'.world = (c'.threads.map Thread.held).sum := by
  induction hsteps with
  | nil => exact hdepth
  | snoc hsteps hstep ih =>
    have horder := h.steps hsteps
    cases hstep with
    | turn w before after id l held e k free =>
      have hneeds := (horder.next_request rfl (M.handle w e).1).2
      have hsum : depth w = (before.map Thread.held).sum + (held + (after.map Thread.held).sum) := by
        simpa using ih
      simp only [List.map_append, List.map_cons, List.sum_append, List.sum_cons]
      rw [hhandle, henter, hsum]
      cases hacq : M.locking.acquires e with
      | true =>
        rw [Locking.after_of_acquires hacq, Locking.after_of_acquires hacq]
        omega
      | false =>
        cases hrel : M.locking.releases e with
        | true =>
          have hheld : held ≠ 0 := hneeds hacq (.inl hrel)
          simp only [Locking.after, hacq, hrel, Bool.false_eq_true, if_false, if_true]
          omega
        | false =>
          simp only [Locking.after, hacq, hrel, Bool.false_eq_true, if_false]

/-- Where no other thread holds the lock, a thread that has a request to make may have a
turn. -/
private theorem turn_possible {w : W} {e : E} {k : A e → Program E A R}
    (hrest : t.rest = .request e k) (hfree : ∀ t' ∈ before ++ after, t'.held = 0) :
    ∃ turn c', M.Step ⟨w, before ++ t :: after⟩ turn c' := by
  obtain ⟨id, l, held, rest⟩ := t
  cases hrest
  exact ⟨_, _, .turn w before after id l held e k fun _ => hfree⟩

/-- Where nobody can have a turn, every thread is at its end, or one that holds the lock has
run into undefined behaviour. -/
theorem progress (h : Orderly M.locking c.threads) (hstuck : ∀ turn c', ¬ M.Step c turn c') :
    (∀ t ∈ c.threads, ∀ e k, t.rest ≠ .request e k) ∨
      ∃ t ∈ c.threads, t.held ≠ 0 ∧ t.rest = .undefined := by
  obtain ⟨w, threads⟩ := c
  by_cases hholder : ∃ t ∈ threads, t.held ≠ 0
  · obtain ⟨t, ht, hheld⟩ := hholder
    obtain ⟨before, after, rfl⟩ := List.append_of_mem ht
    cases hrest : t.rest with
    | ret r =>
      have htracks := h.disciplined t ht
      rw [hrest] at htracks
      exact absurd htracks hheld
    | undefined => exact .inr ⟨t, ht, hheld, hrest⟩
    | request e k =>
      obtain ⟨turn, c', hstep⟩ := turn_possible (M := M) (w := w) hrest (h.others_free hheld)
      exact absurd hstep (hstuck turn c')
  · refine .inl fun t ht e k hrest => ?_
    obtain ⟨before, after, rfl⟩ := List.append_of_mem ht
    have hfree : ∀ t' ∈ before ++ after, t'.held = 0 := fun t' ht' =>
      by_contra fun hheld => hholder ⟨t', mem_middle.mpr (.inr ht'), hheld⟩
    obtain ⟨turn, c', hstep⟩ := turn_possible (M := M) (w := w) hrest hfree
    exact hstuck turn c' hstep

/-- Answers that keep the threads from undefined behaviour do so on every turn. -/
theorem defined_steps {q : (e : E) → A e → Prop} (hq : ∀ w e, q e (M.handle w e).1)
    (h : ∀ t ∈ c.threads, t.rest.Defined q) (hsteps : M.Steps c turns c') :
    ∀ t ∈ c'.threads, t.rest.Defined q := by
  induction hsteps with
  | nil => exact h
  | snoc _ hstep ih =>
    cases hstep with
    | turn w before after id l held e k free =>
      intro t ht
      rcases mem_middle.mp ht with rfl | ht
      · exact ih _ (mem_middle.mpr (.inl rfl)) _ (hq _ _)
      · exact ih t (mem_middle.mpr (.inr ht))

/-- Where none of them is undefined and nobody can have a turn, every thread has returned. -/
theorem all_returned {q : (e : E) → A e → Prop} (h : Orderly M.locking c.threads)
    (hdefined : ∀ t ∈ c.threads, t.rest.Defined q) (hstuck : ∀ turn c', ¬ M.Step c turn c') :
    ∀ t ∈ c.threads, ∃ r, t.rest = .ret r := by
  intro t ht
  rcases h.progress hstuck with hend | ⟨t', ht', -, hundefined⟩
  · cases hrest : t.rest with
    | ret r => exact ⟨r, rfl⟩
    | undefined =>
      have hd := hdefined t ht
      rw [hrest] at hd
      exact hd.elim
    | request e k => exact absurd hrest (hend t ht e k)
  · have hd := hdefined t' ht'
    rw [hundefined] at hd
    exact hd.elim

end Orderly

/-! A mutex that is not recursive makes its own holder wait as well. -/

/-- Turns one after the other, under a mutex of either kind. -/
inductive Machine.StepsOf (M : Machine E A W L) (recursive : Bool) (c : Pool E A W L R) :
    List (Turn E A) → Pool E A W L R → Prop where
  | nil : StepsOf M recursive c [] c
  | snoc {turns : List (Turn E A)} {c' c'' : Pool E A W L R} {turn : Turn E A}
      (steps : StepsOf M recursive c turns c') (step : M.Step c' turn c'')
      (waits : recursive = false → M.locking.acquires turn.request = true →
        ∀ t ∈ c'.threads, t.held = 0) : StepsOf M recursive c (turns ++ [turn]) c''

theorem Machine.StepsOf.steps {M : Machine E A W L} {recursive : Bool} {c c' : Pool E A W L R}
    {turns : List (Turn E A)} (h : M.StepsOf recursive c turns c') : M.Steps c turns c' := by
  induction h with
  | nil => exact .nil
  | snoc _ step _ ih => exact ih.snoc step

namespace Orderly
variable {M : Machine E A W L} {t : Thread E A L R} {c : Pool E A W L R}

/-- A thread that takes the lock that it holds waits for ever where the mutex is not
recursive, and only there. -/
theorem holder_waits_iff (h : Orderly M.locking c.threads) (ht : t ∈ c.threads) (hheld : t.held ≠ 0)
    {e : E} {k : A e → Program E A R} (hrest : t.rest = .request e k)
    (hacq : M.locking.acquires e = true) (recursive : Bool) :
    (∀ turns c', M.StepsOf recursive c turns c' → t ∈ c'.threads) ↔ recursive = false := by
  constructor
  · intro hwaits
    by_contra hrec
    obtain ⟨w, threads⟩ := c
    obtain ⟨before, after, rfl⟩ := List.append_of_mem ht
    have hothers := h.others_free hheld
    obtain ⟨id, l, held, rest⟩ := t
    cases hrest
    have hmem := hwaits _ _ (.snoc .nil (.turn w before after id l held e k fun _ => hothers)
      fun hplain => absurd hplain hrec)
    rcases mem_middle.mp hmem with hsame | hother
    · have hagain : held = M.locking.after e held := congrArg Thread.held hsame
      rw [Locking.after_of_acquires hacq] at hagain
      omega
    · exact hheld (hothers _ hother)
  · rintro rfl turns c' hsteps
    induction hsteps with
    | nil => exact ht
    | snoc _ step waits ih =>
      cases step with
      | turn w before after id l held e' k' free =>
        rcases mem_middle.mp ih with rfl | hother
        · cases hrest
          exact absurd (waits rfl hacq _ ih) hheld
        · exact mem_middle.mpr (.inr hother)

end Orderly

/-! The threads come to an end whatever they are answered. -/

/-- What is left of a program after one request. -/
inductive Program.Rest : Program E A R → Program E A R → Prop where
  | request (e : E) (k : A e → Program E A R) (a : A e) : Rest (k a) (.request e k)

theorem Program.rest_wellFounded : WellFounded (Program.Rest (E := E) (A := A) (R := R)) := by
  refine ⟨fun p => ?_⟩
  induction p with
  | ret r =>
    refine ⟨_, fun q h => ?_⟩
    cases h
  | undefined =>
    refine ⟨_, fun q h => ?_⟩
    cases h
  | request e k ih =>
    refine ⟨_, fun q h => ?_⟩
    cases h with
    | request _ _ a => exact ih a

/-- A turn shortens one program and no other. -/
theorem Machine.step_wellFounded (M : Machine E A W L) :
    WellFounded fun c' c : Pool E A W L R => ∃ turn, M.Step c turn c' := by
  refine Subrelation.wf (r := InvImage (Relation.CutExpand Program.Rest)
    fun c : Pool E A W L R => (c.threads.map Thread.rest : Multiset (Program E A R))) ?_
    (InvImage.wf _ Program.rest_wellFounded.cutExpand)
  rintro c' c ⟨turn, hstep⟩
  cases hstep with
  | turn w before after id l held e k free =>
    refine ⟨{k (M.handle (M.enter id l w) e).1}, .request e k, ?_, ?_⟩
    · intro p hp
      rw [Multiset.mem_singleton.mp hp]
      exact .request e k _
    · simp only [List.map_append, List.map_cons, ← Multiset.coe_add, ← Multiset.cons_coe,
        ← Multiset.singleton_add]
      ac_rfl

/-- Every run goes on to where nobody can have a turn. -/
theorem Machine.comes_to_rest {M : Machine E A W L} {c c' : Pool E A W L R}
    {turns : List (Turn E A)} (hsteps : M.Steps c turns c') :
    ∃ more d, M.Steps c (turns ++ more) d ∧ ∀ turn d', ¬ M.Step d turn d' := by
  induction c' using M.step_wellFounded.induction generalizing turns with
  | h c' ih =>
    by_cases hstuck : ∀ turn d, ¬ M.Step c' turn d
    · exact ⟨[], c', (List.append_nil turns).symm ▸ hsteps, hstuck⟩
    · push Not at hstuck
      obtain ⟨turn, c'', hstep⟩ := hstuck
      obtain ⟨more, d, hmore, hrest⟩ := ih c'' ⟨turn, hstep⟩ (hsteps.snoc hstep)
      exact ⟨turn :: more, d, List.append_cons .. ▸ hmore, hrest⟩

end HookSqfs.Interaction
