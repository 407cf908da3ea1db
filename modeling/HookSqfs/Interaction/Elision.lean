import HookSqfs.Interaction.Mutex

/-! Threads that ask more than others do, where all that they ask besides has no effect. Each
run of theirs is one of the others once that is left out. -/
namespace HookSqfs.Interaction
variable {E : Type} {A : E → Type} {W L R α β : Type}

/-- Requests that may be left out, and what they may be answered. -/
structure Quiet (E : Type) (A : E → Type) where
  asks : E → Bool
  answers : (e : E) → A e → Prop

/-- The first program asks what the second one asks, and besides quiet requests: from a place
where these hold the lock `n` more times. -/
inductive Elides (K : Locking E) (q : Quiet E A) : Nat → Program E A α → Program E A α → Prop where
  | ret (a : α) : Elides K q 0 (.ret a) (.ret a)
  | undefined : Elides K q 0 .undefined .undefined
  | request (e : E) {k k' : A e → Program E A α} (rest : ∀ a, Elides K q 0 (k a) (k' a)) :
    Elides K q 0 (.request e k) (.request e k')
  | skip (e : E) {n : Nat} {k : A e → Program E A α} {p : Program E A α}
    (quiet : q.asks e = true) (holds : K.releases e = true → n ≠ 0)
    (rest : ∀ a, q.answers e a → Elides K q (K.after e n) (k a) p) :
    Elides K q n (.request e k) p

namespace Elides
variable {K : Locking E} {q : Quiet E A} {n : Nat}

theorem refl (p : Program E A α) : Elides K q 0 p p := by
  induction p with
  | ret a => exact .ret a
  | undefined => exact .undefined
  | request e k ih => exact .request e ih

theorem bind {p p' : Program E A α} {f f' : α → Program E A β} (h : Elides K q n p p')
    (hf : ∀ a, Elides K q 0 (f a) (f' a)) : Elides K q n (p >>= f) (p' >>= f') := by
  induction h with
  | ret a => exact hf a
  | undefined => exact .undefined
  | request e rest ih => exact .request e ih
  | skip e quiet holds rest ih => exact .skip e quiet holds ih

/-- Request by request. -/
theorem interpret {E' : Type} {A' : E' → Type} {f f' : (e : E') → Program E A (A' e)}
    (hf : ∀ e, Elides K q 0 (f e) (f' e)) (p : Program E' A' α) :
    Elides K q 0 (p.interpret f) (p.interpret f') := by
  induction p with
  | ret a => exact .ret a
  | undefined => exact .undefined
  | request e k ih => exact (hf e).bind ih

end Elides

/-- A quiet request leaves the state the same in the eyes of all that may be asked, and the
locals as they are. -/
structure Machine.Hides (M : Machine E A W L) (q : Quiet E A) (same : W → W → Prop) : Prop where
  handle : ∀ {w w' : W} (n : Nat) (l : L) (e : E), same w w' →
    (M.handle (M.enter n l w) e).1 = (M.handle (M.enter n l w') e).1 ∧
    M.locals (M.handle (M.enter n l w) e).2 = M.locals (M.handle (M.enter n l w') e).2 ∧
    same (M.handle (M.enter n l w) e).2 (M.handle (M.enter n l w') e).2
  quiet : ∀ {w w' : W} (n : Nat) (l : L) (e : E), same w w' → q.asks e = true →
    M.locals (M.handle (M.enter n l w) e).2 = l ∧ same (M.handle (M.enter n l w) e).2 w'

/-- A thread, and the one that does without its quiet requests. -/
structure Thread.Elided (K : Locking E) (q : Quiet E A) (t t' : Thread E A L R) : Prop where
  id : t.id = t'.id
  locals : t.locals = t'.locals
  rest : ∃ n, t.held = t'.held + n ∧ Elides K q n t.rest t'.rest

structure Pool.Elided (K : Locking E) (q : Quiet E A) (same : W → W → Prop)
    (c d : Pool E A W L R) : Prop where
  world : same c.world d.world
  threads : List.Forall₂ (Thread.Elided K q) c.threads d.threads

namespace Pool.Elided
variable {M : Machine E A W L} {q : Quiet E A} {same : W → W → Prop}
  {c c' d : Pool E A W L R} {turn : Turn E A} {turns : List (Turn E A)}

private theorem free {K : Locking E} {ts us : List (Thread E A L R)}
    (h : List.Forall₂ (Thread.Elided K q) ts us) (hfree : ∀ t ∈ ts, t.held = 0) :
    ∀ u ∈ us, u.held = 0 := by
  induction h with
  | nil => exact hfree
  | cons hu _ ih =>
    rw [List.forall_mem_cons] at hfree ⊢
    obtain ⟨n, hheld, -⟩ := hu.rest
    exact ⟨by omega, ih hfree.2⟩

/-- A lock taken once more is held once more. -/
private theorem after_add {K : Locking E} {e : E} {n : Nat} (holds : K.releases e = true → n ≠ 0)
    (held : Nat) : K.after e (held + n) = held + K.after e n := by
  unfold Locking.after
  split
  · rw [add_assoc]
  · split
    · rename_i h
      have hn := holds h
      omega
    · rfl

/-- A turn is one of the other threads, or is left out. -/
theorem step (hM : M.Hides q same) (h : Elided M.locking q same c d) (hstep : M.Step c turn c')
    (hanswer : q.asks turn.request = true → q.answers turn.request turn.answer) :
    (∃ d', M.Step d turn d' ∧ Elided M.locking q same c' d') ∨
      q.asks turn.request = true ∧ Elided M.locking q same c' d := by
  obtain ⟨w', us⟩ := d
  cases hstep with
  | turn w before after id l held e k free' =>
    obtain ⟨xb, ⟨id', l', held', rest⟩, xa, rfl, ⟨hid, hlocals, n, hheld, helides⟩, hb, ha⟩ :=
      Orderly.forall₂_split h.threads
    cases hid
    cases hlocals
    have hheld : held = held' + n := hheld
    subst hheld
    have hothers : (∀ t ∈ before ++ after, t.held = 0) → ∀ u ∈ xb ++ xa, u.held = 0 :=
      free (List.rel_append hb ha)
    cases helides with
    | @request _ _ k' rest =>
      have hworld : same w w' := h.world
      obtain ⟨hsame, hlocals, hworld⟩ := hM.handle id l e hworld
      have hstep' := Machine.Step.turn (M := M) w' xb xa id l held' e k' fun hacq => hothers (free' hacq)
      rw [← hsame, ← hlocals] at hstep'
      refine .inl ⟨_, hstep', hworld, List.rel_append hb (.cons ?_ ha)⟩
      exact ⟨rfl, rfl, 0, rfl, rest _⟩
    | skip _ quiet holds rest =>
      have hworld : same w w' := h.world
      obtain ⟨hlocals, hworld⟩ := hM.quiet id l e hworld quiet
      refine .inr ⟨quiet, hworld, List.rel_append hb (.cons ?_ ha)⟩
      exact ⟨rfl, hlocals, _, after_add holds held', rest _ (hanswer quiet)⟩

/-- Each run is one of the other threads, but for quiet turns: the same threads have the same
answers to all other requests, in the same order. -/
theorem steps (hM : M.Hides q same) (h : Elided M.locking q same c d) (hsteps : M.Steps c turns c')
    (hanswers : ∀ turn ∈ turns, q.asks turn.request = true → q.answers turn.request turn.answer) :
    ∃ turns' d', M.Steps d turns' d' ∧ Elided M.locking q same c' d' ∧ turns'.Sublist turns ∧
      (turns'.filter fun turn => !q.asks turn.request) =
        turns.filter fun turn => !q.asks turn.request := by
  induction hsteps with
  | nil => exact ⟨[], d, .nil, h, .slnil, rfl⟩
  | snoc _ hstep ih =>
    rw [List.forall_mem_append, List.forall_mem_singleton] at hanswers
    obtain ⟨turns', d', hsteps', hc, hsub, hsame⟩ := ih hanswers.1
    rcases hc.step hM hstep hanswers.2 with ⟨d'', hstep', hc'⟩ | ⟨hquiet, hc'⟩
    · refine ⟨_, d'', hsteps'.snoc hstep', hc', hsub.append (.refl _), ?_⟩
      rw [List.filter_append, List.filter_append, hsame]
    · refine ⟨turns', d', hsteps', hc', hsub.trans (List.sublist_append_left ..), ?_⟩
      rw [List.filter_append, hsame]
      simp [hquiet]

/-- Where a thread has come to its end, the other one has too, and with the same result. -/
theorem returned (h : Elided M.locking q same c d) :
    List.Forall₂ (fun t u => t.id = u.id ∧ t.locals = u.locals ∧
      ∀ r, t.rest = .ret r → u.rest = .ret r) c.threads d.threads := by
  refine h.threads.imp fun t u htu => ⟨htu.id, htu.locals, fun r hr => ?_⟩
  obtain ⟨n, -, helides⟩ := htu.rest
  rw [hr] at helides
  generalize u.rest = p at helides
  cases helides
  rfl

end Pool.Elided
end HookSqfs.Interaction
