import HookSqfs.Interaction.Mutex

/-! The turns of threads under a mutex as a history. Where no thread's own turns and no two turns
at what the lock guards change places, each section can be put together without a break. -/
namespace HookSqfs.Interaction
open Program
variable {E : Type} {A : E → Type} {W L R V : Type}

/-- The turns of a thread since it took the lock, and how often it holds it. -/
inductive InSection (K : Locking E) (id : Nat) : List (Turn E A) → Nat → Prop where
  | takes {turn : Turn E A} (own : turn.id = id) (acquires : K.acquires turn.request = true) :
    InSection K id [turn] 1
  | goes {turns : List (Turn E A)} {held : Nat} {turn : Turn E A}
      (inside : InSection K id turns held) (own : turn.id = id)
      (keeps : K.after turn.request held ≠ 0) :
    InSection K id (turns ++ [turn]) (K.after turn.request held)

theorem InSection.own {K : Locking E} {id held : Nat} {turns : List (Turn E A)}
    (h : InSection K id turns held) :
    ∀ turn ∈ turns, turn.id = id := by
  induction h with
  | takes own _ => simpa using own
  | goes _ own _ ih =>
    rw [List.forall_mem_append]
    exact ⟨ih, by simpa using own⟩

/-- Between a thread's taking the lock and its giving it back no other thread has a turn. -/
inductive Serial (K : Locking E) : List (Turn E A) → Prop where
  | nil : Serial K []
  | plain {turns : List (Turn E A)} {turn : Turn E A} (before : Serial K turns)
      (free : K.acquires turn.request = false) (keeps : K.releases turn.request = false)
      (unguarded : K.guarded turn.request = false) : Serial K (turns ++ [turn])
  | whole {turns block : List (Turn E A)} {id held : Nat} {turn : Turn E A}
      (before : Serial K turns) (inside : InSection K id block held) (own : turn.id = id)
      (leaves : K.after turn.request held = 0) : Serial K (turns ++ (block ++ [turn]))

/-- The same turns with the same answers, in an order that a thread on its own and what the lock
guards cannot tell from the other. -/
structure SameHistory (K : Locking E) (turns turns' : List (Turn E A)) : Prop where
  perm : turns.Perm turns'
  own : ∀ id, turns.filter (·.id = id) = turns'.filter (·.id = id)
  guarded : turns.filter (fun t => K.guarded t.request) = turns'.filter fun t => K.guarded t.request

namespace SameHistory
variable {K : Locking E} {turns turns' turns'' more : List (Turn E A)}

theorem refl (K : Locking E) (turns : List (Turn E A)) : SameHistory K turns turns :=
  ⟨.refl _, fun _ => rfl, rfl⟩

theorem trans (h : SameHistory K turns turns') (h' : SameHistory K turns' turns'') :
    SameHistory K turns turns'' :=
  ⟨h.perm.trans h'.perm, fun id => (h.own id).trans (h'.own id), h.guarded.trans h'.guarded⟩

theorem append (h : SameHistory K turns turns') (more : List (Turn E A)) :
    SameHistory K (turns ++ more) (turns' ++ more) where
  perm := h.perm.append_right more
  own id := by rw [List.filter_append, List.filter_append, h.own id]
  guarded := by rw [List.filter_append, List.filter_append, h.guarded]

/-- A turn without need of the lock may come before a section of another thread. -/
theorem earlier {done block : List (Turn E A)} {turn : Turn E A}
    (hother : ∀ t ∈ block, t.id ≠ turn.id) (hopen : K.guarded turn.request = false) :
    SameHistory K (done ++ [turn] ++ block) (done ++ block ++ [turn]) where
  perm := by
    rw [List.append_assoc, List.append_assoc]
    exact List.perm_append_comm.append_left done
  own id := by
    simp only [List.filter_append, List.append_assoc]
    by_cases hid : turn.id = id
    · have hnone : block.filter (·.id = id) = [] := by
        rw [List.filter_eq_nil_iff]
        exact fun t ht => by simpa using hid ▸ hother t ht
      rw [hnone, List.append_nil, List.nil_append]
    · have hnone : [turn].filter (·.id = id) = [] := by simp [hid]
      rw [hnone, List.append_nil, List.nil_append]
  guarded := by
    have hnone : [turn].filter (fun t => K.guarded t.request) = [] := by simp [hopen]
    simp only [List.filter_append, hnone, List.append_nil]

end SameHistory

/-- What the turns at what the lock guards are answered, one after the other, from `v` on. -/
def Machine.Told (M : Machine E A W L) (view : W → V) : V → List (Turn E A) → V → Prop
  | v, [], v' => v' = v
  | v, turn :: turns, v' =>
    if M.locking.guarded turn.request then
      ∃ u, M.Serves view v turn.request turn.answer u ∧ M.Told view u turns v'
    else M.Told view v turns v'

namespace Machine
variable {M : Machine E A W L} {view : W → V} {v v' : V} {turns turns' : List (Turn E A)}

theorem told_guarded {turn : Turn E A} (hg : M.locking.guarded turn.request = true) :
    M.Told view v (turn :: turns) v' ↔
      ∃ u, M.Serves view v turn.request turn.answer u ∧ M.Told view u turns v' := by
  rw [Told, if_pos hg]

theorem told_open {turn : Turn E A} (hg : M.locking.guarded turn.request = false) :
    M.Told view v (turn :: turns) v' ↔ M.Told view v turns v' := by
  rw [Told, if_neg (by rw [hg]; exact Bool.false_ne_true)]

theorem told_append : M.Told view v (turns ++ turns') v' ↔
    ∃ u, M.Told view v turns u ∧ M.Told view u turns' v' := by
  induction turns generalizing v with
  | nil => exact ⟨fun h => ⟨v, rfl, h⟩, fun ⟨_, hu, h⟩ => hu ▸ h⟩
  | cons turn turns ih =>
    cases hg : M.locking.guarded turn.request with
    | true =>
      simp only [List.cons_append, told_guarded hg, ih]
      constructor
      · rintro ⟨u, hserves, u', h, h'⟩
        exact ⟨u', ⟨u, hserves, h⟩, h'⟩
      · rintro ⟨u', ⟨u, hserves, h⟩, h'⟩
        exact ⟨u, hserves, u', h, h'⟩
    | false =>
      simp only [List.cons_append, told_open hg]
      exact ih

theorem told_filter : M.Told view v turns v' ↔
    M.Told view v (turns.filter fun t => M.locking.guarded t.request) v' := by
  induction turns generalizing v with
  | nil => rfl
  | cons turn turns ih =>
    cases hg : M.locking.guarded turn.request with
    | true =>
      simp only [List.filter_cons, hg, if_true, told_guarded hg]
      exact exists_congr fun u => and_congr_right fun _ => ih
    | false =>
      simp only [List.filter_cons, hg, Bool.false_eq_true, if_false, told_open hg]
      exact ih

/-- What the lock guards cannot tell two orders of one history apart. -/
theorem Told.of_sameHistory (h : M.Told view v turns v')
    (hsame : SameHistory M.locking turns' turns) : M.Told view v turns' v' := by
  rw [told_filter] at h ⊢
  rwa [hsame.guarded]

/-- A run tells what it answers. -/
theorem Steps.told {c c' : Pool E A W L R} (hview : M.Guards view) (hsteps : M.Steps c turns c') :
    M.Told view (view c.world) turns (view c'.world) := by
  induction hsteps with
  | nil => rfl
  | snoc _ hstep ih =>
    refine told_append.mpr ⟨_, ih, ?_⟩
    cases hstep with
    | turn w before after id l held e k free =>
      cases hg : M.locking.guarded e with
      | true =>
        have hserves := hview.serves (M.enter id l w) e
        rw [hview.enter] at hserves
        exact (told_guarded hg).mpr ⟨_, hserves, rfl⟩
      | false =>
        exact (told_open hg).mpr ((hview.handle _ e hg).trans (hview.enter ..))

theorem Steps.ids {c c' : Pool E A W L R} (hsteps : M.Steps c turns c') :
    c'.threads.map Thread.id = c.threads.map Thread.id := by
  induction hsteps with
  | nil => rfl
  | snoc _ hstep ih =>
    rw [← ih]
    cases hstep with
    | turn w before after id l held e k free => simp

end Machine

namespace Orderly
variable {M : Machine E A W L} {c c' : Pool E A W L R} {turns : List (Turn E A)}
  {threads : List (Thread E A L R)}

/-- The turns so far: whole sections, and then those of the section that is not yet at its end. -/
structure Gathered (K : Locking E) (threads : List (Thread E A L R)) (done block : List (Turn E A)) :
    Prop where
  serial : Serial K done
  inside : (block = [] ∧ ∀ t ∈ threads, t.held = 0) ∨
    ∃ t ∈ threads, t.held ≠ 0 ∧ InSection K t.id block t.held

private theorem plain_of_needs {e : E}
    (hneeds : M.locking.releases e = true ∨ M.locking.guarded e = true → (0 : Nat) ≠ 0) :
    M.locking.releases e = false ∧ M.locking.guarded e = false :=
  ⟨Bool.eq_false_iff.mpr fun hrel => hneeds (.inl hrel) rfl,
    Bool.eq_false_iff.mpr fun hg => hneeds (.inr hg) rfl⟩

private theorem id_ne_of_nodup {before after : List (Thread E A L R)} {t t' : Thread E A L R}
    (hids : ((before ++ t :: after).map Thread.id).Nodup) (ht : t' ∈ before ++ after) :
    t'.id ≠ t.id := by
  rw [List.map_append, List.map_cons, List.nodup_middle, List.nodup_cons, ← List.map_append] at hids
  exact fun hid => hids.1 (hid ▸ List.mem_map_of_mem ht)

/-- One turn more: of the thread that is in its section, or of one that has no need of the lock. -/
private theorem gathered_step (h : Orderly M.locking c.threads)
    (hids : (c.threads.map Thread.id).Nodup) {done block : List (Turn E A)}
    (hgathered : Gathered M.locking c.threads done block) {turn : Turn E A}
    (hstep : M.Step c turn c') :
    ∃ done' block', SameHistory M.locking (done' ++ block') (done ++ block ++ [turn]) ∧
      Gathered M.locking c'.threads done' block' := by
  cases hstep with
  | turn w before after id l held e k free =>
    let turn : Turn E A := ⟨id, e, (M.handle (M.enter id l w) e).1⟩
    have hneeds := (h.next_request rfl turn.answer).2
    rcases hgathered.inside with ⟨rfl, hnone⟩ | ⟨t, ht, hheld, hinside⟩
    · have hzero : held = 0 := hnone _ (mem_middle.mpr (.inl rfl))
      subst hzero
      rw [List.append_nil]
      cases hacq : M.locking.acquires e with
      | true =>
        have hone : M.locking.after e 0 = 1 := Locking.after_of_acquires hacq 0
        refine ⟨done, [turn], .refl _ _, hgathered.serial, .inr ⟨_, mem_middle.mpr (.inl rfl), ?_, ?_⟩⟩
        · exact hone ▸ Nat.one_ne_zero
        · exact hone ▸ .takes rfl hacq
      | false =>
        obtain ⟨hkeeps, hopen⟩ := plain_of_needs (hneeds hacq)
        refine ⟨done ++ [turn], [], ?_, .plain hgathered.serial hacq hkeeps hopen, .inl ⟨rfl, ?_⟩⟩
        · rw [List.append_nil]
          exact .refl _ _
        · intro t ht
          rcases mem_middle.mp ht with rfl | ht
          · exact Locking.after_zero hacq
          · exact hnone t (mem_middle.mpr (.inr ht))
    · rcases mem_middle.mp ht with rfl | hwaits
      · rw [List.append_assoc]
        by_cases hleaves : M.locking.after e held = 0
        · refine ⟨done ++ (block ++ [turn]), [], ?_, .whole hgathered.serial hinside rfl hleaves,
            .inl ⟨rfl, ?_⟩⟩
          · rw [List.append_nil]
            exact .refl _ _
          · intro t ht
            rcases mem_middle.mp ht with rfl | ht
            · exact hleaves
            · exact h.others_free hheld t ht
        · exact ⟨done, block ++ [turn], .refl _ _, hgathered.serial,
            .inr ⟨_, mem_middle.mpr (.inl rfl), hleaves, .goes hinside rfl hleaves⟩⟩
      · have hzero : held = 0 := by
          by_contra hne
          exact hheld (h.others_free hne t hwaits)
        have hacq : M.locking.acquires e = false := by
          by_contra hacq
          exact hheld (free (Bool.of_not_eq_false hacq) t hwaits)
        subst hzero
        obtain ⟨hkeeps, hopen⟩ := plain_of_needs (hneeds hacq)
        have hother : ∀ turn ∈ block, turn.id ≠ id := fun turn hturn =>
          hinside.own turn hturn ▸ id_ne_of_nodup hids hwaits
        exact ⟨done ++ [turn], block, .earlier hother hopen, .plain hgathered.serial hacq hkeeps hopen,
          .inr ⟨t, mem_middle.mpr (.inr hwaits), hheld, hinside⟩⟩

/-- Where the lock is free at both ends, the history of a run is that of whole sections one after
the other. -/
theorem serializable {view : W → V} (hview : M.Guards view) (h : Orderly M.locking c.threads)
    (hids : (c.threads.map Thread.id).Nodup) (hfree : ∀ t ∈ c.threads, t.held = 0)
    (hsteps : M.Steps c turns c') (hfree' : ∀ t ∈ c'.threads, t.held = 0) :
    ∃ serial, Serial M.locking serial ∧ SameHistory M.locking serial turns ∧
      M.Told view (view c.world) serial (view c'.world) := by
  have hgather : ∃ done block, SameHistory M.locking (done ++ block) turns ∧
      Gathered M.locking c'.threads done block := by
    clear hfree'
    induction hsteps with
    | nil => exact ⟨[], [], .refl _ _, .nil, .inl ⟨rfl, hfree⟩⟩
    | snoc hsteps hstep ih =>
      obtain ⟨done, block, hsame, hgathered⟩ := ih
      obtain ⟨done', block', hsame', hgathered'⟩ :=
        gathered_step (h.steps hsteps) (hsteps.ids ▸ hids) hgathered hstep
      exact ⟨done', block', hsame'.trans (hsame.append _), hgathered'⟩
  obtain ⟨done, block, hsame, hserial, ⟨rfl, -⟩ | ⟨t, ht, hheld, -⟩⟩ := hgather
  · rw [List.append_nil] at hsame
    exact ⟨done, hserial, hsame, (hsteps.told hview).of_sameHistory hsame⟩
  · exact absurd (hfree' t ht) hheld

end Orderly
end HookSqfs.Interaction
