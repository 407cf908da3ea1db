import Mathlib.Algebra.GroupWithZero.Nat
import Mathlib.Data.List.Basic
import Mathlib.Data.List.Infix

/-! Rendering a list of names as text with a separator before each of them. Names
that avoid the separator can be read back, and prefixes of the text that end at a
separator are prefixes of the list. -/
namespace HookSqfs.Lexical
variable {α : Type} (sep : α)

/-- Every name preceded by the separator. -/
def render : List (List α) → List α
  | [] => []
  | n :: ns => sep :: n ++ render ns

variable {sep}

@[simp] theorem render_nil : render sep [] = [] := rfl

theorem render_cons (n : List α) (ns : List (List α)) :
    render sep (n :: ns) = sep :: (n ++ render sep ns) := rfl

theorem render_append (ms ns : List (List α)) :
    render sep (ms ++ ns) = render sep ms ++ render sep ns := by
  induction ms with
  | nil => rfl
  | cons m ms ih => rw [List.cons_append, render_cons, render_cons, ih, List.cons_append,
      List.append_assoc]

/-- One element for each separator. -/
theorem length_render (ns : List (List α)) :
    (render sep ns).length = (ns.map fun n => n.length + 1).sum := by
  induction ns with
  | nil => rfl
  | cons n ns ih =>
    rw [render_cons, List.length_cons, List.length_append, ih, List.map_cons, List.sum_cons]
    omega

theorem render_eq_nil {ns : List (List α)} : render sep ns = [] ↔ ns = [] := by
  cases ns with
  | nil => simp
  | cons n ns => simp [render_cons]

theorem render_head (ns : List (List α)) (h : ns ≠ []) : (render sep ns).head? = some sep := by
  cases ns with
  | nil => exact absurd rfl h
  | cons n ns => rfl

/-- Past its first separator the text is the names joined by the separator. -/
theorem render_eq_intercalate {ns : List (List α)} (h : ns ≠ []) :
    render sep ns = sep :: [sep].intercalate ns := by
  induction ns with
  | nil => exact absurd rfl h
  | cons n ns ih =>
    cases ns with
    | nil => simp [render_cons]
    | cons m ms =>
      rw [render_cons, ih (by simp), List.intercalate_cons_cons]
      simp

/-- Text that is over or goes on with the separator. -/
def AtBoundary (sep : α) (t : List α) : Prop := t = [] ∨ t.head? = some sep

theorem atBoundary_render (ns : List (List α)) : AtBoundary sep (render sep ns) := by
  by_cases h : ns = []
  · exact .inl (h ▸ rfl)
  · exact .inr (render_head ns h)

/-- A name that avoids the separator ends where the text reaches a boundary. -/
theorem name_split {m n s t : List α} (hm : sep ∉ m) (hn : sep ∉ n) (hs : AtBoundary sep s)
    (ht : AtBoundary sep t) (h : m ++ s = n ++ t) : m = n ∧ s = t := by
  induction m generalizing n with
  | nil =>
    cases n with
    | nil => exact ⟨rfl, h⟩
    | cons a n =>
      have he : s.head? = some a := by rw [show s = a :: (n ++ t) from h]; rfl
      rcases hs with rfl | hs
      · cases he
      · rw [hs] at he
        cases he
        exact absurd List.mem_cons_self hn
  | cons a m ih =>
    cases n with
    | nil =>
      have he : t.head? = some a := by rw [← show a :: (m ++ s) = t from h]; rfl
      rcases ht with rfl | ht
      · cases he
      · rw [ht] at he
        cases he
        exact absurd List.mem_cons_self hm
    | cons b n =>
      rw [List.cons_append, List.cons_append, List.cons.injEq] at h
      obtain ⟨he, hs'⟩ := ih (fun hc => hm (List.mem_cons_of_mem _ hc))
        (fun hc => hn (List.mem_cons_of_mem _ hc)) h.2
      exact ⟨by rw [h.1, he], hs'⟩

/-- Text at a boundary after the rendering of `ms` continues the rendering of `ns`
exactly when `ms` is a prefix of `ns`. -/
theorem render_append_eq_iff {ms ns : List (List α)} {t : List α} (hm : ∀ m ∈ ms, sep ∉ m)
    (hn : ∀ n ∈ ns, sep ∉ n) (ht : AtBoundary sep t) :
    render sep ms ++ t = render sep ns ↔ ∃ ks, ns = ms ++ ks ∧ t = render sep ks := by
  induction ms generalizing ns with
  | nil =>
    constructor
    · intro h
      exact ⟨ns, rfl, h⟩
    · rintro ⟨ks, rfl, rfl⟩
      rfl
  | cons m ms ih =>
    constructor
    · intro h
      cases ns with
      | nil => simp [render_cons] at h
      | cons n ns =>
        rw [render_cons, render_cons, List.cons_append, List.cons.injEq, List.append_assoc] at h
        have hb : AtBoundary sep (render sep ms ++ t) := by
          rcases (atBoundary_render ms : AtBoundary sep _) with hr | hr
          · rw [hr]
            exact ht
          · right
            rw [List.head?_append, hr, Option.some_or]
        obtain ⟨rfl, hr⟩ := name_split (hm m List.mem_cons_self) (hn n List.mem_cons_self) hb
          (atBoundary_render ns) h.2
        obtain ⟨ks, rfl, hk⟩ := (ih (fun x hx => hm x (List.mem_cons_of_mem _ hx))
          (fun x hx => hn x (List.mem_cons_of_mem _ hx))).mp hr
        exact ⟨ks, rfl, hk⟩
    · rintro ⟨ks, rfl, rfl⟩
      exact (render_append (m :: ms) ks).symm

/-- Distinct lists of names have distinct renderings. -/
theorem render_injective {ms ns : List (List α)} (hm : ∀ m ∈ ms, sep ∉ m)
    (hn : ∀ n ∈ ns, sep ∉ n) (h : render sep ms = render sep ns) : ms = ns := by
  obtain ⟨ks, rfl, hk⟩ := (render_append_eq_iff hm hn (.inl rfl)).mp
    ((List.append_nil _).trans h)
  rw [render_eq_nil.mp hk.symm, List.append_nil]

end HookSqfs.Lexical
