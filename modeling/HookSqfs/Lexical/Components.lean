import Mathlib.Algebra.GroupWithZero.Nat
import Mathlib.Data.List.Induction
import Mathlib.Data.List.Infix

/-! Paths as sequences of components, and what a sequence reduces to when every
`up` cancels the name before it. -/
namespace HookSqfs.Lexical
variable {ν : Type}

/-- A component names something, goes up one level, or is of no effect. -/
inductive Component (ν : Type) where
  | skip
  | up
  | name (n : ν)
  deriving DecidableEq, Repr

/-- A reduced path: how often it goes up first, and the names that follow. -/
structure Reduced (ν : Type) where
  ups : Nat
  names : List ν
  deriving DecidableEq, Repr

namespace Reduced

def push (r : Reduced ν) : Component ν → Reduced ν
  | .skip => r
  | .up => if r.names = [] then { r with ups := r.ups + 1 } else { r with names := r.names.dropLast }
  | .name n => { r with names := r.names ++ [n] }

end Reduced

/-- The left-to-right reduction. -/
def reduce (cs : List (Component ν)) : Reduced ν := cs.foldl Reduced.push ⟨0, []⟩

/-- The names left when going up at the top has no effect. -/
def resolve (cs : List (Component ν)) : List ν := (reduce cs).names

@[simp] theorem reduce_nil : reduce ([] : List (Component ν)) = ⟨0, []⟩ := rfl

theorem reduce_append_singleton (cs : List (Component ν)) (c : Component ν) :
    reduce (cs ++ [c]) = (reduce cs).push c := by
  simp [reduce, List.foldl_append]

theorem push_names (r : Reduced ν) (c : Component ν) :
    (r.push c).names = match c with
      | .skip => r.names
      | .up => r.names.dropLast
      | .name n => r.names ++ [n] := by
  cases c with
  | skip => rfl
  | name n => rfl
  | up =>
    by_cases h : r.names = []
    · simp [Reduced.push, h]
    · simp [Reduced.push, h]

/-- Every surviving name occurs among the components. -/
theorem mem_resolve {cs : List (Component ν)} {n : ν} (h : n ∈ resolve cs) :
    Component.name n ∈ cs := by
  induction cs using List.reverseRecOn with
  | nil => cases h
  | append_singleton cs c ih =>
    rw [resolve, reduce_append_singleton, push_names] at h
    rw [List.mem_append]
    cases c with
    | skip => exact .inl (ih h)
    | up => exact .inl (ih (List.dropLast_subset _ h))
    | name m =>
      rcases List.mem_append.mp h with h | h
      · exact .inl (ih h)
      · rw [List.mem_singleton.mp h]
        exact .inr List.mem_cons_self

/-- At no point has a path gone up more often than there were names to cancel. -/
def NeverClimbs (cs : List (Component ν)) : Prop := ∀ ds, ds <+: cs → (reduce ds).ups = 0

instance (cs : List (Component ν)) : Decidable (NeverClimbs cs) :=
  decidable_of_iff (∀ ds ∈ cs.inits, (reduce ds).ups = 0) (by simp [NeverClimbs, List.mem_inits])

/-- A path that never climbs leaves what stands before it alone. -/
theorem reduce_append {cs ds : List (Component ν)} (h : NeverClimbs ds) :
    reduce (cs ++ ds) = ⟨(reduce cs).ups, (reduce cs).names ++ (reduce ds).names⟩ := by
  induction ds using List.reverseRecOn with
  | nil => simp
  | append_singleton ds d ih =>
    have hds : NeverClimbs ds := fun es hes => h es (hes.trans (List.prefix_append ds [d]))
    rw [← List.append_assoc, reduce_append_singleton, ih hds, reduce_append_singleton]
    cases d with
    | skip => rfl
    | name n => simp [Reduced.push]
    | up =>
      have hn : (reduce ds).names ≠ [] := by
        intro hn
        have hall := h (ds ++ [.up]) (List.prefix_refl _)
        rw [reduce_append_singleton, Reduced.push, if_pos hn] at hall
        exact Nat.succ_ne_zero _ hall
      simp [Reduced.push, hn, List.dropLast_append_of_ne_nil]

/-- Names alone do not climb. -/
theorem reduce_names (ns : List ν) : reduce (ns.map Component.name) = ⟨0, ns⟩ := by
  induction ns using List.reverseRecOn with
  | nil => rfl
  | append_singleton ns n ih =>
    rw [List.map_append, List.map_cons, List.map_nil, reduce_append_singleton, ih]
    rfl

theorem neverClimbs_names (ns : List ν) : NeverClimbs (ns.map Component.name) := by
  intro ds hds
  obtain ⟨k, rfl⟩ : ∃ k, ds = (ns.map Component.name).take k := ⟨_, List.prefix_iff_eq_take.mp hds⟩
  rw [← List.map_take, reduce_names]

/-- What a component adds at most to the cost of a reduced path. -/
def Component.cost (f : ν → Nat) (u : Nat) : Component ν → Nat
  | .skip => 0
  | .up => u
  | .name n => f n

def Reduced.cost (f : ν → Nat) (u : Nat) (r : Reduced ν) : Nat :=
  u * r.ups + (r.names.map f).sum

private theorem sum_dropLast_le (l : List Nat) : l.dropLast.sum ≤ l.sum := by
  induction l using List.reverseRecOn with
  | nil => simp
  | append_singleton l a => simp

/-- Reduction does not make a path more costly. -/
theorem cost_reduce_le (f : ν → Nat) (u : Nat) (cs : List (Component ν)) :
    (reduce cs).cost f u ≤ (cs.map (Component.cost f u)).sum := by
  induction cs using List.reverseRecOn with
  | nil => simp [Reduced.cost]
  | append_singleton cs c ih =>
    rw [reduce_append_singleton, List.map_append, List.sum_append]
    simp only [Reduced.cost, List.map_cons, List.map_nil, List.sum_cons, List.sum_nil] at ih ⊢
    cases c with
    | skip => simpa [Reduced.push, Component.cost] using ih
    | name n =>
      simp only [Reduced.push, Component.cost, List.map_append, List.sum_append, List.map_cons,
        List.map_nil, List.sum_cons, List.sum_nil]
      omega
    | up =>
      by_cases hn : (reduce cs).names = []
      · simp only [Reduced.push, hn, if_pos, Component.cost, List.map_nil, List.sum_nil,
          Nat.mul_add] at ih ⊢
        omega
      · have hd := sum_dropLast_le ((reduce cs).names.map f)
        rw [← List.map_dropLast] at hd
        simp only [Reduced.push, if_neg hn, Component.cost]
        omega

end HookSqfs.Lexical
