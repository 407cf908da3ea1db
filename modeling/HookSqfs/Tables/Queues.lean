import Mathlib.Data.List.Basic
import Mathlib.Logic.Function.Basic

/-! Tables of queues: what is taken from a queue is its front, and nothing for ever once
it is empty. -/
namespace HookSqfs.Tables
variable {κ β : Type} [DecidableEq κ]

abbrev QueueTable (κ β : Type) := κ → List β

/-- The queue that is taken from, and what the taker gets. -/
abbrev Take (κ β : Type) := κ × Option β

namespace Take

/-- A run of takes. -/
def Runs : QueueTable κ β → List (Take κ β) → QueueTable κ β → Prop
  | Q, [], Q' => Q' = Q
  | Q, t :: ts, Q' => t.2 = (Q t.1).head? ∧ Runs (Function.update Q t.1 (Q t.1).tail) ts Q'

theorem runs_append {ts more : List (Take κ β)} {Q Q' : QueueTable κ β} :
    Runs Q (ts ++ more) Q' ↔ ∃ R, Runs Q ts R ∧ Runs R more Q' := by
  induction ts generalizing Q with
  | nil => exact ⟨fun h => ⟨Q, rfl, h⟩, fun ⟨R, hR, h⟩ => hR ▸ h⟩
  | cons t ts ih =>
    constructor
    · rintro ⟨hfront, h⟩
      obtain ⟨R, hR, hmore⟩ := ih.mp h
      exact ⟨R, ⟨hfront, hR⟩, hmore⟩
    · rintro ⟨R, ⟨hfront, hR⟩, hmore⟩
      exact ⟨hfront, ih.mpr ⟨R, hR, hmore⟩⟩

/-- What the takes from `k` gave, in order. -/
def given (k : κ) (ts : List (Take κ β)) : List (Option β) :=
  ts.filterMap fun t => if t.1 = k then some t.2 else none

/-- The takes from a queue give its elements in order, each once, and then nothing,
whatever is taken from the others in between. -/
theorem given_in_order {k : κ} {ts : List (Take κ β)} {Q Q' : QueueTable κ β}
    (run : Runs Q ts Q') {i : Nat} {r : Option β} (hr : (given k ts)[i]? = some r) :
    r = (Q k)[i]? := by
  induction ts generalizing Q i with
  | nil => cases hr
  | cons t ts ih =>
    obtain ⟨hfront, hrun⟩ := run
    obtain ⟨k', r'⟩ := t
    by_cases hk : k' = k
    · subst hk
      have hgiven : given k' ((k', r') :: ts) = r' :: given k' ts := by simp [given]
      rw [hgiven] at hr
      cases i with
      | zero =>
        cases hr
        exact hfront.trans List.head?_eq_getElem?
      | succ i =>
        have hrest := ih hrun hr
        rwa [Function.update_self, List.getElem?_tail] at hrest
    · have hgiven : given k ((k', r') :: ts) = given k ts := by simp [given, hk]
      rw [hgiven] at hr
      have hrest := ih hrun hr
      rwa [Function.update_of_ne (Ne.symm hk)] at hrest

end Take
end HookSqfs.Tables
