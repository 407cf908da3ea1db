import Mathlib.Data.List.Basic
import Mathlib.Data.List.Infix
import Mathlib.Logic.Function.Basic

/-! Tables of cursors: strings that never change, each read through a position that is
any natural number. -/
namespace HookSqfs.Tables
variable {κ β : Type} [DecidableEq κ]

structure Cursor (β : Type) where
  content : List β
  position : Nat

abbrev CursorTable (κ β : Type) := κ → Option (Cursor β)

inductive CursorOp (κ β : Type) where
  | opened (k : κ) (content : List β)
  | closed (k : κ)
  | read (k : κ) (data : List β)
  | readAt (k : κ) (offset : Nat) (data : List β)
  | sought (k : κ) (position : Nat)
  | failed (k : κ)
  | missed (k : κ)

namespace CursorOp

def key : CursorOp κ β → κ
  | .opened k _ | .closed k | .read k _ | .readAt k _ _ | .sought k _ | .failed k | .missed k => k

/-- A read delivers what is at the position and goes past it, one at an offset moves
nothing, a seek sets the position, and a failure moves nothing. -/
def Applies (T T' : CursorTable κ β) : CursorOp κ β → Prop
  | .opened k content => T k = none ∧ T' = Function.update T k (some ⟨content, 0⟩)
  | .closed k => (T k).isSome ∧ T' = Function.update T k none
  | .read k data => ∃ c, T k = some c ∧ data <+: c.content.drop c.position ∧
      T' = Function.update T k (some { c with position := c.position + data.length })
  | .readAt k offset data => ∃ c, T k = some c ∧ data <+: c.content.drop offset ∧ T' = T
  | .sought k position => ∃ c, T k = some c ∧ T' = Function.update T k (some { c with position })
  | .failed k => (T k).isSome ∧ T' = T
  | .missed k => T k = none ∧ T' = T

/-- No operation touches another key. -/
theorem Applies.other {op : CursorOp κ β} {T T' : CursorTable κ β} (h : op.Applies T T') {k : κ}
    (hk : k ≠ op.key) : T' k = T k := by
  cases op with
  | opened k' content => exact (congrFun h.2 k).trans (Function.update_of_ne hk _ _)
  | closed k' => exact (congrFun h.2 k).trans (Function.update_of_ne hk _ _)
  | read k' data =>
    obtain ⟨c, -, -, hT⟩ := h
    exact (congrFun hT k).trans (Function.update_of_ne hk _ _)
  | readAt k' offset data =>
    obtain ⟨c, -, -, hT⟩ := h
    rw [hT]
  | sought k' position =>
    obtain ⟨c, -, hT⟩ := h
    exact (congrFun hT k).trans (Function.update_of_ne hk _ _)
  | failed k' => rw [h.2]
  | missed k' => rw [h.2]

/-- A run of operations. -/
def Runs : CursorTable κ β → List (CursorOp κ β) → CursorTable κ β → Prop
  | T, [], T' => T' = T
  | T, op :: ops, T' => ∃ U, op.Applies T U ∧ Runs U ops T'

theorem runs_append {ops more : List (CursorOp κ β)} {T T' : CursorTable κ β} :
    Runs T (ops ++ more) T' ↔ ∃ U, Runs T ops U ∧ Runs U more T' := by
  induction ops generalizing T with
  | nil => exact ⟨fun h => ⟨T, rfl, h⟩, fun ⟨U, hU, h⟩ => hU ▸ h⟩
  | cons op ops ih =>
    constructor
    · rintro ⟨U, hop, h⟩
      obtain ⟨V, hV, hmore⟩ := ih.mp h
      exact ⟨V, ⟨U, hop, hV⟩, hmore⟩
    · rintro ⟨V, ⟨U, hop, hV⟩, hmore⟩
      exact ⟨U, hop, ih.mpr ⟨V, hV, hmore⟩⟩

/-- What the reads at the position of `k` delivered, in order. -/
def delivered (k : κ) : List (CursorOp κ β) → List β
  | [] => []
  | .read k' data :: ops => if k' = k then data ++ delivered k ops else delivered k ops
  | _ :: ops => delivered k ops

/-- `k` is neither opened, closed nor sought. -/
def OnlyReads (k : κ) : CursorOp κ β → Prop
  | .opened k' _ | .closed k' | .sought k' _ => k' ≠ k
  | _ => True

private theorem delivered_cons_other {k : κ} {op : CursorOp κ β} (ops : List (CursorOp κ β))
    (h : op.key ≠ k) : delivered k (op :: ops) = delivered k ops := by
  cases op with
  | read k' data => exact if_neg h
  | _ => rfl

private theorem append_prefix_drop {data more content : List β} {p : Nat}
    (h : data <+: content.drop p) (hm : more <+: content.drop (p + data.length)) :
    data ++ more <+: content.drop p := by
  obtain ⟨rest, hrest⟩ := h
  rw [← List.drop_drop, ← hrest, List.drop_left] at hm
  rw [← hrest]
  exact (List.prefix_append_right_inj data).mpr hm

/-- Reads in turn deliver the string piece by piece, each piece once. -/
theorem reads_in_turn {k : κ} {content : List β} {ops : List (CursorOp κ β)} {p : Nat}
    {T T' : CursorTable κ β} (run : Runs T ops T') (hk : T k = some ⟨content, p⟩)
    (hreads : ∀ op ∈ ops, op.OnlyReads k) :
    T' k = some ⟨content, p + (delivered k ops).length⟩ ∧
      delivered k ops <+: content.drop p := by
  induction ops generalizing T p with
  | nil => exact ⟨run ▸ hk, List.nil_prefix⟩
  | cons op ops ih =>
    obtain ⟨U, hop, hrun⟩ := run
    have hrest : ∀ op ∈ ops, op.OnlyReads k := fun op hmem =>
      hreads op (List.mem_cons_of_mem _ hmem)
    have honly := hreads op List.mem_cons_self
    by_cases hkey : op.key = k
    · cases op with
      | opened k' content' => exact absurd hkey honly
      | closed k' => exact absurd hkey honly
      | sought k' position => exact absurd hkey honly
      | missed k' =>
        cases hkey
        exact absurd (hk.symm.trans hop.1) (Option.some_ne_none _)
      | failed k' =>
        rw [hop.2] at hrun
        exact ih hrun hk hrest
      | readAt k' offset data =>
        obtain ⟨c, -, -, hU⟩ := hop
        rw [hU] at hrun
        exact ih hrun hk hrest
      | read k' data =>
        change k' = k at hkey
        subst hkey
        obtain ⟨c, hc, hdata, hU⟩ := hop
        cases Option.some.inj (hc.symm.trans hk)
        have hUk : U k' = some ⟨content, p + data.length⟩ :=
          (congrFun hU k').trans (Function.update_self ..)
        obtain ⟨hT, hpre⟩ := ih hrun hUk hrest
        rw [delivered, if_pos rfl, List.length_append, ← Nat.add_assoc]
        exact ⟨hT, append_prefix_drop hdata hpre⟩
    · have hUk := (hop.other (Ne.symm hkey)).trans hk
      rw [delivered_cons_other ops hkey]
      exact ih hrun hUk hrest

end CursorOp
end HookSqfs.Tables
