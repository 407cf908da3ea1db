import Mathlib.Data.List.Basic

/-! Regions of memory of a fixed length, and terminated strings in them. A cell that was
never written is `none`; an access that leaves the region or reads such a cell has no result. -/
namespace HookSqfs.Memory
variable {α : Type}

abbrev Region (α : Type) := List (Option α)

/-- A region that was never written. -/
def uninitialized (size : Nat) : Region α := List.replicate size none

def load (r : Region α) (i : Nat) : Option α := r[i]?.join

def store (r : Region α) (i : Nat) (a : α) : Option (Region α) :=
  if i < r.length then some (r.set i (some a)) else none

/-- The region with `as` copied to `i` and the cells behind. -/
def copy (r : Region α) (i : Nat) (as : List α) : Option (Region α) :=
  if i + as.length ≤ r.length then
    some (r.take i ++ as.map some ++ r.drop (i + as.length))
  else none

/-- The difference of two sizes that does not wrap around. -/
def difference (m n : Nat) : Option Nat := if n ≤ m then some (m - n) else none

theorem store_of_lt {r : Region α} {i : Nat} (h : i < r.length) (a : α) :
    store r i a = some (r.set i (some a)) := if_pos h

/-- The first `n` cells hold these values. -/
def Filled (r : Region α) (as : List α) : Prop := as.map some <+: r

theorem Filled.length_le {r : Region α} {as : List α} (h : Filled r as) :
    as.length ≤ r.length := by
  have hle := List.IsPrefix.length_le h
  rwa [List.length_map] at hle

theorem Filled.load {r : Region α} {as : List α} (h : Filled r as) {i : Nat}
    (hi : i < as.length) : load r i = some as[i] := by
  obtain ⟨t, rfl⟩ := h
  rw [Memory.load, List.getElem?_append_left (by simpa using hi), List.getElem?_map,
    List.getElem?_eq_getElem hi]
  rfl

/-- The next cell is written. -/
theorem Filled.store {r : Region α} {as : List α} (h : Filled r as) (hlt : as.length < r.length)
    (a : α) : ∃ r', store r as.length a = some r' ∧ r'.length = r.length ∧ Filled r' (as ++ [a]) := by
  refine ⟨r.set as.length (some a), store_of_lt hlt a, List.length_set, ?_⟩
  obtain ⟨t, rfl⟩ := h
  cases t with
  | nil => simp at hlt
  | cons c t =>
    have hset : (as.map some ++ c :: t).set as.length (some a) = as.map some ++ some a :: t := by
      simp
    rw [hset]
    exact ⟨t, by simp⟩

/-- What is copied to the start is what the region starts with. -/
theorem filled_copy {r r' : Region α} {as : List α} (h : copy r 0 as = some r') :
    r'.length = r.length ∧ Filled r' as := by
  unfold copy at h
  split at h
  · rename_i hfit
    cases h
    rw [List.take_zero, List.nil_append]
    refine ⟨?_, List.prefix_append _ _⟩
    rw [List.length_append, List.length_map, List.length_drop]
    omega
  · cases h

/-- A store right behind is next. -/
theorem Filled.of_store {r r' : Region α} {as : List α} {a : α} (h : Filled r as)
    (hs : Memory.store r as.length a = some r') :
    r'.length = r.length ∧ Filled r' (as ++ [a]) := by
  have hlt : as.length < r.length := by
    by_contra hge
    rw [Memory.store, if_neg hge] at hs
    cases hs
  obtain ⟨r'', hr'', hlen, hfilled⟩ := h.store hlt a
  cases hr''.symm.trans hs
  exact ⟨hlen, hfilled⟩

/-- Fewer cells are looked at. -/
theorem Filled.dropLast {r : Region α} {as : List α} (h : Filled r as) : Filled r as.dropLast := by
  rw [Filled, List.map_dropLast]
  exact (List.dropLast_prefix _).trans h

section strings
variable (nul : α)

/-- The region starts with the string and its terminator. -/
structure Holds (r : Region α) (s : List α) : Prop where
  clean : nul ∉ s
  filled : Filled r (s ++ [nul])

/-- The string at the start of a region, up to its terminator. -/
def string [DecidableEq α] : Region α → Option (List α)
  | some a :: r => if a = nul then some [] else (string r).map (a :: ·)
  | _ => none

def strlen [DecidableEq α] (r : Region α) : Option Nat := (string nul r).map List.length

variable {nul}

namespace Holds
variable {r : Region α} {s t : List α}

/-- The terminator leaves the string shorter than the region. -/
theorem length_lt (h : Holds nul r s) : s.length < r.length := by
  have hle := h.filled.length_le
  rw [List.length_append, List.length_singleton] at hle
  omega

theorem string_eq [DecidableEq α] (h : Holds nul r s) : string nul r = some s := by
  obtain ⟨hclean, u, rfl⟩ := h
  induction s with
  | nil => simp [string]
  | cons c s ih =>
    obtain ⟨hc, hs⟩ := not_or.mp (fun hm => hclean (List.mem_cons.mpr hm))
    simp only [List.cons_append, List.map_cons, string, if_neg (Ne.symm hc)]
    rw [ih hs]
    rfl

theorem strlen_eq [DecidableEq α] (h : Holds nul r s) : strlen nul r = some s.length := by
  rw [strlen, h.string_eq]
  rfl

theorem difference_eq (h : Holds nul r s) : difference r.length s.length =
    some (r.length - s.length) := if_pos (Nat.le_of_lt h.length_lt)

/-- A string is copied behind the one that stands there, where the two fit. -/
theorem copy (h : Holds nul r s) (ht : nul ∉ t) (hroom : t.length < r.length - s.length) :
    ∃ r', copy r s.length (t ++ [nul]) = some r' ∧ r'.length = r.length ∧
      Holds nul r' (s ++ t) := by
  have hlt := h.length_lt
  have hfit : s.length + (t ++ [nul]).length ≤ r.length := by
    rw [List.length_append, List.length_singleton]
    omega
  have htake : r.take s.length = s.map some := by
    obtain ⟨u, rfl⟩ := h.filled
    simp
  refine ⟨_, if_pos hfit, ?_, ?_, ?_⟩
  · simp only [List.length_append, List.length_map, List.length_take, List.length_drop] at hfit ⊢
    omega
  · rw [List.mem_append, not_or]
    exact ⟨h.clean, ht⟩
  · rw [htake]
    exact ⟨r.drop (s.length + (t ++ [nul]).length), by simp⟩

end Holds

/-- An empty string is made by its terminator. -/
theorem holds_nil (nul : α) {r : Region α} (h : 0 < r.length) :
    ∃ r', store r 0 nul = some r' ∧ r'.length = r.length ∧ Holds nul r' [] := by
  have hnone : Filled r [] := List.nil_prefix
  obtain ⟨r', hr', hlen, hfilled⟩ := hnone.store h nul
  exact ⟨r', hr', hlen, List.not_mem_nil, hfilled⟩

section terminated
variable (nul)

/-- A string with its terminator and nothing behind. -/
def terminated (s : List α) : Region α := (s ++ [nul]).map some

theorem holds_terminated {s : List α} (h : nul ∉ s) : Holds nul (terminated nul s) s :=
  ⟨h, List.prefix_refl _⟩

theorem drop_terminated {s : List α} {i : Nat} (hi : i ≤ s.length) :
    (terminated nul s).drop i = terminated nul (s.drop i) := by
  rw [terminated, List.map_append, List.drop_append_of_le_length (by simpa using hi), terminated,
    List.map_append, List.map_drop]

/-- The byte at a place, with what is left of the string from there on. -/
theorem load_terminated {s : List α} {i : Nat} (hi : i ≤ s.length) :
    load (terminated nul s) i = some ((s.drop i).head?.getD nul) := by
  have hload : load (terminated nul s) i = load (terminated nul (s.drop i)) 0 := by
    rw [← drop_terminated nul hi, load, load, List.getElem?_drop, Nat.add_zero]
  rw [hload]
  cases s.drop i <;> rfl

end terminated

/-- `while (cond(*p)) p++`, with at most `fuel` looks at the string. -/
def scanWhile (cond : α → Bool) (r : Region α) : Nat → Nat → Option Nat
  | 0, _ => none
  | fuel + 1, p => do
    let c ← load r p
    if cond c then scanWhile cond r fuel (p + 1) else return p

/-- A scan that stops at the terminator stops in the string. -/
theorem scanWhile_terminated {cond : α → Bool} (hcond : cond nul = false) {s : List α}
    {p fuel : Nat} (hp : p ≤ s.length) (hfuel : s.length - p < fuel) :
    scanWhile cond (terminated nul s) fuel p =
      some (p + ((s.drop p).takeWhile cond).length) := by
  induction fuel generalizing p with
  | zero => omega
  | succ fuel ih =>
    rw [scanWhile, load_terminated nul hp]
    dsimp only [Option.bind_eq_bind, Option.bind_some]
    cases hdrop : s.drop p with
    | nil => simp [hcond]
    | cons c rest =>
      have hlt : p < s.length := by
        by_contra hge
        rw [List.drop_eq_nil_of_le (by omega)] at hdrop
        cases hdrop
      have hrest : s.drop (p + 1) = rest := by
        rw [← List.tail_drop, hdrop, List.tail_cons]
      rw [List.head?_cons, Option.getD_some, List.takeWhile_cons]
      by_cases hc : cond c = true
      · rw [if_pos hc, if_pos hc, ih (by omega) (by omega), hrest, List.length_cons]
        congr 1
        omega
      · rw [if_neg hc, if_neg hc]
        rfl

/-- Where the scan stops: behind the elements it passed. -/
theorem scanWhile_stops {cond : α → Bool} (hcond : cond nul = false) {s : List α} {p fuel : Nat}
    (hp : p ≤ s.length) (hfuel : s.length - p < fuel) :
    ∃ q, scanWhile cond (terminated nul s) fuel p = some q ∧ p ≤ q ∧ q ≤ s.length ∧
      q - p = ((s.drop p).takeWhile cond).length ∧ s.drop q = (s.drop p).dropWhile cond := by
  have hparts : (s.drop p).takeWhile cond ++ (s.drop p).dropWhile cond = s.drop p :=
    List.takeWhile_append_dropWhile
  have hlen := congrArg List.length hparts
  rw [List.length_append, List.length_drop] at hlen
  refine ⟨_, scanWhile_terminated hcond hp hfuel, by omega, by omega, by omega, ?_⟩
  rw [← List.drop_drop]
  exact (congrArg (List.drop _) hparts.symm).trans List.drop_left

/-- `strncmp` of the strings at `i` and at `j`: whether they are equal in `n` elements. -/
def strncmp [DecidableEq α] (nul : α) (a b : Region α) : Nat → Nat → Nat → Option Bool
  | _, _, 0 => some true
  | i, j, n + 1 => do
    let x ← load a i
    let y ← load b j
    if x ≠ y then return false
    else if x = nul then return true
    else strncmp nul a b (i + 1) (j + 1) n

theorem strncmp_terminated [DecidableEq α] {s t : List α} (hs : nul ∉ s) (ht : nul ∉ t)
    {i j : Nat} (hi : i ≤ s.length) (hj : j ≤ t.length) (n : Nat) :
    strncmp nul (terminated nul s) (terminated nul t) i j n =
      some (decide ((s.drop i).take n = (t.drop j).take n)) := by
  induction n generalizing i j with
  | zero => simp [strncmp]
  | succ n ih =>
    have hnext {s : List α} {i : Nat} {c : α} {rest : List α} (h : s.drop i = c :: rest) :
        i + 1 ≤ s.length ∧ s.drop (i + 1) = rest := by
      constructor
      · by_contra hge
        rw [List.drop_eq_nil_of_le (by omega)] at h
        cases h
      · rw [← List.tail_drop, h, List.tail_cons]
    have hclean {s : List α} {i : Nat} {c : α} {rest : List α} (h : nul ∉ s)
        (hdrop : s.drop i = c :: rest) : c ≠ nul := by
      rintro rfl
      exact h (List.mem_of_mem_drop (by rw [hdrop]; exact List.mem_cons_self))
    rw [strncmp, load_terminated nul hi, load_terminated nul hj]
    dsimp only [Option.bind_eq_bind, Option.bind_some]
    cases hsi : s.drop i with
    | nil =>
      cases htj : t.drop j with
      | nil => simp
      | cons y rest =>
        simp [Ne.symm (hclean ht htj)]
    | cons x rest =>
      have hx := hclean hs hsi
      cases htj : t.drop j with
      | nil => simp [hx]
      | cons y rest' =>
        by_cases hxy : x = y
        · subst hxy
          have hrest := ih (hnext hsi).1 (hnext htj).1
          rw [(hnext hsi).2, (hnext htj).2] at hrest
          simp [hx, hrest]
        · simp [hxy]

end strings
end HookSqfs.Memory
