import Mathlib.Data.List.Basic
import Mathlib.Data.List.Nodup

/-! A hash table with intrusive entries, seen as the list of its entries, newest
first. Nothing keeps a key from being added twice: the newest entry then hides the
older one, and goes first. `TableLaws` is what is relied on of such a table; one that
finds no memory for an entry ends the process, so every addition that returns has added. -/
namespace HookSqfs.Tables
variable {α κ : Type} [DecidableEq κ] (key : α → κ)

/-- The entry a search for `k` finds. -/
def lookup (k : κ) : List α → Option α
  | [] => none
  | e :: l => if key e = k then some e else lookup k l

/-- Delete the entry that a search for `k` finds. -/
def remove (k : κ) : List α → List α
  | [] => []
  | e :: l => if key e = k then l else e :: remove k l

/-- Change in place the entry that a search for `k` finds. -/
def adjust (k : κ) (f : α → α) : List α → List α
  | [] => []
  | e :: l => if key e = k then f e :: l else e :: adjust k f l

variable {key}

@[simp] theorem lookup_nil (k : κ) : lookup key k [] = none := rfl

theorem lookup_cons (k : κ) (e : α) (l : List α) :
    lookup key k (e :: l) = if key e = k then some e else lookup key k l := rfl

theorem lookup_eq_none {k : κ} {l : List α} : lookup key k l = none ↔ k ∉ l.map key := by
  induction l with
  | nil => simp
  | cons e l ih =>
    rw [lookup_cons, List.map_cons, List.mem_cons]
    by_cases h : key e = k
    · simp [h]
    · rw [if_neg h, ih]
      exact ⟨fun hn hk => hk.elim (fun he => h he.symm) hn, fun hn hk => hn (.inr hk)⟩

theorem lookup_some {k : κ} {l : List α} {e : α} (h : lookup key k l = some e) :
    e ∈ l ∧ key e = k := by
  induction l with
  | nil => cases h
  | cons a l ih =>
    rw [lookup_cons] at h
    split at h
    · rename_i ha
      cases h
      exact ⟨List.mem_cons_self, ha⟩
    · exact ⟨List.mem_cons_of_mem _ (ih h).1, (ih h).2⟩

theorem remove_sublist (k : κ) (l : List α) : (remove key k l).Sublist l := by
  induction l with
  | nil => exact List.Sublist.refl _
  | cons e l ih =>
    rw [remove]
    split
    · exact List.sublist_cons_self e l
    · exact ih.cons_cons e

theorem nodup_remove {k : κ} {l : List α} (hd : (l.map key).Nodup) :
    ((remove key k l).map key).Nodup :=
  hd.sublist ((remove_sublist k l).map key)

theorem lookup_remove_ne {k k' : κ} (hk : k' ≠ k) (l : List α) :
    lookup key k' (remove key k l) = lookup key k' l := by
  induction l with
  | nil => rfl
  | cons e l ih =>
    rw [remove]
    split
    · rename_i he
      rw [lookup_cons, if_neg (fun h => hk (h.symm.trans he))]
    · rw [lookup_cons, lookup_cons, ih]

theorem lookup_remove_self {k : κ} {l : List α} (hd : (l.map key).Nodup) :
    lookup key k (remove key k l) = none := by
  induction l with
  | nil => rfl
  | cons e l ih =>
    rw [List.map_cons, List.nodup_cons] at hd
    rw [remove]
    split
    · rename_i he
      exact lookup_eq_none.mpr (he ▸ hd.1)
    · rename_i he
      rw [lookup_cons, if_neg he, ih hd.2]

/-- What is relied on of a table of `T`: what it finds, and what an addition and a deletion
leave to find. -/
structure TableLaws (key : α → κ) {T : Type*} (entries : T → List α) (find : κ → T → Option α)
    (add : α → T → T) (del : κ → T → T) : Prop where
  find_some : ∀ {k t e}, find k t = some e → e ∈ entries t ∧ key e = k
  find_none : ∀ {k t}, find k t = none ↔ k ∉ (entries t).map key
  find_add : ∀ e t, find (key e) (add e t) = some e
  find_add_ne : ∀ {k} e t, key e ≠ k → find k (add e t) = find k t
  find_del : ∀ {k t}, ((entries t).map key).Nodup → find k (del k t) = none
  find_del_ne : ∀ {k k'} t, k' ≠ k → find k' (del k t) = find k' t

theorem tableLaws_list : TableLaws key id (lookup key) List.cons (remove key) where
  find_some := lookup_some
  find_none := lookup_eq_none
  find_add e t := by rw [lookup_cons, if_pos rfl]
  find_add_ne e t h := by rw [lookup_cons, if_neg h]
  find_del := lookup_remove_self
  find_del_ne t h := lookup_remove_ne h t

variable {f : α → α}

/-- What the change leaves of each entry, it leaves of the table. -/
theorem map_adjust {β : Type} {g : α → β} (hf : ∀ e, g (f e) = g e) (k : κ) (l : List α) :
    (adjust key k f l).map g = l.map g := by
  induction l with
  | nil => rfl
  | cons e l ih =>
    rw [adjust]
    split
    · rw [List.map_cons, List.map_cons, hf]
    · rw [List.map_cons, List.map_cons, ih]

theorem lookup_adjust_self (hf : ∀ e, key (f e) = key e) (k : κ) (l : List α) :
    lookup key k (adjust key k f l) = (lookup key k l).map f := by
  induction l with
  | nil => rfl
  | cons e l ih =>
    rw [adjust]
    split
    · rename_i he
      rw [lookup_cons, if_pos ((hf e).trans he), lookup_cons, if_pos he, Option.map_some]
    · rename_i he
      rw [lookup_cons, if_neg he, lookup_cons, if_neg he, ih]

theorem lookup_adjust_ne (hf : ∀ e, key (f e) = key e) {k k' : κ} (hk : k' ≠ k) (l : List α) :
    lookup key k' (adjust key k f l) = lookup key k' l := by
  induction l with
  | nil => rfl
  | cons e l ih =>
    rw [adjust]
    split
    · rename_i he
      have hne : key e ≠ k' := fun h => hk (h.symm.trans he)
      rw [lookup_cons, if_neg (fun h => hne ((hf e).symm.trans h)), lookup_cons, if_neg hne]
    · rw [lookup_cons, lookup_cons, ih]

/-- An entry of the changed table was there before, or is the changed one. -/
theorem mem_adjust {k : κ} {l : List α} {e : α} (h : e ∈ adjust key k f l) :
    e ∈ l ∨ ∃ found, lookup key k l = some found ∧ e = f found := by
  induction l with
  | nil => cases h
  | cons a l ih =>
    rw [adjust] at h
    rw [lookup_cons]
    split at h
    · rename_i hkey
      rw [if_pos hkey]
      rcases List.mem_cons.mp h with rfl | h
      · exact .inr ⟨a, rfl, rfl⟩
      · exact .inl (List.mem_cons_of_mem _ h)
    · rename_i hkey
      rw [if_neg hkey]
      rcases List.mem_cons.mp h with rfl | h
      · exact .inl List.mem_cons_self
      · exact (ih h).imp_left (List.mem_cons_of_mem _)

end HookSqfs.Tables
