import HookSqfs.Lexical.Components
import HookSqfs.Lexical.Rendering
import HookSqfs.Paths.LexicalFunctions

/-! The token loop of `path_normalize_lexical` computes the reduction of the path's
components, and its rebuild loop renders them whenever the path is absolute. -/
namespace HookSqfs.Paths
open Manager Lexical

/-- The role of a token between slashes. -/
def classify (token : CString) : Component CString :=
  if token = [] ∨ token = dotName then .skip
  else if token = dotdotName then .up
  else .name token

/-- The components of a path. -/
def components (path : CString) : List (Component CString) :=
  (path.splitOn slash).map classify

/-- The component list of an absolute path: empty and "." components dropped, each
".." removing the component before it, if there is one. -/
def resolved (path : CString) : List CString := resolve (components path)

theorem classify_eq_name {t n : CString} (h : classify t = .name n) :
    t = n ∧ n ≠ [] ∧ n ≠ dotName ∧ n ≠ dotdotName := by
  unfold classify at h
  split at h
  · cases h
  · rename_i h1
    split at h
    · cases h
    · rename_i h2
      cases h
      exact ⟨rfl, fun he => h1 (.inl he), fun he => h1 (.inr he), h2⟩

/-- `strsep` returns the pieces between the slashes. -/
theorem strsepTokens_eq (s : CString) : strsepTokens s = s.splitOn slash := by
  induction s with
  | nil => rfl
  | cons c s ih =>
    rw [List.splitOn_cons_eq_if_modifyHead, strsepTokens, ih]
    by_cases h : c = slash
    · simp [h]
    · have hb : (c == slash) = false := by simpa using h
      rw [if_neg h, hb]
      cases hs : s.splitOn slash with
      | nil => exact absurd hs (List.splitOn_ne_nil slash s)
      | cons t ts => simp

private theorem strsepTokens_append (s t : CString) :
    strsepTokens (s ++ slash :: t) = strsepTokens s ++ strsepTokens t := by
  induction s with
  | nil => simp [strsepTokens]
  | cons c s ih =>
    rw [List.cons_append, strsepTokens, strsepTokens, ih]
    by_cases h : c = slash
    · rw [if_pos h, if_pos h, List.cons_append]
    · rw [if_neg h, if_neg h]
      cases hs : strsepTokens s with
      | nil =>
        rw [strsepTokens_eq] at hs
        exact absurd hs (List.splitOn_ne_nil slash s)
      | cons u us => rfl

/-- A slash separates the components before it from those behind it. -/
theorem components_append (s t : CString) :
    components (s ++ slash :: t) = components s ++ components t := by
  rw [components, ← strsepTokens_eq, strsepTokens_append, strsepTokens_eq, strsepTokens_eq,
    List.map_append, components, components]

theorem slash_not_mem_piece {s t : CString} (h : t ∈ s.splitOn slash) : slash ∉ t := by
  induction s generalizing t with
  | nil => simp_all
  | cons c s ih =>
    rw [List.splitOn_cons_eq_if_modifyHead] at h
    by_cases hc : c = slash
    · simp only [hc, beq_self_eq_true, if_true, List.mem_cons] at h
      rcases h with rfl | h
      · exact List.not_mem_nil
      · exact ih h
    · have hb : (c == slash) = false := by simpa using hc
      rw [hb] at h
      cases hs : s.splitOn slash with
      | nil => exact absurd hs (List.splitOn_ne_nil slash s)
      | cons u us =>
        simp only [hs, Bool.false_eq_true, if_false, List.modifyHead_cons, List.mem_cons] at h
        rcases h with rfl | h
        · intro hm
          rcases List.mem_cons.mp hm with he | hm
          · exact hc he.symm
          · exact ih (hs ▸ List.mem_cons_self) hm
        · exact ih (hs ▸ List.mem_cons_of_mem _ h)

/-- A name that survives the reduction is an ordinary component. -/
theorem resolved_name {path n : CString} (h : n ∈ resolved path) :
    n ≠ [] ∧ n ≠ dotName ∧ n ≠ dotdotName ∧ slash ∉ n := by
  obtain ⟨t, ht, hc⟩ := List.mem_map.mp (mem_resolve h)
  obtain ⟨rfl, h1, h2, h3⟩ := classify_eq_name hc
  exact ⟨h1, h2, h3, slash_not_mem_piece ht⟩

/-- The stack that stands for a reduced path: an absolute path keeps no "..". -/
def stackOf (absolute : Bool) (r : Reduced CString) : List CString :=
  r.names.reverse ++ if absolute then [] else List.replicate r.ups dotdotName

/-- One iteration of the token loop is one step of the reduction. -/
theorem tokenStep_stackOf (absolute : Bool) {r : Reduced CString}
    (hr : ∀ n ∈ r.names, n ≠ dotdotName) (token : CString) :
    tokenStep absolute (stackOf absolute r) token =
      stackOf absolute (r.push (classify token)) := by
  unfold tokenStep classify
  by_cases h1 : token = [] ∨ token = dotName
  · rw [if_pos h1, if_pos h1]
    rfl
  rw [if_neg h1, if_neg h1]
  by_cases h2 : token = dotdotName
  · rw [if_pos h2, if_pos h2]
    rcases List.eq_nil_or_concat r.names with hn | ⟨ns, n, hn⟩
    · cases absolute with
      | true => simp [stackOf, Reduced.push, hn]
      | false =>
        cases hu : r.ups with
        | zero => simp [stackOf, Reduced.push, hn, hu, h2]
        | succ k => simp [stackOf, Reduced.push, hn, hu, h2, List.replicate_succ]
    · have hd : n ≠ dotdotName := hr n (by simp [hn])
      simp [stackOf, Reduced.push, hn, hd]
  · rw [if_neg h2, if_neg h2]
    simp [stackOf, Reduced.push]

/-- The token loop, run over the whole string. -/
theorem tokenLoop_eq (absolute : Bool) (path : CString) :
    (strsepTokens path).foldl (tokenStep absolute) [] =
      stackOf absolute (reduce (components path)) := by
  rw [strsepTokens_eq, components]
  induction path.splitOn slash using List.reverseRecOn with
  | nil => cases absolute <;> rfl
  | append_singleton ts t ih =>
    have hr : ∀ n ∈ (reduce (ts.map classify)).names, n ≠ dotdotName := by
      intro n hn
      obtain ⟨u, _, hc⟩ := List.mem_map.mp (mem_resolve hn)
      exact (classify_eq_name hc).2.2.2
    rw [List.foldl_append, ih, List.foldl_cons, List.foldl_nil, tokenStep_stackOf absolute hr,
      List.map_append, List.map_cons, List.map_nil, reduce_append_singleton]

/-- The text the rebuild loop produces when nothing limits its length. -/
def rebuildText (absolute : Bool) : Nat → List CString → CString → CString
  | _, [], out => out
  | i, part :: parts, out =>
    rebuildText absolute (i + 1) parts
      (if (i > 0 ∨ absolute) ∧ out.length > 1 then out ++ [slash] ++ part else out ++ part)

/-- What a buffer of `size` bytes can hold with the terminator. -/
def fit (size : Nat) (s : CString) : Option CString := if s.length < size then some s else none

theorem appendStr_eq {out : CString} {outSize : Nat} (h : out.length < outSize) (s : CString) :
    appendStr out outSize s = fit outSize (out ++ s) := by
  have hz : outSize ≠ 0 := by omega
  unfold appendStr fit
  rw [if_neg hz, List.length_append]
  by_cases hs : s.length ≥ outSize - out.length
  · rw [if_pos hs, if_neg (by omega)]
  · rw [if_neg hs, if_pos (by omega)]

private theorem length_le_rebuildText (absolute : Bool) (i : Nat) (parts : List CString)
    (out : CString) : out.length ≤ (rebuildText absolute i parts out).length := by
  induction parts generalizing i out with
  | nil => exact Nat.le_refl _
  | cons part parts ih =>
    refine Nat.le_trans ?_ (ih _ _)
    split <;> simp

private theorem fit_eq_none {size : Nat} {s : CString} (h : size ≤ s.length) : fit size s = none :=
  if_neg (by omega)

/-- The rebuild loop fails exactly when its text does not fit. -/
theorem rebuild_eq (absolute : Bool) {outSize : Nat} (i : Nat) (parts : List CString)
    {out : CString} (h : out.length < outSize) :
    rebuild absolute outSize i parts out = fit outSize (rebuildText absolute i parts out) := by
  induction parts generalizing i out with
  | nil => exact (if_pos h).symm
  | cons part parts ih =>
    have key (t : CString) :
        (fit outSize t).bind (rebuild absolute outSize (i + 1) parts) =
          fit outSize (rebuildText absolute (i + 1) parts t) := by
      by_cases ht : t.length < outSize
      · rw [fit, if_pos ht, Option.bind_some, ih _ ht]
      · have hr := length_le_rebuildText absolute (i + 1) parts t
        rw [fit, if_neg ht, fit_eq_none (by omega)]
        rfl
    rw [rebuild, rebuildText]
    split
    · by_cases h1 : (out ++ [slash]).length < outSize
      · rw [appendStr_eq h, fit, if_pos h1, Option.bind_eq_bind, Option.bind_some,
          appendStr_eq h1]
        exact key _
      · have hr := length_le_rebuildText absolute (i + 1) parts (out ++ [slash] ++ part)
        rw [List.length_append] at hr
        rw [appendStr_eq h, fit, if_neg h1, fit_eq_none (by omega)]
        rfl
    · rw [appendStr_eq h]
      exact key _

/-- Once two characters stand in the buffer every part gets its slash. -/
theorem rebuildText_render {absolute : Bool} {i : Nat} {out : CString} (parts : List CString)
    (hi : i > 0 ∨ absolute) (h : 1 < out.length) :
    rebuildText absolute i parts out = out ++ render slash parts := by
  induction parts generalizing i out with
  | nil => exact (List.append_nil out).symm
  | cons part parts ih =>
    rw [rebuildText, if_pos ⟨hi, h⟩, ih (.inl (Nat.succ_pos i)), render_cons]
    · simp
    · simp only [List.length_append]
      omega

/-- The canonical form of an absolute path with these components. -/
def absoluteForm (names : List CString) : CString :=
  if names = [] then [slash] else render slash names

theorem rebuildText_absolute {parts : List CString} (h : ∀ p ∈ parts, p ≠ []) :
    rebuildText true 0 parts [slash] = absoluteForm parts := by
  cases parts with
  | nil => rfl
  | cons part parts =>
    have hp : 0 < part.length := List.length_pos_iff.mpr (h part List.mem_cons_self)
    rw [rebuildText, if_neg (by simp), rebuildText_render _ (.inr rfl), absoluteForm,
      if_neg (by simp), render_cons]
    · rfl
    · rw [List.length_append, List.length_singleton]
      omega

/-- The text of a normalized path before its length is looked at. -/
def normalText (input : CString) : CString :=
  let absolute : Bool := input.head? = some slash
  let text := rebuildText absolute 0 (stackOf absolute (reduce (components input))).reverse
    (if absolute then [slash] else [])
  if text = [] then (if absolute then [slash] else dotName) else text

/-- `path_normalize_lexical` fails only for want of room. -/
theorem pathNormalizeLexical_eq {input : CString} (h : input.length < PATH_MAX) (outSize : Nat) :
    pathNormalizeLexical (some input) outSize = fit outSize (normalText input) := by
  have hlen : ¬ input.length ≥ PATH_MAX := by omega
  by_cases hz : outSize = 0
  · rw [hz, fit_eq_none (Nat.zero_le _)]
    rfl
  have hpos : ([] : CString).length < outSize := Nat.pos_of_ne_zero hz
  simp only [pathNormalizeLexical, if_neg hz, if_neg hlen, tokenLoop_eq, normalText]
  by_cases ha : input.head? = some slash
  · simp only [ha, decide_true, if_true, appendStr_eq hpos, List.nil_append]
    by_cases h1 : [slash].length < outSize
    · rw [fit, if_pos h1, Option.bind_eq_bind, Option.bind_some, rebuild_eq true 0 _ h1]
      have hne : ∀ parts, rebuildText true 0 parts [slash] ≠ [] := fun parts he => by
        have hr := length_le_rebuildText true 0 parts [slash]
        rw [he] at hr
        simp at hr
      unfold fit
      split
      · rw [Option.bind_some, if_neg (hne _), if_neg (hne _), if_pos (by assumption)]
      · rw [if_neg (hne _), if_neg (by assumption)]
        rfl
    · have hr := length_le_rebuildText true 0
        (stackOf true (reduce (components input))).reverse [slash]
      rw [fit, if_neg h1, fit_eq_none]
      · rfl
      · split <;> omega
  · simp only [ha, decide_false, Bool.false_eq_true, if_false, Option.bind_eq_bind,
      Option.bind_some, rebuild_eq false 0 _ hpos]
    by_cases he : rebuildText false 0 (stackOf false (reduce (components input))).reverse [] = []
    · rw [he, if_pos rfl, fit, if_pos hpos, Option.bind_some, if_pos rfl, appendStr_eq hpos]
      rfl
    · rw [if_neg he]
      unfold fit
      split
      · rw [Option.bind_some, if_neg he]
      · rfl

theorem normalText_absolute {input : CString} (ha : input.head? = some slash) :
    normalText input = absoluteForm (resolved input) := by
  have hp : (stackOf true (reduce (components input))).reverse = resolved input := by
    simp [stackOf, resolved, resolve]
  have hne : absoluteForm (resolved input) ≠ [] := by
    unfold absoluteForm
    split
    · simp
    · rw [Ne, render_eq_nil]
      assumption
  simp only [normalText, ha, decide_true, if_true, hp]
  rw [rebuildText_absolute (fun p hm => (resolved_name hm).1), if_neg hne]

/-- The normal form of a relative path does not begin with a slash. -/
theorem normalText_relative {input : CString} (ha : input.head? ≠ some slash) :
    (normalText input).head? ≠ some slash := by
  have hn : ∀ p ∈ (stackOf false (reduce (components input))).reverse, p.head? ≠ some slash := by
    intro p hm
    simp only [stackOf, Bool.false_eq_true, if_false, List.reverse_append, List.reverse_reverse,
      List.reverse_replicate, List.mem_append, List.mem_replicate] at hm
    rcases hm with ⟨_, rfl⟩ | hm
    · decide
    · exact fun he => (resolved_name hm).2.2.2 (List.mem_of_mem_head? he)
  have hr (i : Nat) (parts : List CString) (out : CString)
      (hparts : ∀ p ∈ parts, p.head? ≠ some slash) (ho : out.head? ≠ some slash) :
      (rebuildText false i parts out).head? ≠ some slash := by
    induction parts generalizing i out with
    | nil => exact ho
    | cons p parts ih =>
      refine ih _ _ (fun q hq => hparts q (List.mem_cons_of_mem _ hq)) ?_
      have hph := hparts p List.mem_cons_self
      split
      · cases out with
        | nil => simp_all
        | cons c out => exact ho
      · cases out with
        | nil => exact hph
        | cons c out => exact ho
  simp only [normalText, ha, decide_false, Bool.false_eq_true, if_false]
  split
  · decide
  · exact hr 0 _ [] hn (by simp)

/-- The room a token takes with the slash before it. -/
def nameCost (n : CString) : Nat := n.length + 1

private theorem cost_classify_le (t : CString) :
    (classify t).cost nameCost 3 ≤ nameCost t := by
  unfold classify
  split
  · exact Nat.zero_le _
  · split
    · rename_i h
      rw [h]
      exact Nat.le_refl _
    · exact Nat.le_refl _

/-- The pieces of a path take its room and that of one slash. -/
theorem cost_pieces (s : CString) : ((s.splitOn slash).map nameCost).sum = s.length + 1 := by
  have hr : (render slash (s.splitOn slash)).length = ((s.splitOn slash).map nameCost).sum :=
    length_render _
  rw [← hr, render_eq_intercalate (List.splitOn_ne_nil slash s), List.intercalate_splitOn]
  rfl

/-- The components of a path take no more room than the path and one slash. -/
theorem cost_components_le (s : CString) :
    ((components s).map (Component.cost nameCost 3)).sum ≤ s.length + 1 := by
  rw [← cost_pieces, components]
  induction s.splitOn slash with
  | nil => exact Nat.le_refl _
  | cons t ts ih =>
    have ht := cost_classify_le t
    simp only [List.map_cons, List.sum_cons]
    omega

/-- An absolute path is not shorter than its normal form. -/
theorem length_absoluteForm_le {input : CString} (ha : input.head? = some slash) :
    (absoluteForm (resolved input)).length ≤ input.length := by
  obtain ⟨s, rfl⟩ : ∃ s, input = slash :: s := by
    cases input with
    | nil => cases ha
    | cons c s => exact ⟨s, by cases ha; rfl⟩
  unfold absoluteForm
  split
  · simp
  have hsplit : components (slash :: s) = .skip :: components s := by
    simp [components, List.splitOn_cons_eq_if_modifyHead, classify]
  have hc := cost_reduce_le nameCost 3 (components (slash :: s))
  have hs := cost_components_le s
  have hr : (render slash (resolved (slash :: s))).length =
      ((reduce (components (slash :: s))).names.map nameCost).sum := length_render _
  have hsum : ((components (slash :: s)).map (Component.cost nameCost 3)).sum =
      ((components s).map (Component.cost nameCost 3)).sum := by
    rw [hsplit, List.map_cons, List.sum_cons, Component.cost, Nat.zero_add]
  rw [hsum, Reduced.cost] at hc
  rw [hr, List.length_cons]
  omega

end HookSqfs.Paths
