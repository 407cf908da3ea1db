import HookSqfs.Paths.Normalization

/-! The routing decision: `path_relative_to_root` against the component lists. -/
namespace HookSqfs.Paths
open Manager Lexical

theorem getLast_render {ns : List CString} (hne : ∀ n ∈ ns, n ≠ [])
    (hs : ∀ n ∈ ns, slash ∉ n) : (render slash ns).getLast? ≠ some slash := by
  rcases List.eq_nil_or_concat ns with rfl | ⟨ms, n, rfl⟩
  · simp
  · rw [List.concat_eq_append] at *
    have hn : n ∈ ms ++ [n] := by simp
    have he : render slash (ms ++ [n]) = (render slash ms ++ [slash]) ++ n := by
      rw [render_append]
      simp [render_cons]
    intro h
    rw [he, List.getLast?_append, List.getLast?_eq_some_getLast (hne n hn), Option.some_or] at h
    exact hs n hn (Option.some.inj h ▸ List.getLast_mem (hne n hn))

theorem stripTrailing_length {s : CString} (h : s.length ≤ 1 ∨ s.getLast? ≠ some slash) :
    stripTrailing s s.length = s.length := by
  cases hl : s.length with
  | zero => rfl
  | succ n =>
    rw [stripTrailing, if_neg]
    rintro ⟨hn, hs⟩
    rcases h with h | h
    · omega
    · rw [List.getLast?_eq_getElem?, hl] at h
      exact h hs

private theorem stripTrailing_absoluteForm (path : CString) :
    stripTrailing (absoluteForm (resolved path)) (absoluteForm (resolved path)).length =
      (absoluteForm (resolved path)).length := by
  apply stripTrailing_length
  unfold absoluteForm
  split
  · exact .inl (Nat.le_refl _)
  · exact .inr (getLast_render (fun n hn => (resolved_name hn).1)
      (fun n hn => (resolved_name hn).2.2.2))

/-- `path` lies under `root`: its component list continues the root's. -/
def Contained (root path : CString) : Prop :=
  path.head? = some slash ∧ resolved root <+: resolved path

instance (root path : CString) : Decidable (Contained root path) :=
  inferInstanceAs (Decidable (_ ∧ _))

/-- The components of `path` below `root`, joined by slashes. -/
def below (root path : CString) : CString :=
  [slash].intercalate ((resolved path).drop (resolved root).length)

private theorem one_lt_length_render {ns : List CString} (h0 : ns ≠ []) (hne : ∀ n ∈ ns, n ≠ []) :
    1 < (render slash ns).length := by
  obtain ⟨n, ns', rfl⟩ := List.exists_cons_of_ne_nil h0
  have hn : 0 < n.length := List.length_pos_iff.mpr (hne n List.mem_cons_self)
  rw [render_cons, List.length_cons, List.length_append]
  omega

private theorem head_absoluteForm (names : List CString) : (absoluteForm names).head? = some slash := by
  unfold absoluteForm
  split
  · rfl
  · exact render_head _ (by assumption)

theorem drop_one_absoluteForm (names : List CString) :
    (absoluteForm names).drop 1 = [slash].intercalate names := by
  unfold absoluteForm
  split
  · rename_i h
    rw [h]
    rfl
  · rename_i h
    rw [render_eq_intercalate h]
    rfl

/-- The text of a path below a root begins with the text of the root. -/
private theorem render_prefix_absoluteForm {ms ns : List CString} (hm0 : ms ≠ [])
    (h : ms <+: ns) : render slash ms <+: absoluteForm ns := by
  obtain ⟨ks, rfl⟩ := h
  refine ⟨render slash ks, ?_⟩
  rw [absoluteForm, if_neg (by simp [hm0]), render_append]

/-- After the text of the root, a path below it goes on with a slash. -/
private theorem eq_slash_of_below {ms ns : List CString} {c : UInt8} {t : CString}
    (h : ms <+: ns) (ht : render slash ms ++ c :: t = render slash ns) : c = slash := by
  obtain ⟨ks, rfl⟩ := h
  rw [render_append, List.append_cancel_left_eq] at ht
  have hh := congrArg List.head? ht
  rcases (atBoundary_render ks : AtBoundary slash _) with hb | hb
  · rw [hb] at hh
    cases hh
  · rw [hb] at hh
    exact Option.some.inj hh

/-- Below a root other than "/" the test on the normalized text finds the prefix of
the component list. -/
private theorem prefixTest_eq {ms ns : List CString} {buffer : Option CString} {size : Nat}
    (hm0 : ms ≠ []) (hm : ∀ m ∈ ms, m ≠ [] ∧ slash ∉ m) (hn : ∀ n ∈ ns, slash ∉ n) :
    (if (absoluteForm ns).length < (render slash ms).length ∨
          (absoluteForm ns).take (render slash ms).length ≠
            (render slash ms).take (render slash ms).length then (false, buffer)
      else if (absoluteForm ns).length = (render slash ms).length then
        writeRelative [] buffer size
      else if (absoluteForm ns)[(render slash ms).length]? ≠ some slash then (false, buffer)
      else writeRelative ((absoluteForm ns).drop ((render slash ms).length + 1)) buffer size) =
    if ms <+: ns then writeRelative ([slash].intercalate (ns.drop ms.length)) buffer size
    else (false, buffer) := by
  have hm' : ∀ m ∈ ms, slash ∉ m := fun m h => (hm m h).2
  rw [List.take_length]
  by_cases hpre : render slash ms <+: absoluteForm ns
  · obtain ⟨t, ht⟩ := hpre
    have hns : ns ≠ [] := by
      rintro rfl
      have hlen := congrArg List.length ht
      have hlong := one_lt_length_render hm0 (fun m h => (hm m h).1)
      rw [List.length_append, absoluteForm, if_pos rfl, List.length_singleton] at hlen
      omega
    have hform : absoluteForm ns = render slash ns := if_neg hns
    have hlen : (render slash ms ++ t).length = (render slash ms).length + t.length :=
      List.length_append
    rw [hform] at ht
    rw [hform, ← ht, hlen, List.take_left, if_neg (by simp)]
    cases t with
    | nil =>
      rw [List.append_nil] at ht
      rw [if_pos (by rfl), render_injective hm' hn ht, if_pos (List.prefix_refl _),
        List.drop_length]
      rfl
    | cons c t =>
      rw [if_neg (by simp), List.getElem?_append_right (Nat.le_refl _), Nat.sub_self,
        List.getElem?_cons_zero]
      by_cases hc : c = slash
      · obtain ⟨ks, rfl, hk⟩ := (render_append_eq_iff hm' hn (.inr (by rw [hc]; rfl))).mp ht
        have hks : ks ≠ [] := by
          rintro rfl
          cases hk
        rw [render_eq_intercalate hks, List.cons.injEq] at hk
        rw [if_neg (by simp [hc]), if_pos (List.prefix_append _ _), List.drop_left,
          List.drop_append, List.drop_eq_nil_of_le (by omega), hk.2]
        simp
      · have hno : ¬ ms <+: ns := fun h => hc (eq_slash_of_below h ht)
        rw [if_pos (by simpa using hc), if_neg hno]
  · have hno : ¬ ms <+: ns := fun h => hpre (render_prefix_absoluteForm hm0 h)
    rw [if_neg hno, if_pos]
    by_cases hl : (absoluteForm ns).length < (render slash ms).length
    · exact .inl hl
    · refine .inr fun he => hpre ?_
      rw [← he]
      exact List.take_prefix _ _

private theorem fit_pathMax {s : CString} (h : s.length < PATH_MAX) : fit PATH_MAX s = some s :=
  if_pos h

/-- `path_relative_to_root` decides containment of the component lists, and then
stores what lies below the root. -/
theorem pathRelativeToRoot_eq {root path : CString} (hroot : root.head? = some slash)
    (hr : root.length < PATH_MAX) (hp : path.length < PATH_MAX) (buffer : Option CString)
    (size : Nat) :
    pathRelativeToRoot (some root) (some path) buffer size =
      if Contained root path then writeRelative (below root path) buffer size
      else (false, buffer) := by
  have hnr : pathNormalizeLexical (some root) PATH_MAX = some (absoluteForm (resolved root)) := by
    rw [pathNormalizeLexical_eq hr, normalText_absolute hroot,
      fit_pathMax (Nat.lt_of_le_of_lt (length_absoluteForm_le hroot) hr)]
  by_cases ha : path.head? = some slash
  · have hnp : pathNormalizeLexical (some path) PATH_MAX =
        some (absoluteForm (resolved path)) := by
      rw [pathNormalizeLexical_eq hp, normalText_absolute ha,
        fit_pathMax (Nat.lt_of_le_of_lt (length_absoluteForm_le ha) hp)]
    simp only [pathRelativeToRoot, hnr, hnp, stripTrailing_absoluteForm, Contained, ha, true_and,
      below]
    by_cases hroot0 : resolved root = []
    · have hform : absoluteForm (resolved root) = [slash] := by rw [hroot0]; rfl
      rw [hform, if_pos ⟨rfl, rfl⟩, if_neg (not_not.mpr (head_absoluteForm _)), drop_one_absoluteForm, hroot0,
        if_pos List.nil_prefix]
      rfl
    · have hform : absoluteForm (resolved root) = render slash (resolved root) := if_neg hroot0
      have hlen := one_lt_length_render hroot0 (fun n hn => (resolved_name hn).1)
      rw [hform, if_neg (fun h => absurd h.1 (by omega))]
      exact prefixTest_eq hroot0 (fun n hn => ⟨(resolved_name hn).1, (resolved_name hn).2.2.2⟩)
        (fun n hn => (resolved_name hn).2.2.2)
  · rw [if_neg (fun h => ha h.1)]
    have hrel := normalText_relative ha
    simp only [pathRelativeToRoot, hnr, pathNormalizeLexical_eq hp]
    by_cases hfit : (normalText path).length < PATH_MAX
    · simp only [fit_pathMax hfit, stripTrailing_absoluteForm]
      split
      · rfl
      · rw [if_pos]
        by_cases hl : (normalText path).length < (absoluteForm (resolved root)).length
        · exact .inl hl
        · have hz : (absoluteForm (resolved root)).length ≠ 0 := fun h0 => by
            have hh := head_absoluteForm (resolved root)
            rw [List.length_eq_zero_iff.mp h0] at hh
            cases hh
          refine .inr fun he => hrel ?_
          have hh := congrArg List.head? he
          rw [List.head?_take, List.head?_take, if_neg hz, if_neg hz] at hh
          rw [hh]
          exact head_absoluteForm _
    · simp only [fit, if_neg hfit]

theorem below_name {root path n : CString} (h : n ∈ (resolved path).drop (resolved root).length) :
    n ≠ [] ∧ n ≠ dotName ∧ n ≠ dotdotName ∧ slash ∉ n :=
  resolved_name (List.mem_of_mem_drop h)

/-- No piece of the relative path is empty or a dot name, unless it is the root itself. -/
theorem below_pieces (root path : CString) :
    below root path = [] ∨ ∀ piece ∈ (below root path).splitOn slash,
      piece ≠ [] ∧ piece ≠ dotName ∧ piece ≠ dotdotName := by
  by_cases h0 : (resolved path).drop (resolved root).length = []
  · exact .inl (by rw [below, h0]; rfl)
  · rw [below, List.splitOn_intercalate _ (fun n h => (below_name h).2.2.2) h0]
    exact .inr fun n h => ⟨(below_name h).1, (below_name h).2.1, (below_name h).2.2.1⟩

theorem below_head (root path : CString) : (below root path).head? ≠ some slash := by
  have hn : ∀ n ∈ (resolved path).drop (resolved root).length, n ≠ [] ∧ slash ∉ n :=
    fun n h => ⟨(below_name h).1, (below_name h).2.2.2⟩
  unfold below
  cases h0 : (resolved path).drop (resolved root).length with
  | nil => simp
  | cons n ns =>
    rw [h0] at hn
    obtain ⟨hne, hs⟩ := hn n List.mem_cons_self
    obtain ⟨c, n', rfl⟩ := List.exists_cons_of_ne_nil hne
    intro h
    have hc : c = slash := by cases ns <;> simpa using h
    exact hs (hc ▸ List.mem_cons_self)

theorem below_getLast (root path : CString) : (below root path).getLast? ≠ some slash := by
  by_cases h0 : (resolved path).drop (resolved root).length = []
  · rw [below, h0]
    simp
  · have hl : (render slash ((resolved path).drop (resolved root).length)).getLast? ≠
        some slash :=
      getLast_render (fun n h => (below_name h).1) (fun n h => (below_name h).2.2.2)
    rw [render_eq_intercalate h0] at hl
    intro h
    rw [List.getLast?_cons, ← below, h] at hl
    exact hl rfl

theorem length_below_lt {root path : CString} (ha : path.head? = some slash)
    (hp : path.length < PATH_MAX) : (below root path).length < PATH_MAX := by
  by_cases h0 : (resolved path).drop (resolved root).length = []
  · rw [below, h0]
    decide
  · have hne : resolved path ≠ [] := fun h => h0 (by rw [h, List.drop_nil])
    have hform := length_absoluteForm_le ha
    have hsplit : (render slash (resolved path)).length =
        (render slash ((resolved path).take (resolved root).length)).length +
          (render slash ((resolved path).drop (resolved root).length)).length := by
      rw [← List.length_append, ← render_append, List.take_append_drop]
    rw [absoluteForm, if_neg hne, hsplit, render_eq_intercalate h0, List.length_cons,
      ← below] at hform
    omega

theorem writeRelative_result (relative : CString) (buffer : Option CString) (size : Nat) :
    (writeRelative relative buffer size).1 = true ↔
      (buffer.isSome → size ≠ 0 → relative.length + 1 ≤ size) := by
  unfold writeRelative
  split
  · rename_i h
    split
    · simp only [Bool.false_eq_true, h.1, ne_eq, h.2, not_false_eq_true, true_implies, false_iff]
      omega
    · simp only [true_iff]
      omega
  · rename_i h
    simp only [true_iff]
    exact fun hb hs => absurd ⟨hb, hs⟩ h

theorem writeRelative_stored {relative : CString} {buffer : Option CString} {size : Nat}
    (h : (writeRelative relative buffer size).1 = true) (hb : buffer.isSome) (hs : size ≠ 0) :
    (writeRelative relative buffer size).2 = some relative := by
  have hfit := (writeRelative_result relative buffer size).mp h hb hs
  rw [writeRelative, if_pos ⟨hb, hs⟩, if_neg (by omega)]

theorem writeRelative_unchanged {relative : CString} {buffer : Option CString} {size : Nat}
    (h : (writeRelative relative buffer size).1 = false) :
    (writeRelative relative buffer size).2 = buffer := by
  unfold writeRelative at h ⊢
  split
  · rename_i hw
    rw [if_pos hw] at h
    split
    · rfl
    · rename_i hl
      rw [if_neg hl] at h
      cases h
  · rfl

/-- A normal form fits the array it was made in. -/
theorem length_normalized_lt {s t : CString} (h : pathNormalizeLexical (some s) PATH_MAX = some t) :
    t.length < PATH_MAX := by
  by_cases hs : s.length < PATH_MAX
  · rw [pathNormalizeLexical_eq hs, fit] at h
    split at h
    · rename_i hlen
      cases h
      exact hlen
    · cases h
  · rw [pathNormalizeLexical, if_neg (by decide), if_pos (by omega)] at h
    cases h

/-- The check-only mode answers as the mode with a buffer of `PATH_MAX` bytes. -/
theorem relative_modes_agree (root path : Option CString) (buffer : CString) :
    (pathRelativeToRoot root path none 0).1 =
      (pathRelativeToRoot root path (some buffer) PATH_MAX).1 := by
  have hcheck : ∀ relative, (writeRelative relative none 0).1 = true := fun _ => rfl
  have hwrite : ∀ relative, relative.length < PATH_MAX →
      (writeRelative relative (some buffer) PATH_MAX).1 = true := fun relative h =>
    (writeRelative_result _ _ _).mpr fun _ _ => h
  cases root with
  | none => rfl
  | some root =>
    cases path with
    | none => rfl
    | some path =>
      unfold pathRelativeToRoot
      cases hr : pathNormalizeLexical (some root) PATH_MAX with
      | none => simp only [hr]
      | some normRoot =>
        cases hp : pathNormalizeLexical (some path) PATH_MAX with
        | none => simp only [hr, hp]
        | some normPath =>
          have hlen := length_normalized_lt hp
          have hdrop : ∀ n, (normPath.drop n).length < PATH_MAX := fun n => by
            rw [List.length_drop]
            omega
          simp only [hr, hp]
          split_ifs
          · rfl
          · rw [hcheck, hwrite _ (hdrop 1)]
          · rfl
          · rw [hcheck, hwrite _ (by decide)]
          · rfl
          · rw [hcheck, hwrite _ (hdrop _)]

variable {root path : CString}

theorem relative_result (hroot : root.head? = some slash) (hr : root.length < PATH_MAX)
    (hp : path.length < PATH_MAX) (buffer : Option CString) (size : Nat) :
    (pathRelativeToRoot (some root) (some path) buffer size).1 = true ↔
      Contained root path ∧
        (buffer.isSome → size ≠ 0 → (below root path).length + 1 ≤ size) := by
  rw [pathRelativeToRoot_eq hroot hr hp]
  split
  · rename_i hc
    rw [writeRelative_result]
    exact ⟨fun h => ⟨hc, h⟩, fun h => h.2⟩
  · rename_i hc
    simp [hc]

/-- Without a buffer, or with one of size 0, only containment is decided. -/
theorem relative_check (hroot : root.head? = some slash) (hr : root.length < PATH_MAX)
    (hp : path.length < PATH_MAX) {buffer : Option CString} {size : Nat}
    (h : buffer = none ∨ size = 0) :
    (pathRelativeToRoot (some root) (some path) buffer size).1 = true ↔ Contained root path := by
  rw [relative_result hroot hr hp]
  refine ⟨fun hc => hc.1, fun hc => ⟨hc, fun hb hs => ?_⟩⟩
  rcases h with rfl | rfl
  · cases hb
  · exact absurd rfl hs

/-- A buffer of `PATH_MAX` bytes is always large enough. -/
theorem relative_pathMax (hroot : root.head? = some slash) (hr : root.length < PATH_MAX)
    (hp : path.length < PATH_MAX) (buffer : Option CString) :
    (pathRelativeToRoot (some root) (some path) buffer PATH_MAX).1 = true ↔
      Contained root path := by
  rw [relative_result hroot hr hp]
  refine ⟨fun hc => hc.1, fun hc => ⟨hc, fun _ _ => ?_⟩⟩
  have hlen : (below root path).length < PATH_MAX := length_below_lt hc.1 hp
  omega

/-- `path_relative_to_root` on an absolute root decides containment of the component
lists, and what it stores is the path below the root. -/
theorem path_relative_to_root_exact (hroot : root.head? = some slash)
    (hr : root.length < PATH_MAX) (hp : path.length < PATH_MAX) (buffer : Option CString)
    (size : Nat) :
    let out := pathRelativeToRoot (some root) (some path) buffer size
    (out.1 = true ↔ Contained root path ∧
      (buffer.isSome → size ≠ 0 → (below root path).length + 1 ≤ size)) ∧
    (out.1 = true → buffer.isSome → size ≠ 0 → out.2 = some (below root path)) ∧
    (out.1 = false → out.2 = buffer) ∧
    (buffer = none ∨ size = 0 → (out.1 = true ↔ Contained root path)) ∧
    (size = PATH_MAX → out.1 = (pathRelativeToRoot (some root) (some path) none 0).1) ∧
    (below root path = [] ∨ ∀ piece ∈ (below root path).splitOn slash,
      piece ≠ [] ∧ piece ≠ dotName ∧ piece ≠ dotdotName) ∧
    (below root path).head? ≠ some slash ∧ (below root path).getLast? ≠ some slash := by
  intro out
  have hout : out = if Contained root path then writeRelative (below root path) buffer size
      else (false, buffer) := pathRelativeToRoot_eq hroot hr hp buffer size
  refine ⟨relative_result hroot hr hp buffer size, ?_, ?_, relative_check hroot hr hp, ?_,
    below_pieces root path, below_head root path, below_getLast root path⟩
  · intro h hb hs
    have hc := ((relative_result hroot hr hp buffer size).mp h).1
    rw [hout, if_pos hc] at h ⊢
    exact writeRelative_stored h hb hs
  · intro h
    rw [hout] at h ⊢
    split
    · rename_i hc
      rw [if_pos hc] at h
      exact writeRelative_unchanged h
    · rfl
  · rintro rfl
    rw [Bool.eq_iff_iff, relative_pathMax hroot hr hp, relative_check hroot hr hp (.inl rfl)]

theorem path_relative_to_root_exact_hook :
    let out := pathRelativeToRoot (some [slash, 104]) (some [slash, 104, slash, 97]) (some []) 2
    out.1 = true ↔ Contained [slash, 104] [slash, 104, slash, 97] ∧
      ((some ([] : CString)).isSome → 2 ≠ 0 →
        (below [slash, 104] [slash, 104, slash, 97]).length + 1 ≤ 2) :=
  (path_relative_to_root_exact rfl (by decide) (by decide) (some []) 2).1

end HookSqfs.Paths
