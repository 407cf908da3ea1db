import HookSqfs.Paths.Rerooting

/-! The outputs of `path_normalize_lexical`: their shape, and that they stay as they are
when they are normalized again. -/
namespace HookSqfs.Paths
open Manager Lexical

/-- The components of a path without trailing slash; "/" has none. -/
def pieces (text : CString) : List CString :=
  if text = [slash] then []
  else (if isAbsolute text then text.drop 1 else text).splitOn slash

/-- What callers may rely on in a normalized path. -/
structure NormalForm (text : CString) : Prop where
  plain : text = dotName ∨ ∀ p ∈ pieces text, p ≠ [] ∧ p ≠ dotName
  trailing : text = [slash] ∨ text.getLast? ≠ some slash
  absolute : isAbsolute text = true → dotdotName ∉ pieces text
  relative : isAbsolute text = false → ∀ before p after, pieces text = before ++ p :: after →
    p ≠ dotdotName → dotdotName ∉ after

/-- Components as the normalization leaves them: "..", then names. -/
structure Tidy (absolute : Bool) (parts : List CString) (ups : Nat) (names : List CString) :
    Prop where
  eq : parts = List.replicate ups dotdotName ++ names
  ups : absolute = true → ups = 0
  names : ∀ n ∈ names, FileName n

namespace Tidy
variable {absolute : Bool} {parts names : List CString} {ups : Nat}

theorem plain (h : Tidy absolute parts ups names) : ∀ p ∈ parts, Plain p := by
  intro p hp
  rw [h.eq] at hp
  rcases List.mem_append.mp hp with hp | hp
  · rw [(List.mem_replicate.mp hp).2]
    exact ⟨by decide, by decide, by decide⟩
  · exact (h.names p hp).plain

/-- Reduction leaves them as they are. -/
theorem reduce_eq (h : Tidy absolute parts ups names) :
    reduce (parts.map classify) = ⟨ups, names⟩ := by
  have hups : ∀ k, reduce (List.replicate k (Component.up : Component CString)) = ⟨k, []⟩ := by
    intro k
    induction k with
    | zero => rfl
    | succ k ih => rw [List.replicate_succ', reduce_append_singleton, ih, Reduced.push, if_pos rfl]
  have hnames : names.map classify = names.map Component.name := by
    apply List.map_congr_left
    intro n hn
    obtain ⟨h1, h2, h3, -⟩ := h.names n hn
    rw [classify, if_neg (by simp [h1, h2]), if_neg h3]
  have hup : classify dotdotName = .up := rfl
  rw [h.eq, List.map_append, List.map_replicate, hnames, hup,
    reduce_append (neverClimbs_names names), hups, reduce_names, List.nil_append]

end Tidy

/-- A first component of one character and the second one are a name together. -/
private theorem glued_name {c d : CString} (hc : FileName c) (hd : FileName d)
    (h1 : c.length = 1) : FileName (c ++ d) := by
  obtain ⟨x, rfl⟩ := List.length_eq_one_iff.mp h1
  have hx : x ≠ dot := by
    rintro rfl
    exact hc.2.1 rfl
  refine ⟨by simp, ?_, ?_, ?_⟩
  · intro he
    exact hx (List.cons.inj he).1
  · intro he
    exact hx (List.cons.inj he).1
  · rw [List.mem_append, not_or]
    exact ⟨hc.2.2.2, hd.2.2.2⟩

theorem joined_tidy (input : CString) :
    ∃ ups names, Tidy (isAbsolute input) (joined input) ups names := by
  have hnames : ∀ n ∈ (reduce (components input)).names, FileName n := fun n hn =>
    resolved_name (show n ∈ resolved input from hn)
  cases ha : isAbsolute input with
  | true =>
    refine ⟨0, (reduce (components input)).names, ?_, fun _ => rfl, hnames⟩
    simp [joined, kept, ha]
  | false =>
    have hrelative : ∀ {k : Nat}, false = true → k = 0 := fun h => absurd h Bool.false_ne_true
    have hkept : kept input = List.replicate (reduce (components input)).ups dotdotName ++
        (reduce (components input)).names := by
      simp [kept, ha]
    rw [joined, ha, if_neg Bool.false_ne_true, hkept]
    generalize (reduce (components input)).names = names at hnames
    cases (reduce (components input)).ups with
    | succ k =>
      refine ⟨k + 1, names, ?_, hrelative, hnames⟩
      rw [List.replicate_succ, List.cons_append]
      -- ".." has two characters
      cases List.replicate k dotdotName ++ names <;> rfl
    | zero =>
      rcases names with _ | ⟨c, _ | ⟨d, rest⟩⟩
      · exact ⟨0, [], rfl, hrelative, hnames⟩
      · exact ⟨0, [c], rfl, hrelative, hnames⟩
      · rw [List.replicate_zero, List.nil_append, glue]
        split
        · rename_i h1
          refine ⟨0, (c ++ d) :: rest, rfl, hrelative, ?_⟩
          intro n hn
          rcases List.mem_cons.mp hn with rfl | hn
          · exact glued_name (hnames c (by simp)) (hnames d (by simp)) h1
          · exact hnames n (by simp [hn])
        · exact ⟨0, c :: d :: rest, rfl, hrelative, hnames⟩

/-- What is joined is not glued again. -/
private theorem glue_glue (parts : List CString) (h : ∀ p ∈ parts, Plain p) :
    glue (glue parts) = glue parts := by
  rcases parts with _ | ⟨c, _ | ⟨d, rest⟩⟩
  · rfl
  · rfl
  · have hd := List.length_pos_iff.mpr (h d (by simp)).1
    by_cases h1 : c.length = 1
    · have hlen : (c ++ d).length ≠ 1 := by
        rw [List.length_append]
        omega
      rw [glue, if_pos h1]
      cases rest with
      | nil => rfl
      | cons e rest => rw [glue, if_neg hlen]
    · rw [glue, if_neg h1, glue, if_neg h1]

section
variable {absolute : Bool} {parts names : List CString} {ups : Nat}

private theorem intercalate_ne_nil (h : ∀ p ∈ parts, Plain p) (hn : parts ≠ []) :
    [slash].intercalate parts ≠ [] := by
  obtain ⟨c, rest, rfl⟩ := List.exists_cons_of_ne_nil hn
  rw [intercalate_cons]
  exact fun he => (h c List.mem_cons_self).1 (List.append_eq_nil_iff.mp he).1

theorem isAbsolute_lexicalForm (h : ∀ p ∈ parts, Plain p) :
    isAbsolute (lexicalForm absolute parts) = absolute := by
  cases absolute with
  | true => rfl
  | false =>
    apply decide_eq_false
    rw [lexicalForm, if_neg Bool.false_ne_true]
    split
    · decide
    · exact (intercalate_ne h).2

/-- The pieces of a form are the components it is made of. -/
theorem pieces_lexicalForm (h : ∀ p ∈ parts, Plain p) :
    pieces (lexicalForm absolute parts) =
      if absolute = false ∧ parts = [] then [dotName] else parts := by
  by_cases hn : parts = []
  · subst hn
    cases absolute <;> decide
  · have hsplit : ([slash].intercalate parts).splitOn slash = parts :=
      List.splitOn_intercalate slash (fun p hp => (h p hp).2.2) hn
    have habs : isAbsolute (lexicalForm absolute parts) = absolute := isAbsolute_lexicalForm h
    have hnotRoot : lexicalForm absolute parts ≠ [slash] := by
      cases absolute with
      | true => exact fun he => intercalate_ne_nil h hn (List.cons.inj he).2
      | false =>
        intro he
        rw [he] at habs
        cases habs
    rw [if_neg (fun he => hn he.2), pieces, if_neg hnotRoot, habs]
    cases absolute with
    | true => exact hsplit
    | false =>
      rw [if_neg Bool.false_ne_true, lexicalForm, if_neg Bool.false_ne_true, if_neg hn]
      exact hsplit

/-- The components of a form, without effect the one before the first slash. -/
private theorem reduce_lexicalForm (h : ∀ p ∈ parts, Plain p) :
    reduce (components (lexicalForm absolute parts)) = reduce (parts.map classify) := by
  by_cases hn : parts = []
  · subst hn
    cases absolute <;> decide
  · have hsplit : components ([slash].intercalate parts) = parts.map classify := by
      rw [components, List.splitOn_intercalate slash (fun p hp => (h p hp).2.2) hn]
    cases absolute with
    | true =>
      have hskip : components (slash :: [slash].intercalate parts) =
          components [] ++ components ([slash].intercalate parts) := components_append [] _
      rw [lexicalForm, if_pos rfl, hskip, hsplit]
      rfl
    | false =>
      rw [lexicalForm, if_neg Bool.false_ne_true, if_neg hn, hsplit]

/-- A form of tidy components that are not glued is its own normal text. -/
theorem normalText_lexicalForm (h : Tidy absolute parts ups names)
    (hglue : absolute = false → glue parts = parts) :
    normalText (lexicalForm absolute parts) = lexicalForm absolute parts := by
  have habs : isAbsolute (lexicalForm absolute parts) = absolute := isAbsolute_lexicalForm h.plain
  have hkept : kept (lexicalForm absolute parts) = parts := by
    simp only [kept, habs, reduce_lexicalForm h.plain, h.reduce_eq]
    cases absolute with
    | true => rw [if_pos rfl, List.replicate_zero, List.nil_append, h.eq, h.ups rfl]; rfl
    | false => exact h.eq.symm
  have hjoined : joined (lexicalForm absolute parts) = parts := by
    rw [joined, habs, hkept]
    cases absolute with
    | true => rfl
    | false => exact hglue rfl
  rw [normalText_eq, habs, hjoined]

theorem getLast_lexicalForm (h : ∀ p ∈ parts, Plain p) :
    lexicalForm absolute parts = [slash] ∨ (lexicalForm absolute parts).getLast? ≠ some slash := by
  by_cases hn : parts = []
  · subst hn
    cases absolute <;> decide
  · right
    cases absolute with
    | true =>
      have hlast := getLast_render (fun p hp => (h p hp).1) (fun p hp => (h p hp).2.2)
      rwa [render_eq_intercalate hn] at hlast
    | false =>
      rw [lexicalForm, if_neg Bool.false_ne_true, if_neg hn]
      exact getLast_intercalate h hn

/-- No ".." stands behind a name. -/
private theorem ups_first (h : ∀ n ∈ names, FileName n) (k : Nat) {before after : List CString}
    {p : CString} (hparts : List.replicate k dotdotName ++ names = before ++ p :: after)
    (hp : p ≠ dotdotName) : dotdotName ∉ after := by
  induction k generalizing before with
  | zero =>
    rw [List.replicate_zero, List.nil_append] at hparts
    intro hmem
    exact (h dotdotName (by rw [hparts]; simp [hmem])).2.2.1 rfl
  | succ k ih =>
    rw [List.replicate_succ, List.cons_append] at hparts
    cases before with
    | nil => exact absurd (List.cons.inj hparts).1.symm hp
    | cons b before => exact ih (List.cons.inj hparts).2

end

/-- The normal text of a path has the normal form. -/
theorem normalForm_normalText (input : CString) : NormalForm (normalText input) := by
  obtain ⟨ups, names, htidy⟩ := joined_tidy input
  have habs : isAbsolute (lexicalForm (isAbsolute input) (joined input)) = isAbsolute input :=
    isAbsolute_lexicalForm htidy.plain
  have hpieces : pieces (lexicalForm (isAbsolute input) (joined input)) =
      if isAbsolute input = false ∧ joined input = [] then [dotName] else joined input :=
    pieces_lexicalForm htidy.plain
  rw [normalText_eq]
  constructor
  · by_cases hdot : isAbsolute input = false ∧ joined input = []
    · left
      rw [hdot.1, hdot.2]
      rfl
    · right
      rw [hpieces, if_neg hdot]
      exact fun p hp => ⟨(htidy.plain p hp).1, (htidy.plain p hp).2.1⟩
  · exact getLast_lexicalForm htidy.plain
  · intro ha
    rw [habs] at ha
    rw [hpieces, if_neg (by simp [ha]), htidy.eq, htidy.ups ha, List.replicate_zero,
      List.nil_append]
    exact fun hmem => (htidy.names _ hmem).2.2.1 rfl
  · intro _ before p after hsplit hp
    rw [hpieces] at hsplit
    split at hsplit
    · cases before with
      | nil =>
        rw [← (List.cons.inj hsplit).2]
        exact List.not_mem_nil
      | cons b before => simp at hsplit
    · rw [htidy.eq] at hsplit
      exact ups_first htidy.names ups hsplit hp

/-- Normalizing a normal text leaves it as it is. -/
theorem normalText_normalText (input : CString) :
    normalText (normalText input) = normalText input := by
  obtain ⟨ups, names, htidy⟩ := joined_tidy input
  rw [normalText_eq input]
  apply normalText_lexicalForm htidy
  intro ha
  rw [joined, ha, if_neg Bool.false_ne_true]
  exact glue_glue (kept input) fun p hp => kept_plain hp

/-- `path_normalize_lexical` never fails on a path that fits: its output is not longer than
the path, or than ".", has the normal form, and is its own normalization. -/
theorem normalization_canonical {input : CString} (h : input.length < PATH_MAX) :
    ∃ text, pathNormalizeLexical (some input) PATH_MAX = some text ∧
      text.length ≤ max input.length 1 ∧ isAbsolute text = isAbsolute input ∧ NormalForm text ∧
      pathNormalizeLexical (some text) PATH_MAX = some text := by
  have hlen := length_normalText_lt h
  have hsame : isAbsolute (normalText input) = isAbsolute input := by
    rw [normalText_eq]
    exact isAbsolute_lexicalForm fun p hp => joined_plain hp
  refine ⟨normalText input, ?_, length_normalText_le input, hsame, normalForm_normalText input, ?_⟩
  · rw [pathNormalizeLexical_eq h, fit, if_pos hlen]
  · rw [pathNormalizeLexical_eq hlen, normalText_normalText, fit, if_pos hlen]

/-- "../a/./b//" -/
def climbing : CString := [dot, dot, slash, 97, slash, dot, slash, 98, slash, slash]

theorem normalization_canonical_climbing :
    ∃ text, pathNormalizeLexical (some climbing) PATH_MAX = some text ∧
      text.length ≤ max climbing.length 1 ∧ isAbsolute text = isAbsolute climbing ∧
      NormalForm text ∧ pathNormalizeLexical (some text) PATH_MAX = some text :=
  normalization_canonical (by decide)

end HookSqfs.Paths
