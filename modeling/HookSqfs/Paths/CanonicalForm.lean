import HookSqfs.Paths.Normalization

/-! What `path_normalize_lexical` stores against the canonical lexical form of its
input. The rebuild loop decides about a separator from the length of the text so far,
so a first component of one character is joined to the second one. -/
namespace HookSqfs.Paths
open Manager Lexical

def isAbsolute (input : CString) : Bool := input.head? = some slash

/-- The components the left-to-right reduction keeps; a ".." with nothing to cancel
is kept when the path is relative. -/
def kept (input : CString) : List CString :=
  let r := reduce (components input)
  List.replicate (if isAbsolute input then 0 else r.ups) dotdotName ++ r.names

/-- A leading slash iff the path is absolute, then the components joined by single
slashes; "." for a relative path without any. -/
def lexicalForm (absolute : Bool) (parts : List CString) : CString :=
  if absolute then slash :: [slash].intercalate parts
  else if parts = [] then dotName
  else [slash].intercalate parts

/-- The canonical lexical form of a path. -/
def canonical (input : CString) : CString := lexicalForm (isAbsolute input) (kept input)

/-- A relative path whose first of several components is one character long. -/
def FirstGlued (input : CString) : Prop :=
  isAbsolute input = false ∧ ∃ c d rest, kept input = c :: d :: rest ∧ c.length = 1

/-- `b` is a relative path whose first component is the first two of `a`, the first
of them one character long. -/
def GluesTo (a b : CString) : Prop :=
  isAbsolute a = false ∧ isAbsolute b = false ∧
    ∃ c d rest, kept a = c :: d :: rest ∧ c.length = 1 ∧ kept b = (c ++ d) :: rest

/-- A component is not empty, is not "." and has no slash in it. -/
def Plain (p : CString) : Prop := p ≠ [] ∧ p ≠ dotName ∧ slash ∉ p

theorem intercalate_cons (c : CString) (rest : List CString) :
    [slash].intercalate (c :: rest) = c ++ render slash rest := by
  have h : render slash (c :: rest) = slash :: [slash].intercalate (c :: rest) :=
    render_eq_intercalate (List.cons_ne_nil c rest)
  rw [render_cons] at h
  exact (List.cons.inj h).2.symm

theorem intercalate_injective {ps qs : List CString} (hp : ∀ p ∈ ps, Plain p)
    (hq : ∀ q ∈ qs, Plain q) (h : [slash].intercalate ps = [slash].intercalate qs) : ps = qs := by
  have hnil {qs : List CString} (hq : ∀ q ∈ qs, Plain q) (h : [] = [slash].intercalate qs) :
      qs = [] := by
    cases qs with
    | nil => rfl
    | cons q qs =>
      rw [intercalate_cons] at h
      exact absurd (List.append_eq_nil_iff.mp h.symm).1 (hq q List.mem_cons_self).1
  by_cases h1 : ps = []
  · subst h1
    exact (hnil hq h).symm
  by_cases h2 : qs = []
  · subst h2
    exact hnil hp h.symm
  rw [← List.splitOn_intercalate slash (fun p hm => (hp p hm).2.2) h1, h,
    List.splitOn_intercalate slash (fun q hm => (hq q hm).2.2) h2]

/-- The text of joined components is not "." and does not begin with a slash. -/
theorem intercalate_ne {parts : List CString} (h : ∀ p ∈ parts, Plain p) :
    [slash].intercalate parts ≠ dotName ∧ ([slash].intercalate parts).head? ≠ some slash := by
  constructor
  · intro he
    by_cases hn : parts = []
    · rw [hn] at he
      cases he
    · have hs := List.splitOn_intercalate slash (fun p hm => (h p hm).2.2) hn
      rw [he] at hs
      exact (h dotName (hs ▸ List.mem_cons_self)).2.1 rfl
  · cases parts with
    | nil => simp
    | cons c rest =>
      have hc := h c List.mem_cons_self
      obtain ⟨x, xs, rfl⟩ := List.exists_cons_of_ne_nil hc.1
      rw [intercalate_cons]
      intro he
      apply hc.2.2
      rw [Option.some.inj he]
      exact List.mem_cons_self

/-- The form of a path determines whether it is absolute and its components. -/
theorem lexicalForm_injective {a b : Bool} {ps qs : List CString} (hp : ∀ p ∈ ps, Plain p)
    (hq : ∀ q ∈ qs, Plain q) : lexicalForm a ps = lexicalForm b qs ↔ a = b ∧ ps = qs := by
  have hrel {parts : List CString} (h : ∀ p ∈ parts, Plain p) :
      (lexicalForm false parts).head? ≠ some slash := by
    rw [lexicalForm, if_neg (by simp)]
    split
    · decide
    · exact (intercalate_ne h).2
  have hmixed {ps qs : List CString} (h : ∀ q ∈ qs, Plain q) :
      lexicalForm true ps ≠ lexicalForm false qs := by
    intro he
    apply hrel h
    rw [← he]
    rfl
  constructor
  · intro h
    cases a with
    | true =>
      cases b with
      | true => exact ⟨rfl, intercalate_injective hp hq (List.cons.inj h).2⟩
      | false => exact absurd h (hmixed hq)
    | false =>
      cases b with
      | true => exact absurd h.symm (hmixed hp)
      | false =>
        refine ⟨rfl, ?_⟩
        simp only [lexicalForm, Bool.false_eq_true, if_false] at h
        split at h
        · split at h
          · simp_all
          · exact absurd h.symm (intercalate_ne hq).1
        · split at h
          · exact absurd h (intercalate_ne hp).1
          · exact intercalate_injective hp hq h
  · rintro ⟨rfl, rfl⟩
    rfl

/-- The components as the rebuild loop joins them when the path is relative. -/
def glue : List CString → List CString
  | c :: d :: rest => if c.length = 1 then (c ++ d) :: rest else c :: d :: rest
  | parts => parts

/-- The rebuild loop on a relative path. -/
private theorem rebuildText_relative {parts : List CString} (h : ∀ p ∈ parts, p ≠ []) :
    rebuildText false 0 parts [] = [slash].intercalate (glue parts) := by
  rcases parts with _ | ⟨c, _ | ⟨d, rest⟩⟩
  · rfl
  · rw [rebuildText, if_neg (by simp), rebuildText, glue, intercalate_cons]
    · simp
    · simp
  · have hc : 0 < c.length := List.length_pos_iff.mpr (h c List.mem_cons_self)
    have hd : 0 < d.length :=
      List.length_pos_iff.mpr (h d (List.mem_cons_of_mem _ List.mem_cons_self))
    rw [rebuildText, if_neg (by simp), List.nil_append, glue]
    by_cases h1 : c.length = 1
    · have hlen : 1 < (c ++ d).length := by
        rw [List.length_append]
        omega
      rw [rebuildText, if_neg (by omega), rebuildText_render _ (.inl (by omega)) hlen, if_pos h1,
        intercalate_cons]
    · rw [rebuildText_render _ (.inl Nat.one_pos) (by omega), if_neg h1, intercalate_cons]

theorem kept_plain {input p : CString} (h : p ∈ kept input) : Plain p := by
  rcases List.mem_append.mp h with h | h
  · rw [(List.mem_replicate.mp h).2]
    exact ⟨by decide, by decide, by decide⟩
  · have hn := resolved_name (show p ∈ resolved input from h)
    exact ⟨hn.1, hn.2.1, hn.2.2.2⟩

private theorem kept_eq_reverse (input : CString) :
    kept input = (stackOf (isAbsolute input) (reduce (components input))).reverse := by
  cases h : isAbsolute input with
  | true => simp [kept, stackOf, h]
  | false => simp [kept, stackOf, h]

private theorem append_plain {c d : CString} (hc : Plain c) (hd : Plain d) : Plain (c ++ d) := by
  have h1 := List.length_pos_iff.mpr hc.1
  have h2 := List.length_pos_iff.mpr hd.1
  refine ⟨?_, ?_, ?_⟩
  · simp [hc.1]
  · intro he
    have hlen := congrArg List.length he
    rw [List.length_append] at hlen
    change _ = 1 at hlen
    omega
  · rw [List.mem_append]
    rintro (h | h)
    · exact hc.2.2 h
    · exact hd.2.2 h

theorem glue_plain {parts : List CString} (h : ∀ p ∈ parts, Plain p) :
    ∀ p ∈ glue parts, Plain p := by
  rcases parts with _ | ⟨c, _ | ⟨d, rest⟩⟩
  · exact h
  · exact h
  · rw [glue]
    split
    · intro p hp
      rcases List.mem_cons.mp hp with rfl | hp
      · exact append_plain (h c (by simp)) (h d (by simp))
      · exact h p (by simp [hp])
    · exact h

/-- The components that the text of a path joins. -/
def joined (input : CString) : List CString :=
  if isAbsolute input then kept input else glue (kept input)

theorem joined_plain {input p : CString} (h : p ∈ joined input) : Plain p := by
  unfold joined at h
  split at h
  · exact kept_plain h
  · exact glue_plain (fun p hp => kept_plain hp) p h

/-- The normal text of a path is the lexical form of what is joined. -/
theorem normalText_eq (input : CString) :
    normalText input = lexicalForm (isAbsolute input) (joined input) := by
  cases h : isAbsolute input with
  | true =>
    have hk : kept input = resolved input := by simp [kept, h, resolved, resolve]
    rw [normalText_absolute (of_decide_eq_true h), joined, if_pos h, hk, absoluteForm,
      lexicalForm, if_pos rfl]
    split
    · rename_i hr
      rw [hr]
      rfl
    · exact render_eq_intercalate (by assumption)
  | false =>
    have hd : decide (input.head? = some slash) = false := h
    have hk := kept_eq_reverse input
    rw [h] at hk
    simp only [normalText, hd, Bool.false_eq_true, if_false, ← hk, joined, h, lexicalForm]
    rw [rebuildText_relative (fun p hp => (kept_plain hp).1)]
    have hg := glue_plain (fun p (hp : p ∈ kept input) => kept_plain hp)
    by_cases hn : glue (kept input) = []
    · rw [hn]
      rfl
    · rw [if_neg hn, if_neg]
      intro he
      exact hn (intercalate_injective hg (by simp) he)

private theorem length_glue_le (parts : List CString) :
    ([slash].intercalate (glue parts)).length ≤ (render slash parts).length - 1 := by
  rcases parts with _ | ⟨c, _ | ⟨d, rest⟩⟩
  · exact Nat.zero_le _
  · rw [glue, intercalate_cons, render_cons]
    · simp
    · simp
  · rw [glue]
    split
    · rw [intercalate_cons]
      simp only [render_cons, List.length_append, List.length_cons]
      omega
    · rw [intercalate_cons]
      simp [render_cons]

/-- The kept components of a relative path take no more room than the path. -/
private theorem length_render_kept {input : CString} (h : isAbsolute input = false) :
    (render slash (kept input)).length ≤ input.length + 1 := by
  have hc := cost_reduce_le nameCost 3 (components input)
  have hs := cost_components_le input
  have hups (n : Nat) : (render slash (List.replicate n dotdotName)).length = 3 * n := by
    induction n with
    | zero => rfl
    | succ n ih =>
      rw [List.replicate_succ, render_cons, List.length_cons, List.length_append, ih]
      change 2 + 3 * n + 1 = _
      omega
  have hnames : (render slash (reduce (components input)).names).length =
      ((reduce (components input)).names.map nameCost).sum := length_render _
  simp only [kept, h, Bool.false_eq_true, if_false]
  rw [render_append, List.length_append, hups, hnames]
  rw [Reduced.cost] at hc
  omega

/-- Normalization makes no path longer, the empty one apart. -/
theorem length_normalText_le (input : CString) :
    (normalText input).length ≤ max input.length 1 := by
  cases ha : isAbsolute input with
  | true =>
    rw [normalText_absolute (of_decide_eq_true ha)]
    exact le_max_of_le_left (length_absoluteForm_le (of_decide_eq_true ha))
  | false =>
    have hg := length_glue_le (kept input)
    have hk := length_render_kept ha
    simp only [normalText_eq, joined, ha, lexicalForm, Bool.false_eq_true, if_false]
    split
    · exact Nat.le_max_right _ _
    · omega

theorem length_normalText_lt {input : CString} (h : input.length < PATH_MAX) :
    (normalText input).length < PATH_MAX :=
  Nat.lt_of_le_of_lt (length_normalText_le input) (max_lt h (by decide))

/-- A path is joined as it is kept unless its first component is glued. -/
private theorem joined_eq_kept {input : CString} (h : ¬ FirstGlued input) :
    joined input = kept input := by
  unfold joined
  split
  · rfl
  · rename_i ha
    rcases hk : kept input with _ | ⟨c, _ | ⟨d, rest⟩⟩
    · rfl
    · rfl
    · rw [glue, if_neg]
      intro h1
      exact h ⟨Bool.eq_false_iff.mpr ha, c, d, rest, hk, h1⟩

private theorem joined_glued {input c d : CString} {rest : List CString}
    (ha : isAbsolute input = false) (hk : kept input = c :: d :: rest) (h1 : c.length = 1) :
    joined input = (c ++ d) :: rest := by
  rw [joined, ha, hk]
  simp [glue, h1]

/-- The glued text is one slash shorter than the canonical form. -/
private theorem length_canonical_glued {input : CString} (h : FirstGlued input) :
    (canonical input).length = (normalText input).length + 1 := by
  obtain ⟨ha, c, d, rest, hk, h1⟩ := h
  rw [normalText_eq, joined_glued ha hk h1, canonical, hk, ha]
  simp only [lexicalForm, Bool.false_eq_true, if_false, if_neg (List.cons_ne_nil _ _),
    intercalate_cons, render_cons, List.length_append, List.length_cons]
  omega

/-- The output is the canonical form exactly when no component is glued, or when there
is no room for the form. -/
private theorem canonical_iff {input : CString} (h : input.length < PATH_MAX) (outSize : Nat) :
    pathNormalizeLexical (some input) outSize = fit outSize (canonical input) ↔
      ¬ FirstGlued input ∨ outSize < (canonical input).length := by
  rw [pathNormalizeLexical_eq h]
  by_cases hg : FirstGlued input
  · have hlen := length_canonical_glued hg
    constructor
    · intro he
      right
      by_contra hlt
      rw [fit, if_pos (by omega)] at he
      unfold fit at he
      split at he
      · rw [← Option.some.inj he] at hlen
        omega
      · cases he
    · rintro (hn | hlt)
      · exact absurd hg hn
      · rw [fit, if_neg (by omega), fit, if_neg (by omega)]
  · have he : normalText input = canonical input := by
      rw [normalText_eq, joined_eq_kept hg]
      rfl
    rw [he]
    exact iff_of_true rfl (.inl hg)

/-- Paths compare equal exactly when their texts join the same components. -/
private theorem equals_iff_joined {a b : CString} (ha : a.length < PATH_MAX)
    (hb : b.length < PATH_MAX) : pathEqualsNormalized (some a) (some b) = true ↔
      isAbsolute a = isAbsolute b ∧ joined a = joined b := by
  rw [← lexicalForm_injective (fun p hp => joined_plain hp) (fun p hp => joined_plain hp),
    ← normalText_eq, ← normalText_eq]
  simp only [pathEqualsNormalized, pathNormalizeLexical_eq ha, pathNormalizeLexical_eq hb, fit,
    if_pos (length_normalText_lt ha), if_pos (length_normalText_lt hb), decide_eq_true_eq]

/-- A path is compared as equal to the one its first component is glued to. -/
private theorem joined_of_gluesTo {a b : CString} (h : GluesTo a b) :
    joined a = joined b ∧ kept a ≠ kept b := by
  obtain ⟨ha, hb, c, d, rest, hka, h1, hkb⟩ := h
  have hd : 0 < d.length := by
    apply List.length_pos_iff.mpr
    exact (kept_plain (hka ▸ List.mem_cons_of_mem c List.mem_cons_self)).1
  have hng : ¬ FirstGlued b := by
    rintro ⟨_, c', d', rest', hk, h1'⟩
    rw [hkb] at hk
    rw [← (List.cons.inj hk).1, List.length_append] at h1'
    omega
  constructor
  · rw [joined_glued ha hka h1, joined_eq_kept hng, hkb]
  · intro he
    have hlen := congrArg List.length he
    rw [hka, hkb] at hlen
    simp at hlen

private theorem kept_of_joined {a b : CString} (habs : isAbsolute a = isAbsolute b)
    (h : joined a = joined b) (hab : ¬ GluesTo a b) (hba : ¬ GluesTo b a) : kept a = kept b := by
  by_cases hga : FirstGlued a
  · obtain ⟨ha, c, d, rest, hka, h1⟩ := hga
    rw [joined_glued ha hka h1] at h
    by_cases hgb : FirstGlued b
    · obtain ⟨hb, c', d', rest', hkb, h1'⟩ := hgb
      rw [joined_glued hb hkb h1'] at h
      obtain ⟨hcd, hrest⟩ := List.cons.inj h
      obtain ⟨hc, hd⟩ := List.append_inj hcd (h1.trans h1'.symm)
      rw [hka, hkb, hc, hd, hrest]
    · rw [joined_eq_kept hgb] at h
      exact absurd ⟨ha, habs ▸ ha, c, d, rest, hka, h1, h.symm⟩ hab
  · rw [joined_eq_kept hga] at h
    by_cases hgb : FirstGlued b
    · obtain ⟨hb, c, d, rest, hkb, h1⟩ := hgb
      rw [joined_glued hb hkb h1] at h
      exact absurd ⟨hb, habs.trans hb, c, d, rest, hkb, h1, h⟩ hba
    · rwa [joined_eq_kept hgb] at h

/-- `path_normalize_lexical` stores the canonical form, when it fits, exactly for the
paths whose first component is not glued to the second one, and
`path_equals_normalized` compares absoluteness and components exactly for the paths of
which neither glues to the other. -/
theorem normalization_exact_iff {input a b : CString} (hi : input.length < PATH_MAX)
    (ha : a.length < PATH_MAX) (hb : b.length < PATH_MAX) (outSize : Nat) :
    (pathNormalizeLexical (some input) outSize = fit outSize (canonical input) ↔
      ¬ FirstGlued input ∨ outSize < (canonical input).length) ∧
    ((pathEqualsNormalized (some a) (some b) = true ↔
        isAbsolute a = isAbsolute b ∧ kept a = kept b) ↔
      ¬ GluesTo a b ∧ ¬ GluesTo b a) := by
  refine ⟨canonical_iff hi outSize, ?_⟩
  rw [equals_iff_joined ha hb]
  constructor
  · intro h
    constructor
    · intro hg
      have hj := joined_of_gluesTo hg
      exact hj.2 (h.mp ⟨hg.1.trans hg.2.1.symm, hj.1⟩).2
    · intro hg
      have hj := joined_of_gluesTo hg
      exact hj.2 (h.mp ⟨hg.2.1.trans hg.1.symm, hj.1.symm⟩).2.symm
  · rintro ⟨hab, hba⟩
    constructor
    · rintro ⟨habs, hj⟩
      exact ⟨habs, kept_of_joined habs hj hab hba⟩
    · rintro ⟨habs, hk⟩
      exact ⟨habs, by rw [joined, joined, habs, hk]⟩

/-- The relative path "a/b", as in a file name under the working directory. -/
def slashed : CString := [0x61, 0x2f, 0x62]

/-- The path "ab" without a slash. -/
def unslashed : CString := [0x61, 0x62]

theorem normalization_exact_iff_slashed :
    (pathNormalizeLexical (some slashed) 4096 = fit 4096 (canonical slashed) ↔
      ¬ FirstGlued slashed ∨ 4096 < (canonical slashed).length) ∧
    ((pathEqualsNormalized (some slashed) (some unslashed) = true ↔
        isAbsolute slashed = isAbsolute unslashed ∧ kept slashed = kept unslashed) ↔
      ¬ GluesTo slashed unslashed ∧ ¬ GluesTo unslashed slashed) :=
  normalization_exact_iff (by decide) (by decide) (by decide) 4096

/-- The separator of "a/b" is lost: the result is "ab", and the two compare equal. -/
theorem separator_lost :
    canonical slashed = slashed ∧ pathNormalizeLexical (some slashed) 4096 = some unslashed ∧
      pathEqualsNormalized (some slashed) (some unslashed) = true ∧
      kept slashed ≠ kept unslashed := by
  decide +kernel

end HookSqfs.Paths
