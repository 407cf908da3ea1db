import HookSqfs.Paths.CanonicalForm
import HookSqfs.Paths.Containment

/-! The path of an entry in a directory: how it normalizes, and what is left of it
below a root when the directory's own path lies there. -/
namespace HookSqfs.Paths
open Manager Lexical

/-- The name of a file: one component that stands for itself. -/
def FileName (n : CString) : Prop := n ≠ [] ∧ n ≠ dotName ∧ n ≠ dotdotName ∧ slash ∉ n

theorem FileName.plain {n : CString} (h : FileName n) : Plain n := ⟨h.1, h.2.1, h.2.2.2⟩

/-- The path of the entry `n` in the directory `dir`. -/
def entryPath (dir n : CString) : CString := dir ++ slash :: n

/-- The entry `n` below the directory with the relative path `relative`. -/
def joinPath (relative n : CString) : CString := if relative = [] then n else entryPath relative n

/-- A file name is one token, and the last component of an entry's path. -/
private theorem components_entryPath (dir : CString) {n : CString} (h : FileName n) :
    components (entryPath dir n) = components dir ++ [.name n] := by
  have hn : n.splitOn slash = [n] := by
    have hi : ([slash].intercalate [n]).splitOn slash = [n] :=
      List.splitOn_intercalate slash (by simpa using h.2.2.2) (by simp)
    rwa [List.intercalate_singleton] at hi
  have hc : classify n = .name n := by
    rw [classify, if_neg (by simp [h.1, h.2.1]), if_neg h.2.2.1]
  have hone : components n = [.name n] := by
    rw [components, hn, List.map_cons, List.map_nil, hc]
  rw [entryPath, components_append, hone]

theorem kept_entryPath {dir n : CString} (hd : dir ≠ []) (h : FileName n) :
    isAbsolute (entryPath dir n) = isAbsolute dir ∧ kept (entryPath dir n) = kept dir ++ [n] := by
  have ha : isAbsolute (entryPath dir n) = isAbsolute dir := by
    obtain ⟨c, cs, rfl⟩ := List.exists_cons_of_ne_nil hd
    rfl
  refine ⟨ha, ?_⟩
  rw [kept, ha, components_entryPath dir h, reduce_append_singleton, kept]
  simp [Reduced.push]

private theorem intercalate_append {parts : List CString} (h : parts ≠ []) (n : CString) :
    [slash].intercalate (parts ++ [n]) = [slash].intercalate parts ++ slash :: n := by
  obtain ⟨c, cs, rfl⟩ := List.exists_cons_of_ne_nil h
  rw [List.cons_append, intercalate_cons, intercalate_cons, render_append]
  simp [render_cons]

/-- A joined text does not end in a slash. -/
theorem getLast_intercalate {parts : List CString} (h : ∀ p ∈ parts, Plain p)
    (hn : parts ≠ []) : ([slash].intercalate parts).getLast? ≠ some slash := by
  have hr := getLast_render (fun p hp => (h p hp).1) (fun p hp => (h p hp).2.2)
  obtain ⟨c, cs, rfl⟩ := List.exists_cons_of_ne_nil hn
  have hc := (h c List.mem_cons_self).1
  obtain ⟨x, xs, rfl⟩ := List.exists_cons_of_ne_nil hc
  rw [render_cons] at hr
  rw [intercalate_cons]
  rwa [List.cons_append, List.getLast?_cons_cons] at hr

/-- The normal text of an entry's path, by that of its directory's: most often the
name is put behind a slash. -/
inductive EntryText (text text' n : CString) : Prop where
  | below (last : text.getLast? ≠ some slash) (eq : text' = entryPath text n)
  | top (dir : text = [slash]) (eq : text' = slash :: n)
  | here (dir : text = dotName) (eq : text' = n ∨ text' = slash :: n)
  | glued (x : Byte) (ne : x ≠ slash) (dir : text = [x]) (eq : text' = x :: n)

private theorem entryText_absolute {parts : List CString} (h : ∀ p ∈ parts, Plain p) (n : CString) :
    EntryText (lexicalForm true parts) (lexicalForm true (parts ++ [n])) n := by
  rw [lexicalForm, if_pos rfl, lexicalForm, if_pos rfl]
  by_cases hp : parts = []
  · subst hp
    exact .top rfl (by simp)
  · refine .below ?_ ?_
    · rw [← render_eq_intercalate hp]
      exact getLast_render (fun p hm => (h p hm).1) (fun p hm => (h p hm).2.2)
    · rw [intercalate_append hp]
      rfl

private theorem entryText_relative {parts : List CString} (h : ∀ p ∈ parts, Plain p)
    (n : CString) :
    EntryText (lexicalForm false (glue parts)) (lexicalForm false (glue (parts ++ [n]))) n := by
  have hg := glue_plain h
  rcases parts with _ | ⟨c, _ | ⟨d, rest⟩⟩
  · exact .here rfl (.inl (by simp [lexicalForm, glue]))
  · by_cases h1 : c.length = 1
    · obtain ⟨x, rfl⟩ := List.length_eq_one_iff.mp h1
      have hx := (h [x] List.mem_cons_self).2.2
      refine .glued x (fun he => hx (by simp [he])) (by simp [lexicalForm, glue]) ?_
      simp [lexicalForm, glue]
    · refine .below ?_ ?_
      · rw [lexicalForm, if_neg (by simp), if_neg (by simp [glue])]
        exact getLast_intercalate hg (by simp [glue])
      · simp [lexicalForm, glue, h1, entryPath]
  · have he : glue (c :: d :: rest ++ [n]) = glue (c :: d :: rest) ++ [n] := by
      simp only [List.cons_append, glue]
      split <;> rfl
    have hne : glue (c :: d :: rest) ≠ [] := by
      rw [glue]
      split <;> simp
    rw [he, lexicalForm, if_neg (by simp), if_neg hne, lexicalForm, if_neg (by simp),
      if_neg (by simp)]
    exact .below (getLast_intercalate hg hne) (intercalate_append hne n)

theorem normalText_entryPath (dir : CString) {n : CString} (h : FileName n) :
    EntryText (normalText dir) (normalText (entryPath dir n)) n := by
  by_cases hd : dir = []
  · subst hd
    have hk : kept (entryPath [] n) = [n] := by
      rw [kept, components_entryPath [] h, reduce_append_singleton]
      rfl
    refine .here rfl (.inr ?_)
    rw [normalText_eq, joined, hk]
    simp [isAbsolute, entryPath, lexicalForm]
  · obtain ⟨ha, hk⟩ := kept_entryPath hd h
    rw [normalText_eq, normalText_eq, joined, joined, ha, hk]
    cases isAbsolute dir with
    | true => exact entryText_absolute (fun p hp => kept_plain hp) n
    | false => exact entryText_relative (fun p hp => kept_plain hp) n

/-- What `path_relative_to_root` leaves of the normal text of a path. -/
def relativeOf (root path : CString) : Option CString :=
  let rootLen := stripTrailing root root.length
  if rootLen = 1 ∧ root.head? = some slash then
    if path.head? ≠ some slash then none else some (path.drop 1)
  else if path.length < rootLen ∨ path.take rootLen ≠ root.take rootLen then none
  else if path.length = rootLen then some []
  else if path[rootLen]? ≠ some slash then none
  else some (path.drop (rootLen + 1))

private theorem normalize_some {input text : CString}
    (h : pathNormalizeLexical (some input) PATH_MAX = some text) : text = normalText input := by
  by_cases hl : input.length < PATH_MAX
  · rw [pathNormalizeLexical_eq hl, fit] at h
    split at h
    · exact (Option.some.inj h).symm
    · cases h
  · rw [pathNormalizeLexical, if_neg (by decide), if_pos (by omega)] at h
    cases h

/-- The answer of `path_relative_to_root` with a buffer of `PATH_MAX` bytes. -/
private def answerOf : Option CString → Bool × Option CString
  | none => (false, some [])
  | some relative => writeRelative relative (some []) PATH_MAX

private theorem answerOf_ok {r : Option CString} (h : (answerOf r).1 = true) :
    ∃ relative, r = some relative ∧ (answerOf r).2 = some relative := by
  cases r with
  | none => cases h
  | some relative =>
    refine ⟨relative, rfl, ?_⟩
    rw [answerOf, writeRelative, if_pos ⟨rfl, by decide⟩] at h ⊢
    split at h
    · cases h
    · rename_i hlen
      rw [if_neg hlen]

/-- A path that is accepted leaves what `relativeOf` says. -/
theorem relativeOf_of_accepted {root path : CString}
    (h : (pathRelativeToRoot (some root) (some path) (some []) PATH_MAX).1 = true) :
    ∃ relative, relativeOf (normalText root) (normalText path) = some relative ∧
      (pathRelativeToRoot (some root) (some path) (some []) PATH_MAX).2 = some relative := by
  cases hR : pathNormalizeLexical (some root) PATH_MAX with
  | none =>
    simp only [pathRelativeToRoot, hR] at h
    cases h
  | some R =>
    cases hP : pathNormalizeLexical (some path) PATH_MAX with
    | none =>
      simp only [pathRelativeToRoot, hR, hP] at h
      cases h
    | some P =>
      have he : pathRelativeToRoot (some root) (some path) (some []) PATH_MAX =
          answerOf (relativeOf R P) := by
        simp only [pathRelativeToRoot, hR, hP]
        unfold relativeOf
        dsimp only
        split_ifs <;> rfl
      rw [he] at h ⊢
      rw [← normalize_some hR, ← normalize_some hP]
      exact answerOf_ok h

private theorem stripTrailing_pos (s : CString) {n : Nat} (h : 0 < n) : 0 < stripTrailing s n := by
  induction n with
  | zero => exact h
  | succ n ih =>
    rw [stripTrailing]
    split
    · rename_i hs
      exact ih (by omega)
    · exact h

/-- What accepts a path accepts the name behind it as the rest of the relative path. -/
private theorem relativeOf_below {root text relative : CString} (n : CString)
    (h : relativeOf root text = some relative) (hlast : text.getLast? ≠ some slash) :
    relativeOf root (entryPath text n) = some (joinPath relative n) := by
  unfold relativeOf entryPath at *
  dsimp only at h ⊢
  generalize stripTrailing root root.length = k at h ⊢
  split at h
  · rename_i hk
    rw [if_pos hk]
    split at h
    · cases h
    · rename_i hhead
      cases h
      cases text with
      | nil => simp at hhead
      | cons c t =>
        have ht : t ≠ [] := by
          rintro rfl
          exact hlast (Decidable.not_not.mp hhead)
        rw [if_neg (by simpa using hhead), joinPath, List.drop_succ_cons, List.drop_zero, if_neg ht]
        rfl
  · rename_i hk
    rw [if_neg hk]
    split at h
    · cases h
    · rename_i hpre
      rw [not_or, Nat.not_lt, Decidable.not_not] at hpre
      have hlen : ¬ (text ++ slash :: n).length = k ∧ ¬ (text ++ slash :: n).length < k := by
        rw [List.length_append, List.length_cons]
        omega
      have htake : (text ++ slash :: n).take k = root.take k :=
        (List.take_append_of_le_length hpre.1).trans hpre.2
      rw [if_neg (not_or.mpr ⟨hlen.2, Decidable.not_not.mpr htake⟩), if_neg hlen.1]
      split at h
      · rename_i he
        cases h
        rw [← he, List.getElem?_append_right (Nat.le_refl _), Nat.sub_self, if_neg (by simp),
          joinPath, if_pos rfl]
        simp
      · rename_i he
        have hlt : k < text.length := by omega
        rw [List.getElem?_append_left hlt]
        split at h
        · cases h
        · rename_i hs
          cases h
          have hne : text.drop (k + 1) ≠ [] := by
            intro hd
            rw [List.drop_eq_nil_iff] at hd
            apply hlast
            rw [List.getLast?_eq_getElem?, show text.length - 1 = k by omega]
            exact Decidable.not_not.mp hs
          rw [if_neg hs, joinPath, if_neg hne, List.drop_append_of_le_length hlt]
          rfl

/-- A root that accepts a single character other than the slash accepts nothing that
begins otherwise, and nothing longer without a slash behind it. -/
private theorem relativeOf_single {root text relative : CString} {x : Byte} (hroot : root ≠ [])
    (hx : x ≠ slash) (h : relativeOf root [x] = some relative) (hne : text ≠ [x])
    (hs : text.head? = some x → text[1]? ≠ some slash) : relativeOf root text = none := by
  have hpos := stripTrailing_pos root (List.length_pos_iff.mpr hroot)
  unfold relativeOf at *
  dsimp only at h ⊢
  generalize stripTrailing root root.length = k at h hpos ⊢
  split at h
  · rw [if_pos (by simpa using hx)] at h
    cases h
  · rename_i hk
    rw [if_neg hk]
    split at h
    · cases h
    · rename_i hpre
      rw [not_or, Nat.not_lt, Decidable.not_not] at hpre
      have h1 : k = 1 := Nat.le_antisymm hpre.1 hpos
      subst h1
      cases text with
      | nil => exact if_pos (.inl Nat.one_pos)
      | cons c t =>
        by_cases hc : c = x
        · subst hc
          have ht : ¬ (c :: t).length = 1 := by
            intro hlen
            apply hne
            rw [List.length_cons, Nat.add_eq_right, List.length_eq_zero_iff] at hlen
            rw [hlen]
          split
          · rfl
          · exact if_pos (hs rfl)
        · refine if_pos (.inr ?_)
          rw [← hpre.2]
          simpa using hc

/-- A root that accepts "/" is "/" itself. -/
private theorem relativeOf_top {root relative : CString} (n : CString) (hroot : root ≠ [])
    (h : relativeOf root [slash] = some relative) :
    relativeOf root (slash :: n) = some (joinPath relative n) := by
  have hpos := stripTrailing_pos root (List.length_pos_iff.mpr hroot)
  unfold relativeOf at *
  dsimp only at h ⊢
  generalize stripTrailing root root.length = k at h hpos ⊢
  split at h
  · rename_i hk
    rw [if_neg (by simp)] at h
    cases h
    rw [if_pos hk, if_neg (by simp)]
    rfl
  · rename_i hk
    split at h
    · cases h
    · rename_i hpre
      rw [not_or, Nat.not_lt, Decidable.not_not] at hpre
      have h1 : k = 1 := Nat.le_antisymm hpre.1 hpos
      subst h1
      refine absurd ⟨rfl, ?_⟩ hk
      obtain ⟨c, cs, rfl⟩ := List.exists_cons_of_ne_nil hroot
      have hc := hpre.2
      simp only [List.take_succ_cons, List.take_zero, List.cons.injEq] at hc
      rw [← hc.1]
      rfl

private theorem normalText_ne_nil (path : CString) : normalText path ≠ [] := by
  rw [normalText_eq, lexicalForm]
  split
  · simp
  · split
    · decide
    · rename_i hj
      obtain ⟨c, cs, hc⟩ := List.exists_cons_of_ne_nil hj
      have hcn := (joined_plain (hc ▸ List.mem_cons_self : c ∈ joined path)).1
      rw [hc, intercalate_cons]
      simp [hcn]

/-- Where a directory's path is accepted, so is no entry's path but as the directory's
relative path with the name behind it. -/
theorem relativeOf_entryPath {root dir relative relative' n : CString} (hn : FileName n)
    (h : relativeOf (normalText root) (normalText dir) = some relative)
    (h' : relativeOf (normalText root) (normalText (entryPath dir n)) = some relative') :
    relative' = joinPath relative n := by
  have hroot := normalText_ne_nil root
  rcases normalText_entryPath dir hn with ⟨hlast, he⟩ | ⟨hd, he⟩ | ⟨hd, he⟩ | ⟨x, hx, hd, he⟩
  · rw [he, relativeOf_below n h hlast] at h'
    exact (Option.some.inj h').symm
  · rw [hd] at h
    rw [he, relativeOf_top n hroot h] at h'
    exact (Option.some.inj h').symm
  · rw [hd] at h
    have hnone : relativeOf (normalText root) (normalText (entryPath dir n)) = none := by
      apply relativeOf_single hroot (by decide) h
      · rcases he with he | he
        · rw [he]
          exact hn.2.1
        · rw [he]
          exact fun hs => absurd (List.cons.inj hs).1 (by decide)
      · intro hhead hs
        rcases he with he | he
        · rw [he] at hs
          exact hn.2.2.2 (List.mem_of_getElem? hs)
        · rw [he, List.head?_cons] at hhead
          exact absurd (Option.some.inj hhead) (by decide)
    rw [hnone] at h'
    cases h'
  · rw [hd] at h
    have hnone : relativeOf (normalText root) (normalText (entryPath dir n)) = none := by
      apply relativeOf_single hroot hx h
      · rw [he]
        simpa using hn.1
      · rw [he]
        rintro - hs
        exact hn.2.2.2 (List.mem_of_getElem? hs)
    rw [hnone] at h'
    cases h'

end HookSqfs.Paths
