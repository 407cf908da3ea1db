import HookSqfs.Paths.EntryPaths

/-! What `path_relative_to_root` gives is put under the root again: the round trip between
the paths under a root and their relative paths. -/
namespace HookSqfs.Paths
open Manager Lexical
variable {root path q : CString}

theorem head_entryPath (hroot : root.head? = some slash) (q : CString) :
    (entryPath root q).head? = some slash := by
  rw [entryPath, List.head?_append, hroot, Option.some_or]

/-- A path that does not climb is resolved below the root. -/
theorem resolved_entryPath (hq : NeverClimbs (components q)) :
    resolved (entryPath root q) = resolved root ++ resolved q := by
  rw [resolved, entryPath, components_append, resolve, reduce_append hq]
  rfl

theorem contained_entryPath (hroot : root.head? = some slash) (hq : NeverClimbs (components q)) :
    Contained root (entryPath root q) := by
  refine ⟨head_entryPath hroot q, ?_⟩
  rw [resolved_entryPath hq]
  exact List.prefix_append _ _

theorem below_entryPath (hq : NeverClimbs (components q)) :
    below root (entryPath root q) = [slash].intercalate (resolved q) := by
  rw [below, resolved_entryPath hq, List.drop_left]

/-- The components of joined file names are these names. -/
theorem components_intercalate {ns : List CString} (h : ∀ n ∈ ns, FileName n) (hn : ns ≠ []) :
    components ([slash].intercalate ns) = ns.map .name := by
  rw [components, List.splitOn_intercalate slash (fun n hm => (h n hm).2.2.2) hn]
  apply List.map_congr_left
  intro n hm
  obtain ⟨h1, h2, h3, -⟩ := h n hm
  rw [classify, if_neg (by simp [h1, h2]), if_neg h3]

/-- Joined file names do not climb, and they are what the joined text resolves to. -/
theorem neverClimbs_intercalate {ns : List CString} (h : ∀ n ∈ ns, FileName n) :
    NeverClimbs (components ([slash].intercalate ns)) ∧ resolved ([slash].intercalate ns) = ns := by
  by_cases hn : ns = []
  · subst hn
    decide
  · rw [resolved, components_intercalate h hn, resolve, reduce_names]
    exact ⟨neverClimbs_names ns, rfl⟩

theorem resolved_eq_append (hc : Contained root path) :
    resolved path = resolved root ++ (resolved path).drop (resolved root).length :=
  (List.prefix_iff_eq_append.mp hc.2).symm

/-- The path below the root, put under the root again. -/
theorem resolved_reroot (hc : Contained root path) :
    resolved (entryPath root (below root path)) = resolved path := by
  have hnames : ∀ n ∈ (resolved path).drop (resolved root).length, FileName n := fun n hn =>
    below_name hn
  obtain ⟨hclimbs, hresolved⟩ := neverClimbs_intercalate hnames
  rw [below, resolved_entryPath hclimbs, hresolved]
  exact (resolved_eq_append hc).symm

theorem normalize_absolute (ha : path.head? = some slash) (hp : path.length < PATH_MAX) :
    pathNormalizeLexical (some path) PATH_MAX = some (absoluteForm (resolved path)) := by
  rw [pathNormalizeLexical_eq hp, normalText_absolute ha, fit,
    if_pos (Nat.lt_of_le_of_lt (length_absoluteForm_le ha) hp)]

/-- A root or a path that is too long is under nothing. -/
theorem length_of_accepted {buffer : Option CString} {size : Nat}
    (h : (pathRelativeToRoot (some root) (some path) buffer size).1 = true) :
    root.length < PATH_MAX ∧ path.length < PATH_MAX := by
  have hlong : ∀ s : CString, ¬ s.length < PATH_MAX → pathNormalizeLexical (some s) PATH_MAX = none := by
    intro s hs
    rw [pathNormalizeLexical, if_neg (by decide), if_pos (by omega)]
  constructor
  · by_contra hr
    simp [pathRelativeToRoot, hlong root hr] at h
  · by_contra hp
    simp only [pathRelativeToRoot, hlong path hp] at h
    split at h <;> simp_all

/-- An accepted path lies under the root, and the result is the path below it. -/
theorem accepted (hroot : root.head? = some slash) {buffer relative : CString} {size : Nat}
    (hs : size ≠ 0)
    (h : pathRelativeToRoot (some root) (some path) (some buffer) size = (true, some relative)) :
    root.length < PATH_MAX ∧ path.length < PATH_MAX ∧ Contained root path ∧
      relative = below root path := by
  obtain ⟨hr, hp⟩ := length_of_accepted (congrArg Prod.fst h)
  rw [pathRelativeToRoot_eq hroot hr hp] at h
  split at h
  · rename_i hc
    have hstored := writeRelative_stored (congrArg Prod.fst h) rfl hs
    rw [h] at hstored
    exact ⟨hr, hp, hc, Option.some.inj hstored⟩
  · cases h

/-- Absolute paths have one normal form exactly when they resolve to the same names. -/
theorem normalize_absolute_inj {path' : CString} (ha : path.head? = some slash)
    (ha' : path'.head? = some slash) (hp : path.length < PATH_MAX) (hp' : path'.length < PATH_MAX) :
    pathNormalizeLexical (some path) PATH_MAX = pathNormalizeLexical (some path') PATH_MAX ↔
      resolved path = resolved path' := by
  rw [normalize_absolute ha hp, normalize_absolute ha' hp', Option.some.injEq]
  constructor
  · intro h
    have hdrop := congrArg (List.drop 1) h
    rw [drop_one_absoluteForm, drop_one_absoluteForm] at hdrop
    exact intercalate_injective (fun n hn => FileName.plain (resolved_name hn))
      (fun n hn => FileName.plain (resolved_name hn)) hdrop
  · intro h
    rw [h]

/-- Under one root the path below it determines the names, and they determine it. -/
theorem below_inj {path' : CString} (hc : Contained root path) (hc' : Contained root path') :
    below root path = below root path' ↔ resolved path = resolved path' := by
  constructor
  · intro h
    have hdrop : (resolved path).drop (resolved root).length =
        (resolved path').drop (resolved root).length :=
      intercalate_injective (fun n hn => FileName.plain (below_name hn))
        (fun n hn => FileName.plain (below_name hn)) h
    rw [resolved_eq_append hc, resolved_eq_append hc', hdrop]
  · intro h
    rw [below, below, h]

/-- A path under a root that never climbs comes back as its reduced components. What an
accepted path leaves normalizes, under the root again, to the normal form of that path, and
accepted paths leave the same exactly when they have the same normal form. -/
theorem reroot_round_trip (hroot : root.head? = some slash) :
    (∀ q buffer, (entryPath root q).length < PATH_MAX → NeverClimbs (components q) →
      pathRelativeToRoot (some root) (some (entryPath root q)) (some buffer) PATH_MAX =
        (true, some ([slash].intercalate (reduce (components q)).names))) ∧
    (∀ path buffer size relative, size ≠ 0 →
      pathRelativeToRoot (some root) (some path) (some buffer) size = (true, some relative) →
      (entryPath root relative).length < PATH_MAX →
      ∃ text, pathNormalizeLexical (some path) PATH_MAX = some text ∧
        pathNormalizeLexical (some (entryPath root relative)) PATH_MAX = some text) ∧
    ∀ path buffer size relative path' buffer' size' relative', size ≠ 0 → size' ≠ 0 →
      pathRelativeToRoot (some root) (some path) (some buffer) size = (true, some relative) →
      pathRelativeToRoot (some root) (some path') (some buffer') size' = (true, some relative') →
      (relative = relative' ↔ pathNormalizeLexical (some path) PATH_MAX =
        pathNormalizeLexical (some path') PATH_MAX) := by
  refine ⟨?_, ?_, ?_⟩
  · intro q buffer hlen hq
    have hc := contained_entryPath hroot hq
    have hr : root.length < PATH_MAX := by
      rw [entryPath, List.length_append] at hlen
      omega
    have hb : (below root (entryPath root q)).length < PATH_MAX := length_below_lt hc.1 hlen
    rw [pathRelativeToRoot_eq hroot hr hlen, if_pos hc, writeRelative,
      if_pos ⟨rfl, by decide⟩, if_neg (by omega), below_entryPath hq]
    rfl
  · intro path buffer size relative hs h hlen
    obtain ⟨-, hp, hc, rfl⟩ := accepted hroot hs h
    refine ⟨_, normalize_absolute hc.1 hp, ?_⟩
    rw [normalize_absolute (head_entryPath hroot _) hlen, resolved_reroot hc]
  · intro path buffer size relative path' buffer' size' relative' hs hs' h h'
    obtain ⟨-, hp, hc, rfl⟩ := accepted hroot hs h
    obtain ⟨-, hp', hc', rfl⟩ := accepted hroot hs' h'
    rw [below_inj hc hc', normalize_absolute_inj hc.1 hc'.1 hp hp']

theorem reroot_round_trip_hook :
    pathRelativeToRoot (some [slash, 104]) (some [slash, 104, slash, 97, slash, dot, dot, slash, 98])
        (some []) PATH_MAX = (true, some [98]) ∧
      ∃ text, pathNormalizeLexical (some [slash, 104, slash, 97]) PATH_MAX = some text ∧
        pathNormalizeLexical (some (entryPath [slash, 104] [97])) PATH_MAX = some text := by
  obtain ⟨hround, hback, -⟩ := reroot_round_trip (rfl : ([slash, 104] : CString).head? = some slash)
  constructor
  · exact hround [97, slash, dot, dot, slash, 98] [] (by decide) (by decide)
  · exact hback [slash, 104, slash, 97] [] 2 [97] (by decide) (by decide +kernel) (by decide)

/-- A path that climbs from "/h" to "/a" is not under it. -/
example : pathRelativeToRoot (some [slash, 104]) (some [slash, 104, slash, dot, dot, slash, 97])
    (some []) PATH_MAX = (false, some []) := by
  decide +kernel

end HookSqfs.Paths
