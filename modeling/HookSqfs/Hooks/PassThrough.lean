import HookSqfs.Hooks.DirOutcomes
import HookSqfs.Hooks.OpenOutcomes
import HookSqfs.Hooks.PathOutcomes

/-! The path hooks where the lower layer has nothing to give. -/
namespace HookSqfs.Hooks
open Manager Interaction
variable (o : Oracle)

/-- The path is outside the prefix or is the image file, no image is loaded, or the
image has no entry there. -/
def ContributesNothing (w : World) (pathname : Option CString) : Prop :=
  (w.routed pathname).1 ≠ 0 ∨ w.mgr.loaded = false ∨
    ∃ e, w.imageEntry o (w.routed pathname).2 = .error e

/-- The hook returns what the real call returned, a failure with its errno. -/
def PassesThrough {α : Type} (w : World) (hook : Hook α) (real : Except Errno α) (failed : α) :
    Prop :=
  ∃ a w', runAlone o hook w = some (a, w') ∧
    match real with
    | .ok v => a = v
    | .error e => a = failed ∧ w'.errno = e

section
variable {o} {α : Type} {w w' : World} {hook : Hook α} {a failed : α}

theorem passes_ok_iff (hrun : runAlone o hook w = some (a, w')) (v : α) :
    PassesThrough o w hook (.ok v) failed ↔ a = v := by
  refine ⟨fun ⟨b, w'', hb, hv⟩ => ?_, fun h => ⟨a, w', hrun, h⟩⟩
  rw [hrun] at hb
  cases hb
  exact hv

theorem passes_error_iff (hrun : runAlone o hook w = some (failed, w')) (e : Errno) :
    PassesThrough o w hook (.error e) failed ↔ w'.errno = e := by
  refine ⟨fun ⟨b, w'', hb, hv⟩ => ?_, fun h => ⟨failed, w', hrun, rfl, h⟩⟩
  rw [hrun] at hb
  cases hb
  exact hv.2

end

/-- A path that is not routed is reported with this errno. -/
def unroutedErrno (pathname : Option CString) : Errno :=
  if pathname = none then Errno.EFAULT else Errno.ENOENT

theorem routed_errno {w : World} {pathname : Option CString} (h : (w.routed pathname).1 ≠ 0) :
    (w.routed pathname).1 = unroutedErrno pathname := by
  cases pathname with
  | none => rfl
  | some path =>
    simp only [World.routed, checkedPath] at h ⊢
    split at h
    · rename_i heq
      rw [if_pos heq]
      rfl
    · rename_i heq
      rw [if_neg heq]
      dsimp only at h ⊢
      split at h
      · exact absurd rfl h
      · rename_i hrel
        rw [if_neg hrel]
        rfl

/-- On a routed path that the lower layer has nothing at, the lookup fails. -/
theorem lookup_of_nothing {w : World} {pathname : Option CString}
    (h : ContributesNothing o w pathname) (hr : (w.routed pathname).1 = 0) (k : Nat) :
    ∃ e, w.lookup o k (w.routed pathname).2 = .error e := by
  unfold World.lookup
  rcases h with h | h | ⟨e, h⟩
  · exact absurd hr h
  · exact ⟨Errno.ENOENT, by simp [h]⟩
  · split
    · split
      · exact ⟨_, rfl⟩
      · exact ⟨errnoFromSqfs e, by rw [h]⟩
    · exact ⟨_, rfl⟩

theorem open_passes_iff {w : World} {pathname : Option CString} (flags mode : BitVec 32)
    (h : ContributesNothing o w pathname) :
    PassesThrough o w (sqfsOpen pathname flags mode)
        ((w.outcome o (openCall pathname flags mode)).map fun fd => (fd : Int)) (-1) ↔
      ∀ e, w.outcome o (openCall pathname flags mode) = .error e →
        (w.routed pathname).1 ≠ 0 ∨ w.lookup o 0 (w.routed pathname).2 = .error e := by
  obtain ⟨hok, hfail⟩ := run_sqfsOpen o w pathname flags mode
  cases hreal : w.outcome o (openCall pathname flags mode) with
  | ok fd => simp [Except.map, passes_ok_iff (hok fd hreal)]
  | error e =>
    obtain ⟨hnone, -⟩ := hfail e hreal
    simp only [Except.map, Except.error.injEq, forall_eq']
    by_cases hr : (w.routed pathname).1 ≠ 0
    · obtain ⟨w', hrun, herr, -⟩ := hnone e (if_pos hr)
      simp [passes_error_iff hrun, herr, hr]
    · obtain ⟨e', he'⟩ := lookup_of_nothing o h (not_not.mp hr) 0
      obtain ⟨w', hrun, herr, -⟩ := hnone e' ((if_neg hr).trans he')
      simp [passes_error_iff hrun, herr, not_not.mp hr, he']

/-- The errno of a failing `sqfs_xstat`, read off its arguments and the lookup. -/
def XstatReports (w : World) (ver : Int) (pathname : Option CString) (buf : Option Stat)
    (e : Errno) : Prop :=
  if (w.routed pathname).1 ≠ 0 then e = unroutedErrno pathname
  else if buf = none ∨ ver ≠ 3 then e = Errno.EFAULT
  else w.lookup o 0 (w.routed pathname).2 = .error e

theorem xstat_passes_iff (b : Bits) {w : World} {pathname : Option CString} (ver : Int)
    (buf : Option Stat) (h : ContributesNothing o w pathname) :
    PassesThrough o w (sqfsXstat b ver pathname buf)
        ((w.outcome o (.xstat ver pathname)).map fun st => (0, buf.map fun _ => st)) (-1, buf) ↔
      ∀ e, w.outcome o (.xstat ver pathname) = .error e →
        XstatReports o w ver pathname buf e := by
  obtain ⟨w', hrun, herr, -⟩ := run_sqfsXstat b o w ver pathname buf
  cases hreal : w.outcome o (.xstat ver pathname) with
  | ok st =>
    rw [hreal] at hrun
    simp [Except.map, passes_ok_iff hrun, orLower, statResult]
  | error e =>
    rw [hreal, orLower] at hrun herr
    simp only [Except.map, Except.error.injEq, forall_eq']
    have hlower : ∃ e', lowerStat b o w ver pathname buf = .error e' ∧
        (XstatReports o w ver pathname buf e ↔ e' = e) := by
      unfold lowerStat XstatReports
      by_cases hr : (w.routed pathname).1 ≠ 0
      · rw [if_pos hr, if_pos hr, ← routed_errno hr]
        exact ⟨_, rfl, eq_comm⟩
      · rw [if_neg hr, if_neg hr]
        split
        · exact ⟨_, rfl, eq_comm⟩
        · obtain ⟨e', he'⟩ := lookup_of_nothing o h (not_not.mp hr) 0
          rw [he']
          exact ⟨e', rfl, by simp⟩
    obtain ⟨e', hlow, hiff⟩ := hlower
    rw [hlow] at hrun herr
    have hpass : PassesThrough o w (sqfsXstat b ver pathname buf) (.error e) (-1, buf) ↔
        w'.errno = e := passes_error_iff hrun e
    rw [hiff, hpass, herr e' rfl]

/-- The errno of a denying `sqfs_access`: its line in the log is the last thing to set it. -/
def AccessReports (w : World) (pathname : Option CString) (e : Errno) : Prop :=
  if (w.routed pathname).1 ≠ 0 then e = unroutedErrno pathname
  else ∃ e', w.lookup o 0 (w.routed pathname).2 = .error e' ∧
    e = w.loggedErrno o (some (ascii "sqfs_access")) e'

theorem access_passes_iff (b : Bits) {w : World} {pathname : Option CString} (mode : BitVec 32)
    (h : ContributesNothing o w pathname) :
    PassesThrough o w (sqfsAccess b pathname mode)
        ((w.outcome o (.access pathname mode)).map fun _ => 0) (-1) ↔
      ∀ e, w.outcome o (.access pathname mode) = .error e → AccessReports o w pathname e := by
  obtain ⟨w', hrun, herr, -⟩ := run_sqfsAccess b o w pathname mode
  cases hreal : w.outcome o (.access pathname mode) with
  | ok u =>
    rw [hreal] at hrun
    simp [Except.map, passes_ok_iff hrun, orLower, accessResult]
  | error e =>
    rw [hreal, orLower] at hrun herr
    simp only [Except.map, Except.error.injEq, forall_eq']
    have hlower : ∃ e', lowerAccess o w pathname mode = .error e' ∧
        (AccessReports o w pathname e ↔ refusedErrno o w pathname e' = e) := by
      unfold lowerAccess AccessReports refusedErrno
      rw [w.inside_eq_routed]
      by_cases hr : (w.routed pathname).1 ≠ 0
      · rw [if_pos hr, if_pos hr, ← routed_errno hr]
        refine ⟨_, rfl, ?_⟩
        simp [hr, eq_comm]
      · rw [if_neg hr, if_neg hr]
        obtain ⟨e', he'⟩ := lookup_of_nothing o h (not_not.mp hr) 0
        rw [he']
        refine ⟨e', rfl, ?_⟩
        simp [not_not.mp hr, eq_comm]
    obtain ⟨e', hlow, hiff⟩ := hlower
    rw [hlow] at hrun herr
    have hpass : PassesThrough o w (sqfsAccess b pathname mode) (.error e) (-1) ↔
        w'.errno = e := passes_error_iff hrun e
    rw [hiff, hpass, herr e' rfl]

/-- The directory reader that `sqfs_opendir` asks for is refused. -/
def ReaderRefused (w : World) (name : Option CString) : Prop :=
  (w.routed name).1 = 0 ∧ w.mgr.loaded = true ∧
    o.answer (w.used .dirReaderCreate) .dirReaderCreate = none

instance (w : World) (name : Option CString) : Decidable (ReaderRefused o w name) :=
  inferInstanceAs (Decidable (_ ∧ _ ∧ _))

/-- The errno of a failing `sqfs_opendir` whose reader is not refused. -/
def OpendirReports (w : World) (name : Option CString) (e : Errno) : Prop :=
  if (w.routed name).1 ≠ 0 then e = Errno.ENOENT
  else w.lookup o 1 (w.routed name).2 = .error e

private theorem lowerDir_refused {w : World} {name : Option CString} (h : ReaderRefused o w name) :
    lowerDir o w name = .refused Errno.ENOMEM := by
  obtain ⟨hr, hm, hn⟩ := h
  rw [lowerDir, if_neg (by simp [hr, hm]), hn]

private theorem lowerDir_absent {w : World} {name : Option CString}
    (h : ContributesNothing o w name) (href : ¬ ReaderRefused o w name) :
    ∃ e, lowerDir o w name = .absent e ∧ ∀ e', OpendirReports o w name e' ↔ e = e' := by
  unfold lowerDir OpendirReports
  by_cases hr : (w.routed name).1 ≠ 0
  · rw [if_pos (.inl hr)]
    exact ⟨_, rfl, fun e' => by rw [if_pos hr, eq_comm]⟩
  · cases hm : w.mgr.loaded with
    | false =>
      have hlook : w.lookup o 1 (w.routed name).2 = .error Errno.ENOENT := by
        rw [World.lookup, hm]
        rfl
      rw [if_pos (.inr rfl)]
      exact ⟨_, rfl, fun e' => by rw [if_neg hr, hlook, Except.error.injEq]⟩
    | true =>
      obtain ⟨e, he⟩ := lookup_of_nothing o h (not_not.mp hr) 1
      rw [if_neg (by simpa using hr)]
      cases hn : o.answer (w.used .dirReaderCreate) .dirReaderCreate with
      | none => exact absurd ⟨not_not.mp hr, hm, hn⟩ href
      | some reader =>
        refine ⟨e, by simp only [he], fun e' => ?_⟩
        rw [if_neg hr, he, Except.error.injEq]

theorem opendir_passes_iff (b : Bits) {w : World} {name : Option CString}
    (h : ContributesNothing o w name) :
    PassesThrough o w (sqfsOpendir b name)
        ((w.outcome o (.opendir name)).map fun s => some s.addr) none ↔
      match w.outcome o (.opendir name) with
      | .ok _ => ¬ ReaderRefused o w name
      | .error e =>
        if ReaderRefused o w name then e = Errno.ENOMEM else OpendirReports o w name e := by
  have hcases := sqfsOpendir_cases o b w name
  by_cases href : ReaderRefused o w name
  · rw [lowerDir_refused o href] at hcases
    obtain ⟨w', hrun, herr, -⟩ := hcases
    cases hreal : w.outcome o (.opendir name) with
    | ok s => simp [Except.map, passes_ok_iff hrun, href]
    | error e => simp [Except.map, passes_error_iff hrun, href, herr, eq_comm]
  · obtain ⟨e₀, hlow, hiff⟩ := lowerDir_absent o h href
    rw [hlow] at hcases
    obtain ⟨w', hrun, herr, -⟩ := hcases
    cases hreal : w.outcome o (.opendir name) with
    | ok s =>
      rw [hreal] at hrun
      simp [Except.map, passes_ok_iff hrun, href, realStream]
    | error e =>
      rw [hreal] at hrun herr
      have hpass : PassesThrough o w (sqfsOpendir b name) (.error e) none ↔ w'.errno = e :=
        passes_error_iff hrun e
      simp only [Except.map, hpass, herr, if_neg href, hiff]
      rfl

/-- The four path hooks on a path that the lower layer has nothing at: each passes the
real call through exactly when that succeeds or fails with the errno the hook reports. -/
theorem path_hooks_pass_through_iff (b : Bits) {w : World} {pathname : Option CString}
    (flags mode amode : BitVec 32) (ver : Int) (buf : Option Stat)
    (h : ContributesNothing o w pathname) :
    (PassesThrough o w (sqfsOpen pathname flags mode)
        ((w.outcome o (openCall pathname flags mode)).map fun fd => (fd : Int)) (-1) ↔
      ∀ e, w.outcome o (openCall pathname flags mode) = .error e →
        (w.routed pathname).1 ≠ 0 ∨ w.lookup o 0 (w.routed pathname).2 = .error e) ∧
    (PassesThrough o w (sqfsXstat b ver pathname buf)
        ((w.outcome o (.xstat ver pathname)).map fun st => (0, buf.map fun _ => st)) (-1, buf) ↔
      ∀ e, w.outcome o (.xstat ver pathname) = .error e →
        XstatReports o w ver pathname buf e) ∧
    (PassesThrough o w (sqfsAccess b pathname amode)
        ((w.outcome o (.access pathname amode)).map fun _ => 0) (-1) ↔
      ∀ e, w.outcome o (.access pathname amode) = .error e → AccessReports o w pathname e) ∧
    (PassesThrough o w (sqfsOpendir b pathname)
        ((w.outcome o (.opendir pathname)).map fun s => some s.addr) none ↔
      match w.outcome o (.opendir pathname) with
      | .ok _ => ¬ ReaderRefused o w pathname
      | .error e =>
        if ReaderRefused o w pathname then e = Errno.ENOMEM
        else OpendirReports o w pathname e) :=
  ⟨open_passes_iff o flags mode h, xstat_passes_iff o b ver buf h, access_passes_iff o b amode h,
    opendir_passes_iff o b h⟩

/-- Outside the default prefix. -/
def etcFile : CString := ascii "/etc/f"

theorem etcFile_outside : (World.initial.routed (some etcFile)).1 ≠ 0 := by
  decide +kernel

/-- An empty image under a real filesystem that denies every path. -/
def denying : Oracle where
  answer := fun n c =>
    match c with
    | .open .. | .opendir _ => .error Errno.EACCES
    | .access .. => .error Errno.EACCES
    | .xstat .. => .error Errno.EACCES
    | c => bareAnswer n c
  clobber := fun _ _ => none
  text := fun _ => [0x78]
  writes := fun _ => []

theorem path_hooks_pass_through_iff_etc :
    PassesThrough denying .initial (sqfsOpen (some etcFile) 0 0)
        ((World.initial.outcome denying (openCall (some etcFile) 0 0)).map
          fun fd => (fd : Int)) (-1) ↔
      ∀ e, World.initial.outcome denying (openCall (some etcFile) 0 0) = .error e →
        (World.initial.routed (some etcFile)).1 ≠ 0 ∨
          World.initial.lookup denying 0 (World.initial.routed (some etcFile)).2 = .error e :=
  (path_hooks_pass_through_iff denying .b64 0 0 0 3 none (.inl etcFile_outside)).1

/-- Outside the prefix a denied `access` reports ENOENT. -/
theorem denied_access_reports_absence :
    ContributesNothing denying .initial (some etcFile) ∧
      World.initial.outcome denying (.access (some etcFile) R_OK) = .error Errno.EACCES ∧
      ∃ w', runAlone denying (sqfsAccess .b64 (some etcFile) R_OK) .initial = some (-1, w') ∧
        w'.errno = Errno.ENOENT ∧
        ¬ PassesThrough denying .initial (sqfsAccess .b64 (some etcFile) R_OK)
          ((World.initial.outcome denying (.access (some etcFile) R_OK)).map fun _ => 0) (-1) := by
  refine ⟨.inl etcFile_outside, rfl, _, rfl, rfl, ?_⟩
  rintro ⟨a, w', hrun, -, he⟩
  cases hrun
  exact absurd he (by decide)

end HookSqfs.Hooks
