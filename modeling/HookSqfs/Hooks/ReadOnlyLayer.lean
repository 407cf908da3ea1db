import HookSqfs.Hooks.OpenOutcomes
import HookSqfs.Hooks.PathOutcomes

/-! What `sqfs_open` serves against what `sqfs_access` grants. -/
namespace HookSqfs.Hooks
open Manager Interaction

def asksRead (flags : BitVec 32) : Bool := flags &&& O_ACCMODE ≠ O_WRONLY

def asksWrite (flags : BitVec 32) : Bool := flags &&& O_ACCMODE ≠ 0 || flags &&& O_TRUNC ≠ 0

/-- The access that open flags ask for. -/
def askedAccess (flags : BitVec 32) : BitVec 32 :=
  (if asksRead flags then R_OK else 0) ||| (if asksWrite flags then W_OK else 0)

/-- The call entered its descriptor in `fd_map`. -/
def Served (w w' : World) (fd : Int) : Prop :=
  ∃ e : FDMapEntry, w'.fdMap = e :: w.fdMap ∧ e.key = fd

/-- Reading only, of an inode that somebody may read. -/
def readsOnly (flags : BitVec 32) (inode : Inode) : Bool :=
  !asksWrite flags && sqfsInodeMode inode &&& 0o444 ≠ 0

private theorem asksRead_of_not_write {flags : BitVec 32} (h : asksWrite flags = false) :
    asksRead flags = true := by
  simp only [asksWrite, Bool.or_eq_false_iff, decide_eq_false_iff_not, not_not] at h
  simp [asksRead, h.1, O_WRONLY]

/-- `sqfs_access` grants what open flags ask for when they ask to read a readable inode. -/
theorem accessDecision_asked (flags : BitVec 32) (inode : Inode) :
    accessDecision (sqfsInodeMode inode) (askedAccess flags) = none ↔
      readsOnly flags inode = true := by
  cases hw : asksWrite flags with
  | true =>
    have hmode : askedAccess flags &&& W_OK ≠ 0 := by
      rw [askedAccess, hw]
      cases asksRead flags <;> decide
    rw [accessDecision, if_pos hmode]
    simp [readsOnly, hw]
  | false =>
    have hmode : askedAccess flags = R_OK := by
      rw [askedAccess, hw, asksRead_of_not_write hw]
      decide
    have hwok : R_OK &&& W_OK = 0 := by decide
    have hxok : R_OK &&& X_OK = 0 := by decide
    have hrok : R_OK &&& R_OK ≠ 0 := by decide
    rw [accessDecision, hmode, if_neg (not_not.mpr hwok)]
    by_cases hbits : sqfsInodeMode inode &&& 0o444 = 0
    · rw [if_pos ⟨hrok, hbits⟩]
      simpa [readsOnly] using fun _ => hbits
    · rw [if_neg (fun h => hbits h.2), if_neg (fun h => h.1 hxok)]
      simpa [readsOnly, hw] using hbits

/-- The two hooks agree on a path for these flags: served exactly when granted, and
nothing served for writing. -/
def AgreeOnOpen (flags : BitVec 32) (served granted : Prop) : Prop :=
  (served ↔ granted) ∧ (asksWrite flags → ¬ served)

private theorem not_served {w w' : World} {fd : Int} (h : w'.fdMap = w.fdMap) :
    ¬ Served w w' fd := by
  rintro ⟨entry, hcons, -⟩
  rw [h] at hcons
  exact List.cons_ne_self entry w.fdMap hcons.symm

/-- On a routed path the lower layer grants the access asked for when it has an inode
there and the flags only read it. -/
private theorem granted_iff (o : Oracle) {w : World} {pathname : Option CString}
    (flags : BitVec 32) (hrouted : (w.routed pathname).1 = 0) :
    accessResult (lowerAccess o w pathname (askedAccess flags)) = 0 ↔
      ∃ p, w.lookup o 0 (w.routed pathname).2 = .ok p ∧ readsOnly flags p.inode = true := by
  have hr : ¬ (w.routed pathname).1 ≠ 0 := not_not.mpr hrouted
  rw [lowerAccess, if_neg hr]
  cases w.lookup o 0 (w.routed pathname).2 with
  | error e => simp [accessResult]
  | ok p =>
    have hdec := accessDecision_asked flags p.inode
    cases hd : accessDecision (sqfsInodeMode p.inode) (askedAccess flags) with
    | none => simp [hdec.mp hd, hd, accessResult]
    | some e =>
      have hno : readsOnly flags p.inode ≠ true := fun h => by
        rw [hdec.mpr h] at hd
        cases hd
      simp [hno, hd, accessResult]

/-- `sqfs_open` and `sqfs_access` agree on a path absent from the real filesystem
exactly when the lower layer has nothing there, or the real open fails just for flags
that only read a readable inode. -/
theorem open_access_agree_iff (b : Bits) (o : Oracle) {w : World} {pathname : Option CString}
    {flags : BitVec 32} (mode : BitVec 32) {e : Errno}
    (habsent : w.outcome o (.access pathname (askedAccess flags)) = .error e)
    (hrouted : (w.routed pathname).1 = 0) (hroom : OpenRoom o w flags) :
    ∃ fd w₁ r w₂, runAlone o (sqfsOpen pathname flags mode) w = some (fd, w₁) ∧
      runAlone o (sqfsAccess b pathname (askedAccess flags)) w = some (r, w₂) ∧
      (AgreeOnOpen flags (Served w w₁ fd) (r = 0) ↔
        ∀ p, w.lookup o 0 (w.routed pathname).2 = .ok p →
          ((∃ real, w.outcome o (openCall pathname flags mode) = .error real) ↔
            readsOnly flags p.inode = true)) := by
  obtain ⟨w₂, haccess, -, -⟩ := run_sqfsAccess b o w pathname (askedAccess flags)
  obtain ⟨hok, hfail⟩ := run_sqfsOpen o w pathname flags mode
  have hgrant := granted_iff o flags hrouted
  rw [habsent, orLower] at haccess
  cases hreal : w.outcome o (openCall pathname flags mode) with
  | ok fd =>
    have hnot : ¬ Served w (w.afterCall o (openCall pathname flags mode) (.ok fd)) fd :=
      not_served (by simp)
    refine ⟨fd, _, _, w₂, hok fd hreal, haccess, ?_⟩
    rw [AgreeOnOpen, hgrant]
    simp [hnot]
  | error real =>
    obtain ⟨hnone, hsome⟩ := hfail real hreal
    have hlower : lowerOpen o w pathname real = w.lookup o 0 (w.routed pathname).2 :=
      if_neg (not_not.mpr hrouted)
    rw [hlower] at hnone hsome
    cases hl : w.lookup o 0 (w.routed pathname).2 with
    | error e' =>
      obtain ⟨w₁, hopen, -, hw₁⟩ := hnone e' hl
      refine ⟨-1, w₁, _, w₂, hopen, haccess, ?_⟩
      rw [AgreeOnOpen, hgrant, hl]
      simp [not_served hw₁.fdMap]
    | ok p =>
      obtain ⟨fd, w₁, hopen, hends, hfd⟩ := hsome p hl
      have hserved : Served w w₁ fd := by
        rcases hends with ⟨hneg, -⟩ | ⟨n, addr, hn, hs⟩
        · exact absurd hroom (hfd.mp hneg)
        · exact ⟨_, hs.fdMap, hn.symm⟩
      refine ⟨fd, w₁, _, w₂, hopen, haccess, ?_⟩
      rw [AgreeOnOpen, hgrant, hl]
      simp only [hserved, not_true_eq_false, imp_false, true_iff, Except.ok.injEq,
        exists_eq_left', Except.error.injEq, exists_eq', forall_eq']
      constructor
      · exact fun h => h.1
      · intro h
        refine ⟨h, ?_⟩
        simp only [readsOnly, Bool.and_eq_true, Bool.not_eq_true'] at h
        simp [h.1]

theorem open_access_agree_iff_readable :
    ∃ fd w₁ r w₂,
      runAlone (.serving (plainFile 5)) (sqfsOpen (some hookFile) 0 0) .initial = some (fd, w₁) ∧
      runAlone (.serving (plainFile 5)) (sqfsAccess .b32 (some hookFile) (askedAccess 0)) .initial =
        some (r, w₂) ∧
      (AgreeOnOpen 0 (Served .initial w₁ fd) (r = 0) ↔
        ∀ p, World.initial.lookup (.serving (plainFile 5)) 0
            (World.initial.routed (some hookFile)).2 = .ok p →
          ((∃ real, World.initial.outcome (.serving (plainFile 5))
              (openCall (some hookFile) 0 0) = .error real) ↔ readsOnly 0 p.inode = true)) :=
  open_access_agree_iff .b32 (.serving (plainFile 5)) 0 rfl (congrArg Prod.fst hookFile_routed)
    ⟨by decide, by decide⟩

/-- Opened for writing: a descriptor is served although the access is refused. -/
theorem write_is_served :
    ∃ fd w₁ r w₂,
      runAlone (.serving (plainFile 5)) (sqfsOpen (some hookFile) O_RDWR 0) .initial =
        some (fd, w₁) ∧
      runAlone (.serving (plainFile 5)) (sqfsAccess .b32 (some hookFile) (askedAccess O_RDWR))
        .initial = some (r, w₂) ∧
      fd = 3 ∧ r = -1 ∧ ¬ AgreeOnOpen O_RDWR (Served .initial w₁ fd) (r = 0) := by
  refine ⟨_, _, _, _, rfl, rfl, rfl, rfl, ?_⟩
  intro h
  exact absurd (h.1.mp ⟨_, rfl, rfl⟩) (by decide)

end HookSqfs.Hooks
