import HookSqfs.Hooks.PathHooks
import HookSqfs.Manager.LookupOutcome

/-! The outcomes of `sqfs_xstat` and `sqfs_access` in terms of the real call, the
routing and the lookup. -/
namespace HookSqfs.Hooks
open Manager Interaction

/-- A real call that touches no descriptor and no stream, before the routing. -/
private theorem quiet_real (w : World) (o : Oracle) (c : Ext) (a : c.Ans)
    (hf : c.fn.onDescriptors = false) (hs : c.fn.onStreams = false) (pathname : Option CString)
    (hr : c.fn ≠ .dirReaderCreate) (hi : c.fn ≠ .getRootInode) (hp : c.fn ≠ .findByPath) :
    Quiet w (w.afterCall o c a) ∧
      (w.afterCall o c a).routed pathname = w.routed pathname ∧
      ∀ relative, (w.afterCall o c a).lookup o 0 relative = w.lookup o 0 relative := by
  refine ⟨.afterCall _ _ _ _ hf hs, World.routed_congr (by simp) pathname, fun relative => ?_⟩
  apply World.lookup_congr
  · simp
  · simp [Function.update_of_ne hr.symm]
  · simp [Function.update_of_ne hi.symm]
  · simp [Function.update_of_ne hp.symm]

/-- The real result, or what the lower layer makes of its failure. -/
def orLower {α : Type} (real lower : Except Errno α) : Except Errno α :=
  match real with
  | .ok a => .ok a
  | .error _ => lower

section xstat
variable (b : Bits) (o : Oracle)

/-- What `sqfs_xstat` makes of a path whose real call failed: the lower layer's
`struct stat`, or the errno. -/
def lowerStat (w : World) (ver : Int) (pathname : Option CString) (buf : Option Stat) :
    Except Errno Stat :=
  if (w.routed pathname).1 ≠ 0 then .error (w.routed pathname).1
  else if buf = none ∨ ver ≠ 3 then .error Errno.EFAULT
  else (w.lookup o 0 (w.routed pathname).2).map fun p => sqfsFillStat b w.mgr.blockSize p.inode

/-- The return value of `sqfs_xstat` and the buffer. -/
def statResult (buf : Option Stat) : Except Errno Stat → Int × Option Stat
  | .ok st => (0, buf.map fun _ => st)
  | .error _ => (-1, buf)

private theorem run_xstatLower (w : World) (relative : CString) (buf : Stat) :
    ∃ w', runAlone o (xstatLower b relative buf) w =
        some (statResult (some buf) ((w.lookup o 0 relative).map fun p =>
          sqfsFillStat b w.mgr.blockSize p.inode), w') ∧
      (∀ e, w.lookup o 0 relative = .error e → w'.errno = e) ∧ Quiet w w' := by
  obtain ⟨w1, hrun, herr, hw1⟩ := run_sqfsStatImpl b o relative w.locked
  rw [World.lookup_locked] at hrun herr
  refine ⟨(w1.unlocked).withErrno w1.errno, ?_, herr,
    (Quiet.locked w).trans (hw1.trans ((Quiet.unlocked w1).trans (.withErrno _ _)))⟩
  rw [xstatLower, Program.ask_bind, runAlone_lock, runAlone_bind, hrun, Option.bind_some]
  cases w.lookup o 0 relative with
  | error e => rfl
  | ok p => rfl

private theorem run_xstatFallback (w : World) (ver : Int) (pathname : Option CString)
    (buf : Option Stat) :
    ∃ w', runAlone o (xstatFallback b ver pathname buf) w =
        some (statResult buf (lowerStat b o w ver pathname buf), w') ∧
      (∀ e, lowerStat b o w ver pathname buf = .error e → w'.errno = e) ∧
      Undisturbed w w' := by
  rw [xstatFallback, runAlone_bind, run_sqfsCheckPath, Option.bind_some, lowerStat]
  by_cases hr : (w.routed pathname).1 ≠ 0
  · rw [if_pos hr, if_pos hr]
    exact ⟨w.withErrno _, rfl, fun e he => by cases he; rfl, (Quiet.withErrno _ _).toUndisturbed⟩
  · rw [if_neg hr, if_neg hr]
    cases buf with
    | none =>
      rw [if_pos (.inl rfl)]
      exact ⟨w.withErrno _, rfl, fun e he => by cases he; rfl,
        (Quiet.withErrno _ _).toUndisturbed⟩
    | some st =>
      by_cases hv : ver ≠ 3
      · refine ⟨(w.logHook o (some (ascii "sqfs_xstat"))).withErrno Errno.EFAULT, ?_, ?_,
          (Undisturbed.logHook _ _ _).trans (Quiet.withErrno _ _).toUndisturbed⟩
        · simp [hv, runAlone_bind, statResult]
        · intro e he
          rw [if_pos (.inr hv)] at he
          cases he
          rfl
      · obtain ⟨w', hrun, herr, hw'⟩ := run_xstatLower b o w (w.routed pathname).2 st
        rw [if_neg (by simp [hv])]
        refine ⟨w', ?_, ?_, hw'.toUndisturbed⟩
        · simpa only [hv, if_false] using hrun
        · intro e he
          apply herr
          cases hl : w.lookup o 0 (w.routed pathname).2 with
          | error e' =>
            rw [hl] at he
            cases he
            rfl
          | ok p =>
            rw [hl] at he
            cases he

/-- `sqfs_xstat` gives the real result, then the lower layer's. -/
theorem run_sqfsXstat (w : World) (ver : Int) (pathname : Option CString) (buf : Option Stat) :
    ∃ w', runAlone o (sqfsXstat b ver pathname buf) w =
        some (statResult buf (orLower (w.outcome o (.xstat ver pathname))
          (lowerStat b o w ver pathname buf)), w') ∧
      (∀ e, orLower (w.outcome o (.xstat ver pathname)) (lowerStat b o w ver pathname buf) =
        .error e → w'.errno = e) ∧
      Undisturbed w w' := by
  rw [sqfsXstat, Program.ask_bind, runAlone_call]
  obtain ⟨hq, hrt, hlk⟩ := quiet_real w o (.xstat ver pathname)
    (w.outcome o (.xstat ver pathname)) rfl rfl pathname (by simp [Ext.fn]) (by simp [Ext.fn])
    (by simp [Ext.fn])
  cases hreal : w.outcome o (.xstat ver pathname) with
  | ok st =>
    rw [hreal] at hq
    refine ⟨_, rfl, ?_, hq.toUndisturbed⟩
    intro e he
    cases he
  | error e =>
    rw [hreal] at hq hrt hlk
    obtain ⟨w', hrun, herr, hw'⟩ := run_xstatFallback b o
      (w.afterCall o (.xstat ver pathname) (.error e)) ver pathname buf
    have hsame : lowerStat b o (w.afterCall o (.xstat ver pathname) (.error e)) ver pathname buf =
        lowerStat b o w ver pathname buf := by
      simp only [lowerStat, hrt, hlk, hq.mgr]
    rw [hsame] at hrun herr
    exact ⟨w', hrun, herr, hq.toUndisturbed.trans hw'⟩

end xstat

section access
variable (b : Bits) (o : Oracle)

/-- What `sqfs_access` makes of a path whose real call failed: granted, or the errno. -/
def lowerAccess (w : World) (pathname : Option CString) (mode : BitVec 32) : Except Errno Unit :=
  if (w.routed pathname).1 ≠ 0 then .error (w.routed pathname).1
  else match w.lookup o 0 (w.routed pathname).2 with
    | .error e => .error e
    | .ok p =>
      match accessDecision (sqfsInodeMode p.inode) mode with
      | some e => .error e
      | none => .ok ()

def accessResult : Except Errno Unit → Int
  | .ok _ => 0
  | .error _ => -1

/-- The errno that a refusal leaves after its line in the log. -/
def refusedErrno (w : World) (pathname : Option CString) (e : Errno) : Errno :=
  if w.inside pathname then w.loggedErrno o (some (ascii "sqfs_access")) e else e

private theorem run_accessLog (w : World) (pathname : Option CString) :
    runAlone o (accessLog pathname) w =
      some ((), if w.inside pathname then w.logHook o (some (ascii "sqfs_access")) else w) := by
  rw [accessLog, runAlone_bind, run_sqfsCheckOnly, Option.bind_some]
  cases w.inside pathname <;> simp

private theorem run_accessReturnErr (w : World) (pathname : Option CString) :
    ∃ w', runAlone o (accessReturnErr pathname) w = some (-1, w') ∧
      w'.errno = refusedErrno o w pathname w.errno ∧ Undisturbed w w' := by
  rw [accessReturnErr, runAlone_bind, run_accessLog, Option.bind_some, refusedErrno]
  cases w.inside pathname with
  | false => exact ⟨w, rfl, rfl, .refl w⟩
  | true => exact ⟨_, rfl, rfl, .logHook _ _ _⟩

theorem refusedErrno_congr {w w' : World} (h : Quiet w w') (pathname : Option CString)
    (e : Errno) : refusedErrno o w' pathname e = refusedErrno o w pathname e := by
  have hin : w'.inside pathname = w.inside pathname := by simp only [World.inside, h.env]
  rw [refusedErrno, refusedErrno, hin, World.loggedErrno_congr o _ _ h.env h.logWrites]

/-- A refusal: the errno is set, the line logged, -1 returned. -/
private theorem run_refused {w w1 : World} (hq : Quiet w w1) (pathname : Option CString)
    (e : Errno) :
    ∃ w', runAlone o (accessReturnErr pathname) (w1.withErrno e) = some (-1, w') ∧
      w'.errno = refusedErrno o w pathname e ∧ Undisturbed w w' := by
  have hq2 := hq.trans (.withErrno w1 e)
  obtain ⟨w', hrun, herr, hw'⟩ := run_accessReturnErr o (w1.withErrno e) pathname
  exact ⟨w', hrun, herr.trans (refusedErrno_congr o hq2 _ _), hq2.toUndisturbed.trans hw'⟩

private theorem run_accessFallback (w : World) (pathname : Option CString) (mode : BitVec 32) :
    ∃ w', runAlone o (accessFallback b pathname mode) w =
        some (accessResult (lowerAccess o w pathname mode), w') ∧
      (∀ e, lowerAccess o w pathname mode = .error e →
        w'.errno = refusedErrno o w pathname e) ∧ Undisturbed w w' := by
  rw [accessFallback, runAlone_bind, run_sqfsCheckPath, Option.bind_some]
  by_cases hr : (w.routed pathname).1 ≠ 0
  · have hacc : lowerAccess o w pathname mode = .error (w.routed pathname).1 := if_pos hr
    obtain ⟨w', hrun, herr, hw'⟩ := run_refused o (.refl w) pathname (w.routed pathname).1
    rw [hacc, if_pos hr, Program.ask_bind, runAlone_setErrno]
    exact ⟨w', hrun, fun e he => by cases he; exact herr, hw'⟩
  · obtain ⟨w1, hrun1, herr1, hw1⟩ :=
      run_sqfsStatImpl b o (w.routed pathname).2 w.locked
    rw [World.lookup_locked] at hrun1 herr1
    have hq : Quiet w w1.unlocked := (Quiet.locked w).trans (hw1.trans (.unlocked w1))
    rw [if_neg hr, accessLower, Program.ask_bind, runAlone_lock, runAlone_bind, hrun1,
      Option.bind_some]
    cases hl : w.lookup o 0 (w.routed pathname).2 with
    | error e =>
      have hacc : lowerAccess o w pathname mode = .error e := by
        simp only [lowerAccess, hr, if_false, hl]
      obtain ⟨w', hrun, herr, hw'⟩ := run_refused o hq pathname w1.errno
      rw [hacc]
      exact ⟨w', hrun, fun e' he => by cases he; rw [herr, herr1 e hl], hw'⟩
    | ok p =>
      cases hd : accessDecision (sqfsInodeMode p.inode) mode with
      | some e =>
        have hacc : lowerAccess o w pathname mode = .error e := by
          simp only [lowerAccess, hr, if_false, hl, hd]
        obtain ⟨w', hrun, herr, hw'⟩ := run_refused o hq pathname e
        rw [hacc]
        refine ⟨w', Eq.trans ?_ hrun, fun e' he => by cases he; exact herr, hw'⟩
        simp [Except.toOption, sqfsFillStat_stMode, hd]
      | none =>
        have hacc : lowerAccess o w pathname mode = .ok () := by
          simp only [lowerAccess, hr, if_false, hl, hd]
        rw [hacc]
        refine ⟨w1.unlocked.logHook o (some (ascii "sqfs_access")), ?_, ?_,
          hq.toUndisturbed.trans (.logHook _ _ _)⟩
        · simp [Except.toOption, sqfsFillStat_stMode, hd, runAlone_bind, accessResult]
        · intro e he
          cases he

/-- `sqfs_access` grants what the real call grants, then what the lower layer does. -/
theorem run_sqfsAccess (w : World) (pathname : Option CString) (mode : BitVec 32) :
    ∃ w', runAlone o (sqfsAccess b pathname mode) w =
        some (accessResult (orLower (w.outcome o (.access pathname mode))
          (lowerAccess o w pathname mode)), w') ∧
      (∀ e, orLower (w.outcome o (.access pathname mode)) (lowerAccess o w pathname mode) =
        .error e → w'.errno = refusedErrno o w pathname e) ∧
      Undisturbed w w' := by
  rw [sqfsAccess, Program.ask_bind, runAlone_call]
  obtain ⟨hq, hrt, hlk⟩ := quiet_real w o (.access pathname mode)
    (w.outcome o (.access pathname mode)) rfl rfl pathname (by simp [Ext.fn]) (by simp [Ext.fn])
    (by simp [Ext.fn])
  cases hreal : w.outcome o (.access pathname mode) with
  | ok u =>
    rw [hreal] at hq
    refine ⟨_, by simp only [runAlone_bind, run_accessLog, Option.bind_some]; rfl, ?_, ?_⟩
    · intro e he
      cases he
    · split
      · exact hq.toUndisturbed.trans (.logHook _ _ _)
      · exact hq.toUndisturbed
  | error e =>
    rw [hreal] at hq hrt hlk
    obtain ⟨w', hrun, herr, hw'⟩ := run_accessFallback b o
      (w.afterCall o (.access pathname mode) (.error e)) pathname mode
    have hsame : lowerAccess o (w.afterCall o (.access pathname mode) (.error e)) pathname mode =
        lowerAccess o w pathname mode := by
      simp only [lowerAccess, hrt, hlk]
    rw [hsame] at hrun herr
    exact ⟨w', hrun, fun e' he' => (herr e' he').trans (refusedErrno_congr o hq _ _),
      hq.toUndisturbed.trans hw'⟩

end access
end HookSqfs.Hooks
