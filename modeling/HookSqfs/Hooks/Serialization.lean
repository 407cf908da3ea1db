import HookSqfs.Hooks.ThreadPool
import HookSqfs.Interaction.Serializability

/-! The sections of the manager are serializable: the history of whatever the threads do between
two moments at which the lock is free can be put in an order in which each section is without a
break. -/
namespace HookSqfs.Hooks
open Manager Interaction

/-- The requests that the two maps, the handles of the image and the superblock answer. -/
def onTables : ImageReq → Bool
  | .hook (.call _) | .call _ => false
  | e => guardedLoad e

variable {b : Bits} {o : Oracle} {i : Nat → ImageOracle} {R : Type}

private theorem onTables_guarded {e : ImageReq} (he : onTables e = true) :
    guardedLoad e = true := by
  cases e with
  | hook e =>
    cases e with
    | call c => cases he
    | _ => exact he
  | call c => cases he
  | _ => exact he

/-- What such a request is answered and what it leaves is settled by what the lock guards. -/
theorem onTables_settled {e : ImageReq} (he : onTables e = true) {s s' : Process}
    (h : s.shared = s'.shared) :
    ((threadMachine o i).handle s e).1 = ((threadMachine o i).handle s' e).1 ∧
      ((threadMachine o i).handle s e).2.shared = ((threadMachine o i).handle s' e).2.shared := by
  obtain ⟨hmgr, hsuper, hfd, hdir⟩ := Process.Shared.mk.inj h
  cases e with
  | hook e =>
    cases e with
    | fdMapFind key | fdMapEntry key | fdMapAdd entry | fdMapDel key | fdMapSetOffset key offset
    | dirMapFind key | dirMapEntry key | dirMapAdd entry | dirMapDel key | dirMapSetList key list
    | dirMapSetCurrent key current | dirMapSetReachedEnd key | getMgr =>
      simp only [threadMachine, Process.handle, Loading.handle, World.handle, Process.shared,
        Process.world] at hmgr hsuper hfd hdir ⊢
      simp only [hmgr, hsuper, hfd, hdir, and_self]
    | deref objects => exact ⟨rfl, h⟩
    | _ => cases he
  | getSuper | setFile file | setCompressor file | setDataReader file =>
    simp only [threadMachine, Process.handle, Loading.handle, Loading.setMgr, Loading.mgr,
      Process.shared, Process.world] at hmgr hsuper hfd hdir ⊢
    simp only [hmgr, hsuper, hfd, hdir, and_self]
  | call c => cases he

/-- The turns between two moments at which the lock is free can be put in an order in which no
section is broken into. No thread's turns and no two turns at the tables, the handles and the
superblock change places, each has the answer that it had, and along that order the tables answer
what the turns before have left in them. -/
theorem sections_serial {threads : List (Thread ImageReq ImageAnswer Errno R)} {s : Process}
    {turns : List (Turn ImageReq ImageAnswer)} {c : Pool ImageReq ImageAnswer Process Errno R}
    (hfree : ∀ t ∈ threads, t.held = 0) (hids : (threads.map Thread.id).Nodup)
    (hclients : ∀ t ∈ threads, Client b t.rest)
    (hsteps : (threadMachine o i).Steps ⟨s, threads⟩ turns c)
    (hfree' : ∀ t ∈ c.threads, t.held = 0) :
    (∃ serial, Serial managerLocking serial ∧ SameHistory managerLocking serial turns ∧
      (threadMachine o i).Told Process.shared s.shared serial c.world.shared) ∧
    ∀ v e a a' v' v'', onTables e = true → (threadMachine o i).Serves Process.shared v e a v' →
      (threadMachine o i).Serves Process.shared v e a' v'' → a = a' ∧ v' = v'' := by
  have hstart : Orderly (threadMachine o i).locking (⟨s, threads⟩ : Pool _ _ Process _ _).threads :=
    orderly_clients hfree hclients
  refine ⟨hstart.serializable guards_shared hids hfree hsteps hfree', ?_⟩
  rintro v e a a' v' v'' he ⟨w, ha, hw⟩ ⟨u, ha', hu⟩
  have hguarded : (threadMachine o i).locking.guarded e = true := onTables_guarded he
  rw [if_pos hguarded] at hw hu
  obtain ⟨hanswer, hshared⟩ := onTables_settled (o := o) (i := i) he (hw.1.trans hu.1.symm)
  exact ⟨(ha.symm.trans hanswer).trans ha', (hw.2.symm.trans hshared).trans hu.2⟩

/-- The real access that was asked for inside the reader's section is outside of it. -/
theorem sections_serial_reader :
    ∃ turns c, (threadMachine .bare fun _ => .sound).Steps ⟨⟨.blank, 0⟩, readerAndAccess⟩ turns c ∧
      turns.map Turn.id = [0, 1, 0, 0] ∧ ∃ serial, Serial managerLocking serial ∧
        SameHistory managerLocking serial turns ∧
        (threadMachine .bare fun _ => .sound).Told Process.shared (Process.shared ⟨.blank, 0⟩) serial
          c.world.shared := by
  obtain ⟨turns, c, hsteps, hturns, hfree⟩ := readerAndAccess_section
  have hids : turns.map Turn.id = [0, 1, 0, 0] := by
    have hfirst := congrArg (List.map Prod.fst) hturns
    rwa [List.map_map] at hfirst
  have hclients : ∀ t ∈ readerAndAccess, Client .b64 t.rest := fun t ht =>
    (readerAndAccess_clients t ht).client
  exact ⟨turns, c, hsteps, hids,
    (sections_serial readerAndAccess_free (by decide) hclients hsteps hfree).1⟩

end HookSqfs.Hooks
