import HookSqfs.Hooks.OpenCloseOutlines

/-! No stale descriptors: in every interleaving the keys of `fd_map` are open backing
descriptors, and a descriptor of the real `open` never finds an entry. -/
namespace HookSqfs.Hooks
open Manager Interaction Tables Program
variable (b : Bits) (o : Oracle)

private theorem handed_over {w : World} {fd : Int} {c c' : Owner} (hw : FdInv w)
    (howner : w.owner fd = some c) :
    FdInv { w with owner := Function.update w.owner fd (some c') } := by
  refine ⟨hw.free, fun fd' => ?_, hw.distinct, hw.backed⟩
  rw [hw.owned]
  change _ ↔ Function.update w.owner fd (some c') fd' = none
  by_cases hfd : fd' = fd
  · rw [hfd, Function.update_self, howner]
    exact iff_of_false (Option.some_ne_none _) (Option.some_ne_none _)
  · rw [Function.update_of_ne hfd]

/-- Handing over a descriptor does not touch those of another call. -/
private theorem handed_relied {w : World} {i : Nat} {fd : Int} {c c' : Owner}
    (howner : w.owner fd = some c) (hc : c ≠ .call i) :
    FdRely i w { w with owner := Function.update w.owner fd (some c') } := by
  intro fd' hfd'
  have hne : fd' ≠ fd := by
    rintro rfl
    exact hc (Option.some.inj (howner.symm.trans hfd'))
  exact ⟨(Function.update_of_ne hne _ _).trans hfd', rfl, Iff.rfl⟩

private theorem FdRely.refl (n : Nat) (w : World) : FdRely n w w :=
  fun _ h => ⟨h, rfl, Iff.rfl⟩

theorem FdPre.stable (n : Nat) (call : FdCall b) : (fdProtocol b o).Stable n (FdPre b n call) := by
  intro t w w' h hrely
  exact ⟨h.1, fun fd hfd => (hrely fd (h.2 fd hfd)).1⟩

theorem outline_program (n : Nat) (call : FdCall b) :
    Outline (fdProtocol b o) n (FdPost b n call) (FdPre b n call) call.program := by
  have hstart : ∀ t w, FdInv w → FdPre b n call t w → t = [] := fun _ _ _ h => h.1
  cases call with
  | «open» pathname flags mode =>
    refine ((outline_sqfsOpen n pathname flags mode).bind fun r => .ret ?_).pre hstart
    rintro t w - (⟨hr, ht⟩ | ⟨hfd, hops | ⟨entry, hops, hr⟩⟩)
    · exact .inl ⟨hr, ht.ops, ht.unchanged⟩
    · exact .inr ⟨hfd, .inl hops⟩
    · exact .inr ⟨hfd, .inr ⟨_, hops, entry, rfl, hr⟩⟩
  | close fd =>
    have hclosing : ∀ t w, FdInv w → FdPre b n (.close fd) t w → Closing n fd t w :=
      fun _ _ _ h => ⟨by rw [h.1]; rfl, h.2 fd rfl⟩
    refine ((outline_sqfsClose n fd).bind fun r => .ret ?_).pre hclosing
    exact fun _ _ _ h => h
  | closeNocancel fd =>
    have hclosing : ∀ t w, FdInv w → FdPre b n (.closeNocancel fd) t w → Closing n fd t w :=
      fun _ _ _ h => ⟨by rw [h.1]; rfl, h.2 fd rfl⟩
    refine ((outline_sqfsCloseNocancel n fd).bind fun r => .ret ?_).pre hclosing
    exact fun _ _ _ h => h
  | read fd count => exact (outline_sqfsRead n fd count).pre hstart
  | pread fd count offset => exact (outline_sqfsPread n fd count offset).pre hstart
  | pread64 fd count offset => exact (outline_sqfsPread64 n fd count offset).pre hstart
  | lseek fd offset whence =>
    exact ((outline_sqfsLseek n fd offset whence).bind fun r => .ret fun _ _ _ h => h).pre hstart
  | lseek64 fd offset whence =>
    exact ((outline_sqfsLseek64 n fd offset whence).bind fun r => .ret fun _ _ _ h => h).pre hstart

/-- The descriptor goes over to the closing call. -/
private theorem fd_begins (n : Nat) (call : FdCall b) {w : World} (hw : FdInv w)
    (hadmits : (fdSystem b o).admits w call) :
    FdInv ((fdSystem b o).begins n call w) ∧ FdPre b n call [] ((fdSystem b o).begins n call w) ∧
      ∀ i, i ≠ n → FdRely i w ((fdSystem b o).begins n call w) := by
  cases hcloses : call.closes with
  | none =>
    have hsame : (fdSystem b o).begins n call w = w := by simp only [fdSystem, hcloses]
    rw [hsame]
    refine ⟨hw, ⟨rfl, fun fd hfd => ?_⟩, fun i _ => .refl i w⟩
    rw [hcloses] at hfd
    cases hfd
  | some fd =>
    have howner : w.owner fd = some .client := hadmits fd hcloses
    have hclient : ∀ m, Owner.client ≠ .call m := fun _ h => Owner.noConfusion h
    have htaken : (fdSystem b o).begins n call w =
        { w with owner := Function.update w.owner fd (some (.call n)) } := by
      simp only [fdSystem, hcloses]
    rw [htaken]
    refine ⟨handed_over hw howner, ⟨rfl, fun fd' hfd' => ?_⟩,
      fun i _ => handed_relied howner (hclient i)⟩
    rw [hcloses] at hfd'
    cases hfd'
    exact Function.update_self ..

/-- The descriptor that `open` returns goes over to the client. -/
private theorem fd_ends (n : Nat) (call : FdCall b) (r : ReadResult) {t : List FdEvent} {w : World}
    (hw : FdInv w) (hpost : FdPost b n call r t w) :
    FdInv ((fdSystem b o).ends n call r w) ∧
      ∀ i, i ≠ n → FdRely i w ((fdSystem b o).ends n call r w) := by
  cases call with
  | «open» pathname flags mode =>
    change FdInv (if 0 ≤ r.ret then
        { w with owner := Function.update w.owner r.ret (some .client) } else w) ∧
      ∀ i, i ≠ n → FdRely i w (if 0 ≤ r.ret then
        { w with owner := Function.update w.owner r.ret (some .client) } else w)
    rcases hpost with ⟨hr, -⟩ | ⟨⟨fd, hr, howner⟩, -⟩
    · have hneg : ¬ (0 : Int) ≤ -1 := by decide
      rw [hr, if_neg hneg]
      exact ⟨hw, fun i _ => .refl i w⟩
    · rw [hr, if_pos (Int.natCast_nonneg fd)]
      refine ⟨handed_over hw howner, fun i hi => handed_relied howner ?_⟩
      exact fun he => hi (Owner.call.inj he).symm
  | _ => exact ⟨hw, fun i _ => .refl i w⟩

/-- Every call has its outline. -/
def fdOutlined : Outlined (fdSystem b o) FdEvent where
  toProtocol := fdProtocol b o
  pre := FdPre b
  post := FdPost b
  stable := FdPre.stable b o
  outline := outline_program b o
  begins n call _ hw hadmits := fd_begins b o n call hw hadmits
  ends n call r _ _ hw hpost := fd_ends b o n call r hw hpost

/-- Nothing is mapped yet, and every open descriptor has an owner. -/
structure Starting (w : World) : Prop where
  free : w.depth = 0
  empty : w.fdMap = []
  owned : ∀ fd, w.fds fd = none ↔ w.owner fd = none

theorem Starting.inv {w : World} (h : Starting w) : FdInv w where
  free := h.free
  owned := h.owned
  distinct := by
    rw [fdKeys, h.empty]
    exact List.nodup_nil
  backed key hkey := by
    rw [fdKeys, h.empty] at hkey
    exact absurd hkey List.not_mem_nil

variable {b}

/-- The descriptor that a call is about. -/
def FdCall.target : FdCall b → Option Int
  | .open .. => none
  | .close fd | .closeNocancel fd | .read fd _ | .pread fd _ _ | .pread64 fd _ _ | .lseek fd _ _
  | .lseek64 fd _ _ => some fd

/-- The real function behind a call. -/
def FdCall.real : FdCall b → Hook ReadResult
  | .open pathname flags mode => do
    let fd : Except Errno Nat ← call (openCall pathname flags mode)
    match fd with
    | .ok fd => return { ret := fd }
    | .error _ => return { ret := -1 }
  | .close fd => do
    let present ← realPresent .close
    if present then do
      let ret : Except Errno Unit ← call (.close fd)
      return { ret := realClosed ret }
    else do
      setErrno Errno.ENOSYS
      return { ret := -1 }
  | .closeNocancel fd => do
    let nocancel ← realPresent .closeNocancel
    let present ← realPresent .close
    if nocancel then do
      let ret : Except Errno Unit ← call (.closeNocancel fd)
      return { ret := realClosed ret }
    else if present then do
      let ret : Except Errno Unit ← call (.close fd)
      return { ret := realClosed ret }
    else do
      setErrno Errno.ENOSYS
      return { ret := -1 }
  | .read fd count => do
    let ret : Except Errno (List Byte) ← call (.read fd count.toNat)
    return realRead ret
  | .pread fd count offset => do
    let ret : Except Errno (List Byte) ← call (.pread fd count.toNat offset.toInt)
    return realRead ret
  | .pread64 fd count offset => do
    let present ← realPresent .pread64
    if present then do
      let ret : Except Errno (List Byte) ← call (.pread64 fd count.toNat offset.toInt)
      return realRead ret
    else do
      setErrno Errno.ENOSYS
      return { ret := -1 }
  | .lseek fd offset whence => do
    let ret : Except Errno Int ← call (.lseek fd offset.toInt whence)
    return { ret := realSeek ret }
  | .lseek64 fd offset whence => do
    let present ← realPresent .lseek64
    if present then do
      let ret : Except Errno Int ← call (.lseek64 fd offset.toInt whence)
      return { ret := realSeek ret }
    else do
      setErrno Errno.ENOSYS
      return { ret := -1 }

/-- A call on a descriptor that `fd_map` does not have is the real call. -/
theorem falls_through {call : FdCall b} {fd : Int} (htarget : call.target = some fd) {w : World}
    (hmiss : fd ∉ fdKeys w) : runAlone o call.program w = runAlone o call.real w := by
  have hnone := lookup_eq_none.mpr hmiss
  cases call with
  | «open» pathname flags mode => cases htarget
  | close fd =>
    cases htarget
    rw [FdCall.program, FdCall.real, runAlone_bind, sqfsClose, Program.ask_bind,
      runAlone_realPresent, Program.ask_bind, runAlone_realPresent]
    cases w.env.realPresent .close with
    | false => rfl
    | true =>
      rw [if_pos rfl, if_pos rfl, sqfsCloseImpl_eq, run_dispatch_missed hnone]
      rfl
  | closeNocancel fd =>
    cases htarget
    rw [FdCall.program, FdCall.real, runAlone_bind, sqfsCloseNocancel, Program.ask_bind,
      runAlone_realPresent, Program.ask_bind, runAlone_realPresent, Program.ask_bind,
      runAlone_realPresent, Program.ask_bind, runAlone_realPresent]
    cases w.env.realPresent .closeNocancel with
    | true =>
      rw [if_pos rfl, if_pos rfl, sqfsCloseImpl_eq, run_dispatch_missed hnone]
      rfl
    | false =>
      cases w.env.realPresent .close with
      | false => rfl
      | true =>
        rw [if_neg Bool.false_ne_true, if_pos rfl, sqfsCloseImpl_eq, run_dispatch_missed hnone]
        rfl
  | read fd count =>
    cases htarget
    rw [FdCall.program, sqfsRead_eq, run_dispatch_missed hnone, FdCall.real]
  | pread fd count offset =>
    cases htarget
    rw [FdCall.program, sqfsPread_eq, run_dispatch_missed hnone, FdCall.real]
  | pread64 fd count offset =>
    cases htarget
    rw [FdCall.program, sqfsPread64_eq, run_dispatch_missed hnone, FdCall.real]
  | lseek fd offset whence =>
    cases htarget
    rw [FdCall.program, runAlone_bind, sqfsLseek_eq, run_dispatch_missed hnone]
    rfl
  | lseek64 fd offset whence =>
    cases htarget
    rw [FdCall.program, FdCall.real, runAlone_bind, sqfsLseek64_eq, run_dispatch_missed hnone]
    simp only [Program.ask_bind, runAlone_realPresent]
    cases w.env.realPresent .lseek64 <;> rfl

/-- In every state that calls on any number of threads reach, the keys of `fd_map` are
distinct and each is the open backing descriptor of the `sqfs_open` that inserted it. A
failed `sqfs_open` left `fd_map` and the open descriptors alone. So a descriptor of any
other kind is not mapped, and a hooked call on it, also one made inside a section that
has inserted nothing, is the real call. -/
theorem no_stale_descriptor {w₀ : World} (hstart : Starting w₀)
    {ls : List (Label World (FdCall b) ReadResult)}
    {c : Config Req Answer World Errno (FdCall b) ReadResult}
    (run : (fdSystem b o).Run w₀ ls c) :
    (fdKeys c.world).Nodup ∧
    (∀ key ∈ fdKeys c.world, ∃ n, c.world.fds key = some (.backing n) ∧
      c.world.insertedBy key = some n) ∧
    (∀ n pathname flags mode r, .finished n (.open pathname flags mode) r ∈ ls → r.ret = -1 →
      ∀ u v, .moved n u v ∈ ls → v.fdMap = u.fdMap ∧ v.fds = u.fds) ∧
    ∀ fd d, c.world.fds fd = some d → (∀ n, d ≠ .backing n) → fd ∉ fdKeys c.world ∧
      ∀ call : FdCall b, call.target = some fd → ∀ w, fdKeys w ⊆ fdKeys c.world →
        runAlone o call.program w = runAlone o call.real w := by
  obtain ⟨hist, h⟩ := (fdOutlined b o).holds hstart.inv run
  have hinv : FdInv c.world := h.inv
  refine ⟨hinv.distinct, hinv.backed, ?_, ?_⟩
  · intro n pathname flags mode r hfinished hr u v hmoved
    obtain ⟨⟨w, hpost⟩, -⟩ := h.results n _ r hfinished
    obtain ⟨evs, ⟨op, rfl, -⟩, hmem⟩ := h.trace.moved_mem hmoved
    rcases hpost with ⟨-, -, hunchanged⟩ | ⟨⟨fd, hfd, -⟩, -⟩
    · exact hunchanged _ (hmem List.mem_cons_self)
    · rw [hr] at hfd
      omega
  · intro fd d hfd hd
    have hkey : fd ∉ fdKeys c.world := by
      intro hmem
      obtain ⟨n, hn, -⟩ := hinv.backed fd hmem
      exact hd n (Option.some.inj (hfd.symm.trans hn))
    refine ⟨hkey, fun call htarget w hsub => falls_through o htarget fun hmem => hkey (hsub hmem)⟩

/-- After the five bursts of a served `open` its descriptor is mapped. -/
theorem no_stale_descriptor_served : ∃ ls c,
    (fdSystem .b64 (Oracle.serving (plainFile 5))).Run World.initial ls c ∧
      fdKeys c.world = [3] ∧ ∃ n, c.world.fds 3 = some (.backing n) ∧
        c.world.insertedBy 3 = some n := by
  have hadmits : (fdSystem .b64 (Oracle.serving (plainFile 5))).admits World.initial
    (.open (some hookFile) 0 0) := nofun
  obtain ⟨ls, run⟩ := (System.Run.nil).alone 0 hadmits 5
  refine ⟨ls, _, run, rfl, ?_⟩
  exact (no_stale_descriptor _ ⟨rfl, rfl, fun _ => iff_of_true rfl rfl⟩ run).2.1 3 List.mem_cons_self

end HookSqfs.Hooks
