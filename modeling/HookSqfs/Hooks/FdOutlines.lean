import HookSqfs.Hooks.FdSystem

/-! Outlines of the calls on descriptors: the rule for a hook that looks its descriptor
up under the lock, then one outline for each hook. -/
namespace HookSqfs.Hooks
open Manager Interaction Tables Program
variable (b : Bits) (o : Oracle)

/-- The state in which call `n` makes its burst. -/
abbrev entered (n : Nat) (l : Errno) (w : World) : World := { w with errno := l, caller := n }

theorem Calm.entered (n : Nat) (l : Errno) (w : World) : Calm w (entered n l w) :=
  ⟨rfl, rfl, rfl, rfl, rfl⟩

theorem FdEffect.of_calm (n : Nat) {w w' : World} (h : Calm w w') :
    FdEffect o n w [⟨w, w', none⟩] w' :=
  ⟨none, rfl, (SameKeys.of_calm h).spares n, h.fdMap⟩

variable {b o}

/-- A program that leaves the lock, the descriptors and `fd_map` alone. -/
theorem outline_calm {n : Nat} {α : Type} {P : Assertion World FdEvent} {p : Hook α}
    (hp : p.All fun e => e.calm) (stable : (fdProtocol b o).Stable n P)
    (step : ∀ t w w', P t w → Calm w w' → P (t ++ [⟨w, w', none⟩]) w') :
    Outline (fdProtocol b o) n (fun _ => P) P p := by
  refine Outline.of_all hp stable fun e he l t w hw hP => ?_
  have hcalm : Calm w (World.handle o (entered n l w) e).2 :=
    (Calm.entered n l w).trans (handle_calm o _ he)
  exact ⟨_, .of_calm o n hcalm, (SameKeys.of_calm hcalm).inv hw, step t w _ hP hcalm⟩

/-- A hook that looks `fd` up under the lock: on a mapped descriptor the section runs
`mapped`, on any other it ends at once. -/
def dispatch {α β : Type} (fd : Int) (mapped : Hook α) (after : α → Hook β) (fall : Hook β) :
    Hook β := do
  sqfsLock
  let found : Bool ← ask (.fdMapFind fd)
  if found then do
    let a ← mapped
    sqfsUnlock
    after a
  else do
    sqfsUnlock
    fall

section
variable {α β : Type} {fd : Int} {mapped : Hook α} {after : α → Hook β} {fall : Hook β} {w : World}

theorem run_dispatch_missed (hmiss : lookup FDMapEntry.key fd w.fdMap = none) :
    runAlone o (dispatch fd mapped after fall) w = runAlone o fall w := by
  rw [dispatch, Program.ask_bind, runAlone_lock, Program.ask_bind, runAlone_fdMapFind,
    World.locked_fdMap, hmiss]
  rfl

theorem run_dispatch_mapped {entry : FDMapEntry}
    (hentry : lookup FDMapEntry.key fd w.fdMap = some entry) {a : α} {v : World}
    (hrun : runAlone o mapped w.locked = some (a, v)) :
    runAlone o (dispatch fd mapped after fall) w = runAlone o (after a) v.unlocked := by
  rw [dispatch, Program.ask_bind, runAlone_lock, Program.ask_bind, runAlone_fdMapFind,
    World.locked_fdMap, hentry, Option.isSome_some, if_pos rfl, runAlone_bind, hrun]
  rfl

theorem burst_mapped (hmapped : mapped.All fun e => e.keepsDepth) (hw : w.depth = 0)
    {entry : FDMapEntry} (hentry : lookup FDMapEntry.key fd w.fdMap = some entry) {a : α}
    {v : World} (hrun : runAlone o mapped w.locked = some (a, v)) :
    (dispatch fd mapped after fall).burst (World.handle o) World.depth w =
      (after a, v.unlocked) ∧ v.depth = 1 := by
  have hheld : w.locked.depth ≠ 0 := Nat.succ_ne_zero _
  obtain ⟨hsettle, hdepth⟩ := settle_section o hmapped (fun a => .request .unlock fun _ => after a)
    hheld hrun
  have hv : v.depth = 1 := hdepth.trans (congrArg (· + 1) hw)
  have hfree : v.unlocked.depth = 0 := congrArg (· - 1) hv
  refine ⟨?_, hv⟩
  change settle (World.handle o) World.depth (.request (.fdMapFind fd) _) w.locked = _
  rw [settle_held hheld]
  change settle (World.handle o) World.depth
    (if (lookup FDMapEntry.key fd w.fdMap).isSome then _ else _) w.locked = _
  rw [hentry, Option.isSome_some, if_pos rfl]
  refine hsettle.trans ?_
  rw [settle_held (hv ▸ one_ne_zero)]
  exact settle_free hfree _

theorem burst_missed (hw : w.depth = 0) (hmiss : lookup FDMapEntry.key fd w.fdMap = none) :
    (dispatch fd mapped after fall).burst (World.handle o) World.depth w =
      (fall, w.locked.unlocked) := by
  have hheld : w.locked.depth ≠ 0 := Nat.succ_ne_zero _
  change settle (World.handle o) World.depth (.request (.fdMapFind fd) _) w.locked = _
  rw [settle_held hheld]
  change settle (World.handle o) World.depth
    (if (lookup FDMapEntry.key fd w.fdMap).isSome then _ else _) w.locked = _
  rw [hmiss, Option.isSome_none, if_neg Bool.false_ne_true]
  change settle (World.handle o) World.depth (.request .unlock fun _ => fall) w.locked = _
  rw [settle_held hheld]
  exact settle_free hw _

/-- The rule for a hook that looks its descriptor up under the lock. -/
theorem outline_dispatch {n : Nat} {P : Assertion World FdEvent}
    {Q : β → Assertion World FdEvent} (Hit : α → Assertion World FdEvent)
    (Miss : Assertion World FdEvent) (hmapped : mapped.All fun e => e.keepsDepth)
    (hstable : ∀ a, (fdProtocol b o).Stable n (Hit a)) (mstable : (fdProtocol b o).Stable n Miss)
    (hit : ∀ l t w, FdInv w → P t w → ∀ entry, lookup FDMapEntry.key fd w.fdMap = some entry →
      ∃ a v op, runAlone o mapped (entered n l w).locked = some (a, v) ∧
        (v.depth = 1 → op.Changes o w v.unlocked ∧ Spares n w v.unlocked ∧ FdInv v.unlocked ∧
          Hit a (t ++ [⟨w, v.unlocked, some op⟩]) v.unlocked))
    (miss : ∀ t w w', FdInv w → P t w → lookup FDMapEntry.key fd w.fdMap = none → Calm w w' →
      Miss (t ++ [⟨w, w', some (.missed fd)⟩]) w')
    (hafter : ∀ a, Outline (fdProtocol b o) n Q (Hit a) (after a))
    (hfall : Outline (fdProtocol b o) n Q Miss fall) :
    Outline (fdProtocol b o) n Q P (dispatch fd mapped after fall) := by
  refine Outline.burst fun l t w hw hP => ?_
  cases hfound : lookup FDMapEntry.key fd w.fdMap with
  | some entry =>
    obtain ⟨a, v, op, hrun, hspec⟩ := hit l t w hw hP entry hfound
    obtain ⟨hburst, hv⟩ := burst_mapped (w := entered n l w) hmapped hw.free hfound hrun
    obtain ⟨hop, hspares, hinv, hhit⟩ := hspec hv
    exact ⟨after a, v.unlocked, [⟨w, v.unlocked, some op⟩], Hit a, hburst,
      ⟨some op, rfl, hspares, hop⟩, hinv, hstable a, hhit, hafter a⟩
  | none =>
    have hcalm : Calm w (entered n l w).locked.unlocked := ⟨rfl, rfl, rfl, rfl, rfl⟩
    have hkeys := SameKeys.of_calm hcalm
    exact ⟨fall, (entered n l w).locked.unlocked,
      [⟨w, (entered n l w).locked.unlocked, some (.missed fd)⟩], Miss,
      burst_missed (w := entered n l w) hw.free hfound,
      ⟨some (.missed fd), rfl, hkeys.spares n, hfound, rfl⟩, hkeys.inv hw, mstable,
      miss t w _ hw hP hfound hcalm, hfall⟩

end

theorem ops_none (t : List FdEvent) (w w' : World) : ops (t ++ [⟨w, w', none⟩]) = ops t := by
  rw [ops, ops, List.filterMap_append]
  exact List.append_nil _

theorem ops_some {t : List FdEvent} (ht : ops t = []) (w w' : World) (op : FdOp) :
    ops (t ++ [⟨w, w', some op⟩]) = [op] := by
  rw [ops] at ht ⊢
  rw [List.filterMap_append, ht]
  rfl

theorem FdOp.Changes.congr {op : FdOp} {w w' u u' : World} (h : op.Changes o w w')
    (hmap : u.fdMap = w.fdMap) (hfds : u.fds = w.fds) (hmap' : u'.fdMap = w'.fdMap) :
    op.Changes o u u' := by
  cases op <;> simpa only [Changes, hmap, hfds, hmap'] using h

/-- In the section only `fd_map` changed, and its keys are the same. -/
theorem SameKeys.of_section {n : Nat} {l : Errno} {w v : World} {m : List FDMapEntry}
    (h : Undisturbed { (entered n l w).locked with fdMap := m } v)
    (hm : m.map FDMapEntry.key = fdKeys w) (hw : w.depth = 0) (hv : v.depth = 1) :
    SameKeys w v.unlocked :=
  ⟨(congrArg (· - 1) hv).trans hw.symm, (congrArg (List.map _) h.fdMap).trans hm, h.fds, h.owner,
    h.insertedBy⟩

/-- The rule for the hooks that read or move a cursor: the section does one operation that
the result answers, and the rest is the real call. -/
theorem outline_cursor {n : Nat} {α ρ : Type} {fd : Int} {mapped : Hook α} {after : α → Hook ρ}
    {fall : Hook ρ} (result : α → ρ) {Ans : ρ → FdOp → Prop}
    (hmapped : mapped.All fun e => e.keepsDepth) (hfall : fall.All fun e => e.calm)
    (hafter : ∀ a, after a = .ret (result a)) (hmiss : ∀ r, Ans r (.missed fd))
    (hspec : ∀ w entry, lookup FDMapEntry.key fd w.fdMap = some entry →
      ∃ a v op m, runAlone o mapped w = some (a, v) ∧ Undisturbed { w with fdMap := m } v ∧
        m.map FDMapEntry.key = fdKeys w ∧ op.Changes o w { w with fdMap := m } ∧
        Ans (result a) op) :
    Outline (fdProtocol b o) n (fun r t _ => ∃ op, ops t = [op] ∧ Ans r op) (fun t _ => t = [])
      (dispatch fd mapped after fall) := by
  refine outline_dispatch (fun a t _ => ∃ op, ops t = [op] ∧ Ans (result a) op)
    (fun t _ => ops t = [.missed fd]) hmapped (fun _ _ _ _ h _ => h) (fun _ _ _ h _ => h) ?_ ?_ ?_ ?_
  · rintro l t w hw rfl entry hentry
    obtain ⟨a, v, op, m, hrun, hv, hm, hop, hans⟩ := hspec (entered n l w).locked entry hentry
    refine ⟨a, v, op, hrun, fun hdepth => ?_⟩
    have hkeys := SameKeys.of_section hv hm hw.free hdepth
    exact ⟨hop.congr rfl rfl hv.fdMap, hkeys.spares n, hkeys.inv hw, op, rfl, hans⟩
  · rintro t w w' - rfl - -
    rfl
  · intro a
    rw [hafter]
    exact .ret fun _ _ _ h => h
  · refine (outline_calm hfall (fun _ _ _ h _ => h) fun t w w' ht _ =>
      (ops_none t w w').trans ht).post fun r t _ _ ht => ⟨.missed fd, ht, hmiss r⟩

theorem sqfsReadMapped_all (fd : Int) (count : BitVec b.width) :
    (sqfsReadMapped b fd count).All fun e => e.keepsDepth := by
  refine ⟨rfl, fun entry => ⟨rfl, fun ret => ⟨rfl, fun _ => ?_⟩⟩⟩
  cases ret with
  | error e => exact (logHook_keepsDepth _).bind fun _ => ⟨rfl, fun _ => trivial⟩
  | ok data => exact (logHook_keepsDepth _).bind fun _ => ⟨rfl, fun _ => ⟨rfl, fun _ => trivial⟩⟩

theorem sqfsPreadMapped_all (func : CString) (entry : FDMapEntry) (count : BitVec b.width)
    (offset : BitVec 64) : (sqfsPreadMapped b func entry count offset).All fun e => e.keepsDepth := by
  refine Program.All.ite ⟨rfl, fun _ => trivial⟩ ⟨rfl, fun ret => ⟨rfl, fun _ => ?_⟩⟩
  cases ret with
  | error e => exact (logHook_keepsDepth _).bind fun _ => ⟨rfl, fun _ => trivial⟩
  | ok data => exact (logHook_keepsDepth _).bind fun _ => ⟨rfl, fun _ => trivial⟩

theorem sqfsLseekMapped_all (func : CString) (entry : FDMapEntry) (offset : BitVec 64)
    (whence : Int) (maxReturn : BitVec 64) :
    (sqfsLseekMapped func entry offset whence maxReturn).All fun e => e.keepsDepth := by
  have hlog (r : Option (BitVec 64)) : (deref [entry.object, entry.inode.object] >>= fun _ =>
      logHook (some func) >>= fun _ => (pure r : Hook (Option (BitVec 64)))).All
        fun e => e.keepsDepth :=
    ⟨rfl, fun _ => (logHook_keepsDepth _).bind fun _ => trivial⟩
  refine ⟨rfl, fun _ => ?_⟩
  cases hseek : sqfsSeekCalculate entry offset whence with
  | error err => exact ⟨rfl, fun _ => hlog none⟩
  | ok newOffset =>
    exact Program.All.ite ⟨rfl, fun _ => hlog none⟩
      ⟨rfl, fun _ => ⟨rfl, fun _ => hlog (some newOffset)⟩⟩

/-- What a hook that reads or moves the cursor of `fd` starts and ends with. -/
abbrev CursorOutline (o : Oracle) (n : Nat) (call : FdCall b) (p : Hook ReadResult) : Prop :=
  Outline (fdProtocol b o) n (fun r t _ => ∃ op, ops t = [op] ∧ call.Answers r op)
    (fun t _ => t = []) p

theorem sqfsRead_eq (fd : Int) (count : BitVec b.width) :
    sqfsRead b fd count = dispatch fd (sqfsReadMapped b fd count) .ret (do
      let ret : Except Errno (List Byte) ← call (.read fd count.toNat)
      return realRead ret) := rfl

theorem sqfsPread_eq (fd : Int) (count offset : BitVec b.width) :
    sqfsPread b fd count offset = dispatch fd (do
      let entry : FDMapEntry ← ask (.fdMapEntry fd)
      sqfsPreadMapped b (ascii "sqfs_pread") entry count (offset.signExtend 64)) .ret (do
        let ret : Except Errno (List Byte) ← call (.pread fd count.toNat offset.toInt)
        return realRead ret) := rfl

theorem sqfsPread64_eq (fd : Int) (count : BitVec b.width) (offset : BitVec 64) :
    sqfsPread64 b fd count offset = dispatch fd (do
      let entry : FDMapEntry ← ask (.fdMapEntry fd)
      sqfsPreadMapped b (ascii "sqfs_pread64") entry count offset) .ret (do
        let present ← realPresent .pread64
        if present then do
          let ret : Except Errno (List Byte) ← call (.pread64 fd count.toNat offset.toInt)
          return realRead ret
        else do
          setErrno Errno.ENOSYS
          return { ret := -1 }) := rfl

theorem sqfsLseek_eq (fd : Int) (offset : BitVec b.width) (whence : Int) :
    sqfsLseek b fd offset whence = dispatch fd (do
      let entry : FDMapEntry ← ask (.fdMapEntry fd)
      sqfsLseekMapped (ascii "sqfs_lseek") entry (offset.signExtend 64) whence
        (maxSignedValueForSize (b.width / 8)))
      (fun | none => return -1 | some newOffset => return b.signed newOffset.toNat) (do
        let ret : Except Errno Int ← call (.lseek fd offset.toInt whence)
        return realSeek ret) := rfl

theorem sqfsLseek64_eq (fd : Int) (offset : BitVec 64) (whence : Int) :
    sqfsLseek64 fd offset whence = dispatch fd (do
      let entry : FDMapEntry ← ask (.fdMapEntry fd)
      sqfsLseekMapped (ascii "sqfs_lseek64") entry offset whence 0x7fffffffffffffff)
      (fun | none => return -1 | some newOffset => return newOffset.toInt) (do
        let present ← realPresent .lseek64
        if present then do
          let ret : Except Errno Int ← call (.lseek64 fd offset.toInt whence)
          return realSeek ret
        else do
          setErrno Errno.ENOSYS
          return -1) := rfl

theorem outline_sqfsRead (n : Nat) (fd : Int) (count : BitVec b.width) :
    CursorOutline o n (.read fd count) (sqfsRead b fd count) := by
  rw [CursorOutline, sqfsRead_eq]
  refine outline_cursor id (sqfsReadMapped_all fd count) ⟨rfl, fun _ => trivial⟩ (fun _ => rfl)
    (fun _ => .inr (.inr rfl)) fun w entry hentry => ?_
  obtain ⟨v, hrun, -, hv⟩ := run_sqfsReadMapped o b hentry count
  cases hans : readAnswer o b w entry.inode entry.offset count with
  | error e =>
    rw [hans] at hrun hv
    exact ⟨_, v, .failed fd, w.fdMap, hrun, hv, rfl, ⟨by rw [hentry]; rfl, rfl⟩,
      .inr (.inl ⟨rfl, rfl⟩)⟩
  | ok data =>
    rw [hans] at hrun hv
    exact ⟨_, v, .read fd (count.setWidth 32) data, _, hrun, hv, readTable_keys _ _ _ _,
      ⟨entry, _, hentry, hans, rfl⟩, .inl ⟨data, rfl, rfl⟩⟩

/-- The two `pread` hooks do the same with a 64-bit offset. -/
private theorem pread_spec (func : CString) (fd : Int) (count : BitVec b.width)
    (offset : BitVec 64) {w : World} {entry : FDMapEntry}
    (hentry : lookup FDMapEntry.key fd w.fdMap = some entry) :
    ∃ r v op m, runAlone o (do
        let entry : FDMapEntry ← ask (.fdMapEntry fd)
        sqfsPreadMapped b func entry count offset) w = some (r, v) ∧
      Undisturbed { w with fdMap := m } v ∧ m.map FDMapEntry.key = fdKeys w ∧
      op.Changes o w { w with fdMap := m } ∧
      (FdCall.pread64 fd count offset).Answers r op := by
  obtain ⟨v, hrun, -, hv⟩ := run_sqfsPreadMapped o b w func entry count offset
  rw [Program.ask_bind, runAlone_fdMapEntry, hentry, Option.getD_some]
  cases hans : preadAnswer o b w entry count offset with
  | error e =>
    rw [hans] at hrun
    exact ⟨_, v, .failed fd, w.fdMap, hrun, hv, rfl, ⟨by rw [hentry]; rfl, rfl⟩,
      .inr (.inl ⟨rfl, rfl⟩)⟩
  | ok data =>
    rw [hans] at hrun
    unfold preadAnswer at hans
    split at hans
    · cases hans
    · rename_i hneg
      have hoff : 0 ≤ offset.toInt := by
        simpa [BitVec.slt] using hneg
      cases hread : readAnswer o b w entry.inode offset count with
      | error e =>
        rw [hread] at hans
        cases hans
      | ok d =>
        rw [hread] at hans
        cases hans
        exact ⟨_, v, .readAt fd offset (count.setWidth 32) data, w.fdMap, hrun, hv, rfl,
          ⟨entry, _, hentry, hread, hoff, rfl⟩, .inl ⟨data, rfl, rfl⟩⟩

theorem outline_sqfsPread (n : Nat) (fd : Int) (count offset : BitVec b.width) :
    CursorOutline o n (.pread fd count offset) (sqfsPread b fd count offset) := by
  rw [CursorOutline, sqfsPread_eq]
  exact outline_cursor id ⟨rfl, fun entry => sqfsPreadMapped_all _ entry count _⟩
    ⟨rfl, fun _ => trivial⟩ (fun _ => rfl) (fun _ => .inr (.inr rfl))
    fun w entry hentry => pread_spec _ fd count _ hentry

theorem outline_sqfsPread64 (n : Nat) (fd : Int) (count : BitVec b.width) (offset : BitVec 64) :
    CursorOutline o n (.pread64 fd count offset) (sqfsPread64 b fd count offset) := by
  rw [CursorOutline, sqfsPread64_eq]
  exact outline_cursor id ⟨rfl, fun entry => sqfsPreadMapped_all _ entry count _⟩
    ⟨rfl, fun _ => Program.All.ite ⟨rfl, fun _ => trivial⟩ ⟨rfl, fun _ => trivial⟩⟩ (fun _ => rfl)
    (fun _ => .inr (.inr rfl)) fun w entry hentry => pread_spec _ fd count _ hentry

/-- What the caller sees of a seek. -/
def seekAnswers (fd : Int) (r : Int) (op : FdOp) : Prop :=
  (∃ offset : BitVec 64, op = .sought fd offset ∧ r = offset.toNat) ∨
    op = .failed fd ∧ r = -1 ∨ op = .missed fd

private theorem lseek_spec (func : CString) {fd : Int} (offset : BitVec 64) (whence : Int)
    (maxReturn : BitVec 64) {result : Option (BitVec 64) → Int} (hnone : result none = -1)
    (hsome : ∀ newOffset, newOffset ≤ maxReturn → result (some newOffset) = newOffset.toNat)
    {w : World} {entry : FDMapEntry} (hentry : lookup FDMapEntry.key fd w.fdMap = some entry) :
    ∃ r v op m, runAlone o (do
        let entry : FDMapEntry ← ask (.fdMapEntry fd)
        sqfsLseekMapped func entry offset whence maxReturn) w = some (r, v) ∧
      Undisturbed { w with fdMap := m } v ∧ m.map FDMapEntry.key = fdKeys w ∧
      op.Changes o w { w with fdMap := m } ∧ seekAnswers fd (result r) op := by
  obtain ⟨v, hrun, hv, -⟩ := run_sqfsLseekMapped o func entry offset whence maxReturn w
  rw [Program.ask_bind, runAlone_fdMapEntry, hentry, Option.getD_some]
  rw [(lookup_some hentry).2] at hv
  have hmapped : (lookup FDMapEntry.key fd w.fdMap).isSome := by rw [hentry]; rfl
  cases hseek : seekResult entry offset whence maxReturn with
  | error e =>
    rw [hseek] at hrun hv
    exact ⟨_, v, .failed fd, w.fdMap, hrun, hv, rfl, ⟨hmapped, rfl⟩, .inr (.inl ⟨rfl, hnone⟩)⟩
  | ok newOffset =>
    rw [hseek] at hrun hv
    have hle : newOffset ≤ maxReturn := seekResult_le hseek
    exact ⟨_, v, .sought fd newOffset, _, hrun, hv, seekTable_keys _ _ _,
      ⟨hmapped, rfl⟩, .inl ⟨newOffset, rfl, hsome newOffset hle⟩⟩

theorem outline_sqfsLseek (n : Nat) (fd : Int) (offset : BitVec b.width) (whence : Int) :
    Outline (fdProtocol b o) n (fun r t _ => ∃ op, ops t = [op] ∧ seekAnswers fd r op)
      (fun t _ => t = []) (sqfsLseek b fd offset whence) := by
  rw [sqfsLseek_eq]
  refine outline_cursor (fun | none => -1 | some newOffset => b.signed newOffset.toNat)
    ⟨rfl, fun entry => sqfsLseekMapped_all _ entry _ _ _⟩ ⟨rfl, fun _ => trivial⟩
    (fun a => by cases a <;> rfl) (fun _ => .inr (.inr rfl)) fun w entry hentry => ?_
  refine lseek_spec _ _ _ _ rfl (fun newOffset hle => ?_) hentry
  exact signed_of_le b (maxSignedValueForSize_toNat b ▸ hle)

theorem outline_sqfsLseek64 (n : Nat) (fd : Int) (offset : BitVec 64) (whence : Int) :
    Outline (fdProtocol b o) n (fun r t _ => ∃ op, ops t = [op] ∧ seekAnswers fd r op)
      (fun t _ => t = []) (sqfsLseek64 fd offset whence) := by
  rw [sqfsLseek64_eq]
  refine outline_cursor (fun | none => -1 | some newOffset => newOffset.toInt)
    ⟨rfl, fun entry => sqfsLseekMapped_all _ entry _ _ _⟩
    ⟨rfl, fun _ => Program.All.ite ⟨rfl, fun _ => trivial⟩ ⟨rfl, fun _ => trivial⟩⟩
    (fun a => by cases a <;> rfl) (fun _ => .inr (.inr rfl)) fun w entry hentry => ?_
  refine lseek_spec _ _ _ _ rfl (fun newOffset hle => ?_) hentry
  exact BitVec.toInt_eq_toNat_of_lt (by have : newOffset.toNat ≤ 2 ^ 63 - 1 := hle; omega)

end HookSqfs.Hooks
