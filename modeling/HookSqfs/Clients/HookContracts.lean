import HookSqfs.Clients.ConcurrentTest
import HookSqfs.Clients.DescriptorContract
import HookSqfs.Hooks.SeekOutcomes
import HookSqfs.Manager.RequestKinds

/-! What the hooks do for a thread that opens one file of the image, and nothing is refused. -/
namespace HookSqfs.Clients
open Manager Hooks Interaction

/-- The library takes a count from here on for one byte less than this. -/
def readLimit : Nat := 0x7fffffff

/-- A file that is in the image and not in the upper layer, and a library that reads it. -/
structure LowerFile (o : Oracle) (env : Env) (path relative : CString) (inode : Inode)
    (bytes : List Byte) : Prop where
  upperOpen : ∀ n flags mode, ∃ e, o.answer n (.open (some path) flags mode) = .error e
  upperXstat : ∀ n ver, ∃ e, o.answer n (.xstat ver (some path)) = .error e
  upperAccess : ∀ n mode, ∃ e, o.answer n (.access (some path) mode) = .error e
  routed : checkedPath (env.hooksqfsPrefix.getD defaultPrefix) env.hooksqfsFile (some path)
    (some []) Paths.PATH_MAX = (0, some relative)
  named : relative ≠ []
  found : ∀ n, ∃ addr, o.answer n (.findByPath relative) = .ok { addr, inode }
  size : (sqfsInodeSize inode).toNat = bytes.length
  readable : sqfsInodeMode inode &&& 0o444 ≠ 0
  reads : ∀ n addr offset size, size.toNat < readLimit →
    o.answer n (.dataReaderRead { addr, inode } offset size) =
      .ok ((bytes.drop offset.toNat).take size.toNat)
  close : env.realPresent .close = true

section
variable {o : Oracle} {env : Env} {path : CString} {α β : Type} {slot : Slot}
  {Q S : α → Slot → Prop}

/-- A thread with the descriptor `slot` comes to an end with `Q`. -/
def Does (o : Oracle) (env : Env) (path : CString) (p : Hook α) (slot : Slot)
    (Q : α → Slot → Prop) : Prop :=
  ∀ held, (relay p).Meets managerLocking (descriptorContract o env path) held slot
    fun a _ slot' => Q a slot'

theorem Does.ret {a : α} (h : Q a slot) : Does o env path (.ret a) slot Q := fun _ => h

theorem Does.request {e : Req} {k : Answer e → Hook α} (hp : slot.permits path e)
    (h : ∀ a, slot.told o env e a → NotRefused e a → Does o env path (k a) (slot.next e a) Q) :
    Does o env path (.request e k) slot Q :=
  fun _ => ⟨hp, fun a _ ⟨htold, hgranted, hnext⟩ => hnext ▸ h a htold hgranted _⟩

theorem Does.bind {p : Hook α} {f : α → Hook β} {Q : β → Slot → Prop}
    (hp : Does o env path p slot S) (hf : ∀ a slot', S a slot' → Does o env path (f a) slot' Q) :
    Does o env path (p >>= f) slot Q := by
  intro held
  rw [relay_bind]
  exact (hp held).bind fun a held' slot' h => hf a slot' h held'

theorem Does.mono {p : Hook α} (hp : Does o env path p slot S)
    (h : ∀ a slot', S a slot' → Q a slot') : Does o env path p slot Q :=
  fun held => (hp held).mono fun a _ slot' hS => h a slot' hS

/-- The requests that have nothing to do with descriptors. -/
def Plain (e : Req) : Prop := e.calm = true ∨ e = .lock ∨ e = .unlock

theorem Plain.permits {e : Req} (he : Plain e) : slot.permits path e := by
  rcases he with he | rfl | rfl
  · cases e with
    | call c =>
      cases c with
      | «open» pathname flags mode => cases he
      | memfdCreate flags => cases he
      | openat p flags => cases he
      | close fd => cases he
      | closeNocancel fd => cases he
      | _ => trivial
    | fdMapAdd entry => cases he
    | fdMapDel key => cases he
    | fdMapSetOffset key offset => cases he
    | _ => trivial
  · trivial
  · trivial

theorem Plain.next {e : Req} (he : Plain e) (a : Answer e) : slot.next e a = slot := by
  rcases he with he | rfl | rfl
  · cases e with
    | call c =>
      refine Slot.next_call ?_ a
      cases h : c.fn.onDescriptors with
      | false => rfl
      | true => simp [Req.calm, h] at he
    | fdMapAdd entry => cases he
    | fdMapDel key => cases he
    | fdMapSetOffset key offset => cases he
    | _ => cases slot <;> rfl
  · cases slot <;> rfl
  · cases slot <;> rfl

theorem Does.plain {e : Req} {k : Answer e → Hook α} (he : Plain e)
    (h : ∀ a, slot.told o env e a → NotRefused e a → Does o env path (k a) slot Q) :
    Does o env path (.request e k) slot Q :=
  .request he.permits fun a htold hgranted => (he.next a).symm ▸ h a htold hgranted

private theorem Does.all {p : Hook α} (hp : p.All fun e => e.calm) :
    Does o env path p slot fun _ slot' => slot' = slot := by
  induction p with
  | ret a => exact .ret rfl
  | undefined => exact hp.elim
  | request e k ih => exact .plain (.inl hp.1) fun a _ _ => ih a (hp.2 a)

theorem Does.pos {c : Prop} [Decidable c] {p q : Hook α} (hc : c)
    (hp : Does o env path p slot Q) : Does o env path (if c then p else q) slot Q := by
  rw [if_pos hc]
  exact hp

theorem Does.neg {c : Prop} [Decidable c] {p q : Hook α} (hc : ¬ c)
    (hq : Does o env path q slot Q) : Does o env path (if c then p else q) slot Q := by
  rw [if_neg hc]
  exact hq

private theorem Does.logHook (funcName : Option CString) :
    Does o env path (logHook funcName) slot fun _ slot' => slot' = slot :=
  .all (logHook_calm funcName)

end

section
variable {o : Oracle} {env : Env} {path relative : CString} {inode : Inode} {bytes : List Byte}
  {slot : Slot}

theorem told_call {c : Ext} {a : c.Ans} (h : slot.told o env (.call c) a)
    (hc : ∀ (w : World) (a : c.Ans), w.granted c a = a) : ∃ n, a = o.answer n c := by
  obtain ⟨w, n, rfl⟩ := h
  exact ⟨n, hc w _⟩

variable (hfile : LowerFile o env path relative inode bytes)
include hfile

theorem sqfsCheckPath_does : Does o env path (sqfsCheckPath (some path)) slot
    fun checked slot' => checked = (0, relative) ∧ slot' = slot := by
  refine .plain (.inl rfl) fun value hvalue _ => .plain (.inl rfl) fun sqfsPath hsqfsPath _ => .ret ?_
  have hvalue : value = env.hooksqfsPrefix := hvalue
  have hsqfsPath : sqfsPath = env.hooksqfsFile := hsqfsPath
  subst hvalue hsqfsPath
  refine ⟨?_, rfl⟩
  rw [hfile.routed]
  rfl

private theorem findWithReader_does (dirReader : Nat) :
    Does o env path (findWithReader relative dirReader) slot
      fun r slot' => (∃ addr, r = some { addr, inode }) ∧ slot' = slot := by
  let lookup : Hook (Except SqfsError InodePtr) :=
    if relative = [] then call .getRootInode else call (.findByPath relative)
  have hlookup : Does o env path lookup slot
      fun ret slot' => (∃ addr, ret = .ok { addr, inode }) ∧ slot' = slot := by
    refine .neg hfile.named (.plain (.inl rfl) fun ret hret _ => .ret ⟨?_, rfl⟩)
    obtain ⟨n, rfl⟩ := told_call hret fun _ _ => rfl
    exact hfile.found n
  refine hlookup.bind ?_
  rintro _ _ ⟨⟨addr, rfl⟩, rfl⟩
  exact .plain (.inl rfl) fun _ _ _ => .ret ⟨⟨addr, rfl⟩, rfl⟩

theorem sqfsFindInode_does : Does o env path (sqfsFindInode (some relative)) slot
    fun r slot' => (∃ addr, r = some { addr, inode }) ∧ slot' = slot := by
  refine .plain (.inl rfl) fun mgr hloaded _ => .pos hloaded (.plain (.inl rfl) fun dirReader _ hreader => ?_)
  cases dirReader with
  | none => exact absurd rfl hreader
  | some dirReader => exact findWithReader_does hfile dirReader

omit hfile in
private theorem createMemfd_does (flags : BitVec 32) : Does o env path (createMemfd flags) .closed
    fun r slot' => ∃ fd : Nat, r = fd ∧ slot' = .bare fd := by
  refine .request rfl fun fd _ hfd => ?_
  obtain ⟨fd, rfl⟩ := hfd
  exact .ret ⟨fd, rfl, rfl⟩

omit hfile in
theorem createBackingFd_does (flags : BitVec 32) : Does o env path (createBackingFd flags) .closed
    fun r slot' => ∃ fd : Nat, r = fd ∧ slot' = .bare fd := by
  unfold createBackingFd
  refine (createMemfd_does flags).bind ?_
  rintro _ _ ⟨fd, rfl, rfl⟩
  exact .pos (Int.natCast_nonneg fd) (.ret ⟨fd, rfl, rfl⟩)

omit hfile in
private theorem openInsert_does (flags : BitVec 32) (addr : Nat) :
    Does o env path (openInsert flags { addr, inode }) .closed
      fun r slot' => ∃ fd : Nat, r = fd ∧ slot' = .mapped fd { addr, inode } 0 := by
  unfold openInsert
  refine (createBackingFd_does flags).bind ?_
  rintro _ _ ⟨fd, rfl, rfl⟩
  refine .neg (Int.not_lt.mpr (Int.natCast_nonneg fd)) (.plain (.inl rfl) fun fdEntry _ hentry => ?_)
  cases fdEntry with
  | none => exact absurd rfl hentry
  | some entry =>
    refine .request ⟨fd, rfl, rfl⟩ fun _ _ _ => .plain (.inl rfl) fun _ _ _ => .ret ⟨fd, rfl, rfl⟩

private theorem openLower_does (flags : BitVec 32) : Does o env path (openLower (some path) flags) .closed
    fun r slot' => ∃ (fd addr : Nat), r = fd ∧ slot' = .mapped fd { addr, inode } 0 := by
  unfold openLower
  refine .plain (.inl rfl) fun savedErrno _ _ => (sqfsCheckPath_does hfile).bind ?_
  rintro _ _ ⟨rfl, rfl⟩
  refine .neg (fun h => h rfl) (.plain (.inr (.inl rfl)) fun _ _ _ => (sqfsFindInode_does hfile).bind ?_)
  rintro _ _ ⟨⟨addr, rfl⟩, rfl⟩
  refine (openInsert_does flags addr).bind ?_
  rintro _ _ ⟨fd, rfl, rfl⟩
  refine .plain (.inr (.inr rfl)) fun _ _ _ => (Does.logHook _).bind ?_
  rintro _ _ rfl
  exact .ret ⟨fd, addr, rfl, rfl⟩

/-- It opens the file at its start. -/
theorem sqfsOpen_does : Does o env path (sqfsOpen (some path) readFlags 0) .closed
    fun r slot' => ∃ (fd addr : Nat), r = fd ∧ slot' = .mapped fd { addr, inode } 0 := by
  refine .request rfl fun real hreal _ => ?_
  have hfails : ∃ e, real = .error e := by
    obtain ⟨w, n, rfl⟩ := hreal
    obtain ⟨e, he⟩ := hfile.upperOpen n readFlags (if openFlagsNeedMode readFlags then some 0 else none)
    exact ⟨e, congrArg w.grantFd he⟩
  obtain ⟨e, rfl⟩ := hfails
  exact openLower_does hfile readFlags

variable {b : Bits} {fd addr : Nat} {position : BitVec 64}

omit hfile in
private theorem fdMapFind_does {α : Type} {yes no : Hook α} {Q : α → Slot → Prop}
    (h : Does o env path yes (.mapped fd { addr, inode } position) Q) :
    Does o env path (do
      sqfsLock
      let found : Bool ← ask (.fdMapFind fd)
      if found then yes else no) (.mapped fd { addr, inode } position) Q := by
  refine .plain (.inr (.inl rfl)) fun _ _ _ => .plain (.inl rfl) fun found hfound _ => ?_
  exact .pos (hfound fd _ _ rfl rfl) h

omit hfile in
private theorem fdMapEntry_does {α : Type} {f : FDMapEntry → Hook α} {Q : α → Slot → Prop}
    (h : ∀ entry : Nat, Does o env path (f { addr := entry, key := fd, inode := { addr, inode }, offset := position })
      (.mapped fd { addr, inode } position) Q) :
    Does o env path (ask (.fdMapEntry fd) >>= f) (.mapped fd { addr, inode } position) Q := by
  refine .plain (.inl rfl) fun entry hentry _ => ?_
  obtain ⟨entry, key, p, offset⟩ := entry
  obtain ⟨rfl, rfl, rfl⟩ := hentry fd _ _ rfl rfl
  exact h entry

/-- What a read gives of the bytes from a position on. -/
def readOf (bytes : List Byte) (position count : Nat) : ReadResult :=
  let data := (bytes.drop position).take count
  { ret := data.length, data }

private theorem sqfsReadMapped_does {count : BitVec b.width}
    (hcount : (count.setWidth 32).toNat < readLimit) :
    Does o env path (sqfsReadMapped b fd count) (.mapped fd { addr, inode } position)
      fun r slot' => r = readOf bytes position.toNat (count.setWidth 32).toNat ∧
        slot' = .mapped fd { addr, inode } (position + BitVec.ofNat 64 r.data.length) := by
  unfold sqfsReadMapped
  refine fdMapEntry_does fun entry => .plain (.inl rfl) fun ret hret _ => ?_
  obtain ⟨n, rfl⟩ := told_call hret fun _ _ => rfl
  rw [hfile.reads _ _ _ _ hcount]
  refine .plain (.inl rfl) fun _ _ _ => (Does.logHook _).bind ?_
  rintro _ _ rfl
  refine .request ⟨fd, _, _, rfl, rfl⟩ fun _ _ _ => .plain (.inl rfl) fun _ _ _ => .ret ⟨rfl, rfl⟩

/-- It reads the file at its offset and moves on. -/
theorem sqfsRead_does {count : BitVec b.width} (hcount : (count.setWidth 32).toNat < readLimit) :
    Does o env path (sqfsRead b fd count) (.mapped fd { addr, inode } position)
      fun r slot' => r = readOf bytes position.toNat (count.setWidth 32).toNat ∧
        slot' = .mapped fd { addr, inode } (position + BitVec.ofNat 64 r.data.length) := by
  refine fdMapFind_does ((sqfsReadMapped_does hfile hcount).bind fun r slot' h => ?_)
  exact .plain (.inr (.inr rfl)) fun _ _ _ => .ret h

private theorem sqfsPreadMapped_does (func : CString) (entry : Nat) {count : BitVec b.width}
    (hcount : (count.setWidth 32).toNat < readLimit) {offset : BitVec 64} (hoffset : offset.slt 0 = false) :
    Does o env path (sqfsPreadMapped b func
        { addr := entry, key := fd, inode := { addr, inode }, offset := position } count offset)
      slot fun r slot' => r = readOf bytes offset.toNat (count.setWidth 32).toNat ∧ slot' = slot := by
  unfold sqfsPreadMapped
  refine .neg (by rw [hoffset]; exact Bool.false_ne_true) (.plain (.inl rfl) fun ret hret _ => ?_)
  obtain ⟨n, rfl⟩ := told_call hret fun _ _ => rfl
  rw [hfile.reads _ _ _ _ hcount]
  refine .plain (.inl rfl) fun _ _ _ => (Does.logHook _).bind ?_
  rintro _ _ rfl
  exact .plain (.inl rfl) fun _ _ _ => .ret ⟨rfl, rfl⟩

omit hfile in
private theorem slt_zero_of_nonneg {width : Nat} {offset : BitVec width} (h : 0 ≤ offset.toInt) :
    offset.slt 0 = false := by
  have hzero : (0 : BitVec width).toInt = 0 := BitVec.toInt_zero
  rw [BitVec.slt_eq_decide, hzero, decide_eq_false_iff_not]
  omega

/-- It reads the file from the offset and leaves its own. -/
theorem sqfsPread_does {count offset : BitVec b.width}
    (hcount : (count.setWidth 32).toNat < readLimit) (h : 0 ≤ offset.toInt) :
    Does o env path (sqfsPread b fd count offset) (.mapped fd { addr, inode } position)
      fun r slot' => r = readOf bytes offset.toNat (count.setWidth 32).toNat ∧
        slot' = .mapped fd { addr, inode } position := by
  have hextend : 0 ≤ (offset.signExtend 64).toInt := (toInt_signExtend offset).symm ▸ h
  refine fdMapFind_does (fdMapEntry_does fun entry => ?_)
  refine (sqfsPreadMapped_does hfile _ entry hcount (slt_zero_of_nonneg hextend)).bind ?_
  rintro _ _ ⟨rfl, rfl⟩
  refine .plain (.inr (.inr rfl)) fun _ _ _ => .ret ⟨?_, rfl⟩
  rw [toNat_signExtend h]

theorem sqfsPread64_does {count : BitVec b.width} (hcount : (count.setWidth 32).toNat < readLimit)
    {offset : BitVec 64} (h : 0 ≤ offset.toInt) :
    Does o env path (sqfsPread64 b fd count offset) (.mapped fd { addr, inode } position)
      fun r slot' => r = readOf bytes offset.toNat (count.setWidth 32).toNat ∧
        slot' = .mapped fd { addr, inode } position := by
  refine fdMapFind_does (fdMapEntry_does fun entry => ?_)
  refine (sqfsPreadMapped_does hfile _ entry hcount (slt_zero_of_nonneg h)).bind ?_
  rintro _ _ ⟨rfl, rfl⟩
  exact .plain (.inr (.inr rfl)) fun _ _ _ => .ret ⟨rfl, rfl⟩

omit hfile in
private theorem sqfsLseekMapped_does (func : CString) {entry : Nat} {offset target max : BitVec 64}
    {whence : Int} (h : seekResult
      { addr := entry, key := fd, inode := { addr, inode }, offset := position } offset whence max =
        .ok target) :
    Does o env path (sqfsLseekMapped func
        { addr := entry, key := fd, inode := { addr, inode }, offset := position } offset whence max)
      (.mapped fd { addr, inode } position)
      fun r slot' => r = some target ∧ slot' = .mapped fd { addr, inode } target := by
  unfold seekResult at h
  refine .plain (.inl rfl) fun _ _ _ => ?_
  cases hcalculate : sqfsSeekCalculate
      { addr := entry, key := fd, inode := { addr, inode }, offset := position } offset whence with
  | error e =>
    simp only [hcalculate, reduceCtorEq] at h
  | ok newOffset =>
    simp only [hcalculate] at h
    by_cases hmax : newOffset > max
    · rw [if_pos hmax] at h
      cases h
    · rw [if_neg hmax] at h
      cases h
      refine .neg hmax (.request ⟨fd, _, _, rfl, rfl⟩ fun _ _ _ => .plain (.inl rfl) fun _ _ _ => ?_)
      refine .plain (.inl rfl) fun _ _ _ => (Does.logHook _).bind ?_
      rintro _ _ rfl
      exact .ret ⟨rfl, rfl⟩

omit hfile in
/-- It moves to where the seek leads. -/
theorem sqfsLseek_does {offset : BitVec b.width} {whence : Int} {target : BitVec 64}
    (h : ∀ entry : Nat, lseekResult b
      { addr := entry, key := fd, inode := { addr, inode }, offset := position } offset whence =
        .ok target) :
    Does o env path (sqfsLseek b fd offset whence) (.mapped fd { addr, inode } position)
      fun r slot' => r = target.toNat ∧ slot' = .mapped fd { addr, inode } target := by
  refine fdMapFind_does (fdMapEntry_does fun entry => ?_)
  refine (sqfsLseekMapped_does _ (h entry)).bind ?_
  rintro _ _ ⟨rfl, rfl⟩
  refine .plain (.inr (.inr rfl)) fun _ _ _ => .ret ⟨?_, rfl⟩
  exact signed_of_le b (maxSignedValueForSize_toNat b ▸ seekResult_le (h 0))

/-- It closes the descriptor. -/
theorem sqfsClose_does : Does o env path (sqfsClose fd) (.mapped fd { addr, inode } position)
    fun r slot' => r = 0 ∧ slot' = .closed := by
  refine .plain (.inl rfl) fun present hpresent _ => ?_
  have hpresent : present = true := (show present = _ from hpresent).trans hfile.close
  subst hpresent
  refine fdMapFind_does (fdMapEntry_does fun entry => ?_)
  refine .plain (.inl rfl) fun _ _ _ => .request ⟨fd, _, _, rfl, rfl⟩ fun _ _ _ =>
    .plain (.inl rfl) fun _ _ _ => .plain (.inl rfl) fun _ _ _ =>
    .plain (.inl rfl) fun _ _ _ => .plain (.inr (.inr rfl)) fun _ _ _ =>
    .request ⟨fd, rfl, rfl⟩ fun ret _ hret => .plain (.inl rfl) fun savedErrno _ _ => ?_
  have hret : ret = .ok () := hret
  subst hret
  refine (Does.logHook _).bind ?_
  rintro _ _ rfl
  exact .plain (.inl rfl) fun _ _ _ => .ret ⟨rfl, rfl⟩

private theorem sqfsStatImpl_does : Does o env path (sqfsStatImpl b (some relative)) slot
    fun r slot' => (∃ blockSize, r = some (sqfsFillStat b blockSize inode)) ∧ slot' = slot := by
  unfold sqfsStatImpl
  refine (sqfsFindInode_does hfile).bind ?_
  rintro _ _ ⟨⟨addr, rfl⟩, rfl⟩
  exact .plain (.inl rfl) fun _ _ _ => .plain (.inl rfl) fun mgr _ _ =>
    .plain (.inl rfl) fun _ _ _ => .ret ⟨⟨mgr.blockSize, rfl⟩, rfl⟩

/-- It fills the structure from the inode. -/
theorem sqfsXstat_does (st : Stat) : Does o env path (sqfsXstat b 3 (some path) (some st)) slot
    fun r slot' => (∃ blockSize, r = (0, some (sqfsFillStat b blockSize inode))) ∧ slot' = slot := by
  refine .plain (.inl rfl) fun real hreal _ => ?_
  have hfails : ∃ e, real = .error e := by
    obtain ⟨n, rfl⟩ := told_call hreal fun _ _ => rfl
    exact hfile.upperXstat n 3
  obtain ⟨e, rfl⟩ := hfails
  refine (sqfsCheckPath_does hfile).bind ?_
  rintro _ _ ⟨rfl, rfl⟩
  refine .neg (fun h => h rfl) (.neg (fun h => h rfl) (.plain (.inr (.inl rfl)) fun _ _ _ => ?_))
  refine (sqfsStatImpl_does hfile).bind ?_
  rintro _ _ ⟨⟨blockSize, rfl⟩, rfl⟩
  exact .plain (.inl rfl) fun _ _ _ => .plain (.inr (.inr rfl)) fun _ _ _ =>
    .plain (.inl rfl) fun _ _ _ => .ret ⟨⟨blockSize, rfl⟩, rfl⟩

/-- It may be read. -/
theorem sqfsAccess_does : Does o env path (sqfsAccess b (some path) R_OK) slot
    fun r slot' => r = 0 ∧ slot' = slot := by
  refine .plain (.inl rfl) fun real hreal _ => ?_
  have hfails : ∃ e, real = .error e := by
    obtain ⟨n, rfl⟩ := told_call hreal fun _ _ => rfl
    exact hfile.upperAccess n R_OK
  obtain ⟨e, rfl⟩ := hfails
  refine (sqfsCheckPath_does hfile).bind ?_
  rintro _ _ ⟨rfl, rfl⟩
  refine .neg (fun h => h rfl) (.plain (.inr (.inl rfl)) fun _ _ _ => ?_)
  refine (sqfsStatImpl_does hfile).bind ?_
  rintro _ _ ⟨⟨blockSize, rfl⟩, rfl⟩
  refine .plain (.inl rfl) fun _ _ _ => .plain (.inr (.inr rfl)) fun _ _ _ => ?_
  have hgranted : accessDecision (sqfsFillStat b blockSize inode).stMode R_OK = none := by
    rw [sqfsFillStat_stMode, accessDecision, if_neg (by decide),
      if_neg fun h => hfile.readable h.2, if_neg fun h => absurd h.1 (by decide)]
  simp only [hgranted]
  refine (Does.logHook _).bind ?_
  rintro _ _ rfl
  exact .ret ⟨rfl, rfl⟩

end
end HookSqfs.Clients
