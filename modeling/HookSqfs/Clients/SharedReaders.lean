import HookSqfs.Clients.TestOutcomes

/-! Threads that read one descriptor together, each from where the one before it stopped. -/
namespace HookSqfs.Clients
open Manager Hooks Interaction

/-- What a thread knows: how much it has taken, the offset while it holds the lock, and
whether it has seen the end of the file. -/
structure Reader where
  taken : Nat
  sees : Option (BitVec 64)
  ended : Prop

namespace Reader

/-- What it knows after a request, where the offset was `position` and the file is `size` long. -/
def next (size : Nat) (position : BitVec 64) (g : Reader) : Req → Reader
  | .fdMapEntry _ => { g with sees := some position }
  | .fdMapSetOffset _ offset =>
    { taken := g.taken + (offset.toNat - position.toNat), sees := some offset
      ended := g.ended ∨ offset.toNat = size }
  | .unlock => { g with sees := none }
  | _ => g

end Reader

/-- The reads move the offset on, inside the file. -/
def readerContract (o : Oracle) (env : Env) (fd : Nat) (p : InodePtr) (size : Nat) :
    Contract ImageReq ImageAnswer Reader where
  permits held g
    | .hook (.fdMapSetOffset key offset) => held ≠ 0 ∧ key = fd ∧
      ∃ position, g.sees = some position ∧ position ≤ offset ∧ offset.toNat ≤ size
    | .hook e => Plain e
    | _ => False
  answers _ g
    | .hook e, a, g' => ∃ position : BitVec 64, (∀ q, g.sees = some q → q = position) ∧
      g.taken ≤ position.toNat ∧ position.toNat ≤ size ∧
      (Slot.mapped fd p position).told o env e a ∧ NotRefused e a ∧ g' = g.next size position e
    | _, _, _ => True
  undefined := False

/-- The offset is what the threads have taken together; its holder sees it, and it stays at the
end once that is seen. -/
structure Together (env : Env) (fd : Nat) (p : InodePtr) (size : Nat) (w : World)
    (xs : List (Nat × Reader)) (position : BitVec 64) : Prop where
  shared : Shared env w [(0, .mapped fd p position)]
  sum : position.toNat = (xs.map fun x => x.2.taken).sum
  inside : position.toNat ≤ size
  sees : ∀ x ∈ xs, ∀ q, x.2.sees = some q → x.1 ≠ 0 ∧ q = position
  ended : ∀ x ∈ xs, x.2.ended → position.toNat = size

namespace Together
variable {env : Env} {fd size held held' : Nat} {p : InodePtr} {w w' : World}
  {before after : List (Nat × Reader)} {g g' : Reader} {position position' : BitVec 64}

/-- A request that leaves the offset alone. -/
private theorem keep (h : Together env fd p size w (before ++ (held, g) :: after) position)
    (hshared : Shared env w' [(0, .mapped fd p position)]) (htaken : g'.taken = g.taken)
    (hended : g'.ended → g.ended) (hsees : ∀ q, g'.sees = some q → held' ≠ 0 ∧ q = position) :
    Together env fd p size w' (before ++ (held', g') :: after) position where
  shared := hshared
  sum := by
    rw [h.sum]
    simp [htaken]
  inside := h.inside
  sees x hx q hq := by
    rcases mem_middle.mp hx with rfl | hx
    · exact hsees q hq
    · exact h.sees x (mem_middle.mpr (.inr hx)) q hq
  ended x hx hend := by
    rcases mem_middle.mp hx with rfl | hx
    · exact h.ended _ (mem_middle.mpr (.inl rfl)) (hended hend)
    · exact h.ended x (mem_middle.mpr (.inr hx)) hend

/-- The holder of the lock moves the offset on. -/
private theorem move (h : Together env fd p size w (before ++ (held, g) :: after) position)
    (hshared : Shared env w' [(0, .mapped fd p position')]) (hheld : held ≠ 0)
    (hothers : ∀ x ∈ before ++ after, x.1 = 0) (hle : position ≤ position')
    (hinside : position'.toNat ≤ size) :
    Together env fd p size w'
      (before ++ (held, { taken := g.taken + (position'.toNat - position.toNat)
                          sees := some position', ended := g.ended ∨ position'.toNat = size }) :: after)
      position' where
  shared := hshared
  sum := by
    have hle : position.toNat ≤ position'.toNat := hle
    have hsum := h.sum
    simp only [List.map_append, List.map_cons, List.sum_append, List.sum_cons] at hsum ⊢
    omega
  inside := hinside
  sees x hx q hq := by
    rcases mem_middle.mp hx with rfl | hx
    · cases hq
      exact ⟨hheld, rfl⟩
    · exact absurd (hothers x hx) (h.sees x (mem_middle.mpr (.inr hx)) q hq).1
  ended x hx hend := by
    have hle : position.toNat ≤ position'.toNat := hle
    have hstay : position.toNat = size → position'.toNat = size := by omega
    rcases mem_middle.mp hx with rfl | hx
    · exact hend.elim (fun hend => hstay (h.ended _ (mem_middle.mpr (.inl rfl)) hend)) id
    · exact hstay (h.ended x (mem_middle.mpr (.inr hx)) hend)

end Together

section
variable {o : Oracle} {i : Nat → ImageOracle} {env : Env} {path : CString} {fd size : Nat}
  {p : InodePtr}

theorem readerContract_upheld
    (hupper : ∀ n flags mode, ∃ e, o.answer n (.open (some path) flags mode) = .error e) :
    (threadMachine o i).Upholds (readerContract o env fd p size) NotRefusedLoad
      fun s xs => ∃ position, Together env fd p size s.world xs position where
  serves := by
    rintro s n l before after held g e ⟨position, h⟩ hpermits hacquires hothers hneeds hgranted
    have hself : (held, g) ∈ before ++ (held, g) :: after := List.mem_append_right _ List.mem_cons_self
    have hsees : ∀ q, g.sees = some q → held ≠ 0 ∧ q = position := h.sees _ hself
    have htaken : g.taken ≤ position.toNat := by
      rw [h.sum]
      exact List.le_sum_of_mem (List.mem_map.mpr ⟨_, hself, rfl⟩)
    have hplain : ∀ e, Plain e → NotRefused e ((threadMachine o i).handle (s.enter n l) (.hook e)).1 →
        (Slot.mapped fd p position).told o env e
            ((threadMachine o i).handle (s.enter n l) (.hook e)).1 ∧
          Shared env ((threadMachine o i).handle (s.enter n l) (.hook e)).2.world
            [(0, .mapped fd p position)] := by
      intro e he hgranted
      obtain ⟨htold, hshared⟩ := h.shared.turn hupper he.permits n l hgranted
      rw [he.next] at hshared
      exact ⟨htold, hshared⟩
    have hkeep : ∀ e : Req, Plain e → (∀ position, g.next size position e = g) →
        NotRefused e ((threadMachine o i).handle (s.enter n l) (.hook e)).1 →
        (held ≠ 0 → managerLocking.after (.hook e) held ≠ 0) →
        ∃ g', (readerContract o env fd p size).answers held g (.hook e)
            ((threadMachine o i).handle (s.enter n l) (.hook e)).1 g' ∧
          ∃ position, Together env fd p size
            ((threadMachine o i).handle (s.enter n l) (.hook e)).2.world
            (before ++ (managerLocking.after (.hook e) held, g') :: after) position := by
      intro e he hnext hgranted hheld
      obtain ⟨htold, hshared⟩ := hplain e he hgranted
      refine ⟨g, ?_, position, h.keep hshared rfl id fun q hq => ⟨hheld (hsees q hq).1, (hsees q hq).2⟩⟩
      cases e <;> exact ⟨position, fun q hq => (hsees q hq).2, htaken, h.inside, htold, hgranted, (hnext position).symm⟩
    cases e with
    | hook e =>
      cases e with
      | fdMapSetOffset key offset =>
        obtain ⟨hheld, rfl, q, hq, hle, hinside⟩ := hpermits
        obtain ⟨-, rfl⟩ := hsees q hq
        obtain ⟨htold, hshared⟩ := h.shared.turn (e := .fdMapSetOffset fd offset) hupper
          ⟨fd, p, q, rfl, rfl⟩ n l trivial
        refine ⟨_, ⟨q, fun q' hq' => (hsees q' hq').2, htaken, h.inside, htold, trivial, rfl⟩, offset, ?_⟩
        exact h.move hshared hheld (hothers hheld) hle hinside
      | fdMapEntry key =>
        have hheld : held ≠ 0 := hneeds rfl rfl
        obtain ⟨htold, hshared⟩ := hplain _ hpermits hgranted
        refine ⟨_, ⟨position, fun q hq => (hsees q hq).2, htaken, h.inside, htold, hgranted, rfl⟩, position, ?_⟩
        refine h.keep hshared rfl id fun q hq => ?_
        cases hq
        exact ⟨hheld, rfl⟩
      | unlock =>
        obtain ⟨htold, hshared⟩ := hplain _ hpermits hgranted
        refine ⟨_, ⟨position, fun q hq => (hsees q hq).2, htaken, h.inside, htold, hgranted, rfl⟩, position, ?_⟩
        exact h.keep hshared rfl id fun q hq => by cases hq
      | lock => exact hkeep .lock hpermits (fun _ => rfl) hgranted fun _ => Nat.succ_ne_zero _
      | _ => exact hkeep _ hpermits (fun _ => rfl) hgranted id
    | _ => exact hpermits.elim

/-- A thread that knows `g` comes to an end with `Q`. -/
def Reads {α : Type} (o : Oracle) (env : Env) (fd : Nat) (p : InodePtr) (size : Nat) (q : Hook α)
    (held : Nat) (g : Reader) (Q : α → Nat → Reader → Prop) : Prop :=
  (relay q).Meets managerLocking (readerContract o env fd p size) held g Q

section
variable {α β : Type} {held : Nat} {g : Reader} {Q S : α → Nat → Reader → Prop}
  {position position' : BitVec 64}

theorem Reads.bind {q : Hook α} {f : α → Hook β} {Q : β → Nat → Reader → Prop}
    (hq : Reads o env fd p size q held g S)
    (hf : ∀ a held' g', S a held' g' → Reads o env fd p size (f a) held' g' Q) :
    Reads o env fd p size (q >>= f) held g Q := by
  unfold Reads
  rw [relay_bind]
  exact Program.Meets.bind hq hf

private theorem Reads.plain {e : Req} {k : Answer e → Hook α} (he : Plain e)
    (h : ∀ a position, (∀ q, g.sees = some q → q = position) → g.taken ≤ position.toNat →
      position.toNat ≤ size → (Slot.mapped fd p position).told o env e a →
      Reads o env fd p size (k a) (managerLocking.after (.hook e) held) (g.next size position e) Q) :
    Reads o env fd p size (.request e k) held g Q := by
  refine ⟨?_, ?_⟩
  · cases e with
    | fdMapSetOffset key offset => rcases he with he | he | he <;> cases he
    | _ => exact he
  · rintro a g' ⟨position, hsees, htaken, hinside, htold, -, rfl⟩
    exact h a position hsees htaken hinside htold

/-- A request that leaves the thread as wise as it was. -/
private theorem Reads.idle {e : Req} {k : Answer e → Hook α} (he : e.isLog = true)
    (h : ∀ a, Reads o env fd p size (k a) held g Q) :
    Reads o env fd p size (.request e k) held g Q := by
  refine .plain (.inl (Req.isLog.calm he)) fun a position _ _ _ _ => ?_
  cases e with
  | setErrno v => exact h a
  | logOutputFd => exact h a
  | vsnprintf => exact h a
  | writeResults => exact h a
  | logged bytes => exact h a
  | getenv v => exact h a
  | _ => cases he

/-- The holder of the lock moves the offset on. -/
private theorem Reads.move {k : Answer (.fdMapSetOffset fd position') → Hook α} (hheld : held ≠ 0)
    (hsees : g.sees = some position) (hle : position ≤ position') (hinside : position'.toNat ≤ size)
    (h : Reads o env fd p size (k ()) held
      { taken := g.taken + (position'.toNat - position.toNat), sees := some position'
        ended := g.ended ∨ position'.toNat = size } Q) :
    Reads o env fd p size (.request (.fdMapSetOffset fd position') k) held g Q := by
  refine ⟨⟨hheld, rfl, position, hsees, hle, hinside⟩, ?_⟩
  rintro _ g' ⟨q, hq, -, -, -, -, rfl⟩
  cases hq position hsees
  exact h

private theorem Reads.log {q : Hook α} (hq : q.All fun e => e.isLog) :
    Reads o env fd p size q held g fun _ held' g' => held' = held ∧ g' = g := by
  induction q with
  | ret a => exact ⟨rfl, rfl⟩
  | undefined => exact hq.elim
  | request e k ih => exact .idle hq.1 fun a => ih a (hq.2 a)

end

section
variable {relative : CString} {inode : Inode} {bytes : List Byte} {b : Bits} {addr : Nat} {g : Reader}

/-- One `read` on the shared descriptor: what it gives begins where the offset was, and the
offset is moved behind it. -/
theorem sqfsRead_reads (hfile : LowerFile o env path relative inode bytes) {count : BitVec b.width}
    (hcount : (count.setWidth 32).toNat < readLimit) :
    Reads o env fd { addr, inode } bytes.length (sqfsRead b fd count) 0 g fun r held g' =>
      held = 0 ∧ ∃ n, g.taken ≤ n ∧ n + r.data.length ≤ bytes.length ∧
        r = readOf bytes n (count.setWidth 32).toNat ∧
        g' = { taken := g.taken + r.data.length, sees := none
               ended := g.ended ∨ n + r.data.length = bytes.length } := by
  refine .plain (.inr (.inl rfl)) fun _ _ _ _ _ _ => ?_
  refine .plain (.inl rfl) fun found _ _ _ _ hfound => ?_
  have hfound : found = true := hfound fd _ _ rfl rfl
  subst hfound
  -- The section: the entry, the data from its offset on, the offset behind them.
  have hsection : Reads o env fd { addr, inode } bytes.length (sqfsReadMapped b fd count) 1 g
      fun r held g' => held = 1 ∧ ∃ n, g.taken ≤ n ∧ n + r.data.length ≤ bytes.length ∧
        r = readOf bytes n (count.setWidth 32).toNat ∧ ∃ sees, g' =
          { taken := g.taken + r.data.length, sees
            ended := g.ended ∨ n + r.data.length = bytes.length } := by
    refine .plain (.inl rfl) fun entry position _ htaken hinside hentry => ?_
    obtain ⟨entry, key, q, offset⟩ := entry
    obtain ⟨rfl, rfl, rfl⟩ := hentry fd _ _ rfl rfl
    have htaken : g.taken ≤ offset.toNat := htaken
    have hinside : offset.toNat ≤ bytes.length := hinside
    refine .plain (.inl rfl) fun ret _ _ _ _ hret => ?_
    obtain ⟨n, rfl⟩ := told_call hret fun _ _ => rfl
    rw [hfile.reads _ _ _ _ hcount]
    refine .plain (.inl rfl) fun _ _ _ _ _ _ => (Reads.log (logHook_all _)).bind ?_
    rintro _ _ _ ⟨rfl, rfl⟩
    let data := (bytes.drop offset.toNat).take (count.setWidth 32).toNat
    have hlength : offset.toNat + data.length ≤ bytes.length := by
      simp only [data, List.length_take, List.length_drop]
      omega
    have hmoved : (offset + BitVec.ofNat 64 data.length).toNat = offset.toNat + data.length := by
      have := hfile.length_lt
      rw [BitVec.toNat_add, BitVec.toNat_ofNat]
      omega
    have hle : offset ≤ offset + BitVec.ofNat 64 data.length := by
      rw [BitVec.le_def, hmoved]
      omega
    refine .move Nat.one_ne_zero rfl hle (hmoved ▸ hlength) (.idle rfl fun _ => ?_)
    refine ⟨rfl, offset.toNat, htaken, hlength, rfl, some (offset + BitVec.ofNat 64 data.length), ?_⟩
    rw [hmoved, Nat.add_sub_cancel_left]
    rfl
  refine hsection.bind ?_
  rintro r _ _ ⟨rfl, n, htaken, hlength, hr, sees, rfl⟩
  refine .plain (.inr (.inr rfl)) fun _ _ _ _ _ _ => ⟨rfl, n, htaken, hlength, hr, rfl⟩

/-- A reader counts what it takes, and stops when it has seen the end. -/
theorem sharedReadMain_reads (hfile : LowerFile o env path relative inode bytes) {fuel : Nat}
    (htaken : g.taken ≤ bytes.length) (hfuel : bytes.length - g.taken < fuel) :
    Reads o env fd { addr, inode } bytes.length (sharedReadMain b fd fuel g.taken) 0 g
      fun r _ g' => r = some (g'.taken, 0) ∧ g'.ended := by
  induction fuel generalizing g with
  | zero => omega
  | succ fuel ih =>
    refine (sqfsRead_reads hfile (toNat_count_lt (by decide))).bind ?_
    rintro r held _ ⟨rfl, n, hbelow, hlength, hr, rfl⟩
    rw [toNat_count (by decide)] at hr
    have hret : r.ret = r.data.length := by rw [hr]; rfl
    have hdata : r.data.length = min READ_CHUNK (bytes.length - n) := by
      rw [hr]
      simp [readOf]
    have hchunk : READ_CHUNK = 8192 := rfl
    simp only [hret]
    rw [if_neg (by omega)]
    by_cases hzero : (r.data.length : Int) = 0
    · rw [if_pos hzero]
      refine ⟨?_, .inr (by omega)⟩
      simp only [Option.some.injEq, Prod.mk.injEq, and_true]
      omega
    · rw [if_neg hzero, if_pos (by omega), Int.toNat_natCast]
      refine ih (g := { taken := g.taken + r.data.length, sees := none
                        ended := g.ended ∨ n + r.data.length = bytes.length }) ?_ ?_
      · exact (Nat.add_le_add_right hbelow _).trans hlength
      · simp only
        omega

end
end

end HookSqfs.Clients
