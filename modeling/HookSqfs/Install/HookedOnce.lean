import HookSqfs.Install.HookTable
import Mathlib.Data.List.Nodup

/-! Which addresses a run of `install_hooks` prepares, and what a failed one leaves. -/
namespace HookSqfs.Install

/-- Only the pairs that libc may alias coincide. -/
def AliasesOnly (funcs : LibcFunctions) : Prop :=
  ∀ a b, funcs a = funcs b → a = b ∨ (a = .pread ∧ b = .pread64) ∨ (a = .pread64 ∧ b = .pread) ∨
    (a = .lseek ∧ b = .lseek64) ∨ (a = .lseek64 ∧ b = .lseek) ∨
    (a = .close ∧ b = .closeNocancel) ∨ (a = .closeNocancel ∧ b = .close)

/-- A trampoline is at no address of the table. -/
def Fresh (f : Funchook) (funcs : LibcFunctions) : Prop :=
  ∀ name target, f.prepare name = some target → ∀ other, target ≠ funcs other

/-- The entries that the chain prepares: all, but for `__close_nocancel` where it is
`close`. -/
def prepares (funcs : LibcFunctions) (name : LibcFunction) : Bool :=
  name ≠ .closeNocancel || funcs .closeNocancel ≠ funcs .close

/-- Every address of the table once. -/
def EachOnce (funcs : LibcFunctions) (addresses : List Nat) : Prop :=
  addresses.Nodup ∧ ∀ a, a ∈ addresses ↔ ∃ name, funcs name = a

/-- A run that no prepare fails prepares each address once, and one that fails leaves the
table as it was. -/
structure HooksOnce (f : Funchook) (s : Hooking) : Prop where
  once : f.create = true → (∀ c ∈ (installHooks f s).calls, c.ok = true) →
    EachOnce s.libcFuncs ((installHooks f s).calls.map (·.address))
  restored : f.create = false ∨ (∃ c ∈ (installHooks f s).calls, c.ok = false) ∨
    f.install = false → (installHooks f s).libcFuncs = s.libcFuncs

section chain
variable {f : Funchook} {funcs : LibcFunctions} {before : List FunchookCall}

/-- The prepare of an entry that the table has as libc has it. -/
def prepareOf (f : Funchook) (funcs : LibcFunctions) (name : LibcFunction) : FunchookCall :=
  .prepare name (funcs name) (f.prepare name)

/-- The state when the entries `done` have been prepared, after the calls `before`. -/
structure Prepared (f : Funchook) (funcs : LibcFunctions) (before : List FunchookCall)
    (done : List LibcFunction) (s : Hooking) : Prop where
  trampoline : s.trampoline = funcs
  handle : s.hooksFunchook = true
  rest : ∀ name, name ∉ done → s.libcFuncs name = funcs name
  patched : ∀ name ∈ done, f.prepare name = some (s.libcFuncs name)
  history : s.history = before ++ done.map (prepareOf f funcs)

/-- The state when one more prepare has failed. -/
structure PrepareFailed (f : Funchook) (funcs : LibcFunctions) (before : List FunchookCall)
    (s : Hooking) : Prop where
  trampoline : s.trampoline = funcs
  handle : s.hooksFunchook = true
  history : ∃ done name, (∀ e ∈ done, f.prepare e ≠ none) ∧ f.prepare name = none ∧
    s.history = before ++ (done ++ [name]).map (prepareOf f funcs)

theorem Prepared.ne_none {done : List LibcFunction} {s : Hooking}
    (h : Prepared f funcs before done s) : ∀ e ∈ done, f.prepare e ≠ none := fun e he hnone =>
  nomatch hnone.symm.trans (h.patched e he)

theorem Prepared.calls {done : List LibcFunction} {s : Hooking}
    (h : Prepared f funcs before done s)
    (hbefore : before.filterMap FunchookCall.prepareCall = []) :
    s.calls = done.map fun name => { address := funcs name, ok := true } := by
  rw [Hooking.calls, h.history, List.filterMap_append, hbefore, List.nil_append,
    List.filterMap_map, ← List.filterMap_eq_map]
  refine List.filterMap_congr fun name hname => ?_
  have hok := h.patched name hname
  simp [prepareOf, FunchookCall.prepareCall, hok]

/-- One prepare: it fails, or one more entry is prepared. -/
theorem prepareHook_cases {done : List LibcFunction} {name : LibcFunction} {s : Hooking}
    (h : Prepared f funcs before done s) (hn : name ∉ done) :
    (f.prepare name = none ∧ (prepareHook f name s).1 = true ∧
      PrepareFailed f funcs before (prepareHook f name s).2) ∨
    (f.prepare name ≠ none ∧ (prepareHook f name s).1 = false ∧
      Prepared f funcs before (done ++ [name]) (prepareHook f name s).2) := by
  have hhistory : s.history ++ [.prepare name (s.libcFuncs name) (f.prepare name)] =
      before ++ (done ++ [name]).map (prepareOf f funcs) := by
    rw [h.history, h.rest name hn, List.map_append, List.append_assoc]
    rfl
  unfold prepareHook
  rw [hhistory]
  cases hp : f.prepare name with
  | none =>
    exact .inl ⟨rfl, rfl, h.trampoline, h.handle, done, name, h.ne_none, hp, rfl⟩
  | some target =>
    refine .inr ⟨nofun, rfl, h.trampoline, h.handle, ?_, ?_, rfl⟩
    · intro other ho
      rw [List.mem_append, List.mem_singleton, not_or] at ho
      exact (Function.update_of_ne ho.2 _ _).trans (h.rest other ho.1)
    · intro other ho
      rcases List.mem_append.mp ho with ho | ho
      · have hne : other ≠ name := by
          intro he
          exact hn (he ▸ ho)
        dsimp only
        rw [Function.update_of_ne hne]
        exact h.patched other ho
      · rw [List.mem_singleton.mp ho, hp]
        dsimp only
        rw [Function.update_self]

/-- The test in front of a prepare, once what it compares with has been prepared: a
trampoline is never the alias it has replaced. -/
theorem prepareTest_eq (hfresh : Fresh f funcs) (hnull : ∀ name, funcs name ≠ 0)
    {done : List LibcFunction} {name : LibcFunction} {s : Hooking}
    (h : Prepared f funcs before done s) (hn : name ∉ done) (hp : name = .pread64 → .pread ∈ done)
    (hl : name = .lseek64 → .lseek ∈ done) : prepareTest s name = prepares funcs name := by
  have hother (a b : LibcFunction) (ha : a ∉ done) (hb : b ∈ done) :
      s.libcFuncs a ≠ s.libcFuncs b := by
    rw [h.rest a ha]
    exact (hfresh b _ (h.patched b hb) a).symm
  cases name with
  | pread64 => simpa [prepareTest, prepares] using hother _ _ hn (hp rfl)
  | lseek64 => simpa [prepareTest, prepares] using hother _ _ hn (hl rfl)
  | closeNocancel => simp [prepareTest, prepares, h.trampoline, hnull]
  | _ => rfl

/-- The entries that the chain tests against another one come after it. -/
theorem prepareOrder_tests {pre suf : List LibcFunction} {name : LibcFunction}
    (h : pre ++ name :: suf = prepareOrder) :
    name ∉ pre ∧ (name = .pread64 → .pread ∈ pre) ∧ (name = .lseek64 → .lseek ∈ pre) := by
  have hpre : pre = prepareOrder.take pre.length := by
    rw [← h, List.take_left]
  have hname : prepareOrder[pre.length]? = some name := by
    rw [← h, List.getElem?_append_right (Nat.le_refl _), Nat.sub_self]
    rfl
  have hall : ∀ n < 13, ∀ e, prepareOrder[n]? = some e → e ∉ prepareOrder.take n ∧
      (e = .pread64 → .pread ∈ prepareOrder.take n) ∧
      (e = .lseek64 → .lseek ∈ prepareOrder.take n) := by decide
  have hlen : pre.length < 13 := (List.getElem?_eq_some_iff.mp hname).1
  rw [hpre]
  exact hall _ hlen name hname

/-- The chain from any point: a prepare fails and what is there to restore is kept, or
every entry that is to be prepared has been. -/
theorem prepareChain_cases (hfresh : Fresh f funcs) (hnull : ∀ name, funcs name ≠ 0)
    (names : List LibcFunction) :
    ∀ (pre : List LibcFunction) (s : Hooking), pre ++ names = prepareOrder →
      Prepared f funcs before (pre.filter (prepares funcs)) s →
      ((∃ name ∈ names, prepares funcs name ∧ f.prepare name = none) ∧
        (prepareChain f names s).1 = true ∧
        PrepareFailed f funcs before (prepareChain f names s).2) ∨
      ((∀ name ∈ names, prepares funcs name → f.prepare name ≠ none) ∧
        (prepareChain f names s).1 = false ∧
        Prepared f funcs before (prepareOrder.filter (prepares funcs))
          (prepareChain f names s).2) := by
  induction names with
  | nil =>
    intro pre s he h
    rw [List.append_nil] at he
    exact .inr ⟨nofun, rfl, he ▸ h⟩
  | cons name names ih =>
    intro pre s he h
    obtain ⟨hn, hp, hl⟩ := prepareOrder_tests he
    have hdone : name ∉ pre.filter (prepares funcs) := fun hm => hn (List.mem_filter.mp hm).1
    have htest : prepareTest s name = prepares funcs name :=
      prepareTest_eq hfresh hnull h hdone
        (fun e => List.mem_filter.mpr ⟨hp e, rfl⟩) (fun e => List.mem_filter.mpr ⟨hl e, rfl⟩)
    have he' : (pre ++ [name]) ++ names = prepareOrder := by
      rw [List.append_assoc]
      exact he
    rw [prepareChain, htest]
    by_cases ht : prepares funcs name
    · rw [if_pos ht]
      rcases prepareHook_cases h hdone with ⟨hf, h1, hfailed⟩ | ⟨hf, h1, hs⟩
      · dsimp only
        rw [if_pos h1]
        exact .inl ⟨⟨name, List.mem_cons_self, ht, hf⟩, rfl, hfailed⟩
      · dsimp only
        rw [if_neg (by rw [h1]; exact Bool.false_ne_true)]
        have hs' : Prepared f funcs before ((pre ++ [name]).filter (prepares funcs))
            (prepareHook f name s).2 := by
          rw [List.filter_append, List.filter_cons_of_pos ht]
          exact hs
        rcases ih _ _ he' hs' with ⟨⟨e, hm, hrest⟩, hout⟩ | ⟨hall, hout⟩
        · exact .inl ⟨⟨e, List.mem_cons_of_mem _ hm, hrest⟩, hout⟩
        · refine .inr ⟨?_, hout⟩
          intro e hm hpe
          rcases List.mem_cons.mp hm with rfl | hm
          · exact hf
          · exact hall e hm hpe
    · rw [if_neg ht]
      have hs' : Prepared f funcs before ((pre ++ [name]).filter (prepares funcs)) s := by
        rw [List.filter_append, List.filter_cons_of_neg ht, List.filter_nil, List.append_nil]
        exact h
      rcases ih _ _ he' hs' with ⟨⟨e, hm, hrest⟩, hout⟩ | ⟨hall, hout⟩
      · exact .inl ⟨⟨e, List.mem_cons_of_mem _ hm, hrest⟩, hout⟩
      · refine .inr ⟨?_, hout⟩
        intro e hm hpe
        rcases List.mem_cons.mp hm with rfl | hm
        · exact absurd hpe ht
        · exact hall e hm hpe

theorem mem_prepareOrder (name : LibcFunction) : name ∈ prepareOrder := by
  cases name <;> decide

/-- The entries prepared have each address once when neither of the first two pairs is
aliased. -/
private theorem eachOnce_prepares_iff (halias : AliasesOnly funcs) :
    EachOnce funcs ((prepareOrder.filter (prepares funcs)).map funcs) ↔
      funcs .pread ≠ funcs .pread64 ∧ funcs .lseek ≠ funcs .lseek64 := by
  have hmem (name : LibcFunction) (h : prepares funcs name) :
      name ∈ prepareOrder.filter (prepares funcs) :=
    List.mem_filter.mpr ⟨mem_prepareOrder name, h⟩
  constructor
  · intro h
    have hinj := List.inj_on_of_nodup_map h.1
    exact ⟨fun e => absurd (hinj (hmem .pread rfl) (hmem .pread64 rfl) e) (by decide),
      fun e => absurd (hinj (hmem .lseek rfl) (hmem .lseek64 rfl) e) (by decide)⟩
  · intro h
    constructor
    · apply List.Nodup.map_on
      · intro a ha b hb e
        have hpa := (List.mem_filter.mp ha).2
        have hpb := (List.mem_filter.mp hb).2
        rcases halias a b e with hab | ⟨rfl, rfl⟩ | ⟨rfl, rfl⟩ | ⟨rfl, rfl⟩ | ⟨rfl, rfl⟩ |
          ⟨rfl, rfl⟩ | ⟨rfl, rfl⟩
        · exact hab
        · exact absurd e h.1
        · exact absurd e.symm h.1
        · exact absurd e h.2
        · exact absurd e.symm h.2
        · simp [prepares, e] at hpb
        · simp [prepares, e] at hpa
      · exact List.Nodup.filter _ (by decide)
    · intro a
      rw [List.mem_map]
      constructor
      · rintro ⟨name, -, ha⟩
        exact ⟨name, ha⟩
      · rintro ⟨name, ha⟩
        by_cases hp : prepares funcs name
        · exact ⟨name, hmem name hp, ha⟩
        · simp only [prepares, Bool.or_eq_true, decide_eq_true_eq, not_or, not_not] at hp
          refine ⟨.close, hmem .close rfl, ?_⟩
          rw [← ha, hp.1, hp.2]

end chain

section run

variable {f : Funchook} {s : Hooking}

/-- The state once there is a handle. -/
def Hooking.handled (s : Hooking) : Hooking :=
  { s with
    trampoline := s.libcFuncs
    hooksFunchook := true
    history := s.history ++ [.create true] }

theorem handled_prepared (f : Funchook) (s : Hooking) :
    Prepared f s.libcFuncs (s.history ++ [.create true])
      (([] : List LibcFunction).filter (prepares s.libcFuncs)) s.handled where
  trampoline := rfl
  handle := rfl
  rest _ _ := rfl
  patched _ h := absurd h List.not_mem_nil
  history := (List.append_nil _).symm

/-- The state once the installation has been tried. -/
def Hooking.tried (f : Funchook) (s : Hooking) : Hooking :=
  { s with history := s.history ++ [.install f.install] }

theorem installHooks_loaded (hnull : ∀ name, s.libcFuncs name ≠ 0) (hc : f.create = true) :
    installHooks f s =
      if (prepareChain f prepareOrder s.handled).1 then
        uninstallHooks f (prepareChain f prepareOrder s.handled).2
      else if f.install then (prepareChain f prepareOrder s.handled).2.tried f
      else uninstallHooks f ((prepareChain f prepareOrder s.handled).2.tried f) := by
  have hloaded : libcFuncPtrsLoaded s.libcFuncs = true := by
    simp [libcFuncPtrsLoaded, hnull]
  rw [installHooks, if_pos hloaded, if_pos hc, hc]
  rfl

theorem uninstallHooks_handled (h : s.hooksFunchook = true) :
    uninstallHooks f s =
      { s with
        hooksFunchook := false
        libcFuncs := s.trampoline
        history := s.history ++ [.uninstall f.uninstall, .destroy f.destroy] } := if_pos h

/-- A run that has a handle: a prepare fails and the hooks are taken back, or each entry that
is to be prepared has been and they are tried. -/
theorem installHooks_cases (hnull : ∀ name, s.libcFuncs name ≠ 0) (hfresh : Fresh f s.libcFuncs)
    (hc : f.create = true) :
    (∃ name, prepares s.libcFuncs name ∧ f.prepare name = none ∧
      ∃ s', PrepareFailed f s.libcFuncs (s.history ++ [.create true]) s' ∧
        installHooks f s = uninstallHooks f s') ∨
    ((∀ name, prepares s.libcFuncs name → f.prepare name ≠ none) ∧
      ∃ s', Prepared f s.libcFuncs (s.history ++ [.create true])
          (prepareOrder.filter (prepares s.libcFuncs)) s' ∧
        installHooks f s = if f.install then s'.tried f else uninstallHooks f (s'.tried f)) := by
  have hrun := installHooks_loaded hnull hc
  rcases prepareChain_cases hfresh hnull prepareOrder [] _ rfl (handled_prepared f s) with
    ⟨⟨name, -, hp, hfail⟩, hout, hfailed⟩ | ⟨hall, hout, hprepared⟩
  · rw [if_pos hout] at hrun
    exact .inl ⟨name, hp, hfail, _, hfailed, hrun⟩
  · rw [if_neg (by rw [hout]; exact Bool.false_ne_true)] at hrun
    exact .inr ⟨fun name => hall name (mem_prepareOrder name), _, hprepared, hrun⟩

/-- The prepares of a run that has a handle, and the table after one that fails. -/
private theorem installHooks_calls (hcalls : s.calls = []) (hnull : ∀ name, s.libcFuncs name ≠ 0)
    (hfresh : Fresh f s.libcFuncs) (hc : f.create = true) :
    ((∃ name, prepares s.libcFuncs name ∧ f.prepare name = none) ∧
      (installHooks f s).libcFuncs = s.libcFuncs ∧
      ∃ c ∈ (installHooks f s).calls, c.ok = false) ∨
    ((∀ name, prepares s.libcFuncs name → f.prepare name ≠ none) ∧
      (f.install = false → (installHooks f s).libcFuncs = s.libcFuncs) ∧
      (installHooks f s).calls = (prepareOrder.filter (prepares s.libcFuncs)).map
        fun name => { address := s.libcFuncs name, ok := true }) := by
  rcases installHooks_cases hnull hfresh hc with
    ⟨name, hp, hfail, s', hfailed, hrun⟩ | ⟨hall, s', hprepared, hrun⟩
  · rw [uninstallHooks_handled hfailed.handle] at hrun
    refine .inl ⟨⟨name, hp, hfail⟩, by rw [hrun]; exact hfailed.trampoline, ?_⟩
    obtain ⟨done, last, -, hlast, hhistory⟩ := hfailed.history
    refine ⟨{ address := s.libcFuncs last, ok := false }, ?_, rfl⟩
    rw [hrun, Hooking.calls, List.mem_filterMap]
    refine ⟨prepareOf f s.libcFuncs last, ?_, by rw [prepareOf, hlast]; rfl⟩
    simp [hhistory]
  · refine .inr ⟨hall, fun hi => ?_, ?_⟩
    · rw [hrun, hi, if_neg Bool.false_ne_true,
        uninstallHooks_handled (s := s'.tried f) hprepared.handle]
      exact hprepared.trampoline
    · have hbefore : (s.history ++ [FunchookCall.create true]).filterMap FunchookCall.prepareCall = [] := by
        rw [List.filterMap_append]
        exact congrArg (· ++ []) hcalls
      rw [hrun, ← hprepared.calls hbefore]
      split
      · simp [Hooking.calls, Hooking.tried, FunchookCall.prepareCall]
      · rw [uninstallHooks_handled (s := s'.tried f) hprepared.handle]
        simp [Hooking.calls, Hooking.tried, FunchookCall.prepareCall]

/-- A run prepares each address once, and a failed one restores the table, unless the
chain is gone through and `pread64` or `lseek64` is an alias: the tests read what the
prepares before them have rewritten. -/
theorem hooks_once_iff (f : Funchook) (s : Hooking) (hcalls : s.calls = [])
    (hnull : ∀ name, s.libcFuncs name ≠ 0) (halias : AliasesOnly s.libcFuncs)
    (hfresh : Fresh f s.libcFuncs) :
    HooksOnce f s ↔ f.create = false ∨
      (∃ name, (name = .closeNocancel → s.libcFuncs .closeNocancel ≠ s.libcFuncs .close) ∧
        f.prepare name = none) ∨
      (s.libcFuncs .pread ≠ s.libcFuncs .pread64 ∧
        s.libcFuncs .lseek ≠ s.libcFuncs .lseek64) := by
  have hprep (name : LibcFunction) : prepares s.libcFuncs name = true ↔
      (name = .closeNocancel → s.libcFuncs .closeNocancel ≠ s.libcFuncs .close) := by
    simp [prepares, imp_iff_not_or]
  cases hc : f.create with
  | false =>
    have hkeep : (installHooks f s).libcFuncs = s.libcFuncs := by
      unfold installHooks
      rw [hc]
      split <;> rfl
    exact ⟨fun _ => .inl rfl, fun _ => ⟨fun h => absurd h (by simp [hc]), fun _ => hkeep⟩⟩
  | true =>
    rcases installHooks_calls hcalls hnull hfresh hc with
      ⟨⟨name, hp, hfail⟩, hrestored, c, hm, hno⟩ | ⟨hall, hrestored, hcall⟩
    · constructor
      · intro _
        exact .inr (.inl ⟨name, (hprep name).mp hp, hfail⟩)
      · intro _
        refine ⟨fun _ hok => ?_, fun _ => hrestored⟩
        rw [hok c hm] at hno
        exact absurd hno (by decide)
    · have hok : ∀ c ∈ (installHooks f s).calls, c.ok = true := by
        intro c hm
        rw [hcall, List.mem_map] at hm
        obtain ⟨name, -, rfl⟩ := hm
        rfl
      have haddr : (installHooks f s).calls.map (·.address) =
          (prepareOrder.filter (prepares s.libcFuncs)).map s.libcFuncs := by
        rw [hcall, List.map_map]
        rfl
      constructor
      · intro h
        exact .inr (.inr ((eachOnce_prepares_iff halias).mp (haddr ▸ h.once hc hok)))
      · rintro (h | ⟨name, hp, hfail⟩ | h)
        · exact absurd h (by decide)
        · exact absurd hfail (hall name ((hprep name).mpr hp))
        · refine ⟨fun _ _ => haddr ▸ (eachOnce_prepares_iff halias).mpr h, ?_⟩
          rintro (h | ⟨c, hm, hno⟩ | hi)
          · rw [hc] at h
            exact absurd h (by decide)
          · rw [hok c hm] at hno
            exact absurd hno (by decide)
          · exact hrestored hi

end run

/-- Thirteen distinct addresses. -/
theorem hooks_once_iff_distinct :
    let f : Funchook :=
      { create := true, prepare := fun e => some (100 + e.ctorIdx), install := true,
        uninstall := true, destroy := true }
    let s : Hooking :=
      { libcFuncs := fun e => 1 + e.ctorIdx, trampoline := fun _ => 0, hooksFunchook := false,
        history := [] }
    HooksOnce f s ↔ f.create = false ∨
      (∃ name, (name = .closeNocancel → s.libcFuncs .closeNocancel ≠ s.libcFuncs .close) ∧
        f.prepare name = none) ∨
      (s.libcFuncs .pread ≠ s.libcFuncs .pread64 ∧
        s.libcFuncs .lseek ≠ s.libcFuncs .lseek64) :=
  hooks_once_iff _ _ rfl (fun e => by dsimp only; omega)
    (fun a b e => .inl (by cases a <;> cases b <;> first | rfl | exact absurd e (by decide)))
    (fun a t ht b => by
      rw [← Option.some.inj ht]
      cases a <;> cases b <;> decide)

/-- The 64-bit glibc, without `__close_nocancel`. -/
def aliasedLibc : LibcFunctions :=
  populateLibcFuncPtrs fun
    | .open => 1 | .read => 2 | .pread => 3 | .pread64 => 3 | .lseek => 4 | .lseek64 => 4
    | .close => 5 | .closeNocancel => 0 | .opendir => 6 | .readdir => 7 | .closedir => 8
    | .access => 9 | .xstat => 10

/-- There `pread` is prepared twice. -/
theorem alias_prepared_twice :
    ∃ (f : Funchook) (s : Hooking), s.calls = [] ∧ (∀ name, s.libcFuncs name ≠ 0) ∧
      AliasesOnly s.libcFuncs ∧ Fresh f s.libcFuncs ∧ ¬ HooksOnce f s ∧
      ((installHooks f s).calls.map (·.address)).count (s.libcFuncs .pread) = 2 := by
  let f : Funchook :=
    { create := true, prepare := fun e => some (100 + e.ctorIdx), install := true,
      uninstall := true, destroy := true }
  let s : Hooking :=
    { libcFuncs := aliasedLibc, trampoline := fun _ => 0, hooksFunchook := false, history := [] }
  refine ⟨f, s, rfl, ?_, ?_, ?_, ?_, ?_⟩
  · intro name
    cases name <;> decide
  · intro a b
    cases a <;> cases b <;> decide
  · intro a t ht b
    rw [← Option.some.inj ht]
    cases a <;> cases b <;> decide
  · intro h
    have honce := h.once rfl (by decide)
    exact absurd honce.1 (by decide)
  · decide

end HookSqfs.Install
