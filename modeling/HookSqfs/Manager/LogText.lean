import HookSqfs.Manager.Logging

/-! The text of a log line: what `log_hook` and `log_msg` keep of it in their buffer and what
the write loop delivers. -/
namespace HookSqfs.Manager
open Interaction

/-- Whether a write fails, or takes nothing, while some of `n` bytes are left. -/
def writeFails : List WriteResult → Nat → Bool
  | _, 0 => false
  | [], _ + 1 => false
  | .error e :: results, n + 1 => if e = Errno.EINTR then writeFails results (n + 1) else true
  | .ok 0 :: _, _ + 1 => true
  | .ok (k + 1) :: results, n + 1 => writeFails results (n - k)

theorem writeEffect_nil (results : List WriteResult) (e : Errno) :
    writeEffect results [] e = ([], e) := by
  cases results <;> rfl

theorem writeFails_zero (results : List WriteResult) : writeFails results 0 = false := by
  cases results <;> rfl

/-- The loop delivers bytes from the front, and all of them unless a write fails. -/
theorem writeEffect_delivers (results : List WriteResult) (bytes : CString) (e : Errno) :
    (writeEffect results bytes e).1 <+: bytes ∧
      ((writeEffect results bytes e).1 = bytes ↔ writeFails results bytes.length = false) := by
  induction results generalizing bytes e with
  | nil =>
    cases bytes with
    | nil => exact ⟨List.prefix_refl _, iff_of_true rfl rfl⟩
    | cons c bytes => exact ⟨List.prefix_refl _, iff_of_true rfl rfl⟩
  | cons r results ih =>
    cases bytes with
    | nil =>
      rw [writeEffect_nil, List.length_nil, writeFails_zero]
      exact ⟨List.prefix_refl _, iff_of_true rfl rfl⟩
    | cons c bytes =>
      cases r with
      | error f =>
        have heffect : writeEffect (.error f :: results) (c :: bytes) e =
            if f = Errno.EINTR then writeEffect results (c :: bytes) f else ([], f) := rfl
        rw [heffect, List.length_cons, writeFails]
        by_cases hf : f = Errno.EINTR
        · rw [if_pos hf, if_pos hf]
          exact ih (c :: bytes) f
        · rw [if_neg hf, if_neg hf]
          exact ⟨List.nil_prefix, iff_of_false (List.cons_ne_nil c bytes).symm Bool.noConfusion⟩
      | ok k =>
        cases k with
        | zero =>
          exact ⟨List.nil_prefix, iff_of_false (List.cons_ne_nil c bytes).symm Bool.noConfusion⟩
        | succ k =>
          obtain ⟨hpre, hall⟩ := ih ((c :: bytes).drop (k + 1)) e
          have hlen : ((c :: bytes).drop (k + 1)).length = bytes.length - k := by
            rw [List.drop_succ_cons, List.length_drop]
          have heffect : (writeEffect (.ok (k + 1) :: results) (c :: bytes) e).1 =
              (c :: bytes).take (k + 1) ++ (writeEffect results ((c :: bytes).drop (k + 1)) e).1 :=
            rfl
          have hsplit := List.take_append_drop (k + 1) (c :: bytes)
          rw [heffect, List.length_cons, writeFails, ← hlen, ← hall]
          constructor
          · conv_rhs => rw [← hsplit]
            exact (List.prefix_append_right_inj _).mpr hpre
          · conv_lhs => rhs; rw [← hsplit]
            exact List.append_right_inj _

/-- A text that leaves room for the terminator is handed over as it is. -/
theorem logBytes_of_lt {leading message : CString}
    (h : (leading ++ message).length < logBufSize) :
    logBytes leading message = leading ++ message := by
  have hlen : min (leading.length + message.length) logBufSize = (leading ++ message).length := by
    rw [List.length_append] at h ⊢
    exact Nat.min_eq_left h.le
  rw [logBytes, logBuf, List.take_of_length_le (Nat.le_sub_one_of_lt h), hlen, List.take_left]

/-- A longer one is cut, and its terminator is handed over with it. -/
theorem logBytes_of_le {leading message : CString}
    (h : logBufSize ≤ (leading ++ message).length) :
    logBytes leading message = (leading ++ message).take (logBufSize - 1) ++ [NUL] := by
  have hlen : (logBuf (leading ++ message)).length = logBufSize := by
    rw [logBuf, List.length_append, List.length_take, Nat.min_eq_left (by omega)]
    rfl
  rw [List.length_append] at h
  rw [logBytes, Nat.min_eq_right h, List.take_of_length_le hlen.le, logBuf]
  rfl

/-- What `log_write` is called with: nothing for an empty message, and nothing where the
leading text alone fills the buffer. -/
def handed (leading message : CString) : CString :=
  if message = [] ∨ leading.length ≥ logBufSize then [] else logBytes leading message

/-- The bytes delivered are the first of the text, and no fewer than the buffer holds before
its terminator unless a write fails. -/
structure Faithful (leading message : CString) (results : List WriteResult) (out : CString) :
    Prop where
  part : out <+: leading ++ message
  whole : writeFails results (handed leading message).length = false →
    out = (leading ++ message).take (logBufSize - 1)

/-- There is a message, its leading text fits, and the whole leaves room for the terminator
unless a write fails before that is reached. -/
structure KeepsTerminator (leading message : CString) (results : List WriteResult) : Prop where
  spoken : message = [] → leading = []
  fits : leading.length < logBufSize
  room : (leading ++ message).length < logBufSize ∨ writeFails results logBufSize = true

/-- Where nothing is handed over, nothing is delivered, and that is the text only if it is
empty. -/
private theorem faithful_of_handed_nil {leading message : CString} {results : List WriteResult}
    (h : handed leading message = []) :
    Faithful leading message results [] ↔ leading ++ message = [] := by
  constructor
  · intro hf
    have hout := hf.whole (by rw [h]; exact writeFails_zero results)
    have hlen := congrArg List.length hout
    rw [List.length_nil, List.length_take] at hlen
    apply List.eq_nil_of_length_eq_zero
    simp only [logBufSize] at hlen
    omega
  · intro ht
    exact ⟨List.nil_prefix, fun _ => by rw [ht, List.take_nil]⟩

/-- A text that is cut is delivered faithfully only if a write fails before its
terminator. -/
private theorem faithful_of_cut {leading message : CString} {results : List WriteResult} {e : Errno}
    (hle : logBufSize ≤ (leading ++ message).length)
    (hhanded : handed leading message = logBytes leading message) :
    Faithful leading message results (writeEffect results (logBytes leading message) e).1 ↔
      writeFails results logBufSize = true := by
  obtain ⟨hpre, hall⟩ := writeEffect_delivers results (logBytes leading message) e
  have hcut := logBytes_of_le hle
  have hsize : (logBytes leading message).length = logBufSize := by
    rw [hcut, List.length_append, List.length_take, Nat.min_eq_left (by omega)]
    rfl
  rw [hsize] at hall
  constructor
  · intro hf
    by_contra hno
    have hfails := Bool.eq_false_iff.mpr hno
    have hout := hf.whole (by rw [hhanded, hsize]; exact hfails)
    rw [hall.mpr hfails, hcut] at hout
    have hlen := congrArg List.length hout
    rw [List.length_append, List.length_singleton] at hlen
    omega
  · intro hfails
    refine ⟨?_, ?_⟩
    · -- the byte that is missing is the last one
      have hne : (writeEffect results (logBytes leading message) e).1 ≠
          logBytes leading message := by
        intro he
        rw [hall.mp he] at hfails
        cases hfails
      rw [hcut] at hpre hne ⊢
      rcases List.prefix_concat_iff.mp hpre with he | hp
      · exact absurd he hne
      · exact hp.trans (List.take_prefix _ _)
    · intro hwrites
      rw [hhanded, hsize, hfails] at hwrites
      cases hwrites

theorem faithful_iff (leading message : CString) (results : List WriteResult) (e : Errno) :
    Faithful leading message results (writeEffect results (handed leading message) e).1 ↔
      KeepsTerminator leading message results := by
  obtain ⟨hpre, hall⟩ := writeEffect_delivers results (handed leading message) e
  by_cases hnone : message = [] ∨ leading.length ≥ logBufSize
  · have hnil : handed leading message = [] := if_pos hnone
    rw [hnil, writeEffect_nil, faithful_of_handed_nil hnil]
    constructor
    · intro ht
      obtain ⟨rfl, rfl⟩ := List.append_eq_nil_iff.mp ht
      exact ⟨fun _ => rfl, by decide, Or.inl (by decide)⟩
    · intro hk
      obtain rfl | hge := hnone
      · rw [hk.spoken rfl]
        rfl
      · exact absurd hk.fits (Nat.not_lt_of_ge hge)
  obtain ⟨hmsg, hlead⟩ := not_or.mp hnone
  have hhanded : handed leading message = logBytes leading message := if_neg hnone
  by_cases hlt : (leading ++ message).length < logBufSize
  · rw [hhanded, logBytes_of_lt hlt] at hpre hall ⊢
    apply iff_of_true
    · refine ⟨hpre, ?_⟩
      intro hwrites
      rw [hhanded, logBytes_of_lt hlt] at hwrites
      rw [hall.mpr hwrites, List.take_of_length_le (Nat.le_sub_one_of_lt hlt)]
    · exact ⟨fun h => absurd h hmsg, Nat.lt_of_not_ge hlead, Or.inl hlt⟩
  · rw [hhanded, faithful_of_cut (Nat.le_of_not_lt hlt) hhanded]
    constructor
    · intro hfails
      exact ⟨fun h => absurd h hmsg, Nat.lt_of_not_ge hlead, Or.inr hfails⟩
    · intro hk
      exact hk.room.resolve_left hlt

/-- The log grows by what the loop delivers of the bytes handed over. -/
theorem log_logLine (w : World) (o : Oracle) {leading : CString}
    (hfits : leading.length < logBufSize) (hfd : ¬ w.env.logOutputFd < 0) :
    (w.logLine o true leading).log = w.log ++ (writeEffect (o.writes w.logWrites)
      (handed leading (o.text w.logWrites)) w.errno).1 := by
  have hnot : ¬ leading.length ≥ logBufSize := Nat.not_le_of_lt hfits
  have hlog : (w.logLine o true leading).log = w.log ++ (w.lineEffect o true leading).1 := rfl
  rw [hlog, World.lineEffect, handed]
  by_cases hm : o.text w.logWrites = []
  · rw [if_neg (fun h => h.2.1 hm), if_pos (Or.inl hm), writeEffect_nil]
  · have hw : true = true ∧ w.Writes o := ⟨rfl, hm, hfd⟩
    rw [if_pos hw, if_neg (not_or.mpr ⟨hm, hnot⟩)]

/-- A leading text that fills the buffer keeps the line out of the log. -/
theorem log_logHook_of_le (w : World) (o : Oracle) {funcName : Option CString}
    (hfull : logBufSize ≤ (logLeading funcName).length) : (w.logHook o funcName).log = w.log := by
  have hlogs : w.logs funcName = false := by
    rw [World.logs, decide_eq_false (Nat.not_lt_of_ge hfull), Bool.and_false]
  have heq : w.logHook o funcName = w := by
    rw [World.logHook, hlogs]
    exact World.logLine_of_not _ (fun h => Bool.noConfusion h.1)
  rw [heq]

/-- What a message adds to the log, and when that is the text. -/
def AddsText (o : Oracle) (p : Hook Unit) (w : World) (leading : CString) : Prop :=
  ∃ w' out, runAlone o p w = some ((), w') ∧ w'.log = w.log ++ out ∧
    (Faithful leading (o.text w.logWrites) (o.writes w.logWrites) out ↔
      KeepsTerminator leading (o.text w.logWrites) (o.writes w.logWrites))

/-- For every message, every leading text and all results of the write system call: `log_hook`
of a hook that is turned on, and `log_msg`, deliver the text, cut to what the buffer holds
before its terminator, exactly if the text leaves room for the terminator or a write fails
before that. -/
theorem log_text_faithful_iff (o : Oracle) (w : World) (hfd : ¬ w.env.logOutputFd < 0) :
    (∀ funcName, logEnabledIn w.env.hooksqfsLogInclude funcName = true →
      AddsText o (logHook funcName) w (logLeading funcName)) ∧
    AddsText o logMsg w [] := by
  constructor
  · intro funcName henabled
    refine ⟨_, _, run_logHook o funcName w, ?_, faithful_iff _ _ _ w.errno⟩
    by_cases hfits : (logLeading funcName).length < logBufSize
    · have hlogs : w.logs funcName = true := by
        rw [World.logs, henabled, Bool.true_and, decide_eq_true hfits]
      rw [World.logHook, hlogs]
      exact log_logLine w o hfits hfd
    · have hfull : logBufSize ≤ (logLeading funcName).length := Nat.le_of_not_lt hfits
      have hnil : handed (logLeading funcName) (o.text w.logWrites) = [] := if_pos (Or.inr hfull)
      rw [log_logHook_of_le w o hfull, hnil, writeEffect_nil, List.append_nil]
  · refine ⟨_, _, run_logMsg o w, ?_, faithful_iff _ _ _ w.errno⟩
    exact log_logLine w o (by decide) hfd

theorem log_text_faithful_iff_initial :
    let w := { World.initial with
      env := { World.initial.env with hooksqfsLogInclude := some (ascii "ALL") } }
    AddsText Oracle.bare (logHook (some (ascii "sqfs_open"))) w
        (logLeading (some (ascii "sqfs_open"))) ∧
      AddsText Oracle.bare logMsg w [] := by
  intro w
  have hboth := log_text_faithful_iff Oracle.bare w (by decide)
  exact ⟨hboth.1 (some (ascii "sqfs_open")) (by decide +kernel), hboth.2⟩

/-- A message of the buffer's size. -/
def wideText : CString := List.replicate logBufSize 0x78

/-- Every write takes what it is given, and the log gets a NUL byte that is not in the text. -/
theorem wide_text_unfaithful :
    let o := { Oracle.bare with text := fun _ => wideText }
    ∃ w' out, runAlone o logMsg World.initial = some ((), w') ∧
      w'.log = World.initial.log ++ out ∧ NUL ∉ wideText ∧ NUL ∈ out ∧
      ¬ Faithful [] wideText [] out := by
  intro o
  have hclean : NUL ∉ wideText := by
    intro h
    exact absurd (List.eq_of_mem_replicate h) (by decide)
  have hmsg : wideText ≠ [] := List.ne_nil_of_length_pos (by rw [wideText, List.length_replicate]; decide)
  have hout : (writeEffect [] (handed [] wideText) World.initial.errno).1 =
      wideText.take (logBufSize - 1) ++ [NUL] := by
    have hhanded : handed [] wideText = logBytes [] wideText :=
      if_neg (not_or.mpr ⟨hmsg, by decide⟩)
    have hbytes : logBytes [] wideText = wideText.take (logBufSize - 1) ++ [NUL] :=
      logBytes_of_le (by rw [List.nil_append, wideText, List.length_replicate])
    have hdelivers := (writeEffect_delivers [] (handed [] wideText) World.initial.errno).2
    rw [hdelivers.mpr (by cases (handed [] wideText).length <;> rfl), hhanded, hbytes]
  have hnul : NUL ∈ (writeEffect [] (handed [] wideText) World.initial.errno).1 := by
    rw [hout]
    exact List.mem_append_right _ List.mem_cons_self
  refine ⟨_, _, run_logMsg o World.initial, log_logLine World.initial o (by decide) (by decide),
    hclean, hnul, ?_⟩
  intro hf
  exact hclean (hf.part.subset hnul)

end HookSqfs.Manager
