import HookSqfs.Interaction.Twins
import HookSqfs.Manager.RequestKinds

/-! Two runs that differ in `HOOKSQFS_LOG_INCLUDE` and in the results of the log's writes. -/
namespace HookSqfs.Manager
open Interaction Program

/-- The oracle with other results of the log's writes. -/
def Oracle.logging (o : Oracle) (writes : Nat → List WriteResult) : Oracle := { o with writes }

namespace World

/-- What the log can make of a state. -/
def relogged (w : World) (hooksqfsLogInclude : Option CString) (errno : Errno) (logWrites : Nat)
    (log : List Byte) : World :=
  { w with env := { w.env with hooksqfsLogInclude }, errno, logWrites, log }

/-- The state with another value of `HOOKSQFS_LOG_INCLUDE`. -/
def including (w : World) (hooksqfsLogInclude : Option CString) : World :=
  { w with env := { w.env with hooksqfsLogInclude } }

end World

/-- The states differ in what the log changes only. Where `sure`, `errno` is the same, and
where `quiet`, no line of the log reaches the write system call. -/
structure Alike (o : Oracle) (quiet : Bool) (sure : Bool) (w₁ w₂ : World) : Prop where
  same : ∃ hooksqfsLogInclude errno logWrites log,
    w₂ = w₁.relogged hooksqfsLogInclude errno logWrites log
  errno : sure = true → w₂.errno = w₁.errno
  silent : quiet = true → ¬ w₁.Writes o ∧ ¬ w₂.Writes o

theorem Alike.weaken {o : Oracle} {quiet sure : Bool} {w₁ w₂ : World}
    (h : Alike o quiet sure w₁ w₂) : Alike o quiet false w₁ w₂ := ⟨h.same, nofun, h.silent⟩

/-- A request that does not concern the log, and does not read `errno`. -/
def Req.plain : Req → Bool
  | .getenv .hooksqfsLogInclude | .getErrno | .logOutputFd | .vsnprintf | .writeResults
  | .logged _ => false
  | _ => true

/-- Whether `errno` is the same after a request. -/
def surely (sure : Bool) : (e : Req) → Answer e → Bool
  | .setErrno _, _ => true
  | .call c, a => sure || (c.failure a).isSome
  | _, _ => sure

section
variable {o : Oracle} {writes₁ writes₂ : Nat → List WriteResult} {quiet sure : Bool}

private theorem effect_relogged (w : World) (i : Option CString) (x : Errno) (n : Nat)
    (l : List Byte) (c : Ext) (a : c.Ans) :
    (w.relogged i x n l).effect c a = (w.effect c a).relogged i x n l := by
  unfold World.effect
  split <;> rfl

private theorem outcome_relogged (w : World) (i : Option CString) (x : Errno) (n : Nat)
    (l : List Byte) (c : Ext) :
    (w.relogged i x n l).outcome (o.logging writes₂) c = w.outcome (o.logging writes₁) c := by
  cases c <;> rfl

/-- An outside call on either side. -/
private theorem afterCall_alike {w₁ w₂ : World} (h : Alike o quiet sure w₁ w₂) (c : Ext)
    (a : c.Ans) :
    Alike o quiet (surely sure (.call c) a) (w₁.afterCall (o.logging writes₁) c a)
      (w₂.afterCall (o.logging writes₂) c a) := by
  obtain ⟨⟨i, x, n, l, rfl⟩, herrno, hsilent⟩ := h
  refine ⟨⟨i, (c.failure a).getD ((o.clobber (w₁.used c.fn) c).getD x), n, l, ?_⟩, ?_, ?_⟩
  · rw [World.afterCall, effect_relogged]
    rfl
  · intro hsure
    change (c.failure a).getD ((o.clobber (w₁.used c.fn) c).getD x) =
      (c.failure a).getD ((o.clobber (w₁.used c.fn) c).getD w₁.errno)
    cases hf : c.failure a with
    | some e => rfl
    | none =>
      have hs : sure = true := by simpa [surely, hf] using hsure
      have hx : x = w₁.errno := herrno hs
      rw [hx]
  · intro hq
    obtain ⟨h₁, h₂⟩ := hsilent hq
    unfold World.Writes
    simp only [World.afterCall_logWrites, World.afterCall_env]
    exact ⟨h₁, h₂⟩

/-- A plain request has one answer on both sides. -/
theorem handle_alike {e : Req} (he : e.plain = true) {w₁ w₂ : World}
    (h : Alike o quiet sure w₁ w₂) :
    (World.handle (o.logging writes₁) w₁ e).1 = (World.handle (o.logging writes₂) w₂ e).1 ∧
      Alike o quiet (surely sure e (World.handle (o.logging writes₁) w₁ e).1)
        (World.handle (o.logging writes₁) w₁ e).2 (World.handle (o.logging writes₂) w₂ e).2 := by
  have hsame := h.same
  obtain ⟨i, x, n, l, rfl⟩ := hsame
  cases e with
  | getenv v =>
    cases v with
    | hooksqfsLogInclude => cases he
    | hooksqfsPrefix => exact ⟨rfl, h⟩
    | hooksqfsFile => exact ⟨rfl, h⟩
  | call c =>
    have hout : (w₁.relogged i x n l).outcome (o.logging writes₂) c =
      w₁.outcome (o.logging writes₁) c := outcome_relogged w₁ i x n l c
    refine ⟨hout.symm, ?_⟩
    change Alike o quiet (surely sure (.call c) (w₁.outcome (o.logging writes₁) c))
      (w₁.afterCall (o.logging writes₁) c (w₁.outcome (o.logging writes₁) c))
      ((w₁.relogged i x n l).afterCall (o.logging writes₂) c
        ((w₁.relogged i x n l).outcome (o.logging writes₂) c))
    rw [hout]
    exact afterCall_alike h c _
  | setErrno e => exact ⟨rfl, ⟨i, e, n, l, rfl⟩, fun _ => rfl, h.silent⟩
  | getErrno => cases he
  | logOutputFd => cases he
  | vsnprintf => cases he
  | writeResults => cases he
  | logged bytes => cases he
  | _ => exact ⟨rfl, ⟨i, x, n, l, rfl⟩, h.errno, h.silent⟩

end

/-- A request that does not concern the log leaves the number of its writes alone. -/
theorem handle_logWrites (o : Oracle) (w : World) {e : Req}
    (he : e.plain = true ∨ e = .getErrno) :
    (World.handle o w e).2.logWrites = w.logWrites := by
  cases e with
  | getenv v => cases v <;> rfl
  | call c => exact w.afterCall_logWrites o c _
  | writeResults => cases he <;> contradiction
  | _ => rfl

/-- Both runs, with what of `errno` is the same at their end. -/
abbrev Twins {α : Type} (o : Oracle) (writes₁ writes₂ : Nat → List WriteResult) (quiet sure : Bool)
    (p₁ p₂ : Hook α) (Q : α → Bool → Prop) : Prop :=
  Program.Twin (World.handle (o.logging writes₁)) (World.handle (o.logging writes₂))
    (Alike o quiet) sure p₁ p₂ Q

namespace Twins
variable {α : Type} {o : Oracle} {writes₁ writes₂ : Nat → List WriteResult} {quiet sure : Bool}
  {Q : α → Bool → Prop}

theorem plain {e : Req} {k₁ k₂ : Answer e → Hook α} (he : e.plain = true)
    (h : ∀ a, Twins o writes₁ writes₂ quiet (surely sure e a) (k₁ a) (k₂ a) Q) :
    Twins o writes₁ writes₂ quiet sure (.request e k₁) (.request e k₂) Q :=
  .request (fun _ _ hw => handle_alike he hw) h

theorem getErrno {k₁ k₂ : Errno → Hook α}
    (h : ∀ e, Twins o writes₁ writes₂ quiet true (k₁ e) (k₂ e) Q) :
    Twins o writes₁ writes₂ quiet true (.request .getErrno k₁) (.request .getErrno k₂) Q :=
  Program.Twin.request (fun _ _ hw => ⟨(hw.errno rfl).symm, hw⟩) h

/-- An `errno` that is not sure to be the same. -/
theorem getSomeErrno {k₁ k₂ : Errno → Hook α}
    (h : ∀ e₁ e₂, Twins o writes₁ writes₂ quiet sure (k₁ e₁) (k₂ e₂) Q) :
    Twins o writes₁ writes₂ quiet sure (.request .getErrno k₁) (.request .getErrno k₂) Q :=
  .differ (fun _ _ hw => hw) h

theorem getInclude {k₁ k₂ : Option CString → Hook α}
    (h : ∀ i₁ i₂, Twins o writes₁ writes₂ quiet sure (k₁ i₁) (k₂ i₂) Q) :
    Twins o writes₁ writes₂ quiet sure (.request (.getenv .hooksqfsLogInclude) k₁)
      (.request (.getenv .hooksqfsLogInclude) k₂) Q :=
  .differ (fun _ _ hw => hw) h

private theorem logLine_alike {w₁ w₂ : World} (h : Alike o quiet sure w₁ w₂)
    (enabled₁ enabled₂ : Bool) (leading : CString) :
    Alike o quiet (sure && quiet) (w₁.logLine (o.logging writes₁) enabled₁ leading)
      (w₂.logLine (o.logging writes₂) enabled₂ leading) := by
  cases quiet with
  | true =>
    obtain ⟨h₁, h₂⟩ := h.silent rfl
    have hsame₁ : w₁.logLine (o.logging writes₁) enabled₁ leading = w₁ :=
      World.logLine_of_not _ fun hl => h₁ hl.2
    have hsame₂ : w₂.logLine (o.logging writes₂) enabled₂ leading = w₂ :=
      World.logLine_of_not _ fun hl => h₂ hl.2
    rw [hsame₁, hsame₂, Bool.and_true]
    exact h
  | false =>
    obtain ⟨⟨i, x, n, l, rfl⟩, -, -⟩ := h
    rw [Bool.and_false]
    exact ⟨⟨_, _, _, _, rfl⟩, nofun, nofun⟩

/-- A line of the log. -/
theorem line {p₁ p₂ : Hook Unit} {leading : CString} {enabled₁ enabled₂ : World → Bool}
    (hrun₁ : ∀ w, runAlone (o.logging writes₁) p₁ w =
      some ((), w.logLine (o.logging writes₁) (enabled₁ w) leading))
    (hrun₂ : ∀ w, runAlone (o.logging writes₂) p₂ w =
      some ((), w.logLine (o.logging writes₂) (enabled₂ w) leading)) :
    Twins o writes₁ writes₂ quiet sure p₁ p₂ fun _ s => s = (sure && quiet) := by
  intro w₁ w₂ hw
  exact .inr ⟨(), _, _, _, hrun₁ w₁, hrun₂ w₂, logLine_alike hw _ _ _, rfl⟩

theorem logHook (funcName : Option CString) :
    Twins o writes₁ writes₂ quiet sure (Manager.logHook funcName) (Manager.logHook funcName)
      fun _ s => s = (sure && quiet) :=
  line (run_logHook _ funcName) (run_logHook _ funcName)

theorem logMsg : Twins o writes₁ writes₂ quiet sure Manager.logMsg Manager.logMsg
    fun _ s => s = (sure && quiet) :=
  line (run_logMsg _) (run_logMsg _)

/-- A program that does not concern the log. -/
theorem of_plain {p : Hook α} (hp : p.All fun e => e.plain = true ∨ e = .getErrno) :
    Twins o writes₁ writes₂ quiet true p p fun _ s => s = true := by
  refine Program.Twin.of_all ?_ hp
  rintro w₁ w₂ e (he | rfl) hw
  · obtain ⟨hanswer, hafter⟩ := handle_alike he hw
    refine ⟨hanswer, hafter.same, fun _ => hafter.errno ?_, hafter.silent⟩
    cases e <;> rfl
  · exact ⟨(hw.errno rfl).symm, hw⟩

/-- Weaker knowledge of `errno` is enough. -/
theorem weaken {p₁ p₂ : Hook α} (h : Twins o writes₁ writes₂ quiet false p₁ p₂ Q) :
    Twins o writes₁ writes₂ quiet sure p₁ p₂ Q := fun w₁ w₂ hw => h w₁ w₂ hw.weaken

/-- A program that neither concerns the log nor reads `errno`. -/
theorem of_plain_any {p : Hook α} (hp : p.All fun e => e.plain) :
    Twins o writes₁ writes₂ quiet sure p p fun _ _ => True := by
  apply weaken
  apply (Program.Twin.of_all ?_ hp).mono
  · exact fun _ _ _ => trivial
  · intro w₁ w₂ e he hw
    obtain ⟨hanswer, hafter⟩ := handle_alike he hw
    exact ⟨hanswer, hafter.weaken⟩

end Twins
end HookSqfs.Manager
