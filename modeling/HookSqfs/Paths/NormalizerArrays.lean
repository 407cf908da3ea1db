import HookSqfs.Memory.Regions
import HookSqfs.Paths.CanonicalForm

/-! `path_normalize_lexical` on its arrays: `tmp`, `parts` and the caller's buffer are regions
of memory, and what leaves them has no result. -/
namespace HookSqfs.Paths.Arrays
open Manager Memory

/-- `parts` and `count`. -/
structure Parts where
  parts : Region CString
  count : Nat

def Parts.start : Parts := { parts := uninitialized (PATH_MAX / 2), count := 0 }

/-- `parts[count++] = token` -/
def Parts.push (p : Parts) (token : CString) : Option Parts := do
  let parts ← store p.parts p.count token
  return { parts, count := p.count + 1 }

/-- `parts[count - 1]` -/
def Parts.top (p : Parts) : Option CString := do
  let i ← difference p.count 1
  load p.parts i

/-- `count > 0 && strcmp(parts[count - 1], "..") != 0` -/
def Parts.cancels (p : Parts) : Option Bool :=
  if p.count > 0 then do
    let top ← p.top
    return top ≠ dotdotName
  else some false

/-- One iteration of the token loop. -/
def tokenStep (absolute : Bool) (p : Parts) (token : CString) : Option Parts :=
  if token = [] ∨ token = dotName then some p
  else if token = dotdotName then do
    let cancels ← p.cancels
    if cancels then return { p with count := p.count - 1 }
    else if absolute then return p
    else p.push token
  else p.push token

/-- `append_str` with the size of `out`. -/
def appendStr (out : Region Byte) (s : CString) : Option (Bool × Region Byte) :=
  if out.length = 0 then some (false, out)
  else do
    let outLen ← strlen NUL out
    let room ← difference out.length outLen
    if s.length ≥ room then return (false, out)
    else do
      let out ← copy out outLen (s ++ [NUL])
      return (true, out)

/-- The rest of the function where a call gave true. -/
def andThen (r : Bool × Region Byte) (next : Region Byte → Option (Bool × Region Byte)) :
    Option (Bool × Region Byte) :=
  if r.1 then next r.2 else some (false, r.2)

/-- The slash of an absolute path. -/
def leading (absolute : Bool) (out : Region Byte) : Option (Bool × Region Byte) :=
  if absolute then appendStr out [slash] else some (true, out)

/-- The separator before the part at `i`. -/
def separate (absolute : Bool) (i : Nat) (out : Region Byte) : Option (Bool × Region Byte) :=
  if i > 0 ∨ absolute then do
    let outLen ← strlen NUL out
    if outLen > 1 then appendStr out [slash] else return (true, out)
  else some (true, out)

/-- The rebuild loop from index `i` on, with `n` parts left. -/
def rebuild (absolute : Bool) (parts : Region CString) :
    Nat → Nat → Region Byte → Option (Bool × Region Byte)
  | _, 0, out => some (true, out)
  | i, n + 1, out => do
    let r ← separate absolute i out
    andThen r fun out => do
      let part ← load parts i
      let r ← appendStr out part
      andThen r (rebuild absolute parts (i + 1) n)

def pathNormalizeLexical (input : CString) (out : Region Byte) : Option (Bool × Region Byte) :=
  if out.length = 0 then some (false, out)
  else if input.length ≥ PATH_MAX then some (false, out)
  else do
    let tmp ← copy (uninitialized PATH_MAX) 0 (input ++ [NUL])
    let text ← string NUL tmp
    let absolute : Bool := input.head? = some slash
    let p ← (strsepTokens text).foldlM (tokenStep absolute) .start
    let out ← store out 0 NUL
    let r ← leading absolute out
    andThen r fun out => do
      let r ← rebuild absolute p.parts 0 p.count out
      andThen r fun out => do
        let first ← load out 0
        if first = NUL then appendStr out (if absolute then [slash] else dotName)
        else return (true, out)

/-- The array holds the stack `parts`, its head last. -/
structure Stack (p : Parts) (parts : List CString) : Prop where
  size : p.parts.length = PATH_MAX / 2
  count : p.count = parts.length
  filled : Filled p.parts parts.reverse

theorem stack_start : Stack .start [] := ⟨List.length_replicate, rfl, List.nil_prefix⟩

/-- The iteration stores its token. -/
def Stores (absolute : Bool) (parts : List CString) (token : CString) : Prop :=
  Paths.tokenStep absolute parts token = token :: parts

namespace Stack
variable {p : Parts} {parts : List CString}

theorem push (h : Stack p parts) (hlt : parts.length < PATH_MAX / 2) (token : CString) :
    ∃ p', p.push token = some p' ∧ Stack p' (token :: parts) := by
  obtain ⟨r, hstore, hlen, hfilled⟩ :=
    h.filled.store (by rw [List.length_reverse, h.size]; exact hlt) token
  rw [List.length_reverse, ← h.count] at hstore
  refine ⟨{ parts := r, count := p.count + 1 }, ?_, hlen.trans h.size, ?_, ?_⟩
  · rw [Parts.push, hstore]
    rfl
  · rw [h.count, List.length_cons]
  · rw [List.reverse_cons]
    exact hfilled

theorem pop {top : CString} (h : Stack p (top :: parts)) :
    Stack { p with count := p.count - 1 } parts := by
  refine ⟨h.size, ?_, ?_⟩
  · rw [h.count, List.length_cons, Nat.add_sub_cancel]
  · have hfilled := h.filled.dropLast
    rwa [List.reverse_cons, List.dropLast_concat] at hfilled

/-- The top is looked at where there is one. -/
theorem cancels_nil (h : Stack p []) : p.cancels = some false :=
  if_neg (by rw [h.count]; exact Nat.lt_irrefl 0)

theorem cancels_cons {top : CString} (h : Stack p (top :: parts)) :
    p.cancels = some (decide (top ≠ dotdotName)) := by
  have hcount : p.count = parts.length + 1 := h.count
  have hload : load p.parts parts.length = some top := by
    have hget := h.filled.load (i := parts.length) (by simp)
    rw [hget]
    simp
  have htop : p.top = some top := by
    rw [Parts.top, difference, hcount, if_pos (Nat.le_add_left 1 _)]
    exact hload
  rw [Parts.cancels, hcount, if_pos (Nat.succ_pos _), htop]
  rfl

/-- One iteration on the array is the iteration on the stack. -/
theorem tokenStep (h : Stack p parts) {absolute : Bool} {token : CString}
    (hroom : Stores absolute parts token → parts.length < PATH_MAX / 2) :
    ∃ p', tokenStep absolute p token = some p' ∧
      Stack p' (Paths.tokenStep absolute parts token) := by
  by_cases h1 : token = [] ∨ token = dotName
  · rw [Arrays.tokenStep, Paths.tokenStep.eq_def, if_pos h1, if_pos h1]
    exact ⟨p, rfl, h⟩
  rw [Stores, Paths.tokenStep.eq_def, if_neg h1] at hroom
  rw [Arrays.tokenStep, Paths.tokenStep.eq_def, if_neg h1, if_neg h1]
  by_cases h2 : token = dotdotName
  · rw [if_pos h2] at hroom
    rw [if_pos h2, if_pos h2]
    cases parts with
    | nil =>
      rw [h.cancels_nil]
      cases absolute with
      | true => exact ⟨p, rfl, h⟩
      | false => exact h.push (hroom rfl) token
    | cons top below =>
      rw [h.cancels_cons]
      by_cases ht : top = dotdotName
      · have hkept : ¬ top ≠ dotdotName := not_not.mpr ht
        rw [decide_eq_false hkept]
        simp only [if_neg hkept] at hroom ⊢
        cases absolute with
        | true => exact ⟨p, rfl, h⟩
        | false => exact h.push (hroom rfl) token
      · rw [decide_eq_true ht]
        simp only [if_pos (show top ≠ dotdotName from ht)]
        exact ⟨_, rfl, h.pop⟩
  · rw [if_neg h2] at hroom
    rw [if_neg h2, if_neg h2]
    exact h.push (hroom rfl) token

end Stack
section tokens
variable {absolute : Bool}

/-- What takes a place in `parts`. -/
private abbrev occupying (tokens : List CString) : List CString := tokens.filter (· ≠ [])

private theorem tokenStep_sublist (parts : List CString) (token : CString) :
    (Paths.tokenStep absolute parts token).Sublist (token :: parts) := by
  have hparts : parts.Sublist (token :: parts) := List.sublist_cons_self token parts
  unfold Paths.tokenStep
  by_cases h1 : token = [] ∨ token = dotName
  · rw [if_pos h1]
    exact hparts
  rw [if_neg h1]
  by_cases h2 : token = dotdotName
  · rw [if_pos h2]
    cases parts with
    | nil => cases absolute <;> simp
    | cons top below =>
      dsimp only
      split
      · exact (List.sublist_cons_self top below).trans hparts
      · cases absolute with
        | true => exact hparts
        | false => exact List.Sublist.refl _
  · rw [if_neg h2]

private theorem length_tokenStep_le (parts : List CString) (token : CString) :
    (Paths.tokenStep absolute parts token).length ≤ parts.length + (occupying [token]).length := by
  by_cases h1 : token = []
  · rw [Paths.tokenStep.eq_def, if_pos (.inl h1)]
    exact Nat.le_add_right _ _
  · have hone : (occupying [token]).length = 1 := by simp [occupying, h1]
    rw [hone]
    exact (tokenStep_sublist parts token).length_le

private theorem length_tokenLoop_le (tokens parts : List CString) :
    (tokens.foldl (Paths.tokenStep absolute) parts).length ≤
      parts.length + (occupying tokens).length := by
  induction tokens generalizing parts with
  | nil => exact Nat.le_refl _
  | cons token tokens ih =>
    have hstep : (Paths.tokenStep absolute parts token).length ≤
        parts.length + (occupying [token]).length := length_tokenStep_le parts token
    have hrest := ih (Paths.tokenStep absolute parts token)
    have hsplit : occupying (token :: tokens) = occupying [token] ++ occupying tokens :=
      List.filter_append [token] tokens
    rw [List.foldl_cons, hsplit, List.length_append]
    omega

/-- A token that is stored and its separator are two bytes at least. -/
private theorem two_mul_occupying_le (tokens : List CString) :
    2 * (occupying tokens).length ≤ (tokens.map nameCost).sum := by
  induction tokens with
  | nil => exact Nat.le_refl _
  | cons token tokens ih =>
    have hsplit : occupying (token :: tokens) = occupying [token] ++ occupying tokens :=
      List.filter_append [token] tokens
    rw [hsplit, List.length_append, List.map_cons, List.sum_cons, nameCost]
    by_cases h1 : token = []
    · have hnone : (occupying [token]).length = 0 := by simp [occupying, h1]
      omega
    · have hone : (occupying [token]).length = 1 := by simp [occupying, h1]
      have hpos := List.length_pos_iff.mpr h1
      omega

/-- Wherever the token loop stores a component there is a place for it. -/
theorem count_lt_of_stores {input : CString} (h : input.length < PATH_MAX)
    {before after : List CString} {token : CString}
    (htokens : strsepTokens input = before ++ token :: after)
    (hstores : Stores absolute (before.foldl (Paths.tokenStep absolute) []) token) :
    (before.foldl (Paths.tokenStep absolute) []).length < PATH_MAX / 2 := by
  have hne : token ≠ [] := by
    rintro rfl
    rw [Stores, Paths.tokenStep.eq_def, if_pos (.inl rfl)] at hstores
    exact List.cons_ne_self [] _ hstores.symm
  have hloop : (before.foldl (Paths.tokenStep absolute) []).length ≤
      ([] : List CString).length + (occupying before).length := length_tokenLoop_le before []
  have htwo := two_mul_occupying_le (strsepTokens input)
  have hsplit : occupying (strsepTokens input) =
      occupying before ++ (occupying [token] ++ occupying after) := by
    rw [htokens, ← List.singleton_append, occupying, List.filter_append, List.filter_append]
  have hone : (occupying [token]).length = 1 := by simp [occupying, hne]
  rw [hsplit, strsepTokens_eq, cost_pieces, List.length_append, List.length_append, hone] at htwo
  rw [List.length_nil] at hloop
  have hmax : PATH_MAX = 4096 := rfl
  omega

/-- The token loop on the array is the loop on the stack, up to any token. -/
theorem tokenLoop_run {input : CString} (h : input.length < PATH_MAX)
    {before after : List CString} (htokens : strsepTokens input = before ++ after) :
    ∃ p, before.foldlM (tokenStep absolute) .start = some p ∧
      Stack p (before.foldl (Paths.tokenStep absolute) []) := by
  induction before using List.reverseRecOn generalizing after with
  | nil => exact ⟨.start, rfl, stack_start⟩
  | append_singleton before token ih =>
    rw [List.append_assoc] at htokens
    obtain ⟨p, hrun, hstack⟩ := ih htokens
    obtain ⟨p', hstep, hstack'⟩ := hstack.tokenStep fun hstores =>
      count_lt_of_stores h htokens hstores
    refine ⟨p', ?_, ?_⟩
    · rw [List.foldlM_append, hrun]
      simpa using hstep
    · rwa [List.foldl_append]

end tokens
/-- What stays of the buffer: its size, and the text where the result is true. -/
structure Result (size : Nat) (text : Option CString) (ok : Bool) (out : Region Byte) : Prop where
  size : out.length = size
  stored : ∀ t, text = some t → ok = true ∧ Holds NUL out t
  failed : text = none → ok = false

/-- The run has a result, the one for `text`. -/
def Gives (size : Nat) (text : Option CString) (r : Option (Bool × Region Byte)) : Prop :=
  ∃ ok out, r = some (ok, out) ∧ Result size text ok out

section
variable {out : Region Byte} {t : CString}

theorem Gives.of_holds (h : Holds NUL out t) : Gives out.length (some t) (some (true, out)) :=
  ⟨true, out, rfl, rfl, fun _ ht => ⟨rfl, Option.some.inj ht ▸ h⟩, nofun⟩

theorem Gives.failure (size : Nat) (h : out.length = size) : Gives size none (some (false, out)) :=
  ⟨false, out, rfl, h, nofun, fun _ => rfl⟩

/-- A run goes on with what the text goes on with. -/
theorem Gives.andThen {size : Nat} {text : Option CString} {r : Option (Bool × Region Byte)}
    {g : CString → Option CString} {next : Region Byte → Option (Bool × Region Byte)}
    (h : Gives size text r)
    (hnext : ∀ t out, Holds NUL out t → out.length = size → Gives size (g t) (next out)) :
    Gives size (text >>= g) (r >>= fun r => andThen r next) := by
  obtain ⟨ok, out, rfl, hsize, hstored, hfailed⟩ := h
  cases text with
  | none =>
    rw [hfailed rfl]
    exact Gives.failure size hsize
  | some t =>
    obtain ⟨rfl, hholds⟩ := hstored t rfl
    exact hnext t out hholds hsize

/-- `append_str` behind a terminated text: the difference of the sizes does not wrap and the
copy stays in the buffer. -/
theorem gives_appendStr (h : Holds NUL out t) {s : CString} (hs : NUL ∉ s) :
    Gives out.length (Paths.appendStr t out.length s) (appendStr out s) := by
  have hlt := h.length_lt
  have hsize : out.length ≠ 0 := by omega
  rw [Paths.appendStr, appendStr, if_neg hsize, if_neg hsize, h.strlen_eq]
  dsimp only [Option.bind_eq_bind, Option.bind_some]
  rw [h.difference_eq, Option.bind_some]
  by_cases hroom : s.length ≥ out.length - t.length
  · rw [if_pos hroom, if_pos hroom]
    exact Gives.failure _ rfl
  · obtain ⟨out', hcopy, hlen, hholds⟩ := h.copy hs (by omega)
    rw [if_neg hroom, if_neg hroom, hcopy, Option.bind_some, ← hlen]
    exact Gives.of_holds hholds

theorem gives_separate (h : Holds NUL out t) (absolute : Bool) (i : Nat) :
    Gives out.length
      (if (i > 0 ∨ absolute) ∧ t.length > 1 then Paths.appendStr t out.length [slash] else some t)
      (separate absolute i out) := by
  rw [separate]
  by_cases hi : i > 0 ∨ absolute
  · rw [if_pos hi, h.strlen_eq]
    dsimp only [Option.bind_eq_bind, Option.bind_some]
    by_cases hlong : t.length > 1
    · rw [if_pos ⟨hi, hlong⟩, if_pos hlong]
      exact gives_appendStr h (by decide)
    · rw [if_neg (fun hc => hlong hc.2), if_neg hlong]
      exact Gives.of_holds h
  · rw [if_neg hi, if_neg (fun hc => hi hc.1)]
    exact Gives.of_holds h

/-- The rebuild loop on the array is the loop on the list. -/
theorem gives_rebuild (absolute : Bool) {parts : Region CString} {done todo : List CString}
    (hparts : Filled parts (done ++ todo)) (hclean : ∀ p ∈ todo, NUL ∉ p) (h : Holds NUL out t) :
    Gives out.length (Paths.rebuild absolute out.length done.length todo t)
      (rebuild absolute parts done.length todo.length out) := by
  induction todo generalizing done out t with
  | nil => exact Gives.of_holds h
  | cons part todo ih =>
    have hload : load parts done.length = some part := by
      have hlt : done.length < (done ++ part :: todo).length := by simp
      rw [hparts.load hlt]
      simp
    have hsplit : Paths.rebuild absolute out.length done.length (part :: todo) t =
        (if (done.length > 0 ∨ absolute) ∧ t.length > 1 then
          Paths.appendStr t out.length [slash] else some t) >>= fun t =>
        Paths.appendStr t out.length part >>= fun t =>
        Paths.rebuild absolute out.length (done.length + 1) todo t := by
      rw [Paths.rebuild]
      split <;> rfl
    rw [hsplit, List.length_cons, rebuild]
    apply (gives_separate h absolute done.length).andThen
    intro t1 out1 h1 hsize1
    rw [hload]
    dsimp only [Option.bind_eq_bind, Option.bind_some]
    rw [← hsize1]
    apply (gives_appendStr h1 (hclean part List.mem_cons_self)).andThen
    intro t2 out2 h2 hsize2
    rw [← hsize2]
    have hnext : Filled parts ((done ++ [part]) ++ todo) := by
      rw [List.append_assoc]
      exact hparts
    have hrest := ih hnext (fun p hp => hclean p (List.mem_cons_of_mem _ hp)) h2
    rwa [List.length_append, List.length_singleton] at hrest

end

private theorem tokenLoop_sublist {absolute : Bool} (tokens parts : List CString) :
    (tokens.foldl (Paths.tokenStep absolute) parts).Sublist (tokens.reverse ++ parts) := by
  induction tokens generalizing parts with
  | nil => exact List.Sublist.refl _
  | cons token tokens ih =>
    rw [List.foldl_cons, List.reverse_cons, List.append_assoc]
    exact (ih _).trans ((tokenStep_sublist parts token).append_left _)

/-- A token has the bytes of the path. -/
private theorem mem_of_mem_token {input token : CString} (h : token ∈ strsepTokens input) {c : Byte}
    (hc : c ∈ token) : c ∈ input := by
  induction input generalizing token with
  | nil => simp_all [strsepTokens]
  | cons x input ih =>
    rw [strsepTokens] at h
    split at h
    · rcases List.mem_cons.mp h with rfl | h
      · exact absurd hc List.not_mem_nil
      · exact List.mem_cons_of_mem x (ih h hc)
    · split at h
      · rw [List.mem_singleton.mp h] at hc
        exact List.mem_singleton.mp hc ▸ List.mem_cons_self
      · rename_i token' tokens htokens
        rcases List.mem_cons.mp h with rfl | h
        · rcases List.mem_cons.mp hc with rfl | hc
          · exact List.mem_cons_self
          · exact List.mem_cons_of_mem x (ih (htokens ▸ List.mem_cons_self) hc)
        · exact List.mem_cons_of_mem x (ih (htokens ▸ List.mem_cons_of_mem _ h) hc)

private theorem load_first {out : Region Byte} {t : CString} (h : Holds NUL out t) :
    ∃ c, load out 0 = some c ∧ (c = NUL ↔ t = []) := by
  have hload := h.filled.load (i := 0) (by simp)
  cases t with
  | nil => exact ⟨NUL, hload, by simp⟩
  | cons c t =>
    refine ⟨c, hload, ?_⟩
    simp only [reduceCtorEq, iff_false]
    rintro rfl
    exact h.clean List.mem_cons_self

/-- `strcpy(tmp, in)` -/
private theorem copy_tmp {input : CString} (hnul : NUL ∉ input) (h : input.length < PATH_MAX) :
    ∃ tmp, copy (uninitialized PATH_MAX) 0 (input ++ [NUL]) = some tmp ∧
      string NUL tmp = some input := by
  have hfit : 0 + (input ++ [NUL]).length ≤ (uninitialized PATH_MAX : Region Byte).length := by
    rw [List.length_append, List.length_singleton, uninitialized, List.length_replicate]
    omega
  refine ⟨_, if_pos hfit, ?_⟩
  exact Holds.string_eq ⟨hnul, List.prefix_append _ _⟩

/-- The function on lists behind its length checks. -/
private theorem pathNormalizeLexical_bind {input : CString} (h : input.length < PATH_MAX)
    {size : Nat} (hz : size ≠ 0) {absolute : Bool} (ha : absolute = decide (input.head? = some slash)) :
    Paths.pathNormalizeLexical (some input) size =
      (if absolute then Paths.appendStr [] size [slash] else some []) >>= fun t =>
      Paths.rebuild absolute size 0
        ((strsepTokens input).foldl (Paths.tokenStep absolute) []).reverse t >>= fun t =>
      if t = [] then Paths.appendStr t size (if absolute then [slash] else dotName)
      else some t := by
  have hlen : ¬ input.length ≥ PATH_MAX := by omega
  subst ha
  simp only [Paths.pathNormalizeLexical, if_neg hz, if_neg hlen, decide_eq_true_eq]
  split <;> rfl

/-- `path_normalize_lexical` on its arrays has a result for every path that fits, and it is
the one computed on lists. -/
theorem gives_pathNormalizeLexical {input : CString} (hnul : NUL ∉ input)
    (h : input.length < PATH_MAX) (out : Region Byte) :
    Gives out.length (Paths.pathNormalizeLexical (some input) out.length)
      (pathNormalizeLexical input out) := by
  by_cases hz : out.length = 0
  · rw [Paths.pathNormalizeLexical, pathNormalizeLexical, if_pos hz, if_pos hz]
    exact Gives.failure _ rfl
  have hlen : ¬ input.length ≥ PATH_MAX := by omega
  obtain ⟨tmp, htmp, htext⟩ := copy_tmp hnul h
  obtain ⟨out0, hout0, hsize0, hholds0⟩ := holds_nil NUL (Nat.pos_of_ne_zero hz)
  rw [pathNormalizeLexical, if_neg hz, if_neg hlen, htmp]
  dsimp only [Option.bind_eq_bind, Option.bind_some]
  rw [htext, Option.bind_some]
  generalize ha : decide (input.head? = some slash) = absolute
  obtain ⟨p, hp, hstack⟩ : ∃ p, (strsepTokens input).foldlM (tokenStep absolute) .start = some p ∧
      Stack p ((strsepTokens input).foldl (Paths.tokenStep absolute) []) :=
    tokenLoop_run h (List.append_nil _).symm
  have hclean : ∀ t ∈ ((strsepTokens input).foldl (Paths.tokenStep absolute) []).reverse,
      NUL ∉ t := by
    intro t ht hc
    have hsub := (tokenLoop_sublist _ _).subset (List.mem_reverse.mp ht)
    rw [List.append_nil, List.mem_reverse] at hsub
    exact hnul (mem_of_mem_token hsub hc)
  rw [pathNormalizeLexical_bind h hz ha.symm, hp, Option.bind_some, hout0, Option.bind_some,
    hstack.count]
  generalize (strsepTokens input).foldl (Paths.tokenStep absolute) [] = parts at hstack hclean
  rw [← hsize0]
  have hfirst : Gives out0.length (if absolute then Paths.appendStr [] out0.length [slash] else some [])
      (leading absolute out0) := by
    cases absolute with
    | true => exact gives_appendStr hholds0 (by decide)
    | false => exact Gives.of_holds hholds0
  apply hfirst.andThen
  intro t1 out1 h1 hsize1
  rw [← hsize1]
  have hrebuild : Gives out1.length (Paths.rebuild absolute out1.length 0 parts.reverse t1)
      (rebuild absolute p.parts 0 parts.length out1) := by
    have hfilled : Filled p.parts ([] ++ parts.reverse) := hstack.filled
    have hrun := gives_rebuild absolute hfilled hclean h1
    rw [List.length_reverse] at hrun
    exact hrun
  apply hrebuild.andThen
  intro t2 out2 h2 hsize2
  obtain ⟨c, hload, hc⟩ := load_first h2
  rw [hload, Option.bind_some, ← hsize2]
  by_cases ht : t2 = []
  · rw [if_pos ht, if_pos (hc.mpr ht)]
    cases absolute <;> exact gives_appendStr h2 (by decide)
  · rw [if_neg ht, if_neg (fun he => ht (hc.mp he))]
    exact Gives.of_holds h2

/-- For every path that fits and every buffer: an iteration of the token loop that stores a
component finds a place in `parts`, and the loop reads the top of the stack only where there is
one. The whole function has a result, the one computed on lists: at every `append_str` the
text is terminated in the buffer, the sizes do not wrap and the copy stays inside. -/
theorem normalizer_in_bounds {input : CString} (hnul : NUL ∉ input) (h : input.length < PATH_MAX)
    (out : Region Byte) :
    (∀ absolute before token after, strsepTokens input = before ++ token :: after →
      ∃ p, before.foldlM (tokenStep absolute) .start = some p ∧
        p.count = (before.foldl (Paths.tokenStep absolute) []).length ∧
        p.cancels.isSome ∧
        (Stores absolute (before.foldl (Paths.tokenStep absolute) []) token →
          p.count < PATH_MAX / 2)) ∧
    Gives out.length (Paths.pathNormalizeLexical (some input) out.length)
      (pathNormalizeLexical input out) := by
  refine ⟨?_, gives_pathNormalizeLexical hnul h out⟩
  intro absolute before token after htokens
  obtain ⟨p, hrun, hstack⟩ : ∃ p, before.foldlM (tokenStep absolute) .start = some p ∧
      Stack p (before.foldl (Paths.tokenStep absolute) []) := tokenLoop_run h htokens
  refine ⟨p, hrun, hstack.count, ?_, ?_⟩
  · generalize before.foldl (Paths.tokenStep absolute) [] = parts at hstack
    cases parts with
    | nil => rw [hstack.cancels_nil]; rfl
    | cons top below => rw [hstack.cancels_cons]; rfl
  · intro hstores
    rw [hstack.count]
    exact count_lt_of_stores h htokens hstores

theorem normalizer_in_bounds_slashed :
    Gives 3 (Paths.pathNormalizeLexical (some slashed) 3)
      (pathNormalizeLexical slashed (uninitialized 3)) :=
  (normalizer_in_bounds (by decide) (by decide) (uninitialized 3)).2

/-- A buffer without a terminator has no end to append to. -/
example : appendStr [some slash, some slash] [slash] = none := rfl

end HookSqfs.Paths.Arrays
