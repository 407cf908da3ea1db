import HookSqfs.Memory.Regions
import HookSqfs.Manager.Logging
import Mathlib.Data.List.DropRight

/-! The grammar of `HOOKSQFS_LOG_INCLUDE`: `log_enabled` on lists, and on its strings in
memory. -/
namespace HookSqfs.Manager
open Memory

/-- A piece without the blanks at both ends. -/
def trim (piece : CString) : CString := (piece.dropWhile isBlank).rdropWhile isBlank

/-- A piece that turns the hook on: everything, its name, or its name after `sqfs_`. -/
def Selects (name piece : CString) : Prop :=
  piece = ascii "ALL" ∨ piece = name ∨ ∃ short, name = ascii "sqfs_" ++ short ∧ piece = short

theorem tokenMatches_iff {name : CString} (hne : name ≠ []) (token : CString) :
    tokenMatches (some name) token = true ↔ Selects name token := by
  have hshort : (ascii "sqfs_" <+: name ∧ token = name.drop 5) ↔
      ∃ short, name = ascii "sqfs_" ++ short ∧ token = short := by
    constructor
    · rintro ⟨⟨short, rfl⟩, htoken⟩
      exact ⟨short, rfl, htoken⟩
    · rintro ⟨short, rfl, rfl⟩
      exact ⟨List.prefix_append _ _, rfl⟩
  rw [tokenMatches, Selects, ← hshort]
  simp [hne]

/-- No hook but the bare prefix is turned on by an empty piece. -/
theorem tokenMatches_nil {name : CString} (hne : name ≠ []) (hbare : name ≠ ascii "sqfs_") :
    tokenMatches (some name) [] = false := by
  rw [Bool.eq_false_iff]
  intro h
  obtain hall | hname | ⟨short, hshort, rfl⟩ := (tokenMatches_iff hne []).mp h
  · exact absurd hall (by decide)
  · exact hne hname.symm
  · exact hbare (by rw [hshort, List.append_nil])

/-- The loop takes the blanks off the end. -/
theorem take_trimEnd {start : CString} {n : Nat} (h : n ≤ start.length) :
    start.take (trimEnd start n) = (start.take n).rdropWhile isBlank := by
  induction n with
  | zero => simp [trimEnd]
  | succ n ih =>
    have hlast : start.take (n + 1) = start.take n ++ [start[n]] := (List.take_concat_get' _ _ _).symm
    rw [hlast, List.rdropWhile_concat, trimEnd, List.getElem?_eq_getElem h, Option.map_some,
      Option.getD_some]
    by_cases hb : isBlank start[n] = true
    · rw [if_pos hb, if_pos hb, ih (Nat.le_of_lt h)]
    · rw [if_neg hb, if_neg hb, hlast]

theorem trimEnd_le (start : CString) (n : Nat) : trimEnd start n ≤ n := by
  induction n with
  | zero => exact Nat.le_refl 0
  | succ n ih =>
    rw [trimEnd]
    split
    · exact ih.trans n.le_succ
    · exact Nat.le_refl _

/-- The token of the iteration that starts at `p`. -/
def tokenAt (p : CString) : CString :=
  let start := p.dropWhile isBlank
  start.take (trimEnd start (start.takeWhile (· ≠ comma)).length)

theorem logEnabledLoop_cons (funcName : Option CString) {p : CString} (hp : p ≠ []) :
    logEnabledLoop funcName p = (tokenMatches funcName (tokenAt p) ||
      logEnabledLoop funcName (afterToken (p.dropWhile isBlank))) := by
  cases p with
  | nil => exact absurd rfl hp
  | cons c p =>
    rw [logEnabledLoop, tokenAt]
    cases tokenMatches funcName _ <;> rfl

/-- The blanks before a piece end in front of its comma. -/
theorem dropWhile_isBlank_append (piece rest : CString) :
    (piece ++ comma :: rest).dropWhile isBlank = piece.dropWhile isBlank ++ comma :: rest := by
  induction piece with
  | nil => rfl
  | cons c piece ih =>
    rw [List.cons_append, List.dropWhile_cons, List.dropWhile_cons, ih]
    split <;> rfl

private theorem ne_comma_of_mem {s : CString} (h : comma ∉ s) :
    ∀ c ∈ s, decide (c ≠ comma) = true := by
  intro c hc
  rw [decide_eq_true_eq]
  rintro rfl
  exact h hc

theorem tokenAt_eq_trim {p whole : CString}
    (h : (p.dropWhile isBlank).takeWhile (· ≠ comma) = whole.dropWhile isBlank) :
    tokenAt p = trim whole := by
  rw [tokenAt, take_trimEnd (List.takeWhile_prefix _).length_le,
    ← List.prefix_iff_eq_take.mp (List.takeWhile_prefix _), h, trim]

/-- The iteration of a piece that a comma ends. -/
theorem logEnabledLoop_piece (funcName : Option CString) {piece : CString} (h : comma ∉ piece)
    (rest : CString) :
    logEnabledLoop funcName (piece ++ comma :: rest) =
      (tokenMatches funcName (trim piece) || logEnabledLoop funcName rest) := by
  have hclean : comma ∉ piece.dropWhile isBlank := fun hc =>
    h ((List.dropWhile_sublist isBlank).subset hc)
  have htake : (piece.dropWhile isBlank ++ comma :: rest).takeWhile (· ≠ comma) =
      piece.dropWhile isBlank := by
    rw [List.takeWhile_append_of_pos (ne_comma_of_mem hclean)]
    simp
  have hafter : afterToken (piece.dropWhile isBlank ++ comma :: rest) = rest := by
    rw [afterToken, List.dropWhile_append_of_pos (ne_comma_of_mem hclean)]
    simp
  rw [logEnabledLoop_cons _ (by simp), dropWhile_isBlank_append, hafter, tokenAt_eq_trim]
  rw [dropWhile_isBlank_append, htake]

/-- The iteration of the last piece. -/
theorem logEnabledLoop_last {funcName : Option CString} (hnil : tokenMatches funcName [] = false)
    {piece : CString} (h : comma ∉ piece) :
    logEnabledLoop funcName piece = tokenMatches funcName (trim piece) := by
  by_cases hp : piece = []
  · subst hp
    rw [trim, List.dropWhile_nil, List.rdropWhile_nil, hnil, logEnabledLoop]
  have hclean : ∀ c ∈ piece.dropWhile isBlank, decide (c ≠ comma) = true :=
    fun c hc => ne_comma_of_mem h c ((List.dropWhile_sublist isBlank).subset hc)
  have hafter : afterToken (piece.dropWhile isBlank) = [] := by
    rw [afterToken, List.dropWhile_eq_nil_iff.mpr hclean, List.drop_nil]
  rw [logEnabledLoop_cons _ hp, hafter, logEnabledLoop, Bool.or_false, tokenAt_eq_trim]
  exact List.takeWhile_eq_self_iff.mpr hclean

/-- The outer loop goes through the pieces between the commas. -/
theorem logEnabledLoop_iff {funcName : Option CString} (hnil : tokenMatches funcName [] = false)
    (value : CString) :
    logEnabledLoop funcName value = true ↔
      ∃ piece ∈ value.splitOn comma, tokenMatches funcName (trim piece) = true := by
  induction hn : value.length using Nat.strong_induction_on generalizing value with
  | _ n ih =>
    by_cases hc : comma ∈ value
    · obtain ⟨piece, rest, rfl, hpiece⟩ := List.eq_append_cons_of_mem hc
      have hlt : rest.length < n := by
        rw [← hn, List.length_append, List.length_cons]
        omega
      rw [logEnabledLoop_piece funcName hpiece, List.splitOn_append_cons_self_of_not_mem hpiece,
        Bool.or_eq_true, ih rest.length hlt rest rfl, List.exists_mem_cons_iff]
    · rw [logEnabledLoop_last hnil hc, List.splitOn_eq_singleton hc]
      simp

namespace InMemory

/-- The loop that takes blanks off the end of the token at `start`. -/
def trimEnd (value : Region Byte) (start : Nat) : Nat → Nat → Option Nat
  | 0, _ => none
  | fuel + 1, tokenLen =>
    if tokenLen > 0 then do
      let last ← difference tokenLen 1
      let c ← Memory.load value (start + last)
      if isBlank c then trimEnd value start fuel last else return tokenLen
    else return tokenLen

/-- `a || b`, where `b` is evaluated after a false `a`. -/
def orElse (a b : Option Bool) : Option Bool := do
  let found ← a
  if found then return true else b

/-- `token_len == len && strncmp(start, text + i, len) == 0` -/
def tokenIs (value : Region Byte) (start tokenLen : Nat) (text : Region Byte) (i len : Nat) :
    Option Bool :=
  if tokenLen = len then strncmp NUL value text start i len else some false

def shortNameIs (value : Region Byte) (start tokenLen : Nat) (name : Region Byte) :
    Option Bool := do
  let prefixed ← strncmp NUL name (terminated NUL (ascii "sqfs_")) 0 0 5
  if prefixed then do
    let shortLen ← strlen NUL (name.drop 5)
    tokenIs value start tokenLen name 5 shortLen
  else return false

/-- The comparisons of one token. -/
def tokenMatches (value : Region Byte) (funcName : Option (Region Byte)) (nameLen start : Nat)
    (tokenLen : Nat) : Option Bool :=
  orElse (tokenIs value start tokenLen (terminated NUL (ascii "ALL")) 0 3) <|
    match funcName with
    | none => some false
    | some name => do
      let c ← Memory.load name 0
      orElse (if c ≠ NUL then tokenIs value start tokenLen name 0 nameLen else some false)
        (shortNameIs value start tokenLen name)

/-- `*p && *p != ','` -/
def inToken (c : Byte) : Bool := c ≠ NUL ∧ c ≠ comma

/-- The outer loop of `log_enabled` from `p` on, each loop with at most `fuel` iterations. -/
def logEnabledLoop (value : Region Byte) (funcName : Option (Region Byte)) (nameLen : Nat) :
    Nat → Nat → Option Bool
  | 0, _ => none
  | fuel + 1, p => do
    let c ← Memory.load value p
    if c = NUL then return false
    else do
      let start ← scanWhile isBlank value (fuel + 1) p
      let stop ← scanWhile inToken value (fuel + 1) start
      let whole ← difference stop start
      let tokenLen ← trimEnd value start (fuel + 1) whole
      let found ← tokenMatches value funcName nameLen start tokenLen
      if found then return true
      else do
        let c ← Memory.load value stop
        logEnabledLoop value funcName nameLen fuel (if c = comma then stop + 1 else stop)

/-- `name_len` -/
def nameLength (funcName : Option (Region Byte)) : Option Nat :=
  match funcName with
  | none => some 0
  | some name => strlen NUL name

def logEnabled (fuel : Nat) (value funcName : Option (Region Byte)) : Option Bool :=
  match value with
  | none => some false
  | some value => do
    let c ← Memory.load value 0
    if c = NUL then return false
    else do
      let nameLen ← nameLength funcName
      logEnabledLoop value funcName nameLen fuel 0

theorem trimEnd_eq {value : CString} {start n fuel : Nat} (hn : start + n ≤ value.length)
    (hfuel : n < fuel) :
    trimEnd (terminated NUL value) start fuel n =
      some (Manager.trimEnd (value.drop start) n) := by
  induction fuel generalizing n with
  | zero => omega
  | succ fuel ih =>
    cases n with
    | zero => rfl
    | succ n =>
      have hlt : start + n < value.length := by omega
      have hc : (value.drop start)[n]? = some value[start + n] := by
        rw [List.getElem?_drop, List.getElem?_eq_getElem hlt]
      have hload : Memory.load (terminated NUL value) (start + n) = some value[start + n] := by
        rw [load_terminated NUL hlt.le, List.head?_drop, List.getElem?_eq_getElem hlt,
          Option.getD_some]
      have hlast : difference (n + 1) 1 = some n := if_pos (Nat.le_add_left 1 n)
      rw [trimEnd, if_pos n.succ_pos, hlast, Manager.trimEnd, hc]
      dsimp only [Option.bind_eq_bind, Option.bind_some, Option.map_some, Option.getD_some]
      rw [hload, Option.bind_some, ih (by omega) (by omega)]
      split <;> rfl

theorem tokenIs_eq {value text : CString} (hv : NUL ∉ value) (ht : NUL ∉ text)
    {start tokenLen i len : Nat} (htoken : start + tokenLen ≤ value.length)
    (hlen : i + len = text.length) :
    tokenIs (terminated NUL value) start tokenLen (terminated NUL text) i len =
      some (decide ((value.drop start).take tokenLen = text.drop i)) := by
  rw [tokenIs]
  by_cases h : tokenLen = len
  · subst h
    have hall : (text.drop i).take tokenLen = text.drop i := List.take_of_length_le (by
      rw [List.length_drop]
      omega)
    rw [if_pos rfl, strncmp_terminated hv ht (by omega) (by omega), hall]
  · have hne : (value.drop start).take tokenLen ≠ text.drop i := by
      intro he
      have hlens := congrArg List.length he
      rw [List.length_take, List.length_drop, List.length_drop] at hlens
      omega
    rw [if_neg h, decide_eq_false hne]

theorem shortNameIs_eq {value name : CString} (hv : NUL ∉ value) (hn : NUL ∉ name)
    {start tokenLen : Nat} (htoken : start + tokenLen ≤ value.length) :
    shortNameIs (terminated NUL value) start tokenLen (terminated NUL name) =
      some ((ascii "sqfs_").isPrefixOf name &&
        decide ((value.drop start).take tokenLen = name.drop 5)) := by
  have hlen : (ascii "sqfs_").length = 5 := by decide
  have hprefix : decide (name.take 5 = (ascii "sqfs_").take 5) = (ascii "sqfs_").isPrefixOf name := by
    rw [Bool.eq_iff_iff, decide_eq_true_eq, List.isPrefixOf_iff_prefix, List.prefix_iff_eq_take, hlen]
    exact eq_comm
  have hcmp := strncmp_terminated hn (t := ascii "sqfs_") (by decide) (Nat.zero_le name.length)
    (Nat.zero_le (ascii "sqfs_").length) 5
  rw [List.drop_zero, List.drop_zero, hprefix] at hcmp
  rw [shortNameIs, hcmp]
  dsimp only [Option.bind_eq_bind, Option.bind_some]
  cases hp : (ascii "sqfs_").isPrefixOf name with
  | false => rfl
  | true =>
    have hle : 5 ≤ name.length := by
      rw [← hlen]
      exact (List.isPrefixOf_iff_prefix.mp hp).length_le
    have hclean : NUL ∉ name.drop 5 := fun h => hn (List.mem_of_mem_drop h)
    rw [if_pos rfl, drop_terminated NUL hle, (holds_terminated NUL hclean).strlen_eq,
      Option.bind_some, tokenIs_eq hv hn htoken, Bool.true_and]
    rw [List.length_drop]
    omega

@[simp] private theorem orElse_some (a b : Bool) : orElse (some a) (some b) = some (a || b) := by
  cases a <;> rfl

theorem tokenMatches_eq {value : CString} {funcName : Option CString} (hv : NUL ∉ value)
    (hn : ∀ name ∈ funcName, NUL ∉ name) {start tokenLen : Nat}
    (htoken : start + tokenLen ≤ value.length) :
    tokenMatches (terminated NUL value) (funcName.map (terminated NUL))
        ((funcName.map List.length).getD 0) start tokenLen =
      some (Manager.tokenMatches funcName ((value.drop start).take tokenLen)) := by
  have hclean : NUL ∉ ascii "ALL" := by decide
  have hall := tokenIs_eq hv hclean htoken (Nat.zero_add 3)
  rw [List.drop_zero] at hall
  rw [tokenMatches.eq_def, hall]
  cases funcName with
  | none => exact orElse_some _ _
  | some name =>
    have hclean := hn name rfl
    have hname := tokenIs_eq hv hclean htoken (Nat.zero_add name.length)
    have hfirst : Memory.load (terminated NUL name) 0 = some (name.head?.getD NUL) :=
      load_terminated NUL (Nat.zero_le _)
    rw [List.drop_zero] at hname
    dsimp only [Option.map_some, Option.getD_some]
    rw [hfirst, Option.bind_eq_bind, Option.bind_some, hname, shortNameIs_eq hv hclean htoken]
    cases name with
    | nil => rw [if_neg (by simp), orElse_some, orElse_some]; rfl
    | cons c name =>
      have hc : (c :: name).head?.getD NUL ≠ NUL := by
        intro he
        exact hclean (he ▸ List.mem_cons_self)
      rw [if_pos hc, orElse_some, orElse_some]
      rfl

private theorem takeWhile_congr {s : CString} {p q : Byte → Bool} (h : ∀ c ∈ s, p c = q c) :
    s.takeWhile p = s.takeWhile q ∧ s.dropWhile p = s.dropWhile q := by
  induction s with
  | nil => exact ⟨rfl, rfl⟩
  | cons c s ih =>
    obtain ⟨htake, hdrop⟩ := ih fun d hd => h d (List.mem_cons_of_mem c hd)
    simp only [List.takeWhile_cons, List.dropWhile_cons, h c List.mem_cons_self, htake, hdrop,
      and_self]

/-- Where the blanks in front of a token end. -/
private theorem scan_blanks {value : CString} {p fuel : Nat} (hp : p ≤ value.length)
    (hfuel : value.length - p < fuel) :
    ∃ start, scanWhile isBlank (terminated NUL value) fuel p = some start ∧ p ≤ start ∧
      start ≤ value.length ∧ value.drop start = (value.drop p).dropWhile isBlank := by
  have hnul : isBlank NUL = false := by decide
  obtain ⟨start, hscan, hle, hlen, -, hdrop⟩ := scanWhile_stops hnul hp hfuel
  exact ⟨start, hscan, hle, hlen, hdrop⟩

/-- Where a token ends: at its comma or at the end of the string. -/
private theorem scan_token {value : CString} (hv : NUL ∉ value) {start fuel : Nat}
    (hstart : start ≤ value.length) (hfuel : value.length - start < fuel) :
    ∃ stop, scanWhile inToken (terminated NUL value) fuel start = some stop ∧
      start ≤ stop ∧ stop ≤ value.length ∧
      stop - start = ((value.drop start).takeWhile (· ≠ comma)).length ∧
      value.drop stop = (value.drop start).dropWhile (· ≠ comma) := by
  have hnul : inToken NUL = false := by decide
  obtain ⟨stop, hscan, hle, hlen, hwhole, hdrop⟩ := scanWhile_stops hnul hstart hfuel
  have hsame : ∀ c ∈ value.drop start, inToken c = decide (c ≠ comma) := by
    intro c hmem
    have hne : c ≠ NUL := fun he => hv (he ▸ List.mem_of_mem_drop hmem)
    simp [inToken, hne]
  rw [(takeWhile_congr hsame).1] at hwhole
  rw [(takeWhile_congr hsame).2] at hdrop
  exact ⟨stop, hscan, hle, hlen, hwhole, hdrop⟩

/-- The pointer at the end of a token goes past the comma that ends it. -/
private theorem past_comma {value rest : CString} {stop : Nat} (hstop : stop ≤ value.length)
    (hdrop : value.drop stop = rest.dropWhile (· ≠ comma)) :
    ∃ c p, Memory.load (terminated NUL value) stop = some c ∧
      (if c = comma then stop + 1 else stop) = p ∧ value.drop p = afterToken rest ∧
      p ≤ value.length ∧ stop ≤ p ∧ (p = stop → stop = value.length) := by
  refine ⟨_, _, load_terminated NUL hstop, rfl, ?_⟩
  rw [afterToken, ← hdrop]
  cases hs : value.drop stop with
  | nil =>
    have hend : stop = value.length := Nat.le_antisymm hstop (List.drop_eq_nil_iff.mp hs)
    rw [if_neg (by decide), hs]
    exact ⟨rfl, hstop, Nat.le_refl _, fun _ => hend⟩
  | cons c more =>
    have hc : c = comma := by
      have hhead := List.head?_dropWhile_not (· ≠ comma) rest
      rw [← hdrop, hs] at hhead
      simpa using hhead
    have hlt : stop < value.length := by
      by_contra hge
      rw [List.drop_eq_nil_of_le (Nat.le_of_not_lt hge)] at hs
      cases hs
    rw [List.head?_cons, Option.getD_some, if_pos hc, ← List.drop_drop, hs]
    exact ⟨rfl, hlt, Nat.le_succ stop, fun he => absurd he (Nat.succ_ne_self stop)⟩

/-- The loop has a result from every place in the string, and it is the one on lists: every
iteration that goes on leaves a shorter rest. -/
theorem logEnabledLoop_eq {value : CString} {funcName : Option CString} (hv : NUL ∉ value)
    (hn : ∀ name ∈ funcName, NUL ∉ name) {fuel p : Nat} (hp : p ≤ value.length)
    (hfuel : value.length - p < fuel) :
    logEnabledLoop (terminated NUL value) (funcName.map (terminated NUL))
        ((funcName.map List.length).getD 0) fuel p =
      some (Manager.logEnabledLoop funcName (value.drop p)) := by
  induction fuel generalizing p with
  | zero => omega
  | succ fuel ih =>
    rw [logEnabledLoop, load_terminated NUL hp]
    dsimp only [Option.bind_eq_bind, Option.bind_some]
    cases hdrop : value.drop p with
    | nil =>
      rw [Manager.logEnabledLoop]
      exact if_pos rfl
    | cons c more =>
      have hlt : p < value.length := by
        by_contra hge
        rw [List.drop_eq_nil_of_le (Nat.le_of_not_lt hge)] at hdrop
        cases hdrop
      have hc : ¬ (c :: more).head?.getD NUL = NUL := by
        intro he
        have hmem : c ∈ value.drop p := by rw [hdrop]; exact List.mem_cons_self
        rw [List.head?_cons, Option.getD_some] at he
        exact hv (he ▸ List.mem_of_mem_drop hmem)
      obtain ⟨start, hstart, hps, hsl, hrest⟩ := scan_blanks hp hfuel
      obtain ⟨stop, hstop, hss, hstopl, hwhole, hafter⟩ :=
        scan_token hv hsl (show value.length - start < fuel + 1 by omega)
      obtain ⟨d, next, hload, hnext, hrestNext, hnextl, hle, hend⟩ := past_comma hstopl hafter
      have hdiff : difference stop start = some (stop - start) := if_pos hss
      have htoken : start + Manager.trimEnd (value.drop start) (stop - start) ≤ value.length := by
        have hle := trimEnd_le (value.drop start) (stop - start)
        omega
      rw [if_neg hc, hstart, Option.bind_some, hstop, Option.bind_some, hdiff, Option.bind_some,
        trimEnd_eq (by omega) (by omega), Option.bind_some, tokenMatches_eq hv hn htoken,
        Option.bind_some, ← hdrop,
        Manager.logEnabledLoop_cons funcName (by rw [hdrop]; exact List.cons_ne_nil _ _), tokenAt,
        ← hrest, ← hwhole, hload, Option.bind_some, hnext, ih hnextl (by omega), hrestNext]
      cases Manager.tokenMatches funcName _ <;> rfl

theorem logEnabled_eq {value : CString} {funcName : Option CString} (hv : NUL ∉ value)
    (hn : ∀ name ∈ funcName, NUL ∉ name) {fuel : Nat} (hfuel : value.length < fuel) :
    logEnabled fuel (some (terminated NUL value)) (funcName.map (terminated NUL)) =
      some (logEnabledIn (some value) funcName) := by
  have hlen : nameLength (funcName.map (terminated NUL)) =
      some ((funcName.map List.length).getD 0) := by
    cases funcName with
    | none => rfl
    | some name => exact (holds_terminated NUL (hn name rfl)).strlen_eq
  have hzero : value.length - 0 < fuel := by omega
  have hloop := logEnabledLoop_eq hv hn (Nat.zero_le value.length) hzero
  rw [List.drop_zero] at hloop
  rw [logEnabled, load_terminated NUL (Nat.zero_le _), List.drop_zero, hlen, logEnabledIn]
  dsimp only [Option.bind_eq_bind, Option.bind_some]
  rw [hloop]
  cases value with
  | nil => rw [Manager.logEnabledLoop]; rfl
  | cons c value =>
    have hc : ¬ (c :: value).head?.getD NUL = NUL := by
      intro he
      exact hv (he ▸ List.mem_cons_self)
    exact if_neg hc

end InMemory

/-- For every value of `HOOKSQFS_LOG_INCLUDE` and every name that is neither empty nor the bare
prefix: the scan of the two strings in memory ends with a result, no read leaving a string, and
it is 1 exactly where a piece between commas, trimmed, is `ALL`, the name or the name after
`sqfs_`. -/
theorem log_filter_accepts_grammar {value name : CString} (hv : NUL ∉ value) (hn : NUL ∉ name)
    (hne : name ≠ []) (hbare : name ≠ ascii "sqfs_") :
    ∃ enabled,
      (∀ fuel, value.length < fuel →
        InMemory.logEnabled fuel (some (terminated NUL value)) (some (terminated NUL name)) =
          some enabled) ∧
      logEnabledIn (some value) (some name) = enabled ∧
      (enabled = true ↔ ∃ piece ∈ value.splitOn comma, Selects name (trim piece)) := by
  refine ⟨_, ?_, rfl, ?_⟩
  · intro fuel hfuel
    have hname : ∀ n ∈ some name, NUL ∉ n := by
      intro n he
      rwa [← Option.mem_some.mp he]
    exact InMemory.logEnabled_eq hv hname hfuel
  · rw [logEnabledIn, logEnabledLoop_iff (tokenMatches_nil hne hbare)]
    simp only [tokenMatches_iff hne]

/-- Blanks around a piece and an empty last one. -/
theorem log_filter_accepts_grammar_open :
    ∃ enabled,
      (∀ fuel, (ascii "access, open ,").length < fuel →
        InMemory.logEnabled fuel (some (terminated NUL (ascii "access, open ,")))
          (some (terminated NUL (ascii "sqfs_open"))) = some enabled) ∧
      logEnabledIn (some (ascii "access, open ,")) (some (ascii "sqfs_open")) = enabled ∧
      (enabled = true ↔ ∃ piece ∈ (ascii "access, open ,").splitOn comma,
        Selects (ascii "sqfs_open") (trim piece)) :=
  log_filter_accepts_grammar (by decide) (by decide) (by decide) (by decide)

example : InMemory.logEnabled 16 (some (terminated NUL (ascii "access, open ,")))
    (some (terminated NUL (ascii "sqfs_open"))) = some true := by decide +kernel

example : InMemory.logEnabled 16 (some (terminated NUL (ascii "opendir,sqfs_ope")))
    (some (terminated NUL (ascii "sqfs_open"))) = some false := by decide +kernel

end HookSqfs.Manager
