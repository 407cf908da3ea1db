import HookSqfs.Hooks.FileSize

/-! The seek arithmetic in wrapping 64-bit numbers against the exact integers. -/
namespace HookSqfs.Hooks
open Manager Interaction Tables

/-- The exact sum that a seek by an offset asks for. -/
def seekSum (position size : Nat) (offset whence : Int) : Option Int :=
  if whence = SEEK_SET then some offset
  else if whence = SEEK_CUR then some (position + offset)
  else if whence = SEEK_END then some (size + offset)
  else none

/-- Where a seek goes when results up to `max` can be returned. -/
def seekTarget (position size max : Nat) (offset whence : Int) : Option Nat :=
  match seekSum position size offset whence with
  | some sum => if 0 ≤ sum ∧ sum ≤ max then some sum.toNat else none
  | none =>
    if whence = SEEK_DATA then
      if 0 ≤ offset ∧ offset < size ∧ offset ≤ max then some offset.toNat else none
    else if whence = SEEK_HOLE then
      if 0 ≤ offset ∧ offset ≤ size ∧ size ≤ max then some size else none
    else none

/-- The errno of a failed seek: a negative sum is invalid, one above the maximum is an
overflow, an unknown `whence` is invalid. -/
def seekErrno (position size max : Nat) (offset whence : Int) : Option Errno :=
  match seekSum position size offset whence with
  | some sum =>
    if sum < 0 then some Errno.EINVAL else if max < sum then some Errno.EOVERFLOW else none
  | none => if whence = SEEK_DATA ∨ whence = SEEK_HOLE then none else some Errno.EINVAL

section
variable (base offset : BitVec 64)

private theorem toInt_eq : offset.toInt = if offset.toNat < 2 ^ 63 then (offset.toNat : Int)
    else offset.toNat - 2 ^ 64 := by
  have := BitVec.toInt_eq_toNat_cond offset
  split at this <;> split <;> omega

private theorem slt_zero_iff : offset.slt 0 = true ↔ offset.toInt < 0 := by
  rw [BitVec.slt]
  simp

/-- The two-step negation gives the distance, the most negative offset included. -/
private theorem distance_toNat (h : offset.toInt < 0) :
    (-(offset + 1) + 1).toNat = (-offset.toInt).toNat := by
  rw [toInt_eq] at h ⊢
  have hlt := offset.isLt
  have hneg : -(offset + 1) + 1 = -offset := by
    rw [BitVec.neg_add]
    bv_omega
  rw [hneg, BitVec.toNat_neg]
  split at h <;> split <;> omega

/-- `sqfs_seek_add` is exact wherever the sum is a 64-bit number. -/
theorem seekAdd_exact : sqfsSeekAdd base offset =
    if (base.toNat : Int) + offset.toInt < 0 then .error Errno.EINVAL
    else if 2 ^ 64 ≤ (base.toNat : Int) + offset.toInt then .error Errno.EOVERFLOW
    else .ok (BitVec.ofNat 64 ((base.toNat : Int) + offset.toInt).toNat) := by
  have hbase := base.isLt
  have hoffset := offset.isLt
  unfold sqfsSeekAdd
  by_cases hneg : offset.toInt < 0
  · have hdist := distance_toNat offset hneg
    rw [if_pos ((slt_zero_iff offset).mpr hneg)]
    by_cases hbelow : (base.toNat : Int) + offset.toInt < 0
    · have hgt : -(offset + 1) + 1 > base := by
        rw [gt_iff_lt, BitVec.lt_def, hdist]
        omega
      rw [if_pos hbelow]
      exact if_pos hgt
    · have hle : ¬ -(offset + 1) + 1 > base := by
        rw [gt_iff_lt, BitVec.lt_def, hdist]
        omega
      have hsmall : ¬ (2 : Int) ^ 64 ≤ (base.toNat : Int) + offset.toInt := by omega
      rw [if_neg hbelow, if_neg hsmall]
      refine (if_neg hle).trans (congrArg _ ?_)
      apply BitVec.eq_of_toNat_eq
      rw [BitVec.toNat_sub_of_le (BitVec.not_lt.mp hle), hdist, BitVec.toNat_ofNat]
      omega
  · rw [if_neg (fun h => hneg ((slt_zero_iff offset).mp h))]
    have hnat : offset.toInt = offset.toNat := by
      rw [toInt_eq] at hneg ⊢
      split at hneg <;> omega
    have hpos : ¬ (base.toNat : Int) + offset.toInt < 0 := by omega
    rw [if_neg hpos, hnat]
    have hroom : (BitVec.allOnes 64 - base).toNat = 2 ^ 64 - 1 - base.toNat := by
      rw [BitVec.toNat_sub_of_le (BitVec.le_def.mpr (by rw [BitVec.toNat_allOnes]; omega)),
        BitVec.toNat_allOnes]
    by_cases hover : (2 : Int) ^ 64 ≤ (base.toNat : Int) + offset.toNat
    · have hlt : BitVec.allOnes 64 - base < offset := by
        rw [BitVec.lt_def, hroom]
        omega
      rw [if_pos hlt, if_pos hover]
    · have hge : ¬ BitVec.allOnes 64 - base < offset := by
        rw [BitVec.lt_def, hroom]
        omega
      rw [if_neg hge, if_neg hover]
      apply congrArg
      apply BitVec.eq_of_toNat_eq
      rw [BitVec.toNat_add, BitVec.toNat_ofNat]
      omega

/-- A result that the return type can hold. -/
def capped (max : BitVec 64) : Except Errno (BitVec 64) → Except Errno (BitVec 64)
  | .error e => .error e
  | .ok n => if n > max then .error Errno.EOVERFLOW else .ok n

/-- The second limit makes the sum exact below the maximum. -/
private theorem capped_seekAdd {max : BitVec 64} (hmax : max.toNat < 2 ^ 63) :
    capped max (sqfsSeekAdd base offset) =
      if (base.toNat : Int) + offset.toInt < 0 then .error Errno.EINVAL
      else if (max.toNat : Int) < (base.toNat : Int) + offset.toInt then .error Errno.EOVERFLOW
      else .ok (BitVec.ofNat 64 ((base.toNat : Int) + offset.toInt).toNat) := by
  rw [seekAdd_exact]
  by_cases hneg : (base.toNat : Int) + offset.toInt < 0
  · rw [if_pos hneg, if_pos hneg, capped]
  · rw [if_neg hneg, if_neg hneg]
    by_cases hover : (2 : Int) ^ 64 ≤ (base.toNat : Int) + offset.toInt
    · rw [if_pos hover, if_pos (by omega), capped]
    · have hnat : (BitVec.ofNat 64 ((base.toNat : Int) + offset.toInt).toNat).toNat =
          ((base.toNat : Int) + offset.toInt).toNat := by
        rw [BitVec.toNat_ofNat]
        omega
      rw [if_neg hover, capped]
      by_cases hbig : (max.toNat : Int) < (base.toNat : Int) + offset.toInt
      · rw [if_pos hbig, if_pos]
        rw [gt_iff_lt, BitVec.lt_def, hnat]
        omega
      · rw [if_neg hbig, if_neg]
        rw [gt_iff_lt, BitVec.lt_def, hnat]
        omega

end

theorem seekResult_eq_capped (entry : FDMapEntry) (offset : BitVec 64) (whence : Int)
    (max : BitVec 64) :
    seekResult entry offset whence max = capped max (sqfsSeekCalculate entry offset whence) := by
  unfold seekResult
  cases sqfsSeekCalculate entry offset whence <;> rfl

/-- The outcome of a seek: the target, or an errno that is the one it should be. -/
def SeekOutcome (target : Option Nat) (errno : Option Errno) (max : BitVec 64) :
    Except Errno (BitVec 64) → Prop
  | .ok n => target = some n.toNat ∧ n.toNat ≤ max.toNat
  | .error e => target = none ∧ ∀ e', errno = some e' → e = e'

private theorem outcome_of_sum {base offset max : BitVec 64} (hmax : max.toNat < 2 ^ 63)
    {position size : Nat} {whence : Int}
    (hsum : seekSum position size offset.toInt whence =
      some ((base.toNat : Int) + offset.toInt)) :
    SeekOutcome (seekTarget position size max.toNat offset.toInt whence)
      (seekErrno position size max.toNat offset.toInt whence) max
      (capped max (sqfsSeekAdd base offset)) := by
  rw [capped_seekAdd base offset hmax, seekTarget, seekErrno, hsum]
  dsimp only
  by_cases hneg : (base.toNat : Int) + offset.toInt < 0
  · rw [if_pos hneg, if_pos hneg, if_neg (by omega)]
    exact ⟨rfl, fun e he => Option.some.inj he⟩
  · rw [if_neg hneg, if_neg hneg]
    by_cases hbig : (max.toNat : Int) < (base.toNat : Int) + offset.toInt
    · rw [if_pos hbig, if_pos hbig, if_neg (by omega)]
      exact ⟨rfl, fun e he => Option.some.inj he⟩
    · have hnat : (BitVec.ofNat 64 ((base.toNat : Int) + offset.toInt).toNat).toNat =
          ((base.toNat : Int) + offset.toInt).toNat := by
        rw [BitVec.toNat_ofNat]
        omega
      rw [if_neg hbig, if_neg hbig, if_pos (by omega), SeekOutcome, hnat]
      exact ⟨rfl, by omega⟩

private theorem lt_iff_toInt {offset : BitVec 64} (size : BitVec 64) (h : ¬ offset.toInt < 0) :
    (offset < size ↔ offset.toInt < size.toNat) ∧ offset.toInt = offset.toNat := by
  have hoffset := offset.isLt
  have hnat : offset.toInt = offset.toNat := by
    rw [toInt_eq] at h ⊢
    split at h <;> omega
  refine ⟨?_, hnat⟩
  rw [BitVec.lt_def, hnat]
  omega

/-- The next data of a file without holes. -/
private theorem outcome_of_data {position : Nat} {size offset max : BitVec 64} {whence : Int}
    (hsum : seekSum position size.toNat offset.toInt whence = none) (hwhence : whence = SEEK_DATA) :
    SeekOutcome (seekTarget position size.toNat max.toNat offset.toInt whence)
      (seekErrno position size.toNat max.toNat offset.toInt whence) max
      (capped max (if offset.slt 0 then .error Errno.EINVAL
        else if offset ≥ size then .error Errno.ENXIO else .ok offset)) := by
  have htarget : seekTarget position size.toNat max.toNat offset.toInt whence =
      if 0 ≤ offset.toInt ∧ offset.toInt < size.toNat ∧ offset.toInt ≤ max.toNat then
        some offset.toInt.toNat else none := by
    rw [seekTarget, hsum]
    exact if_pos hwhence
  have herrno : seekErrno position size.toNat max.toNat offset.toInt whence = none := by
    rw [seekErrno, hsum]
    exact if_pos (.inl hwhence)
  rw [htarget, herrno]
  by_cases hneg : offset.toInt < 0
  · rw [if_pos ((slt_zero_iff offset).mpr hneg), if_neg (by omega)]
    exact ⟨rfl, nofun⟩
  · obtain ⟨hlt, hnat⟩ := lt_iff_toInt size hneg
    rw [if_neg (fun h => hneg ((slt_zero_iff offset).mp h))]
    by_cases hin : offset < size
    · rw [if_neg (BitVec.not_le.mpr hin), capped]
      have hin' := hlt.mp hin
      by_cases hbig : offset > max
      · rw [if_pos hbig, if_neg]
        · exact ⟨rfl, nofun⟩
        · rw [gt_iff_lt, BitVec.lt_def] at hbig
          omega
      · rw [if_neg hbig, if_pos]
        · exact ⟨by rw [hnat]; rfl, BitVec.not_lt.mp hbig⟩
        · have hle : offset.toNat ≤ max.toNat := BitVec.not_lt.mp hbig
          omega
    · have hout : ¬ offset.toInt < size.toNat := fun h => hin (hlt.mpr h)
      rw [if_pos (BitVec.not_lt.mp hin), if_neg (fun h => hout h.2.1)]
      exact ⟨rfl, nofun⟩

/-- The next hole of a file without holes: its end. -/
private theorem outcome_of_hole {position : Nat} {size offset max : BitVec 64} {whence : Int}
    (hsum : seekSum position size.toNat offset.toInt whence = none) (hdata : whence ≠ SEEK_DATA)
    (hwhence : whence = SEEK_HOLE) :
    SeekOutcome (seekTarget position size.toNat max.toNat offset.toInt whence)
      (seekErrno position size.toNat max.toNat offset.toInt whence) max
      (capped max (if offset.slt 0 then .error Errno.EINVAL
        else if offset > size then .error Errno.ENXIO else .ok size)) := by
  have htarget : seekTarget position size.toNat max.toNat offset.toInt whence =
      if 0 ≤ offset.toInt ∧ offset.toInt ≤ size.toNat ∧ size.toNat ≤ max.toNat then
        some size.toNat else none := by
    rw [seekTarget, hsum]
    exact (if_neg hdata).trans (if_pos hwhence)
  have herrno : seekErrno position size.toNat max.toNat offset.toInt whence = none := by
    rw [seekErrno, hsum]
    exact if_pos (.inr hwhence)
  rw [htarget, herrno]
  by_cases hneg : offset.toInt < 0
  · rw [if_pos ((slt_zero_iff offset).mpr hneg), if_neg (by omega)]
    exact ⟨rfl, nofun⟩
  · obtain ⟨-, hnat⟩ := lt_iff_toInt size hneg
    rw [if_neg (fun h => hneg ((slt_zero_iff offset).mp h))]
    by_cases hout : offset > size
    · rw [if_pos hout, if_neg]
      · exact ⟨rfl, nofun⟩
      · rw [gt_iff_lt, BitVec.lt_def] at hout
        omega
    · rw [if_neg hout, capped]
      have hle : offset.toNat ≤ size.toNat := BitVec.not_lt.mp hout
      by_cases hbig : size > max
      · rw [if_pos hbig, if_neg]
        · exact ⟨rfl, nofun⟩
        · rw [gt_iff_lt, BitVec.lt_def] at hbig
          omega
      · have hfits : size.toNat ≤ max.toNat := BitVec.not_lt.mp hbig
        rw [if_neg hbig, if_pos (by omega)]
        exact ⟨rfl, hfits⟩

/-- What `sqfs_lseek_mapped` stores is the target of the seek. -/
theorem seekResult_exact (entry : FDMapEntry) (offset : BitVec 64) (whence : Int)
    {max : BitVec 64} (hmax : max.toNat < 2 ^ 63) :
    SeekOutcome (seekTarget entry.offset.toNat (sqfsInodeSize entry.inode.inode).toNat max.toNat
        offset.toInt whence)
      (seekErrno entry.offset.toNat (sqfsInodeSize entry.inode.inode).toNat max.toNat
        offset.toInt whence) max
      (seekResult entry offset whence max) := by
  rw [seekResult_eq_capped, sqfsSeekCalculate]
  generalize sqfsInodeSize entry.inode.inode = size
  by_cases hset : whence = SEEK_SET
  · rw [if_pos hset]
    apply outcome_of_sum hmax
    rw [seekSum, if_pos hset]
    simp
  rw [if_neg hset]
  by_cases hcur : whence = SEEK_CUR
  · rw [if_pos hcur]
    apply outcome_of_sum hmax
    rw [seekSum, if_neg hset, if_pos hcur]
  rw [if_neg hcur]
  by_cases hend : whence = SEEK_END
  · rw [if_pos hend]
    apply outcome_of_sum hmax
    rw [seekSum, if_neg hset, if_neg hcur, if_pos hend]
  rw [if_neg hend]
  have hsum : seekSum entry.offset.toNat size.toNat offset.toInt whence = none := by
    rw [seekSum, if_neg hset, if_neg hcur, if_neg hend]
  by_cases hdata : whence = SEEK_DATA
  · rw [if_pos hdata]
    exact outcome_of_data hsum hdata
  rw [if_neg hdata]
  by_cases hhole : whence = SEEK_HOLE
  · rw [if_pos hhole]
    exact outcome_of_hole hsum hdata hhole
  rw [if_neg hhole, seekTarget, seekErrno, hsum]
  dsimp only
  rw [if_neg hdata, if_neg hhole, if_neg (not_or.mpr ⟨hdata, hhole⟩)]
  exact ⟨rfl, fun e he => Option.some.inj he⟩

/-- A larger maximum only adds targets above the smaller one. -/
theorem seekTarget_mono {position size max max' : Nat} (h : max ≤ max') (offset whence : Int)
    (n : Nat) : seekTarget position size max offset whence = some n ↔
      seekTarget position size max' offset whence = some n ∧ n ≤ max := by
  unfold seekTarget
  cases seekSum position size offset whence with
  | some sum =>
    dsimp only
    split <;> split <;> simp only [Option.some.injEq, reduceCtorEq, false_and, false_iff] <;> omega
  | none =>
    dsimp only
    split
    · split <;> split <;> simp only [Option.some.injEq, reduceCtorEq, false_and, false_iff] <;> omega
    · split
      · split <;> split <;> simp only [Option.some.injEq, reduceCtorEq, false_and, false_iff] <;>
          omega
      · simp

/-- An errno is claimed only where there is no target. -/
theorem seekTarget_of_errno {position size max : Nat} {offset whence : Int} {e : Errno}
    (h : seekErrno position size max offset whence = some e) :
    seekTarget position size max offset whence = none := by
  unfold seekErrno at h
  unfold seekTarget
  cases hsum : seekSum position size offset whence with
  | some sum =>
    rw [hsum] at h
    dsimp only at h ⊢
    apply if_neg
    split at h
    · omega
    · split at h
      · omega
      · cases h
  | none =>
    rw [hsum] at h
    dsimp only at h ⊢
    split at h
    · cases h
    · rename_i hother
      rw [if_neg (fun hd => hother (.inl hd)), if_neg (fun hh => hother (.inr hh))]

/-- The offset that `fd_map` has for a descriptor. -/
def storedOffset (w : World) (fd : Int) : Option Nat :=
  (lookup FDMapEntry.key fd w.fdMap).map fun entry => entry.offset.toNat

/-- A seek on `fd` returns its target and stores it, or fails with the errno claimed and
stores nothing. -/
structure SeekExact (target : Option Nat) (errno : Option Errno) (fd : Int) (w : World) (r : Int)
    (w' : World) : Prop where
  succeeds : ∀ n : Nat, target = some n → r = n ∧ storedOffset w' fd = some n
  fails : target = none → r = -1 ∧ storedOffset w' fd = storedOffset w fd
  errno : ∀ e, errno = some e → w'.errno = e

/-- A seek is exact but for what the log line does to the errno of a failure. -/
private theorem seekExact_iff {target : Option Nat} {errno : Option Errno} {max : BitVec 64}
    {result : Except Errno (BitVec 64)} (hout : SeekOutcome target errno max result)
    (hnone : ∀ e, errno = some e → target = none) {fd : Int} {w w' : World} {entry : FDMapEntry}
    (hmapped : lookup FDMapEntry.key fd w.fdMap = some entry) {r : Int} {left : Errno → Errno}
    (hr : r = seekReturn result)
    (hmap : w'.fdMap = seekTable w.fdMap fd result)
    (herr : ∀ e, result = .error e → w'.errno = left e) :
    SeekExact target errno fd w r w' ↔ ∀ e, errno = some e → left e = e := by
  cases result with
  | ok n =>
    have hquiet : ∀ e, errno ≠ some e := by
      intro e he
      have := hout.1.symm.trans (hnone e he)
      cases this
    have hkey : ∀ e : FDMapEntry, ({ e with offset := n } : FDMapEntry).key = e.key := fun _ => rfl
    refine iff_of_true ⟨?_, ?_, fun e he => absurd he (hquiet e)⟩ fun e he => absurd he (hquiet e)
    · intro m hm
      cases Option.some.inj (hout.1.symm.trans hm)
      refine ⟨hr, ?_⟩
      rw [storedOffset, hmap, seekTable, lookup_adjust_self hkey, hmapped]
      rfl
    · intro htarget
      cases hout.1.symm.trans htarget
  | error e =>
    have hstored : storedOffset w' fd = storedOffset w fd := by
      rw [storedOffset, storedOffset, hmap]
      rfl
    constructor
    · intro h e' he'
      rw [← hout.2 e' he', ← herr e rfl, h.errno e' he', hout.2 e' he']
    · intro h
      refine ⟨fun n hn => ?_, fun _ => ⟨hr, hstored⟩, fun e' he' => ?_⟩
      · cases hout.1.symm.trans hn
      · rw [herr e rfl, hout.2 e' he', h e' he']

private theorem maxOff_lt (b : Bits) : (maxSignedValueForSize (b.width / 8)).toNat < 2 ^ 63 := by
  cases b <;> decide

private theorem lseek_outcome (b : Bits) (entry : FDMapEntry) (offset : BitVec b.width)
    (whence : Int) :
    SeekOutcome (seekTarget entry.offset.toNat (sqfsInodeSize entry.inode.inode).toNat (maxOff b)
        offset.toInt whence)
      (seekErrno entry.offset.toNat (sqfsInodeSize entry.inode.inode).toNat (maxOff b)
        offset.toInt whence)
      (maxSignedValueForSize (b.width / 8)) (lseekResult b entry offset whence) := by
  rw [← maxSignedValueForSize_toNat, ← toInt_signExtend]
  exact seekResult_exact entry (offset.signExtend 64) whence (maxOff_lt b)

/-- What a seek to a target returns. -/
def targetReturn : Option Nat → Int
  | none => -1
  | some n => n

private theorem seekReturn_of_outcome {target : Option Nat} {errno : Option Errno} {max : BitVec 64}
    {result : Except Errno (BitVec 64)} (h : SeekOutcome target errno max result) :
    seekReturn result = targetReturn target := by
  cases result with
  | error e =>
    rw [h.1]
    rfl
  | ok n =>
    rw [h.1]
    rfl

/-- Of two targets of which the first is the second as far as `max` goes. -/
private theorem targets_agree {t t' : Option Nat} {max : Nat}
    (h : ∀ n, t = some n ↔ t' = some n ∧ n ≤ max) :
    (targetReturn t ≠ -1 → targetReturn t' = targetReturn t) ∧
      (targetReturn t' ≠ -1 → targetReturn t' ≤ max → targetReturn t = targetReturn t') := by
  constructor
  · intro hr
    cases t with
    | none => exact absurd rfl hr
    | some n => rw [((h n).mp rfl).1]
  · intro hr hle
    cases t' with
    | none => exact absurd rfl hr
    | some n => rw [(h n).mpr ⟨rfl, Int.ofNat_le.mp hle⟩]

/-- The seek on a mapped descriptor as exact integers: `sqfs_lseek` and `sqfs_lseek64`
return and store the target where there is one, and otherwise leave the stored offset
alone; the errno is the exact one exactly where the log line of the failure leaves it.
Both agree as far as `off_t` goes. -/
theorem seek_exact_iff (o : Oracle) (b : Bits) {w : World} {fd : Int} {entry : FDMapEntry}
    (hmapped : lookup FDMapEntry.key fd w.fdMap = some entry) {position size : Nat}
    (hposition : entry.offset.toNat = position)
    (hsize : (sqfsInodeSize entry.inode.inode).toNat = size) :
    (∀ (offset : BitVec b.width) (whence : Int),
      ∃ r w', runAlone o (sqfsLseek b fd offset whence) w = some (r, w') ∧
        (SeekExact (seekTarget position size (maxOff b) offset.toInt whence)
            (seekErrno position size (maxOff b) offset.toInt whence) fd w r w' ↔
          ∀ e, seekErrno position size (maxOff b) offset.toInt whence = some e →
            w.loggedErrno o (some (ascii "sqfs_lseek")) e = e)) ∧
    (∀ (offset : BitVec 64) (whence : Int),
      ∃ r w', runAlone o (sqfsLseek64 fd offset whence) w = some (r, w') ∧
        (SeekExact (seekTarget position size (2 ^ 63 - 1) offset.toInt whence)
            (seekErrno position size (2 ^ 63 - 1) offset.toInt whence) fd w r w' ↔
          ∀ e, seekErrno position size (2 ^ 63 - 1) offset.toInt whence = some e →
            w.loggedErrno o (some (ascii "sqfs_lseek64")) e = e)) ∧
    ∀ (offset : BitVec b.width) (whence : Int), ∃ r w' r64 w64,
      runAlone o (sqfsLseek b fd offset whence) w = some (r, w') ∧
      runAlone o (sqfsLseek64 fd (offset.signExtend 64) whence) w = some (r64, w64) ∧
      (r ≠ -1 → r64 = r) ∧ (r64 ≠ -1 → r64 ≤ maxOff b → r = r64) := by
  subst hposition hsize
  have hmax64 : (0x7fffffffffffffff : BitVec 64).toNat = 2 ^ 63 - 1 := by decide
  have hsmall : (0x7fffffffffffffff : BitVec 64).toNat < 2 ^ 63 := by decide
  have houtcome64 := fun (offset : BitVec 64) (whence : Int) =>
    seekResult_exact entry offset whence hsmall
  rw [hmax64] at houtcome64
  refine ⟨fun offset whence => ?_, fun offset whence => ?_, fun offset whence => ?_⟩
  · obtain ⟨w', hrun, hmap, herr⟩ := run_sqfsLseek o b hmapped offset whence
    exact ⟨_, w', hrun, seekExact_iff (lseek_outcome b entry offset whence)
      (fun e he => seekTarget_of_errno he) hmapped rfl hmap herr⟩
  · obtain ⟨w', hrun, hmap, herr⟩ := run_sqfsLseek64 o hmapped offset whence
    exact ⟨_, w', hrun, seekExact_iff (houtcome64 offset whence)
      (fun e he => seekTarget_of_errno he) hmapped rfl hmap herr⟩
  · obtain ⟨w', hrun, -, -⟩ := run_sqfsLseek o b hmapped offset whence
    obtain ⟨w64, hrun64, -, -⟩ := run_sqfsLseek64 o hmapped (offset.signExtend 64) whence
    refine ⟨_, w', _, w64, hrun, hrun64, ?_⟩
    rw [seekReturn_of_outcome (lseek_outcome b entry offset whence),
      seekReturn_of_outcome (houtcome64 (offset.signExtend 64) whence), toInt_signExtend]
    have hle : maxOff b ≤ 2 ^ 63 - 1 := by cases b <;> decide
    exact targets_agree fun n => seekTarget_mono hle offset.toInt whence n

/-- A descriptor at the start of a file of five bytes, with the log of one function on. -/
def withLoggedFile (func : CString) : World :=
  { withFileOpen 5 with
    env := { World.initial.env with hooksqfsLogInclude := some func } }

/-- Log writes that fail. -/
def deafOracle : Oracle := { Oracle.bare with writes := fun _ => [.error Errno.EBADF] }

theorem seek_exact_iff_below_zero : ∃ r w',
    runAlone .bare (sqfsLseek .b32 3 (-1) SEEK_CUR) (withFileOpen 5) = some (r, w') ∧
      SeekExact none (some Errno.EINVAL) 3 (withFileOpen 5) r w' := by
  have hmapped : lookup FDMapEntry.key 3 (withFileOpen 5).fdMap = some
    { addr := 16, key := 3, inode := { addr := 1024, inode := plainFile 5 }, offset := 0 } := rfl
  obtain ⟨r, w', hrun, hiff⟩ := (seek_exact_iff .bare .b32 hmapped rfl rfl).1 (-1) SEEK_CUR
  refine ⟨r, w', hrun, hiff.mpr fun e he => ?_⟩
  cases he
  rfl

/-- A seek below zero reports the errno of the failed log write. -/
theorem logged_seek_loses_errno : ∃ r w',
    runAlone deafOracle (sqfsLseek .b32 3 (-1) SEEK_CUR) (withLoggedFile (ascii "sqfs_lseek")) =
        some (r, w') ∧ r = -1 ∧ w'.errno = Errno.EBADF ∧
      seekErrno 0 5 (maxOff .b32) (-1) SEEK_CUR = some Errno.EINVAL ∧
      ¬ SeekExact none (some Errno.EINVAL) 3 (withLoggedFile (ascii "sqfs_lseek")) r w' := by
  have hlogged : (withLoggedFile (ascii "sqfs_lseek")).loggedErrno deafOracle
      (some (ascii "sqfs_lseek")) Errno.EINVAL = Errno.EBADF := by decide +kernel
  have hmapped : lookup FDMapEntry.key 3 (withLoggedFile (ascii "sqfs_lseek")).fdMap = some
    { addr := 16, key := 3, inode := { addr := 1024, inode := plainFile 5 }, offset := 0 } := rfl
  obtain ⟨w', hrun, -, herr⟩ := run_sqfsLseek deafOracle .b32 hmapped (-1) SEEK_CUR
  have herrno := (herr Errno.EINVAL rfl).trans hlogged
  refine ⟨_, w', hrun, rfl, herrno, rfl, fun h => ?_⟩
  exact absurd ((h.errno _ rfl).symm.trans herrno) (by decide)

end HookSqfs.Hooks
