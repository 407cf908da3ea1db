import HookSqfs.Clients.HookContracts
import HookSqfs.Hooks.SeekArithmetic

/-! What each function of the concurrent test finds in a file that the hooks serve. -/
namespace HookSqfs.Clients
open Manager Hooks Interaction

/-- The bytes of one sample. -/
def sampleOf (bytes : List Byte) (index : Nat) : List Byte :=
  let offset := sampleOffset bytes.length index
  (bytes.drop offset).take (min SAMPLE_CHUNK (bytes.length - offset))

/-- The hash over samples of a file. -/
def sampleHash (bytes : List Byte) (samples : List Nat) (hash : BitVec 64) : BitVec 64 :=
  samples.foldl (fun hash index => hashUpdate hash (sampleOf bytes index)) hash

/-- What `main` finds out about a file with these bytes. -/
def expected (path : CString) (bytes : List Byte) (iterations : Nat) : TestConfig where
  path
  size := bytes.length
  prefixSize := min bytes.length PREFIX_LIMIT
  prefixHash := hashUpdate FNV_OFFSET (bytes.take PREFIX_LIMIT)
  sampleHash := sampleHash bytes (List.range SAMPLE_COUNT) FNV_OFFSET
  iterations

theorem hashUpdate_append (hash : BitVec 64) (xs ys : List Byte) :
    hashUpdate (hashUpdate hash xs) ys = hashUpdate hash (xs ++ ys) :=
  List.foldl_append.symm

theorem take_prefix (bytes : List Byte) :
    bytes.take (min bytes.length PREFIX_LIMIT) = bytes.take PREFIX_LIMIT := by
  rw [min_comm, ← List.take_eq_take_min]

theorem sampleOffset_lt {size : Nat} (h : 0 < size) (hsize : size < 2 ^ 64) (index : Nat) :
    sampleOffset size index < size := by
  have hpos : ¬ (size : Int) ≤ 0 := by omega
  rw [sampleOffset, if_neg hpos, BitVec.toNat_umod]
  have hnat : (BitVec.ofInt 64 (size : Int)).toNat = size := by
    rw [BitVec.toNat_ofInt]
    omega
  rw [hnat]
  exact Nat.mod_lt _ h

/-- A read of `m` bytes and one of those behind them. -/
theorem take_take_drop {α : Type} (xs : List α) (n m k : Nat) (hm : m ≤ k) :
    (xs.drop n).take m ++ (xs.drop (n + m)).take (k - m) = (xs.drop n).take k := by
  rw [← List.drop_drop, ← List.take_add, Nat.add_sub_cancel' hm]

variable {o : Oracle} {env : Env} {path relative : CString} {inode : Inode} {bytes : List Byte}
  {b : Bits} {fd addr : Nat} {position : BitVec 64}

theorem readOf_ret {n count : Nat} (h : n + count ≤ bytes.length) :
    (readOf bytes n count).ret = count ∧ (readOf bytes n count).data = (bytes.drop n).take count := by
  refine ⟨?_, rfl⟩
  simp only [readOf, List.length_take, List.length_drop]
  omega

theorem toNat_count {n : Nat} (h : n < readLimit) :
    ((BitVec.ofNat b.width n).setWidth 32).toNat = n := by
  rw [readLimit] at h
  cases b <;> simp only [BitVec.toNat_setWidth, BitVec.toNat_ofNat, Bits.width] <;> omega

theorem toNat_count_lt {n : Nat} (h : n < readLimit) :
    ((BitVec.ofNat b.width n).setWidth 32).toNat < readLimit := by
  rwa [toNat_count h]

section
variable (hfile : LowerFile o env path relative inode bytes)
include hfile

theorem LowerFile.length_lt : bytes.length < 2 ^ 64 :=
  hfile.size ▸ (sqfsInodeSize inode).isLt

theorem hashPrefixLoop_does {prefixSize total : Nat} {hash : BitVec 64}
    (hshort : prefixSize ≤ bytes.length) (htotal : total ≤ prefixSize)
    (hposition : position.toNat = total) :
    Does o env path (hashPrefixLoop b fd prefixSize total hash)
      (.mapped fd { addr, inode } position) fun r slot' =>
        r = some (prefixSize, hashUpdate hash ((bytes.drop total).take (prefixSize - total))) ∧
          ∃ position', slot' = .mapped fd { addr, inode } position' := by
  have hlength := hfile.length_lt
  induction hleft : prefixSize - total using Nat.strong_induction_on generalizing total hash position with
  | _ left ih =>
    rw [hashPrefixLoop]
    by_cases hmore : total < prefixSize
    · let want := min READ_CHUNK (prefixSize - total)
      have hwant : 0 < want ∧ want ≤ prefixSize - total ∧ want ≤ 8192 := by
        simp only [want, READ_CHUNK]
        omega
      rw [if_pos hmore]
      have hcount : want < readLimit := hwant.2.2.trans_lt (by decide)
      refine (sqfsRead_does hfile (toNat_count_lt hcount)).bind ?_
      rintro _ _ ⟨rfl, rfl⟩
      rw [hposition, toNat_count hcount]
      have hinside : total + want ≤ bytes.length := by omega
      obtain ⟨hret, hdata⟩ := readOf_ret hinside
      have hmoved : (position + BitVec.ofNat 64 want).toNat = total + want := by
        rw [BitVec.toNat_add, BitVec.toNat_ofNat, hposition]
        omega
      have hlen : (readOf bytes total want).data.length = want := by
        rw [hdata, List.length_take, List.length_drop]
        omega
      simp only [hret, hlen]
      rw [if_neg (by omega), if_neg (by omega), if_pos (Int.ofNat_le.mpr le_rfl), hdata]
      refine (ih (prefixSize - (total + want)) (by omega) (by omega) hmoved rfl).mono ?_
      rintro _ slot' ⟨rfl, hslot⟩
      refine ⟨?_, hslot⟩
      rw [hashUpdate_append, ← Nat.sub_sub, take_take_drop _ _ _ _ hwant.2.1, hleft]
    · have hend : total = prefixSize := by omega
      rw [if_neg hmore]
      refine .ret ⟨?_, position, rfl⟩
      rw [hend, ← hleft, hend, Nat.sub_self]
      rfl

theorem hashPrefixWithRead_does {prefixSize : Nat} (hshort : prefixSize ≤ bytes.length) :
    Does o env path (hashPrefixWithRead b path prefixSize) .closed fun r slot' =>
      r = some (hashUpdate FNV_OFFSET (bytes.take prefixSize)) ∧ slot' = .closed := by
  refine (sqfsOpen_does hfile).bind ?_
  rintro _ _ ⟨fd, addr, rfl, rfl⟩
  refine .neg (Int.not_lt.mpr (Int.natCast_nonneg fd)) ?_
  refine (hashPrefixLoop_does hfile hshort (Nat.zero_le _) rfl).bind ?_
  rintro _ _ ⟨rfl, position, rfl⟩
  refine (sqfsClose_does hfile).bind ?_
  rintro _ _ ⟨rfl, rfl⟩
  exact .neg (fun h => h rfl) (.neg (fun h => h rfl) (.ret ⟨rfl, rfl⟩))

theorem callPreadVariant_does {count offset : Nat} (hcount : count < readLimit)
    (hoffset : offset ≤ maxOff b) (usePread64 : Bool) :
    Does o env path (callPreadVariant b fd count offset usePread64)
      (.mapped fd { addr, inode } position) fun r slot' =>
        r = readOf bytes offset count ∧ slot' = .mapped fd { addr, inode } position := by
  have hmax : maxOff b < 2 ^ (b.width - 1) := by
    cases b <;> decide
  have hwidth : 2 ^ (b.width - 1) ≤ 2 ^ 63 := by
    cases b <;> decide
  unfold callPreadVariant
  cases usePread64 with
  | true =>
    have hsmall : (BitVec.ofNat 64 offset).toNat = offset := by
      rw [BitVec.toNat_ofNat]
      omega
    have hnonneg : 0 ≤ (BitVec.ofNat 64 offset).toInt := by
      rw [BitVec.toInt_eq_toNat_of_lt (by omega)]
      omega
    refine (sqfsPread64_does hfile (toNat_count_lt hcount) hnonneg).mono ?_
    rintro _ _ ⟨rfl, rfl⟩
    rw [toNat_count hcount, hsmall]
    exact ⟨rfl, rfl⟩
  | false =>
    have hsmall : (BitVec.ofNat b.width offset).toNat = offset := by
      rw [BitVec.toNat_ofNat]
      exact Nat.mod_eq_of_lt (lt_of_le_of_lt hoffset (lt_of_lt_of_le hmax (Nat.pow_le_pow_right
        (by decide) (Nat.sub_le _ _))))
    have hnonneg : 0 ≤ (BitVec.ofNat b.width offset).toInt := by
      rw [BitVec.toInt_eq_toNat_of_lt ?_]
      · omega
      · rw [hsmall]
        cases b <;> simp only [maxOff, Bits.width] at hoffset ⊢ <;> omega
    refine (sqfsPread_does hfile (toNat_count_lt hcount) hnonneg).mono ?_
    rintro _ _ ⟨rfl, rfl⟩
    rw [toNat_count hcount, hsmall]
    exact ⟨rfl, rfl⟩

/-- Both `pread` variants fill the buffer with the same bytes. -/
theorem sampleLoop_does (hbytes : bytes.length ≤ maxOff b) (usePread64 : Bool)
    {offset want done : Nat} {buf : List Byte} (hwant : want < readLimit) (hdone : done ≤ want)
    (hend : offset + want ≤ bytes.length) :
    Does o env path (sampleLoop b fd usePread64 offset want done buf)
      (.mapped fd { addr, inode } position) fun r slot' =>
        r = some (buf ++ (bytes.drop (offset + done)).take (want - done)) ∧
          slot' = .mapped fd { addr, inode } position := by
  rw [sampleLoop]
  by_cases hmore : done < want
  · rw [if_pos hmore]
    refine (callPreadVariant_does hfile (by omega) (by omega) usePread64).bind ?_
    rintro _ _ ⟨rfl, rfl⟩
    have hinside : offset + done + (want - done) ≤ bytes.length := by omega
    obtain ⟨hret, hdata⟩ := readOf_ret hinside
    simp only [hret, hdata]
    rw [if_neg (by omega), if_neg (by omega), if_pos (Int.ofNat_le.mpr le_rfl), sampleLoop,
      if_neg (by rw [Int.toNat_natCast]; omega)]
    exact .ret ⟨rfl, rfl⟩
  · rw [if_neg hmore]
    refine .ret ⟨?_, rfl⟩
    rw [Nat.sub_eq_zero_of_le (by omega), List.take_zero, List.append_nil]

theorem hashSamplesLoop_does (hbytes : bytes.length ≤ maxOff b) (usePread64 : Bool)
    (samples : List Nat) (hash : BitVec 64) :
    Does o env path (hashSamplesLoop b fd bytes.length usePread64 samples hash)
      (.mapped fd { addr, inode } position) fun r slot' =>
        r = some (sampleHash bytes samples hash) ∧
          slot' = .mapped fd { addr, inode } position := by
  induction samples generalizing hash with
  | nil => exact .ret ⟨rfl, rfl⟩
  | cons i samples ih =>
    rw [hashSamplesLoop]
    by_cases hempty : bytes = []
    · rw [if_pos (by rw [hempty]; rfl)]
      have hsame : sampleHash bytes (i :: samples) hash = hash := by
        rw [sampleHash, hempty]
        exact List.foldl_fixed' (fun i => by simp [sampleOf, hashUpdate]) _
      exact .ret ⟨congrArg some hsame.symm, rfl⟩
    · have hpos : 0 < bytes.length := List.length_pos_iff.mpr hempty
      have hoffset := sampleOffset_lt hpos hfile.length_lt i
      rw [if_neg (by omega)]
      refine (sampleLoop_does hfile hbytes usePread64 ?_ (Nat.zero_le _) ?_).bind ?_
      · exact (Nat.min_le_left ..).trans_lt (by decide)
      · simp only [Int.toNat_natCast]
        omega
      rintro _ _ ⟨rfl, rfl⟩
      exact ih _

/-- The samples hash to one value, read with `pread` or with `pread64`. -/
theorem hashSamplesWithPread_does (hbytes : bytes.length ≤ maxOff b) (usePread64 : Bool) :
    Does o env path (hashSamplesWithPread b path bytes.length usePread64) .closed fun r slot' =>
      r = some (sampleHash bytes (List.range SAMPLE_COUNT) FNV_OFFSET) ∧ slot' = .closed := by
  refine (sqfsOpen_does hfile).bind ?_
  rintro _ _ ⟨fd, addr, rfl, rfl⟩
  refine .neg (Int.not_lt.mpr (Int.natCast_nonneg fd)) ?_
  refine (hashSamplesLoop_does hfile hbytes usePread64 _ _).bind ?_
  rintro _ _ ⟨rfl, rfl⟩
  refine (sqfsClose_does hfile).bind ?_
  rintro _ _ ⟨rfl, rfl⟩
  exact .neg (fun h => h rfl) (.ret ⟨rfl, rfl⟩)

omit hfile in
/-- A seek from the start that the type holds. -/
theorem lseekResult_set (entry : FDMapEntry) {n : Nat} (h : n ≤ maxOff b) :
    lseekResult b entry (BitVec.ofInt b.width n) SEEK_SET = .ok (BitVec.ofNat 64 n) := by
  have hint : (BitVec.ofInt b.width (n : Int)).toInt = n := by
    rw [BitVec.toInt_ofInt]
    exact signed_of_le b h
  have hlt : n < 2 ^ 63 := by
    cases b <;> simp only [maxOff, Bits.width] at h <;> omega
  have hsum : sqfsSeekAdd 0 ((BitVec.ofInt b.width (n : Int)).signExtend 64) =
      .ok (BitVec.ofNat 64 n) := by
    have hzero : (0 : BitVec 64).toNat = 0 := rfl
    rw [seekAdd_exact, toInt_signExtend, hint, hzero, if_neg (by omega), if_neg (by omega)]
    congr 2
    omega
  have hmax : ¬ BitVec.ofNat 64 n > maxSignedValueForSize (b.width / 8) := by
    rw [gt_iff_lt, BitVec.lt_def, maxSignedValueForSize_toNat, BitVec.toNat_ofNat]
    omega
  have hcalculate : sqfsSeekCalculate entry ((BitVec.ofInt b.width (n : Int)).signExtend 64) SEEK_SET =
      .ok (BitVec.ofNat 64 n) := by
    rw [sqfsSeekCalculate, if_pos rfl, hsum]
  rw [lseekResult, seekResult, hcalculate]
  exact if_neg hmax

/-- `read` after a seek and `pread` at that offset give the same bytes. -/
theorem probeReads_does {offset want : Nat} (hoffset : offset ≤ maxOff b)
    (hposition : position.toNat = offset) (hwant : want ≤ probeSize) :
    Does o env path (probeReads b fd offset want) (.mapped fd { addr, inode } position)
      fun r slot' => r = 0 ∧ slot' = .closed := by
  have hsmall : want < readLimit := lt_of_le_of_lt hwant (by decide)
  have hret : ∀ n, ¬ (readOf bytes n want).ret < 0 ∧ ¬ (readOf bytes n want).ret > probeSize := by
    intro n
    simp only [readOf, List.length_take]
    omega
  refine (sqfsRead_does hfile (toNat_count_lt hsmall)).bind ?_
  rintro _ _ ⟨rfl, rfl⟩
  rw [hposition, toNat_count hsmall]
  refine .neg (hret offset).1 (.neg (hret offset).2 ?_)
  refine (callPreadVariant_does hfile hsmall hoffset true).bind ?_
  rintro _ _ ⟨rfl, rfl⟩
  refine .neg (hret offset).1 (.neg (hret offset).2 ?_)
  refine (sqfsClose_does hfile).bind ?_
  rintro _ _ ⟨rfl, rfl⟩
  exact .neg (fun h => h rfl) (.neg (fun h => h rfl) (.ret ⟨rfl, rfl⟩))

theorem probeLseek_does {cfg : TestConfig} (hpath : cfg.path = path) (hsize : cfg.size = bytes.length)
    (hbytes : bytes.length ≤ maxOff b) :
    Does o env path (probeLseek b cfg) .closed fun r slot' => r = 0 ∧ slot' = .closed := by
  subst hpath
  have hlength := hfile.length_lt
  unfold probeLseek
  rw [hsize]
  by_cases hempty : (bytes.length : Int) ≤ 0
  · rw [if_pos hempty]
    exact .ret ⟨rfl, rfl⟩
  rw [if_neg hempty]
  have hhalf : ((bytes.length : Int) / 2).toNat = bytes.length / 2 := by omega
  refine (sqfsOpen_does hfile).bind ?_
  rintro _ _ ⟨fd, addr, rfl, rfl⟩
  refine .neg (Int.not_lt.mpr (Int.natCast_nonneg fd)) ?_
  have hseek : ∀ entry, lseekResult b entry (BitVec.ofInt b.width ((bytes.length : Int) / 2)) SEEK_SET =
      .ok (BitVec.ofNat 64 (bytes.length / 2)) := by
    intro entry
    have hle : bytes.length / 2 ≤ maxOff b := by omega
    exact lseekResult_set entry hle
  have hposition : (BitVec.ofNat 64 (bytes.length / 2)).toNat = bytes.length / 2 := by
    rw [BitVec.toNat_ofNat]
    omega
  refine (sqfsLseek_does fun entry => hseek _).bind ?_
  rintro _ _ ⟨rfl, rfl⟩
  rw [hposition]
  refine .neg (fun h => h (by omega)) ?_
  rw [hhalf]
  exact probeReads_does hfile (by omega) hposition (Nat.min_le_left _ _)

theorem probeXstatAccess_does {cfg : TestConfig} (hpath : cfg.path = path)
    (hsize : cfg.size = bytes.length) (hbytes : bytes.length ≤ maxOff b) (st : Stat) :
    Does o env path (probeXstatAccess b cfg st) .closed fun r slot' => r = 0 ∧ slot' = .closed := by
  subst hpath
  refine (sqfsXstat_does hfile st).bind ?_
  rintro _ _ ⟨⟨blockSize, rfl⟩, rfl⟩
  refine .neg (fun h => h rfl) (.neg (fun h => h ?_) ?_)
  · have hstat : (sqfsFillStat b blockSize inode).stSize = bytes.length := by
      change b.signed (sqfsInodeSize inode).toNat = bytes.length
      rw [hfile.size]
      exact signed_of_le b hbytes
    exact congrArg some (hstat.trans hsize.symm)
  · refine (sqfsAccess_does hfile).bind ?_
    rintro _ _ ⟨rfl, rfl⟩
    exact .neg (fun h => h rfl) (.ret ⟨rfl, rfl⟩)

theorem getPathSize_does (hbytes : bytes.length ≤ maxOff b) :
    Does o env path (getPathSize b path) .closed fun r slot' =>
      r = some (bytes.length : Int) ∧ slot' = .closed := by
  refine (sqfsOpen_does hfile).bind ?_
  rintro _ _ ⟨fd, addr, rfl, rfl⟩
  refine .neg (Int.not_lt.mpr (Int.natCast_nonneg fd)) ?_
  have hend : ∀ entry : Nat, lseekResult b { addr := entry, key := fd, inode := { addr, inode }, offset := 0 }
      0 SEEK_END = .ok (sqfsInodeSize inode) := by
    intro entry
    rw [lseekResult_end, if_neg]
    rw [gt_iff_lt, BitVec.lt_def, maxSignedValueForSize_toNat, hfile.size]
    omega
  refine (sqfsLseek_does hend).bind ?_
  rintro _ _ ⟨rfl, rfl⟩
  refine .request trivial fun savedErrno _ _ => (sqfsClose_does hfile).bind ?_
  rintro _ _ ⟨rfl, rfl⟩
  refine .neg (fun h => h.1 rfl) (.neg (Int.not_lt.mpr (Int.natCast_nonneg _)) (.ret ⟨?_, rfl⟩))
  rw [hfile.size]

/-- An iteration against what is expected of the file finds no error. -/
theorem workerIteration_does (hbytes : bytes.length ≤ maxOff b) (iterations : Nat) (st : Stat)
    (i : Nat) : Does o env path (workerIteration b (expected path bytes iterations) st i) .closed
      fun errors slot' => errors = 0 ∧ slot' = .closed := by
  unfold workerIteration
  refine (hashPrefixWithRead_does hfile (Nat.min_le_left _ _)).bind ?_
  rintro _ _ ⟨rfl, rfl⟩
  refine (hashSamplesWithPread_does hfile hbytes _).bind ?_
  rintro _ _ ⟨rfl, rfl⟩
  refine (probeLseek_does hfile rfl rfl hbytes).bind ?_
  rintro _ _ ⟨rfl, rfl⟩
  refine (probeXstatAccess_does hfile rfl rfl hbytes st).bind ?_
  rintro _ _ ⟨rfl, rfl⟩
  refine .ret ⟨?_, rfl⟩
  simp [expected, take_prefix]

theorem workerLoop_does (hbytes : bytes.length ≤ maxOff b) (iterations : Nat) (st : Stat)
    (left errors : Nat) :
    Does o env path (workerLoop b (expected path bytes iterations) st left errors) .closed
      fun errors' slot' => errors' = errors ∧ slot' = .closed := by
  induction left generalizing errors with
  | zero => exact .ret ⟨rfl, rfl⟩
  | succ left ih =>
    refine (workerIteration_does hfile hbytes iterations st _).bind ?_
    rintro _ _ ⟨rfl, rfl⟩
    exact ih errors

/-- `main` finds out what is expected of the file. -/
theorem baseline_does (hbytes : bytes.length ≤ maxOff b) (iterations : Nat) :
    Does o env path (baseline b path iterations) .closed fun r slot' =>
      r = some (expected path bytes iterations) ∧ slot' = .closed := by
  refine (getPathSize_does hfile hbytes).bind ?_
  rintro _ _ ⟨rfl, rfl⟩
  refine (hashPrefixWithRead_does hfile ?_).bind ?_
  · exact Nat.min_le_left _ _
  rintro _ _ ⟨rfl, rfl⟩
  refine (hashSamplesWithPread_does hfile hbytes true).bind ?_
  rintro _ _ ⟨rfl, rfl⟩
  refine .ret ⟨?_, rfl⟩
  simp [expected, take_prefix]

/-- The descriptor to share, at the start of the file. -/
theorem sharedReadOpen_does : Does o env path (sharedReadOpen b path) .closed fun r slot' =>
    ∃ fd addr : Nat, r = some (fd : Int) ∧ slot' = .mapped fd { addr, inode } 0 := by
  refine (sqfsOpen_does hfile).bind ?_
  rintro _ _ ⟨fd, addr, rfl, rfl⟩
  refine .neg (Int.not_lt.mpr (Int.natCast_nonneg fd)) ?_
  have hstart : ∀ entry, lseekResult b entry 0 SEEK_SET = .ok 0 := fun entry =>
    lseekResult_set (b := b) entry (Nat.zero_le _)
  refine (sqfsLseek_does fun entry => hstart _).bind ?_
  rintro _ _ ⟨rfl, rfl⟩
  exact .neg (fun h => h rfl) (.ret ⟨fd, addr, rfl, rfl⟩)

/-- The count is checked and the descriptor closed. -/
theorem sharedReadClose_does {cfg : TestConfig} (hsize : cfg.size = bytes.length) :
    Does o env path (sharedReadClose cfg fd bytes.length 0) (.mapped fd { addr, inode } position)
      fun r slot' => r = 0 ∧ slot' = .closed := by
  refine (sqfsClose_does hfile).bind ?_
  rintro _ _ ⟨rfl, rfl⟩
  refine .neg (fun h => h rfl) (.neg (fun h => ?_) (.ret ⟨rfl, rfl⟩))
  rw [hsize] at h
  exact h.elim (fun h => h rfl) fun h => h (BitVec.ofInt_natCast 64 _).symm

end
end HookSqfs.Clients
