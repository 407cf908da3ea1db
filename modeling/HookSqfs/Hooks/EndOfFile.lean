import HookSqfs.Hooks.FdOutlines
import HookSqfs.Hooks.FileSize

/-! The count of a read on its way through `size_t`, 32 bits and `int`: where a zero
result means the end of the file. -/
namespace HookSqfs.Hooks
open Manager Interaction Tables
variable (o : Oracle) (b : Bits)

/-- What `sqfs_data_reader_read` does with a regular file: it gives at most the size
asked, clamped, and nothing only for size 0 or from the end of the file on. -/
def ClampedReader : Prop :=
  ∀ n p offset size data len, fileSize p.inode = some len →
    o.answer n (.dataReaderRead p offset size) = .ok data →
    data.length ≤ size.toNat ∧ data.length ≤ 0x7ffffffe ∧
      (data = [] → size.toNat = 0 ∨ len ≤ offset.toNat)

/-- Zero is returned only for a count of zero or from the end of the file on, and any
other result is an error or a positive number up to the count. -/
def NoFalseEnd (count position len : Nat) (ret : Int) : Prop :=
  (ret = 0 → count = 0 ∨ len ≤ position) ∧ (ret ≠ 0 → ret = -1 ∨ 0 < ret ∧ ret ≤ count)

variable {o b}

/-- Only a count that loses all its bits on the way to 32 bits reads a false end. -/
private theorem noFalseEnd_iff (hlib : ClampedReader o) {n len : Nat} {p : InodePtr}
    {offset : BitVec 64} {count : BitVec b.width} (hlen : fileSize p.inode = some len)
    {answer : Except SqfsError (List Byte)}
    (hanswer : o.answer n (.dataReaderRead p offset (count.setWidth 32)) = answer) :
    NoFalseEnd count.toNat offset.toNat len (readResult answer).ret ↔
      count.toNat % 2 ^ 32 ≠ 0 ∨ count.toNat = 0 ∨ len ≤ offset.toNat ∨ ∃ e, answer = .error e := by
  cases answer with
  | error e => exact iff_of_true ⟨nofun, fun _ => .inl rfl⟩ (.inr (.inr (.inr ⟨e, rfl⟩)))
  | ok data =>
    obtain ⟨hsize, -, hempty⟩ := hlib n p offset _ data len hlen hanswer
    rw [BitVec.toNat_setWidth] at hsize hempty
    change NoFalseEnd count.toNat offset.toNat len (data.length : Int) ↔ _
    have hne : ¬ ∃ e, (.ok data : Except SqfsError (List Byte)) = .error e := nofun
    constructor
    · intro h
      by_contra hcond
      have hzero : data.length = 0 := by omega
      have := h.1 (by omega)
      omega
    · intro h
      refine ⟨fun hzero => ?_, fun hpos => .inr ⟨by omega, ?_⟩⟩
      · have hnil : data = [] := List.eq_nil_of_length_eq_zero (by omega)
        have := hempty hnil
        rcases h with h | h | h | h
        · omega
        · exact .inl h
        · exact .inr h
        · exact absurd h hne
      · have := Nat.mod_le count.toNat (2 ^ 32)
        omega

theorem realRead_mapError (answer : Except SqfsError (List Byte)) :
    realRead (answer.mapError errnoFromSqfs) = readResult answer := by
  cases answer <;> rfl

/-- A `pread` at an offset that is not negative is one read of the library. -/
private theorem pread_noFalseEnd (hlib : ClampedReader o) (func : CString) {w : World} {fd : Int}
    {entry : FDMapEntry} (hmapped : lookup FDMapEntry.key fd w.fdMap = some entry) {len : Nat}
    (hlen : fileSize entry.inode.inode = some len) (count : BitVec b.width) {offset : BitVec 64}
    (hoffset : 0 ≤ offset.toInt) {fall : Hook ReadResult} :
    ∃ r w', runAlone o (dispatch fd (do
        let entry : FDMapEntry ← ask (.fdMapEntry fd)
        sqfsPreadMapped b func entry count offset) .ret fall) w = some (r, w') ∧
      (NoFalseEnd count.toNat offset.toNat len r.ret ↔
        count.toNat % 2 ^ 32 ≠ 0 ∨ count.toNat = 0 ∨ len ≤ offset.toNat ∨
          ∃ e, readAnswer o b w entry.inode offset count = .error e) := by
  obtain ⟨v, hrun, -, -⟩ := run_sqfsPreadMapped o b w.locked func entry count offset
  have hslt : ¬ offset.slt 0 = true := by
    rw [BitVec.slt]
    simpa using hoffset
  rw [preadAnswer, if_neg hslt, realRead_mapError] at hrun
  have hsection : runAlone o (do
      let entry : FDMapEntry ← ask (.fdMapEntry fd)
      sqfsPreadMapped b func entry count offset) w.locked =
      some (readResult (readAnswer o b w entry.inode offset count), v) := by
    rw [Program.ask_bind, runAlone_fdMapEntry, World.locked_fdMap, hmapped]
    exact hrun
  exact ⟨_, _, run_dispatch_mapped hmapped hsection, noFalseEnd_iff hlib hlen rfl⟩

/-- The read hooks on a mapped regular file tell the end of the file exactly when the
count keeps a bit in its low 32. In a 32-bit build it always does. -/
theorem no_false_end_iff (hlib : ClampedReader o) (b : Bits) {w : World} {fd : Int}
    {entry : FDMapEntry} (hmapped : lookup FDMapEntry.key fd w.fdMap = some entry) {len : Nat}
    (hlen : fileSize entry.inode.inode = some len) (count : BitVec b.width) :
    (∃ r w', runAlone o (sqfsRead b fd count) w = some (r, w') ∧
      (NoFalseEnd count.toNat entry.offset.toNat len r.ret ↔
        count.toNat % 2 ^ 32 ≠ 0 ∨ count.toNat = 0 ∨ len ≤ entry.offset.toNat ∨
          ∃ e, readAnswer o b w entry.inode entry.offset count = .error e)) ∧
    (∀ offset : BitVec b.width, 0 ≤ offset.toInt →
      ∃ r w', runAlone o (sqfsPread b fd count offset) w = some (r, w') ∧
        (NoFalseEnd count.toNat offset.toNat len r.ret ↔
          count.toNat % 2 ^ 32 ≠ 0 ∨ count.toNat = 0 ∨ len ≤ offset.toNat ∨
            ∃ e, readAnswer o b w entry.inode (offset.signExtend 64) count = .error e)) ∧
    (∀ offset : BitVec 64, 0 ≤ offset.toInt →
      ∃ r w', runAlone o (sqfsPread64 b fd count offset) w = some (r, w') ∧
        (NoFalseEnd count.toNat offset.toNat len r.ret ↔
          count.toNat % 2 ^ 32 ≠ 0 ∨ count.toNat = 0 ∨ len ≤ offset.toNat ∨
            ∃ e, readAnswer o b w entry.inode offset count = .error e)) ∧
    (b = .b32 → count.toNat % 2 ^ 32 ≠ 0 ∨ count.toNat = 0) := by
  refine ⟨?_, fun offset hoffset => ?_, fun offset hoffset => ?_, ?_⟩
  · have hlocked : lookup FDMapEntry.key fd w.locked.fdMap = some entry := hmapped
    obtain ⟨v, hrun, -, -⟩ := run_sqfsReadMapped o b hlocked count
    rw [sqfsRead_eq]
    exact ⟨_, _, run_dispatch_mapped hmapped hrun, noFalseEnd_iff hlib hlen rfl⟩
  · rw [sqfsPread_eq, ← toNat_signExtend hoffset]
    apply pread_noFalseEnd hlib _ hmapped hlen count
    rw [toInt_signExtend]
    exact hoffset
  · rw [sqfsPread64_eq]
    exact pread_noFalseEnd hlib _ hmapped hlen count hoffset
  · rintro rfl
    have hlt : count.toNat < 2 ^ 32 := count.isLt
    omega

/-- A library whose regular files are full of zero bytes. -/
def zeroFiles : Oracle :=
  { Oracle.bare with
    answer := fun n c =>
      match c with
      | .dataReaderRead p offset size => .ok (List.replicate
          (min (min size.toNat 0x7ffffffe) ((fileSize p.inode).getD 0 - offset.toNat)) 0)
      | c => Oracle.bare.answer n c }

theorem zeroFiles_clamped : ClampedReader zeroFiles := by
  intro n p offset size data len hlen hdata
  cases hdata
  rw [List.length_replicate, List.replicate_eq_nil_iff, hlen, Option.getD_some]
  omega

theorem no_false_end_iff_five : ∃ r w',
    runAlone zeroFiles (sqfsRead .b64 3 2) (withFileOpen 5) = some (r, w') ∧
      NoFalseEnd 2 0 5 r.ret := by
  have hmapped : lookup FDMapEntry.key 3 (withFileOpen 5).fdMap = some
    { addr := 16, key := 3, inode := { addr := 1024, inode := plainFile 5 }, offset := 0 } := rfl
  obtain ⟨r, w', hrun, hiff⟩ := (no_false_end_iff zeroFiles_clamped .b64 hmapped rfl 2).1
  exact ⟨r, w', hrun, hiff.mpr (.inl (by decide))⟩

/-- A read of 4 GiB at the start of a file of five bytes returns zero. -/
theorem false_end_of_file : ∃ r w',
    runAlone zeroFiles (sqfsRead .b64 3 (BitVec.ofNat 64 (2 ^ 32))) (withFileOpen 5) =
        some (r, w') ∧ r.ret = 0 ∧ ¬ NoFalseEnd (2 ^ 32) 0 5 r.ret := by
  refine ⟨_, _, rfl, rfl, fun h => ?_⟩
  have := h.1 rfl
  omega

end HookSqfs.Hooks
