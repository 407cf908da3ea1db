import HookSqfs.Hooks.StaleDescriptors
import HookSqfs.Tables.Cursors

/-! `fd_map` refines a table of cursors: whatever the threads do, every call is one
operation on a file whose bytes never change. -/
namespace HookSqfs.Hooks
open Manager Interaction Tables
variable {b : Bits} {o : Oracle} {content : InodePtr → List Byte}

/-- What `sqfs_data_reader_read` gives is no longer than asked and is what the file has
at the offset. File sizes are 64-bit numbers. -/
structure ReadsContent (o : Oracle) (content : InodePtr → List Byte) : Prop where
  short : ∀ inode, (content inode).length < 2 ^ 64
  read : ∀ n inode offset size data, o.answer n (.dataReaderRead inode offset size) = .ok data →
    data.length ≤ size.toNat ∧ data <+: (content inode).drop offset.toNat

/-- The cursor of an entry. -/
def entryCursor (content : InodePtr → List Byte) (entry : FDMapEntry) : Cursor Byte :=
  ⟨content entry.inode, entry.offset.toNat⟩

/-- `fd_map` as a table of cursors. -/
def cursors (content : InodePtr → List Byte) (w : World) : CursorTable Int Byte :=
  fun fd => (lookup FDMapEntry.key fd w.fdMap).map (entryCursor content)

/-- The operation on the cursors. -/
def FdOp.onCursors (content : InodePtr → List Byte) : FdOp → CursorOp Int Byte
  | .opened entry => .opened entry.key (content entry.inode)
  | .closed fd => .closed fd
  | .read fd _ data => .read fd data
  | .readAt fd offset _ data => .readAt fd offset.toNat data
  | .sought fd offset => .sought fd offset.toNat
  | .failed fd => .failed fd
  | .missed fd => .missed fd

private theorem cursors_same {w w' : World} (h : w'.fdMap = w.fdMap) :
    cursors content w' = cursors content w := by
  funext fd
  rw [cursors, cursors, h]

private theorem cursors_adjust {w w' : World} {fd : Int} {entry : FDMapEntry} {offset : BitVec 64}
    (hentry : lookup FDMapEntry.key fd w.fdMap = some entry)
    (h : w'.fdMap = adjust FDMapEntry.key fd (fun e => { e with offset }) w.fdMap) :
    cursors content w' = Function.update (cursors content w) fd
      (some ⟨content entry.inode, offset.toNat⟩) := by
  have hkey : ∀ e : FDMapEntry, ({ e with offset } : FDMapEntry).key = e.key := fun _ => rfl
  funext fd'
  by_cases hfd : fd' = fd
  · rw [hfd, Function.update_self, cursors, h, lookup_adjust_self hkey, hentry]
    rfl
  · rw [Function.update_of_ne hfd, cursors, h, lookup_adjust_ne hkey hfd]
    rfl

/-- The cursor of an entry after a read. -/
private theorem offset_advanced (hreads : ReadsContent o content) {entry : FDMapEntry}
    {data : List Byte} (hdata : data <+: (content entry.inode).drop entry.offset.toNat) :
    (entry.offset + BitVec.ofNat 64 data.length).toNat = entry.offset.toNat + data.length := by
  have hlen := hdata.length_le
  have hshort := hreads.short entry.inode
  have hoffset := entry.offset.isLt
  rw [List.length_drop] at hlen
  rw [BitVec.toNat_add, BitVec.toNat_ofNat]
  by_cases hempty : data.length = 0
  · rw [hempty]
    omega
  · omega

/-- Each operation of the code is the operation on the cursors. -/
theorem FdOp.Changes.applies (hreads : ReadsContent o content) {op : FdOp} {w w' : World}
    (hw : FdInv w) (h : op.Changes o w w') :
    (op.onCursors content).Applies (cursors content w) (cursors content w') := by
  cases op with
  | opened entry =>
    obtain ⟨hfresh, hzero, hmap⟩ := h
    have hnew : entry.key ∉ fdKeys w := by
      intro hkey
      obtain ⟨n, hn, -⟩ := hw.backed _ hkey
      exact Option.some_ne_none _ (hn.symm.trans hfresh)
    refine ⟨by rw [cursors, lookup_eq_none.mpr hnew]; rfl, ?_⟩
    funext fd
    by_cases hfd : fd = entry.key
    · rw [hfd, Function.update_self, cursors, hmap, lookup_cons, if_pos rfl, Option.map_some,
        entryCursor, hzero]
      rfl
    · rw [Function.update_of_ne hfd, cursors, hmap, lookup_cons, if_neg (Ne.symm hfd)]
      rfl
  | closed fd =>
    refine ⟨by rw [cursors, Option.isSome_map]; exact h.1, ?_⟩
    funext fd'
    by_cases hfd : fd' = fd
    · rw [hfd, Function.update_self, cursors, h.2, lookup_remove_self hw.distinct]
      rfl
    · rw [Function.update_of_ne hfd, cursors, h.2, lookup_remove_ne hfd]
      rfl
  | read fd size data =>
    obtain ⟨entry, n, hentry, hanswer, hmap⟩ := h
    have hdata := (hreads.read _ _ _ _ _ hanswer).2
    refine ⟨entryCursor content entry, by rw [cursors, hentry]; rfl, hdata, ?_⟩
    rw [cursors_adjust hentry hmap, offset_advanced hreads hdata]
    rfl
  | readAt fd offset size data =>
    obtain ⟨entry, n, hentry, hanswer, -, hmap⟩ := h
    exact ⟨entryCursor content entry, by rw [cursors, hentry]; rfl,
      (hreads.read _ _ _ _ _ hanswer).2, cursors_same hmap⟩
  | sought fd offset =>
    obtain ⟨hmapped, hmap⟩ := h
    obtain ⟨entry, hentry⟩ := Option.isSome_iff_exists.mp hmapped
    refine ⟨entryCursor content entry, by rw [cursors, hentry]; rfl, ?_⟩
    rw [cursors_adjust hentry hmap]
    rfl
  | failed fd => exact ⟨by rw [cursors, Option.isSome_map]; exact h.1, cursors_same h.2⟩
  | missed fd => exact ⟨by rw [cursors, h.1]; rfl, cursors_same h.2⟩

/-- What a read from `fd` ends with, when `op data` is the operation that gives `data`. -/
def ReadDelivers (fd : Int) (op : List Byte → CursorOp Int Byte) (r : ReadResult)
    (ops : List (CursorOp Int Byte)) : Prop :=
  (∃ data, ops = [op data] ∧ r = { ret := data.length, data }) ∨
    ops = [.failed fd] ∧ r = { ret := -1 } ∨ ops = [.missed fd]

/-- What a call does to the cursors, with the result it returns. -/
def FdCall.Delivers (r : ReadResult) (ops : List (CursorOp Int Byte)) : FdCall b → Prop
  | .open .. => r.ret = -1 ∧ ops = [] ∨ ∃ fd : Nat, r.ret = fd ∧
      (ops = [] ∨ ∃ bytes, ops = [.opened fd bytes])
  | .close fd | .closeNocancel fd => ops = [] ∧ r.ret = -1 ∨ ops = [.closed fd] ∨ ops = [.missed fd]
  | .read fd _ => ReadDelivers fd (.read fd) r ops
  | .pread fd _ offset => ReadDelivers fd (.readAt fd offset.toInt.toNat) r ops ∧
      (offset.toInt < 0 → ops = [.failed fd] ∨ ops = [.missed fd])
  | .pread64 fd _ offset => ReadDelivers fd (.readAt fd offset.toInt.toNat) r ops ∧
      (offset.toInt < 0 → ops = [.failed fd] ∨ ops = [.missed fd])
  | .lseek fd _ _ | .lseek64 fd _ _ =>
    (∃ position : Nat, ops = [.sought fd position] ∧ r.ret = position) ∨
      ops = [.failed fd] ∧ r.ret = -1 ∨ ops = [.missed fd]

/-- A history with the operations on the cursors in place of the bursts. -/
def cursorHistory (content : InodePtr → List Byte) (hist : List (Nat × FdEvent)) :
    List (Nat × CursorOp Int Byte) :=
  hist.filterMap fun x => x.2.op.map fun op => (x.1, op.onCursors content)

theorem trail_cursorHistory (n : Nat) (hist : List (Nat × FdEvent)) :
    trail n (cursorHistory content hist) = (ops (trail n hist)).map (FdOp.onCursors content) := by
  induction hist with
  | nil => rfl
  | cons x hist ih =>
    obtain ⟨m, before, after, op⟩ := x
    rw [cursorHistory, trail] at ih ⊢
    rw [ops, trail] at ih ⊢
    by_cases hm : m = n <;> cases op <;> simp [hm, ih]

private theorem begins_fdMap (n : Nat) (call : FdCall b) (w : World) :
    ((fdSystem b o).begins n call w).fdMap = w.fdMap := by
  cases call <;> rfl

private theorem ends_fdMap (n : Nat) (call : FdCall b) (r : ReadResult) (w : World) :
    ((fdSystem b o).ends n call r w).fdMap = w.fdMap := by
  cases call with
  | «open» pathname flags mode =>
    change (if 0 ≤ r.ret then _ else w : World).fdMap = _
    split <;> rfl
  | _ => rfl

/-- The history is a run of operations on the cursors, in the order of the bursts. -/
theorem trace_runs (hreads : ReadsContent o content) {w₀ w : World}
    {ls : List (Label World (FdCall b) ReadResult)} {hist : List (Nat × FdEvent)}
    (h : (fdProtocol b o).Trace w₀ ls hist w) :
    CursorOp.Runs (cursors content w₀) ((cursorHistory content hist).map (·.2))
      (cursors content w) ∧
    ((cursorHistory content hist).map (·.1)).Sublist (ls.filterMap Label.mover) := by
  induction h with
  | nil => exact ⟨rfl, List.Sublist.refl _⟩
  | started n call trace ih =>
    rw [cursors_same (begins_fdMap n call _), List.filterMap_append]
    exact ⟨ih.1, ih.2.trans (List.sublist_append_left _ _)⟩
  | finished n call r trace ih =>
    rw [cursors_same (ends_fdMap n call r _), List.filterMap_append]
    exact ⟨ih.1, ih.2.trans (List.sublist_append_left _ _)⟩
  | moved n trace inv effect ih =>
    obtain ⟨op, rfl, -, hop⟩ := effect
    rw [List.filterMap_append, cursorHistory, List.filterMap_append, List.map_append,
      List.map_append, CursorOp.runs_append]
    cases op with
    | none => exact ⟨⟨_, ih.1, cursors_same hop⟩, ih.2.append (List.nil_sublist _)⟩
    | some op => exact ⟨⟨_, ih.1, _, hop.applies hreads inv, rfl⟩, ih.2.append (List.Sublist.refl _)⟩

/-- The operations of a call that returned are changes of the table. -/
private theorem changes_of_ops {w₀ w : World} {ls : List (Label World (FdCall b) ReadResult)}
    {hist : List (Nat × FdEvent)} (h : (fdProtocol b o).Trace w₀ ls hist w) {n : Nat} {op : FdOp}
    (hops : ops (trail n hist) = [op]) : ∃ u v, op.Changes o u v := by
  have hmem : op ∈ ops (trail n hist) := by rw [hops]; exact List.mem_cons_self
  obtain ⟨ev, hev, hop⟩ := List.mem_filterMap.mp hmem
  obtain ⟨u, v, evs, -, ⟨op', rfl, -, hchanges⟩, hmem⟩ := h.effect_of_mem hev
  cases List.mem_singleton.mp hmem
  cases hop
  exact ⟨u, v, hchanges⟩

/-- A `pread` that gives data has a non-negative offset. -/
private theorem pread_delivers {w₀ w : World} {ls : List (Label World (FdCall b) ReadResult)}
    {hist : List (Nat × FdEvent)} (h : (fdProtocol b o).Trace w₀ ls hist w) {n : Nat} {fd : Int}
    {count : BitVec b.width} {offset : BitVec 64} {r : ReadResult} {op : FdOp}
    (hops : ops (trail n hist) = [op]) (hans : (FdCall.pread64 fd count offset).Answers r op) :
    (FdCall.pread64 fd count offset).Delivers r
      ((ops (trail n hist)).map (FdOp.onCursors content)) := by
  rw [hops]
  rcases hans with ⟨data, rfl, rfl⟩ | ⟨rfl, rfl⟩ | rfl
  · obtain ⟨u, v, entry, k, -, -, hnonneg, -⟩ := changes_of_ops h hops
    refine ⟨.inl ⟨data, ?_, rfl⟩, fun hneg => by omega⟩
    rw [← toNat_of_nonneg hnonneg]
    rfl
  · exact ⟨.inr (.inl ⟨rfl, rfl⟩), fun _ => .inl rfl⟩
  · exact ⟨.inr (.inr rfl), fun _ => .inr rfl⟩

private theorem call_delivers {w₀ w v : World} {ls : List (Label World (FdCall b) ReadResult)}
    {hist : List (Nat × FdEvent)} (h : (fdProtocol b o).Trace w₀ ls hist w) {n : Nat}
    {call : FdCall b} {r : ReadResult} (hpost : FdPost b n call r (trail n hist) v) :
    call.Delivers r ((ops (trail n hist)).map (FdOp.onCursors content)) := by
  have hclose : ∀ fd, (ops (trail n hist) = [] ∧ r.ret = -1 ∨ ∃ op, ops (trail n hist) = [op] ∧
      (op = .closed fd ∨ op = .missed fd)) → (FdCall.close (b := b) fd).Delivers r
        ((ops (trail n hist)).map (FdOp.onCursors content)) := by
    rintro fd (⟨hops, hr⟩ | ⟨op, hops, rfl | rfl⟩)
    · exact .inl ⟨by rw [hops]; rfl, hr⟩
    · exact .inr (.inl (by rw [hops]; rfl))
    · exact .inr (.inr (by rw [hops]; rfl))
  cases call with
  | «open» pathname flags mode =>
    rcases hpost with ⟨hr, hops, -⟩ | ⟨⟨fd, hr, -⟩, hops | ⟨op, hops, entry, rfl, hkey⟩⟩
    · exact .inl ⟨hr, by rw [hops]; rfl⟩
    · exact .inr ⟨fd, hr, .inl (by rw [hops]; rfl)⟩
    · refine .inr ⟨fd, hr, .inr ⟨content entry.inode, ?_⟩⟩
      rw [hops, ← hr, hkey]
      rfl
  | close fd => exact hclose fd hpost
  | closeNocancel fd => exact hclose fd hpost
  | read fd count =>
    obtain ⟨op, hops, ⟨data, rfl, hr⟩ | ⟨rfl, hr⟩ | rfl⟩ := hpost
    · exact .inl ⟨data, by rw [hops]; rfl, hr⟩
    · exact .inr (.inl ⟨by rw [hops]; rfl, hr⟩)
    · exact .inr (.inr (by rw [hops]; rfl))
  | pread fd count offset =>
    obtain ⟨op, hops, hans⟩ := hpost
    have hdelivers : (FdCall.pread64 fd count (offset.signExtend 64)).Delivers r
        ((ops (trail n hist)).map (FdOp.onCursors content)) := pread_delivers h hops hans
    rw [FdCall.Delivers, toInt_signExtend] at hdelivers
    exact hdelivers
  | pread64 fd count offset =>
    obtain ⟨op, hops, hans⟩ := hpost
    exact pread_delivers h hops hans
  | lseek fd offset whence =>
    obtain ⟨op, hops, ⟨offset, rfl, hr⟩ | ⟨rfl, hr⟩ | rfl⟩ := hpost
    · exact .inl ⟨offset.toNat, by rw [hops]; rfl, hr⟩
    · exact .inr (.inl ⟨by rw [hops]; rfl, hr⟩)
    · exact .inr (.inr (by rw [hops]; rfl))
  | lseek64 fd offset whence =>
    obtain ⟨op, hops, ⟨offset, rfl, hr⟩ | ⟨rfl, hr⟩ | rfl⟩ := hpost
    · exact .inl ⟨offset.toNat, by rw [hops]; rfl, hr⟩
    · exact .inr (.inl ⟨by rw [hops]; rfl, hr⟩)
    · exact .inr (.inr (by rw [hops]; rfl))

/-- Every run of the hooks on any number of threads is a run of operations on the table
of cursors, in the order of the locked sections, and every call that returned made the
one operation that its result reports. While a new descriptor is only read, its reads
deliver the file piece by piece, each piece once. -/
theorem fd_map_refines_cursors (hreads : ReadsContent o content) {w₀ : World} (hinit : FdInv w₀)
    {ls : List (Label World (FdCall b) ReadResult)}
    {c : Config Req Answer World Errno (FdCall b) ReadResult}
    (run : (fdSystem b o).Run w₀ ls c) :
    ∃ hist : List (Nat × CursorOp Int Byte),
      CursorOp.Runs (cursors content w₀) (hist.map (·.2)) (cursors content c.world) ∧
      (hist.map (·.1)).Sublist (ls.filterMap Label.mover) ∧
      (∀ n call r, .finished n call r ∈ ls → call.Delivers r (trail n hist)) ∧
      ∀ before n fd bytes after, hist = before ++ (n, .opened fd bytes) :: after →
        (∀ x ∈ after, x.2.OnlyReads fd) →
        CursorOp.delivered fd (after.map (·.2)) <+: bytes ∧
          cursors content c.world fd =
            some ⟨bytes, (CursorOp.delivered fd (after.map (·.2))).length⟩ := by
  obtain ⟨hist, h⟩ := (fdOutlined b o).holds hinit run
  obtain ⟨hruns, horder⟩ := trace_runs hreads h.trace
  refine ⟨cursorHistory content hist, hruns, horder, ?_, ?_⟩
  · intro n call r hfinished
    obtain ⟨⟨v, hpost⟩, -⟩ := h.results n call r hfinished
    rw [trail_cursorHistory]
    exact call_delivers h.trace hpost
  · intro before n fd bytes after hsplit hreads
    rw [hsplit, List.map_append, CursorOp.runs_append] at hruns
    obtain ⟨T, -, U, hopened, hafter⟩ := hruns
    have hU : U fd = some ⟨bytes, 0⟩ := by
      rw [hopened.2]
      exact Function.update_self ..
    have honly : ∀ op ∈ after.map (·.2), op.OnlyReads fd := by
      intro op hop
      obtain ⟨x, hx, rfl⟩ := List.mem_map.mp hop
      exact hreads x hx
    obtain ⟨hcursor, hpre⟩ := CursorOp.reads_in_turn hafter hU honly
    rw [Nat.zero_add] at hcursor
    exact ⟨hpre, hcursor⟩

/-- A library that reads `bytes` for every inode. -/
def Oracle.holding (inode : Inode) (bytes : List Byte) : Oracle :=
  { Oracle.serving inode with
    answer := fun n c =>
      match c with
      | .dataReaderRead _ offset size => .ok ((bytes.drop offset.toNat).take size.toNat)
      | c => (Oracle.serving inode).answer n c }

theorem Oracle.holding_reads {bytes : List Byte} (inode : Inode) (h : bytes.length < 2 ^ 64) :
    ReadsContent (Oracle.holding inode bytes) fun _ => bytes := by
  refine ⟨fun _ => h, fun n p offset size data hdata => ?_⟩
  cases hdata
  exact ⟨List.length_take_le _ _, List.take_prefix _ _⟩

/-- A served file of five bytes after an `open` and a `read` of two. -/
theorem fd_map_refines_cursors_read : ∃ ls c,
    (fdSystem .b64 (Oracle.holding (plainFile 5) [1, 2, 3, 4, 5])).Run World.initial ls c ∧
      c.world.fdMap.map (·.offset) = [2] ∧ ∃ hist : List (Nat × CursorOp Int Byte),
        CursorOp.Runs (cursors (fun _ => [1, 2, 3, 4, 5]) World.initial) (hist.map (·.2))
          (cursors (fun _ => [1, 2, 3, 4, 5]) c.world) := by
  have hopen : (fdSystem .b64 (Oracle.holding (plainFile 5) [1, 2, 3, 4, 5])).admits World.initial
    (.open (some hookFile) 0 0) := nofun
  obtain ⟨ls, run⟩ := System.Run.nil.alone 0 hopen 5
  have hread : ∀ w, (fdSystem .b64 (Oracle.holding (plainFile 5) [1, 2, 3, 4, 5])).admits w
    (.read 3 2) := nofun
  obtain ⟨ls', run'⟩ := run.alone 0 (hread _) 1
  refine ⟨ls', _, run', rfl, ?_⟩
  have hstart : Starting World.initial := ⟨rfl, rfl, fun _ => iff_of_true rfl rfl⟩
  obtain ⟨hist, hruns, -⟩ := fd_map_refines_cursors
    (Oracle.holding_reads (plainFile 5) (by decide)) hstart.inv run'
  exact ⟨hist, hruns⟩

end HookSqfs.Hooks
