import OmniPaxosBench.Storage.DiskStorage
import Mathlib.Data.List.Chain

/-! # The log on disk is a list of entries

`RaftLog` is what the storage is for: a list of entries from index 2 on, above a snapshot at index 1.
An append cuts the list at the first new index and extends it. `Agrees` says that the readers of the
storage return what the list holds.

`Holds` is the invariant: the entries lie in the log file as a `Layout`, and the counters fit. One
lemma says what the loop of `append_entries` leaves behind, however it ends (`writeEntries_spec`): one
piece written to the log and one to the table of offsets. The rules of the library then give the
invariant back: `Layout.replace` after a completed call (`Holds.appendLog_ok`), `Layout.scribble`
after an error at the end of the log (`Holds.appendLog_err`). -/

namespace OmniPaxosBench.Storage

open OmniPaxosBench.Lib

/-- A log in memory. -/
structure RaftLog (E : Type) where
  entries : List E

namespace RaftLog

variable {E : Type} [Raft E] (l : RaftLog E)

def empty : RaftLog E := ⟨[]⟩

def firstIndex (_ : RaftLog E) : ℕ := 2

def lastIndex : ℕ := 1 + l.entries.length

/-- The term at an index; the snapshot has term 1. -/
def term (i : ℕ) : Except StorageError ℕ :=
  if i = 1 then .ok 1
  else if i < l.firstIndex then .error .compacted
  else match l.entries[i - l.firstIndex]? with
    | some e => .ok (Raft.term e)
    | none => .error .unavailable

/-- The entries with indices from `lo` to `hi - 1`. -/
def slice (lo hi : ℕ) : List E := (l.entries.drop (lo - l.firstIndex)).take (hi - lo)

/-- Cut at the first new index, then extend. -/
def append (es : List E) : RaftLog E :=
  match es with
  | [] => l
  | e :: _ => ⟨l.entries.take (Raft.index e - l.firstIndex) ++ es⟩

/-- The slices that may be appended: consecutive indices from at least the first and at most one
behind the last index. -/
def Accepts : List E → Prop
  | [] => True
  | e :: es => (e :: es).IsChain (fun a b => Raft.index b = Raft.index a + 1) ∧
      l.firstIndex ≤ Raft.index e ∧ Raft.index e ≤ l.lastIndex + 1

instance : ∀ es, Decidable (l.Accepts es)
  | [] => isTrue trivial
  | _ :: _ => inferInstanceAs (Decidable (_ ∧ _ ∧ _))

/-- The serialised entries. -/
def payloads (es : List E) : List Bytes := es.map Raft.writeToBytes

theorem payloads_append (es es' : List E) : payloads (es ++ es') = payloads es ++ payloads es' :=
  List.map_append

theorem payloads_take (k : ℕ) (es : List E) : payloads (es.take k) = (payloads es).take k :=
  List.map_take

/-- The bytes the entries take in the log file. -/
def serialisedSize (es : List E) : ℕ := (Cell.records (payloads es)).length

end RaftLog

namespace DiskStorageCore

open RaftLog (payloads serialisedSize)

variable {E : Type} [Raft E] {d d' : DiskStorageCore} {l : RaftLog E} {cells : List Cell}
  {fault : Option Fault} {es : List E} {r : AppendResult}

/-- The readers return what the list holds. -/
structure Agrees (d : DiskStorageCore) (l : RaftLog E) : Prop where
  firstIndex : d.firstIndex = l.firstIndex
  lastIndex : d.lastIndex = l.lastIndex
  term : ∀ i, d.term E i = some (l.term i)
  entries : ∀ lo hi, l.firstIndex ≤ lo → lo ≤ hi → hi ≤ l.lastIndex + 1 →
    d.entries E lo hi none = some (.ok (l.slice lo hi))

/-- The entries of `l` lie in the log file at the places of `cells`. -/
structure Holds (d : DiskStorageCore) (l : RaftLog E) (cells : List Cell) : Prop where
  layout : Layout d.log.bytes d.offset.bytes cells d.log.cursor
  content : cells.map Cell.payload = payloads l.entries
  fits : ∀ c ∈ cells, c.stop ≤ fileSize
  slots : 8 * cells.length ≤ fileSize
  numEntries : d.numEntries = cells.length
  firstIndex : d.firstIndex = 2
  lastIndex : d.lastIndex = 1 + cells.length
  snapshot : d.snapshotMetadata = ⟨1, 1⟩

theorem Holds.length (h : Holds d l cells) : cells.length = l.entries.length := by
  have hlen := congrArg List.length h.content
  rwa [List.length_map, RaftLog.payloads, List.length_map] at hlen

/-- The cell of an entry. -/
theorem Holds.cell (h : Holds d l cells) {j : ℕ} {e : E} (he : l.entries[j]? = some e) :
    ∃ c, cells[j]? = some c ∧ c.payload = Raft.writeToBytes e := by
  have hj := congrArg (fun ps => ps[j]?) h.content
  simp only [List.getElem?_map, RaftLog.payloads, he, Option.map_some] at hj
  obtain ⟨c, hc, heq⟩ := Option.map_eq_some_iff.mp hj
  exact ⟨c, hc, heq⟩

/-! ### Reading -/

theorem Holds.getLogOffset (h : Holds d l cells) {j : ℕ} {c : Cell} (hc : cells[j]? = some c) :
    d.getLogOffset j = some c.pos := by
  have hlt := (List.getElem?_eq_some_iff.mp hc).1
  have hslots := h.slots
  have hfits : c.pos + (8 + c.payload.length) ≤ fileSize := h.fits c (List.mem_of_getElem? hc)
  have hword : c.pos < 2 ^ 64 := by
    have : fileSize < 2 ^ 64 := by decide
    omega
  have hread := h.layout.table j c hc
  have hmap : d.offset.memMap (j * 8) (j * 8 + 8) = some (putU64 c.pos) := by
    rw [FileMmap.memMap, if_pos ⟨by omega, by omega⟩, Nat.add_sub_cancel_left, Nat.mul_comm, hread]
  simp [DiskStorageCore.getLogOffset, hmap, uintFrom_putU64 hword]

/-- **Entries are read back.** -/
theorem Holds.getEntry (h : Holds d l cells) {j : ℕ} {e : E} (he : l.entries[j]? = some e) :
    d.getEntry E j = some e := by
  obtain ⟨c, hc, hpay⟩ := h.cell he
  have hmem := List.mem_of_getElem? hc
  have hfits : c.pos + (8 + c.payload.length) ≤ fileSize := h.fits c hmem
  obtain ⟨hlen, hbytes⟩ := h.layout.read_length hmem
  have hmap : d.log.memMap c.pos (c.pos + 8) = some (putU64 c.payload.length) := by
    rw [FileMmap.memMap, if_pos ⟨by omega, by omega⟩, Nat.add_sub_cancel_left, hlen]
  have hmap' : d.log.memMap (c.pos + 8) (c.pos + 8 + c.payload.length) = some c.payload := by
    rw [FileMmap.memMap, if_pos ⟨by omega, by omega⟩, Nat.add_sub_cancel_left, hbytes]
  have hword : uintFrom 0 (putU64 c.payload.length) = c.payload.length :=
    uintFrom_putU64 (hpay ▸ Raft.length_lt e)
  simp only [DiskStorageCore.getEntry, h.getLogOffset hc, hmap, hmap', hword, Option.bind_eq_bind,
    Option.bind_some]
  rw [hpay, Raft.parse_write]

/-- Reading a range entry by entry. -/
theorem mapM_range' {α : Type} {f : ℕ → Option α} {as : List α} {lo : ℕ}
    (h : ∀ j a, as[j]? = some a → f (lo + j) = some a) :
    (List.range' lo as.length).mapM f = some as := by
  induction as generalizing lo with
  | nil => rfl
  | cons a as ih =>
    have hhead : f lo = some a := h 0 a rfl
    have htail : (List.range' (lo + 1) as.length).mapM f = some as := by
      refine ih fun j b hb => ?_
      rw [Nat.add_assoc, Nat.add_comm 1 j]
      exact h (j + 1) b hb
    rw [List.length_cons, List.range'_succ, List.mapM_cons, hhead, htail]
    rfl

theorem Holds.term (h : Holds d l cells) (i : ℕ) : d.term E i = some (l.term i) := by
  have hfirst : d.firstIndex = l.firstIndex := h.firstIndex
  unfold DiskStorageCore.term RaftLog.term
  simp only [h.snapshot, hfirst, h.numEntries, h.length]
  by_cases h1 : i = 1
  · rw [if_pos h1, if_pos h1]
  · rw [if_neg h1, if_neg h1]
    by_cases h2 : i < l.firstIndex
    · rw [if_pos h2, if_pos h2]
    · rw [if_neg h2, if_neg h2]
      by_cases h3 : i - l.firstIndex < l.entries.length
      · have he := List.getElem?_eq_getElem h3
        rw [if_neg (not_le.mpr h3), h.getEntry he, he]
        rfl
      · rw [if_pos (not_lt.mp h3), List.getElem?_eq_none (not_lt.mp h3)]

theorem Holds.entries (h : Holds d l cells) {lo hi : ℕ} (hlo : l.firstIndex ≤ lo) (hle : lo ≤ hi)
    (hhi : hi ≤ l.lastIndex + 1) : d.entries E lo hi none = some (.ok (l.slice lo hi)) := by
  have hlo2 : 2 ≤ lo := hlo
  have hlast : hi ≤ 1 + l.entries.length + 1 := hhi
  have hlen : (l.slice lo hi).length = hi - 2 - (lo - 2) := by
    rw [RaftLog.slice, RaftLog.firstIndex, List.length_take, List.length_drop]
    omega
  have hread : (List.range' (lo - 2) (hi - 2 - (lo - 2))).mapM (d.getEntry E) =
      some (l.slice lo hi) := by
    rw [← hlen]
    refine mapM_range' fun j a ha => h.getEntry ?_
    rw [RaftLog.slice, RaftLog.firstIndex, List.getElem?_take, List.getElem?_drop] at ha
    split_ifs at ha
    exact ha
  unfold DiskStorageCore.entries
  simp only [h.firstIndex, h.lastIndex, h.length]
  rw [if_neg (by omega), if_neg (by omega), if_neg (by omega), hread, Option.map_some,
    Raft.limitSize_none]

/-- **The invariant is enough for the readers.** -/
theorem Holds.agrees (h : Holds d l cells) : Agrees d l where
  firstIndex := h.firstIndex
  lastIndex := by rw [h.lastIndex, h.length, RaftLog.lastIndex]
  term := h.term
  entries _ _ hlo hle hhi := h.entries hlo hle hhi

/-! ### The loop of `append_entries` -/

theorem put_put (f : FileMmap) (a b : Bytes) : (f.put a).put b = f.put (a ++ b) := by
  simp only [FileMmap.put, ByteFile.write_append, List.length_append, Nat.add_assoc]

/-- A write fails in the middle or puts all bytes. -/
theorem writeAll_cases (f : FileMmap) (bs : Bytes) (room : Option ℕ) :
    (∃ k, room = some k ∧ k < bs.length ∧ f.writeAll bs room = (f.put (bs.take k), false)) ∨
      f.writeAll bs room = (f.put bs, true) := by
  cases room with
  | none => exact Or.inr rfl
  | some k =>
    by_cases hk : k < bs.length
    · exact Or.inl ⟨k, rfl, hk, by simp [FileMmap.writeAll, hk]⟩
    · exact Or.inr (by simp [FileMmap.writeAll, hk])

theorem lengthRoom_eq_some {i k : ℕ} (h : lengthRoom fault i = some k) :
    fault = some (.length i k) := by
  unfold lengthRoom at h
  split at h
  · split_ifs at h with hj
    cases h
    rw [hj]
  · cases h

/-- The state after `done` and the bytes `part` were written. -/
def written (d : DiskStorageCore) (slot : ℕ) (done : List E) (part : Bytes) : DiskStorageCore :=
  { d with
    log := d.log.put (Cell.records (payloads done) ++ part)
    offset.bytes := d.offset.bytes.write (8 * slot)
      (Cell.table (Cell.layOut d.log.cursor (payloads done))) }

theorem written_nil (d : DiskStorageCore) (slot : ℕ) (part : Bytes) :
    written d slot ([] : List E) part = { d with log := d.log.put part } := by
  simp [written, RaftLog.payloads, Cell.records, Cell.layOut, Cell.table]

theorem written_cons (d : DiskStorageCore) (slot : ℕ) (e : E) (done : List E) (part : Bytes) :
    written { d with
        log := (d.log.put (putU64 (Raft.writeToBytes e).length)).put (Raft.writeToBytes e)
        offset.bytes := d.offset.bytes.write (8 * slot) (putU64 d.log.cursor) }
      (slot + 1) done part = written d slot (e :: done) part := by
  have hslot : 8 * (slot + 1) = 8 * slot + (putU64 d.log.cursor).length := by
    rw [length_putU64]; omega
  have hcursor : (d.log.put (record (Raft.writeToBytes e))).cursor =
      d.log.cursor + (8 + (Raft.writeToBytes e).length) := by
    simp [FileMmap.put]
  have htable : Cell.table (Cell.layOut d.log.cursor (payloads (e :: done))) =
      putU64 d.log.cursor ++ Cell.table (Cell.layOut
        (d.log.cursor + (8 + (Raft.writeToBytes e).length)) (payloads done)) := rfl
  have hrecords : Cell.records (payloads (e :: done)) =
      record (Raft.writeToBytes e) ++ Cell.records (payloads done) := rfl
  rw [put_put, ← record]
  simp only [written, hslot, ByteFile.write_append, put_put, hcursor, htable, hrecords,
    List.append_assoc]

/-- **The loop**, up to its end or to the first failing write. -/
theorem writeEntries_spec {fromLogIndex i : ℕ}
    (h : writeEntries fault fromLogIndex i es d = (d', r)) (hr : r ≠ .panic) :
    ∃ done part, d' = written d (fromLogIndex + i) done part ∧
      (r = .ok → done = es ∧ part = [] ∧
        (8 * (fromLogIndex + i) ≤ fileSize → 8 * (fromLogIndex + i + es.length) ≤ fileSize)) ∧
      (r = .err → ∃ j k, fault = some (.length j k) ∧ j < i + es.length ∧ k < 8) := by
  induction es generalizing i d with
  | nil =>
    cases h
    exact ⟨[], [], by simp [written_nil, FileMmap.put], fun _ => ⟨rfl, rfl, fun h => h⟩, fun h => nomatch h⟩
  | cons e es ih =>
    simp only [writeEntries] at h
    rcases writeAll_cases d.log (putU64 (Raft.writeToBytes e).length) (lengthRoom fault i) with
      ⟨k, hroom, hk, heq⟩ | heq
    · -- the length of this entry is not written
      rw [heq] at h
      cases h
      rw [length_putU64] at hk
      refine ⟨[], _, (written_nil d _ _).symm, (fun h => nomatch h), fun _ => ?_⟩
      exact ⟨i, k, lengthRoom_eq_some hroom, by rw [List.length_cons]; omega, hk⟩
    · rw [heq] at h
      dsimp only at h
      rcases writeAll_cases (d.log.put (putU64 (Raft.writeToBytes e).length)) (Raft.writeToBytes e)
        (entryRoom fault i) with ⟨k, -, -, heq'⟩ | heq'
      · rw [heq'] at h
        cases h
        exact absurd rfl hr
      · rw [heq'] at h
        simp only [FileMmap.writeMap] at h
        by_cases hslot : (fromLogIndex + i) * 8 + 8 ≤ fileSize
        · rw [if_pos ⟨by omega, hslot⟩, Nat.mul_comm] at h
          obtain ⟨done, part, hd, hok, herr⟩ := ih h
          refine ⟨e :: done, part, hd.trans (written_cons d _ e done part), fun hr => ?_, fun hr => ?_⟩
          · obtain ⟨rfl, rfl, hslots⟩ := hok hr
            refine ⟨rfl, rfl, fun _ => ?_⟩
            have hnext := hslots (by omega)
            rw [List.length_cons]
            omega
          · obtain ⟨j, k, hf, hj, hk⟩ := herr hr
            exact ⟨j, k, hf, by rw [List.length_cons]; omega, hk⟩
        · rw [if_neg (fun hc => hslot hc.2)] at h
          cases h
          exact absurd rfl hr

/-- Without a failing write the loop ends, if the table has room. -/
theorem writeEntries_ok {fromLogIndex i : ℕ} (h : 8 * (fromLogIndex + i + es.length) ≤ fileSize) :
    (writeEntries none fromLogIndex i es d).2 = .ok := by
  induction es generalizing i d with
  | nil => rfl
  | cons e es ih =>
    rw [List.length_cons] at h
    have hslot : (fromLogIndex + i) * 8 ≤ (fromLogIndex + i) * 8 + 8 ∧
        (fromLogIndex + i) * 8 + 8 ≤ fileSize := ⟨by omega, by omega⟩
    simp only [writeEntries, lengthRoom, entryRoom, FileMmap.writeAll, FileMmap.writeMap, if_pos hslot]
    exact ih (by omega)

/-! ### Metadata -/

theorem raftMetadata_set (d : DiskStorageCore) (field : MetadataField) (value : ℕ) :
    (d.setRaftMetadata field value).raftMetadata =
      (d.raftMetadata.write field.isSet [1]).write field.start (putU64 value) := rfl

theorem getRaftMetadata_set_self (field : MetadataField) {value : ℕ} (h : value < 2 ^ 64) :
    (d.setRaftMetadata field value).getRaftMetadata field = some value := by
  have hread : (d.setRaftMetadata field value).raftMetadata.read field.start 8 = putU64 value := by
    have hself := @ByteFile.read_write_self (d.raftMetadata.write field.isSet [1]) field.start
      (putU64 value)
    rwa [length_putU64] at hself
  have hset : (d.setRaftMetadata field value).raftMetadata field.isSet = 1 := by
    cases field <;> simp [setRaftMetadata, ByteFile.write, MetadataField.isSet, MetadataField.start]
  simp [getRaftMetadata, hset, hread, uintFrom_putU64 h]

/-- The two words and their flags do not overlap. -/
theorem MetadataField.disjoint {field field' : MetadataField} (h : field' ≠ field) :
    (field'.start + 8 ≤ field.isSet ∨ field.isSet + 1 ≤ field'.start) ∧
    (field'.start + 8 ≤ field.start ∨ field.start + 8 ≤ field'.start) ∧
    (field'.isSet < field.isSet ∨ field.isSet + 1 ≤ field'.isSet) ∧
    (field'.isSet < field.start ∨ field.start + 8 ≤ field'.isSet) := by
  cases field <;> cases field' <;> simp [MetadataField.isSet, MetadataField.start] at h ⊢

theorem getRaftMetadata_set_of_ne {field field' : MetadataField} (h : field' ≠ field) (value : ℕ) :
    (d.setRaftMetadata field value).getRaftMetadata field' = d.getRaftMetadata field' := by
  obtain ⟨h1, h2, h3, h4⟩ := MetadataField.disjoint h
  have hread : (d.setRaftMetadata field value).raftMetadata.read field'.start 8 =
      d.raftMetadata.read field'.start 8 := by
    rw [raftMetadata_set, ByteFile.read_write_of_disjoint (by rwa [length_putU64]),
      ByteFile.read_write_of_disjoint h1]
  have hset : (d.setRaftMetadata field value).raftMetadata field'.isSet =
      d.raftMetadata field'.isSet := by
    rw [raftMetadata_set, ByteFile.write_of_disjoint (by rwa [length_putU64]),
      ByteFile.write_of_disjoint h3]
  simp only [getRaftMetadata, hread, hset]

/-- **The counters** after a completed call. -/
theorem countEntries_spec (d : DiskStorageCore) (k added : ℕ) {newFirst newLast : ℕ} (hfirst : newFirst < 2 ^ 64)
    (hlast : newLast < 2 ^ 64) :
    (d.countEntries k newFirst newLast added).firstIndex = (if k = 0 then newFirst else d.firstIndex) ∧
    (d.countEntries k newFirst newLast added).lastIndex = newLast ∧
    (d.countEntries k newFirst newLast added).numEntries = d.numEntries + added - (d.numEntries - k) ∧
    (d.countEntries k newFirst newLast added).snapshotMetadata = d.snapshotMetadata ∧
    (d.countEntries k newFirst newLast added).log = d.log ∧
    (d.countEntries k newFirst newLast added).offset = d.offset := by
  have hne : MetadataField.firstIndex ≠ .lastIndex := by decide
  unfold countEntries
  by_cases hk : k = 0
  · simp only [hk, if_true]
    refine ⟨?_, ?_, rfl, rfl, rfl, rfl⟩
    · simp only [firstIndex, getRaftMetadata_set_of_ne hne]
      have hself := getRaftMetadata_set_self (d := d) .firstIndex hfirst
      simp only [getRaftMetadata] at hself ⊢
      rw [hself]
    · simp only [lastIndex, getRaftMetadata_set_self _ hlast]
  · simp only [hk, if_false]
    refine ⟨?_, ?_, rfl, rfl, rfl, rfl⟩
    · simp only [firstIndex, getRaftMetadata_set_of_ne hne]
      rfl
    · simp only [lastIndex, getRaftMetadata_set_self _ hlast]

/-! ### Appending -/

/-- The index of the last of some consecutive entries. -/
theorem index_getLast {e : E} {es : List E}
    (h : (e :: es).IsChain fun a b => Raft.index b = Raft.index a + 1) :
    Raft.index ((e :: es).getLast (by simp)) = Raft.index e + es.length := by
  induction es generalizing e with
  | nil => rfl
  | cons e' es ih =>
    obtain ⟨hstep, hrest⟩ := List.isChain_cons_cons.mp h
    rw [List.getLast_cons (by simp), ih hrest, hstep, List.length_cons]
    omega

/-- The first new index is not behind the end of the log. -/
theorem Holds.accepts {e : E} (h : Holds d l cells) (ha : l.Accepts (e :: es)) :
    Raft.index e - 2 ≤ cells.length ∧ 2 ≤ Raft.index e := by
  obtain ⟨-, hlow, hhigh⟩ := ha
  have hlow' : 2 ≤ Raft.index e := hlow
  have hhigh' : Raft.index e ≤ 1 + l.entries.length + 1 := hhigh
  rw [← h.length] at hhigh'
  exact ⟨by omega, hlow'⟩

/-- Where a call starts to write: behind the entries that stay. -/
theorem Holds.writePos (h : Holds d l cells) {k : ℕ} (hk : k ≤ cells.length) :
    ∃ pos, d.writePos k = some pos ∧ (∀ c ∈ cells.take k, c.stop ≤ pos) ∧
      (k = cells.length → pos = d.log.cursor) ∧ ∀ c, cells[k]? = some c → pos = c.pos := by
  unfold DiskStorageCore.writePos
  rw [h.numEntries]
  by_cases hend : k = cells.length
  · rw [if_pos hend.ge]
    refine ⟨_, rfl, fun c hc => h.layout.below c (List.mem_of_mem_take hc), fun _ => rfl, fun c hc => ?_⟩
    rw [List.getElem?_eq_none hend.ge] at hc
    cases hc
  · have hlt : k < cells.length := by omega
    have hc := List.getElem?_eq_getElem hlt
    rw [if_neg (by omega), h.getLogOffset hc]
    refine ⟨_, rfl, fun c hmem => h.layout.stop_le_of_mem_take hc hmem, fun heq => absurd heq hend,
      fun c hc' => ?_⟩
    cases hc.symm.trans hc'
    rfl

variable {e : E}

/-- **A call** is the loop from the place where it starts to write, and then the counters if the loop
has ended. -/
theorem Holds.appendLog_loop (h : Holds d l cells) (fault : Option Fault) (ha : l.Accepts (e :: es)) :
    ∃ pos d₁ r₁, d.writePos (Raft.index e - 2) = some pos ∧
      ((∀ c ∈ cells.take (Raft.index e - 2), c.stop ≤ pos) ∧
        (Raft.index e - 2 = cells.length → pos = d.log.cursor)) ∧
      writeEntries fault (Raft.index e - 2) 0 (e :: es) { d with log := d.log.seek pos } = (d₁, r₁) ∧
      d.appendLog fault (e :: es) = (if r₁ = .ok then d₁.countEntries (Raft.index e - 2) (Raft.index e)
        (Raft.index ((e :: es).getLast (by simp))) (e :: es).length else d₁, r₁) := by
  obtain ⟨hk, hlow⟩ := h.accepts ha
  obtain ⟨pos, hpos, hbelow, hcursor, -⟩ := h.writePos hk
  obtain ⟨d₁, r₁, hloop⟩ : ∃ d₁ r₁, writeEntries fault (Raft.index e - 2) 0 (e :: es)
      { d with log := d.log.seek pos } = (d₁, r₁) := ⟨_, _, rfl⟩
  refine ⟨pos, d₁, r₁, hpos, ⟨hbelow, hcursor⟩, hloop, ?_⟩
  simp only [DiskStorageCore.appendLog, h.firstIndex, h.lastIndex]
  rw [if_neg (by omega), if_neg (by omega), appendEntries, hpos]
  simp only [hloop]
  cases r₁ with
  | ok => rfl
  | err => rfl
  | panic => rfl

/-- **A completed call**: the new entries lie behind those that stay. -/
theorem Holds.appendLog_ok (h : Holds d l cells) (ha : l.Accepts (e :: es)) {pos : ℕ}
    (heq : d.appendLog fault (e :: es) = (d', .ok)) (hpos : d.writePos (Raft.index e - 2) = some pos)
    (hfit : pos + serialisedSize (e :: es) ≤ fileSize) :
    Holds d' (l.append (e :: es))
      (cells.take (Raft.index e - 2) ++ Cell.layOut pos (payloads (e :: es))) ∧
    d'.log.cursor = pos + serialisedSize (e :: es) := by
  obtain ⟨hk, hlow⟩ := h.accepts ha
  obtain ⟨pos', d₁, r₁, hpos', ⟨hbelow, -⟩, hloop, happ⟩ := h.appendLog_loop fault ha
  cases hpos.symm.trans hpos'
  obtain rfl : r₁ = .ok := congrArg Prod.snd (happ.symm.trans heq)
  obtain rfl := congrArg Prod.fst (heq.symm.trans happ)
  obtain ⟨done, part, rfl, hok, -⟩ := writeEntries_spec hloop (by simp)
  obtain ⟨rfl, rfl, hslots⟩ := hok rfl
  have hnew := hslots (by have := h.slots; omega)
  rw [Nat.add_zero] at hnew
  simp only [Nat.add_zero, if_true]
  obtain ⟨hf, hl, hn, hs, hlog, hoff⟩ := countEntries_spec (written { d with log := d.log.seek pos }
    (Raft.index e - 2) (e :: es) []) (Raft.index e - 2) (e :: es).length (Raft.index_lt e)
    (Raft.index_lt ((e :: es).getLast (by simp)))
  have hreplace := h.layout.replace hk hbelow (payloads (e :: es))
  have hlen : (cells.take (Raft.index e - 2) ++
      Cell.layOut pos (payloads (e :: es))).length = Raft.index e - 2 + (e :: es).length := by
    rw [List.length_append, List.length_take, Cell.length_layOut, RaftLog.payloads, List.length_map]
    omega
  refine ⟨⟨?_, ?_, fun c hc => ?_, by rw [hlen]; exact hnew, ?_, ?_, ?_, hs.trans h.snapshot⟩, ?_⟩
  · rw [hlog, hoff]
    simpa only [written, FileMmap.put, FileMmap.seek, List.append_nil] using hreplace
  · rw [List.map_append, Cell.map_payload_layOut, List.map_take, h.content]
    simp only [RaftLog.append, RaftLog.firstIndex, RaftLog.payloads_append, RaftLog.payloads_take]
  · exact (hreplace.below c hc).trans hfit
  · rw [hn, hlen]
    have hnum : d.numEntries = cells.length := h.numEntries
    simp only [written]
    omega
  · rw [hf]
    split_ifs with hzero
    · omega
    · exact h.firstIndex
  · rw [hl, hlen, index_getLast ha.1, List.length_cons]
    omega
  · rw [hlog]
    simp only [written, FileMmap.put, FileMmap.seek, List.append_nil]
    rfl

/-- A call without a failing write returns `Ok`, if the table has room. -/
theorem Holds.appendLog_completes (h : Holds d l cells) (ha : l.Accepts (e :: es))
    (hslots : 8 * (Raft.index e - 2 + (e :: es).length) ≤ fileSize) :
    ∃ d', d.appendLog none (e :: es) = (d', .ok) := by
  obtain ⟨pos, d₁, r₁, -, -, hloop, happ⟩ := h.appendLog_loop none ha
  obtain rfl : r₁ = .ok := by
    have hok : (writeEntries none (Raft.index e - 2) 0 (e :: es)
        { d with log := d.log.seek pos }).2 = .ok := writeEntries_ok (by rwa [Nat.add_zero])
    rwa [hloop] at hok
  exact ⟨_, happ⟩

/-- **An error at the end of the log** leaves the entries where they are. -/
theorem Holds.appendLog_err (h : Holds d l cells) (ha : l.Accepts (e :: es))
    (heq : d.appendLog fault (e :: es) = (d', .err)) (hend : d.numEntries ≤ Raft.index e - 2) :
    Holds d' l cells := by
  have hk : Raft.index e - 2 = cells.length := by
    have hle := (h.accepts ha).1
    rw [h.numEntries] at hend
    omega
  obtain ⟨pos, d₁, r₁, -, ⟨-, hcursor⟩, hloop, happ⟩ := h.appendLog_loop fault ha
  obtain rfl := hcursor hk
  obtain rfl : r₁ = .err := congrArg Prod.snd (happ.symm.trans heq)
  obtain rfl : d' = d₁ := congrArg Prod.fst (heq.symm.trans happ)
  obtain ⟨done, part, rfl, -, -⟩ := writeEntries_spec hloop (by simp)
  rw [Nat.add_zero, hk]
  refine ⟨?_, h.content, h.fits, h.slots, h.numEntries, h.firstIndex, h.lastIndex, h.snapshot⟩
  exact h.layout.scribble le_rfl (Nat.le_add_right _ _) _ _

end DiskStorageCore

end OmniPaxosBench.Storage
