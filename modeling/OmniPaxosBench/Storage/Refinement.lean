import OmniPaxosBench.Storage.Invariant

/-! # The log on disk refines the list

Without failing writes the entries lie in the log file without gaps, up to the cursor (`Packed`), so
that the size of the log decides whether the next call stays within the files. `appendLogs_refines` is
the refinement, for any sequence of calls. `SmallEntry` is an entry in the protobuf format with one
byte for each number; it is used for the concrete runs. -/

namespace OmniPaxosBench.Storage

open OmniPaxosBench.Lib

namespace RaftLog

variable {E : Type} [Raft E] (l : RaftLog E)

/-- One append after the other. -/
def appendAll : RaftLog E → List (List E) → RaftLog E
  | l, [] => l
  | l, es :: calls => appendAll (l.append es) calls

/-- Each slice may be appended, and the log and its table of offsets stay within the files. -/
def AcceptsAll : RaftLog E → List (List E) → Prop
  | _, [] => True
  | l, es :: calls => l.Accepts es ∧ serialisedSize (l.append es).entries ≤ fileSize ∧
      8 * (l.append es).entries.length ≤ fileSize ∧ AcceptsAll (l.append es) calls

def decidableAcceptsAll : ∀ (l : RaftLog E) calls, Decidable (l.AcceptsAll calls)
  | _, [] => isTrue trivial
  | l, es :: calls =>
    have := decidableAcceptsAll (l.append es) calls
    inferInstanceAs (Decidable (_ ∧ _ ∧ _ ∧ _))

instance (calls : List (List E)) : Decidable (l.AcceptsAll calls) := l.decidableAcceptsAll calls

end RaftLog

namespace DiskStorageCore

open RaftLog (payloads serialisedSize)

variable {E : Type} [Raft E] {d d' : DiskStorageCore} {l : RaftLog E} {es : List E}

/-- The entries lie one behind the other, up to the cursor. -/
structure Packed (d : DiskStorageCore) (l : RaftLog E) : Prop where
  holds : Holds d l (Cell.layOut 0 (payloads l.entries))
  cursor : d.log.cursor = serialisedSize l.entries

theorem packed_init : Packed newWithConfState (RaftLog.empty : RaftLog E) :=
  ⟨⟨.empty _ _ _, rfl, by simp [RaftLog.empty, RaftLog.payloads, Cell.layOut], Nat.zero_le _, rfl, rfl, rfl,
    rfl⟩, rfl⟩

/-- In a packed log a call starts to write behind the entries that stay. -/
theorem Packed.writePos (h : Packed d l) {k : ℕ} (hk : k ≤ l.entries.length) :
    d.writePos k = some (serialisedSize (l.entries.take k)) := by
  have hlen := h.holds.length
  obtain ⟨pos, hpos, -, hcursor, hcell⟩ := h.holds.writePos (hlen ▸ hk)
  rw [hpos]
  by_cases hend : k = l.entries.length
  · rw [hcursor (hend.trans hlen.symm), h.cursor, hend, List.take_length]
  · have hlt : k < (Cell.layOut 0 (payloads l.entries)).length := by omega
    have hc := List.getElem?_eq_getElem hlt
    rw [hcell _ hc, Cell.pos_layOut hc, Nat.zero_add, serialisedSize, RaftLog.payloads_take]

theorem Packed.appendLog (h : Packed d l) (ha : l.Accepts es)
    (hsize : serialisedSize (l.append es).entries ≤ fileSize)
    (hslots : 8 * (l.append es).entries.length ≤ fileSize) :
    ∃ d', d.appendLog none es = (d', .ok) ∧ Packed d' (l.append es) := by
  cases es with
  | nil => exact ⟨d, rfl, h⟩
  | cons e es =>
    have hk := (h.holds.accepts ha).1
    rw [h.holds.length] at hk
    have hpos := h.writePos hk
    have hsplit : (l.append (e :: es)).entries = l.entries.take (Raft.index e - 2) ++ e :: es := rfl
    have hpay : payloads (l.append (e :: es)).entries =
        (payloads l.entries).take (Raft.index e - 2) ++ payloads (e :: es) := by
      rw [hsplit, RaftLog.payloads_append, RaftLog.payloads_take]
    have hsum : serialisedSize (l.append (e :: es)).entries =
        serialisedSize (l.entries.take (Raft.index e - 2)) + serialisedSize (e :: es) := by
      rw [serialisedSize, hpay, Cell.records_append, List.length_append, serialisedSize, serialisedSize,
        RaftLog.payloads_take]
    have hroom : 8 * (Raft.index e - 2 + (e :: es).length) ≤ fileSize := by
      rw [hsplit, List.length_append, List.length_take] at hslots
      omega
    obtain ⟨d', hd⟩ := h.holds.appendLog_completes ha hroom
    obtain ⟨hholds, hcursor⟩ := h.holds.appendLog_ok ha hd hpos (hsum ▸ hsize)
    refine ⟨d', hd, ?_, hcursor.trans hsum.symm⟩
    rw [hpay, Cell.layOut_append, ← Cell.take_layOut, Nat.zero_add]
    rwa [serialisedSize, RaftLog.payloads_take] at hholds

/-- One call of `append_log` after the other; `none` if one of them panics or returns an error. -/
def appendLogs : DiskStorageCore → List (List E) → Option DiskStorageCore
  | d, [] => some d
  | d, es :: calls =>
    match d.appendLog none es with
    | (d, .ok) => appendLogs d calls
    | (_, _) => none

theorem Packed.appendLogs {calls : List (List E)} (h : Packed d l) (ha : l.AcceptsAll calls) :
    ∃ d', d.appendLogs calls = some d' ∧ Packed d' (l.appendAll calls) := by
  induction calls generalizing d l with
  | nil => exact ⟨d, rfl, h⟩
  | cons es calls ih =>
    obtain ⟨hes, hsize, hslots, hrest⟩ := ha
    obtain ⟨d₁, heq, h₁⟩ := h.appendLog hes hsize hslots
    obtain ⟨d', hd, h'⟩ := ih h₁ hrest
    refine ⟨d', ?_, h'⟩
    rw [DiskStorageCore.appendLogs, heq]
    exact hd

/-- **Refinement**: after any sequence of appends that stays within the files, all calls have returned
`Ok` and the storage agrees with the list. -/
theorem appendLogs_refines (E : Type) [Raft E] (calls : List (List E))
    (h : (RaftLog.empty : RaftLog E).AcceptsAll calls) :
    ∃ d, newWithConfState.appendLogs calls = some d ∧
      Agrees d ((RaftLog.empty : RaftLog E).appendAll calls) := by
  obtain ⟨d, hd, hpacked⟩ := packed_init.appendLogs h
  exact ⟨d, hd, hpacked.holds.agrees⟩

end DiskStorageCore

/-! ### Entries with small fields -/

/-- An entry whose term, index and data take one byte for each number in the protobuf format. -/
structure SmallEntry where
  term : ℕ
  index : ℕ
  data : Bytes
  small : 0 < term ∧ term < 128 ∧ 0 < index ∧ index < 128 ∧ data.length < 128
  deriving DecidableEq

namespace SmallEntry

/-- The fields behind their tags; empty data is left out. -/
def writeToBytes (e : SmallEntry) : Bytes :=
  0x10 :: UInt8.ofNat e.term :: 0x18 :: UInt8.ofNat e.index ::
    if e.data = [] then [] else 0x22 :: UInt8.ofNat e.data.length :: e.data

/-- An entry of the given fields, if they are small. -/
def ofFields (term index : UInt8) (data : Bytes) : Option SmallEntry :=
  if h : _ then some ⟨term.toNat, index.toNat, data, h⟩ else none

def parseFromBytes : Bytes → Option SmallEntry
  | [0x10, term, 0x18, index] => ofFields term index []
  | 0x10 :: term :: 0x18 :: index :: 0x22 :: len :: data =>
    if data.length = len.toNat then ofFields term index data else none
  | _ => none

/-- `limit_size`: the first entry, and more while the sum of the sizes is at most `max`. -/
def limitSize (es : List SmallEntry) : Option ℕ → List SmallEntry
  | none => es
  | some max => (es.take 1) ++ (go max ((es.take 1).map fun e => e.writeToBytes.length).sum (es.drop 1))
where
  go (max size : ℕ) : List SmallEntry → List SmallEntry
    | [] => []
    | e :: es =>
      let size := size + e.writeToBytes.length
      if size ≤ max then e :: go max size es else []

theorem ofFields_ofNat (e : SmallEntry) :
    ofFields (UInt8.ofNat e.term) (UInt8.ofNat e.index) e.data = some e := by
  obtain ⟨term, index, data, h1, h2, h3, h4, h5⟩ := e
  have ht : (UInt8.ofNat term).toNat = term := by simp; omega
  have hi : (UInt8.ofNat index).toNat = index := by simp; omega
  simp only [ofFields, ht, hi]
  rw [dif_pos ⟨h1, h2, h3, h4, h5⟩]

theorem parse_write (e : SmallEntry) : parseFromBytes e.writeToBytes = some e := by
  have hfields := ofFields_ofNat e
  obtain ⟨term, index, data, h1, h2, h3, h4, h5⟩ := e
  by_cases hdata : data = []
  · subst hdata
    simpa [writeToBytes, parseFromBytes] using hfields
  · have hlen : data.length = (UInt8.ofNat data.length).toNat := by simp; omega
    simp only [writeToBytes, if_neg hdata, parseFromBytes, if_pos hlen]
    exact hfields

instance : Raft SmallEntry where
  index := SmallEntry.index
  term := SmallEntry.term
  writeToBytes := writeToBytes
  parseFromBytes := parseFromBytes
  limitSize := limitSize
  index_lt e := by
    have := e.small
    omega
  length_lt e := by
    have := e.small
    unfold writeToBytes
    split_ifs
    · simp
    · simp only [List.length_cons]
      omega
  parse_write := parse_write
  limitSize_none _ := rfl

end SmallEntry

/-- Three entries; then the middle one is replaced by a longer one, which also drops the last; then the
log grows again. -/
def overwriteCalls : List (List SmallEntry) :=
  [[⟨2, 2, [], by decide⟩, ⟨3, 3, [], by decide⟩, ⟨3, 4, [], by decide⟩],
    [⟨4, 3, [7, 7, 7], by decide⟩], [⟨4, 4, [8], by decide⟩]]

theorem overwriteCalls_refines : ∃ d, DiskStorageCore.newWithConfState.appendLogs overwriteCalls = some d ∧
    d.term SmallEntry 3 = some (.ok 4) ∧ d.term SmallEntry 5 = some (.error .unavailable) ∧
    d.entries SmallEntry 2 5 none = some (.ok [⟨2, 2, [], by decide⟩, ⟨4, 3, [7, 7, 7], by decide⟩,
      ⟨4, 4, [8], by decide⟩]) := by
  obtain ⟨d, hd, h⟩ := DiskStorageCore.appendLogs_refines SmallEntry overwriteCalls (by decide)
  refine ⟨d, hd, h.term 3, h.term 5, ?_⟩
  rw [h.entries 2 5 (by decide) (by decide) (by decide)]
  rfl

end OmniPaxosBench.Storage
