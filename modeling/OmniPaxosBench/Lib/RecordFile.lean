import OmniPaxosBench.Lib.Wire
import Mathlib.Data.List.Pairwise

/-! # Files of records with an offset table

`ByteFile` is the content of a file: a byte for each position, zero where nothing was written.
Reading undoes writing at the same place (`read_write_inside`), and a write elsewhere is not seen
(`read_write_of_disjoint`).

A record is a payload after its length, in eight bytes. Records lie in one file, at any place, and
their positions in a table in another, eight bytes each. `Layout` says that a list of records can be
read back: they lie in the order of the table, do not overlap, and end below a limit. There may be
gaps between them. Two rules change a layout: `Layout.replace` puts new records behind some of the
old ones and drops the others, and `Layout.scribble` writes above the limit. -/

namespace OmniPaxosBench.Lib

/-- The bytes of a file, by position. -/
abbrev ByteFile := ℕ → UInt8

namespace ByteFile

/-- Nothing was written. -/
def empty : ByteFile := fun _ => 0

/-- Write `bs` from `pos` on. -/
def write (f : ByteFile) (pos : ℕ) (bs : Bytes) : ByteFile := fun k =>
  if pos ≤ k then (bs[k - pos]?).getD (f k) else f k

/-- The `len` bytes from `pos` on. -/
def read (f : ByteFile) (pos len : ℕ) : Bytes := (List.range len).map fun i => f (pos + i)

variable {f : ByteFile} {pos pos' len : ℕ} {a b c bs : Bytes}

@[simp] theorem length_read : (f.read pos len).length = len := by simp [read]

theorem getElem?_read {i : ℕ} (h : i < len) : (f.read pos len)[i]? = some (f (pos + i)) := by
  simp [read, h]

@[simp] theorem write_nil : f.write pos [] = f := by
  funext k
  simp [write]

/-- Two writes in a row are one. -/
theorem write_append : (f.write pos a).write (pos + a.length) b = f.write pos (a ++ b) := by
  funext k
  unfold write
  by_cases hpos : pos ≤ k
  · by_cases ha : k < pos + a.length
    · have hlt : k - pos < a.length := by omega
      have hle : ¬ pos + a.length ≤ k := by omega
      rw [if_neg hle, if_pos hpos, if_pos hpos, List.getElem?_append_left hlt]
    · have hle : pos + a.length ≤ k := by omega
      have hge : a.length ≤ k - pos := by omega
      have hsub : k - pos - a.length = k - (pos + a.length) := by omega
      rw [if_pos hle, if_pos hpos, if_pos hpos, List.getElem?_append_right hge, hsub,
        List.getElem?_eq_none hge, Option.getD_none]
  · have hle : ¬ pos + a.length ≤ k := by omega
    rw [if_neg hle, if_neg hpos, if_neg hpos]

theorem read_add (m : ℕ) : f.read pos (m + len) = f.read pos m ++ f.read (pos + m) len := by
  unfold read
  rw [List.range_add, List.map_append, List.map_map]
  simp only [Function.comp_def, Nat.add_assoc]

theorem read_congr {g : ByteFile} (h : ∀ k, pos ≤ k → k < pos + len → g k = f k) :
    g.read pos len = f.read pos len := by
  refine List.map_congr_left fun i hi => h (pos + i) (by omega) ?_
  have := List.mem_range.mp hi
  omega

theorem write_of_disjoint {k : ℕ} (h : k < pos ∨ pos + bs.length ≤ k) : f.write pos bs k = f k := by
  unfold write
  split_ifs with hpos
  · have hge : bs.length ≤ k - pos := by omega
    rw [List.getElem?_eq_none hge, Option.getD_none]
  · rfl

/-- **What is written elsewhere is not seen.** -/
theorem read_write_of_disjoint (h : pos' + len ≤ pos ∨ pos + bs.length ≤ pos') :
    (f.write pos bs).read pos' len = f.read pos' len :=
  read_congr fun _ _ _ => write_of_disjoint (by omega)

/-- **What is written is read back**, also in part. -/
theorem read_write_inside (hpos : pos' = pos + a.length) (hlen : len = b.length) :
    (f.write pos (a ++ b ++ c)).read pos' len = b := by
  subst hpos hlen
  refine List.ext_getElem? fun i => ?_
  by_cases hi : i < b.length
  · have hle : pos ≤ pos + a.length + i := by omega
    have hsub : pos + a.length + i - pos = a.length + i := by omega
    have hlt : a.length + i < (a ++ b).length := by rw [List.length_append]; omega
    have hsub' : a.length + i - a.length = i := by omega
    rw [getElem?_read hi, write, if_pos hle, hsub, List.getElem?_append_left hlt,
      List.getElem?_append_right (by omega), hsub', List.getElem?_eq_getElem hi, Option.getD_some]
  · rw [List.getElem?_eq_none (by simpa using hi), List.getElem?_eq_none (by omega)]

theorem read_write_self : (f.write pos bs).read pos bs.length = bs := by
  have h := read_write_inside (f := f) (a := []) (b := bs) (c := []) (Nat.add_zero pos).symm rfl
  rwa [List.nil_append, List.append_nil] at h

end ByteFile

/-- A word is read back. -/
theorem uintFrom_putU64 {n : ℕ} (h : n < 2 ^ 64) : uintFrom 0 (putU64 n) = n := by
  have h256 : n < 256 ^ 8 := h
  rw [putU64, uintFrom_putUint, Nat.mod_eq_of_lt h256, Nat.zero_mul, Nat.zero_add]

@[simp] theorem length_putU64 (n : ℕ) : (putU64 n).length = 8 := length_putUint 8 n

/-! ### Records -/

/-- A payload after its length. -/
def record (payload : Bytes) : Bytes := putU64 payload.length ++ payload

@[simp] theorem length_record (payload : Bytes) : (record payload).length = 8 + payload.length := by
  rw [record, List.length_append, length_putU64]

/-- A record and where it lies. -/
structure Cell where
  pos : ℕ
  payload : Bytes

namespace Cell

/-- The position behind the record. -/
def stop (c : Cell) : ℕ := c.pos + (8 + c.payload.length)

/-- Records one behind the other, from `pos` on. -/
def layOut (pos : ℕ) : List Bytes → List Cell
  | [] => []
  | p :: ps => ⟨pos, p⟩ :: layOut (pos + (8 + p.length)) ps

/-- The records in one piece. -/
def records (ps : List Bytes) : Bytes := (ps.map record).flatten

/-- The entries of the table in one piece. -/
def table (cells : List Cell) : Bytes := (cells.map fun c => putU64 c.pos).flatten

variable {pos : ℕ} {ps : List Bytes} {cells : List Cell} {c : Cell}

@[simp] theorem length_layOut : (layOut pos ps).length = ps.length := by
  induction ps generalizing pos with
  | nil => rfl
  | cons p ps ih => simp [layOut, ih]

@[simp] theorem map_payload_layOut : (layOut pos ps).map Cell.payload = ps := by
  induction ps generalizing pos with
  | nil => rfl
  | cons p ps ih => simp [layOut, ih]

@[simp] theorem records_cons (p : Bytes) (ps : List Bytes) :
    records (p :: ps) = record p ++ records ps := rfl

/-- Records laid out from `pos` lie above `pos` and below their common end. -/
theorem bounds_of_mem_layOut (h : c ∈ layOut pos ps) :
    pos ≤ c.pos ∧ c.stop ≤ pos + (records ps).length := by
  induction ps generalizing pos with
  | nil => cases h
  | cons p ps ih =>
    simp only [records_cons, List.length_append, length_record]
    rcases List.mem_cons.mp h with rfl | h
    · exact ⟨le_rfl, by simp only [stop]; omega⟩
    · obtain ⟨h1, h2⟩ := ih h
      exact ⟨by omega, by omega⟩

theorem pairwise_layOut : (layOut pos ps).Pairwise fun c c' => c.stop ≤ c'.pos := by
  induction ps generalizing pos with
  | nil => exact .nil
  | cons p ps ih => exact .cons (fun c' hc' => (bounds_of_mem_layOut hc').1) ih

/-- Each record is a part of the whole. -/
theorem records_split (h : c ∈ layOut pos ps) : ∃ a b, records ps = a ++ record c.payload ++ b ∧
    c.pos = pos + a.length := by
  induction ps generalizing pos with
  | nil => cases h
  | cons p ps ih =>
    rcases List.mem_cons.mp h with rfl | h
    · exact ⟨[], records ps, rfl, rfl⟩
    · obtain ⟨a, b, heq, hpos⟩ := ih h
      refine ⟨record p ++ a, b, by simp [heq], ?_⟩
      simp only [List.length_append, length_record]
      omega

theorem records_append (ps qs : List Bytes) : records (ps ++ qs) = records ps ++ records qs := by
  rw [records, List.map_append, List.flatten_append]
  rfl

theorem layOut_append (ps qs : List Bytes) :
    layOut pos (ps ++ qs) = layOut pos ps ++ layOut (pos + (records ps).length) qs := by
  induction ps generalizing pos with
  | nil => rfl
  | cons p ps ih =>
    simp only [List.cons_append, layOut, ih, records_cons, List.length_append, length_record,
      Nat.add_assoc]

/-- The first records lie where they lie without the others. -/
theorem take_layOut (k : ℕ) : (layOut pos ps).take k = layOut pos (ps.take k) := by
  induction ps generalizing pos k with
  | nil => simp [layOut]
  | cons p ps ih =>
    cases k with
    | zero => rfl
    | succ k => simp only [layOut, List.take_succ_cons, ih]

/-- The place of a record is behind those before it. -/
theorem pos_layOut {k : ℕ} (h : (layOut pos ps)[k]? = some c) :
    c.pos = pos + (records (ps.take k)).length := by
  induction ps generalizing pos k with
  | nil => cases h
  | cons p ps ih =>
    cases k with
    | zero => cases h; rfl
    | succ k =>
      rw [ih h, List.take_succ_cons, records_cons, List.length_append, length_record, Nat.add_assoc]

theorem table_split {j : ℕ} (h : cells[j]? = some c) : ∃ a b, table cells = a ++ putU64 c.pos ++ b ∧
    a.length = 8 * j := by
  induction cells generalizing j with
  | nil => cases h
  | cons d cells ih =>
    have hcons : table (d :: cells) = putU64 d.pos ++ table cells := rfl
    cases j with
    | zero =>
      cases h
      exact ⟨[], table cells, hcons, rfl⟩
    | succ j =>
      obtain ⟨a, b, heq, hlen⟩ := ih h
      refine ⟨putU64 d.pos ++ a, b, by rw [hcons, heq]; simp, ?_⟩
      rw [List.length_append, length_putU64, hlen]
      omega

end Cell

/-! ### Layouts -/

/-- The records of `cells` can be read back through the table, and end below `limit`. -/
structure Layout (log offsets : ByteFile) (cells : List Cell) (limit : ℕ) : Prop where
  order : cells.Pairwise fun c c' => c.stop ≤ c'.pos
  below : ∀ c ∈ cells, c.stop ≤ limit
  stored : ∀ c ∈ cells, log.read c.pos (8 + c.payload.length) = record c.payload
  table : ∀ j c, cells[j]? = some c → offsets.read (8 * j) 8 = putU64 c.pos

namespace Layout

variable {log offsets : ByteFile} {cells : List Cell} {limit : ℕ}

theorem empty (log offsets : ByteFile) (limit : ℕ) : Layout log offsets [] limit :=
  ⟨.nil, by simp, by simp, by simp⟩

/-- The length of a record is read back. -/
theorem read_length (h : Layout log offsets cells limit) {c : Cell} (hc : c ∈ cells) :
    log.read c.pos 8 = putU64 c.payload.length ∧
      log.read (c.pos + 8) c.payload.length = c.payload := by
  have hst := h.stored c hc
  rw [ByteFile.read_add, record] at hst
  exact List.append_inj hst (by simp)

/-- The records before the `k`-th end below it. -/
theorem stop_le_of_mem_take (h : Layout log offsets cells limit) {k : ℕ} {d c : Cell}
    (hd : cells[k]? = some d) (hc : c ∈ cells.take k) : c.stop ≤ d.pos := by
  have hsplit : cells = cells.take k ++ d :: cells.drop (k + 1) := by
    obtain ⟨hlt, rfl⟩ := List.getElem?_eq_some_iff.mp hd
    rw [← List.drop_eq_getElem_cons hlt, List.take_append_drop]
  have horder := h.order
  rw [hsplit, List.pairwise_append] at horder
  exact horder.2.2 c hc d (List.mem_cons_self ..)

/-- **Scribbling**: writes above the limit, and above the used part of the table, change nothing. -/
theorem scribble (h : Layout log offsets cells limit) {pos limit' : ℕ} (hpos : limit ≤ pos)
    (hlimit : limit ≤ limit') (junk junk' : Bytes) :
    Layout (log.write pos junk) (offsets.write (8 * cells.length) junk') cells limit' := by
  refine ⟨h.order, fun c hc => (h.below c hc).trans hlimit, fun c hc => ?_, fun j c hj => ?_⟩
  · have hbelow : c.pos + (8 + c.payload.length) ≤ limit := h.below c hc
    rw [ByteFile.read_write_of_disjoint (Or.inl (by omega))]
    exact h.stored c hc
  · have hlt : j < cells.length := (List.getElem?_eq_some_iff.mp hj).1
    rw [ByteFile.read_write_of_disjoint (Or.inl (by omega))]
    exact h.table j c hj

/-- **Replacing**: the first `k` records stay, and new ones are written behind them. -/
theorem replace (h : Layout log offsets cells limit) {k pos : ℕ} (hk : k ≤ cells.length)
    (hpos : ∀ c ∈ cells.take k, c.stop ≤ pos) (ps : List Bytes) :
    Layout (log.write pos (Cell.records ps)) (offsets.write (8 * k) (Cell.table (Cell.layOut pos ps)))
      (cells.take k ++ Cell.layOut pos ps) (pos + (Cell.records ps).length) := by
  have hlen : (cells.take k).length = k := by rw [List.length_take]; omega
  refine ⟨?_, fun c hc => ?_, fun c hc => ?_, fun j c hj => ?_⟩
  · refine List.pairwise_append.mpr ⟨h.order.take, Cell.pairwise_layOut, fun c hc c' hc' => ?_⟩
    exact (hpos c hc).trans (Cell.bounds_of_mem_layOut hc').1
  · rcases List.mem_append.mp hc with hc | hc
    · exact (hpos c hc).trans (Nat.le_add_right _ _)
    · exact (Cell.bounds_of_mem_layOut hc).2
  · rcases List.mem_append.mp hc with hc | hc
    · have hstop : c.pos + (8 + c.payload.length) ≤ pos := hpos c hc
      rw [ByteFile.read_write_of_disjoint (Or.inl (by omega))]
      exact h.stored c (List.mem_of_mem_take hc)
    · obtain ⟨a, b, heq, hat⟩ := Cell.records_split hc
      rw [heq]
      exact ByteFile.read_write_inside hat (length_record _).symm
  · by_cases hjk : j < k
    · rw [List.getElem?_append_left (by omega), List.getElem?_take_of_lt hjk] at hj
      rw [ByteFile.read_write_of_disjoint (Or.inl (by omega))]
      exact h.table j c hj
    · rw [List.getElem?_append_right (by omega), hlen] at hj
      obtain ⟨a, b, heq, hat⟩ := Cell.table_split hj
      rw [heq]
      exact ByteFile.read_write_inside (by omega) (length_putU64 _).symm

end Layout

end OmniPaxosBench.Lib
