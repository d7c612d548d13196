import OmniPaxosBench.Lib.Wire

/-! # Receive buffers

The network layer hands a message over as a list of chunks, in the order they arrived. How the bytes are
cut into chunks is not up to the reader; no chunk is empty. -/

namespace OmniPaxosBench.Lib

/-- The unread bytes, in chunks. -/
structure Buf where
  chunks : List Bytes
  nonempty : ∀ c ∈ chunks, c ≠ []

namespace Buf

variable (buf : Buf)

/-- All unread bytes. -/
def bytes : Bytes := buf.chunks.flatten

/-- The first chunk; empty if nothing is left. -/
def chunk : Bytes := buf.chunks.headD []

/-- The number of unread bytes. -/
def remaining : ℕ := buf.bytes.length

/-- Fill a slice of the given length from the chunks; a panic if too few bytes are left. -/
def copyToSlice (len : ℕ) : Except ReadError Bytes :=
  if buf.remaining < len then .error .underflow else .ok (buf.bytes.take len)

variable {buf}

/-- The first chunk is all there is just when there is no other. -/
theorem length_chunk_lt_remaining_iff : buf.chunk.length < buf.remaining ↔ 2 ≤ buf.chunks.length := by
  obtain ⟨chunks, hne⟩ := buf
  cases chunks with
  | nil => simp [chunk, remaining, bytes]
  | cons c rest =>
    cases rest with
    | nil => simp [chunk, remaining, bytes]
    | cons d rest =>
      have hd : 0 < d.length := List.length_pos_iff.mpr (hne d (by simp))
      refine iff_of_true ?_ (by simp)
      simp only [chunk, remaining, bytes, List.headD_cons, List.flatten_cons, List.length_append]
      omega

theorem chunk_eq_bytes (h : buf.chunks.length ≤ 1) : buf.chunk = buf.bytes := by
  obtain ⟨chunks, hne⟩ := buf
  cases chunks with
  | nil => rfl
  | cons c rest =>
    have hrest : rest = [] := by simpa using h
    subst hrest
    simp [chunk, bytes]

end Buf

end OmniPaxosBench.Lib
