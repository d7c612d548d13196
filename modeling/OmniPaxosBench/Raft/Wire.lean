import OmniPaxosBench.Lib.Buf

/-! # Raft: the wire format

A Raft message is written and parsed by protobuf, which is a parameter of the model. The reader parses
the first chunk of the buffer if that is all there is. Otherwise it copies the bytes out first, into a
vector that has room for them but no length, so nothing is copied and the empty message is parsed
(`rawRaftSer_deserialise_iff`). -/

namespace OmniPaxosBench.Raft

open OmniPaxosBench.Lib

/-- Protobuf for the messages `M`: parsing undoes writing, and fields that have their default are not
written. -/
structure Protobuf (M : Type) where
  writeToBytes : M → Bytes
  parseFromBytes : Bytes → Option M
  default : M
  parse_write : ∀ m, parseFromBytes (writeToBytes m) = some m
  write_default : writeToBytes default = []

variable {M : Type} (P : Protobuf M)

/-- `RaftMsg::serialise`. -/
def RaftMsg.serialise (m : M) : Bytes := P.writeToBytes m

/-- `parse_from_bytes` with an `expect`. -/
def Protobuf.expectFromBytes (bytes : Bytes) : Except ReadError M :=
  match P.parseFromBytes bytes with
  | some m => .ok m
  | none => .error (.panic "Protobuf failed to deserialise TikvRaftMsg")

/-- `RawRaftSer::deserialise`. -/
def RawRaftSer.deserialise (buf : Buf) : Except ReadError M := do
  let bytes := buf.chunk
  let remaining := buf.remaining
  if bytes.length < remaining then
    -- `Vec::with_capacity(remaining)`: room for the bytes, and length `0`
    let dst : Bytes := []
    let dst ← buf.copyToSlice dst.length
    P.expectFromBytes dst
  else
    P.expectFromBytes bytes

variable {P} {m : M} {buf : Buf}

theorem Protobuf.expect_write : P.expectFromBytes (P.writeToBytes m) = .ok m := by
  unfold expectFromBytes
  rw [P.parse_write]

/-- With more than one chunk the message read is the default one, whatever was sent. -/
theorem RawRaftSer.deserialise_of_chunks (h : 2 ≤ buf.chunks.length) :
    RawRaftSer.deserialise P buf = .ok P.default := by
  unfold RawRaftSer.deserialise
  dsimp only
  rw [if_pos (Buf.length_chunk_lt_remaining_iff.mpr h), ← P.expect_write, P.write_default]
  rfl

/-- A default message has no bytes to be cut into chunks. -/
theorem ne_default_of_chunks (hbuf : buf.bytes = RaftMsg.serialise P m) (h : 2 ≤ buf.chunks.length) :
    m ≠ P.default := by
  rintro rfl
  have hlen := Buf.length_chunk_lt_remaining_iff.mpr h
  rw [Buf.remaining, hbuf, RaftMsg.serialise, P.write_default] at hlen
  exact absurd hlen (Nat.not_lt_zero _)

/-- **The exact condition for a Raft message to be read back**: its bytes arrive in one chunk. -/
theorem rawRaftSer_deserialise_iff (hbuf : buf.bytes = RaftMsg.serialise P m) :
    RawRaftSer.deserialise P buf = .ok m ↔ buf.chunks.length ≤ 1 := by
  constructor
  · intro h
    by_contra hlen
    have htwo : 2 ≤ buf.chunks.length := by omega
    rw [RawRaftSer.deserialise_of_chunks htwo] at h
    exact ne_default_of_chunks hbuf htwo (Except.ok.inj h).symm
  · intro h
    have hone : ¬ buf.chunk.length < buf.remaining := by
      rw [Buf.length_chunk_lt_remaining_iff]
      omega
    unfold RawRaftSer.deserialise
    dsimp only
    rw [if_neg hone, Buf.chunk_eq_bytes h, hbuf]
    exact P.expect_write

theorem byte_toNat : ∀ x : Fin 128, Fin.ofNat 128 (UInt8.ofNat x.val).toNat = x := by decide

/-- Messages of which only `to` and `from` are set, to one of the first 127 pids: a tag and a byte for
each. -/
def pidsOnly : Protobuf (Fin 128 × Fin 128) where
  writeToBytes m := (if m.1 = 0 then [] else [0x10, UInt8.ofNat m.1]) ++
    (if m.2 = 0 then [] else [0x18, UInt8.ofNat m.2])
  parseFromBytes
    | [] => some (0, 0)
    | [0x10, t] => some (Fin.ofNat 128 t.toNat, 0)
    | [0x18, f] => some (0, Fin.ofNat 128 f.toNat)
    | [0x10, t, 0x18, f] => some (Fin.ofNat 128 t.toNat, Fin.ofNat 128 f.toNat)
    | _ => none
  default := (0, 0)
  parse_write := by
    rintro ⟨t, f⟩
    dsimp only
    split_ifs with ht hf hf
    · rw [ht, hf]
      rfl
    · change some (0, Fin.ofNat 128 (UInt8.ofNat f.val).toNat) = _
      rw [byte_toNat, ht]
    · change some (Fin.ofNat 128 (UInt8.ofNat t.val).toNat, 0) = _
      rw [byte_toNat, hf]
    · change some (Fin.ofNat 128 (UInt8.ofNat t.val).toNat, Fin.ofNat 128 (UInt8.ofNat f.val).toNat) = _
      rw [byte_toNat, byte_toNat]
  write_default := rfl

/-- A message to node 2 from node 1, in one chunk. -/
def inOneChunk : Buf := ⟨[[0x10, 2, 0x18, 1]], by decide⟩

/-- The same bytes in two chunks. -/
def inTwoChunks : Buf := ⟨[[0x10, 2], [0x18, 1]], by decide⟩

theorem inOneChunk_readBack : RawRaftSer.deserialise pidsOnly inOneChunk = .ok (2, 1) := by
  have hbuf : inOneChunk.bytes = RaftMsg.serialise pidsOnly (2, 1) := by decide
  exact (rawRaftSer_deserialise_iff hbuf).mpr (by decide)

theorem inTwoChunks_lost : inTwoChunks.bytes = RaftMsg.serialise pidsOnly (2, 1) ∧
    RawRaftSer.deserialise pidsOnly inTwoChunks = .ok (0, 0) ∧
    RawRaftSer.deserialise pidsOnly inTwoChunks ≠ .ok (2, 1) := by
  refine ⟨by decide, rfl, fun h => ?_⟩
  have heq : ((0, 0) : Fin 128 × Fin 128) = (2, 1) := Except.ok.inj h
  exact absurd heq (by decide)

end OmniPaxosBench.Raft
