import OmniPaxosBench.Lib.Wire
import OmniPaxosBench.Shared.Linearizability

/-! # The control messages and their wire format

The master prepares, runs and stops the nodes with `PartitioningActorMsg`s, and the client simulates
partitions with `PartitioningExpMsg`s. Optional fields are written as sentinels: no `init_data` is a
length of `0`, no lagging peer the pid `0`. The value of a timestamp follows its operation, unless the
operation is the invocation of a read.

Actor paths are written and read by the component library, which is a parameter: `ActorPathFormat`. -/

namespace OmniPaxosBench.Experiment

open OmniPaxosBench.Lib OmniPaxosBench.Shared.Linearizability

/-- How the component library writes an actor path and reads it back. -/
structure ActorPathFormat (ActorPath : Type) where
  serialise : ActorPath → Bytes
  deserialise : Reader ActorPath
  reads : ∀ path, Reads deserialise (serialise path) path

/-! ### Preparing, running and stopping -/

structure Init (ActorPath : Type) where
  pid : ℕ
  initId : ℕ
  nodes : List ActorPath
  initData : Option Bytes
  deriving DecidableEq, Repr

inductive PartitioningActorMsg (ActorPath : Type)
  | init (i : Init ActorPath)
  | initAck (id : ℕ)
  | run
  | done
  | testDone (timestamps : List KVTimestamp)
  | stop
  | stopAck
  deriving DecidableEq, Repr

/-- `unwrap` of the value of a timestamp. -/
def putValue : Option UInt32 → Except ReadError Bytes
  | some value => .ok (putU32 value.toNat)
  | none => .error (.panic "called `Option::unwrap()` on a `None` value")

/-- The operation of a timestamp, and its value where one follows. -/
def serialiseOperation (ts : KVTimestamp) : Except ReadError Bytes :=
  match ts.operation with
  | .readInvokation => .ok (putU8 8)
  | .readResponse => do return [putU8 9, ← putValue ts.value].flatten
  | .writeInvokation => do return [putU8 10, ← putValue ts.value].flatten
  | .writeResponse => do return [putU8 11, ← putValue ts.value].flatten

def deserialiseOperation : Reader (KVOperation × Option UInt32) := do
  match ← getU8 with
  | 8 => return (.readInvokation, none)
  | 9 => return (.readResponse, some (UInt32.ofNat (← getU32)))
  | 10 => return (.writeInvokation, some (UInt32.ofNat (← getU32)))
  | 11 => return (.writeResponse, some (UInt32.ofNat (← getU32)))
  | _ => throw (.panic "Found unknown KVOperation id")

def serialiseTimestamp (ts : KVTimestamp) : Except ReadError Bytes := do
  let operation ← serialiseOperation ts
  return [putU64 ts.key.toNat, operation, putI64 ts.time, putU32 ts.sender.toNat].flatten

def deserialiseTimestamp : Reader KVTimestamp := do
  let key ← getU64
  let (operation, value) ← deserialiseOperation
  let time ← getI64
  let sender ← getU32
  return ⟨UInt64.ofNat key, operation, value, time, UInt32.ofNat sender⟩

/-- The client data of an `Init`, after a length of 64 bits; a length of `0` stands for no data. -/
def serialiseInitData : Option Bytes → Bytes
  | some data => [putU64 data.length, (data.map putU8).flatten].flatten
  | none => putU64 0

def deserialiseInitData : Reader (Option Bytes) := do
  match ← getU64 with
  | 0 => return none
  | dataLen => return some (← repeated getU8 dataLen)

namespace PartitioningActorMsg

variable {ActorPath : Type} (F : ActorPathFormat ActorPath)

def serialise : PartitioningActorMsg ActorPath → Except ReadError Bytes
  | .init i => .ok [putU8 1, putU32 i.pid, putU32 i.initId, serialiseInitData i.initData,
      putList F.serialise i.nodes].flatten
  | .initAck id => .ok [putU8 2, putU32 id].flatten
  | .run => .ok (putU8 3)
  | .done => .ok (putU8 4)
  | .testDone timestamps => do
    let written ← timestamps.mapM serialiseTimestamp
    return [putU8 5, putU32 timestamps.length, written.flatten].flatten
  | .stop => .ok (putU8 6)
  | .stopAck => .ok (putU8 13)

/-- `PartitioningActorSer::deserialise`. -/
def deserialise : Reader (PartitioningActorMsg ActorPath) := do
  match ← getU8 with
  | 1 =>
    let pid ← getU32
    let initId ← getU32
    let initData ← deserialiseInitData
    let nodes ← getList F.deserialise
    return .init ⟨pid, initId, nodes, initData⟩
  | 2 => return .initAck (← getU32)
  | 3 => return .run
  | 4 => return .done
  | 5 => return .testDone (← getList deserialiseTimestamp)
  | 6 => return .stop
  | 13 => return .stopAck
  | _ => throw (.invalidType "Found unkown id, but expected PartitioningActorMsg.")

/-- The numbers fit their types, the lists have fewer than `2 ^ 32` elements, client data is absent or
not empty, and a timestamp has a value unless it invokes a read. -/
def Fits : PartitioningActorMsg ActorPath → Prop
  | .init i => i.pid < 2 ^ 32 ∧ i.initId < 2 ^ 32 ∧ i.nodes.length < 2 ^ 32 ∧
      ∀ data, i.initData = some data → data ≠ [] ∧ data.length < 2 ^ 64
  | .initAck id => id < 2 ^ 32
  | .testDone timestamps => timestamps.length < 2 ^ 32 ∧
      ∀ ts ∈ timestamps, ts.value.isSome ↔ ts.operation ≠ .readInvokation
  | .run | .done | .stop | .stopAck => True

end PartitioningActorMsg

/-! ### Simulated partitions -/

inductive PartitioningExpMsg
  | disconnectPeers (peers : List ℕ) (delay : Bool) (laggingPeer : Option ℕ)
  | recoverPeers
  deriving DecidableEq, Repr

namespace PartitioningExpMsg

def serialise : PartitioningExpMsg → Bytes
  | .disconnectPeers peers delay laggingPeer => [putU8 1, putU8 (if delay then 1 else 0),
      putList putU64 peers, putU64 (laggingPeer.getD 0)].flatten
  | .recoverPeers => putU8 2

/-- `PartitioningExpMsgDeser::deserialise`. -/
def deserialise : Reader PartitioningExpMsg := do
  match ← getU8 with
  | 1 =>
    let delay ← getU8
    let peers ← getList getU64
    let dp ← getU64
    return .disconnectPeers peers (decide (0 < delay)) (if 0 < dp then some dp else none)
  | 2 => return .recoverPeers
  | _ => throw (.invalidType "Found unkown id but expected Disconnect or Recover Peers")

/-- The pids fit their type, there are fewer than `2 ^ 32`, and the lagging peer is not `0`. -/
def Fits : PartitioningExpMsg → Prop
  | .disconnectPeers peers _ laggingPeer => peers.length < 2 ^ 32 ∧ (∀ pid ∈ peers, pid < 2 ^ 64) ∧
      ∀ lp, laggingPeer = some lp → 1 ≤ lp ∧ lp < 2 ^ 64
  | .recoverPeers => True

end PartitioningExpMsg

/-! ### The round trip -/

theorem reads_value (operation : KVOperation) (v : UInt32) :
    Reads (do return (operation, some (UInt32.ofNat (← getU32)))) [putU32 v.toNat].flatten
      (operation, some v) := by
  refine Reads.of_eq ((reads_u32 v.toNat_lt).next .done) ?_
  rw [UInt32.ofNat_toNat]

theorem reads_operation {ts : KVTimestamp} (h : ts.value.isSome ↔ ts.operation ≠ .readInvokation) :
    ∃ x, serialiseOperation ts = .ok x ∧ Reads deserialiseOperation x (ts.operation, ts.value) := by
  obtain ⟨key, operation, value, time, sender⟩ := ts
  by_cases hread : operation = .readInvokation
  · have hnone : value = none := by simpa [hread] using h
    subst hread hnone
    exact ⟨_, rfl, fun rest => rfl⟩
  · obtain ⟨v, rfl⟩ := Option.isSome_iff_exists.mp (h.mpr hread)
    cases operation with
    | readInvokation => exact absurd rfl hread
    | readResponse => exact ⟨_, rfl, (reads_u8 9).next (reads_value .readResponse v)⟩
    | writeInvokation => exact ⟨_, rfl, (reads_u8 10).next (reads_value .writeInvokation v)⟩
    | writeResponse => exact ⟨_, rfl, (reads_u8 11).next (reads_value .writeResponse v)⟩

theorem reads_timestamp {ts : KVTimestamp} (h : ts.value.isSome ↔ ts.operation ≠ .readInvokation) :
    ∃ x, serialiseTimestamp ts = .ok x ∧ Reads deserialiseTimestamp x ts := by
  obtain ⟨op, hwrite, hread⟩ := reads_operation h
  refine ⟨[putU64 ts.key.toNat, op, putI64 ts.time, putU32 ts.sender.toNat].flatten, ?_, ?_⟩
  · rw [serialiseTimestamp, hwrite]
    rfl
  · refine Reads.of_eq ((reads_u64 ts.key.toNat_lt).next (hread.next ((reads_i64 ts.time).next
      ((reads_u32 ts.sender.toNat_lt).next .done)))) ?_
    rw [UInt64.ofNat_toNat, UInt32.ofNat_toNat]

/-- A length of `0` would be read back as no data. -/
theorem reads_initData {initData : Option Bytes}
    (h : ∀ data, initData = some data → data ≠ [] ∧ data.length < 2 ^ 64) :
    Reads deserialiseInitData (serialiseInitData initData) initData := by
  cases initData with
  | none => exact (reads_u64 (by decide)).only .done
  | some data =>
    obtain ⟨hne, hlen⟩ := h data rfl
    refine (reads_u64 hlen).next ?_
    obtain ⟨len, hsucc⟩ : ∃ len, data.length = len + 1 :=
      Nat.exists_eq_succ_of_ne_zero (mt List.length_eq_zero_iff.mp hne)
    have hbytes : Reads (repeated getU8 data.length) (data.map putU8).flatten data :=
      reads_repeated fun b _ => reads_u8 b
    rw [hsucc] at hbytes ⊢
    exact hbytes.next .done

theorem PartitioningActorMsg.reads {ActorPath : Type} (F : ActorPathFormat ActorPath)
    {m : PartitioningActorMsg ActorPath} (h : m.Fits) :
    ∃ x, m.serialise F = .ok x ∧ Reads (deserialise F) x m := by
  cases m with
  | init i =>
    obtain ⟨hpid, hid, hnodes, hdata⟩ := h
    refine ⟨_, rfl, (reads_u8 1).next ((reads_u32 hpid).next ((reads_u32 hid).next ?_))⟩
    exact (reads_initData hdata).next ((reads_list hnodes fun path _ => F.reads path).next .done)
  | initAck id => exact ⟨_, rfl, (reads_u8 2).next ((reads_u32 h).next .done)⟩
  | run => exact ⟨_, rfl, fun rest => rfl⟩
  | done => exact ⟨_, rfl, fun rest => rfl⟩
  | testDone timestamps =>
    obtain ⟨written, hwrite, hread⟩ := reads_mapM fun ts hts => reads_timestamp (h.2 ts hts)
    refine ⟨[putU8 5, putU32 timestamps.length, written.flatten].flatten, ?_, ?_⟩
    · rw [serialise, hwrite]
      rfl
    · have hlist : Reads (getList deserialiseTimestamp)
          [putU32 timestamps.length, written.flatten].flatten timestamps := by
        refine (reads_u32 h.1).next ?_
        rwa [List.flatten_cons, List.flatten_nil, List.append_nil]
      exact (reads_u8 5).next hlist.last
  | stop => exact ⟨_, rfl, fun rest => rfl⟩
  | stopAck => exact ⟨_, rfl, fun rest => rfl⟩

theorem PartitioningExpMsg.reads {m : PartitioningExpMsg} (h : m.Fits) :
    Reads deserialise m.serialise m := by
  cases m with
  | recoverPeers => exact fun rest => rfl
  | disconnectPeers peers delay laggingPeer =>
    obtain ⟨hlen, hpeers, hlagging⟩ := h
    have hpeer : Reads getU64 (putU64 (laggingPeer.getD 0)) (laggingPeer.getD 0) := by
      refine reads_u64 ?_
      cases laggingPeer with
      | none => decide
      | some lp => exact (hlagging lp rfl).2
    have hdelay : decide (0 < (if delay then 1 else 0 : UInt8)) = delay := by cases delay <;> rfl
    have hsome : (if 0 < laggingPeer.getD 0 then some (laggingPeer.getD 0) else none) = laggingPeer := by
      cases laggingPeer with
      | none => rfl
      | some lp => exact if_pos (hlagging lp rfl).1
    refine Reads.of_eq ((reads_u8 1).next ((reads_u8 (if delay then 1 else 0)).next
      ((reads_list hlen fun pid hp => reads_u64 (hpeers pid hp)).next (hpeer.next .done)))) ?_
    rw [hdelay, hsome]

/-- **The round trip of the control messages.** -/
theorem control_roundTrip {ActorPath : Type} (F : ActorPathFormat ActorPath) :
    (∀ m : PartitioningActorMsg ActorPath, m.Fits → ∃ bytes, m.serialise F = .ok bytes ∧
      ∀ rest, PartitioningActorMsg.deserialise F (bytes ++ rest) = .ok (m, rest)) ∧
    ∀ m : PartitioningExpMsg, m.Fits →
      ∀ rest, PartitioningExpMsg.deserialise (m.serialise ++ rest) = .ok (m, rest) :=
  ⟨fun _ hm => PartitioningActorMsg.reads F hm, fun _ hm => PartitioningExpMsg.reads hm⟩

/-- Actor paths that are numbers. -/
def numberFormat : ActorPathFormat UInt64 where
  serialise n := putU64 n.toNat
  deserialise := do return UInt64.ofNat (← getU64)
  reads n := ((reads_u64 n.toNat_lt).last).of_eq UInt64.ofNat_toNat

/-- A read that was invoked at a negative time, and a write. -/
def twoTimestamps : List KVTimestamp :=
  [⟨3, .readInvokation, none, -1, 1⟩, ⟨3, .writeResponse, some 7, 20, 2⟩]

theorem twoTimestamps_roundTrip :
    (∃ bytes, (PartitioningActorMsg.testDone twoTimestamps).serialise numberFormat = .ok bytes ∧
      ∀ rest, PartitioningActorMsg.deserialise numberFormat (bytes ++ rest) =
        .ok (.testDone twoTimestamps, rest)) ∧
    ∀ rest, PartitioningExpMsg.deserialise
        ((PartitioningExpMsg.disconnectPeers [2, 3] false (some 4)).serialise ++ rest) =
      .ok (.disconnectPeers [2, 3] false (some 4), rest) := by
  refine ⟨(control_roundTrip numberFormat).1 _ ⟨by decide, by decide⟩, ?_⟩
  refine (control_roundTrip numberFormat).2 _ ⟨by decide, by decide, fun lp hlp => ?_⟩
  cases hlp
  decide

example : (PartitioningExpMsg.disconnectPeers [2] false none).serialise =
    [1, 0, 0, 0, 0, 1, 0, 0, 0, 0, 0, 0, 0, 2, 0, 0, 0, 0, 0, 0, 0, 0] := by decide

end OmniPaxosBench.Experiment
