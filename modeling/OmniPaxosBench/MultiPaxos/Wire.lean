import OmniPaxosBench.Lib.Wire
import OmniPaxosBench.MultiPaxos.Messages

/-! # Multi-Paxos: the wire format

The serialisers of `serializers.rs`. A writer lists its fields in the order of the code; a reader is
written separately, as there. `Fits` says that the numbers of a message fit the types they have in the
code, and that its lists and byte strings have fewer than `2 ^ 32` elements. -/

namespace OmniPaxosBench.MultiPaxos

open OmniPaxosBench.Lib

/-! ### Values of slots -/

def serialiseCommandBatchOrNoop : CommandBatchOrNoop → Bytes
  | .commandBatch c => [putU8 1, putList putData c].flatten
  | .noop => putU8 0

def deserialiseCommandBatchOrNoop : Reader CommandBatchOrNoop := do
  match ← getU8 with
  | 0 => return .noop
  | 1 => return .commandBatch (← getList getData)
  | _ => throw (.panic "not implemented: unexpected command batch value")

def CommandBatchOrNoop.Fits : CommandBatchOrNoop → Prop
  | .commandBatch c => c.length < 2 ^ 32 ∧ ∀ data ∈ c, data.length < 2 ^ 32
  | .noop => True

theorem reads_commandBatchOrNoop {v : CommandBatchOrNoop} (h : v.Fits) :
    Reads deserialiseCommandBatchOrNoop (serialiseCommandBatchOrNoop v) v := by
  cases v with
  | noop => exact fun rest => rfl
  | commandBatch c =>
    refine (reads_u8 1).next ?_
    exact (reads_list h.1 fun data hd => reads_data (h.2 data hd)).next .done

def serialisePhase1bSlotInfo (info : Phase1bSlotInfo) : Bytes :=
  [putU64 info.slot, putU64 info.voteRound, serialiseCommandBatchOrNoop info.voteValue].flatten

def deserialisePhase1bSlotInfo : Reader Phase1bSlotInfo := do
  let slot ← getU64
  let voteRound ← getU64
  let voteValue ← deserialiseCommandBatchOrNoop
  return ⟨slot, voteRound, voteValue⟩

structure Phase1bSlotInfo.Fits (info : Phase1bSlotInfo) : Prop where
  slot : info.slot < 2 ^ 64
  voteRound : info.voteRound < 2 ^ 64
  voteValue : info.voteValue.Fits

theorem reads_phase1bSlotInfo {info : Phase1bSlotInfo} (h : info.Fits) :
    Reads deserialisePhase1bSlotInfo (serialisePhase1bSlotInfo info) info :=
  (reads_u64 h.slot).next ((reads_u64 h.voteRound).next
    ((reads_commandBatchOrNoop h.voteValue).next .done))

/-! ### Leaders -/

def serialiseProposals (proposals : List Proposal) : Bytes := putList (fun p => putData p.data) proposals

def deserialiseProposals : Reader (List Proposal) := getList do
  let data ← getData
  return ⟨data⟩

def FitProposals (proposals : List Proposal) : Prop :=
  proposals.length < 2 ^ 32 ∧ ∀ p ∈ proposals, p.data.length < 2 ^ 32

theorem reads_proposals {proposals : List Proposal} (h : FitProposals proposals) :
    Reads deserialiseProposals (serialiseProposals proposals) proposals :=
  reads_list h.1 fun p hp => (reads_data (h.2 p hp)).last (g := Proposal.mk)

def LeaderInbound.serialise : LeaderInbound → Bytes
  | .phase1b p1b => [putU8 0, putU64 p1b.round, putU64 p1b.acceptorIndex,
      putList serialisePhase1bSlotInfo p1b.info].flatten
  | .nack n => [putU8 1, putU64 n.round].flatten
  | .chosenWatermark c => [putU8 2, putU64 c.slot].flatten
  | .recover r => [putU8 3, putU64 r.slot].flatten
  | .clientRequestBatch c => [putU8 4, serialiseProposals c].flatten
  | .leaderInfoRequestBatcher src => [putU8 5, putU64 src].flatten

/-- `LeaderInboundSer::deserialise`. -/
def LeaderInbound.deserialise : Reader LeaderInbound := do
  match ← getU8 with
  | 0 =>
    let round ← getU64
    let acceptorIndex ← getU64
    let info ← getList deserialisePhase1bSlotInfo
    return .phase1b ⟨acceptorIndex, round, info⟩
  | 1 => return .nack ⟨← getU64⟩
  | 2 => return .chosenWatermark ⟨← getU64⟩
  | 3 => return .recover ⟨← getU64⟩
  | 4 => return .clientRequestBatch (← deserialiseProposals)
  | 5 => return .leaderInfoRequestBatcher (← getU64)
  | e => throw (.invalidType s!"Found unkown id: {e} but expected LeaderInbound")

def LeaderInbound.Fits : LeaderInbound → Prop
  | .phase1b p1b => p1b.round < 2 ^ 64 ∧ p1b.acceptorIndex < 2 ^ 64 ∧ p1b.info.length < 2 ^ 32 ∧
      ∀ info ∈ p1b.info, info.Fits
  | .nack n => n.round < 2 ^ 64
  | .chosenWatermark c => c.slot < 2 ^ 64
  | .recover r => r.slot < 2 ^ 64
  | .clientRequestBatch c => FitProposals c
  | .leaderInfoRequestBatcher src => src < 2 ^ 64

theorem LeaderInbound.reads (m : LeaderInbound) (h : m.Fits) : Reads deserialise m.serialise m := by
  cases m with
  | phase1b p1b =>
    obtain ⟨hround, hindex, hlen, hinfo⟩ := h
    refine (reads_u8 0).next ((reads_u64 hround).next ((reads_u64 hindex).next ?_))
    exact (reads_list hlen fun info hi => reads_phase1bSlotInfo (hinfo info hi)).next .done
  | nack n => exact (reads_u8 1).next ((reads_u64 h).next .done)
  | chosenWatermark c => exact (reads_u8 2).next ((reads_u64 h).next .done)
  | recover r => exact (reads_u8 3).next ((reads_u64 h).next .done)
  | clientRequestBatch c => exact (reads_u8 4).next ((reads_proposals h).next .done)
  | leaderInfoRequestBatcher src => exact (reads_u8 5).next ((reads_u64 h).next .done)

/-! ### Acceptors and replicas -/

def AcceptorInbound.serialise : AcceptorInbound → Bytes
  | .phase1a p1a => [putU8 0, putU64 p1a.src, putU64 p1a.round, putU64 p1a.chosenWatermark].flatten
  | .phase2a p2a => [putU8 1, putU64 p2a.src, putU64 p2a.round, putU64 p2a.slot,
      serialiseCommandBatchOrNoop p2a.commandBatchOrNoop].flatten

/-- `AcceptorInboundSer::deserialise`. -/
def AcceptorInbound.deserialise : Reader AcceptorInbound := do
  match ← getU8 with
  | 0 =>
    let src ← getU64
    let round ← getU64
    let chosenWatermark ← getU64
    return .phase1a ⟨src, round, chosenWatermark⟩
  | 1 =>
    let src ← getU64
    let round ← getU64
    let slot ← getU64
    let commandBatchOrNoop ← deserialiseCommandBatchOrNoop
    return .phase2a ⟨src, slot, round, commandBatchOrNoop⟩
  | e => throw (.invalidType s!"Found unkown id: {e} but expected AcceptorInbound")

structure Phase2a.Fits (m : Phase2a) : Prop where
  src : m.src < 2 ^ 64
  slot : m.slot < 2 ^ 64
  round : m.round < 2 ^ 64
  value : m.commandBatchOrNoop.Fits

def AcceptorInbound.Fits : AcceptorInbound → Prop
  | .phase1a p1a => p1a.src < 2 ^ 64 ∧ p1a.round < 2 ^ 64 ∧ p1a.chosenWatermark < 2 ^ 64
  | .phase2a p2a => p2a.Fits

theorem AcceptorInbound.reads (m : AcceptorInbound) (h : m.Fits) : Reads deserialise m.serialise m := by
  cases m with
  | phase1a p1a =>
    obtain ⟨hsrc, hround, hw⟩ := h
    exact (reads_u8 0).next ((reads_u64 hsrc).next ((reads_u64 hround).next ((reads_u64 hw).next .done)))
  | phase2a p2a =>
    refine (reads_u8 1).next ((reads_u64 h.src).next ((reads_u64 h.round).next ?_))
    exact (reads_u64 h.slot).next ((reads_commandBatchOrNoop h.value).next .done)

def ReplicaInbound.serialise : ReplicaInbound → Bytes
  | .chosen c => [putU64 c.slot, serialiseCommandBatchOrNoop c.commandBatchOrNoop].flatten

/-- `ReplicaInboundSer::deserialise`. -/
def ReplicaInbound.deserialise : Reader ReplicaInbound := do
  let slot ← getU64
  let commandBatchOrNoop ← deserialiseCommandBatchOrNoop
  return .chosen ⟨slot, commandBatchOrNoop⟩

def ReplicaInbound.Fits : ReplicaInbound → Prop
  | .chosen c => c.slot < 2 ^ 64 ∧ c.commandBatchOrNoop.Fits

theorem ReplicaInbound.reads (m : ReplicaInbound) (h : m.Fits) : Reads deserialise m.serialise m := by
  cases m with
  | chosen c => exact (reads_u64 h.1).next ((reads_commandBatchOrNoop h.2).next .done)

/-! ### Batchers and proxy leaders -/

def BatcherInbound.serialise : BatcherInbound → Bytes
  | .notLeaderBatcher proposals => [putU8 0, serialiseProposals proposals].flatten
  | .leaderInfoReplyBatcher l => [putU8 1, putU64 l].flatten

/-- `BatcherInboundSer::deserialise`. -/
def BatcherInbound.deserialise : Reader BatcherInbound := do
  match ← getU8 with
  | 0 => return .notLeaderBatcher (← deserialiseProposals)
  | 1 => return .leaderInfoReplyBatcher (← getU64)
  | e => throw (.invalidType s!"Found unkown id: {e} but expected BatcherInbound")

def BatcherInbound.Fits : BatcherInbound → Prop
  | .notLeaderBatcher proposals => FitProposals proposals
  | .leaderInfoReplyBatcher l => l < 2 ^ 64

theorem BatcherInbound.reads (m : BatcherInbound) (h : m.Fits) : Reads deserialise m.serialise m := by
  cases m with
  | notLeaderBatcher proposals => exact (reads_u8 0).next ((reads_proposals h).next .done)
  | leaderInfoReplyBatcher l => exact (reads_u8 1).next ((reads_u64 h).next .done)

/-- The slot comes before the round here, and after it in a message to an acceptor. -/
def ProxyLeaderInbound.serialise : ProxyLeaderInbound → Bytes
  | .phase2a p2a => [putU8 0, putU64 p2a.src, putU64 p2a.slot, putU64 p2a.round,
      serialiseCommandBatchOrNoop p2a.commandBatchOrNoop].flatten
  | .phase2b p2b => [putU8 1, putU64 p2b.slot, putU64 p2b.round, putU64 p2b.acceptorIndex].flatten

/-- `ProxyLeaderInboundSer::deserialise`. -/
def ProxyLeaderInbound.deserialise : Reader ProxyLeaderInbound := do
  match ← getU8 with
  | 0 =>
    let src ← getU64
    let slot ← getU64
    let round ← getU64
    let commandBatchOrNoop ← deserialiseCommandBatchOrNoop
    return .phase2a ⟨src, slot, round, commandBatchOrNoop⟩
  | 1 =>
    let slot ← getU64
    let round ← getU64
    let acceptorIndex ← getU64
    return .phase2b ⟨acceptorIndex, slot, round⟩
  | e => throw (.invalidType s!"Found unkown id: {e} but expected ProxyLeaderInbound")

def ProxyLeaderInbound.Fits : ProxyLeaderInbound → Prop
  | .phase2a p2a => p2a.Fits
  | .phase2b p2b => p2b.slot < 2 ^ 64 ∧ p2b.round < 2 ^ 64 ∧ p2b.acceptorIndex < 2 ^ 64

theorem ProxyLeaderInbound.reads (m : ProxyLeaderInbound) (h : m.Fits) :
    Reads deserialise m.serialise m := by
  cases m with
  | phase2a p2a =>
    refine (reads_u8 0).next ((reads_u64 h.src).next ((reads_u64 h.slot).next ?_))
    exact (reads_u64 h.round).next ((reads_commandBatchOrNoop h.value).next .done)
  | phase2b p2b =>
    obtain ⟨hslot, hround, hindex⟩ := h
    exact (reads_u8 1).next ((reads_u64 hslot).next ((reads_u64 hround).next ((reads_u64 hindex).next .done)))

/-! ### All families -/

/-- **The round trip of the five families.** -/
theorem inbound_roundTrips :
    RoundTrips LeaderInbound.Fits LeaderInbound.serialise LeaderInbound.deserialise ∧
    RoundTrips AcceptorInbound.Fits AcceptorInbound.serialise AcceptorInbound.deserialise ∧
    RoundTrips ReplicaInbound.Fits ReplicaInbound.serialise ReplicaInbound.deserialise ∧
    RoundTrips BatcherInbound.Fits BatcherInbound.serialise BatcherInbound.deserialise ∧
    RoundTrips ProxyLeaderInbound.Fits ProxyLeaderInbound.serialise ProxyLeaderInbound.deserialise :=
  ⟨roundTrips_of_reads LeaderInbound.reads, roundTrips_of_reads AcceptorInbound.reads,
    roundTrips_of_reads ReplicaInbound.reads, roundTrips_of_reads BatcherInbound.reads,
    roundTrips_of_reads ProxyLeaderInbound.reads⟩

/-- A `Phase1b` with two slots, one of them a noop. -/
theorem phase1b_roundTrip : ∀ rest, LeaderInbound.deserialise
    ((LeaderInbound.phase1b ⟨2, 7, [⟨0, 3, .commandBatch [[1, 2], []]⟩, ⟨1, 4, .noop⟩]⟩).serialise ++ rest) =
      .ok (.phase1b ⟨2, 7, [⟨0, 3, .commandBatch [[1, 2], []]⟩, ⟨1, 4, .noop⟩]⟩, rest) :=
  inbound_roundTrips.1.1 _ (by
    refine ⟨by decide, by decide, by decide, fun info hi => ?_⟩
    rcases List.mem_cons.mp hi with rfl | hi
    · exact ⟨by decide, by decide, by decide, by decide⟩
    · rw [List.mem_singleton.mp hi]
      exact ⟨by decide, by decide, trivial⟩)

example : (AcceptorInbound.phase2a ⟨1, 2, 3, .noop⟩).serialise =
    [1, 0, 0, 0, 0, 0, 0, 0, 1, 0, 0, 0, 0, 0, 0, 0, 3, 0, 0, 0, 0, 0, 0, 0, 2, 0] := by decide

end OmniPaxosBench.MultiPaxos
