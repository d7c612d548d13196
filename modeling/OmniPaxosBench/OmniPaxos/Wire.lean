import OmniPaxosBench.Lib.Wire
import OmniPaxosBench.OmniPaxos.Messages

/-! # Omni-Paxos: the wire format

The serialisers of `messages.rs` for the messages of the Paxos replicas, of the reconfiguration and of
the clients. The messages of the replicas are those of a library; they are records here, and its
constructors `with` are the constructors of the records, up to the order of the arguments.

`Fits` says that the numbers of a message fit the types they have in the code, and that its lists and
byte strings have fewer than `2 ^ 32` elements. -/

namespace OmniPaxosBench.OmniPaxos

open OmniPaxosBench.Lib LeaderElection

/-! ### Messages of the replicas -/

structure Prepare where
  n : Ballot
  ld : ℕ
  nAccepted : Ballot
  la : ℕ
  deriving DecidableEq, Repr

structure Promise where
  n : Ballot
  nAccepted : Ballot
  sfx : List Entry
  ld : ℕ
  la : ℕ
  deriving DecidableEq, Repr

structure AcceptSync where
  n : Ballot
  entries : List Entry
  syncIdx : ℕ
  deriving DecidableEq, Repr

structure FirstAccept where
  n : Ballot
  entries : List Entry
  deriving DecidableEq, Repr

structure AcceptDecide where
  n : Ballot
  ld : ℕ
  entries : List Entry
  deriving DecidableEq, Repr

structure Accepted where
  n : Ballot
  la : ℕ
  deriving DecidableEq, Repr

structure Decide where
  ld : ℕ
  n : Ballot
  deriving DecidableEq, Repr

inductive PaxosMsg
  | prepareReq
  | prepare (p : Prepare)
  | promise (p : Promise)
  | acceptSync (accSync : AcceptSync)
  | firstAccept (f : FirstAccept)
  | acceptDecide (a : AcceptDecide)
  | accepted (acc : Accepted)
  | decide (d : Decide)
  | proposalForward (entries : List Entry)
  deriving DecidableEq, Repr

/-- `PaxosMsgWrapper`, a `Message` of the library. -/
structure PaxosMessage where
  sender : ℕ
  receiver : ℕ
  msg : PaxosMsg
  deriving DecidableEq, Repr

/-! ### Entries -/

def serialiseBallot (ballot : Ballot) : Bytes := [putU32 ballot.n, putU64 ballot.pid].flatten

def deserialiseBallot : Reader Ballot := do
  let n ← getU32
  let pid ← getU64
  return ⟨n, pid⟩

structure FitsBallot (b : Ballot) : Prop where
  n : b.n < 2 ^ 32
  pid : b.pid < 2 ^ 64

theorem reads_ballot {b : Ballot} (h : FitsBallot b) : Reads deserialiseBallot (serialiseBallot b) b :=
  (reads_u32 h.n).next ((reads_u64 h.pid).next .done)

/-- The optional leader of a `StopSign` and of a `ReconfigInit`. -/
def serialiseSkipPrepareUseLeader : Option Leader → Bytes
  | some l => [putU8 1, putU64 l.pid, serialiseBallot l.round].flatten
  | none => putU8 0

def deserialiseSkipPrepareUseLeader : Reader (Option Leader) := do
  match ← getU8 with
  | 1 =>
    let pid ← getU64
    let ballot ← deserialiseBallot
    return some ⟨pid, ballot⟩
  | _ => return none

def FitsLeader (leader : Option Leader) : Prop := ∀ l ∈ leader, l.pid < 2 ^ 64 ∧ FitsBallot l.round

theorem reads_skipPrepareUseLeader {leader : Option Leader} (h : FitsLeader leader) :
    Reads deserialiseSkipPrepareUseLeader (serialiseSkipPrepareUseLeader leader) leader := by
  cases leader with
  | none => exact fun rest => rfl
  | some l =>
    obtain ⟨hpid, hround⟩ := h l rfl
    exact (reads_u8 1).next ((reads_u64 hpid).next ((reads_ballot hround).next .done))

/-- A list of pids. -/
structure FitsNodes (nodes : List ℕ) : Prop where
  length : nodes.length < 2 ^ 32
  pid : ∀ pid ∈ nodes, pid < 2 ^ 64

theorem reads_nodes {nodes : List ℕ} (h : FitsNodes nodes) :
    Reads (getList getU64) (putList putU64 nodes) nodes :=
  reads_list h.length fun pid hp => reads_u64 (h.pid pid hp)

def serialiseEntry : Entry → Bytes
  | .normal data => [putU8 1, putData data].flatten
  | .stopSign ss => [putU8 2, putU32 ss.configId, putList putU64 ss.nodes,
      serialiseSkipPrepareUseLeader ss.skipPrepareUseLeader].flatten

def deserialiseEntry : Reader Entry := do
  match ← getU8 with
  | 1 => return .normal (← getData)
  | 2 =>
    let configId ← getU32
    let nodes ← getList getU64
    let skipPrepareUseLeader ← deserialiseSkipPrepareUseLeader
    return .stopSign ⟨configId, nodes, skipPrepareUseLeader⟩
  | errorId => throw (.panic s!"Got unexpected id in deserialise_entry: {errorId}")

def Entry.Fits : Entry → Prop
  | .normal data => data.length < 2 ^ 32
  | .stopSign ss => ss.configId < 2 ^ 32 ∧ FitsNodes ss.nodes ∧ FitsLeader ss.skipPrepareUseLeader

theorem reads_entry {e : Entry} (h : e.Fits) : Reads deserialiseEntry (serialiseEntry e) e := by
  cases e with
  | normal data => exact (reads_u8 1).next ((reads_data h).next .done)
  | stopSign ss =>
    obtain ⟨hid, hnodes, hleader⟩ := h
    refine (reads_u8 2).next ((reads_u32 hid).next ((reads_nodes hnodes).next ?_))
    exact (reads_skipPrepareUseLeader hleader).next .done

def serialiseEntries (ents : List Entry) : Bytes := putList serialiseEntry ents

def deserialiseEntries : Reader (List Entry) := getList deserialiseEntry

structure FitsEntries (ents : List Entry) : Prop where
  length : ents.length < 2 ^ 32
  entry : ∀ e ∈ ents, e.Fits

theorem reads_entries {ents : List Entry} (h : FitsEntries ents) :
    Reads deserialiseEntries (serialiseEntries ents) ents :=
  reads_list h.length fun e he => reads_entry (h.entry e he)

/-! ### Paxos messages -/

/-- The id and the fields of a message, after its sender and receiver. -/
def PaxosMsg.fields : PaxosMsg → List Bytes
  | .prepareReq => [putU8 9]
  | .prepare p => [putU8 1, putU64 p.ld, putU64 p.la, serialiseBallot p.n, serialiseBallot p.nAccepted]
  | .promise p => [putU8 2, putU64 p.ld, putU64 p.la, serialiseBallot p.n, serialiseBallot p.nAccepted,
      serialiseEntries p.sfx]
  | .acceptSync accSync => [putU8 3, putU64 accSync.syncIdx, serialiseBallot accSync.n,
      serialiseEntries accSync.entries]
  | .firstAccept f => [putU8 8, serialiseBallot f.n, serialiseEntries f.entries]
  | .acceptDecide a => [putU8 4, putU64 a.ld, serialiseBallot a.n, serialiseEntries a.entries]
  | .accepted acc => [putU8 5, serialiseBallot acc.n, putU64 acc.la]
  | .decide d => [putU8 6, serialiseBallot d.n, putU64 d.ld]
  | .proposalForward entries => [putU8 7, serialiseEntries entries]

def PaxosMessage.serialise (m : PaxosMessage) : Bytes :=
  (putU64 m.sender :: putU64 m.receiver :: m.msg.fields).flatten

/-- `PaxosSer::deserialise`. -/
def PaxosMessage.deserialise : Reader PaxosMessage := do
  let sender ← getU64
  let receiver ← getU64
  match ← getU8 with
  | 9 => return ⟨sender, receiver, .prepareReq⟩
  | 1 =>
    let ld ← getU64
    let la ← getU64
    let n ← deserialiseBallot
    let nAccepted ← deserialiseBallot
    return ⟨sender, receiver, .prepare ⟨n, ld, nAccepted, la⟩⟩
  | 2 =>
    let ld ← getU64
    let la ← getU64
    let n ← deserialiseBallot
    let nAccepted ← deserialiseBallot
    let sfx ← deserialiseEntries
    return ⟨sender, receiver, .promise ⟨n, nAccepted, sfx, ld, la⟩⟩
  | 3 =>
    let syncIdx ← getU64
    let n ← deserialiseBallot
    let sfx ← deserialiseEntries
    return ⟨sender, receiver, .acceptSync ⟨n, sfx, syncIdx⟩⟩
  | 4 =>
    let ld ← getU64
    let n ← deserialiseBallot
    let entries ← deserialiseEntries
    return ⟨sender, receiver, .acceptDecide ⟨n, ld, entries⟩⟩
  | 5 =>
    let n ← deserialiseBallot
    let ld ← getU64
    return ⟨sender, receiver, .accepted ⟨n, ld⟩⟩
  | 6 =>
    let n ← deserialiseBallot
    let ld ← getU64
    return ⟨sender, receiver, .decide ⟨ld, n⟩⟩
  | 7 =>
    let entries ← deserialiseEntries
    return ⟨sender, receiver, .proposalForward entries⟩
  | 8 =>
    let n ← deserialiseBallot
    let entries ← deserialiseEntries
    return ⟨sender, receiver, .firstAccept ⟨n, entries⟩⟩
  | _ => throw (.invalidType "Found unkown id but expected PaxosMsg")

def PaxosMsg.Fits : PaxosMsg → Prop
  | .prepareReq => True
  | .prepare p => p.ld < 2 ^ 64 ∧ p.la < 2 ^ 64 ∧ FitsBallot p.n ∧ FitsBallot p.nAccepted
  | .promise p => p.ld < 2 ^ 64 ∧ p.la < 2 ^ 64 ∧ FitsBallot p.n ∧ FitsBallot p.nAccepted ∧
      FitsEntries p.sfx
  | .acceptSync accSync => accSync.syncIdx < 2 ^ 64 ∧ FitsBallot accSync.n ∧
      FitsEntries accSync.entries
  | .firstAccept f => FitsBallot f.n ∧ FitsEntries f.entries
  | .acceptDecide a => a.ld < 2 ^ 64 ∧ FitsBallot a.n ∧ FitsEntries a.entries
  | .accepted acc => FitsBallot acc.n ∧ acc.la < 2 ^ 64
  | .decide d => FitsBallot d.n ∧ d.ld < 2 ^ 64
  | .proposalForward entries => FitsEntries entries

structure PaxosMessage.Fits (m : PaxosMessage) : Prop where
  sender : m.sender < 2 ^ 64
  receiver : m.receiver < 2 ^ 64
  msg : m.msg.Fits

theorem PaxosMessage.reads (m : PaxosMessage) (h : m.Fits) : Reads deserialise m.serialise m := by
  obtain ⟨sender, receiver, msg⟩ := m
  obtain ⟨hsender, hreceiver, hmsg⟩ := h
  refine (reads_u64 hsender).next ((reads_u64 hreceiver).next ?_)
  cases msg with
  | prepareReq => exact (reads_u8 9).next .done
  | prepare p =>
    obtain ⟨hld, hla, hn, hacc⟩ := hmsg
    refine (reads_u8 1).next ((reads_u64 hld).next ((reads_u64 hla).next ?_))
    exact (reads_ballot hn).next ((reads_ballot hacc).next .done)
  | promise p =>
    obtain ⟨hld, hla, hn, hacc, hsfx⟩ := hmsg
    refine (reads_u8 2).next ((reads_u64 hld).next ((reads_u64 hla).next ?_))
    exact (reads_ballot hn).next ((reads_ballot hacc).next ((reads_entries hsfx).next .done))
  | acceptSync accSync =>
    obtain ⟨hidx, hn, hents⟩ := hmsg
    exact (reads_u8 3).next ((reads_u64 hidx).next ((reads_ballot hn).next ((reads_entries hents).next .done)))
  | firstAccept f =>
    obtain ⟨hn, hents⟩ := hmsg
    exact (reads_u8 8).next ((reads_ballot hn).next ((reads_entries hents).next .done))
  | acceptDecide a =>
    obtain ⟨hld, hn, hents⟩ := hmsg
    exact (reads_u8 4).next ((reads_u64 hld).next ((reads_ballot hn).next ((reads_entries hents).next .done)))
  | accepted acc =>
    obtain ⟨hn, hla⟩ := hmsg
    exact (reads_u8 5).next ((reads_ballot hn).next ((reads_u64 hla).next .done))
  | decide d =>
    obtain ⟨hn, hld⟩ := hmsg
    exact (reads_u8 6).next ((reads_ballot hn).next ((reads_u64 hld).next .done))
  | proposalForward entries => exact (reads_u8 7).next ((reads_entries hmsg).next .done)

/-! ### Reconfiguration -/

def ReconfigurationMsg.serialise : ReconfigurationMsg → Bytes
  | .init r => [putU8 1, putU32 r.configId, putU64 r.sender, putU32 r.seqMetadata.configId,
      putU64 r.seqMetadata.len, putList putU64 r.nodes.continuedNodes, putList putU64 r.nodes.newNodes,
      serialiseSkipPrepareUseLeader r.skipPrepareUseLeader].flatten
  | .segmentRequest sr => [putU8 2, putU32 sr.configId, putU64 sr.idx.fromIdx, putU64 sr.idx.toIdx,
      putU64 sr.requestorPid].flatten
  | .segmentTransfer st => [putU8 3, putU32 st.configId, putU8 (if st.succeeded then 1 else 0),
      putU64 st.segment.idx.fromIdx, putU64 st.segment.idx.toIdx, putU32 st.metadata.configId,
      putU64 st.metadata.len, serialiseEntries st.segment.entries].flatten

/-- `ReconfigSer::deserialise`. -/
def ReconfigurationMsg.deserialise : Reader ReconfigurationMsg := do
  match ← getU8 with
  | 1 =>
    let configId ← getU32
    let sender ← getU64
    let seqMetadataConfigId ← getU32
    let seqMetadataLen ← getU64
    let continuedNodes ← getList getU64
    let newNodes ← getList getU64
    let skipPrepareUseLeader ← deserialiseSkipPrepareUseLeader
    return .init ⟨configId, ⟨continuedNodes, newNodes⟩, ⟨seqMetadataConfigId, seqMetadataLen⟩, sender,
      skipPrepareUseLeader⟩
  | 2 =>
    let configId ← getU32
    let fromIdx ← getU64
    let toIdx ← getU64
    let requestorPid ← getU64
    return .segmentRequest ⟨configId, ⟨fromIdx, toIdx⟩, requestorPid⟩
  | 3 =>
    let configId ← getU32
    let succeeded ← getU8
    let fromIdx ← getU64
    let toIdx ← getU64
    let metadataConfigId ← getU32
    let metadataSeqLen ← getU64
    let entries ← deserialiseEntries
    return .segmentTransfer ⟨configId, succeeded = 1, ⟨metadataConfigId, metadataSeqLen⟩,
      ⟨⟨fromIdx, toIdx⟩, entries⟩⟩
  | _ => throw (.invalidType "Found unkown id but expected ReconfigurationMsg")

structure SequenceMetaData.Fits (m : SequenceMetaData) : Prop where
  configId : m.configId < 2 ^ 32
  len : m.len < 2 ^ 64

structure SegmentIndex.Fits (idx : SegmentIndex) : Prop where
  fromIdx : idx.fromIdx < 2 ^ 64
  toIdx : idx.toIdx < 2 ^ 64

def ReconfigurationMsg.Fits : ReconfigurationMsg → Prop
  | .init r => r.configId < 2 ^ 32 ∧ r.sender < 2 ^ 64 ∧ r.seqMetadata.Fits ∧
      FitsNodes r.nodes.continuedNodes ∧ FitsNodes r.nodes.newNodes ∧ FitsLeader r.skipPrepareUseLeader
  | .segmentRequest sr => sr.configId < 2 ^ 32 ∧ sr.idx.Fits ∧ sr.requestorPid < 2 ^ 64
  | .segmentTransfer st => st.configId < 2 ^ 32 ∧ st.metadata.Fits ∧ st.segment.idx.Fits ∧
      FitsEntries st.segment.entries

theorem ReconfigurationMsg.reads (m : ReconfigurationMsg) (h : m.Fits) :
    Reads deserialise m.serialise m := by
  cases m with
  | init r =>
    obtain ⟨hid, hsender, hmeta, hcont, hnew, hleader⟩ := h
    refine (reads_u8 1).next ((reads_u32 hid).next ((reads_u64 hsender).next ?_))
    refine (reads_u32 hmeta.configId).next ((reads_u64 hmeta.len).next ?_)
    refine (reads_nodes hcont).next ((reads_nodes hnew).next ?_)
    exact (reads_skipPrepareUseLeader hleader).next .done
  | segmentRequest sr =>
    obtain ⟨hid, hidx, hreq⟩ := h
    refine (reads_u8 2).next ((reads_u32 hid).next ((reads_u64 hidx.fromIdx).next ?_))
    exact (reads_u64 hidx.toIdx).next ((reads_u64 hreq).next .done)
  | segmentTransfer st =>
    obtain ⟨configId, succeeded, metadata, segment⟩ := st
    obtain ⟨hid, hmeta, hidx, hents⟩ := h
    have hflag : decide ((if succeeded then 1 else 0 : UInt8) = 1) = succeeded := by
      cases succeeded <;> rfl
    refine (reads_u8 3).next ((reads_u32 hid).next ((reads_u8 _).next ?_))
    refine (reads_u64 hidx.fromIdx).next ((reads_u64 hidx.toIdx).next ?_)
    refine (reads_u32 hmeta.configId).next ((reads_u64 hmeta.len).next ?_)
    refine (reads_entries hents).next ?_
    rw [hflag]
    exact .done

/-! ### Clients -/

/-- `ReconfigurationPolicy` on the wire. -/
def serialisePolicy : ReconfigurationPolicy → UInt8
  | .replaceFollower => 2
  | .replaceLeader => 1

def AtomicBroadcastMsg.serialise : AtomicBroadcastMsg → Bytes
  | .proposal p => [putU8 1, putData p.data].flatten
  | .reconfigurationProposal rp => [putU8 4, putU8 (serialisePolicy rp.policy),
      putList putU64 rp.newNodes].flatten
  | .proposalResp data latestLeader leaderRound => [putU8 2, putU64 latestLeader, putU64 leaderRound,
      putData data].flatten
  | .reconfigurationResp latestLeader leaderRound currentConfiguration => [putU8 5,
      putU64 latestLeader, putU64 leaderRound, putList putU64 currentConfiguration].flatten
  | .leader pid round => [putU8 3, putU64 pid, putU64 round].flatten

/-- The error text names one of the two ids twice, as in the code. -/
def deserialisePolicy : Reader ReconfigurationPolicy := do
  match ← getU8 with
  | 2 => return .replaceFollower
  | 1 => return .replaceLeader
  | e => throw (.invalidType
      s!"Found unkown ReconfigurationPolicy id: {e}, but expected 1 or 1")

/-- `AtomicBroadcastDeser::deserialise`. -/
def AtomicBroadcastMsg.deserialise : Reader AtomicBroadcastMsg := do
  match ← getU8 with
  | 1 => return .proposal ⟨← getData⟩
  | 4 =>
    let policy ← deserialisePolicy
    let newNodes ← getList getU64
    return .reconfigurationProposal ⟨policy, newNodes⟩
  | 2 =>
    let latestLeader ← getU64
    let leaderRound ← getU64
    let data ← getData
    return .proposalResp data latestLeader leaderRound
  | 3 =>
    let pid ← getU64
    let round ← getU64
    return .leader pid round
  | 5 =>
    let latestLeader ← getU64
    let leaderRound ← getU64
    let currentConfig ← getList getU64
    return .reconfigurationResp latestLeader leaderRound currentConfig
  | _ => throw (.invalidType "Found unkown id but expected RaftMsg, Proposal or ProposalResp")

def AtomicBroadcastMsg.Fits : AtomicBroadcastMsg → Prop
  | .proposal p => p.data.length < 2 ^ 32
  | .reconfigurationProposal rp => FitsNodes rp.newNodes
  | .proposalResp data latestLeader leaderRound => data.length < 2 ^ 32 ∧ latestLeader < 2 ^ 64 ∧
      leaderRound < 2 ^ 64
  | .reconfigurationResp latestLeader leaderRound currentConfiguration => latestLeader < 2 ^ 64 ∧
      leaderRound < 2 ^ 64 ∧ FitsNodes currentConfiguration
  | .leader pid round => pid < 2 ^ 64 ∧ round < 2 ^ 64

theorem reads_policy (policy : ReconfigurationPolicy) :
    Reads deserialisePolicy (putU8 (serialisePolicy policy)) policy := by
  intro rest
  cases policy <;> rfl

theorem AtomicBroadcastMsg.reads (m : AtomicBroadcastMsg) (h : m.Fits) :
    Reads deserialise m.serialise m := by
  cases m with
  | proposal p => exact (reads_u8 1).next ((reads_data h).next .done)
  | reconfigurationProposal rp =>
    exact (reads_u8 4).next ((reads_policy rp.policy).next ((reads_nodes h).next .done))
  | proposalResp data latestLeader leaderRound =>
    obtain ⟨hdata, hleader, hround⟩ := h
    exact (reads_u8 2).next ((reads_u64 hleader).next ((reads_u64 hround).next ((reads_data hdata).next .done)))
  | reconfigurationResp latestLeader leaderRound currentConfiguration =>
    obtain ⟨hleader, hround, hnodes⟩ := h
    refine (reads_u8 5).next ((reads_u64 hleader).next ((reads_u64 hround).next ?_))
    exact (reads_nodes hnodes).next .done
  | leader pid round =>
    exact (reads_u8 3).next ((reads_u64 h.1).next ((reads_u64 h.2).next .done))

/-! ### All families -/

/-- **The round trip of the three families.** -/
theorem messages_roundTrip :
    RoundTrips PaxosMessage.Fits PaxosMessage.serialise PaxosMessage.deserialise ∧
    RoundTrips ReconfigurationMsg.Fits ReconfigurationMsg.serialise ReconfigurationMsg.deserialise ∧
    RoundTrips AtomicBroadcastMsg.Fits AtomicBroadcastMsg.serialise AtomicBroadcastMsg.deserialise :=
  ⟨roundTrips_of_reads PaxosMessage.reads, roundTrips_of_reads ReconfigurationMsg.reads,
    roundTrips_of_reads AtomicBroadcastMsg.reads⟩

/-- A `Promise` with a proposal and a `StopSign` that names a leader. -/
def promiseWithStopSign : PaxosMessage :=
  ⟨1, 2, .promise ⟨⟨3, 1⟩, ⟨2, 3⟩, [.normal [7, 8], .stopSign ⟨2, [1, 4], some ⟨4, ⟨5, 4⟩⟩⟩], 6, 8⟩⟩

theorem promiseWithStopSign_roundTrip : ∀ rest,
    PaxosMessage.deserialise (promiseWithStopSign.serialise ++ rest) = .ok (promiseWithStopSign, rest) := by
  refine messages_roundTrip.1.1 _ ⟨by decide, by decide, by decide, by decide, ⟨by decide, by decide⟩,
    ⟨by decide, by decide⟩, ⟨by decide, fun e he => ?_⟩⟩
  rcases List.mem_cons.mp he with rfl | he
  · show [7, 8].length < 2 ^ 32
    decide
  · rw [List.mem_singleton.mp he]
    refine ⟨by decide, ⟨by decide, by decide⟩, fun l hl => ?_⟩
    cases hl
    exact ⟨by decide, ⟨by decide, by decide⟩⟩

example : (PaxosMessage.mk 1 2 (.decide ⟨6, ⟨3, 1⟩⟩)).serialise =
    [0, 0, 0, 0, 0, 0, 0, 1, 0, 0, 0, 0, 0, 0, 0, 2, 6, 0, 0, 0, 3, 0, 0, 0, 0, 0, 0, 0, 1,
      0, 0, 0, 0, 0, 0, 0, 6] := by decide

end OmniPaxosBench.OmniPaxos
