import OmniPaxosBench.Lib.Timers
import OmniPaxosBench.MultiPaxos.Util
import OmniPaxosBench.Partition

/-! # Multi-Paxos: the batcher

A batcher collects the proposals of the clients and, whenever its periodic timer is due, sends them
as one batch to the leader of the round it knows. A batch that a leader sends back is kept until the
batcher learns of a round with another leader. Batches for a leader the batcher is disconnected from
are dropped. A handler returns `none` where the code panics (a leader without an actor path).

`handle_spec` is the one fact used later: a batcher makes no proposals up. -/

namespace OmniPaxosBench.MultiPaxos

open OmniPaxosBench.Lib

/-- What a batcher sends. -/
inductive BatcherOut
  | toLeader (pid : ℕ) (m : LeaderInbound)
  deriving DecidableEq, Repr

structure Batcher extends Partition where
  growingBatch : List Proposal
  pendingResendBatches : List (List Proposal)
  leaders : List ℕ
  round : ℕ
  roundSystem : ClassicRoundRobin
  batchTimer : Option (Timer Unit)
  index : ℕ
  /-- The periodic timers that are scheduled and not cancelled. -/
  timers : Timers Unit

/-- What can happen to a batcher. -/
inductive BatcherEvent
  /-- A client's proposal, from the node's own actor (`receive_local`). -/
  | proposal (p : Proposal)
  | inbound (m : BatcherInbound)
  /-- The periodic timer with handle `id` is due. -/
  | timeout (id : ℕ)
  | partition (e : PartitionEvent)
  deriving DecidableEq, Repr

namespace Batcher

/-- `Batcher::with`. -/
def new (index : ℕ) (leaders : List ℕ) : Batcher where
  growingBatch := []
  pendingResendBatches := []
  leaders := leaders
  round := 0
  roundSystem := ⟨leaders.length⟩
  batchTimer := none
  index := index
  timers := .empty

variable (b : Batcher)

def handleNotLeaderBatcher (batch : List Proposal) : Batcher × List BatcherOut :=
  ({ b with pendingResendBatches := b.pendingResendBatches ++ [batch] },
    (b.leaders.filter (· ∉ b.disconnectedPeers)).map fun pid =>
      .toLeader pid (.leaderInfoRequestBatcher b.index))

def handleLeaderInfo (leaderInfoRound : ℕ) : Option (Batcher × List BatcherOut) :=
  if leaderInfoRound ≤ b.round then some (b, [])
  else
    let oldRound := b.round
    let newRound := leaderInfoRound
    let b := { b with round := leaderInfoRound }
    if b.roundSystem.leader oldRound ≠ b.roundSystem.leader newRound then
      let leaderIndex := b.roundSystem.leader newRound
      if leaderIndex ∈ b.disconnectedPeers then some ({ b with pendingResendBatches := [] }, [])
      else if leaderIndex ∈ b.leaders then
        some ({ b with pendingResendBatches := [] },
          b.pendingResendBatches.map fun batch => .toLeader leaderIndex (.clientRequestBatch batch))
      else none
    else some (b, [])

/-- `start_batch_timer`. -/
def startBatchTimer : Batcher :=
  { b with batchTimer := some (b.timers.handle ()), timers := b.timers.schedule () }

/-- The closure of the batch timer. -/
def sendBatch : Option (Batcher × List BatcherOut) :=
  if b.growingBatch = [] then some (b, [])
  else
    let leaderIndex := b.roundSystem.leader b.round
    if leaderIndex ∈ b.disconnectedPeers then some ({ b with growingBatch := [] }, [])
    else if leaderIndex ∈ b.leaders then
      some ({ b with growingBatch := [] },
        [.toLeader leaderIndex (.clientRequestBatch b.growingBatch)])
    else none

/-- `on_start`. -/
def onStart : Batcher := b.startBatchTimer

def receiveNetwork : BatcherInbound → Option (Batcher × List BatcherOut)
  | .notLeaderBatcher batch => some (b.handleNotLeaderBatcher batch)
  | .leaderInfoReplyBatcher l => b.handleLeaderInfo l

/-- One event; `none` if it cannot happen. -/
def handle : BatcherEvent → Option (Batcher × List BatcherOut)
  | .proposal p => some ({ b with growingBatch := b.growingBatch ++ [p] }, [])
  | .inbound m => b.receiveNetwork m
  | .timeout id => (b.timers.callbackOf id).bind fun _ => b.sendBatch
  | .partition e => (b.toPartition.handlePartition e).map fun s => ({ b with toPartition := s }, [])

/-! ### Where proposals come from -/

/-- The proposals a batcher holds. -/
def held : List Proposal := b.growingBatch ++ b.pendingResendBatches.flatten

/-- The proposals in a message to a leader. -/
def sentBy : BatcherOut → List Proposal
  | .toLeader _ (.clientRequestBatch batch) => batch
  | _ => []

/-- The proposals an event brings. -/
def broughtBy : BatcherEvent → List Proposal
  | .proposal p => [p]
  | .inbound (.notLeaderBatcher batch) => batch
  | _ => []

variable {b} {b' : Batcher} {out : List BatcherOut} {e : BatcherEvent} {p : Proposal}

theorem handleLeaderInfo_spec {r : ℕ} (h : b.handleLeaderInfo r = some (b', out))
    (hp : p ∈ b'.held ++ out.flatMap sentBy) : p ∈ b.held := by
  unfold handleLeaderInfo at h
  dsimp only at h
  split_ifs at h
  · cases h; simpa using hp
  · cases h
    simp only [held, List.flatten_nil, List.append_nil, List.flatMap_nil] at hp ⊢
    exact List.mem_append_left _ hp
  · cases h
    have hout : (b.pendingResendBatches.map fun batch => BatcherOut.toLeader
        (b.roundSystem.leader r) (.clientRequestBatch batch)).flatMap sentBy =
        b.pendingResendBatches.flatten := by
      rw [List.flatMap_map, ← List.flatMap_id]
      rfl
    simpa only [held, hout, List.flatten_nil, List.append_nil] using hp
  · cases h; simpa [held] using hp

theorem sendBatch_spec (h : b.sendBatch = some (b', out))
    (hp : p ∈ b'.held ++ out.flatMap sentBy) : p ∈ b.held := by
  unfold sendBatch at h
  dsimp only at h
  split_ifs at h
  · cases h; simpa using hp
  · cases h
    simp only [held, List.nil_append, List.flatMap_nil, List.append_nil] at hp ⊢
    exact List.mem_append_right _ hp
  · cases h
    simp only [held, sentBy, List.nil_append, List.flatMap_cons, List.flatMap_nil,
      List.append_nil] at hp ⊢
    exact List.mem_append.mpr (List.mem_append.mp hp).symm

/-- **A batcher makes nothing up**: what it holds and sends after an event, it held before or got
with the event. -/
theorem handle_spec (h : b.handle e = some (b', out)) (hp : p ∈ b'.held ++ out.flatMap sentBy) :
    p ∈ b.held ∨ p ∈ broughtBy e := by
  cases e with
  | proposal q =>
    cases h
    simp only [held, broughtBy, List.mem_append, List.flatMap_nil, List.not_mem_nil, or_false] at hp ⊢
    tauto
  | inbound m =>
    cases m with
    | notLeaderBatcher batch =>
      cases h
      have hout : ((b.leaders.filter (· ∉ b.disconnectedPeers)).map fun pid => BatcherOut.toLeader pid
          (.leaderInfoRequestBatcher b.index)).flatMap sentBy = [] := by
        simp [List.flatMap_map, sentBy]
      simp only [hout, held, broughtBy, List.flatten_append, List.flatten_cons, List.flatten_nil,
        List.append_nil, List.mem_append] at hp ⊢
      tauto
    | leaderInfoReplyBatcher r => exact Or.inl (handleLeaderInfo_spec h hp)
  | timeout id =>
    obtain ⟨-, -, hs⟩ := Option.bind_eq_some_iff.mp h
    exact Or.inl (sendBatch_spec hs hp)
  | partition pe =>
    obtain ⟨s, -, heq⟩ := Option.map_eq_some_iff.mp h
    cases heq
    exact Or.inl (by simpa [held] using hp)

end Batcher

end OmniPaxosBench.MultiPaxos
