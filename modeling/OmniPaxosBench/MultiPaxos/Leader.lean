import OmniPaxosBench.Lib.HashMap
import OmniPaxosBench.Lib.Timers
import OmniPaxosBench.MultiPaxos.Util
import OmniPaxosBench.Partition

/-! # Multi-Paxos: the leader

A leader is inactive, in phase 1 of its round or in phase 2. Handlers return the new state and the
messages sent, in the order of the code. Timers are one-shot; their handles are kept where the code
keeps them. `handlePhase1b` takes the order in which the hash map of the answers is iterated, which
the program does not control.

Each `Phase2a` told to the proxy leader carries, besides the message, the place of the code that sent
it (`Origin`); no handler reads it. -/

namespace OmniPaxosBench.MultiPaxos

open OmniPaxosBench.Lib

/-- `State` in `leader.rs`. -/
inductive LeaderState
  | inactive
  | phase1
  | phase2
  deriving DecidableEq, Repr

/-- The closures a leader leaves with the timer. -/
inductive LeaderCallback
  | resendPhase1as (phase1a : Phase1a)
  | noopFlush
  deriving DecidableEq, Repr

/-- The place that sends a `Phase2a`: the recovery loop, a client batch, or the noop-flush timer. -/
inductive Origin
  | recovered
  | clientBatch
  | noopFlush
  deriving DecidableEq, Repr

/-- What a leader sends. `toClient` is the message that announces the leader to the client. -/
inductive LeaderOut
  | phase1a (acceptor : ℕ) (m : Phase1a)
  | phase2a (origin : Origin) (m : Phase2a)
  | toBatcher (pid : ℕ) (m : BatcherInbound)
  | toClient (leader round : ℕ)
  deriving DecidableEq, Repr

structure Leader extends Partition where
  state : LeaderState
  /-- The pid. -/
  index : ℕ
  roundSystem : ClassicRoundRobin
  round : ℕ
  nextSlot : ℕ
  chosenWatermark : ℕ
  majority : ℕ
  acceptors : List ℕ
  phase1bs : HashMap ℕ Phase1b
  pendingClientRequestBatches : List (List Proposal)
  resendPhase1as : Option (Timer LeaderCallback)
  noopFlushTimer : Option (Timer LeaderCallback)
  /-- The timers that are scheduled and not cancelled. -/
  timers : Timers LeaderCallback

/-- What can happen to a leader. -/
inductive LeaderEvent
  /-- An indication of the leader-election port. -/
  | indication (leaderIndex : ℕ)
  /-- `order` is the order in which the hash map of the answers is iterated. -/
  | phase1b (m : Phase1b) (order : List ℕ)
  | nack (m : Nack)
  | chosenWatermark (m : ChosenWatermark)
  | recover (m : Recover)
  | clientRequestBatch (batcher : ℕ) (batch : List Proposal)
  | leaderInfoRequestBatcher (src batcher : ℕ)
  | timeout (id : ℕ)
  | partition (e : PartitionEvent)
  deriving DecidableEq, Repr

namespace Leader

/-- `Leader::with`. -/
def new (pid : ℕ) (acceptors : List ℕ) : Leader :=
  let numLeaders := acceptors.length
  { state := if pid = numLeaders then .phase1 else .phase2
    index := pid
    roundSystem := ⟨numLeaders⟩
    round := ClassicRoundRobin.nextClassicRound ⟨numLeaders⟩ numLeaders 0
    nextSlot := 0
    chosenWatermark := 0
    majority := numLeaders / 2 + 1
    acceptors := acceptors
    phase1bs := ∅
    pendingClientRequestBatches := []
    resendPhase1as := none
    noopFlushTimer := none
    timers := .empty }

/-- The largest slot of a report. -/
def maxPhase1bSlot (phase1b : Phase1b) : Option ℕ := (phase1b.info.map (·.slot)).max?

/-- The value of the highest vote reported for `slot`, and a noop if there is none. -/
def safeValue (phase1bs : List Phase1b) (slot : ℕ) : CommandBatchOrNoop :=
  let slotInfos := (phase1bs.flatMap (·.info)).filter fun x => x.slot = slot
  match maxBy (·.voteRound) slotInfos with
  | none => .noop
  | some x => x.voteValue

variable (l : Leader)

/-- `phase1a` to every acceptor the leader is not disconnected from. -/
def sendPhase1a (phase1a : Phase1a) : List LeaderOut :=
  (l.acceptors.filter (· ∉ l.disconnectedPeers)).map fun pid => .phase1a pid phase1a

def makeResendPhase1asTimer (phase1a : Phase1a) : Leader × Timer LeaderCallback :=
  ({ l with timers := l.timers.schedule (.resendPhase1as phase1a) },
    l.timers.handle (.resendPhase1as phase1a))

def stopResendPhase1as : Leader :=
  match l.resendPhase1as with
  | some t => { l with resendPhase1as := none, timers := l.timers.cancel t }
  | none => l

def makeNoopFlushTimer : Leader × Timer LeaderCallback :=
  ({ l with timers := l.timers.schedule .noopFlush }, l.timers.handle .noopFlush)

def stopNoopFlushTimer : Leader :=
  match l.noopFlushTimer with
  | some t => { l with noopFlushTimer := none, timers := l.timers.cancel t }
  | none => l

/-- Propose `value` in the next slot: the common end of `process_client_request_batch` and of the
noop-flush closure. Neither checks the state beyond an error message in the log. -/
def proposeNext (origin : Origin) (value : CommandBatchOrNoop) : Leader × List LeaderOut :=
  ({ l with nextSlot := l.nextSlot + 1 },
    [.phase2a origin ⟨l.index, l.nextSlot, l.round, value⟩])

def processClientRequestBatch (batch : List Proposal) : Leader × List LeaderOut :=
  l.proposeNext .clientBatch (.commandBatch (batch.map (·.data)))

/-- The closure of `make_noop_flush_timer`. -/
def noopFlush : Leader × List LeaderOut := l.proposeNext .noopFlush .noop

/-- `start_phase1`; the caller sets the state. -/
def startPhase1 (round chosenWatermark : ℕ) : Leader × List LeaderOut :=
  let phase1a : Phase1a := ⟨l.index, round, chosenWatermark⟩
  let out := l.sendPhase1a phase1a
  let l := { l with pendingClientRequestBatches := [] }
  let (l, timer) := l.makeResendPhase1asTimer phase1a
  ({ l with resendPhase1as := some timer, phase1bs := ∅ }, out)

/-- Move to the next own round and start phase 1 there: the end of each branch of `leader_change` in
which the node is the new leader. -/
def campaign : Leader × List LeaderOut :=
  let l := { l with round := l.roundSystem.nextClassicRound l.index l.round }
  let (l, out) := l.startPhase1 l.round l.chosenWatermark
  ({ l with state := .phase1 }, out)

def leaderChange (isNewLeader : Bool) : Leader × List LeaderOut :=
  match l.state, isNewLeader with
  | .inactive, false => (l, [])
  | .phase1, false => ({ l.stopResendPhase1as with state := .inactive }, [])
  | .phase2, false => ({ l.stopNoopFlushTimer with state := .inactive }, [])
  | .inactive, true => l.campaign
  | .phase1, true => l.stopResendPhase1as.campaign
  | .phase2, true => l.stopNoopFlushTimer.campaign

/-- Process a list of batches in order. -/
def processClientRequestBatches : Leader → List (List Proposal) → Leader × List LeaderOut
  | l, [] => (l, [])
  | l, b :: bs =>
    let (l, out) := l.processClientRequestBatch b
    let (l, out') := processClientRequestBatches l bs
    (l, out ++ out')

/-- The largest slot any of the answers reports. -/
def maxSlot (values : List Phase1b) : Option ℕ := (values.map maxPhase1bSlot).foldl max none

/-- Propose safe values from the watermark to the largest reported slot. -/
def recoverSlots (values : List Phase1b) : Leader × List LeaderOut :=
  match maxSlot values with
  | some maxSlot =>
    ({ l with nextSlot := maxSlot + 1 },
      (List.range' l.chosenWatermark (maxSlot + 1 - l.chosenWatermark)).map fun slot =>
        .phase2a .recovered ⟨l.index, slot, l.round, safeValue values slot⟩)
  | none => (l, [])

/-- The end of phase 1, up to the entry into phase 2. The handle of the new noop-flush timer is
dropped, as in the code. -/
def enterPhase2 (values : List Phase1b) : Leader × List LeaderOut :=
  let notes := [.toBatcher l.index (.leaderInfoReplyBatcher l.round), .toClient l.index l.round]
  let (l, recovered) := l.recoverSlots values
  let l := l.stopResendPhase1as
  let l := { l with state := .phase2 }
  let (l, _) := l.makeNoopFlushTimer
  (l, notes ++ recovered)

/-- Add an answer to the answers of phase 1. -/
def insertPhase1b (m : Phase1b) : Leader :=
  { l with phase1bs := l.phase1bs.insert m.acceptorIndex m }

/-- The answer `m` completes phase 1. -/
def Completes (m : Phase1b) : Prop :=
  l.state = .phase1 ∧ m.round = l.round ∧ l.majority ≤ HashMap.len (l.insertPhase1b m).phase1bs

instance (m : Phase1b) : Decidable (l.Completes m) := inferInstanceAs (Decidable (_ ∧ _ ∧ _))

def handlePhase1b (m : Phase1b) (order : List ℕ) : Option (Leader × List LeaderOut) :=
  match l.state with
  | .inactive | .phase2 => some (l, [])
  | .phase1 =>
    if m.round ≠ l.round then some (l, [])
    else
      let l := l.insertPhase1b m
      if HashMap.len l.phase1bs < l.majority then some (l, [])
      else if HashMap.Enumerates order l.phase1bs then
        let (l, out) := l.enterPhase2 (HashMap.valuesIn l.phase1bs order)
        let pending := l.pendingClientRequestBatches
        let (l, out') := { l with pendingClientRequestBatches := [] }.processClientRequestBatches pending
        some (l, out ++ out')
      else none

def handleClientRequestBatch (batcher : ℕ) (batch : List Proposal) : Leader × List LeaderOut :=
  match l.state with
  | .inactive => (l, [.toBatcher batcher (.notLeaderBatcher batch)])
  | .phase1 =>
    ({ l with pendingClientRequestBatches := l.pendingClientRequestBatches ++ [batch] }, [])
  | .phase2 => l.processClientRequestBatch batch

def handleLeaderInfoRequestBatcher (src batcher : ℕ) : List LeaderOut :=
  if src ∈ l.disconnectedPeers then []
  else match l.state with
    | .inactive => []
    | _ => [.toBatcher batcher (.leaderInfoReplyBatcher l.round)]

def handleNack (m : Nack) : Leader × List LeaderOut :=
  if m.round ≤ l.round then (l, [])
  else match l.state with
    | .inactive => ({ l with round := m.round }, [])
    | .phase1 | .phase2 =>
      { l with round := l.roundSystem.nextClassicRound l.index m.round }.leaderChange true

def handleChosenWatermark (m : ChosenWatermark) : Leader :=
  { l with chosenWatermark := max l.chosenWatermark m.slot }

def handleRecover (_ : Recover) : Leader × List LeaderOut :=
  match l.state with
  | .inactive => (l, [])
  | .phase1 | .phase2 => l.leaderChange true

/-- `on_start`. -/
def onStart : Leader × List LeaderOut :=
  if l.state = .phase1 then l.startPhase1 l.round l.chosenWatermark else (l, [])

/-- A scheduled closure runs. -/
def handleTimeout (id : ℕ) : Option (Leader × List LeaderOut) :=
  (l.timers.fire id).map fun (callback, timers) =>
    let l := { l with timers := timers }
    match callback with
    | .resendPhase1as phase1a => (l, l.sendPhase1a phase1a)
    | .noopFlush => l.noopFlush

/-- One event; `none` if it cannot happen. -/
def handle : LeaderEvent → Option (Leader × List LeaderOut)
  | .indication leaderIndex => some (l.leaderChange (leaderIndex = l.index))
  | .phase1b m order => l.handlePhase1b m order
  | .nack m => some (l.handleNack m)
  | .chosenWatermark m => some (l.handleChosenWatermark m, [])
  | .recover m => some (l.handleRecover m)
  | .clientRequestBatch batcher batch => some (l.handleClientRequestBatch batcher batch)
  | .leaderInfoRequestBatcher src batcher => some (l, l.handleLeaderInfoRequestBatcher src batcher)
  | .timeout id => l.handleTimeout id
  | .partition e => (l.toPartition.handlePartition e).map fun s => ({ l with toPartition := s }, [])

/-- A report of a slot in a list of answers. -/
theorem mem_slotInfos {values : List Phase1b} {slot : ℕ} {i : Phase1bSlotInfo} :
    i ∈ (values.flatMap (·.info)).filter (fun x => x.slot = slot) ↔
      (∃ b ∈ values, i ∈ b.info) ∧ i.slot = slot := by
  simp [List.mem_filter]

/-- **The safe value** of a slot that is reported is that of a report with the highest round. -/
theorem safeValue_reported {values : List Phase1b} {slot : ℕ}
    (h : ∃ b ∈ values, ∃ i ∈ b.info, i.slot = slot) :
    ∃ b ∈ values, ∃ i ∈ b.info, i.slot = slot ∧ safeValue values slot = i.voteValue ∧
      ∀ b' ∈ values, ∀ i' ∈ b'.info, i'.slot = slot → i'.voteRound ≤ i.voteRound := by
  unfold safeValue
  dsimp only
  split
  · next hnone =>
    obtain ⟨b, hb, i, hi, hs⟩ := h
    have hmem := mem_slotInfos.mpr ⟨⟨b, hb, hi⟩, hs⟩
    rw [maxBy_eq_none.mp hnone] at hmem
    cases hmem
  · next x hx =>
    obtain ⟨hmem, hmax⟩ := maxBy_eq_some hx
    obtain ⟨⟨b, hb, hi⟩, hs⟩ := mem_slotInfos.mp hmem
    refine ⟨b, hb, x, hi, hs, rfl, fun b' hb' i' hi' hs' => ?_⟩
    exact hmax i' (mem_slotInfos.mpr ⟨⟨b', hb', hi'⟩, hs'⟩)

end Leader

end OmniPaxosBench.MultiPaxos
