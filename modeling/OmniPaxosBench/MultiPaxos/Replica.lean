import OmniPaxosBench.Lib.Timers
import OmniPaxosBench.MultiPaxos.Util
import OmniPaxosBench.Partition

/-! # Multi-Paxos: the replica

A replica puts chosen values into its log and executes the log in slot order. Every so many executed
slots one of the replicas tells the leaders how far it is (`ChosenWatermark`), and while there is a
gap in the log a periodic timer asks the leaders for a new election (`Recover`). The handle of that
timer is dropped when it is started, as in the code, so `recoverTimer` stays empty.

`executeLog` runs the loop of the code with as much fuel as the log buffer has entries;
`executeLog_stops` says that this is enough. -/

namespace OmniPaxosBench.MultiPaxos

open OmniPaxosBench.Lib

/-- The options of a replica. A period of zero entries would be a division by zero. -/
structure ReplicaOptions where
  logGrowSize : ℕ
  sendChosenWatermarkEveryNEntries : ℕ
  pos : 0 < sendChosenWatermarkEveryNEntries

/-- What a replica sends. -/
inductive ReplicaOut
  | chosenWatermark (leader : ℕ) (m : ChosenWatermark)
  | recover (leader : ℕ) (m : Recover)
  | toClient (m : ProposalResp)
  deriving DecidableEq, Repr

structure Replica extends Partition where
  index : ℕ
  log : BufferMap
  executedWatermark : ℕ
  numChosen : ℕ
  recoverTimer : Option (Timer Unit)
  options : ReplicaOptions
  numReplicas : ℕ
  leaders : List ℕ
  currentLeader : ℕ
  currentRound : ℕ
  /-- The periodic timers that are scheduled and not cancelled. -/
  timers : Timers Unit

/-- What can happen to a replica. -/
inductive ReplicaEvent
  | chosen (m : Chosen)
  /-- An indication of the leader-election port. -/
  | indication (leader : ℕ)
  /-- The periodic timer with handle `id` is due. -/
  | timeout (id : ℕ)
  | partition (e : PartitionEvent)
  deriving DecidableEq, Repr

namespace Replica

/-- `Replica::with`. -/
def new (pid : ℕ) (options : ReplicaOptions) (numReplicas : ℕ) (leaders : List ℕ) : Replica where
  index := pid
  log := BufferMap.new options.logGrowSize
  executedWatermark := 0
  numChosen := 0
  recoverTimer := none
  options := options
  numReplicas := numReplicas
  leaders := leaders
  currentLeader := leaders.length
  currentRound := 0
  timers := .empty

variable (r : Replica)

/-- The leaders the replica is not disconnected from. -/
def connectedLeaders : List ℕ := r.leaders.filter (· ∉ r.disconnectedPeers)

/-- The replies for the value of a slot. -/
def replies (value : CommandBatchOrNoop) : List ProposalResp :=
  if r.index = r.currentLeader then
    match value with
    | .commandBatch batch => batch.map fun data => ⟨data, r.currentLeader, r.currentRound⟩
    | .noop => []
  else []

/-- The watermark messages after the executed watermark was raised. -/
def announce : List ReplicaOut :=
  let n := r.options.sendChosenWatermarkEveryNEntries
  if r.executedWatermark % n = 0 ∧ r.executedWatermark / n % r.numReplicas = r.index then
    r.connectedLeaders.map fun pid => .chosenWatermark pid ⟨r.executedWatermark⟩
  else []

/-- The loop of `execute_log`: the new state, the watermark messages and the replies. -/
def executeLogLoop : ℕ → Replica → Replica × List ReplicaOut × List ProposalResp
  | 0, r => (r, [], [])
  | fuel + 1, r =>
    match r.log.get r.executedWatermark with
    | none => (r, [], [])
    | some value =>
      let resp := r.replies value
      let r := { r with executedWatermark := r.executedWatermark + 1 }
      let out := r.announce
      let (r, out', resp') := executeLogLoop fuel r
      (r, out ++ out', resp ++ resp')

def executeLog : Replica × List ReplicaOut × List ProposalResp :=
  r.executeLogLoop r.log.buffer.length

/-- The handle of the periodic timer is dropped. -/
def startRecoverTimer : Replica := { r with timers := r.timers.schedule () }

def stopRecoverTimer : Replica :=
  match r.recoverTimer with
  | some t => { r with recoverTimer := none, timers := r.timers.cancel t }
  | none => r

def resetRecoverTimer : Replica := r.stopRecoverTimer.startRecoverTimer

/-- `none` is a panic: the buffer cannot be padded up to the slot. -/
def handleChosen (m : Chosen) : Option (Replica × List ReplicaOut) :=
  let isRecoverTimerRunning := r.numChosen ≠ r.executedWatermark
  let oldExecutedWatermark := r.executedWatermark
  match r.log.get m.slot with
  | some _ => some (r, [])
  | none =>
    (r.log.checkedPut m.slot m.commandBatchOrNoop).map fun log =>
      let r := { r with log := log, numChosen := r.numChosen + 1 }
      let (r, out, clientReplyBatch) := r.executeLog
      let out := out ++ clientReplyBatch.map .toClient
      let shouldRecoverTimerBeRunning := r.numChosen ≠ r.executedWatermark
      let shouldRecoverTimerBeReset := oldExecutedWatermark ≠ r.executedWatermark
      if isRecoverTimerRunning then
        if shouldRecoverTimerBeRunning then
          if shouldRecoverTimerBeReset then (r.resetRecoverTimer, out) else (r, out)
        else (r.stopRecoverTimer, out)
      else if shouldRecoverTimerBeRunning then (r.startRecoverTimer, out)
      else (r, out)

/-- The closure of the recover timer. -/
def recover : List ReplicaOut := r.connectedLeaders.map fun pid => .recover pid ⟨r.executedWatermark⟩

/-- One event; `none` if it cannot happen, or is a panic. -/
def handle : ReplicaEvent → Option (Replica × List ReplicaOut)
  | .chosen m => r.handleChosen m
  | .indication leader => some ({ r with currentLeader := leader }, [])
  | .timeout id => (r.timers.callbackOf id).map fun _ => (r, r.recover)
  | .partition e => (r.toPartition.handlePartition e).map fun s => ({ r with toPartition := s }, [])

/-! ### The loop -/

/-- The buffer holds nothing behind its last entry. -/
theorem get_eq_none_of_length_le {b : BufferMap} {key : ℕ} (h : b.buffer.length ≤ key - b.watermark) :
    b.get key = none := by
  unfold BufferMap.get BufferMap.normalize
  split_ifs
  · simp only [ge_iff_le, h, if_true]
  · rfl

theorem watermark_le_of_get {b : BufferMap} {key : ℕ} {v : CommandBatchOrNoop}
    (h : b.get key = some v) : b.watermark ≤ key := by
  by_contra hlt
  have : ¬ key ≥ b.watermark := hlt
  simp [BufferMap.get, BufferMap.normalize, this] at h

theorem executeLogLoop_stops (fuel : ℕ) (r : Replica)
    (h : r.log.buffer.length ≤ fuel + (r.executedWatermark - r.log.watermark)) :
    (r.executeLogLoop fuel).1.log = r.log ∧
      r.log.get (r.executeLogLoop fuel).1.executedWatermark = none := by
  induction fuel generalizing r with
  | zero => exact ⟨rfl, get_eq_none_of_length_le (h.trans (Nat.zero_add _).le)⟩
  | succ fuel ih =>
    unfold executeLogLoop
    split
    · next hget => exact ⟨rfl, hget⟩
    · next value hget =>
      have hw := watermark_le_of_get hget
      exact ih { r with executedWatermark := r.executedWatermark + 1 } (by dsimp only; omega)

/-- **The loop ends at an empty slot**: the fuel is enough. -/
theorem executeLog_stops (r : Replica) :
    r.executeLog.1.log = r.log ∧ r.log.get r.executeLog.1.executedWatermark = none :=
  executeLogLoop_stops _ r (by omega)

end Replica

end OmniPaxosBench.MultiPaxos
