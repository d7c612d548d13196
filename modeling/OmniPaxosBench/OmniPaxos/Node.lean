import OmniPaxosBench.OmniPaxos.PaxosComp
import OmniPaxosBench.OmniPaxos.PaxosReplica
import OmniPaxosBench.Lib.Machine

/-! # A node

A node is a `PaxosComp` with its replicas. The messages between the supervisor and a replica arrive in
the order in which they were sent; apart from that every interleaving is possible, and clients, other
nodes and timers can do anything at any time. -/

namespace OmniPaxosBench.OmniPaxos

open LeaderElection OmniPaxosBench.Lib PaxosComp

/-- A proposal that the Paxos of a configuration has rejected. -/
structure Rejection (P : Type) where
  configId : ℕ
  paxos : P
  data : Data

/-- A supervisor and its replicas, by index. -/
structure Node (P S M : Type) where
  comp : PaxosComp S
  replica : ℕ → PaxosReplica P
  started : ℕ → Bool
  /-- The messages to a replica, in order. -/
  inbox : ℕ → List PaxosReplicaMsg
  /-- The messages of a replica to the supervisor, in order. -/
  outbox : ℕ → List (PaxosCompMsg S)
  /-- The proposals rejected so far; no handler reads this. -/
  rejections : List (Rejection P)

/-- What can happen at a node. -/
inductive NodeEvent (S M : Type)
  /-- A client, another node or a timer. -/
  | comp (e : CompEvent S)
  /-- The supervisor handles the next message of a replica. -/
  | supervise (idx : ℕ)
  /-- A replica handles the next message of the supervisor. -/
  | replica (idx : ℕ) (rnds : List ℕ) (prioStartRound : ℕ)
  | timer (idx : ℕ)
  | raw (idx : ℕ) (m : M)
  | peerStop (idx pid : ℕ)
  /-- A leader is indicated to a replica. -/
  | elected (idx : ℕ) (l : Leader)

/-- A node on which no proposals are held back, with any replicas. -/
structure Fresh (P S M : Type) where
  comp : PaxosComp S
  replica : ℕ → PaxosReplica P
  flag : comp.activeConfig.pendingReconfig = false

namespace Node

variable {P S M : Type} [Paxos P S M] (s : Node P S M)

def init (F : Fresh P S M) : Node P S M where
  comp := F.comp
  replica := F.replica
  started _ := false
  inbox _ := []
  outbox _ := []
  rejections := []

/-- Change a replica, if there is one with this index. -/
def onReplica (idx : Option ℕ) (f : PaxosReplica P → PaxosReplica P) : Node P S M :=
  match idx with
  | some idx => { s with replica := Function.update s.replica idx (f (s.replica idx)) }
  | none => s

def markStarted (idx : Option ℕ) : Node P S M :=
  match idx with
  | some idx => { s with started := Function.update s.started idx true }
  | none => s

/-- What the supervisor does to its replicas. -/
def applyOut (s : Node P S M) : CompOut → Node P S M
  | .replica idx m => { s with inbox := Function.update s.inbox idx (s.inbox idx ++ [m]) }
  | .setInitialState configId peers skipPrepareUseLeader =>
    s.onReplica (s.comp.replicaIdx configId) fun p => p.setInitialState configId peers skipPrepareUseLeader
  | .start configId =>
    (s.onReplica (s.comp.replicaIdx configId) PaxosReplica.onStart).markStarted
      (s.comp.replicaIdx configId)
  | _ => s

/-- After a handler of the supervisor. -/
def afterComp (r : After S) : Node P S M := r.2.foldl applyOut { s with comp := r.1 }

/-- The messages to the supervisor among the outputs. -/
def toSupervisor (out : List (ReplicaOut S M)) : List (PaxosCompMsg S) :=
  out.filterMap fun
    | .supervisor m => some m
    | _ => none

/-- After a handler of a replica. -/
def afterReplica (idx : ℕ) (r : PaxosReplica.Result P S M) : Node P S M :=
  { s with
    replica := Function.update s.replica idx r.1
    outbox := Function.update s.outbox idx (s.outbox idx ++ toSupervisor r.2) }

/-- The rejection when a replica handles a message. -/
def rejectionOf (idx : ℕ) : PaxosReplicaMsg → List (Rejection P)
  | .propose proposal =>
    match (s.replica idx).propose proposal.data with
    | .error (.normal _) => [⟨(s.replica idx).configId, (s.replica idx).paxos, proposal.data⟩]
    | _ => []
  | _ => []

/-- Events that do not come from the replicas, and do not initialise the node again. -/
def IsExternal : CompEvent S → Prop
  | .local _ | .init _ _ _ => False
  | _ => True

instance : ∀ e : CompEvent S, Decidable (IsExternal e)
  | .local _ | .init _ _ _ => isFalse id
  | .atomicBroadcast _ | .run | .reconfigInit _ | .segmentRequest _ _ | .segmentTransfer _ _
  | .clientStop | .timeout _ => isTrue trivial

/-- The supervisor handles the first message of a replica. -/
def supervise [SequenceTraits S] (idx : ℕ) : Option (Node P S M) :=
  match s.outbox idx with
  | m :: rest =>
    (s.comp.handle (.local m)).map
      { s with outbox := Function.update s.outbox idx rest }.afterComp
  | [] => none

/-- A replica handles the first message of the supervisor. -/
def receive (idx : ℕ) (rnds : List ℕ) (prioStartRound : ℕ) : Option (Node P S M) :=
  match s.inbox idx with
  | m :: rest =>
    ((s.replica idx).receiveLocal rnds prioStartRound m).map fun r =>
      { s with
        inbox := Function.update s.inbox idx rest
        rejections := s.rejections ++ s.rejectionOf idx m }.afterReplica idx r
  | [] => none

/-- One event; `none` if it cannot happen, or panics. -/
def step [SequenceTraits S] : NodeEvent S M → Option (Node P S M)
  | .comp e => if IsExternal e then (s.comp.handle e).map s.afterComp else none
  | .supervise idx => s.supervise idx
  | .replica idx rnds prioStartRound => if s.started idx then s.receive idx rnds prioStartRound else none
  | .timer idx => if s.started idx then ((s.replica idx).handleTimer).map (s.afterReplica idx) else none
  | .raw idx m => if s.started idx then some (s.afterReplica idx ((s.replica idx).handleRaw m)) else none
  | .peerStop idx pid =>
    if s.started idx then ((s.replica idx).handlePeerStop pid).map (s.afterReplica idx) else none
  | .elected idx l =>
    if s.started idx then some (s.afterReplica idx ((s.replica idx).handleLeader l)) else none

def machine [SequenceTraits S] (F : Fresh P S M) : Machine (Node P S M) (NodeEvent S M) :=
  ⟨init F, fun s e => s.step e⟩

/-! ### What the supervisor does to its replicas -/

variable {s} {idx : ℕ} {r : After S}

/-- The replicas have changed, but nothing of interest. -/
structure Frame (s t : Node P S M) : Prop where
  comp : t.comp = s.comp
  config : ∀ idx, (t.replica idx).configId = (s.replica idx).configId
  outbox : t.outbox = s.outbox
  rejections : t.rejections = s.rejections

section Frame

omit [Paxos P S M]

theorem Frame.refl (s : Node P S M) : Frame s s := ⟨rfl, fun _ => rfl, rfl, rfl⟩

theorem Frame.trans {s t u : Node P S M} (h : Frame s t) (h' : Frame t u) : Frame s u :=
  ⟨h'.comp.trans h.comp, fun idx => (h'.config idx).trans (h.config idx), h'.outbox.trans h.outbox,
    h'.rejections.trans h.rejections⟩

theorem config_update (i : ℕ) {p : PaxosReplica P} (h : p.configId = (s.replica i).configId) (j : ℕ) :
    (Function.update s.replica i p j).configId = (s.replica j).configId := by
  by_cases hj : j = i
  · subst hj; rw [Function.update_self]; exact h
  · rw [Function.update_of_ne hj]

theorem onReplica_frame (s : Node P S M) (idx : Option ℕ) {f : PaxosReplica P → PaxosReplica P}
    (hf : ∀ p, (f p).configId = p.configId) : Frame s (s.onReplica idx f) := by
  cases idx with
  | none => exact Frame.refl s
  | some i => exact ⟨rfl, config_update i (hf _), rfl, rfl⟩

theorem markStarted_frame (s : Node P S M) (idx : Option ℕ) : Frame s (s.markStarted idx) := by
  cases idx with
  | none => exact Frame.refl s
  | some i => exact ⟨rfl, fun _ => rfl, rfl, rfl⟩

end Frame

theorem onStart_configId (p : PaxosReplica P) : p.onStart.configId = p.configId := by
  unfold PaxosReplica.onStart
  split_ifs
  · rfl
  · rfl

theorem applyOut_frame (s : Node P S M) (o : CompOut) : Frame s (s.applyOut o) := by
  cases o with
  | replica => exact ⟨rfl, fun _ => rfl, rfl, rfl⟩
  | setInitialState =>
    unfold applyOut
    exact onReplica_frame s _ fun _ => rfl
  | start => exact (onReplica_frame s _ onStart_configId).trans (markStarted_frame _ _)
  | _ => exact Frame.refl s

theorem foldl_applyOut_frame (out : List CompOut) (s : Node P S M) : Frame s (out.foldl applyOut s) := by
  induction out generalizing s with
  | nil => exact Frame.refl s
  | cons o out ih => exact (applyOut_frame s o).trans (ih (s.applyOut o))

theorem mem_toSupervisor {out : List (ReplicaOut S M)} {m : PaxosCompMsg S} :
    m ∈ toSupervisor out ↔ .supervisor m ∈ out := by
  unfold toSupervisor
  rw [List.mem_filterMap]
  constructor
  · rintro ⟨o, ho, heq⟩
    split at heq
    · cases heq; exact ho
    · cases heq
  · intro hmem
    exact ⟨_, hmem, rfl⟩

end Node

end OmniPaxosBench.OmniPaxos
