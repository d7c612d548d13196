import Mathlib.Data.List.Basic

/-! # Simulated partitions

Every component keeps a list of peers it pretends to be disconnected from. `disconnectPeers` sets it
at once, or leaves a closure with the timer that sets or extends it later; a lagging peer is cut off
at once and the others later. `recoverPeers` clears the list and leaves the scheduled closures
alone. The code is the same in all components, so it is modelled once and each component's state
extends `Partition`. -/

namespace OmniPaxosBench

/-- The closures `disconnect_peers` leaves with the timer. -/
inductive Delayed
  /-- Push the peers, one by one (the lagging-peer branch). -/
  | push (peers : List ℕ)
  /-- Overwrite the list (the delayed branch). -/
  | assign (peers : List ℕ)
  deriving DecidableEq, Repr

/-- The peers a component pretends to be disconnected from, and the closures still scheduled. -/
structure Partition where
  disconnectedPeers : List ℕ := []
  delayed : List Delayed := []
  deriving DecidableEq, Repr

/-- What can happen to the list of disconnected peers. -/
inductive PartitionEvent
  | disconnectPeers (peers : List ℕ) (delay : Bool) (laggingPeer : Option ℕ)
  | recoverPeers
  /-- The `i`-th scheduled closure runs. -/
  | fireDelayed (i : ℕ)
  deriving DecidableEq, Repr

namespace Partition

variable (s : Partition)

/-- `disconnect_peers`. -/
def disconnectPeers (peers : List ℕ) (delay : Bool) (laggingPeer : Option ℕ) : Partition :=
  match laggingPeer with
  | some lp =>
    { s with disconnectedPeers := s.disconnectedPeers ++ [lp], delayed := s.delayed ++ [.push peers] }
  | none =>
    if delay then { s with delayed := s.delayed ++ [.assign peers] }
    else { s with disconnectedPeers := peers }

/-- `recover_peers`. -/
def recoverPeers : Partition := { s with disconnectedPeers := [] }

/-- A scheduled closure runs. -/
def fireDelayed (i : ℕ) : Option Partition :=
  (s.delayed[i]?).map fun d =>
    { disconnectedPeers := match d with
        | .push peers => s.disconnectedPeers ++ peers
        | .assign peers => peers
      delayed := s.delayed.eraseIdx i }

/-- One event of the simulated partition. -/
def handlePartition : PartitionEvent → Option Partition
  | .disconnectPeers peers delay laggingPeer => some (s.disconnectPeers peers delay laggingPeer)
  | .recoverPeers => some s.recoverPeers
  | .fireDelayed i => s.fireDelayed i

end Partition

end OmniPaxosBench
