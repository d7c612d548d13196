import OmniPaxosBench.Lib.HashMap
import OmniPaxosBench.MultiPaxos.Messages
import OmniPaxosBench.Partition

/-! # Multi-Paxos: the proxy leader

A proxy leader broadcasts each `Phase2a` it is handed, once per slot and round, and counts the
acceptors that answer. At a majority it tells the replicas that the value is chosen and forgets the
slot and round (`done`). -/

namespace OmniPaxosBench.MultiPaxos

open OmniPaxosBench.Lib

structure SlotRound where
  slot : ℕ
  round : ℕ
  deriving DecidableEq, Repr

structure Pending where
  phase2a : Phase2a
  phase2bs : HashMap ℕ Phase2b

/-- What is known of a slot and round (`State` in `proxy_leader.rs`). -/
inductive ProxyState
  | pending (p : Pending)
  | done

structure ProxyLeader extends Partition where
  acceptors : List ℕ
  replicas : List ℕ
  states : HashMap SlotRound ProxyState
  majority : ℕ

namespace ProxyLeader

/-- `ProxyLeader::with`. -/
def new (acceptors replicas : List ℕ) : ProxyLeader where
  acceptors := acceptors
  replicas := replicas
  states := ∅
  majority := acceptors.length / 2 + 1

variable (p : ProxyLeader)

/-- The pids of a list the proxy leader is not disconnected from. -/
def connected (pids : List ℕ) : List ℕ := pids.filter (· ∉ p.disconnectedPeers)

/-- Insert the state of a slot and round. -/
def setState (slotround : SlotRound) (st : ProxyState) : ProxyLeader :=
  { p with states := p.states.insert slotround st }

def handlePhase2a (m : Phase2a) : ProxyLeader × List (ℕ × Phase2a) :=
  match p.states.lookup ⟨m.slot, m.round⟩ with
  | some _ => (p, [])
  | none =>
    (p.setState ⟨m.slot, m.round⟩ (.pending ⟨m, ∅⟩),
      (p.connected p.acceptors).map fun pid => (pid, m))

def handlePhase2b (m : Phase2b) : ProxyLeader × List (ℕ × Chosen) :=
  match p.states.lookup ⟨m.slot, m.round⟩ with
  | none => (p, [])
  | some .done => (p, [])
  | some (.pending pending) =>
    let phase2bs := pending.phase2bs.insert m.acceptorIndex m
    if HashMap.len phase2bs < p.majority then
      (p.setState ⟨m.slot, m.round⟩ (.pending ⟨pending.phase2a, phase2bs⟩), [])
    else
      (p.setState ⟨m.slot, m.round⟩ .done,
        (p.connected p.replicas).map fun pid => (pid, ⟨m.slot, pending.phase2a.commandBatchOrNoop⟩))

variable {p}

theorem lookup_setState {k k' : SlotRound} {st : ProxyState} :
    (p.setState k st).states.lookup k' = if k' = k then some st else p.states.lookup k' :=
  HashMap.lookup_insert_ite

/-- A `Phase2a` is ignored if its slot and round are known, and otherwise becomes pending. -/
theorem handlePhase2a_cases (p : ProxyLeader) (m : Phase2a) :
    p.handlePhase2a m = (p, []) ∨
      (p.states.lookup ⟨m.slot, m.round⟩ = none ∧
        p.handlePhase2a m = (p.setState ⟨m.slot, m.round⟩ (.pending ⟨m, ∅⟩),
          (p.connected p.acceptors).map fun pid => (pid, m))) := by
  unfold handlePhase2a
  split
  · exact Or.inl rfl
  · next h => exact Or.inr ⟨h, rfl⟩

/-- A `Phase2b` is ignored, or counted, or completes the majority. -/
theorem handlePhase2b_cases (p : ProxyLeader) (m : Phase2b) :
    p.handlePhase2b m = (p, []) ∨
      ∃ pending, p.states.lookup ⟨m.slot, m.round⟩ = some (.pending pending) ∧
        (p.handlePhase2b m = (p.setState ⟨m.slot, m.round⟩
            (.pending ⟨pending.phase2a, pending.phase2bs.insert m.acceptorIndex m⟩), []) ∨
          (p.majority ≤ HashMap.len (pending.phase2bs.insert m.acceptorIndex m) ∧
            p.handlePhase2b m = (p.setState ⟨m.slot, m.round⟩ .done,
              (p.connected p.replicas).map fun pid =>
                (pid, ⟨m.slot, pending.phase2a.commandBatchOrNoop⟩)))) := by
  unfold handlePhase2b
  split
  · exact Or.inl rfl
  · exact Or.inl rfl
  · next pending h =>
    refine Or.inr ⟨pending, h, ?_⟩
    dsimp only
    split_ifs with hlt
    · exact Or.inl rfl
    · exact Or.inr ⟨not_lt.mp hlt, rfl⟩

end ProxyLeader

end OmniPaxosBench.MultiPaxos
