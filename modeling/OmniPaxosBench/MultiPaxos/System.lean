import OmniPaxosBench.MultiPaxos.LeaderHistory
import OmniPaxosBench.MultiPaxos.Replica
import OmniPaxosBench.MultiPaxos.SynodInvariants

/-! # Multi-Paxos: the whole system

`n` nodes, each with a leader, a proxy leader, an acceptor and a replica, all started. The acceptors
and proxy leaders are the `Synod`; here it gets its input from the leaders (`synod_reachable`: the
system refines it). As there, a message that was sent can be delivered any number of times, at any
time or never. Client batches, the indications of the leader election and the requests of batchers
come from outside, at any time.

`Inv` holds in every reachable state: each leader's `History`, and where the messages the components
hold come from. -/

namespace OmniPaxosBench.MultiPaxos

open OmniPaxosBench.Lib

structure System where
  synod : Synod
  leader : ℕ → Leader
  replica : ℕ → Replica
  /-- What each leader has sent. -/
  leaderOuts : ℕ → List LeaderOut
  /-- What each replica has sent. -/
  replicaOuts : ℕ → List ReplicaOut

inductive SystemEvent
  | leader (i : ℕ) (e : LeaderEvent)
  | synod (e : SynodEvent)
  | replica (i : ℕ) (e : ReplicaEvent)
  deriving DecidableEq, Repr

namespace System

def init (n : ℕ) (options : ReplicaOptions) : System where
  synod := Synod.init n
  leader i := (Leader.new i (pids n)).onStart.1
  replica i := Replica.new i options n (pids n)
  leaderOuts i := (Leader.new i (pids n)).onStart.2
  replicaOuts _ := []

variable (n : ℕ) (s : System)

/-- Leader `p` has handed `m` to its proxy leader. -/
def Told (p : ℕ) (m : Phase2a) : Prop := ∃ x ∈ s.leaderOuts p, ∃ o, x = .phase2a o m

instance (p : ℕ) (m : Phase2a) : Decidable (s.Told p m) :=
  @List.decidableBEx _ _ (fun x => match x with
    | .phase2a o m' => decidable_of_iff (m' = m) (by simp)
    | .phase1a _ _ | .toBatcher _ _ | .toClient _ _ => isFalse (by simp)) _

/-- The messages of the events of leader `i` were sent to it. -/
def LeaderInput (i : ℕ) : LeaderEvent → Prop
  | .phase1b m _ => .toLeader i (.phase1b m) ∈ s.synod.acceptorOuts
  | .nack m => .toLeader i (.nack m) ∈ s.synod.acceptorOuts
  | .chosenWatermark m => ∃ j ∈ pids n, .chosenWatermark i m ∈ s.replicaOuts j
  | .recover m => ∃ j ∈ pids n, .recover i m ∈ s.replicaOuts j
  | _ => True

instance (i : ℕ) : ∀ e, Decidable (s.LeaderInput n i e)
  | .phase1b _ _ | .nack _ => inferInstanceAs (Decidable (_ ∈ _))
  | .chosenWatermark _ | .recover _ => inferInstanceAs (Decidable (∃ _ ∈ _, _))
  | .indication _ | .clientRequestBatch _ _ | .leaderInfoRequestBatcher _ _ | .timeout _
  | .partition _ => isTrue trivial

/-- The messages of the events of the acceptors and proxy leaders were sent by the leaders. -/
def SynodInput : SynodEvent → Prop
  | .phase1a a m => ∃ i ∈ pids n, .phase1a a m ∈ s.leaderOuts i
  | .propose p m => s.Told p m
  | _ => True

instance : ∀ e, Decidable (s.SynodInput n e)
  | .phase1a _ _ => inferInstanceAs (Decidable (∃ _ ∈ _, _))
  | .propose p m => inferInstanceAs (Decidable (s.Told p m))
  | .phase2a _ _ | .phase2b _ _ | .acceptorPartition _ _ | .proxyLeaderPartition _ _ => isTrue trivial

/-- The `Chosen` messages replica `i` handles were sent to it. -/
def ReplicaInput (i : ℕ) : ReplicaEvent → Prop
  | .chosen m => ∃ c ∈ s.synod.chosen, c.replica = i ∧ c.chosen = m
  | _ => True

instance (i : ℕ) : ∀ e, Decidable (s.ReplicaInput i e)
  | .chosen _ => inferInstanceAs (Decidable (∃ _ ∈ _, _))
  | .indication _ | .timeout _ | .partition _ => isTrue trivial

/-- Leader `i` has become `l` and sent `out`. -/
def setLeader (i : ℕ) (l : Leader) (out : List LeaderOut) : System :=
  { s with
    leader := Function.update s.leader i l
    leaderOuts := Function.update s.leaderOuts i (s.leaderOuts i ++ out) }

/-- Replica `i` has become `r` and sent `out`. -/
def setReplica (i : ℕ) (r : Replica) (out : List ReplicaOut) : System :=
  { s with
    replica := Function.update s.replica i r
    replicaOuts := Function.update s.replicaOuts i (s.replicaOuts i ++ out) }

/-- One event; `none` if it cannot happen. -/
def step : SystemEvent → Option System
  | .leader i e =>
    if i ∈ pids n ∧ s.LeaderInput n i e then
      ((s.leader i).handle e).map fun (l, out) => s.setLeader i l out
    else none
  | .synod e => if s.SynodInput n e then (s.synod.step n e).map fun t => { s with synod := t } else none
  | .replica i e =>
    if i ∈ pids n ∧ s.ReplicaInput i e then
      ((s.replica i).handle e).map fun (r, out) => s.setReplica i r out
    else none

/-- The system of `n` nodes. -/
def machine (n : ℕ) (options : ReplicaOptions) : Machine System SystemEvent :=
  ⟨init n options, fun s e => s.step n e⟩

variable {n : ℕ} {options : ReplicaOptions} {s t : System} {e : SystemEvent}

section setLeader

variable {i j : ℕ} {l : Leader} {out : List LeaderOut}

theorem leader_setLeader_self : (s.setLeader i l out).leader i = l := Function.update_self ..

theorem leader_setLeader_of_ne (h : j ≠ i) : (s.setLeader i l out).leader j = s.leader j :=
  Function.update_of_ne h ..

theorem leaderOuts_setLeader_self :
    (s.setLeader i l out).leaderOuts i = s.leaderOuts i ++ out := Function.update_self ..

theorem leaderOuts_setLeader_of_ne (h : j ≠ i) :
    (s.setLeader i l out).leaderOuts j = s.leaderOuts j := Function.update_of_ne h ..

theorem mem_leaderOuts_setLeader {x : LeaderOut} : x ∈ (s.setLeader i l out).leaderOuts j ↔
    x ∈ s.leaderOuts j ∨ (j = i ∧ x ∈ out) := by
  by_cases h : j = i
  · subst h; simp [leaderOuts_setLeader_self]
  · simp [leaderOuts_setLeader_of_ne h, h]

end setLeader

/-- The steps, by component. -/
theorem step_cases (h : s.step n e = some t) :
    (∃ i le l out, e = .leader i le ∧ i ∈ pids n ∧ s.LeaderInput n i le ∧
      (s.leader i).handle le = some (l, out) ∧ t = s.setLeader i l out) ∨
    (∃ se u, e = .synod se ∧ s.SynodInput n se ∧ s.synod.step n se = some u ∧
      t = { s with synod := u }) ∨
    (∃ i re r out, e = .replica i re ∧ i ∈ pids n ∧ s.ReplicaInput i re ∧
      (s.replica i).handle re = some (r, out) ∧ t = s.setReplica i r out) := by
  cases e with
  | leader i le =>
    simp only [step] at h
    split_ifs at h with hc
    obtain ⟨⟨l, out⟩, hl, rfl⟩ := Option.map_eq_some_iff.mp h
    exact Or.inl ⟨i, le, l, out, rfl, hc.1, hc.2, hl, rfl⟩
  | synod se =>
    simp only [step] at h
    split_ifs at h with hc
    obtain ⟨u, hu, rfl⟩ := Option.map_eq_some_iff.mp h
    exact Or.inr (Or.inl ⟨se, u, rfl, hc, hu, rfl⟩)
  | replica i re =>
    simp only [step] at h
    split_ifs at h with hc
    obtain ⟨⟨r, out⟩, hr, rfl⟩ := Option.map_eq_some_iff.mp h
    exact Or.inr (Or.inr ⟨i, re, r, out, rfl, hc.1, hc.2, hr, rfl⟩)

/-- **Refinement**: the acceptors and proxy leaders of the system run as a `Synod`. -/
theorem synod_reachable (h : (machine n options).Reachable s) :
    (Synod.machine n).Reachable s.synod := by
  refine Machine.Reachable.map (f := System.synod) rfl (fun s e t hstep => ?_) h
  rcases step_cases hstep with ⟨i, le, l, out, -, -, -, -, rfl⟩ | ⟨se, u, -, -, hu, rfl⟩ |
    ⟨i, re, r, out, -, -, -, -, rfl⟩
  · exact Or.inl rfl
  · exact Or.inr ⟨se, hu⟩
  · exact Or.inl rfl

/-! ### Where messages come from -/

/-- What holds of the answers a leader keeps in phase 1. -/
structure Kept (s : System) (i a : ℕ) (b : Phase1b) : Prop where
  key : b.acceptorIndex = a
  round : b.round = (s.leader i).round
  sent : .toLeader i (.phase1b b) ∈ s.synod.acceptorOuts

structure Inv (n : ℕ) (s : System) : Prop where
  history : ∀ i ∈ pids n, Leader.History n i (s.leader i) (s.leaderOuts i)
  kept : ∀ i ∈ pids n, (s.leader i).state = .phase1 → ∀ a b,
    (s.leader i).phase1bs.lookup a = some b → Kept s i a b
  proposals : ∀ p m, (p, m) ∈ s.synod.proposals → p ∈ pids n ∧ s.Told p m
  promises : ∀ pr ∈ s.synod.promises, ∃ i ∈ pids n, ∃ a, .phase1a a pr.phase1a ∈ s.leaderOuts i

theorem inv_init : Inv n (init n options) := by
  refine ⟨fun i hi => Leader.history_init hi, fun i hi _ a b hb => ?_, fun p m h => ?_, fun pr h => ?_⟩
  · simp [init, Leader.phase1bs_onStart] at hb
  · simp [init, Synod.init] at h
  · simp [init, Synod.init] at h

theorem Told.setLeader {i p : ℕ} {m : Phase2a} {l : Leader} {out : List LeaderOut} (h : s.Told p m) :
    (s.setLeader i l out).Told p m := by
  obtain ⟨x, hx, ho⟩ := h
  exact ⟨x, mem_leaderOuts_setLeader.mpr (Or.inl hx), ho⟩

/-- The answers a leader keeps after a step. -/
theorem Inv.kept_move (h : Inv n s) {i : ℕ} (hi : i ∈ pids n) {e : LeaderEvent} {l : Leader}
    {out : List LeaderOut} (hin : s.LeaderInput n i e) (hm : Leader.Move (s.leader i) e l out)
    (hs : l.state = .phase1) {a : ℕ} {b : Phase1b} (hb : l.phase1bs.lookup a = some b) :
    b.acceptorIndex = a ∧ b.round = l.round ∧ .toLeader i (.phase1b b) ∈ s.synod.acceptorOuts := by
  have hold : l.round = (s.leader i).round → (s.leader i).state = .phase1 →
      (s.leader i).phase1bs.lookup a = some b →
      b.acceptorIndex = a ∧ b.round = l.round ∧ .toLeader i (.phase1b b) ∈ s.synod.acceptorOuts := by
    intro hround hs hb
    obtain ⟨h1, h2, h3⟩ := h.kept i hi hs a b hb
    exact ⟨h1, h2.trans hround.symm, h3⟩
  cases hm with
  | quiet _ _ _ frame round state nextSlot phase1bs => exact hold round (state ▸ hs) (phase1bs ▸ hb)
  | retire _ _ frame round state => rw [state] at hs; cases hs
  | follow m inactive => exact absurd (inactive.symm.trans hs) (by simp)
  | collect m order phase1 same =>
    rw [Leader.insertPhase1b, HashMap.lookup_insert_ite] at hb
    split_ifs at hb with ha
    · cases hb; exact ⟨ha.symm, same, hin⟩
    · exact hold rfl phase1 hb
  | campaign _ _ _ base frame hbase round state watermark phase1bs =>
    rw [phase1bs] at hb; simp at hb
  | complete m order _ _ frame completes enum round state => rw [state] at hs; cases hs
  | propose _ _ origin value cause frame round state nextSlot phase1bs =>
    exact hold round (state ▸ hs) (phase1bs ▸ hb)

theorem Inv.leader_step (h : Inv n s) {i : ℕ} (hi : i ∈ pids n) {e : LeaderEvent} {l : Leader}
    {out : List LeaderOut} (hin : s.LeaderInput n i e) (hm : Leader.Move (s.leader i) e l out) :
    Inv n (s.setLeader i l out) := by
  refine ⟨fun j hj => ?_, fun j hj hs a b hb => ?_, fun p m hp => ?_, fun pr hpr => ?_⟩
  · by_cases hji : j = i
    · subst hji
      rw [leader_setLeader_self, leaderOuts_setLeader_self]
      exact (h.history j hj).move hj hm
    · rw [leader_setLeader_of_ne hji, leaderOuts_setLeader_of_ne hji]
      exact h.history j hj
  · by_cases hji : j = i
    · subst hji
      rw [leader_setLeader_self] at hs hb
      obtain ⟨h1, h2, h3⟩ := h.kept_move hj hin hm hs hb
      exact ⟨h1, by rwa [leader_setLeader_self], h3⟩
    · rw [leader_setLeader_of_ne hji] at hs hb
      obtain ⟨h1, h2, h3⟩ := h.kept j hj hs a b hb
      exact ⟨h1, by rwa [leader_setLeader_of_ne hji], h3⟩
  · obtain ⟨h1, h2⟩ := h.proposals p m hp
    exact ⟨h1, h2.setLeader⟩
  · obtain ⟨j, hj, a, ha⟩ := h.promises pr hpr
    exact ⟨j, hj, a, mem_leaderOuts_setLeader.mpr (Or.inl ha)⟩

/-- What a step of the synod adds to the records the leaders' side depends on. -/
theorem synod_step_records {u v : Synod} {e : SynodEvent} (h : u.step n e = some v) :
    (∀ o ∈ u.acceptorOuts, o ∈ v.acceptorOuts) ∧ (∀ pr ∈ u.promises, pr ∈ v.promises) ∧
    (∀ x ∈ v.proposals, x ∈ u.proposals ∨ ∃ p m, e = .propose p m ∧ x = (p, m) ∧ p ∈ pids n) ∧
    ∀ pr ∈ v.promises, pr ∈ u.promises ∨ ∃ a m, e = .phase1a a m ∧ pr.phase1a = m := by
  cases e with
  | phase1a a m =>
    simp only [Synod.step] at h
    split_ifs at h
    obtain ⟨⟨acc, out⟩, -, rfl⟩ := Option.map_eq_some_iff.mp h
    refine ⟨fun o ho => by simp [ho], fun pr hpr => by simp [hpr], fun x hx => Or.inl hx, fun pr hpr => ?_⟩
    rcases List.mem_append.mp hpr with hpr | hpr
    · exact Or.inl hpr
    · obtain ⟨o, -, ho⟩ := List.mem_filterMap.mp hpr
      split at ho
      · cases ho; exact Or.inr ⟨a, m, rfl, rfl⟩
      · cases ho
  | propose p m =>
    simp only [Synod.step] at h
    split_ifs at h with hp
    cases h
    refine ⟨fun o ho => ho, fun pr hpr => hpr, fun x hx => ?_, fun pr hpr => Or.inl hpr⟩
    rcases List.mem_append.mp hx with hx | hx
    · exact Or.inl hx
    · exact Or.inr ⟨p, m, rfl, List.mem_singleton.mp hx, hp⟩
  | phase2a a m =>
    simp only [Synod.step] at h
    split_ifs at h
    obtain ⟨⟨acc, out⟩, -, rfl⟩ := Option.map_eq_some_iff.mp h
    exact ⟨fun o ho => by simp [ho], fun pr hpr => hpr, fun x hx => Or.inl hx, fun pr hpr => Or.inl hpr⟩
  | phase2b p m =>
    simp only [Synod.step] at h
    split_ifs at h
    cases h
    exact ⟨fun o ho => ho, fun pr hpr => hpr, fun x hx => Or.inl hx, fun pr hpr => Or.inl hpr⟩
  | acceptorPartition a e =>
    obtain ⟨part, -, rfl⟩ := Option.map_eq_some_iff.mp h
    exact ⟨fun o ho => ho, fun pr hpr => hpr, fun x hx => Or.inl hx, fun pr hpr => Or.inl hpr⟩
  | proxyLeaderPartition p e =>
    obtain ⟨part, -, rfl⟩ := Option.map_eq_some_iff.mp h
    exact ⟨fun o ho => ho, fun pr hpr => hpr, fun x hx => Or.inl hx, fun pr hpr => Or.inl hpr⟩

theorem Inv.synod_step (h : Inv n s) {e : SynodEvent} {u : Synod} (hin : s.SynodInput n e)
    (hu : s.synod.step n e = some u) : Inv n { s with synod := u } := by
  obtain ⟨houts, -, hprop, hprom⟩ := synod_step_records hu
  refine ⟨h.history, fun j hj hs a b hb => ?_, fun p m hp => ?_, fun pr hpr => ?_⟩
  · obtain ⟨h1, h2, h3⟩ := h.kept j hj hs a b hb
    exact ⟨h1, h2, houts _ h3⟩
  · rcases hprop _ hp with hp | ⟨p', m', rfl, he, hmem⟩
    · exact h.proposals p m hp
    · cases he; exact ⟨hmem, hin⟩
  · rcases hprom pr hpr with hpr | ⟨a, m, rfl, rfl⟩
    · exact h.promises pr hpr
    · obtain ⟨i, hi, hsent⟩ := hin
      exact ⟨i, hi, a, hsent⟩

theorem Inv.step (h : Inv n s) (hstep : s.step n e = some t) : Inv n t := by
  rcases step_cases hstep with ⟨i, le, l, out, -, hi, hin, hl, rfl⟩ | ⟨se, u, -, hin, hu, rfl⟩ |
    ⟨i, re, r, out, -, -, -, -, rfl⟩
  · exact h.leader_step hi hin (Leader.handle_move ((h.history i hi).one_le hi) hl)
  · exact h.synod_step hin hu
  · exact ⟨h.history, fun j hj hs a b hb => ⟨(h.kept j hj hs a b hb).1, (h.kept j hj hs a b hb).2,
      (h.kept j hj hs a b hb).3⟩, h.proposals, h.promises⟩

theorem inv_of_reachable (h : (machine n options).Reachable s) : Inv n s :=
  h.invariant inv_init fun _ _ _ _ hs hstep => hs.step hstep

end System

end OmniPaxosBench.MultiPaxos
