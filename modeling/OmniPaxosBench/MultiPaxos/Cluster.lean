import OmniPaxosBench.MultiPaxos.Batcher
import OmniPaxosBench.MultiPaxos.LeaderCustody
import OmniPaxosBench.MultiPaxos.Validity
import Mathlib.Data.List.Perm.Subperm

/-! # Multi-Paxos: the system with its batchers

Here the client batches and the requests of the batchers, which come from outside in `System`, come
from a batcher on each node, and the proposals come from outside (`system_reachable`: the cluster
refines the system). As there, a message that was sent can be delivered any number of times, at any
time or never. `received` and `proposed` are histories that no component reads.

`Inv` has two parts. What a leader has pending, has proposed and has sent back are batches it has
received, each of them once (`custody`). The other fields follow the proposals around the loop of
batchers and leaders. -/

namespace OmniPaxosBench.MultiPaxos

open OmniPaxosBench.Lib

structure Cluster where
  system : System
  batcher : ℕ → Batcher
  /-- What each batcher has sent. -/
  batcherOuts : ℕ → List BatcherOut
  /-- The `ClientRequestBatch`es each leader has received, one entry for each delivery. -/
  received : ℕ → List (List Proposal)
  /-- The proposals each batcher has received. -/
  proposed : ℕ → List Proposal

inductive ClusterEvent
  | system (e : SystemEvent)
  | batcher (i : ℕ) (e : BatcherEvent)
  deriving DecidableEq, Repr

namespace Cluster

def init (n : ℕ) (options : ReplicaOptions) : Cluster where
  system := System.init n options
  batcher i := (Batcher.new i (pids n)).onStart
  batcherOuts _ := []
  received _ := []
  proposed _ := []

variable (n : ℕ) (s : Cluster)

/-- The messages the leaders get from batchers were sent to them. -/
def SystemInput : SystemEvent → Prop
  | .leader i (.clientRequestBatch b batch) =>
    b ∈ pids n ∧ .toLeader i (.clientRequestBatch batch) ∈ s.batcherOuts b
  | .leader i (.leaderInfoRequestBatcher src b) =>
    b ∈ pids n ∧ .toLeader i (.leaderInfoRequestBatcher src) ∈ s.batcherOuts b
  | _ => True

instance : ∀ e, Decidable (s.SystemInput n e)
  | .leader _ (.clientRequestBatch _ _) => inferInstanceAs (Decidable (_ ∧ _))
  | .leader _ (.leaderInfoRequestBatcher _ _) => inferInstanceAs (Decidable (_ ∧ _))
  | .leader _ (.indication _) | .leader _ (.phase1b _ _) | .leader _ (.nack _)
  | .leader _ (.chosenWatermark _) | .leader _ (.recover _) | .leader _ (.timeout _)
  | .leader _ (.partition _) | .synod _ | .replica _ _ => isTrue trivial

/-- The messages batcher `i` gets from leaders were sent to it. -/
def BatcherInput (i : ℕ) : BatcherEvent → Prop
  | .inbound m => ∃ j ∈ pids n, .toBatcher i m ∈ s.system.leaderOuts j
  | _ => True

instance (i : ℕ) : ∀ e, Decidable (s.BatcherInput n i e)
  | .inbound _ => inferInstanceAs (Decidable (∃ _ ∈ _, _))
  | .proposal _ | .timeout _ | .partition _ => isTrue trivial

/-- The batches an event delivers to leader `i`. -/
def deliveredTo (i : ℕ) : SystemEvent → List (List Proposal)
  | .leader j e => if j = i then Leader.givenBy e else []
  | _ => []

/-- The proposal an event brings to a batcher. -/
def proposedBy : BatcherEvent → List Proposal
  | .proposal p => [p]
  | _ => []

/-- Batcher `i` has become `b`, has sent `out` and was brought `ps`. -/
def setBatcher (i : ℕ) (b : Batcher) (out : List BatcherOut) (ps : List Proposal) : Cluster :=
  { s with
    batcher := Function.update s.batcher i b
    batcherOuts := Function.update s.batcherOuts i (s.batcherOuts i ++ out)
    proposed := Function.update s.proposed i (s.proposed i ++ ps) }

/-- One event; `none` if it cannot happen. -/
def step : ClusterEvent → Option Cluster
  | .system e =>
    if s.SystemInput n e then
      (s.system.step n e).map fun t =>
        { s with system := t, received := fun i => s.received i ++ deliveredTo i e }
    else none
  | .batcher i e =>
    if i ∈ pids n ∧ s.BatcherInput n i e then
      ((s.batcher i).handle e).map fun (b, out) => s.setBatcher i b out (proposedBy e)
    else none

/-- The `n` nodes with their batchers. -/
def machine (n : ℕ) (options : ReplicaOptions) : Machine Cluster ClusterEvent :=
  ⟨init n options, fun s e => s.step n e⟩

/-- The batches leader `i` has assigned to slots, one entry for each assignment. -/
def assigned (i : ℕ) : List (List Proposal) := (s.system.leaderOuts i).filterMap Leader.carriedBy

variable {n : ℕ} {options : ReplicaOptions} {s t : Cluster} {e : ClusterEvent}

/-- The steps, by side. -/
theorem step_cases (h : s.step n e = some t) :
    (∃ se u, e = .system se ∧ s.SystemInput n se ∧ s.system.step n se = some u ∧
      t = { s with system := u, received := fun i => s.received i ++ deliveredTo i se }) ∨
    (∃ i be b out, e = .batcher i be ∧ i ∈ pids n ∧ s.BatcherInput n i be ∧
      (s.batcher i).handle be = some (b, out) ∧ t = s.setBatcher i b out (proposedBy be)) := by
  cases e with
  | system se =>
    simp only [step] at h
    split_ifs at h with hc
    obtain ⟨u, hu, rfl⟩ := Option.map_eq_some_iff.mp h
    exact Or.inl ⟨se, u, rfl, hc, hu, rfl⟩
  | batcher i be =>
    simp only [step] at h
    split_ifs at h with hc
    obtain ⟨⟨b, out⟩, hb, rfl⟩ := Option.map_eq_some_iff.mp h
    exact Or.inr ⟨i, be, b, out, rfl, hc.1, hc.2, hb, rfl⟩

/-- **Refinement**: without its batchers the cluster runs as the system. -/
theorem system_reachable (h : (machine n options).Reachable s) :
    (System.machine n options).Reachable s.system := by
  refine Machine.Reachable.map (f := Cluster.system) rfl (fun s e t hstep => ?_) h
  rcases step_cases hstep with ⟨se, u, -, -, hu, rfl⟩ | ⟨i, be, b, out, -, -, -, -, rfl⟩
  · exact Or.inr ⟨se, hu⟩
  · exact Or.inl rfl

/-! ### Where the proposals come from -/

/-- A batcher has received the proposal. -/
def Proposed (n : ℕ) (s : Cluster) (p : Proposal) : Prop := ∃ i ∈ pids n, p ∈ s.proposed i

structure Inv (n : ℕ) (s : Cluster) : Prop where
  custody : ∀ i, ((s.system.leader i).inCustody (s.system.leaderOuts i)).Subperm (s.received i)
  received : ∀ i, ∀ batch ∈ s.received i, ∀ p ∈ batch, s.Proposed n p
  held : ∀ i, ∀ p ∈ (s.batcher i).held, s.Proposed n p
  sent : ∀ i, ∀ p ∈ (s.batcherOuts i).flatMap Batcher.sentBy, s.Proposed n p

theorem inv_init : Inv n (init n options) := by
  refine ⟨fun i => ?_, by simp [init], ?_, by simp [init]⟩
  · have hnone : (Leader.new i (pids n)).onStart.1.inCustody (Leader.new i (pids n)).onStart.2 = [] :=
      List.nil_perm.mp (@Custody.kept_init i (pids n))
    exact (congrArg (List.Subperm · []) hnone).mpr (List.Subperm.refl [])
  · simp [init, Batcher.onStart, Batcher.startBatchTimer, Batcher.new, Batcher.held]

theorem Proposed.setBatcher {i : ℕ} {b : Batcher} {out : List BatcherOut} {ps : List Proposal}
    {p : Proposal} (h : s.Proposed n p) : (s.setBatcher i b out ps).Proposed n p := by
  obtain ⟨j, hj, hp⟩ := h
  refine ⟨j, hj, ?_⟩
  by_cases hji : j = i
  · subst hji
    simp only [Cluster.setBatcher, Function.update_self]
    exact List.mem_append_left _ hp
  · simpa only [Cluster.setBatcher, Function.update_of_ne hji] using hp

/-- An event of a leader: what it has in custody afterwards, it had before or got with the event. -/
theorem custody_step {l l' : Leader} {le : LeaderEvent} {sent out : List LeaderOut}
    {given : List (List Proposal)} (hc : (l.inCustody sent).Subperm given)
    (hl : l.handle le = some (l', out)) :
    (l'.inCustody (sent ++ out)).Subperm (given ++ Leader.givenBy le) := by
  have happ := Leader.inCustody_append l' sent out
  by_cases hr : l.Restarts le
  · -- the pending batches are gone, the others are where they were
    obtain ⟨h1, h2⟩ := Leader.handle_of_restarts hr hl
    rw [h1, List.nil_append] at happ
    rw [h2, List.append_nil]
    refine happ.subperm.trans (List.Subperm.trans ?_ hc)
    exact (List.sublist_append_right _ _).subperm
  · have hnew := Leader.handle_custody hr hl
    have hold : (l'.inCustody (sent ++ out)).Perm (Leader.givenBy le ++ l.inCustody sent) := by
      refine happ.trans ?_
      refine (hnew.append_right _).trans ?_
      rw [List.append_assoc]
      exact List.Perm.refl _
    refine hold.subperm.trans ?_
    exact ((List.perm_append_comm).subperm).trans ((List.subperm_append_right _).mpr hc)

/-- A step of an acceptor, a proxy leader or a replica. -/
theorem Inv.other_step (h : Inv n s) {se : SystemEvent} {u : System}
    (hleader : u.leader = s.system.leader) (houts : u.leaderOuts = s.system.leaderOuts)
    (hnone : ∀ i, deliveredTo i se = []) :
    Inv n { s with system := u, received := fun i => s.received i ++ deliveredTo i se } := by
  refine ⟨fun i => ?_, fun i batch hb => ?_, h.held, h.sent⟩
  · simp only [hleader, houts, hnone, List.append_nil]
    exact h.custody i
  · simp only [hnone, List.append_nil] at hb
    exact h.received i batch hb

theorem Inv.system_step (h : Inv n s) {se : SystemEvent} {u : System} (hin : s.SystemInput n se)
    (hu : s.system.step n se = some u) :
    Inv n { s with system := u, received := fun i => s.received i ++ deliveredTo i se } := by
  rcases System.step_cases hu with ⟨i, le, l, out, rfl, -, -, hl, rfl⟩ | ⟨e, v, rfl, -, -, rfl⟩ |
    ⟨i, re, r, out, rfl, -, -, -, rfl⟩
  · refine ⟨fun j => ?_, fun j batch hb p hp => ?_, h.held, h.sent⟩
    · by_cases hji : j = i
      · subst hji
        simp only [System.leader_setLeader_self, System.leaderOuts_setLeader_self, deliveredTo, if_true]
        exact custody_step (h.custody j) hl
      · simp only [System.leader_setLeader_of_ne hji, System.leaderOuts_setLeader_of_ne hji,
          deliveredTo, if_neg (Ne.symm hji), List.append_nil]
        exact h.custody j
    · rcases List.mem_append.mp hb with hb | hb
      · exact h.received j batch hb p hp
      · -- the batch was sent by a batcher
        simp only [deliveredTo] at hb
        split_ifs at hb
        · cases le with
          | clientRequestBatch b batch' =>
            obtain rfl := List.mem_singleton.mp hb
            exact h.sent b p (List.mem_flatMap.mpr ⟨_, hin.2, hp⟩)
          | _ => cases hb
        · cases hb
  · exact h.other_step rfl rfl fun _ => rfl
  · exact h.other_step rfl rfl fun _ => rfl

/-- What an event brings to a batcher was proposed: by a client just now, or it comes back from a
leader that had received it. -/
theorem Inv.brought (h : Inv n s) {i : ℕ} {be : BatcherEvent} {b : Batcher} {out : List BatcherOut}
    (hi : i ∈ pids n) (hin : s.BatcherInput n i be) {p : Proposal} (hp : p ∈ Batcher.broughtBy be) :
    (s.setBatcher i b out (proposedBy be)).Proposed n p := by
  cases be with
  | proposal q =>
    obtain rfl := List.mem_singleton.mp hp
    refine ⟨i, hi, ?_⟩
    simp only [setBatcher, Function.update_self, proposedBy]
    exact List.mem_append_right _ (List.mem_singleton.mpr rfl)
  | inbound m =>
    cases m with
    | notLeaderBatcher batch =>
      obtain ⟨j, -, hsent⟩ := hin
      have hback : batch ∈ (s.system.leader j).inCustody (s.system.leaderOuts j) := by
        refine List.mem_append_right _ (List.mem_append_right _ ?_)
        exact List.mem_filterMap.mpr ⟨_, hsent, rfl⟩
      exact (h.received j batch ((h.custody j).subset hback) p hp).setBatcher
    | leaderInfoReplyBatcher r => cases hp
  | timeout id => cases hp
  | partition pe => cases hp

theorem Inv.batcher_step (h : Inv n s) {i : ℕ} {be : BatcherEvent} {b : Batcher}
    {out : List BatcherOut} (hi : i ∈ pids n) (hin : s.BatcherInput n i be)
    (hb : (s.batcher i).handle be = some (b, out)) : Inv n (s.setBatcher i b out (proposedBy be)) := by
  have hnew : ∀ p ∈ b.held ++ out.flatMap Batcher.sentBy,
      (s.setBatcher i b out (proposedBy be)).Proposed n p := by
    intro p hp
    rcases Batcher.handle_spec hb hp with hold | hbrought
    · exact (h.held i p hold).setBatcher
    · exact h.brought hi hin hbrought
  refine ⟨h.custody, fun j batch hmem p hp => (h.received j batch hmem p hp).setBatcher,
    fun j p hp => ?_, fun j p hp => ?_⟩
  · by_cases hji : j = i
    · subst hji
      simp only [setBatcher, Function.update_self] at hp
      exact hnew p (List.mem_append_left _ hp)
    · simp only [setBatcher, Function.update_of_ne hji] at hp
      exact (h.held j p hp).setBatcher
  · by_cases hji : j = i
    · subst hji
      simp only [setBatcher, Function.update_self, List.flatMap_append] at hp
      rcases List.mem_append.mp hp with hp | hp
      · exact (h.sent j p hp).setBatcher
      · exact hnew p (List.mem_append_right _ hp)
    · simp only [setBatcher, Function.update_of_ne hji] at hp
      exact (h.sent j p hp).setBatcher

theorem inv_of_reachable (h : (machine n options).Reachable s) : Inv n s := by
  refine h.invariant (P := Inv n) inv_init fun s e t _ hs hstep => ?_
  rcases step_cases hstep with ⟨se, u, -, hin, hu, rfl⟩ | ⟨i, be, b, out, -, hi, hin, hb, rfl⟩
  · exact hs.system_step hin hu
  · exact hs.batcher_step hi hin hb

/-! ### Validity and integrity -/

/-- A batch in a `Phase2a` of a leader is one the leader has received. -/
theorem Inv.received_of_assigned (h : Inv n s) {i : ℕ} {m : Phase2a} {datas : List ProposalType}
    (hm : .phase2a .clientBatch m ∈ s.system.leaderOuts i)
    (hval : m.commandBatchOrNoop = .commandBatch datas) : datas.map Proposal.mk ∈ s.received i := by
  refine (h.custody i).subset ?_
  refine List.mem_append_right _ (List.mem_append_left _ (List.mem_filterMap.mpr ⟨_, hm, ?_⟩))
  obtain ⟨src, slot, round, value⟩ := m
  obtain rfl : value = .commandBatch datas := hval
  rfl

/-- A chosen batch was received by a leader that assigned it to the slot. -/
theorem assigned_of_chosen_batch (h : (machine n options).Reachable s) {c : ChosenSent}
    (hc : c ∈ s.system.synod.chosen) {datas : List ProposalType}
    (hval : c.chosen.commandBatchOrNoop = .commandBatch datas) :
    ∃ i ∈ pids n, ∃ batch ∈ s.received i, datas = batch.map (·.data) ∧ ∃ m,
      .phase2a .clientBatch m ∈ s.system.leaderOuts i ∧ m.slot = c.chosen.slot ∧
      m.commandBatchOrNoop = .commandBatch datas := by
  rcases System.assigned_of_chosen (system_reachable h) hc with hnoop | ⟨i, hi, m, hm, hslot, hv⟩
  · rw [hval] at hnoop
    cases hnoop
  · have hdatas := hv.trans hval
    refine ⟨i, hi, _, (inv_of_reachable h).received_of_assigned hm hdatas, ?_, m, hm, hslot, hdatas⟩
    simp [Function.comp_def]

/-- **Validity and integrity** of the whole cluster. A chosen value is a noop or a batch that a leader
assigned to the slot and had received; a leader assigns each batch it receives at most once; and a
reply to a client carries the data of a proposal a batcher has received. -/
theorem validity_and_integrity (n : ℕ) (options : ReplicaOptions) {s : Cluster}
    (h : (machine n options).Reachable s) :
    (∀ c ∈ s.system.synod.chosen, c.chosen.commandBatchOrNoop = .noop ∨
      ∃ i ∈ pids n, ∃ batch ∈ s.received i,
        c.chosen.commandBatchOrNoop = .commandBatch (batch.map (·.data)) ∧ ∃ m,
          .phase2a .clientBatch m ∈ s.system.leaderOuts i ∧ m.slot = c.chosen.slot ∧
          m.commandBatchOrNoop = c.chosen.commandBatchOrNoop) ∧
    (∀ i, (s.assigned i).Subperm (s.received i)) ∧
    ∀ i resp, .toClient resp ∈ s.system.replicaOuts i →
      ∃ j ∈ pids n, ∃ p ∈ s.proposed j, p.data = resp.data := by
  refine ⟨fun c hc => ?_, fun i => ?_, fun i resp hresp => ?_⟩
  · cases hval : c.chosen.commandBatchOrNoop with
    | noop => exact Or.inl rfl
    | commandBatch datas =>
      obtain ⟨i, hi, batch, hb, rfl, hm⟩ := assigned_of_chosen_batch h hc hval
      exact Or.inr ⟨i, hi, batch, hb, rfl, hm⟩
  · refine List.Subperm.trans ?_ ((inv_of_reachable h).custody i)
    refine List.Sublist.subperm ?_
    exact (List.sublist_append_left _ _).trans (List.sublist_append_right _ _)
  · obtain ⟨c, hc, datas, hval, hd⟩ :=
      (System.replicaInv_of_reachable (system_reachable h)).replies i resp hresp
    obtain ⟨j, -, batch, hb, rfl, -⟩ := assigned_of_chosen_batch h hc hval
    obtain ⟨p, hp, hdata⟩ := List.mem_map.mp hd
    obtain ⟨k, hk, hprop⟩ := (inv_of_reachable h).received j batch hb p hp
    exact ⟨k, hk, p, hprop, hdata⟩

/-- Of three nodes, leader 3 assigns slot 0 to the batch of batcher 1, and acceptor 1 alone votes for it.
Leader 1 takes over in round 4, finds the vote and proposes the batch again; it is chosen and answered. -/
def reproposed : List ClusterEvent :=
  [.batcher 1 (.proposal ⟨[7]⟩), .batcher 1 (.timeout 0),
    .system (.leader 3 (.clientRequestBatch 1 [⟨[7]⟩])),
    .system (.synod (.phase1a 1 ⟨3, 3, 0⟩)), .system (.synod (.phase1a 2 ⟨3, 3, 0⟩)),
    .system (.leader 3 (.phase1b ⟨1, 3, []⟩ [1])), .system (.leader 3 (.phase1b ⟨2, 3, []⟩ [1, 2])),
    .system (.synod (.propose 3 ⟨3, 0, 3, .commandBatch [[7]]⟩)),
    .system (.synod (.phase2a 1 ⟨3, 0, 3, .commandBatch [[7]]⟩)),
    .system (.leader 1 (.indication 1)), .system (.replica 1 (.indication 1)),
    .system (.synod (.phase1a 1 ⟨1, 4, 0⟩)), .system (.synod (.phase1a 2 ⟨1, 4, 0⟩)),
    .system (.leader 1 (.phase1b ⟨1, 4, [⟨0, 3, .commandBatch [[7]]⟩]⟩ [1])),
    .system (.leader 1 (.phase1b ⟨2, 4, []⟩ [1, 2])),
    .system (.synod (.propose 1 ⟨1, 0, 4, .commandBatch [[7]]⟩)),
    .system (.synod (.phase2a 1 ⟨1, 0, 4, .commandBatch [[7]]⟩)),
    .system (.synod (.phase2a 2 ⟨1, 0, 4, .commandBatch [[7]]⟩)),
    .system (.synod (.phase2b 1 ⟨1, 0, 4⟩)), .system (.synod (.phase2b 1 ⟨2, 0, 4⟩)),
    .system (.replica 1 (.chosen ⟨0, .commandBatch [[7]]⟩))]

theorem reproposed_valid : ∃ s, (machine 3 ⟨2, 1, by decide⟩).Reachable s ∧
    s.system.synod.chosen.map (fun c => (c.proxyLeader, c.round)) = [(1, 4), (1, 4), (1, 4)] ∧
    s.assigned 3 = [[⟨[7]⟩]] ∧ s.assigned 1 = [] ∧ .toClient ⟨[7], 1, 0⟩ ∈ s.system.replicaOuts 1 ∧
    ∃ j ∈ pids 3, ∃ p ∈ s.proposed j, p.data = [7] := by
  obtain ⟨s, hrun, hchosen, hass, hnone, hresp⟩ : ∃ s, (machine 3 ⟨2, 1, by decide⟩).run
      (machine 3 ⟨2, 1, by decide⟩).init reproposed = some s ∧
      s.system.synod.chosen.map (fun c => (c.proxyLeader, c.round)) = [(1, 4), (1, 4), (1, 4)] ∧
      s.assigned 3 = [[⟨[7]⟩]] ∧ s.assigned 1 = [] ∧ .toClient ⟨[7], 1, 0⟩ ∈ s.system.replicaOuts 1 :=
    ⟨_, rfl, by decide, by decide, by decide, by decide⟩
  have hr := Machine.reachable_of_run hrun
  exact ⟨s, hr, hchosen, hass, hnone, hresp, (validity_and_integrity 3 _ hr).2.2 1 _ hresp⟩

end Cluster

end OmniPaxosBench.MultiPaxos
