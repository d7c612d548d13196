import OmniPaxosBench.Lib.Machine
import OmniPaxosBench.MultiPaxos.LeaderMoves
import Mathlib.Algebra.Order.Group.Multiset
import Mathlib.Tactic.Abel

/-! # Multi-Paxos: what becomes of the batches a leader is given

A batch that a leader is given should be in one place: among the pending batches, in one `Phase2a`
proposed for it, or in one message back to its batcher. `inCustody` lists these places together, and
`handle_custody` says what an event does to them. Every event moves the batches between the places
and adds the one it brings, but for a new campaign: `start_phase1` empties the list of pending
batches, and what was in it is nowhere afterwards. So no batch is lost just when every campaign
starts with nothing pending (`batches_kept_iff`). -/

namespace OmniPaxosBench.MultiPaxos

open OmniPaxosBench.Lib

namespace Leader

/-- The batch an event passes to `handle_client_request_batch`. -/
def givenBy : LeaderEvent → List (List Proposal)
  | .clientRequestBatch _ batch => [batch]
  | _ => []

/-- The batch a `Phase2a` was made from in `process_client_request_batch`. -/
def carriedBy : LeaderOut → Option (List Proposal)
  | .phase2a .clientBatch ⟨_, _, _, .commandBatch datas⟩ => some (datas.map Proposal.mk)
  | _ => none

/-- The batch sent back to a batcher. -/
def returnedBy : LeaderOut → Option (List Proposal)
  | .toBatcher _ (.notLeaderBatcher batch) => some batch
  | _ => none

/-- The batches of a leader that has sent `sent`: pending, proposed and sent back. -/
def inCustody (l : Leader) (sent : List LeaderOut) : List (List Proposal) :=
  l.pendingClientRequestBatches ++ (sent.filterMap carriedBy ++ sent.filterMap returnedBy)

/-- The event starts phase 1 anew. -/
def Restarts (l : Leader) : LeaderEvent → Prop
  | .indication leaderIndex => leaderIndex = l.index
  | .nack m => l.round < m.round ∧ l.state ≠ .inactive
  | .recover _ => l.state ≠ .inactive
  | _ => False

instance (l : Leader) : ∀ e, Decidable (l.Restarts e)
  | .indication _ => inferInstanceAs (Decidable (_ = _))
  | .nack _ => inferInstanceAs (Decidable (_ ∧ _))
  | .recover _ => inferInstanceAs (Decidable (_ ≠ _))
  | .phase1b _ _ | .chosenWatermark _ | .clientRequestBatch _ _ | .leaderInfoRequestBatcher _ _
  | .timeout _ | .partition _ => isFalse id

/-- If the event starts phase 1 anew, then no batch is pending. -/
def Unburdened (l : Leader) (e : LeaderEvent) : Prop :=
  l.Restarts e → l.pendingClientRequestBatches = []

instance (l : Leader) (e : LeaderEvent) : Decidable (l.Unburdened e) :=
  inferInstanceAs (Decidable (_ → _))

variable {l l' : Leader} {sent out : List LeaderOut} {e : LeaderEvent}

/-! ### Messages without batches -/

/-- The message holds no batch that was given to the leader. -/
def Empty (o : LeaderOut) : Prop := carriedBy o = none ∧ returnedBy o = none

theorem filterMap_of_empty (h : ∀ o ∈ out, Empty o) :
    out.filterMap carriedBy = [] ∧ out.filterMap returnedBy = [] :=
  ⟨List.filterMap_eq_nil_iff.mpr fun o ho => (h o ho).1,
    List.filterMap_eq_nil_iff.mpr fun o ho => (h o ho).2⟩

theorem inCustody_of_empty (h : ∀ o ∈ out, Empty o) (l : Leader) :
    l.inCustody out = l.pendingClientRequestBatches := by
  obtain ⟨h1, h2⟩ := filterMap_of_empty h
  simp only [inCustody, h1, h2, List.append_nil]

theorem empty_of_mem_sendPhase1a {p : Phase1a} {o : LeaderOut} (h : o ∈ l.sendPhase1a p) :
    Empty o := by
  obtain ⟨pid, rfl⟩ := mem_sendPhase1a h
  exact ⟨rfl, rfl⟩

/-- The messages on the way to phase 2, before the pending batches. -/
theorem empty_of_mem_enterPhase2 {values : List Phase1b} {o : LeaderOut}
    (h : o ∈ (l.enterPhase2 values).2) : Empty o := by
  obtain ⟨_, _, -, -, heq⟩ := enterPhase2_eq l values
  rw [heq] at h
  rcases List.mem_append.mp h with h | h
  · rcases List.mem_cons.mp h with rfl | h
    · exact ⟨rfl, rfl⟩
    · rw [List.mem_singleton.mp h]; exact ⟨rfl, rfl⟩
  · obtain ⟨slot, -, -, -, rfl⟩ := mem_recoverSlots h
    exact ⟨rfl, rfl⟩

/-! ### Campaigns -/

/-- A campaign forgets the pending batches. -/
theorem leaderChange_true_custody (l : Leader) :
    (l.leaderChange true).1.inCustody (l.leaderChange true).2 = [] := by
  have hc : ∀ l₀ : Leader, l₀.campaign.1.inCustody l₀.campaign.2 = [] := fun l₀ => by
    have hempty : ∀ o ∈ l₀.campaign.2, Empty o := fun o ho => empty_of_mem_sendPhase1a ho
    rw [inCustody_of_empty hempty]
    rfl
  unfold leaderChange
  cases l.state with
  | inactive => exact hc _
  | phase1 => exact hc _
  | phase2 => exact hc _

theorem leaderChange_false_custody (l : Leader) :
    (l.leaderChange false).1.inCustody (l.leaderChange false).2 = l.pendingClientRequestBatches := by
  unfold leaderChange
  cases l.state with
  | inactive => rw [inCustody_of_empty (by simp)]
  | phase1 =>
    obtain ⟨h, T, -, -, heq⟩ := stopResendPhase1as_eq l
    rw [inCustody_of_empty (by simp), heq]
  | phase2 =>
    obtain ⟨h, T, -, heq⟩ := stopNoopFlushTimer_eq l
    rw [inCustody_of_empty (by simp), heq]

/-- A restart is a campaign; a nack raises the round first. -/
theorem handle_eq_of_restarts (hr : l.Restarts e) (h : l.handle e = some (l', out)) :
    ∃ round, { l with round := round }.leaderChange true = (l', out) := by
  cases e with
  | indication leaderIndex =>
    have hown : leaderIndex = l.index := hr
    simp only [handle, hown, decide_true, Option.some.injEq] at h
    exact ⟨l.round, h⟩
  | nack m =>
    obtain ⟨hlt, hs⟩ := hr
    simp only [handle, handleNack, not_le.mpr hlt, if_false, Option.some.injEq] at h
    split at h
    · exact absurd (by assumption) hs
    all_goals exact ⟨_, h⟩
  | recover m =>
    have hs : l.state ≠ .inactive := hr
    simp only [handle, handleRecover, Option.some.injEq] at h
    split at h
    · exact absurd (by assumption) hs
    all_goals exact ⟨l.round, h⟩
  | _ => exact absurd hr id

/-- A nack that does not restart phase 1 at most raises the round. -/
theorem handleNack_of_not_restarts {m : Nack} (hr : ¬ l.Restarts (.nack m)) :
    ∃ round, l.handleNack m = ({ l with round := round }, []) := by
  unfold handleNack
  by_cases hle : m.round ≤ l.round
  · rw [if_pos hle]
    exact ⟨l.round, rfl⟩
  · have hs : l.state = .inactive := by
      by_contra hs; exact hr ⟨not_le.mp hle, hs⟩
    simp only [if_neg hle, hs]
    exact ⟨m.round, by rw [← hs]⟩

theorem handleRecover_of_not_restarts {m : Recover} (hr : ¬ l.Restarts (.recover m)) :
    l.handleRecover m = (l, []) := by
  have hs : l.state = .inactive := not_not.mp hr
  simp only [handleRecover, hs]

/-- Nothing that was pending is anywhere after a restart. -/
theorem handle_of_restarts (hr : l.Restarts e) (h : l.handle e = some (l', out)) :
    l'.inCustody out = [] ∧ givenBy e = [] := by
  obtain ⟨round, hround⟩ := handle_eq_of_restarts hr h
  have hl := leaderChange_true_custody { l with round := round }
  rw [hround] at hl
  refine ⟨hl, ?_⟩
  cases e with
  | clientRequestBatch batcher batch => exact absurd hr id
  | _ => rfl

/-! ### The other events -/

/-- Every pending batch is in one of the proposals made when phase 1 ends. -/
theorem carried_processClientRequestBatches (l : Leader) (bs : List (List Proposal)) :
    (l.processClientRequestBatches bs).2.filterMap carriedBy = bs ∧
      (l.processClientRequestBatches bs).2.filterMap returnedBy = [] := by
  induction bs generalizing l with
  | nil => exact ⟨rfl, rfl⟩
  | cons b bs ih =>
    obtain ⟨h1, h2⟩ := ih { l with nextSlot := l.nextSlot + 1 }
    have hb : (b.map (·.data)).map Proposal.mk = b := by
      rw [List.map_map]; exact List.map_id b
    simp only [processClientRequestBatches, processClientRequestBatch, proposeNext,
      List.filterMap_append, h1, h2]
    simp only [List.filterMap_cons, carriedBy, hb, returnedBy, List.filterMap_nil, List.nil_append,
      List.cons_append, and_self]

theorem handlePhase1b_custody {m : Phase1b} {order : List ℕ}
    (h : l.handlePhase1b m order = some (l', out)) :
    l'.inCustody out = l.pendingClientRequestBatches := by
  by_cases hc : l.Completes m
  · obtain ⟨-, hres⟩ := handlePhase1b_of_completes hc h
    obtain ⟨_, _, -, -, hl₂⟩ := enterPhase2_eq (l.insertPhase1b m) (l.valuesWith m order)
    obtain ⟨l₂, out₂, heq⟩ : ∃ l₂ out₂, (l.insertPhase1b m).enterPhase2 (l.valuesWith m order) =
        (l₂, out₂) := ⟨_, _, rfl⟩
    have hempty : ∀ o ∈ out₂, Empty o := fun o ho => empty_of_mem_enterPhase2 (by rw [heq]; exact ho)
    have hp : l₂.pendingClientRequestBatches = l.pendingClientRequestBatches := by
      rw [heq] at hl₂; cases hl₂; rfl
    obtain ⟨rfl, rfl⟩ := Prod.mk.inj (hres l₂ out₂ heq)
    -- of the messages, only the proposals for the pending batches carry any
    obtain ⟨e1, e2⟩ := filterMap_of_empty hempty
    obtain ⟨h1, h2⟩ := carried_processClientRequestBatches l₂ l₂.pendingClientRequestBatches
    rw [processClientRequestBatches_eq] at h1 h2
    simp only [inCustody, List.filterMap_append, e1, e2, h1, h2, List.nil_append, List.append_nil]
    exact hp
  · obtain ⟨rfl, rfl | ⟨-, -, rfl⟩⟩ := handlePhase1b_of_not_completes hc h
    · exact inCustody_of_empty (by simp) l'
    · exact inCustody_of_empty (by simp) _

theorem handleClientRequestBatch_custody (batcher : ℕ) (batch : List Proposal)
    (h : l.handleClientRequestBatch batcher batch = (l', out)) :
    (l'.inCustody out).Perm (batch :: l.pendingClientRequestBatches) := by
  have hb : (batch.map (·.data)).map Proposal.mk = batch := by
    rw [List.map_map]; exact List.map_id batch
  unfold handleClientRequestBatch at h
  split at h
  · cases h
    simp only [inCustody, List.filterMap_cons, carriedBy, returnedBy, List.filterMap_nil,
      List.nil_append]
    exact List.perm_append_comm
  · cases h
    simp only [inCustody, List.filterMap_nil, List.append_nil]
    exact List.perm_append_comm
  · cases h
    simp only [inCustody, List.filterMap_cons, carriedBy, returnedBy, hb, List.filterMap_nil,
      List.append_nil]
    exact List.perm_append_comm

theorem handleTimeout_custody {id : ℕ} (h : l.handleTimeout id = some (l', out)) :
    l'.inCustody out = l.pendingClientRequestBatches := by
  obtain ⟨⟨cb, T⟩, -, heq⟩ := Option.map_eq_some_iff.mp h
  cases cb with
  | resendPhase1as p =>
    cases heq
    exact inCustody_of_empty (fun o ho => empty_of_mem_sendPhase1a ho) _
  | noopFlush =>
    cases heq
    exact inCustody_of_empty (fun o ho => by rw [List.mem_singleton.mp ho]; exact ⟨rfl, rfl⟩) _

/-- **Every event but a restart** keeps all batches and adds the one it brings. -/
theorem handle_custody (hr : ¬ l.Restarts e) (h : l.handle e = some (l', out)) :
    (l'.inCustody out).Perm (givenBy e ++ l.pendingClientRequestBatches) := by
  have hsame : ∀ {out : List LeaderOut}, (∀ o ∈ out, Empty o) →
      (l.inCustody out).Perm l.pendingClientRequestBatches := fun hout =>
    .of_eq (inCustody_of_empty hout l)
  cases e with
  | indication leaderIndex =>
    have hne : ¬ leaderIndex = l.index := hr
    simp only [handle, hne, decide_false, Option.some.injEq] at h
    have hl := leaderChange_false_custody l
    rw [h] at hl
    exact .of_eq hl
  | phase1b m order => exact .of_eq (handlePhase1b_custody h)
  | nack m =>
    obtain ⟨round, hround⟩ := handleNack_of_not_restarts hr
    cases hround.symm.trans (Option.some.inj h)
    exact .of_eq (inCustody_of_empty (by simp) _)
  | chosenWatermark m => cases h; exact .of_eq (inCustody_of_empty (by simp) _)
  | recover m =>
    cases (handleRecover_of_not_restarts hr).symm.trans (Option.some.inj h)
    exact hsame (by simp)
  | clientRequestBatch batcher batch =>
    exact handleClientRequestBatch_custody batcher batch (Option.some.inj h)
  | leaderInfoRequestBatcher src batcher =>
    cases h
    refine hsame fun o ho => ?_
    unfold handleLeaderInfoRequestBatcher at ho
    split_ifs at ho
    · cases ho
    · split at ho
      · cases ho
      · rw [List.mem_singleton.mp ho]; exact ⟨rfl, rfl⟩
  | timeout id => exact .of_eq (handleTimeout_custody h)
  | partition e =>
    obtain ⟨part, -, he⟩ := Option.map_eq_some_iff.mp h
    cases he
    exact .of_eq (inCustody_of_empty (by simp) _)

/-- The batches of a longer list of messages. -/
theorem inCustody_append (l : Leader) (sent out : List LeaderOut) :
    (l.inCustody (sent ++ out)).Perm
      (l.inCustody out ++ (sent.filterMap carriedBy ++ sent.filterMap returnedBy)) := by
  simp only [inCustody, List.filterMap_append, ← Multiset.coe_eq_coe, ← Multiset.coe_add]
  abel

end Leader

/-! ### Runs -/

/-- A leader, the batches it was given and the messages it has sent. -/
structure Custody where
  leader : Leader
  given : List (List Proposal)
  sent : List LeaderOut

namespace Custody

/-- No batch is lost and none is in two places. -/
def Kept (s : Custody) : Prop := s.given.Perm (s.leader.inCustody s.sent)

instance (s : Custody) : Decidable s.Kept := inferInstanceAs (Decidable (List.Perm _ _))

def step (s : Custody) (e : LeaderEvent) : Option Custody :=
  (s.leader.handle e).map fun (l, out) => ⟨l, s.given ++ Leader.givenBy e, s.sent ++ out⟩

/-- A leader from its start on. -/
def machine (pid : ℕ) (acceptors : List ℕ) : Machine Custody LeaderEvent where
  init := ⟨(Leader.new pid acceptors).onStart.1, [], (Leader.new pid acceptors).onStart.2⟩
  step := step

variable {pid : ℕ} {acceptors : List ℕ} {s t : Custody} {e : LeaderEvent}

theorem step_eq_some (h : s.step e = some t) : ∃ l out, s.leader.handle e = some (l, out) ∧
    t = ⟨l, s.given ++ Leader.givenBy e, s.sent ++ out⟩ := by
  obtain ⟨⟨l, out⟩, hl, rfl⟩ := Option.map_eq_some_iff.mp h
  exact ⟨l, out, hl, rfl⟩

theorem kept_init : (machine pid acceptors).init.Kept := by
  have hp : (Leader.new pid acceptors).onStart.1.inCustody (Leader.new pid acceptors).onStart.2 = [] := by
    unfold Leader.onStart
    split_ifs
    · exact Leader.inCustody_of_empty (fun o ho => Leader.empty_of_mem_sendPhase1a ho) _
    · exact Leader.inCustody_of_empty (by simp) _
  exact .of_eq hp.symm

/-- A step keeps the batches just when no campaign drops one. -/
theorem Kept.step_iff (hs : s.Kept) (e : LeaderEvent) :
    s.leader.Unburdened e ↔ ∀ t, s.step e = some t → t.Kept := by
  have hgiven : s.given.Perm (s.leader.pendingClientRequestBatches ++
      (s.sent.filterMap Leader.carriedBy ++ s.sent.filterMap Leader.returnedBy)) := hs
  by_cases hr : s.leader.Restarts e
  · -- a restart: what is left is what was proposed or sent back before
    have hleft : ∀ t, s.step e = some t → (t.Kept ↔ s.given.Perm
        (s.sent.filterMap Leader.carriedBy ++ s.sent.filterMap Leader.returnedBy)) := by
      intro t ht
      obtain ⟨l, out, hl, rfl⟩ := step_eq_some ht
      obtain ⟨h1, h2⟩ := Leader.handle_of_restarts hr hl
      have happ := Leader.inCustody_append l s.sent out
      rw [h1, List.nil_append] at happ
      simp only [Kept, h2, List.append_nil]
      exact ⟨fun h => h.trans happ, fun h => h.trans happ.symm⟩
    constructor
    · intro hu t ht
      rw [hu hr, List.nil_append] at hgiven
      exact (hleft t ht).mpr hgiven
    · intro hk _
      obtain ⟨t, ht⟩ : ∃ t, s.step e = some t := by
        cases e <;> first | exact absurd hr id | exact ⟨_, rfl⟩
      have hlen := ((hleft t ht).mp (hk t ht)).length_eq
      rw [hgiven.length_eq, List.length_append] at hlen
      exact List.length_eq_zero_iff.mp (by omega)
  · refine ⟨fun _ t ht => ?_, fun _ h => absurd h hr⟩
    obtain ⟨l, out, hl, rfl⟩ := step_eq_some ht
    have hnew := Leader.handle_custody hr hl
    have happ := Leader.inCustody_append l s.sent out
    simp only [Kept, ← Multiset.coe_eq_coe, ← Multiset.coe_add] at hgiven hnew happ ⊢
    rw [hgiven, happ, hnew]
    abel

/-- **Custody**: in a run of a leader no batch is lost and none is in two places, at any moment, if
and only if every start of phase 1 finds no pending batch. -/
theorem batches_kept_iff (pid : ℕ) (acceptors : List ℕ) (es : List LeaderEvent) :
    (machine pid acceptors).AllStates Kept (machine pid acceptors).init es ↔
      (machine pid acceptors).AllSteps (fun s e => s.leader.Unburdened e)
        (machine pid acceptors).init es :=
  Machine.Reachable.allStates_iff_allSteps (fun _ _ hs e => hs.step_iff e) .init kept_init es

/-- Leader 3 of three nodes gets a batch in phase 1 of its first round. The election names it again
before the acceptors have answered, and the batch is gone. -/
theorem batch_lost :
    ¬ (machine 3 [1, 2, 3]).AllStates Kept (machine 3 [1, 2, 3]).init
        [.clientRequestBatch 1 [⟨[7]⟩], .indication 3] ∧
      ∃ s, (machine 3 [1, 2, 3]).run (machine 3 [1, 2, 3]).init
        [.clientRequestBatch 1 [⟨[7]⟩], .indication 3] = some s ∧
      s.given = [[⟨[7]⟩]] ∧ s.leader.state = .phase1 ∧ s.leader.inCustody s.sent = [] := by
  refine ⟨fun h => ?_, _, rfl, rfl, rfl, by decide⟩
  have hlost : Kept _ := (h.2 _ rfl).2 _ rfl
  revert hlost
  decide

end Custody

end OmniPaxosBench.MultiPaxos
