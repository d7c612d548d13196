import OmniPaxosBench.Experiment.BaseClient
import OmniPaxosBench.Lib.Fallible

/-! # What the common functions of the clients do

One lemma for each function of `BaseClient`: the fields it changes, and how. The new client is written
with the fields that change, so that all others are equal by definition. -/

namespace OmniPaxosBench.Experiment

open OmniPaxosBench.Lib OmniPaxosBench.OmniPaxos

/-- The id that is proposed for the first time by a message. -/
def freshId : ClientOut → Option ℕ
  | .proposal .fresh _ id => some id
  | _ => none

/-- The ids that are proposed for the first time. -/
def freshIds (outs : List ClientOut) : List ℕ := outs.filterMap freshId

theorem freshIds_append (outs outs' : List ClientOut) :
    freshIds (outs ++ outs') = freshIds outs ++ freshIds outs' := List.filterMap_append

theorem freshIds_map_proposal (node : ℕ) (ids : List ℕ) :
    freshIds (ids.map (.proposal .fresh node)) = ids := by
  unfold freshIds
  rw [List.filterMap_map]
  exact List.filterMap_some

theorem freshIds_eq_nil {outs : List ClientOut} (h : ∀ out ∈ outs, freshId out = none) : freshIds outs = [] :=
  List.filterMap_eq_nil_iff.mpr h

namespace BaseClient

variable {c c' : BaseClient} {now n : ℕ} {maxId : Option ℕ} {outs : List ClientOut} {ids : List ℕ} {m : String}

/-! ### New proposals -/

/-- The pending proposals and the timers after the loop of `send_concurrent_proposals`. -/
structure Proposes (c : BaseClient) (ids : List ℕ) (pending : HashMap ℕ ProposalMetaData)
    (timers : Timers ClientCallback) : Prop where
  keys : pending.keys = c.pendingProposals.keys ∪ ids.toFinset
  lookup : ∀ id ∉ ids, pending.lookup id = c.pendingProposals.lookup id
  timers : ∀ t ∈ timers.live, t ∈ c.timers.live ∨ ∃ id ∈ ids, t.callback = .proposalTimeout id

theorem Proposes.nil (c : BaseClient) : c.Proposes [] c.pendingProposals c.timers :=
  ⟨by simp, fun _ _ => rfl, fun _ ht => Or.inl ht⟩

theorem proposeNormal_ok {origin : Origin} {id : ℕ} {out : ClientOut} (h : c.proposeNormal origin id = .ok out) :
    c.currentLeader ∈ c.nodes ∧ out = .proposal origin c.currentLeader id := by
  unfold proposeNormal at h
  split_ifs at h with hnode
  cases h
  exact ⟨hnode, rfl⟩

theorem failsWith_proposeNormal (c : BaseClient) (origin : Origin) (id : ℕ) :
    FailsWith (· = "called `Option::unwrap()` on a `None` value") (c.proposeNormal origin id) := by
  unfold proposeNormal
  split_ifs with hnode
  · exact .ok _
  · exact .error rfl

theorem Proposes.cons {id : ℕ} {startTime : Option ℕ} {pending : HashMap ℕ ProposalMetaData}
    {timers : Timers ClientCallback}
    (h : (c.addPending id startTime (.proposalTimeout id)).Proposes ids pending timers) :
    c.Proposes (id :: ids) pending timers := by
  refine ⟨?_, fun k hk => ?_, fun t ht => ?_⟩
  · rw [h.keys]
    change (c.pendingProposals.insert id _).keys ∪ _ = _
    rw [HashMap.keys_insert, List.toFinset_cons, Finset.insert_union, Finset.union_insert]
  · rw [List.mem_cons, not_or] at hk
    rw [h.lookup k hk.2]
    exact Finmap.lookup_insert_of_ne c.pendingProposals hk.1
  · rcases h.timers t ht with hold | ⟨id', hid', hcb⟩
    · rcases Timers.mem_schedule.mp hold with hold | rfl
      · exact Or.inl hold
      · exact Or.inr ⟨id, List.mem_cons_self, rfl⟩
    · exact Or.inr ⟨id', List.mem_cons_of_mem id hid', hcb⟩

theorem proposeEach_ok (h : proposeEach now ids c = .ok (c', outs)) :
    ∃ pending timers, c' = { c with pendingProposals := pending, timers := timers } ∧
      c.Proposes ids pending timers ∧ outs = ids.map (.proposal .fresh c.currentLeader) := by
  induction ids generalizing c outs with
  | nil =>
    cases h
    exact ⟨_, _, rfl, .nil _, rfl⟩
  | cons id ids ih =>
    obtain ⟨out, hout, hrest⟩ := bind_eq_ok.mp h
    obtain ⟨⟨c1, outs1⟩, hloop, hend⟩ := bind_eq_ok.mp hrest
    obtain ⟨-, rfl⟩ := proposeNormal_ok hout
    cases hend
    obtain ⟨pending, timers, rfl, hp, rfl⟩ := ih hloop
    exact ⟨pending, timers, rfl, hp.cons, rfl⟩

theorem failsWith_proposeEach (now : ℕ) (ids : List ℕ) (c : BaseClient) :
    FailsWith (· = "called `Option::unwrap()` on a `None` value") (proposeEach now ids c) := by
  induction ids generalizing c with
  | nil => exact .ok _
  | cons id ids ih =>
    exact .bind (c.failsWith_proposeNormal .fresh id) fun out _ => .bind (ih _) fun res _ => .ok _

/-- The number of proposals there is room for. -/
def room (c : BaseClient) : Option ℕ → ℕ
  | some maxId => min (c.numConcurrentProposals - c.pendingProposals.len) (maxId - c.latestProposalId)
  | none => c.numConcurrentProposals - c.pendingProposals.len

/-- The last id that there is room for. -/
def lastId (c : BaseClient) : Option ℕ → ℕ
  | some maxId => min (c.latestProposalId + (c.numConcurrentProposals - c.pendingProposals.len)) maxId
  | none => c.latestProposalId + (c.numConcurrentProposals - c.pendingProposals.len)

theorem lastId_sub (c : BaseClient) (maxId : Option ℕ) : c.lastId maxId - c.latestProposalId = c.room maxId := by
  cases maxId with
  | none => simp only [lastId, room]; omega
  | some maxId => simp only [lastId, room]; omega

theorem room_le (c : BaseClient) (maxId : Option ℕ) :
    c.room maxId ≤ c.numConcurrentProposals - c.pendingProposals.len := by
  cases maxId with
  | none => exact le_rfl
  | some maxId => exact Nat.min_le_left _ _

theorem lastId_eq (h : ¬ (maxId.isSome ∧ c.lastId maxId < c.latestProposalId + 1)) :
    c.lastId maxId = c.latestProposalId + c.room maxId := by
  have hroom := c.lastId_sub maxId
  cases maxId with
  | none => rfl
  | some maxId =>
    have hle := Nat.not_lt.mp ((and_iff_right rfl).not.mp h)
    omega

/-- Without too many proposals in flight nothing wraps around. -/
theorem roomUpTo_eq (hlen : c.pendingProposals.len ≤ c.numConcurrentProposals) :
    c.roomUpTo = .ok (c.latestProposalId + (c.numConcurrentProposals - c.pendingProposals.len)) := by
  unfold roomUpTo
  dsimp only
  rw [Build.sub_eq hlen]
  exact if_pos hlen

/-- The cases of `send_concurrent_proposals`. -/
theorem sendConcurrentProposals_eq (hlen : c.pendingProposals.len ≤ c.numConcurrentProposals) (now : ℕ)
    (maxId : Option ℕ) : c.sendConcurrentProposals now maxId =
      if c.pendingProposals.len = c.numConcurrentProposals ∨ c.currentLeader = 0 then .ok (c, [])
      else if maxId.isSome ∧ c.lastId maxId < c.latestProposalId + 1 then .ok (c, [])
      else (proposeEach now (List.range' (c.latestProposalId + 1) (c.room maxId)) c).map fun (b, outs) =>
        ({ b with latestProposalId := c.lastId maxId }, outs) := by
  rw [← lastId_sub]
  unfold sendConcurrentProposals
  rw [roomUpTo_eq hlen]
  cases maxId with
  | none => rfl
  | some maxId => rfl

/-- **`send_concurrent_proposals`** proposes as many new ids as there is room for, if a leader is known. -/
theorem sendConcurrentProposals_ok (hlen : c.pendingProposals.len ≤ c.numConcurrentProposals)
    (h : c.sendConcurrentProposals now maxId = .ok (c', outs)) :
    ∃ n pending timers, c' = { c with
        latestProposalId := c.latestProposalId + n, pendingProposals := pending, timers := timers } ∧
      c.Proposes (List.range' (c.latestProposalId + 1) n) pending timers ∧
      outs = (List.range' (c.latestProposalId + 1) n).map (.proposal .fresh c.currentLeader) ∧
      n = if c.currentLeader = 0 then 0 else c.room maxId := by
  have hroom := c.lastId_sub maxId
  have hle := c.room_le maxId
  rw [sendConcurrentProposals_eq hlen] at h
  split_ifs at h with hskip hfrom
  · cases h
    refine ⟨0, _, _, rfl, .nil _, rfl, ?_⟩
    split_ifs with hzero
    · rfl
    · have hfull := hskip.resolve_right hzero
      omega
  · cases h
    refine ⟨0, _, _, rfl, .nil _, rfl, ?_⟩
    rw [if_neg (not_or.mp hskip).2]
    omega
  · obtain ⟨⟨b, outs1⟩, hloop, hend⟩ := map_eq_ok.mp h
    obtain ⟨pending, timers, rfl, hp, rfl⟩ := proposeEach_ok hloop
    cases hend
    refine ⟨c.room maxId, pending, timers, by rw [← lastId_eq hfrom], hp, rfl, ?_⟩
    rw [if_neg (not_or.mp hskip).2]

/-- It fails only for lack of the leader, unless there are too many proposals in flight already. -/
theorem failsWith_sendConcurrentProposals (hlen : c.pendingProposals.len ≤ c.numConcurrentProposals) :
    FailsWith (· = "called `Option::unwrap()` on a `None` value") (c.sendConcurrentProposals now maxId) := by
  rw [sendConcurrentProposals_eq hlen]
  split_ifs with hskip hfrom
  · exact .ok _
  · exact .ok _
  · exact .map (failsWith_proposeEach now _ c)

/-! ### Leaders -/

/-- The part of a client that says who leads. -/
def withLeader (c : BaseClient) (pid round : ℕ) (changes : List (ℕ × ℕ × ℕ)) : BaseClient :=
  { c with currentLeader := pid, leaderRound := round, leaderChanges := changes }

theorem changeLeader_eq (c : BaseClient) (now pid round : ℕ) :
    ∃ changes, c.changeLeader now pid round = c.withLeader pid round changes := by
  unfold changeLeader
  dsimp only
  split_ifs with hne
  · exact ⟨_, rfl⟩
  · rw [not_not] at hne
    subst hne
    exact ⟨_, rfl⟩

/-- The leader after an answer is the old one or the one the answer names. -/
theorem learnLeader_eq (c : BaseClient) (now latestLeader leaderRound : ℕ) :
    ∃ pid round changes, c.learnLeader now latestLeader leaderRound = c.withLeader pid round changes ∧
      (pid = c.currentLeader ∨ pid = latestLeader) := by
  unfold learnLeader
  split_ifs with hnew
  · obtain ⟨changes, heq⟩ := c.changeLeader_eq now latestLeader leaderRound
    exact ⟨latestLeader, leaderRound, changes, heq, Or.inr rfl⟩
  · exact ⟨_, _, _, rfl, Or.inl rfl⟩

/-- The leader after the answer to a reconfiguration. -/
theorem learnReconfigLeader_eq (c : BaseClient) (now latestLeader leaderRound : ℕ) :
    ∃ pid round changes, c.learnReconfigLeader now latestLeader leaderRound = c.withLeader pid round changes := by
  unfold learnReconfigLeader
  split_ifs with hnew
  · exact ⟨_, _, _, rfl⟩
  · exact ⟨_, _, _, rfl⟩

/-! ### The reconfiguration -/

theorem proposeReconfiguration_ok {node : ℕ} {out : ClientOut} (h : c.proposeReconfiguration node = .ok out) :
    ∃ rp, out = .reconfigurationProposal node rp := by
  unfold proposeReconfiguration at h
  split at h
  · cases h
    exact ⟨_, rfl⟩
  · cases h

theorem startReconfiguration_ok (h : c.startReconfiguration now = .ok (c', outs)) :
    c' = { c with reconfigStartTs := some now }.addPending reconfigId none .reconfigTimeout ∧
      ∃ node rp, outs = [.reconfigurationProposal node rp] := by
  obtain ⟨leader, -, hrest⟩ := bind_eq_ok.mp h
  obtain ⟨out, hout, hend⟩ := bind_eq_ok.mp hrest
  obtain ⟨rp, rfl⟩ := proposeReconfiguration_ok hout
  cases hend
  exact ⟨rfl, leader, rp, rfl⟩

theorem failsWith_reconfigurationNode (c : BaseClient) :
    FailsWith (· = "No leader to propose reconfiguration to!") c.reconfigurationNode := by
  unfold reconfigurationNode
  split_ifs
  · exact .ok _
  · exact .error rfl

theorem failsWith_proposeReconfiguration (c : BaseClient) (node : ℕ) :
    FailsWith (· = "called `Option::unwrap()` on a `None` value") (c.proposeReconfiguration node) := by
  unfold proposeReconfiguration
  split
  · exact .ok _
  · exact .error rfl

theorem reconfigTimeout_ok (h : c.reconfigTimeout = .ok (c', outs)) :
    ∃ proposalMeta, c.pendingProposals.lookup reconfigId = some proposalMeta ∧
      c' = c.addPending reconfigId proposalMeta.startTime .reconfigTimeout ∧
      ∃ node rp, outs = [.reconfigurationProposal node rp] := by
  obtain ⟨leader, -, hrest⟩ := bind_eq_ok.mp h
  obtain ⟨out, hout, hend⟩ := bind_eq_ok.mp hrest
  obtain ⟨rp, rfl⟩ := proposeReconfiguration_ok hout
  split at hend
  · cases hend
  · rename_i proposalMeta hmeta
    cases hend
    exact ⟨proposalMeta, hmeta, rfl, leader, rp, rfl⟩

theorem finish_ok (h : c.finish = .ok c') :
    c.finishedLatch ≠ 0 ∧ c' = { c with finishedLatch := c.finishedLatch - 1, state := .finished } := by
  unfold finish at h
  split_ifs at h with hlatch
  cases h
  exact ⟨hlatch, rfl⟩

/-- Only the window timer is given up. -/
theorem cancelWindowTimer_eq (c : BaseClient) : ∃ timers windowTimer,
    c.cancelWindowTimer = { c with timers := timers, windowTimer := windowTimer } ∧
      ∀ t ∈ timers.live, t ∈ c.timers.live := by
  unfold cancelWindowTimer
  split
  · exact ⟨_, _, rfl, fun t ht => Timers.mem_of_mem_cancel ht⟩
  · exact ⟨_, _, rfl, fun t ht => ht⟩

end BaseClient

end OmniPaxosBench.Experiment
