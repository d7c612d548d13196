import OmniPaxosBench.Lib.Fallible
import OmniPaxosBench.Lib.Machine
import OmniPaxosBench.Raft.SimpleRaft
import Mathlib.Logic.Function.Basic

/-! # The state of a reconfiguration and the log

A replica that has proposed or begun a reconfiguration is `Pending` and ignores further proposals. That is
right while the change is in its log. The leader sets the state when it proposes, though, and nothing
resets it when a later leader overwrites the entry: `tracksLog_iff` is the exact condition. -/

namespace OmniPaxosBench.Raft

open OmniPaxosBench.Lib
open OmniPaxosBench.OmniPaxos (Data Proposal ReconfigurationProposal)

/-! ### The replicas and the network -/

/-- A replica with the committed entries it has been given so far. -/
structure Observed (K : RaftCrate) where
  replica : RaftReplica K
  applied : List Entry

/-- The replicas by their pids, and the raft messages that have been sent. A message may get lost, overtake
others and arrive more than once. -/
structure Cluster (K : RaftCrate) where
  replicas : ℕ → Observed K
  network : List K.Message

variable {K : RaftCrate}

/-- The entries that are applied with an event. -/
def applies (c : RaftReplica K) : ReplicaEvent K → List Entry
  | .onReady => if K.hasReady c.rawRaft then (K.ready c.rawRaft).1.committedEntries.getD [] else []
  | _ => []

/-- The raft message that the communicator sends. -/
def sentBy : ReplicaOut K → Option K.Message
  | .rawRaftMsg m => some m
  | _ => none

/-- A raft message arrives at its addressee, after it has been sent. -/
def CanArrive (network : List K.Message) (pid : ℕ) : ReplicaEvent K → Prop
  | .rawRaftMsg m => m ∈ network ∧ K.receiver m = pid
  | _ => True

instance [DecidableEq K.Message] (network : List K.Message) (pid : ℕ) :
    ∀ e : ReplicaEvent K, Decidable (CanArrive network pid e)
  | .rawRaftMsg _ => inferInstanceAs (Decidable (_ ∧ _))
  | .start | .propose _ | .proposeReconfiguration _ _ | .stop | .stopMsg _ | .tick _ | .onReady
  | .tryCampaignLeader => isTrue trivial

/-- One event at one replica. A panic ends the run. -/
def Cluster.step [DecidableEq K.Message] (s : Cluster K) (e : ℕ × ReplicaEvent K) : Option (Cluster K) :=
  let observed := s.replicas e.1
  if CanArrive s.network e.1 e.2 then
    match observed.replica.handle e.2 with
    | some (.ok (c, outs)) => some
      { replicas := Function.update s.replicas e.1 ⟨c, observed.applied ++ applies observed.replica e.2⟩
        network := s.network ++ outs.filterMap sentBy }
    | some (.error _) | none => none
  else none

def cluster [DecidableEq K.Message] (rawRaft : ℕ → K.RawNode) (numPeers : ℕ) :
    Machine (Cluster K) (ℕ × ReplicaEvent K) where
  init := ⟨fun pid => ⟨.new (rawRaft pid) numPeers, []⟩, []⟩
  step := Cluster.step

/-! ### What the state should say -/

/-- Whatever is proposed, nothing happens. -/
def RaftReplica.Ignores (c : RaftReplica K) : Prop := ∀ rp rnds, c.proposeReconfiguration rp rnds = .ok (c, [])

/-- **The state tracks the log**: while it is `Pending`, a membership change is in the log whose finalisation
has not been applied; and a proposal is ignored only with a membership change in the log, or after one. -/
structure TracksLog (s : Observed K) : Prop where
  pending : s.replica.reconfigState = .pending → ∃ e ∈ K.allEntries s.replica.rawRaft,
    K.IsChange .beginMembershipChange e ∧ ∀ e' ∈ s.applied, ¬ K.IsChange .finalizeMembershipChange e'
  ignores : s.replica.Ignores → K.HasBegin (K.allEntries s.replica.rawRaft) ∨
    s.replica.reconfigState = .finished ∨ s.replica.reconfigState = .removed

/-- A message that overwrites the change on which the `Pending` state rests. -/
def LosesChange (c : RaftReplica K) : ReplicaEvent K → Prop
  | .rawRaftMsg m => c.stopped = false ∧ c.reconfigState = .pending ∧ K.Overwrites c.rawRaft m
  | _ => False

instance (c : RaftReplica K) : ∀ e, Decidable (LosesChange c e)
  | .rawRaftMsg _ => inferInstanceAs (Decidable (_ ∧ _ ∧ _))
  | .start | .propose _ | .proposeReconfiguration _ _ | .stop | .stopMsg _ | .tick _ | .onReady
  | .tryCampaignLeader => isFalse id

/-- The invariant of one replica: the log has a change while it is pending, and a change of which the
finalisation was applied is finished. -/
structure Tracked (c : RaftReplica K) (applied : List Entry) : Prop where
  pending : c.reconfigState = .pending → K.HasBegin (K.allEntries c.rawRaft)
  finalized : ∀ e ∈ applied, K.IsChange .finalizeMembershipChange e →
    c.reconfigState = .finished ∨ c.reconfigState = .removed

/-- The log has got longer, and the state is the same or rests on a change in the log. -/
structure Continues (c c' : RaftReplica K) : Prop where
  log : K.Extends c.rawRaft c'.rawRaft
  state : c'.reconfigState = c.reconfigState ∨
    (c.reconfigState = .none ∧ c'.reconfigState = .pending ∧ K.HasBegin (K.allEntries c'.rawRaft))

variable {c c' d : RaftReplica K} {applied entries : List Entry} {outs : List (ReplicaOut K)} {rnds : List ℕ}
  {rp : ReconfigurationProposal}

theorem Continues.refl (c : RaftReplica K) : Continues c c := ⟨.refl _, Or.inl rfl⟩

theorem Continues.trans (h : Continues c d) (h' : Continues d c') : Continues c c' := by
  refine ⟨h.log.trans h'.log, ?_⟩
  rcases h'.state with hsame' | ⟨hnone, hpending, hbegin⟩
  · rcases h.state with hsame | ⟨hnone, hpending, hbegin⟩
    · exact Or.inl (hsame'.trans hsame)
    · exact Or.inr ⟨hnone, hsame'.trans hpending, hbegin.mono h'.log⟩
  · rcases h.state with hsame | ⟨-, hpending', -⟩
    · exact Or.inr ⟨hsame.symm.trans hnone, hpending, hbegin⟩
    · rw [hnone] at hpending'
      cases hpending'

theorem Tracked.continues (h : Tracked c applied) (hc : Continues c c') : Tracked c' applied := by
  rcases hc.state with hsame | ⟨hnone, hpending, hbegin⟩
  · refine ⟨fun hp => (h.pending (hsame ▸ hp)).mono hc.log, fun e he hfin => ?_⟩
    rw [hsame]
    exact h.finalized e he hfin
  · refine ⟨fun _ => hbegin, fun e he hfin => ?_⟩
    have hdone := h.finalized e he hfin
    rw [hnone] at hdone
    exact absurd hdone (by decide)

/-- An event that applies no entries. -/
theorem Tracked.keeps (h : Tracked c applied) (hc : Continues c c') {e : ReplicaEvent K} (he : applies c e = []) :
    Tracked c' (applied ++ applies c e) := by
  rw [he, List.append_nil]
  exact h.continues hc

theorem expect_eq_ok {α : Type} {x : Option α} {msg : String} {a : α} (h : expect x msg = .ok a) : x = some a := by
  unfold expect at h
  split at h
  · cases h
    rfl
  · cases h

/-! ### Proposals -/

namespace RaftReplica

theorem proposeReconfiguration_continues (hK : K.Lawful) (h : c.proposeReconfiguration rp rnds = .ok (c', outs)) :
    Continues c c' := by
  unfold proposeReconfiguration at h
  dsimp only at h
  split_ifs at h with hnone hno hself
  · cases h
    exact ⟨.refl _, Or.inl rfl⟩
  · obtain ⟨newVoters, -, h⟩ := bind_eq_ok.mp h
    obtain ⟨rawRaft, hraft, h⟩ := bind_eq_ok.mp h
    cases h
    obtain ⟨e, hbegin, hlog⟩ := hK.proposeMembershipChange _ _ _ hself (expect_eq_ok hraft)
    have hmem : e ∈ K.allEntries rawRaft := by
      rw [hlog]
      exact List.mem_concat_self
    exact ⟨⟨[e], hlog.symm⟩, Or.inr ⟨hnone, rfl, e, hmem, hbegin⟩⟩
  · cases h
    exact .refl _
  · cases h
    exact .refl _

theorem proposeHeldBackReconfig_continues (hK : K.Lawful) (h : c.proposeHeldBackReconfig rnds = .ok (c', outs)) :
    Continues c c' := by
  unfold proposeHeldBackReconfig at h
  split at h
  · have hheld : Continues c { c with hbReconfig := none } := ⟨.refl _, Or.inl rfl⟩
    exact hheld.trans (proposeReconfiguration_continues hK h)
  · cases h
    exact .refl _

theorem propose_continues (hK : K.Lawful) {proposal : Proposal} (h : c.propose proposal = .ok c') :
    Continues c c' := by
  unfold propose at h
  split_ifs at h
  · cases h
    exact ⟨.refl _, Or.inl rfl⟩
  · obtain ⟨rawRaft, hraft, h⟩ := bind_eq_ok.mp h
    cases h
    exact ⟨hK.propose _ _ _ (expect_eq_ok hraft), Or.inl rfl⟩

theorem tellLeader_continues (leader : ℕ) : Continues c (c.tellLeader leader).1 := by
  unfold tellLeader
  split_ifs
  · exact ⟨.refl _, Or.inl rfl⟩
  · exact .refl _

theorem tick_continues (hK : K.Lawful) (h : c.tick rnds = .ok (c', outs)) : Continues c c' := by
  unfold tick at h
  dsimp only at h
  have htick : Continues c { c with rawRaft := K.tick c.rawRaft } := ⟨hK.tick _, Or.inl rfl⟩
  split_ifs at h
  · cases h
    exact htick
  · obtain ⟨⟨d, douts⟩, hheld, h⟩ := bind_eq_ok.mp h
    obtain ⟨d', hloop, h⟩ := bind_eq_ok.mp h
    cases h
    have hclear : Continues d { d with hbProposals := [] } := ⟨.refl _, Or.inl rfl⟩
    have hproposals : Continues { d with hbProposals := [] } d' :=
      foldlM_invariant (fun _ _ _ hc hp => hc.trans (propose_continues hK hp)) (.refl _) hloop
    exact htick.trans ((proposeHeldBackReconfig_continues hK hheld).trans
      (hclear.trans (hproposals.trans (tellLeader_continues _))))

/-! ### Committed entries -/

theorem beginReconfig_spec (hK : K.Lawful) {cc : ConfChange} (h : c.beginReconfig cc = .ok (c', outs)) :
    K.Extends c.rawRaft c'.rawRaft ∧ c'.reconfigState = .pending := by
  obtain ⟨rawRaft, hraft, h⟩ := bind_eq_ok.mp h
  split_ifs at h
  · cases h
    exact ⟨hK.beginMembershipChange _ _ _ (expect_eq_ok hraft), rfl⟩

theorem finalizeReconfig_spec (hK : K.Lawful) {cc : ConfChange} (h : c.finalizeReconfig cc = .ok (c', outs)) :
    K.Extends c.rawRaft c'.rawRaft ∧ (c'.reconfigState = .finished ∨ c'.reconfigState = .removed) := by
  obtain ⟨rawRaft, hraft, h⟩ := bind_eq_ok.mp h
  have hfinalize : K.Extends c.rawRaft rawRaft := hK.finalizeMembershipChange _ _ _ (expect_eq_ok hraft)
  dsimp only at h
  split_ifs at h
  · cases h
    exact ⟨hfinalize.trans (hK.setConfState _ _), Or.inl rfl⟩
  · cases h
    exact ⟨hfinalize.trans (hK.setConfState _ _), Or.inl rfl⟩
  · cases h
    exact ⟨hfinalize.trans (hK.setConfState _ _), Or.inr rfl⟩

end RaftReplica

theorem Tracked.of_done (h : c.reconfigState = .finished ∨ c.reconfigState = .removed) : Tracked c applied := by
  refine ⟨fun hpending => ?_, fun _ _ _ => h⟩
  rw [hpending] at h
  exact absurd h (by decide)

theorem Tracked.append {e : Entry} (h : Tracked c applied) (he : ¬ K.IsChange .finalizeMembershipChange e) :
    Tracked c (applied ++ [e]) := by
  refine ⟨h.pending, fun e' he' hfin => ?_⟩
  rcases List.mem_append.mp he' with he' | he'
  · exact h.finalized e' he' hfin
  · rw [List.mem_singleton.mp he'] at hfin
    exact absurd hfin he

namespace RaftReplica

/-- A committed entry that is in the log. -/
theorem applyEntry_tracked (hK : K.Lawful) {e : Entry} (h : c.applyEntry e = .ok (c', outs))
    (he : e ∈ K.allEntries c.rawRaft) (hc : Tracked c applied) :
    K.Extends c.rawRaft c'.rawRaft ∧ Tracked c' (applied ++ [e]) := by
  unfold applyEntry at h
  by_cases hempty : e.data = []
  · rw [if_pos hempty] at h
    cases h
    exact ⟨.refl _, hc.append fun hfin => hfin.2.1 hempty⟩
  · rw [if_neg hempty] at h
    cases htype : e.entryType with
    | entryConfChange =>
      simp only [htype] at h
      split_ifs at h with hdone
      · cases h
        exact ⟨.refl _, .of_done hdone.symm⟩
      · obtain ⟨cc, hcc, h⟩ := bind_eq_ok.mp h
        cases hchange : cc.changeType with
        | beginMembershipChange =>
          simp only [hchange] at h
          obtain ⟨hlog, hpending⟩ := beginReconfig_spec hK h
          have hbegin : K.IsChange .beginMembershipChange e := ⟨htype, hempty, cc, expect_eq_ok hcc, hchange⟩
          refine ⟨hlog, fun _ => ⟨e, hlog.subset he, hbegin⟩, fun e' he' hfin => ?_⟩
          rcases List.mem_append.mp he' with he' | he'
          · exact absurd (hc.finalized e' he' hfin).symm hdone
          · obtain ⟨-, -, cc', hcc', hchange'⟩ := hfin
            rw [List.mem_singleton.mp he', expect_eq_ok hcc] at hcc'
            cases hcc'
            rw [hchange] at hchange'
            cases hchange'
        | finalizeMembershipChange =>
          simp only [hchange] at h
          obtain ⟨hlog, hdone'⟩ := finalizeReconfig_spec hK h
          exact ⟨hlog, .of_done hdone'⟩
        | addNode | removeNode | addLearnerNode =>
          simp only [hchange] at h
          cases h
    | entryNormal =>
      have hnormal : ¬ K.IsChange .finalizeMembershipChange e := fun hfin => by
        have hchange := hfin.1
        rw [htype] at hchange
        cases hchange
      simp only [htype] at h
      split_ifs at h
      · cases h
        exact ⟨.refl _, hc.append hnormal⟩
      · cases h
        exact ⟨.refl _, hc.append hnormal⟩

theorem applyEntries_tracked (hK : K.Lawful) (h : applyEntries entries c = .ok (c', outs))
    (hmem : ∀ e ∈ entries, e ∈ K.allEntries c.rawRaft) (hc : Tracked c applied) :
    K.Extends c.rawRaft c'.rawRaft ∧ Tracked c' (applied ++ entries) := by
  induction entries generalizing c applied outs with
  | nil =>
    cases h
    rw [List.append_nil]
    exact ⟨.refl _, hc⟩
  | cons e entries ih =>
    obtain ⟨⟨d, douts⟩, hentry, h⟩ := bind_eq_ok.mp h
    obtain ⟨⟨d', douts'⟩, hrest, h⟩ := bind_eq_ok.mp h
    cases h
    obtain ⟨hlog, hd⟩ := applyEntry_tracked hK hentry (hmem e List.mem_cons_self) hc
    have hmem' : ∀ e' ∈ entries, e' ∈ K.allEntries d.rawRaft := fun e' he' =>
      hlog.subset (hmem e' (List.mem_cons_of_mem _ he'))
    obtain ⟨hlog', hd'⟩ := ih hrest hmem' hd
    rw [List.append_assoc] at hd'
    exact ⟨hlog.trans hlog', hd'⟩

theorem applyCommitted_tracked (hK : K.Lawful) (h : c.applyCommitted entries = .ok (c', outs))
    (hmem : ∀ e ∈ entries, e ∈ K.allEntries c.rawRaft) (hc : Tracked c applied) :
    Tracked c' (applied ++ entries) := by
  obtain ⟨⟨d, douts⟩, hentries, h⟩ := bind_eq_ok.mp h
  obtain ⟨-, hd⟩ := applyEntries_tracked hK hentries hmem hc
  dsimp only at h
  split at h
  · obtain ⟨rawRaft, hraft, h⟩ := bind_eq_ok.mp h
    cases h
    exact hd.continues ⟨hK.setHardState _ _ _ _ (expect_eq_ok hraft), Or.inl rfl⟩
  · cases h
    exact hd

theorem onReady_tracked (hK : K.Lawful) (h : c.onReady = .ok (c', outs)) (hc : Tracked c applied) :
    Tracked c' (applied ++ applies c .onReady) := by
  unfold onReady at h
  unfold applies
  split_ifs at h ⊢ with hready
  · obtain ⟨rawRaft, hraft, h⟩ := bind_eq_ok.mp h
    obtain ⟨⟨d, douts⟩, hcommitted, h⟩ := bind_eq_ok.mp h
    cases h
    have hlog : K.Extends c.rawRaft rawRaft := (hK.ready _).trans (hK.appendLog _ _ _ (expect_eq_ok hraft))
    have hmem : ∀ e ∈ (K.ready c.rawRaft).1.committedEntries.getD [], e ∈ K.allEntries rawRaft := by
      cases hentries : (K.ready c.rawRaft).1.committedEntries with
      | none => exact fun e he => nomatch he
      | some entries => exact fun e he => hlog.subset (List.mem_of_mem_take (hK.committedEntries _ _ hentries e he))
    have hready : Tracked { c with rawRaft := rawRaft } applied := hc.continues ⟨hlog, Or.inl rfl⟩
    exact (applyCommitted_tracked hK hcommitted hmem hready).continues ⟨hK.advance _ _, Or.inl rfl⟩
  · cases h
    rw [List.append_nil]
    exact hc

/-! ### Messages and the other events -/

/-- A raft message keeps the invariant unless it overwrites the change. -/
theorem handleRawRaftMsg_tracked (hK : K.Lawful) {m : K.Message} (hm : ¬ LosesChange c (.rawRaftMsg m))
    (hc : Tracked c applied) : Tracked (c.handleRawRaftMsg m) applied := by
  unfold handleRawRaftMsg
  split_ifs with hrun
  · refine ⟨fun hpending => (hK.hasBegin_step (hc.pending hpending)).mpr fun hover => ?_, hc.finalized⟩
    exact hm ⟨hrun.1, hpending, hover⟩
  · exact hc

theorem handleStop_continues : Continues c c.handleStop.1 := by
  unfold handleStop
  dsimp only
  split_ifs
  · exact ⟨.refl _, Or.inl rfl⟩
  · exact ⟨.refl _, Or.inl rfl⟩

theorem handleStopMsg_continues {fromPid : ℕ} (h : c.handleStopMsg fromPid = .ok (c', outs)) : Continues c c' := by
  unfold handleStopMsg at h
  dsimp only at h
  split_ifs at h
  · cases h
    exact ⟨.refl _, Or.inl rfl⟩
  · cases h
    exact ⟨.refl _, Or.inl rfl⟩

theorem tryCampaignLeader_continues (hK : K.Lawful) : Continues c c.tryCampaignLeader := by
  unfold tryCampaignLeader
  split_ifs
  · exact ⟨hK.campaign _, Or.inl rfl⟩
  · exact .refl _

/-- **One event** keeps the invariant, unless it is a message that overwrites the change. -/
theorem handle_tracked (hK : K.Lawful) {e : ReplicaEvent K} (h : c.handle e = some (.ok (c', outs)))
    (he : ¬ LosesChange c e) (hc : Tracked c applied) : Tracked c' (applied ++ applies c e) := by
  cases e with
  | onReady =>
    simp only [handle] at h
    split_ifs at h
    exact onReady_tracked hK (Option.some.inj h) hc
  | rawRaftMsg m =>
    cases h
    simp only [applies, List.append_nil]
    exact handleRawRaftMsg_tracked hK he hc
  | start =>
    cases h
    have hstart : Continues c { c with timers := true } := ⟨.refl _, Or.inl rfl⟩
    exact hc.keeps hstart rfl
  | propose p =>
    obtain ⟨d, hd, hend⟩ := map_eq_ok.mp (Option.some.inj h)
    cases hend
    exact hc.keeps (propose_continues hK hd) rfl
  | proposeReconfiguration rp rnds =>
    exact hc.keeps (proposeReconfiguration_continues hK (Option.some.inj h)) rfl
  | stop =>
    obtain rfl : c.handleStop.1 = c' := congrArg Prod.fst (Except.ok.inj (Option.some.inj h))
    exact hc.keeps handleStop_continues rfl
  | stopMsg fromPid =>
    exact hc.keeps (handleStopMsg_continues (Option.some.inj h)) rfl
  | tick rnds =>
    simp only [handle] at h
    split_ifs at h
    exact hc.keeps (tick_continues hK (Option.some.inj h)) rfl
  | tryCampaignLeader =>
    simp only [handle] at h
    split_ifs at h
    cases h
    have htimer : Continues c { c with campaigns := c.campaigns - 1 } := ⟨.refl _, Or.inl rfl⟩
    exact hc.keeps (htimer.trans (tryCampaignLeader_continues hK)) rfl

end RaftReplica

/-! ### The exact condition -/

theorem RaftReplica.ignores_iff : c.Ignores ↔ c.reconfigState ≠ .none := by
  constructor
  · intro hc hnone
    -- a proposal is held back, or makes the replica `Pending`, or is forwarded
    have hproposal : ∀ rp, c.proposeReconfiguration rp [] = .ok (c, []) := fun rp => hc rp []
    unfold proposeReconfiguration at hproposal
    simp only [hnone, if_true] at hproposal
    by_cases hno : K.leaderId c.rawRaft = 0
    · simp only [hno, if_true] at hproposal
      have hheld : ∀ rp, c.hbReconfig = some rp := fun rp =>
        (congrArg (fun p => p.1.hbReconfig) (Except.ok.inj (hproposal rp))).symm
      have hsame := (hheld ⟨.replaceLeader, []⟩).symm.trans (hheld ⟨.replaceFollower, []⟩)
      cases hsame
    · by_cases hself : K.leaderId c.rawRaft = K.id c.rawRaft
      · have h := hproposal ⟨.replaceFollower, []⟩
        rw [if_neg hno, if_pos hself] at h
        obtain ⟨newVoters, -, h⟩ := bind_eq_ok.mp h
        obtain ⟨rawRaft, -, h⟩ := bind_eq_ok.mp h
        have hpending : ReconfigurationState.pending = c.reconfigState :=
          congrArg (fun p => p.1.reconfigState) (Except.ok.inj h)
        rw [hnone] at hpending
        cases hpending
      · have h := hproposal ⟨.replaceFollower, []⟩
        rw [if_neg hno, if_neg hself] at h
        cases (congrArg Prod.snd (Except.ok.inj h) :)
  · intro hc rp rnds
    unfold proposeReconfiguration
    rw [if_neg hc]

theorem Tracked.tracksLog {s : Observed K} (h : Tracked s.replica s.applied) : TracksLog s := by
  refine ⟨fun hpending => ?_, fun hignores => ?_⟩
  · obtain ⟨e, he, hbegin⟩ := h.pending hpending
    refine ⟨e, he, hbegin, fun e' he' hfin => ?_⟩
    have hdone := h.finalized e' he' hfin
    rw [hpending] at hdone
    exact absurd hdone (by decide)
  · have hstate := RaftReplica.ignores_iff.mp hignores
    cases hs : s.replica.reconfigState with
    | none => exact absurd hs hstate
    | pending => exact Or.inl (h.pending hs)
    | finished => exact Or.inr (Or.inl rfl)
    | removed => exact Or.inr (Or.inr rfl)

/-- A message that overwrites the change leaves a state that rests on nothing. -/
theorem LosesChange.not_tracksLog (hK : K.Lawful) {m : K.Message} (h : LosesChange c (.rawRaftMsg m))
    (hc : Tracked c applied) : ¬ TracksLog ⟨c.handleRawRaftMsg m, entries⟩ := by
  obtain ⟨hrun, hpending, hover⟩ := h
  intro htracks
  have hstep : c.handleRawRaftMsg m = { c with rawRaft := K.step c.rawRaft m } := by
    unfold RaftReplica.handleRawRaftMsg
    rw [if_pos ⟨hrun, by rw [hpending]; decide⟩]
  rw [hstep] at htracks
  obtain ⟨e, he, hbegin, -⟩ := htracks.pending hpending
  exact (hK.hasBegin_step (hc.pending hpending)).mp ⟨e, he, hbegin⟩ hover

section Runs

variable [DecidableEq K.Message] {rawRaft : ℕ → K.RawNode} {numPeers : ℕ} {s t : Cluster K}
  {e : ℕ × ReplicaEvent K}

theorem step_spec (h : (cluster rawRaft numPeers).step s e = some t) : ∃ c outs,
    (s.replicas e.1).replica.handle e.2 = some (.ok (c, outs)) ∧
      t.replicas = Function.update s.replicas e.1
        ⟨c, (s.replicas e.1).applied ++ applies (s.replicas e.1).replica e.2⟩ := by
  change Cluster.step s e = some t at h
  unfold Cluster.step at h
  dsimp only at h
  split_ifs at h
  split at h
  · rename_i c outs hc
    cases h
    exact ⟨c, outs, hc, rfl⟩
  · cases h
  · cases h

/-- **The exact condition for the state to track the log**, in the runs of any number of replicas over a lawful
crate: no message overwrites the change on which a `Pending` state rests. -/
theorem tracksLog_iff (hK : K.Lawful) {es : List (ℕ × ReplicaEvent K)}
    (hrun : (cluster rawRaft numPeers).run (cluster rawRaft numPeers).init es = some t) :
    (cluster rawRaft numPeers).AllStates (fun s => ∀ pid, TracksLog (s.replicas pid))
        (cluster rawRaft numPeers).init es ↔
      (cluster rawRaft numPeers).AllSteps (fun s e => ¬ LosesChange (s.replicas e.1).replica e.2)
        (cluster rawRaft numPeers).init es := by
  refine Machine.allStates_iff_of_run (J := fun s => ∀ pid, Tracked (s.replicas pid).replica (s.replicas pid).applied)
    (fun s h pid => (h pid).tracksLog) (fun s e t h he hstep pid => ?_) (fun s e t h hstep ht hlose => ?_)
    (fun pid => ?_) hrun
  · obtain ⟨c, outs, hc, hupdate⟩ := step_spec hstep
    rw [hupdate]
    by_cases hpid : pid = e.1
    · subst hpid
      rw [Function.update_self]
      exact RaftReplica.handle_tracked hK hc he (h e.1)
    · rw [Function.update_of_ne hpid]
      exact h pid
  · obtain ⟨c, outs, hc, hupdate⟩ := step_spec hstep
    have hpid := ht e.1
    rw [hupdate, Function.update_self] at hpid
    obtain ⟨pid, e⟩ := e
    cases e with
    | rawRaftMsg m =>
      cases hc
      exact hlose.not_tracksLog hK (h pid) hpid
    | _ => exact hlose
  · exact ⟨(fun h => nomatch h), fun e he => nomatch he⟩

end Runs

/-! ### Two runs of three nodes -/

def simpleNode (pid : ℕ) : simpleRaft.RawNode := SimpleNode.new pid [1, 2, 3] pid

def simpleCluster : Machine (Cluster simpleRaft) (ℕ × ReplicaEvent simpleRaft) := cluster simpleNode 2

/-- The first node is elected and proposes a reconfiguration. -/
def proposed : List (ℕ × ReplicaEvent simpleRaft) :=
  [(1, .start), (2, .start), (3, .start), (1, .tick []), (1, .onReady),
    (2, .rawRaftMsg (SimpleMessage.mk 1 2 1 (.requestVote 0 0))), (2, .onReady),
    (1, .rawRaftMsg (SimpleMessage.mk 2 1 1 .voteGranted)),
    (1, .proposeReconfiguration ⟨.replaceFollower, [4]⟩ [0])]

/-- A majority acknowledges the change, and it begins. -/
def begun : List (ℕ × ReplicaEvent simpleRaft) :=
  [(1, .onReady),
    (2, .rawRaftMsg (SimpleMessage.mk 1 2 1 (.append [⟨.entryNormal, 1, 1, []⟩,
      ⟨.entryConfChange, 2, 1, [3, 2, 3, 4, 1]⟩] 0))), (2, .onReady),
    (1, .rawRaftMsg (SimpleMessage.mk 2 1 1 (.appended 2))), (1, .onReady),
    (1, .rawRaftMsg (SimpleMessage.mk 2 1 1 (.appended 2)))]

theorem begun_tracksLog : ∃ t, simpleCluster.run simpleCluster.init (proposed ++ begun) = some t ∧
    (t.replicas 1).replica.reconfigState = .pending ∧ (t.replicas 1).applied.length = 2 ∧
    simpleCluster.AllStates (fun s => ∀ pid, TracksLog (s.replicas pid)) simpleCluster.init (proposed ++ begun) := by
  have hend : (simpleCluster.run simpleCluster.init (proposed ++ begun)).map (fun t =>
      ((t.replicas 1).replica.reconfigState, (t.replicas 1).applied.length)) = some (.pending, 2) := by
    decide +kernel
  obtain ⟨t, hrun, ht⟩ := Option.map_eq_some_iff.mp hend
  exact ⟨t, hrun, congrArg Prod.fst ht, congrArg Prod.snd ht,
    (tracksLog_iff simpleRaft_lawful hrun).mpr (by decide +kernel)⟩

/-- The second node, which the change has not reached, is elected, and its log overwrites that of the first. The
client then proposes the reconfiguration again. -/
def overwritten : List (ℕ × ReplicaEvent simpleRaft) :=
  [(2, .tick []), (2, .tick []), (2, .onReady),
    (3, .rawRaftMsg (SimpleMessage.mk 2 3 2 (.requestVote 0 0))), (3, .onReady),
    (2, .rawRaftMsg (SimpleMessage.mk 3 2 2 .voteGranted)), (2, .onReady),
    (1, .rawRaftMsg (SimpleMessage.mk 2 1 2 (.append [⟨.entryNormal, 1, 2, []⟩] 0))),
    (1, .proposeReconfiguration ⟨.replaceFollower, [4]⟩ [0])]

theorem overwritten_pending : simpleRaft.Lawful ∧
    ∃ t, simpleCluster.run simpleCluster.init (proposed ++ overwritten) = some t ∧
      simpleRaft.leaderId (t.replicas 1).replica.rawRaft = 2 ∧
      (t.replicas 1).replica.reconfigState = .pending ∧ (t.replicas 1).replica.Ignores ∧
      ¬ TracksLog (t.replicas 1) := by
  have hend : (simpleCluster.run simpleCluster.init (proposed ++ overwritten)).map (fun t =>
      (simpleRaft.leaderId (t.replicas 1).replica.rawRaft, (t.replicas 1).replica.reconfigState,
        decide (simpleRaft.HasBegin (simpleRaft.allEntries (t.replicas 1).replica.rawRaft)))) =
      some (2, .pending, false) := by
    decide +kernel
  obtain ⟨t, hrun, ht⟩ := Option.map_eq_some_iff.mp hend
  simp only [Prod.mk.injEq, decide_eq_false_iff_not] at ht
  have hignores : (t.replicas 1).replica.Ignores := RaftReplica.ignores_iff.mpr (by rw [ht.2.1]; decide)
  refine ⟨simpleRaft_lawful, t, hrun, ht.1, ht.2.1, hignores, fun htracks => ?_⟩
  obtain ⟨e, he, hbegin, -⟩ := htracks.pending ht.2.1
  exact ht.2.2 ⟨e, he, hbegin⟩

end OmniPaxosBench.Raft
