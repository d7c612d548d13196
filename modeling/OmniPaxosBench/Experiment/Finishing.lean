import OmniPaxosBench.Experiment.BaseSteps
import OmniPaxosBench.Experiment.ReconfigClient
import OmniPaxosBench.Lib.Ledger
import OmniPaxosBench.Lib.Machine

/-! # The reconfiguration experiment finishes once

A client with a reconfiguration, from its start to `Stop`. The reconfiguration shares the flight with the
proposals and its answer may come at any time, so each of two handlers can end the experiment. In every
order they do so once, when everything has been answered (`reconfiguration_experiment_finishes`). Next to
the client stands what it has sent so far and which answers it has received. -/

namespace OmniPaxosBench.Experiment

open OmniPaxosBench.Lib OmniPaxosBench.OmniPaxos

/-! ### The windows -/

/-- The numbers that `persist_windowed_results` writes, from the count of the window before. -/
def windowDifferences (build : Build) : ℕ → List ℕ → Except String (List ℕ)
  | _, [] => .ok []
  | prevN, n :: windows => do
    return (← build.sub 64 n prevN) :: (← windowDifferences build n windows)

/-- `persist_windowed_results`: the line that is appended to the file. -/
def persistWindowedResults (build : Build) (windowedRes : WindowedResult) : Except String String := do
  let differences ← windowDifferences build 0 windowedRes.windows
  let numWarmupWindows := windowedRes.numWarmupWindows
  return String.join (differences.map fun n => s!"{n},") ++ s!"| {numWarmupWindows}\n"

/-- Counts that do not decrease can be written. -/
theorem windowDifferences_ok (build : Build) {prevN : ℕ} {windows : List ℕ} (hfirst : ∀ n ∈ windows, prevN ≤ n)
    (h : windows.Pairwise (· ≤ ·)) : ∃ differences, windowDifferences build prevN windows = .ok differences := by
  induction windows generalizing prevN with
  | nil => exact ⟨[], rfl⟩
  | cons n windows ih =>
    rw [List.pairwise_cons] at h
    obtain ⟨differences, hrest⟩ := ih h.1 h.2
    refine ⟨(n - prevN) :: differences, ?_⟩
    unfold windowDifferences
    rw [Build.sub_eq (hfirst n List.mem_cons_self), hrest]
    rfl

theorem persistWindowedResults_ok (build : Build) {windows : List ℕ} (h : windows.Pairwise (· ≤ ·))
    (numWarmupWindows : ℕ) : ∃ line, persistWindowedResults build ⟨numWarmupWindows, windows⟩ = .ok line := by
  obtain ⟨differences, hd⟩ := windowDifferences_ok build (fun n _ => Nat.zero_le n) h
  unfold persistWindowedResults
  dsimp only
  rw [hd]
  exact ⟨_, rfl⟩

namespace ReconfigurationClient

/-! ### Runs of the experiment -/

/-- The data is one of the proposals that have been given an id. -/
def Own (c : ReconfigurationClient) (data : Data) : Prop :=
  ∃ id, idOf data = .ok id ∧ 1 ≤ id ∧ id ≤ c.latestProposalId

instance (c : ReconfigurationClient) (data : Data) : Decidable (c.Own data) :=
  match h : idOf data with
  | .ok id => decidable_of_iff (1 ≤ id ∧ id ≤ c.latestProposalId) (by simp [Own, h])
  | .error _ => isFalse (by simp [Own, h])

/-- The events up to `Stop`: `Run` comes once, and nodes answer or send back what was proposed. -/
def BeforeStop (c : ReconfigurationClient) : ClientEvent → Prop
  | .stop | .peerStop _ => False
  | .run => c.state = .setup
  | .message (.proposalResp data _ _) => c.Own data
  | .message (.proposal p) => c.Own p.data
  | _ => True

instance (c : ReconfigurationClient) : ∀ e, Decidable (c.BeforeStop e)
  | .stop | .peerStop _ => inferInstanceAs (Decidable False)
  | .run => inferInstanceAs (Decidable (c.state = .setup))
  | .message (.proposalResp data _ _) => inferInstanceAs (Decidable (c.Own data))
  | .message (.proposal p) => inferInstanceAs (Decidable (c.Own p.data))
  | .timeout _ | .message (.leader _ _) | .message (.reconfigurationProposal _)
  | .message (.reconfigurationResp _ _ _) => inferInstanceAs (Decidable True)

/-- A reconfiguration is among the messages. -/
def proposesReconfig (outs : List ClientOut) : Bool :=
  outs.any fun
    | .reconfigurationProposal _ _ => true
    | _ => false

/-- The client, what it has sent, and the answers it has received: to which of the proposals of the
experiment, and whether to the reconfiguration. -/
structure Observed where
  client : ReconfigurationClient
  sent : List ClientOut
  answered : Finset ℕ
  reconfigAnswered : Bool

namespace Observed

/-- What is answered after an event. -/
def answeredAfter (s : Observed) : ClientEvent → Finset ℕ
  | .message (.proposalResp data _ _) =>
    match idOf data with
    | .ok id => if s.client.numPreloadedProposals < id then insert id s.answered else s.answered
    | .error _ => s.answered
  | _ => s.answered

/-- A `ReconfigurationResp` answers the reconfiguration if that has been proposed. -/
def reconfigAnsweredAfter (s : Observed) : ClientEvent → Bool
  | .message (.reconfigurationResp _ _ _) => s.reconfigAnswered || proposesReconfig s.sent
  | _ => s.reconfigAnswered

end Observed

/-- The client and its events, each with the time at which it happens. A panic ends the run. -/
def observed (c : ReconfigurationClient) : Machine Observed (ℕ × ClientEvent) where
  init := ⟨c, [], ∅, false⟩
  step s e :=
    match s.client.handle e.1 e.2 with
    | some (.ok (t, outs)) => some ⟨t, s.sent ++ outs, s.answeredAfter e.2, s.reconfigAnsweredAfter e.2⟩
    | some (.error _) | none => none

/-- **The experiment finishes once and at the right time.** -/
structure FinishesOnce (s : Observed) : Prop where
  inFlight : s.client.pendingProposals.len ≤ s.client.numConcurrentProposals
  reconfiguration : proposesReconfig s.sent = true ↔ s.client.numProposals / 2 ≤ s.answered.card
  latch : s.client.finishedLatch =
    if s.answered = Finset.Ioc s.client.numPreloadedProposals s.client.maxProposalId ∧ s.reconfigAnswered then 0
    else 1
  proposed : ∀ origin node id, .proposal origin node id ∈ s.sent → id ≤ s.client.maxProposalId
  windows : s.client.windows.Pairwise (· ≤ ·)
  persisted : ∀ build, ∃ line, persistWindowedResults build ⟨0, s.client.windows⟩ = .ok line

/-- The panics that never happen: of the subtraction, the lookup in `reconfig_timeout` and the latch. -/
def excludedPanics : List String :=
  ["attempt to subtract with overflow", "Could not find MetaData for Reconfiguration in pending_proposals",
    "Failed to countdown finished latch"]

/-! ### The invariant -/

/-- The timers that may fire. A timer of the reconfiguration is the one kept with it. -/
structure TimersOk (c : ReconfigurationClient) : Prop where
  reconfig : ∀ t ∈ c.timers.live, t.callback = .reconfigTimeout →
    ∃ proposalMeta, c.pendingProposals.lookup reconfigId = some proposalMeta ∧ proposalMeta.timer = t
  proposal : ∀ t ∈ c.timers.live, ∀ id, t.callback = .proposalTimeout id → id ≤ c.latestProposalId
  kill : ∀ t ∈ c.timers.live, t.callback ≠ .kill

/-- What holds of the client in every state before `Stop`; `started` and `answered` say whether the
reconfiguration has been proposed and answered. -/
structure Core (c : ReconfigurationClient) (started answered : Bool) : Prop where
  two_le : 2 ≤ c.numProposals
  one_le : 1 ≤ c.numConcurrentProposals
  max : c.maxProposalId = c.numProposals + c.numPreloadedProposals
  ledger : Ledger c.numPreloadedProposals c.latestProposalId (c.pendingProposals.keys.erase reconfigId)
    c.responses.keys
  latest_le : c.latestProposalId ≤ c.maxProposalId
  len_le : c.pendingProposals.len ≤ c.numConcurrentProposals
  started_iff : started = true ↔ c.numProposals / 2 ≤ c.responses.len
  pending_iff : reconfigId ∈ c.pendingProposals ↔ started = true ∧ answered = false
  started_of_answered : answered = true → started = true
  reconfig_some : answered = false → c.reconfig ≠ none
  reconfig_none : answered = true → c.reconfig = none ∨ c.responses.len = c.numProposals
  latch : c.finishedLatch = if c.responses.len = c.numProposals ∧ answered = true then 0 else 1
  setup : c.state = .setup → c.latestProposalId = c.numPreloadedProposals
  finished : c.state = .finished → c.responses.len = c.numProposals

structure Inv (s : Observed) : Prop where
  core : Core s.client (proposesReconfig s.sent) s.reconfigAnswered
  timers : TimersOk s.client
  answered : s.answered = s.client.responses.keys
  proposed : ∀ origin node id, .proposal origin node id ∈ s.sent → id ≤ s.client.maxProposalId
  windows : s.client.windows.Pairwise (· ≤ ·)
  windows_le : ∀ n ∈ s.client.windows, n ≤ s.client.responses.len

variable {c t : ReconfigurationClient} {now : ℕ} {e : ClientEvent} {outs : List ClientOut} {started answered : Bool}
  {id : ℕ}

theorem Core.responses_full (h : Core c started answered) (hlen : c.responses.len = c.numProposals) :
    c.responses.keys = Finset.Ioc c.numPreloadedProposals c.maxProposalId := by
  refine Finset.eq_of_subset_of_card_le (fun id hid => ?_) ?_
  · have hmem := h.ledger.mem_done hid
    exact Finset.mem_Ioc.mpr ⟨hmem.1, hmem.2.trans h.latest_le⟩
  · rw [Nat.card_Ioc, h.max, Nat.add_sub_cancel]
    exact hlen.ge

theorem Core.responses_full_iff (h : Core c started answered) :
    c.responses.keys = Finset.Ioc c.numPreloadedProposals c.maxProposalId ↔ c.responses.len = c.numProposals := by
  refine ⟨fun heq => ?_, h.responses_full⟩
  unfold HashMap.len
  rw [heq, Nat.card_Ioc, h.max, Nat.add_sub_cancel]

/-- A proposal of the experiment is in flight or answered. -/
theorem Core.mem_or (h : Core c started answered) (hlt : c.numPreloadedProposals < id) (hle : id ≤ c.latestProposalId) :
    id ∈ c.pendingProposals ∨ id ∈ c.responses := by
  have hmem : id ∈ Finset.Ioc c.numPreloadedProposals c.latestProposalId := Finset.mem_Ioc.mpr ⟨hlt, hle⟩
  rw [← h.ledger.union, Finset.mem_union, Finset.mem_erase, Finmap.mem_keys, Finmap.mem_keys] at hmem
  exact hmem.imp_left And.right

/-- What is in flight besides the reconfiguration was proposed for the experiment. -/
theorem Core.mem_pending (h : Core c started answered) (hid : id ∈ c.pendingProposals) (hne : id ≠ reconfigId) :
    c.numPreloadedProposals < id ∧ id ≤ c.latestProposalId ∧ id ∉ c.responses := by
  have hmem : id ∈ c.pendingProposals.keys.erase reconfigId :=
    Finset.mem_erase.mpr ⟨hne, Finmap.mem_keys.mpr hid⟩
  obtain ⟨hlt, hle⟩ := h.ledger.mem_inFlight hmem
  exact ⟨hlt, hle, fun hresp => Finset.disjoint_left.mp h.ledger.disjoint hmem (Finmap.mem_keys.mpr hresp)⟩

/-! ### Steps that change no count -/

/-- What the invariant is about is the same. -/
structure Same (c t : ReconfigurationClient) : Prop where
  numProposals : t.numProposals = c.numProposals
  maxProposalId : t.maxProposalId = c.maxProposalId
  preloaded : t.numPreloadedProposals = c.numPreloadedProposals
  concurrent : t.numConcurrentProposals = c.numConcurrentProposals
  latest : t.latestProposalId = c.latestProposalId
  keys : t.pendingProposals.keys = c.pendingProposals.keys
  responses : t.responses = c.responses
  reconfig : t.reconfig = c.reconfig
  finishedLatch : t.finishedLatch = c.finishedLatch
  state : t.state = c.state

theorem Same.refl (c : ReconfigurationClient) : Same c c := ⟨rfl, rfl, rfl, rfl, rfl, rfl, rfl, rfl, rfl, rfl⟩

theorem Core.same (h : Core c started answered) (hsame : Same c t) : Core t started answered := by
  have hlen : t.pendingProposals.len = c.pendingProposals.len := congrArg Finset.card hsame.keys
  refine ⟨?_, ?_, ?_, ?_, ?_, ?_, ?_, ?_, h.started_of_answered, ?_, ?_, ?_, ?_, ?_⟩
  · rw [hsame.numProposals]; exact h.two_le
  · rw [hsame.concurrent]; exact h.one_le
  · rw [hsame.maxProposalId, hsame.numProposals, hsame.preloaded]; exact h.max
  · rw [hsame.preloaded, hsame.latest, hsame.keys, hsame.responses]; exact h.ledger
  · rw [hsame.latest, hsame.maxProposalId]; exact h.latest_le
  · rw [hlen, hsame.concurrent]; exact h.len_le
  · rw [hsame.numProposals, hsame.responses]; exact h.started_iff
  · rw [← Finmap.mem_keys, hsame.keys, Finmap.mem_keys]; exact h.pending_iff
  · rw [hsame.reconfig]; exact h.reconfig_some
  · rw [hsame.reconfig, hsame.responses, hsame.numProposals]; exact h.reconfig_none
  · rw [hsame.finishedLatch, hsame.responses, hsame.numProposals]; exact h.latch
  · rw [hsame.state, hsame.latest, hsame.preloaded]; exact h.setup
  · rw [hsame.state, hsame.responses, hsame.numProposals]; exact h.finished

/-- A message that may be sent without a change: a proposal again, or the reconfiguration again. -/
def Again (c : ReconfigurationClient) : ClientOut → Prop
  | .proposal _ _ id => id ≤ c.latestProposalId
  | .reconfigurationProposal _ _ => reconfigId ∈ c.pendingProposals
  | _ => True

structure Quiet (c t : ReconfigurationClient) (outs : List ClientOut) : Prop where
  same : Same c t
  timers : TimersOk t
  windows : t.windows = c.windows ∨ t.windows = c.windows ++ [c.responses.len]
  outs : ∀ out ∈ outs, c.Again out

/-- Timers that were there before, or are none of the reconfiguration. -/
theorem TimersOk.mono (h : TimersOk c)
    (hlive : ∀ u ∈ t.timers.live, u ∈ c.timers.live ∨
      (∃ id ≤ t.latestProposalId, u.callback = .proposalTimeout id) ∨ u.callback = .window)
    (hlookup : t.pendingProposals.lookup reconfigId = c.pendingProposals.lookup reconfigId)
    (hlatest : c.latestProposalId ≤ t.latestProposalId) : TimersOk t := by
  refine ⟨fun u hu hcb => ?_, fun u hu id hcb => ?_, fun u hu hcb => ?_⟩
  · rcases hlive u hu with hold | ⟨id, -, hid⟩ | hwindow
    · rw [hlookup]
      exact h.reconfig u hold hcb
    · rw [hid] at hcb
      cases hcb
    · rw [hwindow] at hcb
      cases hcb
  · rcases hlive u hu with hold | ⟨id', hle, hid⟩ | hwindow
    · exact (h.proposal u hold id hcb).trans hlatest
    · rw [hid] at hcb
      cases hcb
      exact hle
    · rw [hwindow] at hcb
      cases hcb
  · rcases hlive u hu with hold | ⟨id', -, hid⟩ | hwindow
    · exact h.kill u hold hcb
    · rw [hid] at hcb
      cases hcb
    · rw [hwindow] at hcb
      cases hcb

/-- The timers of an unchanged client, less some. -/
theorem TimersOk.subset (h : TimersOk c) (hlive : ∀ u ∈ t.timers.live, u ∈ c.timers.live)
    (hlookup : t.pendingProposals.lookup reconfigId = c.pendingProposals.lookup reconfigId)
    (hlatest : t.latestProposalId = c.latestProposalId) : TimersOk t :=
  h.mono (fun u hu => Or.inl (hlive u hu)) hlookup hlatest.ge

/-- The reconfiguration is pending with a new timer, which is its only one. -/
theorem TimersOk.renew {proposalMeta : ProposalMetaData} (h : TimersOk c)
    (hlookup : t.pendingProposals.lookup reconfigId = some proposalMeta)
    (hlive : ∀ u ∈ t.timers.live, (u ∈ c.timers.live ∧ u.callback ≠ .reconfigTimeout) ∨
      (u = proposalMeta.timer ∧ u.callback = .reconfigTimeout))
    (hlatest : c.latestProposalId ≤ t.latestProposalId) : TimersOk t := by
  refine ⟨fun u hu hcb => ?_, fun u hu id hcb => ?_, fun u hu hcb => ?_⟩
  · rcases hlive u hu with ⟨-, hother⟩ | ⟨rfl, -⟩
    · exact absurd hcb hother
    · exact ⟨proposalMeta, hlookup, rfl⟩
  · rcases hlive u hu with ⟨hold, -⟩ | ⟨-, hreconfig⟩
    · exact (h.proposal u hold id hcb).trans hlatest
    · rw [hreconfig] at hcb
      cases hcb
  · rcases hlive u hu with ⟨hold, -⟩ | ⟨-, hreconfig⟩
    · exact h.kill u hold hcb
    · rw [hreconfig] at hcb
      cases hcb

theorem handleLeader_ok {pid round : ℕ} (ht : TimersOk c) (h : c.handleLeader now pid round = .ok (t, outs)) :
    Quiet c t outs := by
  unfold handleLeader at h
  split_ifs at h with hsetup hzero hnew
  · cases h
    exact ⟨⟨rfl, rfl, rfl, rfl, rfl, rfl, rfl, rfl, rfl, rfl⟩, ht.subset (fun _ hu => hu) rfl rfl, Or.inl rfl, by simp⟩
  · obtain ⟨changes, heq⟩ := c.toBaseClient.changeLeader_eq now pid round
    rw [heq] at h
    cases h
    exact ⟨⟨rfl, rfl, rfl, rfl, rfl, rfl, rfl, rfl, rfl, rfl⟩, ht.subset (fun _ hu => hu) rfl rfl, Or.inl rfl, by simp⟩
  · cases h
    exact ⟨.refl _, ht, Or.inl rfl, by simp⟩

theorem handlePreloadedResp_ok {latestLeader leaderRound : ℕ} (ht : TimersOk c)
    (h : c.handlePreloadedResp latestLeader leaderRound = .ok (t, outs)) : Quiet c t outs := by
  cases hsub : c.build.sub 64 c.remPreloadedProposals 1 with
  | error m =>
    unfold handlePreloadedResp at h
    rw [hsub] at h
    cases h
  | ok n =>
    rw [handlePreloadedResp_of_sub hsub] at h
    cases h
    exact ⟨⟨rfl, rfl, rfl, rfl, rfl, rfl, rfl, rfl, rfl, rfl⟩, ht.subset (fun _ hu => hu) rfl rfl, Or.inl rfl, by simp⟩

/-- A proposal that is sent again. -/
theorem again_proposal {b : BaseClient} {origin : Origin} {out : ClientOut} (hid : id ≤ c.latestProposalId)
    (h : b.proposeNormal origin id = .ok out) : ∀ o ∈ [out], c.Again o := by
  obtain ⟨-, rfl⟩ := BaseClient.proposeNormal_ok h
  intro o ho
  rw [List.mem_singleton.mp ho]
  exact hid

theorem handleProposal_ok {data : Data} (ht : TimersOk c) (hown : c.Own data)
    (h : c.handleProposal data = .ok (t, outs)) : Quiet c t outs := by
  obtain ⟨id, hid, -, hle⟩ := hown
  unfold handleProposal at h
  rw [hid] at h
  change (if _ then _ else _) = _ at h
  split_ifs at h with hanswered
  · cases h
    exact ⟨.refl _, ht, Or.inl rfl, by simp⟩
  · obtain ⟨out, hout, hend⟩ := bind_eq_ok.mp h
    cases hend
    exact ⟨⟨rfl, rfl, rfl, rfl, rfl, rfl, rfl, rfl, rfl, rfl⟩, ht.subset (fun _ hu => hu) rfl rfl, Or.inl rfl,
      again_proposal hle hout⟩

theorem proposalTimeout_ok (ht : TimersOk c) (hle : id ≤ c.latestProposalId)
    (h : c.proposalTimeout id = .ok (t, outs)) : Quiet c t outs := by
  unfold proposalTimeout at h
  split_ifs at h with hanswered
  · cases h
    exact ⟨.refl _, ht, Or.inl rfl, by simp⟩
  · obtain ⟨out, hout, hend⟩ := bind_eq_ok.mp h
    cases hend
    refine ⟨⟨rfl, rfl, rfl, rfl, rfl, rfl, rfl, rfl, rfl, rfl⟩, ht.mono (fun u hu => ?_) rfl le_rfl, Or.inl rfl,
      again_proposal hle hout⟩
    rcases Timers.mem_schedule.mp hu with hold | rfl
    · exact Or.inl hold
    · exact Or.inr (Or.inl ⟨id, hle, rfl⟩)

/-- After its timer has fired, the reconfiguration is proposed again, with a new timer. -/
theorem reconfigTimeout_ok {timerId : ℕ} (ht : TimersOk c)
    (hfired : ⟨timerId, .reconfigTimeout⟩ ∈ c.timers.live)
    (h : liftBase { c with timers := c.timers.remove timerId }
      { c.toBaseClient with timers := c.timers.remove timerId }.reconfigTimeout = .ok (t, outs)) :
    Quiet c t outs := by
  obtain ⟨⟨b, outs'⟩, hre, hend⟩ := map_eq_ok.mp h
  obtain ⟨proposalMeta, hmeta, rfl, node, rp, rfl⟩ := BaseClient.reconfigTimeout_ok hre
  cases hend
  have hmem : reconfigId ∈ c.pendingProposals := HashMap.mem_of_lookup hmeta
  obtain ⟨kept, hkept, htimer⟩ := ht.reconfig _ hfired rfl
  refine ⟨⟨rfl, rfl, rfl, rfl, rfl, ?_, rfl, rfl, rfl, rfl⟩,
    ht.renew (Finmap.lookup_insert _) (fun u hu => ?_) le_rfl, Or.inl rfl, ?_⟩
  · change (c.pendingProposals.insert reconfigId _).keys = _
    rw [HashMap.keys_insert, Finset.insert_eq_self]
    exact Finmap.mem_keys.mpr hmem
  · rcases Timers.mem_schedule.mp hu with hold | rfl
    · -- the fired timer was the only one of the reconfiguration
      obtain ⟨hold, hne⟩ := Timers.mem_remove.mp hold
      refine Or.inl ⟨hold, fun hcb => ?_⟩
      obtain ⟨kept', hkept', htimer'⟩ := ht.reconfig u hold hcb
      cases Option.some.inj (hkept.symm.trans hkept')
      rw [← htimer', htimer] at hne
      exact hne rfl
    · exact Or.inr ⟨rfl, rfl⟩
  · intro o ho
    rw [List.mem_singleton.mp ho]
    exact hmem

/-- **A timer** changes no count. -/
theorem handleTimeout_ok {timerId : ℕ} (ht : TimersOk c) (h : c.handleTimeout timerId = some (.ok (t, outs))) :
    Quiet c t outs := by
  obtain ⟨cb, hcb, hrun⟩ := Option.bind_eq_some_iff.mp h
  have hfired := Timers.callbackOf_eq_some hcb
  have hrest : TimersOk { c with timers := c.timers.remove timerId } :=
    ht.subset (fun u hu => (Timers.mem_remove.mp hu).1) rfl rfl
  cases cb with
  | proposalTimeout id =>
    have hquiet := proposalTimeout_ok hrest (ht.proposal _ hfired id rfl) (Option.some.inj hrun)
    exact ⟨⟨hquiet.same.numProposals, hquiet.same.maxProposalId, hquiet.same.preloaded, hquiet.same.concurrent,
      hquiet.same.latest, hquiet.same.keys, hquiet.same.responses, hquiet.same.reconfig,
      hquiet.same.finishedLatch, hquiet.same.state⟩, hquiet.timers, hquiet.windows, hquiet.outs⟩
  | reconfigTimeout => exact reconfigTimeout_ok ht hfired (Option.some.inj hrun)
  | window =>
    cases hrun
    exact ⟨⟨rfl, rfl, rfl, rfl, rfl, rfl, rfl, rfl, rfl, rfl⟩, ht.subset (fun _ hu => hu) rfl rfl, Or.inr rfl,
      by simp⟩
  | kill => exact absurd rfl (ht.kill _ hfired)
  | experimentTimeout => cases hrun
  | warmupDone => cases hrun
  | recoverPartition => cases hrun
  | disconnectNonLagging followers laggingFollower leader => cases hrun

/-! ### New proposals -/

/-- After a step that counts an answer. -/
structure Next (c t : ReconfigurationClient) (outs : List ClientOut) (started answered : Bool) : Prop where
  core : Core t started answered
  timers : TimersOk t
  responses : t.responses = c.responses
  windows : t.windows = c.windows
  max : t.maxProposalId = c.maxProposalId
  outs : ∀ out ∈ outs, ∃ origin node id, out = .proposal origin node id ∧ id ≤ c.maxProposalId

theorem sendConcurrentProposals_ok (h : Core c started answered) (ht : TimersOk c) (hstate : c.state ≠ .setup)
    (hsend : c.sendConcurrentProposals now = .ok (t, outs)) : Next c t outs started answered := by
  obtain ⟨⟨b, outs'⟩, hbase, hend⟩ := map_eq_ok.mp hsend
  obtain ⟨n, pending, timers, rfl, hp, rfl, hn⟩ := BaseClient.sendConcurrentProposals_ok h.len_le hbase
  cases hend
  have hroom : n ≤ min (c.numConcurrentProposals - c.pendingProposals.len) (c.maxProposalId - c.latestProposalId) := by
    rw [hn]
    split_ifs
    · exact Nat.zero_le _
    · exact le_rfl
  have hmax := h.latest_le
  have hzero : reconfigId ∉ List.range' (c.latestProposalId + 1) n := by
    rw [List.mem_range'_1]
    unfold reconfigId
    omega
  have hpending : reconfigId ∈ pending ↔ reconfigId ∈ c.pendingProposals := by
    rw [← Finmap.mem_keys, hp.keys, Finset.mem_union, List.mem_toFinset, Finmap.mem_keys]
    exact or_iff_left hzero
  refine ⟨⟨h.two_le, h.one_le, h.max, ?_, by dsimp only; omega, ?_, h.started_iff, hpending.trans h.pending_iff,
    h.started_of_answered, h.reconfig_some, h.reconfig_none, h.latch, fun hs => absurd hs hstate, h.finished⟩, ?_,
    rfl, rfl, rfl, ?_⟩
  · have hnext := h.ledger.propose n
    change Ledger _ (c.latestProposalId + n) (pending.keys.erase reconfigId) _
    rw [hp.keys, Finset.erase_union_distrib, Finset.erase_eq_of_notMem (List.mem_toFinset.not.mpr hzero)]
    exact hnext
  · change pending.keys.card ≤ c.numConcurrentProposals
    have hlen : c.pendingProposals.keys.card ≤ c.numConcurrentProposals := h.len_le
    change n ≤ min (c.numConcurrentProposals - c.pendingProposals.keys.card) _ at hroom
    have hcard := Finset.card_union_le c.pendingProposals.keys (List.range' (c.latestProposalId + 1) n).toFinset
    have hnew := List.toFinset_card_le (List.range' (c.latestProposalId + 1) n)
    rw [List.length_range'] at hnew
    rw [hp.keys]
    omega
  · refine ht.mono (fun u hu => ?_) (hp.lookup reconfigId hzero) (Nat.le_add_right _ _)
    rcases hp.timers u hu with hold | ⟨id, hid, hcb⟩
    · exact Or.inl hold
    · rw [List.mem_range'_1] at hid
      exact Or.inr (Or.inl ⟨id, by dsimp only; omega, hcb⟩)
  · intro out hout
    obtain ⟨id, hid, rfl⟩ := List.mem_map.mp hout
    rw [List.mem_range'_1] at hid
    exact ⟨.fresh, _, id, rfl, by omega⟩

/-- **`Run`** starts the window timer and the first proposals. -/
theorem handleRun_ok (h : Core c started answered) (ht : TimersOk c) (hrun : c.handleRun now = .ok (t, outs)) :
    Next c t outs started answered := by
  unfold handleRun at hrun
  dsimp only at hrun
  split_ifs at hrun with hzero
  · cases hrun
  · have hcore : Core { c with
        state := .running
        windowTimer := some (c.timers.handle .window)
        timers := c.timers.schedule .window } started answered :=
      ⟨h.two_le, h.one_le, h.max, h.ledger, h.latest_le, h.len_le, h.started_iff, h.pending_iff,
        h.started_of_answered, h.reconfig_some, h.reconfig_none, h.latch, fun hs => (nomatch hs),
        fun hs => nomatch hs⟩
    have hnext := sendConcurrentProposals_ok hcore (ht.mono (fun u hu => by
      rcases Timers.mem_schedule.mp hu with hold | rfl
      · exact Or.inl hold
      · exact Or.inr (Or.inr rfl)) rfl le_rfl) (fun hs => nomatch hs) hrun
    exact ⟨hnext.core, hnext.timers, hnext.responses, hnext.windows, hnext.max, hnext.outs⟩

/-! ### The answer to a proposal -/

/-- The answered proposal has moved from the flight to the responses. -/
structure Took (id : ℕ) (c r : ReconfigurationClient) : Prop where
  numProposals : r.numProposals = c.numProposals
  maxProposalId : r.maxProposalId = c.maxProposalId
  preloaded : r.numPreloadedProposals = c.numPreloadedProposals
  concurrent : r.numConcurrentProposals = c.numConcurrentProposals
  latest : r.latestProposalId = c.latestProposalId
  flight : r.pendingProposals.keys.erase reconfigId = (c.pendingProposals.keys.erase reconfigId).erase id
  len_le : r.pendingProposals.len ≤ c.pendingProposals.len
  responses : r.responses.keys = insert id c.responses.keys
  reconfig : r.reconfig = c.reconfig
  windows : r.windows = c.windows
  state : r.state ≠ .setup

section Took

variable {r : ReconfigurationClient} (h : Core c started answered) (hid : id ∈ c.pendingProposals)
  (hne : id ≠ reconfigId) (htook : Took id c r)
include h hid hne htook

theorem Took.ledger : Ledger r.numPreloadedProposals r.latestProposalId (r.pendingProposals.keys.erase reconfigId)
    r.responses.keys := by
  rw [htook.preloaded, htook.latest, htook.flight, htook.responses]
  exact h.ledger.answer (Finset.mem_erase.mpr ⟨hne, Finmap.mem_keys.mpr hid⟩)

theorem Took.responses_len : r.responses.len = c.responses.len + 1 := by
  unfold HashMap.len
  rw [htook.responses, Finset.card_insert_of_notMem]
  rw [Finmap.mem_keys]
  exact (h.mem_pending hid hne).2.2

/-- There was an answer to wait for. -/
theorem Took.responses_lt : c.responses.len < c.numProposals := by
  have hlen := Took.responses_len h hid hne htook
  have hnext := (Took.ledger h hid hne htook).card
  have hmax := h.max
  have hlatest := h.latest_le
  change _ + r.responses.len = _ at hnext
  rw [htook.latest, htook.preloaded] at hnext
  omega

/-- The invariant, if the reconfiguration and the latch are as they should. -/
theorem Took.core {started' : Bool} (hstarted : started' = true ↔ c.numProposals / 2 ≤ r.responses.len)
    (hpending : reconfigId ∈ r.pendingProposals ↔ started' = true ∧ answered = false)
    (hanswered : answered = true → started' = true)
    (hlatch : r.finishedLatch = if r.responses.len = c.numProposals ∧ answered = true then 0 else 1)
    (hfinished : r.state = .finished → r.responses.len = c.numProposals) : Core r started' answered := by
  have hlt := Took.responses_lt h hid hne htook
  refine ⟨?_, ?_, ?_, Took.ledger h hid hne htook, ?_, ?_, ?_, hpending, hanswered, ?_, ?_, ?_,
    fun hs => absurd hs htook.state, ?_⟩
  · rw [htook.numProposals]; exact h.two_le
  · rw [htook.concurrent]; exact h.one_le
  · rw [htook.maxProposalId, htook.numProposals, htook.preloaded]; exact h.max
  · rw [htook.latest, htook.maxProposalId]; exact h.latest_le
  · rw [htook.concurrent]; exact htook.len_le.trans h.len_le
  · rw [htook.numProposals]; exact hstarted
  · rw [htook.reconfig]; exact h.reconfig_some
  · rw [htook.reconfig]
    exact fun hans => Or.inl ((h.reconfig_none hans).resolve_right hlt.ne)
  · rw [htook.numProposals]; exact hlatch
  · rw [htook.numProposals]; exact hfinished

end Took

/-- The client when the answer has been taken off and a leader learnt. -/
theorem took_insert (h : Core c started answered) (hid : id ∈ c.pendingProposals) (hne : id ≠ reconfigId)
    (proposalMeta : ProposalMetaData) (pid round : ℕ) (changes : List (ℕ × ℕ × ℕ)) (latency : Option ℕ) :
    Took id c { c with
      toBaseClient := { (c.toBaseClient.removePending id proposalMeta).withLeader pid round changes with
        responses := c.responses.insert id latency } } := by
  refine ⟨rfl, rfl, rfl, rfl, rfl, ?_, ?_, HashMap.keys_insert, rfl, rfl, fun hs => ?_⟩
  · change (c.pendingProposals.erase id).keys.erase reconfigId = _
    rw [Finmap.keys_erase, Finset.erase_right_comm]
  · change (c.pendingProposals.erase id).keys.card ≤ _
    rw [Finmap.keys_erase]
    exact Finset.card_le_card (Finset.erase_subset id _)
  · have hmem := h.mem_pending hid hne
    have := h.setup hs
    omega

theorem timersOk_insert (ht : TimersOk c) (hne : id ≠ reconfigId) (proposalMeta : ProposalMetaData)
    (pid round : ℕ) (changes : List (ℕ × ℕ × ℕ)) (latency : Option ℕ) :
    TimersOk { c with
      toBaseClient := { (c.toBaseClient.removePending id proposalMeta).withLeader pid round changes with
        responses := c.responses.insert id latency } } :=
  ht.subset (fun _ hu => Timers.mem_of_mem_cancel hu) (Finmap.lookup_erase_ne (Ne.symm hne)) rfl

/-- After `handle_normal_response`, before new proposals are made. -/
structure Responded (id : ℕ) (c d : ReconfigurationClient) (outs : List ClientOut) (started answered : Bool) :
    Prop where
  core : Core d (started || proposesReconfig outs) answered
  timers : TimersOk d
  responses : d.responses.keys = insert id c.responses.keys
  windows : d.windows = c.windows
  max : d.maxProposalId = c.maxProposalId
  state : d.state ≠ .setup
  outs : ∀ out ∈ outs, ∃ node rp, out = .reconfigurationProposal node rp

/-- `handle_normal_response` after the insertion. -/
def countResponses (c : ReconfigurationClient) (now : ℕ) : Result :=
  if c.responses.len = c.numProposals then
    if c.reconfig = none then do
      return ({ c with toBaseClient := ← c.toBaseClient.cancelWindowTimer.finish }, [])
    else .ok (c, [])
  else if c.responses.len = c.numProposals / reconfigurationWarmupFactor ∧ c.reconfig ≠ none then
    c.liftBase (c.toBaseClient.startReconfiguration now)
  else .ok (c, [])

theorem handleNormalResponse_eq (c : ReconfigurationClient) (now id : ℕ) (latency : Option ℕ) :
    c.handleNormalResponse now id latency =
      { c with responses := c.responses.insert id latency }.countResponses now := rfl

section Count

variable {r d : ReconfigurationClient} (h : Core c started answered) (hid : id ∈ c.pendingProposals)
  (hne : id ≠ reconfigId) (htook : Took id c r) (ht : TimersOk r)
  (hmem : reconfigId ∈ r.pendingProposals ↔ reconfigId ∈ c.pendingProposals)
  (hlatch : r.finishedLatch = 1)
include h hid hne htook ht hmem hlatch

/-- The last answer, after that to the reconfiguration: the experiment is finished. -/
theorem finish_responded (hlast : r.responses.len = c.numProposals) (hnone : r.reconfig = none) {b : BaseClient}
    (hfinish : r.toBaseClient.cancelWindowTimer.finish = .ok b) :
    Responded id c { r with toBaseClient := b } [] started answered := by
  have htwo := h.two_le
  have hans : answered = true := by
    by_contra hfalse
    exact h.reconfig_some (by simpa using hfalse) (htook.reconfig ▸ hnone)
  obtain ⟨timers, windowTimer, heq, hlive⟩ := r.toBaseClient.cancelWindowTimer_eq
  rw [heq] at hfinish
  obtain ⟨-, rfl⟩ := BaseClient.finish_ok hfinish
  have htook' : Took id c { r with
      timers := timers, windowTimer := windowTimer, finishedLatch := r.finishedLatch - 1, state := .finished } :=
    ⟨htook.numProposals, htook.maxProposalId, htook.preloaded, htook.concurrent, htook.latest, htook.flight,
      htook.len_le, htook.responses, htook.reconfig, htook.windows, fun hs => nomatch hs⟩
  have hhalf : c.numProposals / 2 ≤ r.responses.len := by omega
  have hzero : r.finishedLatch - 1 = 0 := by omega
  refine ⟨?_, ht.subset hlive rfl rfl, htook.responses, htook.windows, htook.maxProposalId, htook'.state, by simp⟩
  change Core _ (started || false) answered
  rw [Bool.or_false]
  refine Took.core h hid hne htook' (iff_of_true (h.started_of_answered hans) hhalf) (hmem.trans h.pending_iff)
    h.started_of_answered ?_ fun _ => hlast
  exact hzero.trans (if_pos ⟨hlast, hans⟩).symm

/-- An answer that neither starts the reconfiguration nor ends the experiment. -/
theorem plain_responded (hfin : r.state ≠ .finished)
    (hstarted : started = true ↔ c.numProposals / 2 ≤ r.responses.len)
    (hlast : r.responses.len = c.numProposals → answered = false) : Responded id c r [] started answered := by
  refine ⟨?_, ht, htook.responses, htook.windows, htook.maxProposalId, htook.state, by simp⟩
  change Core _ (started || false) answered
  rw [Bool.or_false]
  refine Took.core h hid hne htook hstarted (hmem.trans h.pending_iff) h.started_of_answered ?_
    fun hs => absurd hs hfin
  rw [hlatch, if_neg]
  rintro ⟨hlen, hans⟩
  rw [hlast hlen] at hans
  cases hans

/-- The answer in the middle starts the reconfiguration, which takes the place of the answered proposal. -/
theorem start_responded (hless : r.pendingProposals.len < c.pendingProposals.len) (hfin : r.state ≠ .finished)
    (hhalf : r.responses.len = c.numProposals / 2) {b : BaseClient}
    (hstart : r.toBaseClient.startReconfiguration now = .ok (b, outs)) :
    Responded id c { r with toBaseClient := b } outs started answered := by
  have htwo := h.two_le
  have hlen := Took.responses_len h hid hne htook
  have hnot : started ≠ true := fun hs => by
    have := h.started_iff.mp hs
    omega
  have hans : answered = false := by
    by_contra htrue
    exact hnot (h.started_of_answered (by simpa using htrue))
  have hfree : reconfigId ∉ r.pendingProposals := fun hc => hnot (h.pending_iff.mp (hmem.mp hc)).1
  obtain ⟨rfl, node, rp, rfl⟩ := BaseClient.startReconfiguration_ok hstart
  have hkeys : (r.pendingProposals.insert reconfigId
      ⟨none, r.timers.handle .reconfigTimeout⟩).keys = insert reconfigId r.pendingProposals.keys :=
    HashMap.keys_insert
  have htook' : Took id c { r with
      toBaseClient := { r.toBaseClient with reconfigStartTs := some now }.addPending reconfigId none
        .reconfigTimeout } := by
    refine ⟨htook.numProposals, htook.maxProposalId, htook.preloaded, htook.concurrent, htook.latest, ?_, ?_,
      htook.responses, htook.reconfig, htook.windows, htook.state⟩
    · change (r.pendingProposals.insert reconfigId _).keys.erase reconfigId = _
      rw [hkeys, Finset.erase_insert (Finmap.mem_keys.not.mpr hfree), ← htook.flight,
        Finset.erase_eq_of_notMem (Finmap.mem_keys.not.mpr hfree)]
    · change (r.pendingProposals.insert reconfigId _).keys.card ≤ _
      rw [hkeys, Finset.card_insert_of_notMem (Finmap.mem_keys.not.mpr hfree)]
      exact hless
  have htimers : ∀ u ∈ (r.timers.schedule .reconfigTimeout).live,
      (u ∈ r.timers.live ∧ u.callback ≠ .reconfigTimeout) ∨
        (u = r.timers.handle .reconfigTimeout ∧ u.callback = .reconfigTimeout) := fun u hu => by
    rcases Timers.mem_schedule.mp hu with hold | rfl
    · refine Or.inl ⟨hold, fun hcb => ?_⟩
      obtain ⟨kept, hkept, -⟩ := ht.reconfig u hold hcb
      exact hfree (HashMap.mem_of_lookup hkept)
    · exact Or.inr ⟨rfl, rfl⟩
  refine ⟨?_, ht.renew (Finmap.lookup_insert _) htimers le_rfl, htook.responses, htook.windows, htook.maxProposalId,
    htook'.state, fun out hout => ⟨node, rp, List.mem_singleton.mp hout⟩⟩
  change Core _ (started || true) answered
  rw [Bool.or_true]
  refine Took.core h hid hne htook' (iff_of_true rfl hhalf.ge) (iff_of_true ?_ ⟨rfl, hans⟩) (fun _ => rfl) ?_
    fun hs => absurd hs hfin
  · exact Finmap.mem_insert.mpr (Or.inl rfl)
  · refine hlatch.trans (if_neg ?_).symm
    rw [hans]
    rintro ⟨-, hc⟩
    cases hc

end Count

/-- **`handle_normal_response`** of an answer that has been taken off. -/
theorem countResponses_ok {r d : ReconfigurationClient} (h : Core c started answered)
    (hid : id ∈ c.pendingProposals) (hne : id ≠ reconfigId) (htook : Took id c r) (ht : TimersOk r)
    (hmem : reconfigId ∈ r.pendingProposals ↔ reconfigId ∈ c.pendingProposals)
    (hless : r.pendingProposals.len < c.pendingProposals.len) (hlatch : r.finishedLatch = c.finishedLatch)
    (hfin : r.state ≠ .finished) (hcount : r.countResponses now = .ok (d, outs)) :
    Responded id c d outs started answered := by
  have htwo := h.two_le
  have hlen := Took.responses_len h hid hne htook
  have hlt := Took.responses_lt h hid hne htook
  have hone : r.finishedLatch = 1 := by rw [hlatch, h.latch, if_neg fun hc => hlt.ne hc.1]
  have hnone_iff : r.reconfig = none ↔ answered = true := by
    rw [htook.reconfig]
    refine ⟨fun hnone => ?_, fun hans => (h.reconfig_none hans).resolve_right hlt.ne⟩
    by_contra hfalse
    exact h.reconfig_some (by simpa using hfalse) hnone
  have hnum := htook.numProposals
  unfold countResponses at hcount
  split_ifs at hcount with hlast hnone hhalf
  · obtain ⟨b, hfinish, hend⟩ := bind_eq_ok.mp hcount
    cases hend
    exact finish_responded h hid hne htook ht hmem hone (hlast.trans hnum) hnone hfinish
  · cases hcount
    refine plain_responded h hid hne htook ht hmem hone hfin ?_ fun _ => ?_
    · exact iff_of_true (h.started_iff.mpr (by omega)) (by omega)
    · exact by simpa using hnone_iff.not.mp hnone
  · obtain ⟨⟨b, outs'⟩, hstart, hend⟩ := map_eq_ok.mp hcount
    cases hend
    exact start_responded h hid hne htook ht hmem hone hless hfin (by rw [hhalf.1, hnum]; rfl) hstart
  · cases hcount
    refine plain_responded h hid hne htook ht hmem hone hfin ?_ fun hc => absurd (hc.trans hnum.symm) hlast
    rw [h.started_iff]
    by_cases hnone : r.reconfig = none
    · have := h.started_iff.mp (h.started_of_answered (hnone_iff.mp hnone))
      exact iff_of_true this (by omega)
    · have hne' : r.responses.len ≠ c.numProposals / 2 := fun hc => hhalf ⟨by rw [hc, hnum]; rfl, hnone⟩
      omega

/-- **`handle_normal_response`**: the last answer ends the experiment if the reconfiguration was answered
before; the answer in the middle starts the reconfiguration. -/
theorem handleNormalResponse_ok {d : ReconfigurationClient} {proposalMeta : ProposalMetaData} {pid round : ℕ}
    {changes : List (ℕ × ℕ × ℕ)} {latency : Option ℕ} (h : Core c started answered) (ht : TimersOk c)
    (hid : id ∈ c.pendingProposals) (hne : id ≠ reconfigId) (hfin : c.state ≠ .finished)
    (hresp : { c with
      toBaseClient := (c.toBaseClient.removePending id proposalMeta).withLeader pid round changes
      }.handleNormalResponse now id latency = .ok (d, outs)) :
    Responded id c d outs started answered := by
  have hless : HashMap.len (c.pendingProposals.erase id) < c.pendingProposals.len := by
    unfold HashMap.len
    rw [Finmap.keys_erase]
    exact Finset.card_erase_lt_of_mem (Finmap.mem_keys.mpr hid)
  have hreconf : reconfigId ∈ c.pendingProposals.erase id ↔ reconfigId ∈ c.pendingProposals := by
    rw [Finmap.mem_erase]
    exact and_iff_right (Ne.symm hne)
  rw [handleNormalResponse_eq] at hresp
  exact countResponses_ok h hid hne (took_insert h hid hne proposalMeta pid round changes latency)
    (timersOk_insert ht hne proposalMeta pid round changes latency) hreconf hless rfl hfin hresp

/-- After an answer: everything but the responses and what is sent. -/
structure After (c t : ReconfigurationClient) (outs : List ClientOut) (started answered : Bool) : Prop where
  core : Core t (started || proposesReconfig outs) answered
  timers : TimersOk t
  windows : t.windows = c.windows
  max : t.maxProposalId = c.maxProposalId
  outs : ∀ origin node id, .proposal origin node id ∈ outs → id ≤ c.maxProposalId

theorem proposesReconfig_append (outs outs' : List ClientOut) :
    proposesReconfig (outs ++ outs') = (proposesReconfig outs || proposesReconfig outs') := List.any_append

/-- New proposals are no reconfiguration. -/
theorem Next.proposesReconfig (h : Next c t outs started answered) : proposesReconfig outs = false := by
  refine List.any_eq_false.mpr fun out hout => ?_
  obtain ⟨origin, node, id, rfl, -⟩ := h.outs out hout
  simp

theorem Next.proposal_le (h : Next c t outs started answered) {origin : Origin} {node : ℕ}
    (hout : .proposal origin node id ∈ outs) : id ≤ c.maxProposalId := by
  obtain ⟨origin', node', id', heq, hle⟩ := h.outs _ hout
  cases heq
  exact hle

theorem Next.after (h : Next c t outs started answered) : After c t outs started answered := by
  refine ⟨?_, h.timers, h.windows, h.max, fun origin node id hout => h.proposal_le hout⟩
  rw [h.proposesReconfig, Bool.or_false]
  exact h.core

theorem Responded.after {d : ReconfigurationClient} {outs' : List ClientOut}
    (h : Responded id c d outs started answered)
    (hnext : Next d t outs' (started || proposesReconfig outs) answered) :
    After c t (outs ++ outs') started answered := by
  refine ⟨?_, hnext.timers, hnext.windows.trans h.windows, hnext.max.trans h.max, fun origin node k hout => ?_⟩
  · rw [proposesReconfig_append, hnext.proposesReconfig, Bool.or_false]
    exact hnext.core
  · rcases List.mem_append.mp hout with hout | hout
    · obtain ⟨node', rp, heq⟩ := h.outs _ hout
      cases heq
    · exact (hnext.proposal_le hout).trans h.max.le

/-- **An answer to a proposal** is counted if it is the first one; what is counted is then what was answered. -/
theorem handleProposalResp_ok {data : Data} {latestLeader leaderRound : ℕ} (h : Core c started answered)
    (ht : TimersOk c) (hid : idOf data = .ok id) (hpos : 1 ≤ id) (hle : id ≤ c.latestProposalId)
    (hresp : c.handleProposalResp now data latestLeader leaderRound = .ok (t, outs)) :
    (Quiet c t outs ∧ (c.numPreloadedProposals < id → id ∈ c.responses)) ∨
    (After c t outs started answered ∧ c.numPreloadedProposals < id ∧
      t.responses.keys = insert id c.responses.keys) := by
  have hne : id ≠ reconfigId := Nat.one_le_iff_ne_zero.mp hpos
  by_cases hfin : c.state = .finished
  · unfold handleProposalResp at hresp
    rw [if_pos hfin] at hresp
    cases hresp
    refine Or.inl ⟨⟨.refl _, ht, Or.inl rfl, by simp⟩, fun hlt => ?_⟩
    rw [← Finmap.mem_keys, h.responses_full (h.finished hfin)]
    exact Finset.mem_Ioc.mpr ⟨hlt, hle.trans h.latest_le⟩
  cases hmeta : c.pendingProposals.lookup id with
  | some proposalMeta =>
    right
    rw [handleProposalResp_of_some latestLeader leaderRound hfin hid hmeta] at hresp
    have hmem : id ∈ c.pendingProposals := HashMap.mem_of_lookup hmeta
    obtain ⟨pid, round, changes, hlearn, -⟩ :=
      (c.toBaseClient.removePending id proposalMeta).learnLeader_eq now latestLeader leaderRound
    rw [hlearn] at hresp
    obtain ⟨⟨d, outs1⟩, hnormal, hrest⟩ := bind_eq_ok.mp hresp
    obtain ⟨⟨t', outs2⟩, hsend, hend⟩ := map_eq_ok.mp hrest
    cases hend
    have hresponded := handleNormalResponse_ok h ht hmem hne hfin hnormal
    have hnext := sendConcurrentProposals_ok hresponded.core hresponded.timers hresponded.state hsend
    refine ⟨hresponded.after hnext, (h.mem_pending hmem hne).1, ?_⟩
    rw [hnext.responses]
    exact hresponded.responses
  | none =>
    left
    rw [handleProposalResp_of_none latestLeader leaderRound hfin hid hmeta] at hresp
    have hanswered : c.numPreloadedProposals < id → id ∈ c.responses := fun hlt =>
      (h.mem_or hlt hle).resolve_left (Finmap.lookup_eq_none.mp hmeta)
    split_ifs at hresp with hpre
    · exact ⟨handlePreloadedResp_ok ht hresp, hanswered⟩
    · cases hresp
      exact ⟨⟨.refl _, ht, Or.inl rfl, by simp⟩, hanswered⟩

/-! ### The answer to the reconfiguration -/

/-- Once the reconfiguration is proposed, the setup is over. -/
theorem Core.not_setup (h : Core c started answered) (hstarted : started = true) : c.state ≠ .setup := fun hs => by
  have hhalf := h.started_iff.mp hstarted
  have hcard := h.ledger.card
  have hsetup := h.setup hs
  have htwo := h.two_le
  change _ + c.responses.len = _ at hcard
  omega

/-- The reconfiguration has been taken off the flight. -/
theorem Core.reconfigAnswered {r : ReconfigurationClient} (h : Core c started false)
    (hmem : reconfigId ∈ c.pendingProposals) (hnum : r.numProposals = c.numProposals)
    (hmax : r.maxProposalId = c.maxProposalId) (hpre : r.numPreloadedProposals = c.numPreloadedProposals)
    (hconc : r.numConcurrentProposals = c.numConcurrentProposals) (hlatest : r.latestProposalId = c.latestProposalId)
    (hpending : r.pendingProposals = c.pendingProposals.erase reconfigId) (hresp : r.responses = c.responses)
    (hrec : r.reconfig = none ∨ c.responses.len = c.numProposals)
    (hlatch : r.finishedLatch = if c.responses.len = c.numProposals then 0 else 1) (hsetup : r.state ≠ .setup)
    (hfin : r.state = .finished → c.responses.len = c.numProposals) : Core r started true := by
  have hstarted : started = true := (h.pending_iff.mp hmem).1
  have hkeys : r.pendingProposals.keys = c.pendingProposals.keys.erase reconfigId := by
    rw [hpending, Finmap.keys_erase]
  refine ⟨?_, ?_, ?_, ?_, ?_, ?_, ?_, ?_, fun _ => hstarted, fun hc => (nomatch hc), fun _ => ?_, ?_,
    fun hs => absurd hs hsetup, ?_⟩
  · rw [hnum]; exact h.two_le
  · rw [hconc]; exact h.one_le
  · rw [hmax, hnum, hpre]; exact h.max
  · rw [hpre, hlatest, hkeys, hresp, Finset.erase_idem]; exact h.ledger
  · rw [hlatest, hmax]; exact h.latest_le
  · rw [hconc]
    refine le_trans ?_ h.len_le
    change r.pendingProposals.keys.card ≤ c.pendingProposals.keys.card
    rw [hkeys]
    exact Finset.card_le_card (Finset.erase_subset _ _)
  · rw [hnum, hresp]; exact h.started_iff
  · rw [hpending]
    exact iff_of_false Finmap.notMem_erase_self (fun hc => nomatch hc.2)
  · rw [hresp, hnum]; exact hrec
  · rw [hresp, hnum]
    simpa using hlatch
  · rw [hresp, hnum]; exact hfin

/-- The timer of the reconfiguration is cancelled with it. -/
theorem TimersOk.reconfigAnswered {r : ReconfigurationClient} {proposalMeta : ProposalMetaData} (h : TimersOk c)
    (hmeta : c.pendingProposals.lookup reconfigId = some proposalMeta)
    (hlive : r.timers = c.timers.cancel proposalMeta.timer) (hlatest : r.latestProposalId = c.latestProposalId) :
    TimersOk r := by
  refine ⟨fun u hu hcb => ?_, fun u hu id hcb => ?_, fun u hu => ?_⟩
  · rw [hlive] at hu
    obtain ⟨hold, hne⟩ := Timers.mem_remove.mp hu
    obtain ⟨kept, hkept, htimer⟩ := h.reconfig u hold hcb
    cases Option.some.inj (hmeta.symm.trans hkept)
    rw [htimer] at hne
    exact absurd rfl hne
  · rw [hlive] at hu
    rw [hlatest]
    exact h.proposal u (Timers.mem_of_mem_cancel hu) id hcb
  · rw [hlive] at hu
    exact h.kill u (Timers.mem_of_mem_cancel hu)

/-- **An answer to the reconfiguration** counts once. -/
theorem handleReconfigResponse_ok {latestLeader leaderRound : ℕ} {currentConfiguration : List ℕ}
    (h : Core c started answered) (ht : TimersOk c)
    (hresp : c.handleReconfigResponse now latestLeader leaderRound currentConfiguration = .ok (t, outs)) :
    (t = c ∧ outs = [] ∧ (started = true → answered = true)) ∨
    (started = true ∧ After c t outs started true ∧ t.responses = c.responses) := by
  unfold handleReconfigResponse at hresp
  split at hresp
  · rename_i hmeta
    cases hresp
    refine Or.inl ⟨rfl, rfl, fun hstarted => ?_⟩
    by_contra hfalse
    exact Finmap.lookup_eq_none.mp hmeta (h.pending_iff.mpr ⟨hstarted, by simpa using hfalse⟩)
  · rename_i proposalMeta hmeta
    right
    have hmem : reconfigId ∈ c.pendingProposals := HashMap.mem_of_lookup hmeta
    obtain ⟨hstarted, rfl⟩ := h.pending_iff.mp hmem
    have hone : c.finishedLatch = 1 := by
      rw [h.latch, if_neg]
      exact fun hc => nomatch hc.2
    refine ⟨hstarted, ?_⟩
    dsimp only at hresp
    split_ifs at hresp with hlast
    · obtain ⟨b, hfinish, hend⟩ := bind_eq_ok.mp hresp
      obtain ⟨-, rfl⟩ := BaseClient.finish_ok hfinish
      cases hend
      refine ⟨⟨?_, ht.reconfigAnswered hmeta rfl rfl, rfl, rfl, by simp⟩, rfl⟩
      change Core _ (started || false) true
      rw [Bool.or_false]
      refine h.reconfigAnswered hmem rfl rfl rfl rfl rfl rfl rfl (Or.inr hlast) ?_ (fun hs => (nomatch hs))
        fun _ => hlast
      change c.finishedLatch - 1 = _
      rw [hone, if_pos hlast]
    · obtain ⟨pid, round, changes, hlearn⟩ := BaseClient.learnReconfigLeader_eq
        { c.toBaseClient.removePending reconfigId proposalMeta with
          reconfigEndTs := some now, reconfig := none, currentConfig := currentConfiguration }
        now latestLeader leaderRound
      rw [hlearn] at hresp
      have hcore := h.reconfigAnswered (r := { c with
          toBaseClient := BaseClient.withLeader { c.toBaseClient.removePending reconfigId proposalMeta with
            reconfigEndTs := some now, reconfig := none, currentConfig := currentConfiguration } pid round changes })
        hmem rfl rfl rfl rfl rfl rfl rfl (Or.inl rfl) (hone.trans (if_neg hlast).symm) (h.not_setup hstarted)
        h.finished
      have hnext := sendConcurrentProposals_ok hcore (ht.reconfigAnswered hmeta rfl rfl) (h.not_setup hstarted) hresp
      have hafter := hnext.after
      exact ⟨⟨hafter.core, hafter.timers, hafter.windows, hafter.max, hafter.outs⟩, hnext.responses⟩

/-! ### Every step -/

variable {s s' : Observed}

/-- What is sent again is nothing new. -/
theorem Quiet.started_eq (h : Core c started answered) (hquiet : Quiet c t outs) :
    (started || proposesReconfig outs) = started := by
  cases hout : proposesReconfig outs with
  | false => exact Bool.or_false started
  | true =>
    obtain ⟨out, hmem, hrec⟩ := List.any_eq_true.mp hout
    have hagain := hquiet.outs out hmem
    cases out with
    | reconfigurationProposal node rp => rw [(h.pending_iff.mp hagain).1, Bool.or_true]
    | proposal origin node id => cases hrec
    | partitioningExp node m => cases hrec
    | stop node => cases hrec
    | replyStop results => cases hrec

theorem Quiet.inv (h : Inv s) (hquiet : Quiet s.client t outs) :
    Inv ⟨t, s.sent ++ outs, s.answered, s.reconfigAnswered⟩ := by
  have hlen : t.responses.len = s.client.responses.len := congrArg HashMap.len hquiet.same.responses
  refine ⟨?_, hquiet.timers, ?_, fun origin node id hout => ?_, ?_, ?_⟩
  · change Core t (proposesReconfig (s.sent ++ outs)) s.reconfigAnswered
    rw [proposesReconfig_append, hquiet.started_eq h.core]
    exact h.core.same hquiet.same
  · change s.answered = t.responses.keys
    rw [hquiet.same.responses]
    exact h.answered
  · change id ≤ t.maxProposalId
    rw [hquiet.same.maxProposalId]
    rcases List.mem_append.mp hout with hout | hout
    · exact h.proposed origin node id hout
    · exact (hquiet.outs _ hout).trans h.core.latest_le
  · change t.windows.Pairwise (· ≤ ·)
    rcases hquiet.windows with heq | heq
    · rw [heq]
      exact h.windows
    · rw [heq]
      refine List.pairwise_append.mpr ⟨h.windows, List.pairwise_singleton _ _, fun n hn k hk => ?_⟩
      rw [List.mem_singleton.mp hk]
      exact h.windows_le n hn
  · change ∀ n ∈ t.windows, n ≤ t.responses.len
    rw [hlen]
    rcases hquiet.windows with heq | heq
    · rw [heq]
      exact h.windows_le
    · rw [heq]
      intro n hn
      rcases List.mem_append.mp hn with hn | hn
      · exact h.windows_le n hn
      · exact (List.mem_singleton.mp hn).le

theorem After.inv {answered' : Bool} {ids : Finset ℕ} (h : Inv s)
    (hafter : After s.client t outs (proposesReconfig s.sent) answered') (hids : ids = t.responses.keys)
    (hmore : s.client.responses.keys ⊆ t.responses.keys) : Inv ⟨t, s.sent ++ outs, ids, answered'⟩ := by
  refine ⟨?_, hafter.timers, hids, fun origin node id hout => ?_, ?_, ?_⟩
  · change Core t (proposesReconfig (s.sent ++ outs)) answered'
    rw [proposesReconfig_append]
    exact hafter.core
  · change id ≤ t.maxProposalId
    rw [hafter.max]
    rcases List.mem_append.mp hout with hout | hout
    · exact h.proposed origin node id hout
    · exact hafter.outs origin node id hout
  · change t.windows.Pairwise (· ≤ ·)
    rw [hafter.windows]
    exact h.windows
  · change ∀ n ∈ t.windows, n ≤ t.responses.len
    rw [hafter.windows]
    exact fun n hn => (h.windows_le n hn).trans (Finset.card_le_card hmore)

/-- **One event** keeps the invariant. -/
theorem Inv.handle (h : Inv s) (he : s.client.BeforeStop e) (hstep : s.client.handle now e = some (.ok (t, outs))) :
    Inv ⟨t, s.sent ++ outs, s.answeredAfter e, s.reconfigAnsweredAfter e⟩ := by
  cases e with
  | stop => exact he.elim
  | peerStop pid => exact he.elim
  | timeout timerId => exact (handleTimeout_ok h.timers hstep).inv h
  | run =>
    have hnext := handleRun_ok h.core h.timers (Option.some.inj hstep)
    exact hnext.after.inv h (by rw [hnext.responses]; exact h.answered) (by rw [hnext.responses])
  | message m =>
    have hstep := Option.some.inj hstep
    cases m with
    | leader pid round => exact (handleLeader_ok h.timers hstep).inv h
    | proposal p => exact (handleProposal_ok h.timers he hstep).inv h
    | reconfigurationProposal rp =>
      cases hstep
      exact Quiet.inv h ⟨.refl _, h.timers, Or.inl rfl, by simp⟩
    | reconfigurationResp latestLeader leaderRound currentConfiguration =>
      change Inv ⟨t, s.sent ++ outs, s.answered, s.reconfigAnswered || proposesReconfig s.sent⟩
      rcases handleReconfigResponse_ok h.core h.timers hstep with ⟨rfl, rfl, hold⟩ | ⟨hstarted, hafter, hresp⟩
      · have hsame : (s.reconfigAnswered || proposesReconfig s.sent) = s.reconfigAnswered := by
          cases hstarted : proposesReconfig s.sent with
          | false => exact Bool.or_false _
          | true => rw [hold hstarted, Bool.or_true]
        rw [hsame]
        exact Quiet.inv h ⟨.refl _, h.timers, Or.inl rfl, by simp⟩
      · rw [hstarted, Bool.or_true]
        exact hafter.inv h (by rw [hresp]; exact h.answered) (by rw [hresp])
    | proposalResp data latestLeader leaderRound =>
      obtain ⟨id, hid, hpos, hle⟩ := he
      have hids : s.answeredAfter (.message (.proposalResp data latestLeader leaderRound)) =
          if s.client.numPreloadedProposals < id then insert id s.answered else s.answered := by
        unfold Observed.answeredAfter
        dsimp only
        rw [hid]
      rw [hids]
      rcases handleProposalResp_ok h.core h.timers hid hpos hle hstep with ⟨hquiet, hold⟩ | ⟨hafter, hlt, hkeys⟩
      · have hsame : (if s.client.numPreloadedProposals < id then insert id s.answered else s.answered) =
            s.answered := by
          split_ifs with hlt
          · rw [h.answered, Finset.insert_eq_self, Finmap.mem_keys]
            exact hold hlt
          · rfl
        rw [hsame]
        exact hquiet.inv h
      · rw [if_pos hlt]
        exact hafter.inv h (by rw [hkeys, h.answered]) (by rw [hkeys]; exact Finset.subset_insert _ _)

theorem inv_new (build : Build) (initialConfig : List ℕ) {numProposals numConcurrentProposals : ℕ} (nodes : List ℕ)
    (reconfig : ReconfigurationPolicy × List ℕ) (preloadedLogSize : ℕ) (htwo : 2 ≤ numProposals)
    (hone : 1 ≤ numConcurrentProposals) :
    Inv ⟨.new build initialConfig numProposals numConcurrentProposals nodes (some reconfig) preloadedLogSize, [], ∅,
      false⟩ := by
  refine ⟨⟨htwo, hone, rfl, Ledger.empty preloadedLogSize, Nat.le_add_left _ _, Nat.zero_le _, ?_, ?_,
    fun hc => (nomatch hc), fun _ hc => (nomatch hc), fun hc => (nomatch hc), ?_, fun _ => rfl,
    fun hc => (nomatch hc)⟩, ⟨?_, ?_, ?_⟩, rfl, by simp, List.Pairwise.nil, by simp [new]⟩
  · refine iff_of_false (fun hc => (nomatch hc)) ?_
    change ¬ numProposals / 2 ≤ 0
    omega
  · exact iff_of_false Finmap.notMem_empty fun hc => nomatch hc.1
  · exact (if_neg fun hc => nomatch hc.2).symm
  · exact fun u hu => nomatch hu
  · exact fun u hu => nomatch hu
  · exact fun u hu => nomatch hu

theorem Inv.finishesOnce (h : Inv s) : FinishesOnce s := by
  refine ⟨h.core.len_le, ?_, ?_, h.proposed, h.windows, fun build => persistWindowedResults_ok build h.windows 0⟩
  · rw [h.answered]
    exact h.core.started_iff
  · rw [h.answered, h.core.latch]
    simp only [h.core.responses_full_iff]

/-! ### The panics -/

theorem noPanic_proposeNormal (b : BaseClient) (origin : Origin) (id : ℕ) :
    FailsWith (· ∉ excludedPanics) (b.proposeNormal origin id) :=
  (b.failsWith_proposeNormal origin id).mono (by rintro _ rfl; decide)

theorem noPanic_sendConcurrentProposals (hlen : c.pendingProposals.len ≤ c.numConcurrentProposals) :
    FailsWith (· ∉ excludedPanics) (c.sendConcurrentProposals now) :=
  .map ((BaseClient.failsWith_sendConcurrentProposals hlen).mono (by rintro _ rfl; decide))

theorem noPanic_finish {b : BaseClient} (hlatch : b.finishedLatch = 1) :
    FailsWith (· ∉ excludedPanics) b.finish := by
  unfold BaseClient.finish
  rw [if_neg (by omega)]
  exact .ok _

/-- The first proposals of the reconfiguration, and those after its timer. -/
theorem noPanic_reconfiguration (b : BaseClient) {α : Type} {f : ClientOut → Except String α}
    (hf : ∀ out, FailsWith (· ∉ excludedPanics) (f out)) :
    FailsWith (· ∉ excludedPanics) (do
      let leader ← b.reconfigurationNode
      let out ← b.proposeReconfiguration leader
      f out) :=
  .bind (b.failsWith_reconfigurationNode.mono (by rintro _ rfl; decide)) fun leader _ =>
    .bind ((b.failsWith_proposeReconfiguration leader).mono (by rintro _ rfl; decide)) fun out _ => hf out

theorem noPanic_countResponses {r : ReconfigurationClient} (h : Core c started answered)
    (hid : id ∈ c.pendingProposals) (hne : id ≠ reconfigId) (htook : Took id c r)
    (hlatch : r.finishedLatch = c.finishedLatch) : FailsWith (· ∉ excludedPanics) (r.countResponses now) := by
  have hlt := Took.responses_lt h hid hne htook
  have hone : r.finishedLatch = 1 := by rw [hlatch, h.latch, if_neg fun hc => hlt.ne hc.1]
  unfold countResponses
  split_ifs
  · obtain ⟨timers, windowTimer, heq, -⟩ := r.toBaseClient.cancelWindowTimer_eq
    rw [heq]
    exact .bind (noPanic_finish hone) fun b _ => .ok _
  · exact .ok _
  · exact .map (noPanic_reconfiguration _ fun out => .ok _)
  · exact .ok _

theorem noPanic_handleProposalResp {data : Data} {latestLeader leaderRound : ℕ} (h : Core c started answered)
    (ht : TimersOk c) (hstate : c.state ≠ .setup) (hid : idOf data = .ok id) (hpos : 1 ≤ id) :
    FailsWith (· ∉ excludedPanics) (c.handleProposalResp now data latestLeader leaderRound) := by
  have hne : id ≠ reconfigId := Nat.one_le_iff_ne_zero.mp hpos
  by_cases hfin : c.state = .finished
  · unfold handleProposalResp
    rw [if_pos hfin]
    exact .ok _
  cases hmeta : c.pendingProposals.lookup id with
  | some proposalMeta =>
    have hmem : id ∈ c.pendingProposals := HashMap.mem_of_lookup hmeta
    obtain ⟨pid, round, changes, hlearn, -⟩ :=
      (c.toBaseClient.removePending id proposalMeta).learnLeader_eq now latestLeader leaderRound
    rw [handleProposalResp_of_some latestLeader leaderRound hfin hid hmeta, hlearn, handleNormalResponse_eq]
    refine .bind (noPanic_countResponses h hmem hne (took_insert h hmem hne proposalMeta pid round changes _) rfl)
      fun ⟨d, outs⟩ hd => ?_
    rw [← handleNormalResponse_eq] at hd
    have hresponded := handleNormalResponse_ok h ht hmem hne hfin hd
    exact .map (noPanic_sendConcurrentProposals hresponded.core.len_le)
  | none =>
    rw [handleProposalResp_of_none latestLeader leaderRound hfin hid hmeta, if_neg fun hc => hstate hc.2]
    exact .ok _

theorem noPanic_handleReconfigResponse {latestLeader leaderRound : ℕ} {currentConfiguration : List ℕ}
    (h : Core c started answered) :
    FailsWith (· ∉ excludedPanics)
      (c.handleReconfigResponse now latestLeader leaderRound currentConfiguration) := by
  unfold handleReconfigResponse
  split
  · exact .ok _
  · rename_i proposalMeta hmeta
    obtain ⟨-, rfl⟩ := h.pending_iff.mp (HashMap.mem_of_lookup hmeta)
    have hone : c.finishedLatch = 1 := by
      rw [h.latch, if_neg]
      exact fun hc => nomatch hc.2
    dsimp only
    split_ifs
    · exact .bind (noPanic_finish hone) fun b _ => .ok _
    · obtain ⟨pid, round, changes, hlearn⟩ := BaseClient.learnReconfigLeader_eq
        { c.toBaseClient.removePending reconfigId proposalMeta with
          reconfigEndTs := some now, reconfig := none, currentConfig := currentConfiguration }
        now latestLeader leaderRound
      rw [hlearn]
      refine noPanic_sendConcurrentProposals (le_trans ?_ h.len_le)
      change (c.pendingProposals.erase reconfigId).keys.card ≤ _
      rw [Finmap.keys_erase]
      exact Finset.card_le_card (Finset.erase_subset _ _)

theorem noPanic_proposalTimeout (c : ReconfigurationClient) (id : ℕ) :
    FailsWith (· ∉ excludedPanics) (c.proposalTimeout id) := by
  unfold proposalTimeout
  split_ifs
  · exact .ok _
  · exact .bind (noPanic_proposeNormal _ _ _) fun out _ => .ok _

theorem noPanic_handleProposal {data : Data} (hid : idOf data = .ok id) :
    FailsWith (· ∉ excludedPanics) (c.handleProposal data) := by
  unfold handleProposal
  rw [hid]
  change FailsWith _ (if _ then _ else _)
  split_ifs
  · exact .ok _
  · exact .bind (noPanic_proposeNormal _ _ _) fun out _ => .ok _

theorem noPanic_handleRun (hlen : c.pendingProposals.len ≤ c.numConcurrentProposals) :
    FailsWith (· ∉ excludedPanics) (c.handleRun now) := by
  unfold handleRun
  dsimp only
  split_ifs
  · exact .error (by decide)
  · exact noPanic_sendConcurrentProposals hlen

theorem noPanic_runCallback {timerId : ℕ} {cb : ClientCallback} (ht : TimersOk c)
    (hfired : ⟨timerId, cb⟩ ∈ c.timers.live) {r : Result} (hrun : (if cb = .window then c else
      { c with timers := c.timers.remove timerId }).runCallback cb = some r) : FailsWith (· ∉ excludedPanics) r := by
  cases cb with
  | proposalTimeout id =>
    cases hrun
    exact noPanic_proposalTimeout _ id
  | reconfigTimeout =>
    cases hrun
    obtain ⟨proposalMeta, hmeta, -⟩ := ht.reconfig _ hfired rfl
    refine .map (noPanic_reconfiguration _ fun out => ?_)
    split
    · rename_i hnone
      cases hmeta.symm.trans hnone
    · exact .ok _
  | window =>
    cases hrun
    exact .ok _
  | kill => exact absurd rfl (ht.kill _ hfired)
  | experimentTimeout => cases hrun
  | warmupDone => cases hrun
  | recoverPartition => cases hrun
  | disconnectNonLagging followers laggingFollower leader => cases hrun

theorem Inv.noPanic (h : Inv s) (he : s.client.BeforeStop e) (hrunning : s.client.state ≠ .setup ∨ e = .run) {m : String}
    (hm : m ∈ excludedPanics) : s.client.handle now e ≠ some (.error m) := by
  intro hpanic
  cases e with
  | stop => exact he
  | peerStop pid => exact he
  | run =>
    exact noPanic_handleRun h.core.len_le m (Option.some.inj hpanic) hm
  | timeout timerId =>
    obtain ⟨cb, hcb, hrun⟩ := Option.bind_eq_some_iff.mp hpanic
    exact noPanic_runCallback h.timers (Timers.callbackOf_eq_some hcb) hrun m rfl hm
  | message msg =>
    have hpanic := Option.some.inj hpanic
    have hstate : s.client.state ≠ .setup := hrunning.resolve_right fun hc => nomatch hc
    cases msg with
    | leader pid round =>
      change s.client.handleLeader now pid round = _ at hpanic
      unfold handleLeader at hpanic
      rw [if_neg hstate] at hpanic
      split_ifs at hpanic
    | proposal p =>
      obtain ⟨id, hid, -⟩ := he
      exact noPanic_handleProposal hid m hpanic hm
    | reconfigurationProposal rp => cases hpanic
    | reconfigurationResp latestLeader leaderRound currentConfiguration =>
      exact noPanic_handleReconfigResponse h.core m hpanic hm
    | proposalResp data latestLeader leaderRound =>
      obtain ⟨id, hid, hpos, -⟩ := he
      exact noPanic_handleProposalResp h.core h.timers hstate hid hpos m hpanic hm

/-- **The reconfiguration experiment finishes once and at the right time**, in every run up to `Stop`; and from
`Run` on none of the excluded panics happens. -/
theorem reconfiguration_experiment_finishes (build : Build) (initialConfig : List ℕ)
    {numProposals numConcurrentProposals : ℕ} (nodes : List ℕ) (reconfig : ReconfigurationPolicy × List ℕ)
    (preloadedLogSize : ℕ) (htwo : 2 ≤ numProposals) (hone : 1 ≤ numConcurrentProposals) {s : Observed}
    (hs : (observed (.new build initialConfig numProposals numConcurrentProposals nodes (some reconfig)
      preloadedLogSize)).ReachableUnder (fun s e => s.client.BeforeStop e.2) s) :
    FinishesOnce s ∧ ∀ now e, s.client.BeforeStop e → s.client.state ≠ .setup ∨ e = .run →
      ∀ m ∈ excludedPanics, s.client.handle now e ≠ some (.error m) := by
  have hinv : Inv s := by
    refine hs.invariant (inv_new build initialConfig nodes reconfig preloadedLogSize htwo hone)
      fun s e t _ he h hstep => ?_
    change (match s.client.handle e.1 e.2 with
      | some (.ok (t, outs)) => _
      | some (.error _) | none => _) = _ at hstep
    split at hstep
    · rename_i t' outs hhandle
      cases hstep
      exact h.handle he hhandle
    · cases hstep
    · cases hstep
  exact ⟨hinv.finishesOnce, fun now e he hrunning m hm => hinv.noPanic he hrunning hm⟩

/-- Two proposals and one that was preloaded: the first answer starts the reconfiguration, and the last one
ends the experiment. -/
def shortExperiment : List (ℕ × ClientEvent) :=
  [(0, .message (.leader 1 1)), (1, .message (.proposalResp (createRawProposal 1) 1 1)), (2, .run),
    (3, .message (.proposalResp (createRawProposal 2) 1 1)), (4, .message (.reconfigurationResp 1 1 [1])),
    (5, .timeout 0), (6, .message (.proposalResp (createRawProposal 3) 1 1))]

theorem shortExperiment_finishes :
    ∃ s, (observed (.new .release [1] 2 1 [1] (some (.replaceFollower, [1])) 1)).run
        ⟨.new .release [1] 2 1 [1] (some (.replaceFollower, [1])) 1, [], ∅, false⟩ shortExperiment = some s ∧
      (s.client.state, s.client.finishedLatch, s.client.windows) = (.finished, 0, [1]) ∧ FinishesOnce s := by
  have hend : ((observed (.new .release [1] 2 1 [1] (some (.replaceFollower, [1])) 1)).run
      ⟨.new .release [1] 2 1 [1] (some (.replaceFollower, [1])) 1, [], ∅, false⟩ shortExperiment).map
        (fun s => (s.client.state, s.client.finishedLatch, s.client.windows)) = some (.finished, 0, [1]) := by
    decide +kernel
  have hbefore : (observed (.new .release [1] 2 1 [1] (some (.replaceFollower, [1])) 1)).AllSteps
      (fun s e => s.client.BeforeStop e.2) ⟨.new .release [1] 2 1 [1] (some (.replaceFollower, [1])) 1, [], ∅, false⟩
      shortExperiment := by
    decide +kernel
  obtain ⟨s, hrun, hs⟩ := Option.map_eq_some_iff.mp hend
  exact ⟨s, hrun, hs, (reconfiguration_experiment_finishes .release [1] [1] (.replaceFollower, [1]) 1 (by decide) (by decide)
    (Machine.ReachableUnder.init.run hbefore hrun)).1⟩

end ReconfigurationClient

end OmniPaxosBench.Experiment
