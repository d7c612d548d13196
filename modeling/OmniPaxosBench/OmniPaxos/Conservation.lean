import OmniPaxosBench.Lib.Machine
import OmniPaxosBench.OmniPaxos.LogTransfer
import Mathlib.Algebra.Order.Group.Multiset
import Mathlib.Tactic.Abel

/-! # What becomes of the proposals

A proposal that a `PaxosComp` is given, by a client, by another node or by a replica that rejects it,
is told to a replica, sent on, or held back. `entrusted` collects these places. `Effect` lists what an
event before the client's stop can do to them; most events do not touch them at all (`Quiet`).

Proposals are held back only while the active configuration has no leader or has rejected a proposal.
A node that was removed holds nothing back, unless a late `PendingReconfig` of its replica comes after
the `Reconfig`: nothing empties the buffer then. `conserved_iff` says that nothing else goes wrong. -/

namespace OmniPaxosBench.OmniPaxos

open LeaderElection OmniPaxosBench.Lib

/-- A message of a client that asks for something. -/
def IsProposal : AtomicBroadcastMsg → Prop
  | .proposal _ | .reconfigurationProposal _ => True
  | _ => False

instance : ∀ m, Decidable (IsProposal m)
  | .proposal _ | .reconfigurationProposal _ => isTrue trivial
  | .proposalResp _ _ _ | .reconfigurationResp _ _ _ | .leader _ _ => isFalse id

/-- The proposals held back. -/
def HoldBackProposals.proposals (hb : HoldBackProposals) : List AtomicBroadcastMsg :=
  hb.serialised.filter (fun m => IsProposal m) ++ hb.deserialised.map .proposal

theorem HoldBackProposals.proposals_serialised (hb : HoldBackProposals) (m : AtomicBroadcastMsg) :
    ({ hb with serialised := hb.serialised ++ [m] } : HoldBackProposals).proposals.Perm
      (([m].filter fun m => IsProposal m) ++ hb.proposals) := by
  simp only [proposals, List.filter_append, ← Multiset.coe_eq_coe, ← Multiset.coe_add]
  abel

theorem HoldBackProposals.proposals_deserialised (hb : HoldBackProposals) (p : Proposal) :
    ({ hb with deserialised := hb.deserialised ++ [p] } : HoldBackProposals).proposals.Perm
      ([.proposal p] ++ hb.proposals) := by
  simp only [proposals, List.map_append, List.map_cons, List.map_nil, ← Multiset.coe_eq_coe,
    ← Multiset.coe_add]
  abel

namespace PaxosComp

variable {S : Type}

/-- The proposal an event brings. -/
def givenBy : CompEvent S → List AtomicBroadcastMsg
  | .atomicBroadcast m => [m].filter fun m => IsProposal m
  | .local (.pendingReconfig data) => [.proposal ⟨data⟩]
  | _ => []

/-- The proposal that is told to a replica, or sent on to a node or to the client. -/
def passedOn : CompOut → List AtomicBroadcastMsg
  | .replica _ (.propose p) => [.proposal p]
  | .replica _ (.proposeReconfiguration rp) => [.reconfigurationProposal rp]
  | .forward _ m | .client m => [m].filter fun m => IsProposal m
  | _ => []

/-- The proposals of a component that has sent `sent`: passed on and held back. -/
def entrusted (c : PaxosComp S) (sent : List CompOut) : List AtomicBroadcastMsg :=
  sent.flatMap passedOn ++ c.hbProposals.proposals

/-- The events of a run between the initialisation and the client's stop. -/
def Serving : CompEvent S → Prop
  | .init _ _ _ | .clientStop | .local .killComponents => False
  | _ => True

instance : ∀ e : CompEvent S, Decidable (Serving e)
  | .init _ _ _ | .clientStop | .local .killComponents => isFalse id
  | .local (.leader _ _ _) | .local (.pendingReconfig _) | .local (.reconfig _) | .atomicBroadcast _
  | .run | .reconfigInit _ | .segmentRequest _ _ | .segmentTransfer _ _ | .timeout _ => isTrue trivial

/-! ### Events that do not touch the proposals -/

/-- Proposals, and the fields they are routed by, are as before; a new configuration may have begun,
without a leader. -/
structure Quiet (c : PaxosComp S) (r : After S) : Prop where
  hb : r.1.hbProposals = c.hbProposals
  stopped : r.1.stopped = c.stopped
  removed : r.1.removed = c.removed
  config : r.1.activeConfig = c.activeConfig ∨ r.1.activeConfig.leader = 0
  out : r.2.flatMap passedOn = []

variable {c c' : PaxosComp S} {r : After S} {out out' : List CompOut}

theorem flatMap_passedOn_nil (h : ∀ o ∈ out, passedOn o = []) : out.flatMap passedOn = [] := by
  rw [List.flatMap_eq_nil_iff]; exact h

theorem Quiet.refl (c : PaxosComp S) : Quiet c (c, []) := ⟨rfl, rfl, rfl, Or.inl rfl, rfl⟩

theorem Quiet.trans (h : Quiet c (c', out)) (h' : Quiet c' r) : Quiet c (r.1, out ++ r.2) := by
  refine ⟨h'.hb.trans h.hb, h'.stopped.trans h.stopped, h'.removed.trans h.removed, ?_, ?_⟩
  · rcases h'.config with hc | hc
    · rw [hc]; exact h.config
    · exact Or.inr hc
  · rw [List.flatMap_append, h.out, h'.out, List.append_nil]

theorem startReplica_quiet {n : ℕ} (h : c.startReplica n = some r) : Quiet c r := by
  rw [startReplica_eq h]
  exact ⟨rfl, rfl, rfl, Or.inr rfl, rfl⟩

theorem request_passedOn {d pid : ℕ} {idx : SegmentIndex} {o : CompOut}
    (h : c.request d pid idx = some o) : passedOn o = [] := by
  obtain ⟨receiver, -, rfl⟩ := Option.map_eq_some_iff.mp h
  rfl

theorem pullSequence_quiet {d len : ℕ} {nodes : List ℕ} (h : c.pullSequence d len nodes = some r) :
    Quiet c r := by
  unfold pullSequence at h
  split_ifs at h
  obtain ⟨out, hmap, h⟩ := Option.bind_eq_some_iff.mp h
  cases h
  refine ⟨rfl, rfl, rfl, Or.inl rfl, flatMap_passedOn_nil fun o ho => ?_⟩
  obtain ⟨x, -, hx⟩ := mem_of_mapM hmap ho
  exact request_passedOn hx

theorem retryPendingSegments_quiet {d : ℕ} (h : c.retryPendingSegments d = some r) : Quiet c r := by
  unfold retryPendingSegments at h
  obtain ⟨out, hmap, h⟩ := Option.bind_eq_some_iff.mp h
  cases h
  refine ⟨rfl, rfl, rfl, Or.inl rfl, flatMap_passedOn_nil fun o ho => ?_⟩
  obtain ⟨x, -, hx⟩ := mem_of_mapM hmap ho
  obtain ⟨pid, -, hreq⟩ := Option.bind_eq_some_iff.mp hx
  exact request_passedOn hreq

theorem askAgain_quiet {d rnd : ℕ} {idx : SegmentIndex} (h : c.askAgain d idx rnd = some r) :
    Quiet c r := by
  unfold askAgain at h
  split_ifs at h
  · cases h; exact Quiet.refl c
  · obtain ⟨pid, -, h⟩ := Option.bind_eq_some_iff.mp h
    obtain ⟨o, ho, h⟩ := Option.bind_eq_some_iff.mp h
    cases h
    refine ⟨rfl, rfl, rfl, Or.inl rfl, flatMap_passedOn_nil fun o' ho' => ?_⟩
    rw [List.mem_singleton.mp ho']
    exact request_passedOn ho

theorem setInitialReplicaState_passedOn {d : ℕ} {leader : Option Leader} {peers : List ℕ}
    (h : c.setInitialReplicaStateAfterReconfig d leader peers = some out) :
    out.flatMap passedOn = [] := by
  unfold setInitialReplicaStateAfterReconfig at h
  split_ifs at h
  cases h
  rfl

theorem addReadyPeer_quiet (c : PaxosComp S) (m : ReconfigInit) : Quiet c (c.addReadyPeer m, []) := by
  unfold addReadyPeer
  split_ifs
  · exact ⟨rfl, rfl, rfl, Or.inl rfl, rfl⟩
  · exact Quiet.refl c

variable [SequenceTraits S]

theorem handleSegmentRequest_quiet {sr : SegmentRequest} {requestor : ℕ}
    (h : c.handleSegmentRequest sr requestor = some r) : Quiet c r := by
  unfold handleSegmentRequest at h
  dsimp only at h
  by_cases hskip : c.activeConfig.leader = sr.requestorPid ∨ sr ∈ c.handledSeqRequests
  · rw [if_pos hskip] at h
    cases h; exact Quiet.refl c
  · rw [if_neg hskip] at h
    split at h
    · cases h; exact ⟨rfl, rfl, rfl, Or.inl rfl, rfl⟩
    · split_ifs at h
      · obtain ⟨idx, -, rfl⟩ := Option.map_eq_some_iff.mp h
        exact ⟨rfl, rfl, rfl, Or.inl rfl, rfl⟩
      · cases h; exact ⟨rfl, rfl, rfl, Or.inl rfl, rfl⟩

theorem handleCompletedSequenceTransfer_quiet {d : ℕ}
    (h : c.handleCompletedSequenceTransfer d = some r) : Quiet c r := by
  unfold handleCompletedSequenceTransfer at h
  obtain ⟨segments, -, h⟩ := Option.bind_eq_some_iff.mp h
  obtain ⟨_, -, h⟩ := Option.bind_eq_some_iff.mp h
  obtain ⟨n, -, h⟩ := Option.bind_eq_some_iff.mp h
  split_ifs at h
  · have hstart := startReplica_quiet h
    exact ⟨hstart.hb, hstart.stopped, hstart.removed, hstart.config, hstart.out⟩
  · cases h; exact ⟨rfl, rfl, rfl, Or.inl rfl, rfl⟩

theorem handleOutcome_quiet {st : SegmentTransfer} {rnd : ℕ} (h : c.handleOutcome st rnd = some r) :
    Quiet c r := by
  unfold handleOutcome at h
  by_cases hsucc : st.succeeded = true
  · rw [if_pos hsucc] at h
    unfold acceptSegment at h
    obtain ⟨c₁, hc₁, h⟩ := Option.bind_eq_some_iff.mp h
    obtain ⟨pending, -, h⟩ := Option.bind_eq_some_iff.mp h
    have hseg : Quiet c (c₁, []) := by
      obtain ⟨_, -, rfl⟩ := Option.map_eq_some_iff.mp hc₁
      exact ⟨rfl, rfl, rfl, Or.inl rfl, rfl⟩
    split_ifs at h
    · exact hseg.trans (handleCompletedSequenceTransfer_quiet h)
    · cases h; exact hseg
  · rw [if_neg hsucc] at h
    exact askAgain_quiet h

theorem handleSegmentTransfer_quiet {st : SegmentTransfer} {rnd : ℕ}
    (h : c.handleSegmentTransfer st rnd = some r) : Quiet c r := by
  unfold handleSegmentTransfer at h
  split_ifs at h
  · cases h; exact Quiet.refl c
  · obtain ⟨r₁, h₁, h⟩ := Option.bind_eq_some_iff.mp h
    obtain ⟨r₂, h₂, h⟩ := Option.bind_eq_some_iff.mp h
    cases h
    have hpull : Quiet c r₁ := by
      unfold pullPrevious at h₁
      split_ifs at h₁
      · exact pullSequence_quiet h₁
      · cases h₁; exact Quiet.refl c
    exact hpull.trans (handleOutcome_quiet h₂)

theorem handleReconfigInit_quiet {m : ReconfigInit} (h : c.handleReconfigInit m = some r) :
    Quiet c r := by
  unfold handleReconfigInit at h
  dsimp only at h
  split_ifs at h
  · cases h
    refine ⟨rfl, rfl, rfl, Or.inl rfl, flatMap_passedOn_nil fun o ho => ?_⟩
    obtain ⟨p, -, rfl⟩ := List.mem_map.mp ho
    rfl
  · cases h; exact Quiet.refl c
  · unfold join at h
    split at h
    · unfold beginJoin at h
      obtain ⟨set, hset, h⟩ := Option.bind_eq_some_iff.mp h
      obtain ⟨r', hr', h⟩ := Option.bind_eq_some_iff.mp h
      cases h
      have hready := addReadyPeer_quiet { c with nextConfigId := some m.configId } m
      have hstart : Quiet ({ c with nextConfigId := some m.configId }.addReadyPeer m) r' := by
        unfold startOrPull at hr'
        split_ifs at hr'
        · have hstart := startReplica_quiet hr'
          exact ⟨hstart.hb, hstart.stopped, hstart.removed, hstart.config, hstart.out⟩
        · exact pullSequence_quiet hr'
      have hall := hready.trans hstart
      refine ⟨hall.hb, hall.stopped, hall.removed, hall.config, ?_⟩
      rw [List.flatMap_append, setInitialReplicaState_passedOn hset, List.nil_append]
      exact hall.out
    · split_ifs at h
      · cases h; exact addReadyPeer_quiet c m
      · cases h; exact Quiet.refl c

/-! ### Events that move proposals -/

/-- What an event does to the proposals: nothing, or it passes all on that are held back, passes the
one it brings on, holds it back, or brings one that a replica has rejected. -/
inductive Effect (c : PaxosComp S) (e : CompEvent S) (r : After S) : Prop
  | quiet (given : givenBy e = []) (quiet : Quiet c r)
  | flush (given : givenBy e = []) (stopped : r.1.stopped = c.stopped)
      (hb : r.1.hbProposals = .empty)
      (out : r.2.flatMap passedOn = c.hbProposals.proposals)
  | pass (out : r.2.flatMap passedOn = givenBy e) (same : r.1 = c)
  | hold (m : AtomicBroadcastMsg) (event : e = .atomicBroadcast m) (stays : c.removed = false)
      (why : c.activeConfig.leader = 0 ∨ c.activeConfig.pendingReconfig = true)
      (result : r = ({ c with
        hbProposals := { c.hbProposals with serialised := c.hbProposals.serialised ++ [m] } }, []))
  | reject (data : Data) (event : e = .local (.pendingReconfig data))
      (result : r = (c.handlePendingReconfig data, []))

omit [SequenceTraits S] in
theorem deserialiseAndPropose_passedOn {m : AtomicBroadcastMsg}
    (h : c.deserialiseAndPropose m = some out) :
    out.flatMap passedOn = [m].filter fun m => IsProposal m := by
  unfold deserialiseAndPropose at h
  cases m with
  | proposal p => obtain ⟨idx, -, rfl⟩ := Option.map_eq_some_iff.mp h; rfl
  | reconfigurationProposal rp => obtain ⟨idx, -, rfl⟩ := Option.map_eq_some_iff.mp h; rfl
  | _ => cases h; rfl

omit [SequenceTraits S] in
/-- The held-back messages are proposed one after the other. -/
theorem mapM_deserialiseAndPropose {ms : List AtomicBroadcastMsg} {outs : List (List CompOut)}
    (h : ms.mapM c.deserialiseAndPropose = some outs) :
    outs.flatten.flatMap passedOn = ms.filter fun m => IsProposal m := by
  induction ms generalizing outs with
  | nil => cases h; rfl
  | cons m ms ih =>
    rw [List.mapM_cons] at h
    obtain ⟨out, hm, h⟩ := Option.bind_eq_some_iff.mp h
    obtain ⟨outs', hms, h⟩ := Option.bind_eq_some_iff.mp h
    cases h
    rw [List.flatten_cons, List.flatMap_append, deserialiseAndPropose_passedOn hm, ih hms,
      ← List.filter_append]
    rfl

omit [SequenceTraits S] in
theorem proposeHbProposals_flush (h : c.proposeHbProposals = some r) :
    r.1 = { c with hbProposals := .empty } ∧
      r.2.flatMap passedOn = c.hbProposals.proposals := by
  unfold proposeHbProposals at h
  obtain ⟨ser, hser, h⟩ := Option.bind_eq_some_iff.mp h
  obtain ⟨deser, hdeser, h⟩ := Option.bind_eq_some_iff.mp h
  cases h
  refine ⟨rfl, ?_⟩
  have hdeser' : (c.hbProposals.deserialised.map .proposal).mapM c.deserialiseAndPropose =
      some deser := by
    rw [List.mapM_map]; exact hdeser
  have hall : (c.hbProposals.deserialised.map AtomicBroadcastMsg.proposal).filter
      (fun m => IsProposal m) = c.hbProposals.deserialised.map .proposal := by
    rw [List.filter_eq_self]
    intro m hm
    obtain ⟨p, -, rfl⟩ := List.mem_map.mp hm
    rfl
  rw [List.flatMap_append, mapM_deserialiseAndPropose hser, mapM_deserialiseAndPropose hdeser', hall]
  rfl

/-- The proposals among some messages, one message at a time. -/
theorem flatMap_filter_singleton (ms : List AtomicBroadcastMsg) :
    ms.flatMap (fun m => [m].filter fun m => IsProposal m) = ms.filter fun m => IsProposal m := by
  induction ms with
  | nil => rfl
  | cons m ms ih =>
    rw [List.flatMap_cons, ih, ← List.filter_append]
    rfl

omit [SequenceTraits S] in
theorem forwardHbProposals_flush {pid : ℕ} (h : c.forwardHbProposals pid = some r) :
    r.1 = { c with hbProposals := .empty } ∧
      r.2.flatMap passedOn = c.hbProposals.proposals := by
  obtain ⟨receiver, -, rfl⟩ := Option.map_eq_some_iff.mp h
  refine ⟨rfl, ?_⟩
  have hser : c.hbProposals.serialised.flatMap (fun m => passedOn (.forward receiver m)) =
      c.hbProposals.serialised.filter fun m => IsProposal m := flatMap_filter_singleton _
  have hdeser : c.hbProposals.deserialised.flatMap
      (fun p => passedOn (.forward receiver (.proposal p))) =
      c.hbProposals.deserialised.map .proposal := List.flatMap_pure_eq_map _ _
  rw [List.flatMap_append, List.flatMap_map, List.flatMap_map, hser, hdeser]
  rfl

/-- An empty buffer. -/
theorem eq_empty_of_isEmpty {hb : HoldBackProposals} (h : hb.isEmpty) : hb = .empty := by
  obtain ⟨deserialised, serialised⟩ := hb
  obtain ⟨rfl, rfl⟩ : serialised = [] ∧ deserialised = [] := h
  rfl

omit [SequenceTraits S] in
theorem handleLeader_effect {d pid round : ℕ} (h : c.handleLeader d pid round = some r) :
    Effect c (.local (.leader d pid round)) r := by
  unfold handleLeader at h
  dsimp only at h
  split_ifs at h with hconfig hown hnotify hclient hheld
  · obtain ⟨r', hr', rfl⟩ := Option.map_eq_some_iff.mp h
    obtain ⟨hc, hout⟩ := proposeHbProposals_flush hr'
    exact .flush rfl (by rw [hc]) (by rw [hc]) hout
  · obtain ⟨hc, hout⟩ := proposeHbProposals_flush h
    exact .flush rfl (by rw [hc]) (by rw [hc]) hout
  · cases h
    have hempty := eq_empty_of_isEmpty hheld
    refine .flush rfl rfl hempty ?_
    rw [hempty]; rfl
  · obtain ⟨hc, hout⟩ := forwardHbProposals_flush h
    exact .flush rfl (by rw [hc]) (by rw [hc]) hout
  · cases h; exact .quiet rfl (Quiet.refl c)

/-- The first part of a `Reconfig` passes nothing on. -/
theorem finishConfig_keeps {m : FinalMsg S} (h : c.finishConfig m = some r) :
    r.1.hbProposals = c.hbProposals ∧ r.1.stopped = c.stopped ∧ r.2.flatMap passedOn = [] := by
  unfold finishConfig at h
  dsimp only at h
  split_ifs at h
  · obtain ⟨set, hset, h⟩ := Option.bind_eq_some_iff.mp h
    obtain ⟨r', hr', h⟩ := Option.bind_eq_some_iff.mp h
    obtain ⟨inits, hinits, h⟩ := Option.bind_eq_some_iff.mp h
    cases h
    have hstart := startReplica_quiet hr'
    have hinit : inits.flatMap passedOn = [] := flatMap_passedOn_nil fun o ho => by
      obtain ⟨pid, -, hpid⟩ := mem_of_mapM hinits ho
      obtain ⟨receiver, -, rfl⟩ := Option.map_eq_some_iff.mp hpid
      rfl
    refine ⟨hstart.hb, hstart.stopped, ?_⟩
    rw [List.flatMap_append, List.flatMap_append, setInitialReplicaState_passedOn hset, hstart.out,
      hinit]
    rfl
  · cases h
    exact ⟨rfl, rfl, rfl⟩

theorem handleReconfig_effect {m : FinalMsg S} (h : c.handleReconfig m = some r) :
    Effect c (.local (.reconfig m)) r := by
  unfold handleReconfig at h
  obtain ⟨r', hr', h⟩ := Option.bind_eq_some_iff.mp h
  obtain ⟨hhb, hstop, hout⟩ := finishConfig_keeps hr'
  dsimp only at h
  by_cases hempty : r'.1.hbProposals.isEmpty
  · rw [if_neg (not_not.mpr hempty)] at h
    cases h
    have hnil := eq_empty_of_isEmpty hempty
    refine .flush rfl hstop hnil ?_
    rw [← hhb, hnil]
    exact hout
  · rw [if_pos hempty] at h
    obtain ⟨receiver, -, h⟩ := Option.bind_eq_some_iff.mp h
    obtain ⟨r'', hr'', h⟩ := Option.bind_eq_some_iff.mp h
    cases h
    obtain ⟨hc, hout'⟩ := forwardHbProposals_flush hr''
    refine .flush rfl ?_ ?_ ?_
    · show r''.1.stopped = c.stopped
      rw [hc]; exact hstop
    · show r''.1.hbProposals = .empty
      rw [hc]
    · rw [List.flatMap_append, hout, hout', hhb]
      rfl

omit [SequenceTraits S] in
theorem handleAtomicBroadcast_effect {m : AtomicBroadcastMsg} (hserve : c.stopped = false)
    (h : c.handleAtomicBroadcast m = some r) : Effect c (.atomicBroadcast m) r := by
  unfold handleAtomicBroadcast at h
  dsimp only at h
  rw [if_neg (by simp [hserve])] at h
  split_ifs at h with hremoved hclient hpending hleader hown
  · cases h
    exact .pass (List.append_nil _) rfl
  · cases h
    exact .hold m rfl (by simpa using hremoved) (Or.inr hpending) rfl
  · cases h
    exact .hold m rfl (by simpa using hremoved) (Or.inl hleader) rfl
  · obtain ⟨out, hout, rfl⟩ := Option.map_eq_some_iff.mp h
    exact .pass (deserialiseAndPropose_passedOn hout) rfl
  · obtain ⟨leader, -, rfl⟩ := Option.map_eq_some_iff.mp h
    exact .pass (List.append_nil _) rfl

/-- **The effect of every event before the client's stop.** -/
theorem handle_effect {e : CompEvent S} (hserve : c.stopped = false) (he : Serving e)
    (h : c.handle e = some r) : Effect c e r := by
  cases e with
  | «local» m =>
    cases m with
    | leader d pid round => exact handleLeader_effect h
    | pendingReconfig data => exact .reject data rfl (Option.some.inj h).symm
    | reconfig m => exact handleReconfig_effect h
    | killComponents => exact absurd he id
  | atomicBroadcast m => exact handleAtomicBroadcast_effect hserve h
  | init nodes pid it => exact absurd he id
  | run =>
    rcases handle_run h with ⟨k, hstart⟩ | rfl
    · exact .quiet rfl (startReplica_quiet hstart)
    · exact .quiet rfl (Quiet.refl c)
  | reconfigInit m => exact .quiet rfl (handleReconfigInit_quiet h)
  | segmentRequest sr requestor =>
    simp only [handle, hserve] at h
    exact .quiet rfl (handleSegmentRequest_quiet h)
  | segmentTransfer st rnd =>
    simp only [handle, hserve] at h
    exact .quiet rfl (handleSegmentTransfer_quiet h)
  | clientStop => exact absurd he id
  | timeout id =>
    obtain ⟨⟨configId, timers⟩, -, h⟩ := Option.bind_eq_some_iff.mp h
    have hset : Quiet c ({ c with timers := timers }, []) := ⟨rfl, rfl, rfl, Or.inl rfl, rfl⟩
    exact .quiet rfl (hset.trans (retryPendingSegments_quiet h))

end PaxosComp

/-! ### Runs -/

open PaxosComp

/-- A component, the proposals it was given and what it has sent. -/
structure Ledger (S : Type) where
  comp : PaxosComp S
  given : List AtomicBroadcastMsg
  sent : List CompOut

namespace Ledger

variable {S : Type}

/-- Every proposal is in one place, and proposals are held back only where they should be. -/
structure Conserved (s : Ledger S) : Prop where
  kept : s.given.Perm (s.comp.entrusted s.sent)
  held : ¬ s.comp.hbProposals.isEmpty →
    s.comp.activeConfig.leader = 0 ∨ s.comp.activeConfig.pendingReconfig = true
  removed : s.comp.removed = true → s.comp.hbProposals.isEmpty

/-- A component that serves and holds nothing back, as after `PartitioningActorMsg::Init`. -/
structure Start (S : Type) where
  comp : PaxosComp S
  hb : comp.hbProposals = .empty
  stopped : comp.stopped = false

/-- No `PendingReconfig` reaches a node that was removed. -/
def Timely (s : Ledger S) : CompEvent S → Prop
  | .local (.pendingReconfig _) => s.comp.removed = false
  | _ => True

instance (s : Ledger S) : ∀ e, Decidable (s.Timely e)
  | .local (.pendingReconfig _) => inferInstanceAs (Decidable (_ = _))
  | .local (.leader _ _ _) | .local (.reconfig _) | .local .killComponents | .atomicBroadcast _
  | .init _ _ _ | .run | .reconfigInit _ | .segmentRequest _ _ | .segmentTransfer _ _ | .clientStop
  | .timeout _ => isTrue trivial

variable [SequenceTraits S]

def step (s : Ledger S) (e : CompEvent S) : Option (Ledger S) :=
  if Serving e then (s.comp.handle e).map fun (c, out) => ⟨c, s.given ++ givenBy e, s.sent ++ out⟩
  else none

/-- A component before the client's stop. -/
def machine (F : Start S) : Machine (Ledger S) (CompEvent S) := ⟨⟨F.comp, [], []⟩, step⟩

variable {F : Start S} {s t : Ledger S} {e : CompEvent S}

theorem step_cases (hserve : s.comp.stopped = false) (h : s.step e = some t) :
    ∃ r, Effect s.comp e r ∧ t = ⟨r.1, s.given ++ givenBy e, s.sent ++ r.2⟩ := by
  unfold step at h
  split_ifs at h with he
  obtain ⟨r, hr, rfl⟩ := Option.map_eq_some_iff.mp h
  exact ⟨r, handle_effect hserve he hr, rfl⟩

/-- The component serves all the time. -/
theorem serving_of_reachable (h : (machine F).Reachable s) : s.comp.stopped = false := by
  refine h.invariant (P := fun s => s.comp.stopped = false) F.stopped fun s e t _ hs hstep => ?_
  obtain ⟨r, heff, rfl⟩ := step_cases hs hstep
  cases heff with
  | quiet given quiet => exact quiet.stopped.trans hs
  | flush given stopped => exact stopped.trans hs
  | pass out same => rw [same]; exact hs
  | hold m event stays why result => rw [result]; exact hs
  | reject data event result => rw [result]; exact hs

omit [SequenceTraits S] in
/-- The places after some more messages. -/
theorem entrusted_append (c : PaxosComp S) (sent out : List CompOut) :
    (c.entrusted (sent ++ out)).Perm (sent.flatMap passedOn ++ c.entrusted out) := by
  unfold entrusted
  rw [List.flatMap_append, List.append_assoc]

omit [SequenceTraits S] in
/-- A step that moves the proposals and adds the one it brings keeps all. -/
theorem entrusted_step {r : After S} (hs : s.given.Perm (s.comp.entrusted s.sent))
    (hr : (r.1.entrusted r.2).Perm (givenBy e ++ s.comp.hbProposals.proposals)) :
    (s.given ++ givenBy e).Perm (r.1.entrusted (s.sent ++ r.2)) := by
  refine List.Perm.trans ?_ (entrusted_append r.1 s.sent r.2).symm
  unfold entrusted at hs hr ⊢
  rw [← Multiset.coe_eq_coe] at hs hr ⊢
  simp only [← Multiset.coe_add] at hs hr ⊢
  rw [hs, hr]
  abel

/-- A step keeps everything just when it is timely. -/
theorem Conserved.step_iff (hserve : s.comp.stopped = false) (hs : s.Conserved) (e : CompEvent S) :
    s.Timely e ↔ ∀ t, s.step e = some t → t.Conserved := by
  constructor
  · intro htimely t ht
    obtain ⟨r, heff, rfl⟩ := step_cases hserve ht
    cases heff with
    | quiet given quiet =>
      refine ⟨entrusted_step hs.kept ?_, ?_, ?_⟩
      · unfold entrusted
        rw [quiet.out, quiet.hb, given]
      · rw [quiet.hb]
        intro hheld
        rcases quiet.config with hc | hc
        · rw [hc]; exact hs.held hheld
        · exact Or.inl hc
      · rw [quiet.hb, quiet.removed]; exact hs.removed
    | flush given stopped hb out =>
      refine ⟨entrusted_step hs.kept ?_, fun hheld => ?_, fun _ => ?_⟩
      · unfold entrusted
        rw [out, hb, given]
        exact .of_eq (List.append_nil _)
      · exact absurd (by rw [hb]; exact ⟨rfl, rfl⟩) hheld
      · rw [hb]; exact ⟨rfl, rfl⟩
    | pass out same =>
      refine ⟨entrusted_step hs.kept ?_, ?_, ?_⟩
      · unfold entrusted
        rw [out, same]
      · rw [same]; exact hs.held
      · rw [same]; exact hs.removed
    | hold m event stays why result =>
      subst event result
      refine ⟨entrusted_step hs.kept ?_, fun _ => why, fun hrem => ?_⟩
      · exact HoldBackProposals.proposals_serialised s.comp.hbProposals m
      · exact absurd hrem (by simp [stays])
    | reject data event result =>
      subst event result
      refine ⟨entrusted_step hs.kept ?_, fun _ => Or.inr rfl, fun hrem => ?_⟩
      · exact HoldBackProposals.proposals_deserialised s.comp.hbProposals ⟨data⟩
      · have hstays : s.comp.removed = false := htimely
        exact absurd hrem (by simp [handlePendingReconfig, hstays])
  · intro hkeep
    unfold Timely
    split
    · next data =>
      by_contra hrem
      have hempty := (hkeep _ rfl).removed (by simpa [handlePendingReconfig] using hrem)
      have hdeser : s.comp.hbProposals.deserialised ++ [⟨data⟩] = [] := hempty.2
      simp at hdeser
    · trivial

/-- **Conservation**: in a run before the client's stop every proposal is in one place and none is held
back where it should not be, at any moment, if and only if no `PendingReconfig` reaches a node that
was removed. -/
theorem conserved_iff (F : Start S) (es : List (CompEvent S)) :
    (machine F).AllStates Conserved (machine F).init es ↔
      (machine F).AllSteps Timely (machine F).init es := by
  have hinit : (machine F).init.Conserved := by
    have hempty : F.comp.hbProposals.isEmpty := by rw [F.hb]; exact ⟨rfl, rfl⟩
    refine ⟨?_, fun h => absurd hempty h, fun _ => hempty⟩
    show List.Perm [] (F.comp.entrusted [])
    unfold entrusted
    rw [F.hb]
    rfl
  exact Machine.Reachable.allStates_iff_allSteps
    (fun s hr hs e => hs.step_iff (serving_of_reachable hr) e) .init hinit es

/-- Node 1 among the first three of four nodes, initialised. -/
def first : Start (List Entry) where
  comp := ((new [1, 2, 3] true false .ble).handleInit 4 1 0).elim (new [] true false .ble) Prod.fst
  hb := rfl
  stopped := rfl

/-- Node 1 leads; a client asks it to replace it by node 4, and proposes. Both are told to the replica,
which hands the proposal back only after the final sequence. -/
def handedBackLate : List (CompEvent (List Entry)) :=
  [.run, .local (.leader 1 1 1), .atomicBroadcast (.reconfigurationProposal ⟨.replaceLeader, [4]⟩),
    .atomicBroadcast (.proposal ⟨[7]⟩),
    .local (.reconfig ⟨2, ⟨[2, 3], [4]⟩, [.stopSign ⟨2, [2, 3, 4], none⟩], none⟩),
    .local (.pendingReconfig [7])]

/-- Node 1 is removed and keeps the proposal. -/
theorem removed_keeps_proposal : ∃ s, (machine first).run (machine first).init handedBackLate = some s ∧
    s.comp.removed = true ∧ s.comp.hbProposals.deserialised = [⟨[7]⟩] ∧ ¬ s.Conserved := by
  refine ⟨_, rfl, rfl, rfl, fun h => ?_⟩
  have hempty := h.removed rfl
  revert hempty
  decide

end Ledger

end OmniPaxosBench.OmniPaxos
