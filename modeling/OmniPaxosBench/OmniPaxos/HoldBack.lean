import OmniPaxosBench.OmniPaxos.LogTransfer
import OmniPaxosBench.OmniPaxos.Node

/-! # Proposals that are held back

A replica that rejects a proposal hands it back by `PendingReconfig`, and the supervisor holds further
proposals back until the next configuration has started. The message does not say which configuration
it is about, and the supervisor takes it for the active one. `rejected_of_prompt` shows that the active
configuration has rejected a proposal whenever proposals are held back, if every `PendingReconfig` is
handled while the configuration of its replica is active; `late_pending` is a run where one is not. -/

namespace OmniPaxosBench.OmniPaxos

open LeaderElection OmniPaxosBench.Lib PaxosComp

/-! ### The flag of the supervisor -/

namespace PaxosComp

variable {S : Type}

/-- If the flag is set, it was set before and the configuration is the same. -/
def Calm (c c' : PaxosComp S) : Prop := c'.activeConfig.pendingReconfig = true →
  c.activeConfig.pendingReconfig = true ∧ c'.activeConfig.id = c.activeConfig.id

variable {c c' : PaxosComp S} {r : After S}

theorem calm_of_eq (h : c'.activeConfig = c.activeConfig) : Calm c c' := fun hflag => by
  rw [h] at hflag ⊢
  exact ⟨hflag, rfl⟩

theorem Calm.trans {c'' : PaxosComp S} (h : Calm c c') (h' : Calm c' c'') : Calm c c'' := fun hflag =>
  ⟨(h (h' hflag).1).1, (h' hflag).2.trans (h (h' hflag).1).2⟩

/-- A replica that is started holds nothing back. -/
theorem startReplica_calm {n : ℕ} (h : c.startReplica n = some r) (c₀ : PaxosComp S) : Calm c₀ r.1 := by
  rw [startReplica_eq h]
  intro hflag
  cases hflag

theorem pullSequence_calm {d len : ℕ} {nodes : List ℕ} (h : c.pullSequence d len nodes = some r) :
    Calm c r.1 := by
  obtain ⟨-, hc, -⟩ := LogTransfer.pullSequence_eq h
  exact calm_of_eq (by rw [hc])

theorem IsActiveAfter.calm {active : ConfigMeta} (h : IsActiveAfter c active)
    (heq : c'.activeConfig = active) : Calm c c' := by
  rcases h with rfl | ⟨k, rfl⟩
  · exact calm_of_eq heq
  · intro hflag
    rw [heq] at hflag
    cases hflag

theorem handleLeader_calm {d pid round : ℕ} (h : c.handleLeader d pid round = some r) :
    Calm c r.1 := by
  obtain ⟨leader, hb, heq, -⟩ := handleLeader_changes h
  rw [heq]
  exact fun hflag => ⟨hflag, rfl⟩

theorem handleAtomicBroadcast_calm {m : AtomicBroadcastMsg} (h : c.handleAtomicBroadcast m = some r) :
    Calm c r.1 := by
  obtain ⟨hb, heq, -⟩ := handleAtomicBroadcast_changes h
  exact calm_of_eq (by rw [heq])

theorem stopComponents_calm (h : c.stopComponents = some r) : Calm c r.1 := by
  obtain ⟨-, active, next, start, heq, hactive, -⟩ := stopComponents_changes h
  exact hactive.calm (by rw [heq])

theorem retryPendingSegments_calm {d : ℕ} (h : c.retryPendingSegments d = some r) : Calm c r.1 := by
  unfold retryPendingSegments at h
  obtain ⟨out, -, h⟩ := Option.bind_eq_some_iff.mp h
  cases h
  exact calm_of_eq rfl

variable [SequenceTraits S]

theorem handleReconfig_calm {m : FinalMsg S} (h : c.handleReconfig m = some r) : Calm c r.1 := by
  obtain ⟨r', hb, forwards, hr', rfl, -⟩ := handleReconfig_changes h
  obtain ⟨active, next, prev, removed, heq, hactive, -⟩ := finishConfig_changes hr'
  exact hactive.calm (by rw [heq])

theorem handleSegmentRequest_calm {sr : SegmentRequest} {requestor : ℕ}
    (h : c.handleSegmentRequest sr requestor = some r) : Calm c r.1 := by
  obtain ⟨handled, heq, -⟩ := handleSegmentRequest_changes h
  exact calm_of_eq (by rw [heq])

theorem handleOutcome_calm {st : SegmentTransfer} {rnd : ℕ} (h : c.handleOutcome st rnd = some r) :
    Calm c r.1 := by
  unfold handleOutcome at h
  split_ifs at h
  · obtain ⟨active, next, prev, pending, received, heq, hactive, -⟩ := acceptSegment_changes h
    exact hactive.calm (by rw [heq])
  · obtain ⟨hc, -⟩ := LogTransfer.askAgain_eq h
    exact calm_of_eq (by rw [hc])

theorem handleSegmentTransfer_calm {st : SegmentTransfer} {rnd : ℕ}
    (h : c.handleSegmentTransfer st rnd = some r) : Calm c r.1 := by
  unfold handleSegmentTransfer at h
  split_ifs at h
  · cases h
    exact calm_of_eq rfl
  · obtain ⟨r₁, h₁, h⟩ := Option.bind_eq_some_iff.mp h
    obtain ⟨r₂, h₂, h⟩ := Option.bind_eq_some_iff.mp h
    cases h
    have hpull : Calm c r₁.1 := by
      unfold pullPrevious at h₁
      split_ifs at h₁
      · exact pullSequence_calm h₁
      · cases h₁
        exact calm_of_eq rfl
    have houtcome : Calm r₁.1 r₂.1 := handleOutcome_calm h₂
    exact hpull.trans houtcome

theorem handleReconfigInit_calm {m : ReconfigInit} (h : c.handleReconfigInit m = some r) :
    Calm c r.1 := by
  have hready : ∀ c₀ : PaxosComp S, Calm c₀ (c₀.addReadyPeer m) := by
    intro c₀
    unfold addReadyPeer
    split_ifs
    · exact calm_of_eq rfl
    · exact calm_of_eq rfl
  unfold handleReconfigInit at h
  dsimp only at h
  split_ifs at h
  · cases h; exact calm_of_eq rfl
  · cases h; exact calm_of_eq rfl
  · unfold join at h
    split at h
    · unfold beginJoin at h
      obtain ⟨set, -, h⟩ := Option.bind_eq_some_iff.mp h
      obtain ⟨r', hr', h⟩ := Option.bind_eq_some_iff.mp h
      cases h
      unfold startOrPull at hr'
      split_ifs at hr'
      · exact startReplica_calm hr' c
      · have hpull := pullSequence_calm hr'
        exact (hready { c with nextConfigId := some m.configId }).trans hpull
    · split_ifs at h
      · cases h; exact hready c
      · cases h; exact calm_of_eq rfl

/-- **Only `PendingReconfig` sets the flag**, as long as the node is not initialised again. -/
theorem handle_calm {e : CompEvent S} (hinit : ∀ nodes pid it, e ≠ .init nodes pid it)
    (hpending : ∀ data, e ≠ .local (.pendingReconfig data)) (h : c.handle e = some r) : Calm c r.1 := by
  cases e with
  | «local» m =>
    cases m with
    | leader => exact handleLeader_calm h
    | pendingReconfig data => exact absurd rfl (hpending data)
    | reconfig => exact handleReconfig_calm h
    | killComponents => cases h; exact calm_of_eq rfl
  | atomicBroadcast => exact handleAtomicBroadcast_calm h
  | init nodes pid it => exact absurd rfl (hinit nodes pid it)
  | run =>
    rcases handle_run h with ⟨k, hstart⟩ | rfl
    · exact startReplica_calm hstart c
    · exact calm_of_eq rfl
  | reconfigInit => exact handleReconfigInit_calm h
  | segmentRequest sr requestor =>
    rcases handle_segmentRequest h with rfl | hserve
    · exact calm_of_eq rfl
    · exact handleSegmentRequest_calm hserve
  | segmentTransfer st rnd =>
    rcases handle_segmentTransfer h with rfl | hserve
    · exact calm_of_eq rfl
    · exact handleSegmentTransfer_calm hserve
  | clientStop => exact stopComponents_calm h
  | timeout id =>
    obtain ⟨⟨configId, timers⟩, -, h⟩ := Option.bind_eq_some_iff.mp h
    have hset : Calm c { c with timers := timers } := calm_of_eq rfl
    exact hset.trans (retryPendingSegments_calm h)

end PaxosComp

/-! ### The condition and the invariant -/

namespace Node

variable {P S M : Type} [Paxos P S M]

/-- Messages of a replica, the first of which is not a `PendingReconfig` unless `active`. -/
def PendingOnlyIf (active : Prop) : List (PaxosCompMsg S) → Prop
  | .pendingReconfig _ :: _ => active
  | _ => True

instance (active : Prop) [Decidable active] : ∀ box : List (PaxosCompMsg S),
    Decidable (PendingOnlyIf active box)
  | .pendingReconfig _ :: _ => inferInstanceAs (Decidable active)
  | [] | .leader _ _ _ :: _ | .reconfig _ :: _ | .killComponents :: _ => isTrue trivial

/-- A `PendingReconfig` is handled while the configuration of its replica is active. -/
def Prompt (s : Node P S M) : NodeEvent S M → Prop
  | .supervise idx =>
    PendingOnlyIf (s.comp.activeConfig.id = (s.replica idx).configId) (s.outbox idx)
  | _ => True

instance (s : Node P S M) : ∀ e, Decidable (s.Prompt e)
  | .supervise _ => inferInstanceAs (Decidable (PendingOnlyIf _ _))
  | .comp _ | .replica _ _ _ | .timer _ | .raw _ _ | .peerStop _ _ | .elected _ _ => isTrue trivial

/-- The replica of the configuration has rejected a proposal. -/
def Rejected (s : Node P S M) (configId : ℕ) : Prop := ∃ x ∈ s.rejections, x.configId = configId

/-- The proposals handed back were rejected, and so is one of the active configuration if proposals are
held back. -/
structure Inv (s : Node P S M) : Prop where
  outbox : ∀ idx data, .pendingReconfig data ∈ s.outbox idx → s.Rejected (s.replica idx).configId
  flag : s.comp.activeConfig.pendingReconfig = true → s.Rejected s.comp.activeConfig.id
  real : ∀ x ∈ s.rejections, ∃ data, Paxos.proposeNormal x.paxos x.data = .error (.normal data)

/-! ### Steps -/

variable {s : Node P S M} {idx : ℕ} {r : After S}

theorem Inv.frame {t : Node P S M} (h : Inv s) (hf : Frame s t) : Inv t := by
  obtain ⟨hcomp, hconfig, houtbox, hrej⟩ := hf
  refine ⟨fun idx data hmem => ?_, fun hflag => ?_, fun x hx => ?_⟩
  · rw [houtbox] at hmem
    unfold Rejected
    rw [hrej, hconfig]
    exact h.outbox idx data hmem
  · rw [hcomp] at hflag ⊢
    unfold Rejected
    rw [hrej]
    exact h.flag hflag
  · rw [hrej] at hx
    exact h.real x hx

omit [Paxos P S M] in
theorem Rejected.mono {t : Node P S M} {d : ℕ} (h : s.Rejected d)
    (hsub : ∀ x ∈ s.rejections, x ∈ t.rejections) : t.Rejected d := by
  obtain ⟨x, hx, hd⟩ := h
  exact ⟨x, hsub x hx, hd⟩

/-- The supervisor has handled something. -/
theorem inv_comp (h : Inv s) (hflag : r.1.activeConfig.pendingReconfig = true →
    s.Rejected r.1.activeConfig.id) : Inv (s.afterComp r) := by
  have hset : Inv { s with comp := r.1 } := ⟨h.outbox, hflag, h.real⟩
  exact hset.frame (foldl_applyOut_frame r.2 _)

theorem inv_calm (h : Inv s) (hcalm : Calm s.comp r.1) : Inv (s.afterComp r) := by
  refine inv_comp h fun hflag => ?_
  obtain ⟨hold, hid⟩ := hcalm hflag
  rw [hid]
  exact h.flag hold

/-- A replica has handled something; if it hands a proposal back, its configuration has rejected one. -/
theorem inv_replica {p : PaxosReplica.Result P S M} (h : Inv s)
    (hconfig : p.1.configId = (s.replica idx).configId)
    (hpending : ∀ data, .supervisor (.pendingReconfig data) ∈ p.2 →
      s.Rejected (s.replica idx).configId) : Inv (s.afterReplica idx p) := by
  refine ⟨fun j data hmem => ?_, h.flag, h.real⟩
  show s.Rejected (Function.update s.replica idx p.1 j).configId
  rw [config_update idx hconfig]
  have hmem' : .pendingReconfig data ∈
      Function.update s.outbox idx (s.outbox idx ++ toSupervisor p.2) j := hmem
  by_cases hj : j = idx
  · subst hj
    rw [Function.update_self] at hmem'
    rcases List.mem_append.mp hmem' with hmem' | hmem'
    · exact h.outbox j data hmem'
    · exact hpending data (mem_toSupervisor.mp hmem')
  · rw [Function.update_of_ne hj] at hmem'
    exact h.outbox j data hmem'

theorem inv_quiet {p : PaxosReplica.Result P S M} (h : Inv s)
    (hquiet : PaxosReplica.Quiet (s.replica idx) p) : Inv (s.afterReplica idx p) :=
  inv_replica h hquiet.config fun data hmem => absurd hmem (hquiet.outs data)

/-- A replica handles a message of the supervisor. -/
theorem inv_receive {rnds : List ℕ} {prio : ℕ} {t : Node P S M} (h : Inv s)
    (ht : s.receive idx rnds prio = some t) : Inv t := by
  unfold receive at ht
  split at ht
  · next m rest _ =>
    obtain ⟨p, hp, rfl⟩ := Option.map_eq_some_iff.mp ht
    -- the rejection is recorded before its outcome is handed back
    set s₁ : Node P S M := { s with
      inbox := Function.update s.inbox idx rest
      rejections := s.rejections ++ s.rejectionOf idx m } with hs₁
    have hsub : ∀ x ∈ s.rejections, x ∈ s₁.rejections := fun x hx => List.mem_append_left _ hx
    have hreal : ∀ x ∈ s.rejectionOf idx m,
        ∃ data, Paxos.proposeNormal x.paxos x.data = .error (.normal data) := by
      intro x hx
      unfold rejectionOf at hx
      split at hx
      · split at hx
        · next data hdata =>
          rw [List.mem_singleton.mp hx]
          exact ⟨data, hdata⟩
        · cases hx
      · cases hx
    have hinv : Inv s₁ := by
      refine ⟨fun j data hmem => (h.outbox j data hmem).mono hsub, fun hflag => (h.flag hflag).mono hsub, ?_⟩
      intro x hx
      rcases List.mem_append.mp hx with hx | hx
      · exact h.real x hx
      · exact hreal x hx
    rcases PaxosReplica.receiveLocal_cases hp with hquiet | ⟨proposal, data, rfl, hdata, rfl⟩
    · exact inv_quiet hinv hquiet
    · refine inv_replica hinv rfl fun _ _ => ?_
      have hrej : s.rejectionOf idx (.propose proposal) =
          [⟨(s.replica idx).configId, (s.replica idx).paxos, proposal.data⟩] := by
        unfold rejectionOf
        dsimp only
        rw [hdata]
      refine ⟨⟨(s.replica idx).configId, (s.replica idx).paxos, proposal.data⟩,
        List.mem_append_right _ ?_, rfl⟩
      rw [hrej]
      exact List.mem_singleton.mpr rfl
  · cases ht

/-- The supervisor handles a message of a replica. -/
theorem inv_supervise [SequenceTraits S] {t : Node P S M} (h : Inv s) (hprompt : s.Prompt (.supervise idx))
    (ht : s.supervise idx = some t) : Inv t := by
  unfold supervise at ht
  split at ht
  · next m rest hbox =>
    obtain ⟨r, hr, rfl⟩ := Option.map_eq_some_iff.mp ht
    set s₁ : Node P S M := { s with outbox := Function.update s.outbox idx rest } with hs₁
    have hinv : Inv s₁ := by
      refine ⟨fun j data hmem => h.outbox j data ?_, h.flag, h.real⟩
      have hmem' : .pendingReconfig data ∈ Function.update s.outbox idx rest j := hmem
      by_cases hj : j = idx
      · subst hj
        rw [Function.update_self] at hmem'
        rw [hbox]
        exact List.mem_cons_of_mem _ hmem'
      · rw [Function.update_of_ne hj] at hmem'
        exact hmem'
    by_cases hpending : ∃ data, m = .pendingReconfig data
    · obtain ⟨data, rfl⟩ := hpending
      have hactive : s.comp.activeConfig.id = (s.replica idx).configId := by
        have hhead : PendingOnlyIf (s.comp.activeConfig.id = (s.replica idx).configId)
          (s.outbox idx) := hprompt
        rw [hbox] at hhead
        exact hhead
      have hrej := h.outbox idx data (by rw [hbox]; exact List.mem_cons_self)
      cases hr
      refine inv_comp hinv fun _ => ?_
      show s.Rejected s.comp.activeConfig.id
      rw [hactive]
      exact hrej
    · refine inv_calm hinv (handle_calm ?_ ?_ hr)
      · intro nodes pid it heq; cases heq
      · intro data heq
        cases heq
        exact hpending ⟨data, rfl⟩
  · cases ht

theorem inv_step [SequenceTraits S] {e : NodeEvent S M} {t : Node P S M} (h : Inv s) (hprompt : s.Prompt e)
    (ht : s.step e = some t) : Inv t := by
  cases e with
  | comp e =>
    have ht' : (if IsExternal e then (s.comp.handle e).map s.afterComp else none) = some t := ht
    split_ifs at ht' with hext
    obtain ⟨r, hr, rfl⟩ := Option.map_eq_some_iff.mp ht'
    refine inv_calm h (handle_calm ?_ ?_ hr)
    · rintro nodes pid it rfl; cases hext
    · rintro data rfl; cases hext
  | supervise idx => exact inv_supervise h hprompt ht
  | replica idx rnds prio =>
    have ht' : (if s.started idx then s.receive idx rnds prio else none) = some t := ht
    split_ifs at ht'
    exact inv_receive h ht'
  | timer idx =>
    have ht' : (if s.started idx then ((s.replica idx).handleTimer).map (s.afterReplica idx) else none) =
      some t := ht
    split_ifs at ht'
    obtain ⟨p, hp, rfl⟩ := Option.map_eq_some_iff.mp ht'
    exact inv_quiet h (PaxosReplica.handleTimer_quiet hp)
  | raw idx m =>
    have ht' : (if s.started idx then some (s.afterReplica idx ((s.replica idx).handleRaw m)) else none) =
      some t := ht
    split_ifs at ht'
    cases ht'
    exact inv_quiet h (PaxosReplica.handleRaw_quiet _ _)
  | peerStop idx pid =>
    have ht' : (if s.started idx then ((s.replica idx).handlePeerStop pid).map (s.afterReplica idx)
      else none) = some t := ht
    split_ifs at ht'
    obtain ⟨p, hp, rfl⟩ := Option.map_eq_some_iff.mp ht'
    exact inv_quiet h (PaxosReplica.handlePeerStop_quiet hp)
  | elected idx l =>
    have ht' : (if s.started idx then some (s.afterReplica idx ((s.replica idx).handleLeader l)) else none) =
      some t := ht
    split_ifs at ht'
    cases ht'
    exact inv_quiet h (PaxosReplica.handleLeader_quiet _ _)

theorem inv_init (F : Fresh P S M) : Inv (init F) := by
  refine ⟨?_, ?_, ?_⟩
  · intro idx data hmem
    cases hmem
  · intro hflag
    have hflag' : F.comp.activeConfig.pendingReconfig = true := hflag
    rw [F.flag] at hflag'
    cases hflag'
  · intro x hx
    cases hx

/-- **Proposals are held back for a reason.** If every `PendingReconfig` is handled while the
configuration of its replica is active: whenever proposals are held back because of a pending
reconfiguration, the replica of the active configuration itself has rejected a proposal, with a stop
sign in its log. -/
theorem rejected_of_prompt [SequenceTraits S] {F : Fresh P S M} {s : Node P S M}
    (h : (machine F).ReachableUnder Prompt s) : s.comp.activeConfig.pendingReconfig = true →
    ∃ x ∈ s.rejections, x.configId = s.comp.activeConfig.id ∧
      (∃ data, Paxos.proposeNormal x.paxos x.data = .error (.normal data)) ∧
      Paxos.hasStopSign x.paxos = true := by
  have hinv : Inv s := by
    refine h.invariant (P := fun s => Inv s) ?_ fun s e t _ hprompt hinv hstep => ?_
    · exact inv_init F
    · exact inv_step hinv hprompt hstep
  intro hflag
  obtain ⟨x, hx, hd⟩ := hinv.flag hflag
  exact ⟨x, hx, hd, hinv.real x hx, (Paxos.rejects_iff x.paxos x.data).mp (hinv.real x hx)⟩

end Node

/-! ### Two runs -/

/-- The answers of a follower to the leader. -/
inductive FollowerMsg
  | promise
  /-- The first entries of the log are accepted. -/
  | accepted (len : ℕ)
  deriving DecidableEq, Repr

/-- The Paxos of a node among three, as far as its leader goes: with the answer of one follower there is
a majority. What it sends is left out. -/
structure LeaderPaxos where
  configId : ℕ
  pid : ℕ
  leader : Leader
  /-- The leader has the promises of a majority. -/
  prepared : Bool
  /-- Proposals that wait for the promises. -/
  pending : List Entry
  log : List Entry
  decided : ℕ
  /-- How much of the log was handed out as decided. -/
  delivered : ℕ
  deriving DecidableEq, Repr

namespace LeaderPaxos

def isStopSign : Entry → Bool
  | .normal _ => false
  | .stopSign _ => true

/-- The leader appends to its log; the others have nothing to append. -/
def append (p : LeaderPaxos) (e : Entry) : LeaderPaxos :=
  if p.leader.pid = p.pid then
    if p.prepared then { p with log := p.log ++ [e] } else { p with pending := p.pending ++ [e] }
  else p

def proposeNormal (p : LeaderPaxos) (data : Data) : Except ProposeErr LeaderPaxos :=
  if p.log.any isStopSign then .error (.normal data) else .ok (p.append (.normal data))

def proposeReconfiguration (p : LeaderPaxos) (nodes : List ℕ) (prioStartRound : Option Ballot) :
    Except ProposeErr LeaderPaxos :=
  if p.log.any isStopSign then .error (.reconfiguration nodes)
  else .ok (p.append (.stopSign ⟨p.configId + 1, nodes, prioStartRound.map fun n => ⟨p.pid, n⟩⟩))

def handle (p : LeaderPaxos) : FollowerMsg → LeaderPaxos
  | .promise => { p with prepared := true, log := p.log ++ p.pending, pending := [] }
  | .accepted len => { p with decided := max p.decided (min len p.log.length) }

theorem rejects_iff (p : LeaderPaxos) (data : Data) :
    (∃ data', p.proposeNormal data = .error (.normal data')) ↔ p.log.any isStopSign = true := by
  unfold proposeNormal
  constructor
  · rintro ⟨data', h⟩
    by_contra hnone
    rw [if_neg hnone] at h
    cases h
  · intro hstop
    exact ⟨data, by rw [if_pos hstop]⟩

instance : Paxos LeaderPaxos (List Entry) FollowerMsg where
  new configId pid _ skipPrepareUseLeader :=
    ⟨configId, pid, skipPrepareUseLeader.getD ⟨0, default⟩, skipPrepareUseLeader.isSome, [], [], 0, 0⟩
  proposeNormal := proposeNormal
  proposeReconfiguration := proposeReconfiguration
  getPromise p := p.leader.round
  getCurrentLeader p := p.leader.pid
  getDecidedEntries p :=
    ((p.log.take p.decided).drop p.delivered, { p with delivered := p.decided })
  stopAndGetSequence p := (p.log, p)
  getChosenEntries p fromIdx toIdx := (p.log.drop fromIdx).take (toIdx - fromIdx)
  getOutgoingMsgs p := ([], p)
  handle := handle
  handleLeader p l := if p.leader.round < l.round then { p with leader := l, prepared := false } else p
  stopped p := p.log.any isStopSign
  hasStopSign p := p.log.any isStopSign
  rejects_iff := rejects_iff

end LeaderPaxos

namespace Node

/-- Node 1 among the first three of four nodes, with the replica of the first configuration and that of
the next one. -/
def first : Fresh LeaderPaxos (List Entry) FollowerMsg where
  comp := ((new [1, 2, 3] true false .ble).handleInit 4 1 0).elim (new [] true false .ble) Prod.fst
  replica
    | 0 => .new [2, 3] 1 1 (Paxos.new 1 1 [2, 3] none)
    | _ => .new [] 2 1 (Paxos.new 2 1 [] none)
  flag := rfl

/-- Node 1 becomes the leader; a client asks it to replace a follower by node 4, and proposes. The stop
sign is in the log when the proposal is still on its way to the replica. -/
def replaceThenPropose : List (NodeEvent (List Entry) FollowerMsg) :=
  [.comp .run, .elected 0 ⟨1, ⟨1, 1⟩⟩, .supervise 0, .raw 0 .promise,
    .comp (.atomicBroadcast (.reconfigurationProposal ⟨.replaceFollower, [4]⟩)),
    .comp (.atomicBroadcast (.proposal ⟨[7]⟩)), .replica 0 [0] 1]

/-- The proposal is rejected and handed back before the stop sign is decided. -/
def inTime : List (NodeEvent (List Entry) FollowerMsg) :=
  replaceThenPropose ++ [.replica 0 [] 1, .supervise 0]

/-- The stop sign is decided before the replica gets to the proposal. -/
def tooLate : List (NodeEvent (List Entry) FollowerMsg) :=
  replaceThenPropose ++ [.raw 0 (.accepted 1), .timer 0, .replica 0 [] 1, .supervise 0, .supervise 0]

theorem inTime_rejected : ∃ s, (machine first).ReachableUnder Prompt s ∧
    s.comp.activeConfig.pendingReconfig = true ∧ ∃ x ∈ s.rejections, x.configId = s.comp.activeConfig.id ∧
      (∃ data, Paxos.proposeNormal x.paxos x.data = .error (.normal data)) ∧
      Paxos.hasStopSign x.paxos = true := by
  have hok : (machine first).AllSteps Prompt (machine first).init inTime := by decide
  obtain ⟨s, hrun, hflag⟩ : ∃ s, (machine first).run (machine first).init inTime = some s ∧
      s.comp.activeConfig.pendingReconfig = true := ⟨_, rfl, by decide⟩
  have hr := Machine.ReachableUnder.init.run hok hrun
  exact ⟨s, hr, hflag, rejected_of_prompt hr hflag⟩

/-- The second configuration holds proposals back, with no stop sign in its log: the only proposal that
was rejected is one of the first. -/
theorem late_pending : ∃ s, (machine first).Reachable s ∧
    s.comp.activeConfig.pendingReconfig = true ∧ s.comp.activeConfig.id = 2 ∧
    (∀ x ∈ s.rejections, x.configId = 1) ∧
    (s.replica 1).configId = 2 ∧ Paxos.hasStopSign (s.replica 1).paxos = false := by
  obtain ⟨s, hrun, hfacts⟩ : ∃ s, (machine first).run (machine first).init tooLate = some s ∧
      s.comp.activeConfig.pendingReconfig = true ∧ s.comp.activeConfig.id = 2 ∧
      (∀ x ∈ s.rejections, x.configId = 1) ∧
      (s.replica 1).configId = 2 ∧ Paxos.hasStopSign (s.replica 1).paxos = false :=
    ⟨_, rfl, by decide, by decide, by decide, by decide, by decide⟩
  exact ⟨s, Machine.reachable_of_run hrun, hfacts⟩

end Node

end OmniPaxosBench.OmniPaxos
