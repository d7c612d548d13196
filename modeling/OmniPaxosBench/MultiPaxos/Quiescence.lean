import OmniPaxosBench.MultiPaxos.SlotCoverage
import OmniPaxosBench.MultiPaxos.SynodDelivery

/-! # Multi-Paxos: when everything sent has been handled

No component resends what belongs to phase 2, so progress rests on the network: `Quiet` says that every
message of phase 2 sent so far has been handled at least once, in whatever order. Then the replicas have
all executed the same log, and a leader in phase 2 finds in it everything it has proposed in its round,
with no slot left open below its next one, as long as a majority of the acceptors has not left the round
(`quiet_log`). -/

namespace OmniPaxosBench.MultiPaxos

open OmniPaxosBench.Lib

/-- No simulated partition at the acceptors and proxy leaders. -/
def SystemEvent.Unpartitioned : SystemEvent → Prop
  | .synod e => e.Unpartitioned
  | .leader _ _ | .replica _ _ => True

instance : ∀ e : SystemEvent, Decidable e.Unpartitioned
  | .synod e => inferInstanceAs (Decidable e.Unpartitioned)
  | .leader _ _ | .replica _ _ => isTrue trivial

namespace System

/-- The `Phase2a` in a message of a leader. -/
def phase2aOf : LeaderOut → Option Phase2a
  | .phase2a _ m => some m
  | .phase1a _ _ | .toBatcher _ _ | .toClient _ _ => none

/-- The `Phase2b` in a message of an acceptor, with the proxy leader it goes to. -/
def phase2bOf : AcceptorOut → Option (ℕ × Phase2b)
  | .toProxyLeader p b => some (p, b)
  | .toLeader _ _ => none

/-- Every message of phase 2 sent in the run of `es` to `s` has been handled in it. -/
structure Quiet (n : ℕ) (es : List SystemEvent) (s : System) : Prop where
  proposals : ∀ i ∈ pids n, ∀ m ∈ (s.leaderOuts i).filterMap phase2aOf, .synod (.propose i m) ∈ es
  phase2as : ∀ x ∈ s.synod.toAcceptors, .synod (.phase2a x.1 x.2) ∈ es
  phase2bs : ∀ x ∈ s.synod.acceptorOuts.filterMap phase2bOf, .synod (.phase2b x.1 x.2) ∈ es
  chosen : ∀ c ∈ s.synod.chosen, .replica c.replica (.chosen c.chosen) ∈ es

/-- A majority of the acceptors has not left round `r`. -/
def Stays (n : ℕ) (s : System) (r : ℕ) : Prop :=
  ∃ Q, IsMajority (pids n).toFinset Q ∧ ∀ a ∈ Q, (s.synod.acceptor a).round ≤ r

/-- The condition on the steps. -/
def Undisturbed (n : ℕ) (s : System) (e : SystemEvent) : Prop :=
  s.Sound n e ∧ s.Fills e ∧ e.Unpartitioned

instance (n : ℕ) (s : System) (e : SystemEvent) : Decidable (s.Undisturbed n e) :=
  inferInstanceAs (Decidable (_ ∧ _ ∧ _))

variable {n : ℕ} {options : ReplicaOptions} {s t : System} {e : SystemEvent} {es : List SystemEvent}
  {i j : ℕ}

/-! ### Effects of handled messages -/

/-- The acceptors and proxy leaders stay, or take one step of their own. -/
theorem synod_of_step (hstep : s.step n e = some t) : t.synod = s.synod ∨
    ∃ se, e = .synod se ∧ s.synod.step n se = some t.synod := by
  rcases step_cases hstep with ⟨_, _, _, _, -, -, -, -, rfl⟩ | ⟨se, u, rfl, -, hu, rfl⟩ |
    ⟨_, _, _, _, -, -, -, -, rfl⟩
  · exact Or.inl rfl
  · exact Or.inr ⟨se, rfl, hu⟩
  · exact Or.inl rfl

theorem dispatched_of_reachable (h : (machine n options).ReachableUnder (Undisturbed n) s) :
    Synod.Dispatched n s.synod := by
  refine h.invariant (P := fun s => Synod.Dispatched n s.synod) (Synod.dispatched_init n)
    fun s e t hr hok hs hstep => ?_
  rcases synod_of_step hstep with heq | ⟨se, rfl, hse⟩
  · rw [heq]
    exact hs
  · exact hs.step (Synod.inv_of_reachable (synod_reachable hr.reachable)) hok.2.2 hse

/-- What an event of the acceptors and proxy leaders leaves behind. -/
theorem synod_of_mem_run {P : Synod → Prop} {d : SynodEvent}
    (hnow : ∀ s v, (machine n options).ReachableUnder (Undisturbed n) s →
      s.synod.step n d = some v → P v)
    (hkeep : ∀ u se v, u.step n se = some v → P u → P v)
    (hrun : (machine n options).run (machine n options).init es = some s)
    (hok : (machine n options).AllSteps (Undisturbed n) (machine n options).init es)
    (hd : .synod d ∈ es) : P s.synod := by
  refine Machine.ReachableUnder.of_mem_run (P := fun s => P s.synod) (fun s t hr _ hstep => ?_)
    (fun s e t _ _ hs hstep => ?_) .init hok hrun hd
  · have hsynod : s.step n (.synod d) = some t := hstep
    rcases step_cases hsynod with ⟨_, _, _, _, he, -⟩ | ⟨_, u, he, -, hu, rfl⟩ | ⟨_, _, _, _, he, -⟩
    · cases he
    · cases he
      exact hnow s u hr hu
    · cases he
  · rcases synod_of_step hstep with heq | ⟨se, -, hse⟩
    · rw [heq]
      exact hs
    · exact hkeep _ se _ hse hs

/-- Proposals carry the proxy leader they were handed to. -/
theorem Inv.src_of_proposal (h : Inv n s) {p : ℕ} {m : Phase2a} (hm : (p, m) ∈ s.synod.proposals) :
    m.src = p := by
  obtain ⟨hp, x, hx, o, rfl⟩ := h.proposals p m hm
  exact ((h.history p hp).told o m hx).1

section Quiet

variable (hrun : (machine n options).run (machine n options).init es = some s)
  (hok : (machine n options).AllSteps (Undisturbed n) (machine n options).init es) (hq : Quiet n es s)

include hrun hok hq

/-- **What a leader has proposed is chosen**, unless too many acceptors have left the round. -/
theorem chosen_of_quiet (hi : i ∈ pids n) {o : Origin} {m : Phase2a} (hm : .phase2a o m ∈ s.leaderOuts i)
    (hstays : s.Stays n m.round) :
    ∃ value, ∀ j ∈ pids n, ⟨i, m.round, j, m.slot, value⟩ ∈ s.synod.chosen := by
  have hr := Machine.ReachableUnder.init.run hok hrun
  have hinv : Synod.Inv n s.synod := Synod.inv_of_reachable (synod_reachable hr.reachable)
  obtain ⟨Q, hQ, hround⟩ := hstays
  have hknown : s.synod.Known i ⟨m.slot, m.round⟩ := by
    refine synod_of_mem_run (fun _ _ _ hstep => Synod.known_of_propose hstep)
      (fun _ _ _ hstep h => h.step hstep) hrun hok (hq.proposals i hi m ?_)
    exact List.mem_filterMap.mpr ⟨_, hm, rfl⟩
  have hanswered : ∀ a m, (a, m) ∈ s.synod.toAcceptors → s.synod.Answered a m := by
    intro a m' hm'
    exact synod_of_mem_run (fun _ _ hr hstep => Synod.answered_of_phase2a (dispatched_of_reachable hr) hstep)
      (fun _ _ _ hstep h => h.step hstep) hrun hok (hq.phase2as _ hm')
  have hcounted : ∀ p b, .toProxyLeader p b ∈ s.synod.acceptorOuts → s.synod.Counted p b := by
    intro p b hb
    refine synod_of_mem_run (P := fun u => u.Counted p b) (fun u v hr hstep => ?_) (fun _ _ _ hstep h => h.step hstep) hrun hok
      (hq.phase2bs (p, b) (List.mem_filterMap.mpr ⟨_, hb, rfl⟩))
    -- the answer had been sent when it was handled
    have hsent : .toProxyLeader p b ∈ u.synod.acceptorOuts := by
      by_contra hnot
      simp [Synod.step, hnot] at hstep
    refine Synod.counted_of_phase2b ?_ hstep
    exact (dispatched_of_reachable hr).known_of_phase2b
      (Synod.inv_of_reachable (synod_reachable hr.reachable))
      (fun _ _ => (inv_of_reachable hr.reachable).src_of_proposal) hsent
  exact (dispatched_of_reachable hr).announced hinv (fun _ _ => (inv_of_reachable hr.reachable).src_of_proposal)
    hknown hanswered hcounted hQ hround

/-- Every replica has received what was chosen. -/
theorem received_of_quiet (hj : j ∈ pids n) {r : ReplicaRun} (hr : history n options j es = some r)
    (hrec : Records s j r) (c : Chosen) : c ∈ r.received ↔ ∃ x ∈ s.synod.chosen, x.chosen = c := by
  refine ⟨hrec.received c, ?_⟩
  rintro ⟨x, hx, rfl⟩
  have hreach := Machine.ReachableUnder.init.run hok hrun
  have hmem := hq.chosen _ ((dispatched_of_reachable hreach).chosen x hx j hj)
  rw [ReplicaRun.received_of_run hr]
  refine List.mem_append_right _ (List.mem_flatMap.mpr ⟨.chosen x.chosen, ?_, List.mem_singleton.mpr rfl⟩)
  exact List.mem_filterMap.mpr ⟨_, hmem, if_pos rfl⟩

end Quiet

theorem fills_of_undisturbed (h : (machine n options).ReachableUnder (Undisturbed n) s) :
    (machine n options).ReachableUnder Fills s := h.mono fun _ _ hok => hok.2.1

theorem sound_of_undisturbed (h : (machine n options).ReachableUnder (Undisturbed n) s) :
    (machine n options).ReachableUnder (Sound n) s := h.mono fun _ _ hok => hok.1

/-- Equal slots have equal values. -/
theorem chosen_eq_of_slot (h : (machine n options).ReachableUnder (Undisturbed n) s) {x x' : ChosenSent}
    (hx : x ∈ s.synod.chosen) (hx' : x' ∈ s.synod.chosen) (hslot : x.chosen.slot = x'.chosen.slot) :
    x.chosen = x'.chosen := by
  have hvalue := Synod.chosen_eq_of_lawful (Synod.inv_of_reachable (synod_reachable h.reachable))
    ((agreeInv_of_reachable (sound_of_undisturbed h)).lawful (inv_of_reachable h.reachable)) hx hx' hslot
  cases hc : x.chosen with
  | mk slot value =>
    cases hc' : x'.chosen with
    | mk slot' value' =>
      rw [hc, hc'] at hslot hvalue
      rw [show slot = slot' from hslot, show value = value' from hvalue]

/-- The value chosen in a slot and round of a leader is the one it proposed there. -/
theorem value_of_chosen (h : (machine n options).ReachableUnder (Undisturbed n) s) (hi : i ∈ pids n)
    {o : Origin} {m : Phase2a} (hm : .phase2a o m ∈ s.leaderOuts i) {replica : ℕ}
    {value : CommandBatchOrNoop} (hx : ⟨i, m.round, replica, m.slot, value⟩ ∈ s.synod.chosen) :
    value = m.commandBatchOrNoop := by
  have hinv := inv_of_reachable h.reachable
  obtain ⟨⟨m', hm', hslot, hround, hvalue⟩, -⟩ :=
    (Synod.inv_of_reachable (synod_reachable h.reachable)).proxy.chosen _ hx
  obtain ⟨-, y, hy, o', rfl⟩ := hinv.proposals i m' hm'
  rw [← (agreeInv_of_reachable (sound_of_undisturbed h) i hi).one o' m' o m hy hm hslot hround]
  exact hvalue.symm

section Quiet

variable (hrun : (machine n options).run (machine n options).init es = some s)
  (hok : (machine n options).AllSteps (Undisturbed n) (machine n options).init es) (hq : Quiet n es s)

include hrun hok hq

/-- All replicas have executed the same. -/
theorem executed_eq_of_quiet (hi : i ∈ pids n) (hj : j ∈ pids n) {r r' : ReplicaRun}
    (hr : history n options i es = some r) (hrec : Records s i r) (hr' : history n options j es = some r')
    (hrec' : Records s j r') : r.executed = r'.executed := by
  have hreach := Machine.ReachableUnder.init.run hok hrun
  have hreceived := received_of_quiet hrun hok hq hi hr hrec
  have hreceived' := received_of_quiet hrun hok hq hj hr' hrec'
  refine (ReplicaRun.stored_of_reachable (Machine.reachable_of_run hr)).agree
    (ReplicaRun.stored_of_reachable (Machine.reachable_of_run hr'))
    (fun c => (hreceived c).trans (hreceived' c).symm) fun c hc c' hc' hslot => ?_
  obtain ⟨x, hx, rfl⟩ := (hreceived c).mp hc
  obtain ⟨x', hx', rfl⟩ := (hreceived c').mp hc'
  exact chosen_eq_of_slot hreach hx hx' hslot

/-- The slots below the next one of a leader are executed. -/
theorem nextSlot_le_of_quiet (hi : i ∈ pids n) (hphase2 : (s.leader i).state = .phase2)
    (hstays : s.Stays n (s.leader i).round) {w : ℕ}
    (hw : ∀ j ∈ pids n, (s.replica j).executedWatermark = w) : (s.leader i).nextSlot ≤ w := by
  have hreach := Machine.ReachableUnder.init.run hok hrun
  by_contra hlt
  obtain ⟨r, hr, hrec⟩ := history_of_run hrun i
  have hst := ReplicaRun.stored_of_reachable (Machine.reachable_of_run hr)
  have hleast : LeastMissing r.slots w := by
    rw [← hw i hi, ← hrec.replica]
    exact hst.least
  rcases noGap_of_reachable (fills_of_undisturbed hreach) hi hphase2 w (not_le.mp hlt) with
    hlow | ⟨o, m, hm, hslot, hround⟩
  · obtain ⟨j, hj, hle⟩ := watermark_executed hreach.reachable hi
    rw [hw j hj] at hle
    omega
  · -- the open slot has been proposed, so it is chosen and received
    obtain ⟨value, hvalue⟩ := chosen_of_quiet hrun hok hq hi hm (hround ▸ hstays)
    refine hleast.notMem (ReplicaRun.mem_slots.mpr ⟨⟨m.slot, value⟩, ?_, hslot⟩)
    exact (received_of_quiet hrun hok hq hi hr hrec _).mpr ⟨_, hvalue i hi, rfl⟩

/-- What a leader has proposed in its round is executed in its slot. -/
theorem executed_of_quiet (hi : i ∈ pids n) (hphase2 : (s.leader i).state = .phase2)
    (hstays : s.Stays n (s.leader i).round) {o : Origin} {m : Phase2a}
    (hm : .phase2a o m ∈ s.leaderOuts i) (hround : m.round = (s.leader i).round) {r : ReplicaRun}
    (hr : history n options i es = some r) (hrec : Records s i r)
    (hnext : (s.leader i).nextSlot ≤ r.executed.length) :
    r.executed[m.slot]? = some ⟨m.slot, m.commandBatchOrNoop⟩ := by
  have hreach := Machine.ReachableUnder.init.run hok hrun
  have hst := ReplicaRun.stored_of_reachable (Machine.reachable_of_run hr)
  have hlaw := agreeInv_of_reachable (sound_of_undisturbed hreach) i hi
  have hlt : m.slot < r.executed.length := ((hlaw.current o m hm hround).2 hphase2).trans_le hnext
  rw [List.getElem?_eq_getElem hlt]
  obtain ⟨value, hvalue⟩ := chosen_of_quiet hrun hok hq hi hm (hround ▸ hstays)
  obtain ⟨x, hx, hxe⟩ := hrec.received _ (hst.received_of_executed (List.getElem_mem hlt))
  have hslot : x.chosen.slot = m.slot := by
    rw [hxe]
    exact hst.inOrder.slot_getElem hlt
  rw [← hxe, chosen_eq_of_slot hreach hx (hvalue i hi) hslot, value_of_chosen hreach hi hm (hvalue i hi)]

end Quiet

/-- **Quiet states**: when every message of phase 2 has been handled, all replicas have executed one log.
If a majority of the acceptors has not left the round of a leader in phase 2, the log has every slot below
the leader's next one, and in its slot everything the leader has proposed in the round. -/
theorem quiet_log (hrun : (machine n options).run (machine n options).init es = some s)
    (hok : (machine n options).AllSteps (Undisturbed n) (machine n options).init es)
    (hq : Quiet n es s) : ∃ log : List Chosen, log.map Chosen.slot = List.range log.length ∧
      (∀ j ∈ pids n, (s.replica j).executedWatermark = log.length ∧
        ∃ r, history n options j es = some r ∧ r.replica = s.replica j ∧ r.executed = log) ∧
      ∀ i ∈ pids n, (s.leader i).state = .phase2 → s.Stays n (s.leader i).round →
        (s.leader i).nextSlot ≤ log.length ∧
        ∀ o m, .phase2a o m ∈ s.leaderOuts i → m.round = (s.leader i).round →
          log[m.slot]? = some ⟨m.slot, m.commandBatchOrNoop⟩ := by
  choose r hr hrec using history_of_run hrun
  have hst : ∀ j, ReplicaRun.Stored (r j) := fun j =>
    ReplicaRun.stored_of_reachable (Machine.reachable_of_run (hr j))
  have hsame : ∀ j ∈ pids n, (r j).executed = (r n).executed := by
    intro j hj
    have hn : n ∈ pids n := mem_pids.mpr ⟨(mem_pids.mp hj).1.trans (mem_pids.mp hj).2, le_rfl⟩
    exact executed_eq_of_quiet hrun hok hq hj hn (hr j) (hrec j) (hr n) (hrec n)
  have hlength : ∀ j ∈ pids n, (s.replica j).executedWatermark = (r n).executed.length := by
    intro j hj
    rw [← hsame j hj, (hst j).length_executed, (hrec j).replica]
  refine ⟨(r n).executed, (hst n).inOrder, fun j hj => ?_, fun i hi hphase2 hstays => ?_⟩
  · exact ⟨hlength j hj, r j, hr j, (hrec j).replica, hsame j hj⟩
  · have hnext := nextSlot_le_of_quiet hrun hok hq hi hphase2 hstays hlength
    refine ⟨hnext, fun o m hm hround => ?_⟩
    rw [← hsame i hi] at hnext ⊢
    exact executed_of_quiet hrun hok hq hi hphase2 hstays hm hround (hr i) (hrec i) hnext

/-- Leader 1's new batch is chosen in slot 1 of round 3, and both replicas hear of both slots. -/
def allHandled : List SystemEvent :=
  [.synod (.propose 1 ⟨1, 1, 3, .commandBatch [[8]]⟩),
    .synod (.phase2a 1 ⟨1, 1, 3, .commandBatch [[8]]⟩),
    .synod (.phase2a 2 ⟨1, 1, 3, .commandBatch [[8]]⟩), .synod (.phase2b 1 ⟨1, 1, 3⟩),
    .synod (.phase2b 1 ⟨2, 1, 3⟩), .replica 1 (.chosen ⟨1, .commandBatch [[8]]⟩),
    .replica 1 (.chosen ⟨0, .commandBatch [[7]]⟩), .replica 2 (.chosen ⟨0, .commandBatch [[7]]⟩),
    .replica 2 (.chosen ⟨1, .commandBatch [[8]]⟩)]

theorem allHandled_log : ∃ s, (machine 2 everySlot).run (machine 2 everySlot).init
      (firstBatch ++ secondBatch ++ chosenAgain ++ allHandled) = some s ∧
    ∃ log : List Chosen, (∀ j ∈ pids 2, (s.replica j).executedWatermark = log.length) ∧
      2 ≤ log.length ∧ log[1]? = some ⟨1, .commandBatch [[8]]⟩ := by
  obtain ⟨s, hrun, hq, hphase2, hnext, hround, hacceptors, hm⟩ : ∃ s,
      (machine 2 everySlot).run (machine 2 everySlot).init
        (firstBatch ++ secondBatch ++ chosenAgain ++ allHandled) = some s ∧
      Quiet 2 (firstBatch ++ secondBatch ++ chosenAgain ++ allHandled) s ∧
      (s.leader 1).state = .phase2 ∧ (s.leader 1).nextSlot = 2 ∧ (s.leader 1).round = 3 ∧
      (∀ a ∈ pids 2, (s.synod.acceptor a).round ≤ 3) ∧
      .phase2a .clientBatch ⟨1, 1, 3, .commandBatch [[8]]⟩ ∈ s.leaderOuts 1 :=
    ⟨_, rfl, ⟨by decide, by decide, by decide, by decide⟩, rfl, rfl, rfl, by decide, by decide⟩
  have hok : (machine 2 everySlot).AllSteps (Undisturbed 2) (machine 2 everySlot).init
      (firstBatch ++ secondBatch ++ chosenAgain ++ allHandled) := by decide
  obtain ⟨log, -, hreplicas, hleaders⟩ := quiet_log hrun hok hq
  have hstays : s.Stays 2 (s.leader 1).round := by
    refine ⟨(pids 2).toFinset, ⟨subset_rfl, by decide⟩, fun a ha => ?_⟩
    rw [hround]
    exact hacceptors a (List.mem_toFinset.mp ha)
  obtain ⟨hle, hproposed⟩ := hleaders 1 (by decide) hphase2 hstays
  exact ⟨s, hrun, log, fun j hj => (hreplicas j hj).1, hnext ▸ hle, hproposed _ _ hm hround.symm⟩

/-- Leader 2 hands its first batch over for slot 0 of round 2, but the acceptors have promised round 3 to
leader 1. It tries again in round 6, where no answer reports a slot, and its next batch goes to slot 1. -/
def skippedSlot : List SystemEvent :=
  [.synod (.phase1a 1 ⟨2, 2, 0⟩), .synod (.phase1a 2 ⟨2, 2, 0⟩), .leader 2 (.phase1b ⟨1, 2, []⟩ [1]),
    .leader 2 (.phase1b ⟨2, 2, []⟩ [1, 2]), .leader 2 (.clientRequestBatch 2 [⟨[7]⟩]),
    .synod (.propose 2 ⟨2, 0, 2, .commandBatch [[7]]⟩), .leader 1 (.indication 1),
    .synod (.phase1a 1 ⟨1, 3, 0⟩), .synod (.phase1a 2 ⟨1, 3, 0⟩),
    .synod (.phase2a 1 ⟨2, 0, 2, .commandBatch [[7]]⟩),
    .synod (.phase2a 2 ⟨2, 0, 2, .commandBatch [[7]]⟩), .leader 2 (.nack ⟨3⟩),
    .synod (.phase1a 1 ⟨2, 6, 0⟩), .synod (.phase1a 2 ⟨2, 6, 0⟩), .leader 2 (.phase1b ⟨1, 6, []⟩ [1]),
    .leader 2 (.phase1b ⟨2, 6, []⟩ [1, 2]), .leader 2 (.clientRequestBatch 2 [⟨[8]⟩]),
    .synod (.propose 2 ⟨2, 1, 6, .commandBatch [[8]]⟩),
    .synod (.phase2a 1 ⟨2, 1, 6, .commandBatch [[8]]⟩),
    .synod (.phase2a 2 ⟨2, 1, 6, .commandBatch [[8]]⟩), .synod (.phase2b 2 ⟨1, 1, 6⟩),
    .synod (.phase2b 2 ⟨2, 1, 6⟩), .replica 1 (.chosen ⟨1, .commandBatch [[8]]⟩),
    .replica 2 (.chosen ⟨1, .commandBatch [[8]]⟩)]

/-- Slot 0 stays open, and nothing is executed: one step of the run is not filled. -/
theorem skippedSlot_stuck : ∃ s, (machine 2 everySlot).run (machine 2 everySlot).init skippedSlot = some s ∧
    Quiet 2 skippedSlot s ∧
    (machine 2 everySlot).AllSteps (fun s e => s.Sound 2 e ∧ e.Unpartitioned)
      (machine 2 everySlot).init skippedSlot ∧
    (s.leader 2).state = .phase2 ∧ (s.leader 2).round = 6 ∧ (s.leader 2).nextSlot = 2 ∧
    (∀ a ∈ pids 2, (s.synod.acceptor a).round ≤ 6) ∧ ∀ j ∈ pids 2, (s.replica j).executedWatermark = 0 :=
  ⟨_, rfl, ⟨by decide, by decide, by decide, by decide⟩, by decide, rfl, rfl, rfl, by decide, by decide⟩

end System

end OmniPaxosBench.MultiPaxos
