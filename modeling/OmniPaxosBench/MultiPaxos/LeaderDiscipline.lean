import OmniPaxosBench.Lib.Machine
import OmniPaxosBench.MultiPaxos.LeaderHistory

/-! # Multi-Paxos: when a leader may propose

A leader on its own, under any events, together with the answers it has received since its round last
changed. A step is `Disciplined` if every `Phase2a` it hands to the proxy leader is of a round the
leader owns, in phase 2, and backed by answers of a majority. Two kinds of steps break this. The
noop-flush closure runs in whatever state the leader is in when the timer fires; the timer is never
cancelled, because its handle is dropped when phase 2 begins. And a leader other than the last is
created in phase 2 of a round it does not own, and proposes a batch if it gets one there.
`disciplined_iff` says that nothing else does. -/

namespace OmniPaxosBench.MultiPaxos.Leader

open OmniPaxosBench.Lib

/-- The noop-flush timer fires only in phase 2 of an owned round, and a batch does not reach a leader
in phase 2 of a round it does not own. -/
def Guarded (n i : ℕ) (l : Leader) : LeaderEvent → Prop
  | .timeout id => l.timers.callbackOf id = some .noopFlush →
      l.state = .phase2 ∧ (⟨n⟩ : ClassicRoundRobin).leader l.round = i
  | .clientRequestBatch _ _ => l.state = .phase2 → (⟨n⟩ : ClassicRoundRobin).leader l.round = i
  | _ => True

instance (n i : ℕ) (l : Leader) : ∀ e, Decidable (Guarded n i l e)
  | .timeout _ => inferInstanceAs (Decidable (_ → _))
  | .clientRequestBatch _ _ => inferInstanceAs (Decidable (_ → _))
  | .indication _ | .phase1b _ _ | .nack _ | .chosenWatermark _ | .recover _
  | .leaderInfoRequestBatcher _ _ | .partition _ => isTrue trivial

/-- A leader with the answers it has received since its round last changed. -/
structure Watched where
  leader : Leader
  received : List Phase1b

/-- The answer an event delivers. -/
def phase1bOf : LeaderEvent → List Phase1b
  | .phase1b m _ => [m]
  | _ => []

namespace Watched

/-- Record the event `e` that led to `l`. -/
def next (w : Watched) (e : LeaderEvent) (l : Leader) : Watched :=
  ⟨l, (if l.round = w.leader.round then w.received else []) ++ phase1bOf e⟩

/-- The acceptors whose answers for round `r` were received. -/
def answered (w : Watched) (r : ℕ) : Finset ℕ :=
  ((w.received.filter (·.round = r)).map (·.acceptorIndex)).toFinset

/-- The leader with index `i` of `n`, started. -/
def machine (n i : ℕ) : Machine Watched LeaderEvent where
  init := ⟨(Leader.new i (pids n)).onStart.1, []⟩
  step w e := (w.leader.handle e).map fun (l, _) => w.next e l

/-- Every `Phase2a` handed over by the step is of an owned round, in phase 2, after a majority of
answers for the round. -/
def Disciplined (n i : ℕ) (w : Watched) (e : LeaderEvent) : Prop :=
  ∀ l out, w.leader.handle e = some (l, out) → ∀ origin m, .phase2a origin m ∈ out →
    (⟨n⟩ : ClassicRoundRobin).leader m.round = i ∧ l.state = .phase2 ∧
      n / 2 + 1 ≤ ((w.next e l).answered m.round).card

/-- What holds in every state of a run. In phase 1 the round is owned and the answers kept are among
those received; in phase 2 of an owned round a majority has answered. -/
structure Inv (n i : ℕ) (w : Watched) : Prop where
  index : w.leader.index = i
  roundSystem : w.leader.roundSystem = ⟨n⟩
  majority : w.leader.majority = n / 2 + 1
  owned : w.leader.state = .phase1 → (⟨n⟩ : ClassicRoundRobin).leader w.leader.round = i
  kept : w.leader.state = .phase1 → w.leader.phase1bs.keys ⊆ w.answered w.leader.round
  backed : w.leader.state = .phase2 → (⟨n⟩ : ClassicRoundRobin).leader w.leader.round = i →
    n / 2 + 1 ≤ (w.answered w.leader.round).card

variable {n i : ℕ} {w : Watched} {e : LeaderEvent} {l : Leader} {out : List LeaderOut}

theorem inv_init (hi : i ∈ pids n) : Inv n i (machine n i).init := by
  have hstart := history_init hi
  refine ⟨hstart.index, hstart.roundSystem, hstart.majority, fun hs => ?_, fun _ => ?_, fun hs ho => ?_⟩
  · obtain ⟨id, p, hresend, hp, -⟩ := hstart.campaign hs
    have howned := (hstart.announced p (Or.inr (Or.inr ⟨id, hresend⟩))).2.2
    rw [hp] at howned
    exact howned
  · have hnone : (machine n i).init.leader.phase1bs = ∅ := phase1bs_onStart i n
    simp [hnone]
  · exact absurd ho (not_owned_of_phase2 hi hs)

/-! ### Steps -/

theorem mem_answered {r a : ℕ} :
    a ∈ w.answered r ↔ ∃ m ∈ w.received, m.round = r ∧ m.acceptorIndex = a := by
  simp [answered, and_assoc]

/-- Answers are not forgotten while the round stays. -/
theorem answered_next (hround : l.round = w.leader.round) (r : ℕ) :
    w.answered r ⊆ (w.next e l).answered r := fun a ha => by
  obtain ⟨m, hm, hrest⟩ := mem_answered.mp ha
  exact mem_answered.mpr ⟨m, by simp [next, hround, hm], hrest⟩

/-- With the answer just received, the answers kept are still among those received. -/
theorem kept_insert (h : w.leader.phase1bs.keys ⊆ w.answered w.leader.round) {m : Phase1b}
    {order : List ℕ} (hm : m.round = w.leader.round) (hround : l.round = w.leader.round) :
    (w.leader.insertPhase1b m).phase1bs.keys ⊆
      (w.next (.phase1b m order) l).answered w.leader.round := by
  rw [insertPhase1b, HashMap.keys_insert, Finset.insert_subset_iff]
  refine ⟨mem_answered.mpr ⟨m, by simp [next, phase1bOf], hm, rfl⟩, ?_⟩
  exact h.trans (answered_next hround _)

/-- A majority has answered when phase 1 is completed. -/
theorem backed_of_completes (hw : Inv n i w) {m : Phase1b} {order : List ℕ}
    (hc : w.leader.Completes m) (hround : l.round = w.leader.round) :
    n / 2 + 1 ≤ ((w.next (.phase1b m order) l).answered w.leader.round).card := by
  obtain ⟨hs, hr, hmaj⟩ := hc
  rw [hw.majority] at hmaj
  exact hmaj.trans (Finset.card_le_card (kept_insert (hw.kept hs) hr hround))

theorem Inv.one_le (hi : i ∈ pids n) (hw : Inv n i w) : 1 ≤ w.leader.roundSystem.n := by
  obtain ⟨h1, h2⟩ := mem_pids.mp hi
  rw [hw.roundSystem]; exact h1.trans h2

theorem inv_move (hi : i ∈ pids n) (hw : Inv n i w) (hm : Move w.leader e l out) :
    Inv n i (w.next e l) := by
  obtain ⟨h1, h2⟩ := mem_pids.mp hi
  have hframe : ∀ {l' : Leader}, Frame w.leader l' →
      l'.index = i ∧ l'.roundSystem = ⟨n⟩ ∧ l'.majority = n / 2 + 1 := fun hf =>
    ⟨hf.index.trans hw.index, hf.roundSystem.trans hw.roundSystem, hf.majority.trans hw.majority⟩
  -- steps that leave round, state and answers alone
  have hkeep : ∀ {l' : Leader}, Frame w.leader l' → l'.round = w.leader.round →
      l'.state = w.leader.state → l'.phase1bs = w.leader.phase1bs → Inv n i (w.next e l') := by
    intro l' hf hr hs hp
    obtain ⟨hf1, hf2, hf3⟩ := hframe hf
    refine ⟨hf1, hf2, hf3, fun h => ?_, fun h => ?_, fun h ho => ?_⟩
    · simp only [next] at h ⊢
      rw [hr]; exact hw.owned (hs ▸ h)
    · simp only [next] at h
      simp only [show (w.next e l').leader = l' from rfl, hp, hr]
      exact (hw.kept (hs ▸ h)).trans (answered_next hr _)
    · simp only [next] at h ho
      rw [hr] at ho
      simp only [show (w.next e l').leader = l' from rfl, hr]
      exact (hw.backed (hs ▸ h) ho).trans (Finset.card_le_card (answered_next hr _))
  cases hm with
  | quiet _ _ _ frame round state nextSlot phase1bs => exact hkeep frame round state phase1bs
  | propose _ _ origin value cause frame round state nextSlot phase1bs =>
    exact hkeep frame round state phase1bs
  | retire _ _ frame round state =>
    obtain ⟨hf1, hf2, hf3⟩ := hframe frame
    refine ⟨hf1, hf2, hf3, fun h => ?_, fun h => ?_, fun h _ => ?_⟩ <;>
    · simp only [next, state] at h
      cases h
  | follow m inactive above =>
    refine ⟨hw.index, hw.roundSystem, hw.majority, fun h => ?_, fun h => ?_, fun h _ => ?_⟩ <;>
    · simp only [next, inactive] at h
      cases h
  | collect m order phase1 same =>
    refine ⟨hw.index, hw.roundSystem, hw.majority, fun _ => hw.owned phase1, fun _ => ?_, fun h _ => ?_⟩
    · exact kept_insert (hw.kept phase1) same rfl
    · simp only [next, insertPhase1b, phase1] at h
      cases h
  | campaign _ _ _ base frame hbase round state watermark phase1bs =>
    obtain ⟨hf1, hf2, hf3⟩ := hframe frame
    refine ⟨hf1, hf2, hf3, fun _ => ?_, fun _ => ?_, fun h _ => ?_⟩
    · simp only [next, round, hw.index, hw.roundSystem]
      exact ClassicRoundRobin.leader_nextClassicRound h1 h2 base
    · simp [next, phase1bs]
    · simp only [next, state] at h
      cases h
  | complete m order _ _ frame completes enum round state =>
    obtain ⟨hf1, hf2, hf3⟩ := hframe frame
    refine ⟨hf1, hf2, hf3, fun h => ?_, fun h => ?_, fun _ _ => ?_⟩
    · simp only [next, state] at h
      cases h
    · simp only [next, state] at h
      cases h
    · simp only [show (w.next (.phase1b m order) l).leader = l from rfl, round]
      exact backed_of_completes hw completes round

theorem inv_of_reachable (hi : i ∈ pids n) (hr : (machine n i).Reachable w) : Inv n i w := by
  refine hr.invariant (inv_init hi) fun s e t _ hs h => ?_
  obtain ⟨⟨l, out⟩, hl, rfl⟩ := Option.map_eq_some_iff.mp h
  exact inv_move hi hs (handle_move (hs.one_le hi) hl)

/-! ### Discipline -/

/-- A guarded step is disciplined: only the completion of phase 1 and the two kinds of proposals in
the next slot hand over a `Phase2a`. -/
theorem disciplined_of_guarded (hi : i ∈ pids n) (hw : Inv n i w) (hg : Guarded n i w.leader e) :
    Disciplined n i w e := by
  intro l out h origin m hmem
  cases handle_move (hw.one_le hi) h with
  | quiet _ _ _ frame round state nextSlot phase1bs resend watermark timers outs =>
    rcases outs _ hmem with hn | ⟨pid, p, hp, -⟩
    · cases hn
    · cases hp
  | campaign _ _ _ base frame hbase round state watermark phase1bs resend timers outs =>
    obtain ⟨pid, hp⟩ := outs _ hmem
    cases hp
  | retire => cases hmem
  | follow => cases hmem
  | collect => cases hmem
  | complete m' order _ _ frame completes enum round state watermark nextSlot resend timers notes
      proposals =>
    have hround := (proposals _ _ hmem).round
    rw [hround]
    exact ⟨hw.owned completes.1, state, backed_of_completes hw completes round⟩
  | propose _ _ origin' value cause frame round state =>
    cases List.mem_singleton.mp hmem
    have hphase2 : w.leader.state = .phase2 ∧
        (⟨n⟩ : ClassicRoundRobin).leader w.leader.round = i := by
      rcases cause with ⟨-, hs, pid, b, rfl⟩ | ⟨-, id, rfl, hcb⟩
      · exact ⟨hs, hg hs⟩
      · exact hg hcb
    refine ⟨hphase2.2, state.trans hphase2.1, ?_⟩
    exact (hw.backed hphase2.1 hphase2.2).trans (Finset.card_le_card (answered_next round _))

/-- A disciplined step is guarded: the two guards exclude proposals only. -/
theorem guarded_of_disciplined (hd : Disciplined n i w e) : Guarded n i w.leader e := by
  cases e with
  | timeout id =>
    intro hcb
    have h : w.leader.handle (.timeout id) =
        some { w.leader with timers := w.leader.timers.remove id }.noopFlush := by
      simp [handle, handleTimeout, Timers.fire, hcb]
    obtain ⟨ho, hs, -⟩ := hd _ _ h _ _ (List.mem_singleton.mpr rfl)
    exact ⟨hs, ho⟩
  | clientRequestBatch batcher batch =>
    intro hs
    have h : w.leader.handle (.clientRequestBatch batcher batch) =
        some (w.leader.processClientRequestBatch batch) := by
      simp [handle, handleClientRequestBatch, hs]
    exact (hd _ _ h _ _ (List.mem_singleton.mpr rfl)).1
  | _ => trivial

/-- **Proposer discipline**: a run of a leader is disciplined in all its steps exactly if all its
steps are guarded. -/
theorem disciplined_iff_guarded {n i : ℕ} (hi : i ∈ pids n) (es : List LeaderEvent) :
    (machine n i).AllSteps (Disciplined n i) (machine n i).init es ↔
      (machine n i).AllSteps (fun w => Guarded n i w.leader) (machine n i).init es :=
  Machine.Reachable.init.allSteps_congr (fun _ hw _ =>
    ⟨guarded_of_disciplined, disciplined_of_guarded hi (inv_of_reachable hi hw)⟩) es

/-- Leader 3 of 3 wins round 3, is elected again and starts round 6. -/
def reelected : List LeaderEvent :=
  [.phase1b ⟨1, 3, []⟩ [1], .phase1b ⟨2, 3, []⟩ [1, 2], .indication 3]

/-- Then the noop-flush timer of round 3 fires, and a noop is proposed in phase 1 of round 6. -/
theorem lateNoop_undisciplined : (∃ w, (machine 3 3).run (machine 3 3).init reelected = some w ∧
      w.leader.state = .phase1 ∧ w.received = [] ∧
      (w.leader.handle (.timeout 1)).map (·.2) = some [.phase2a .noopFlush ⟨3, 0, 6, .noop⟩]) ∧
    ¬ (machine 3 3).AllSteps (Disciplined 3 3) (machine 3 3).init (reelected ++ [.timeout 1]) := by
  obtain ⟨w, hrun, hs, hrec, hout⟩ : ∃ w, (machine 3 3).run (machine 3 3).init reelected = some w ∧
      w.leader.state = .phase1 ∧ w.received = [] ∧
      (w.leader.handle (.timeout 1)).map (·.2) = some [.phase2a .noopFlush ⟨3, 0, 6, .noop⟩] :=
    ⟨_, rfl, rfl, rfl, rfl⟩
  refine ⟨⟨w, hrun, hs, hrec, hout⟩, fun h => ?_⟩
  obtain ⟨⟨l, out⟩, hl, rfl⟩ := Option.map_eq_some_iff.mp hout
  obtain ⟨-, -, hcard⟩ := h.last hrun l _ hl _ _ (List.mem_singleton.mpr rfl)
  revert hcard
  simp [next, answered, hrec, phase1bOf]

/-- Leader 3 of 3 wins round 3, proposes a batch and then a noop. -/
def oneBatch : List LeaderEvent :=
  [.phase1b ⟨1, 3, []⟩ [1], .phase1b ⟨2, 3, []⟩ [1, 2], .clientRequestBatch 1 [⟨[7]⟩], .timeout 1]

theorem oneBatch_disciplined : 3 ∈ pids 3 ∧
    (machine 3 3).AllSteps (Disciplined 3 3) (machine 3 3).init oneBatch :=
  ⟨by decide, (disciplined_iff_guarded (by decide) oneBatch).mpr (by decide)⟩

end Watched

end OmniPaxosBench.MultiPaxos.Leader
