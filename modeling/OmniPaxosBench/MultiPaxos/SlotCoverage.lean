import OmniPaxosBench.MultiPaxos.LeaderCustody
import OmniPaxosBench.MultiPaxos.Replication

/-! # Multi-Paxos: no slot is skipped

A leader in phase 2 is responsible for the slots below its `nextSlot`: each of them is below its
watermark, or proposed in its current round (`NoGap`). The end of phase 1 closes the gaps the majority
reports, but if no answer reports a slot, the leader goes on with its old `nextSlot`, and the slots from
the watermark on are proposed by nobody. `Filled` excludes this; it is the other half of `Covered`, which
excludes a `nextSlot` that is too low. The watermark never runs ahead of the replicas
(`watermark_executed`). -/

namespace OmniPaxosBench.MultiPaxos

open OmniPaxosBench.Lib

namespace Leader

variable {l l' : Leader} {sent out : List LeaderOut} {e : LeaderEvent}

/-! ### The watermark -/

theorem leaderChange_watermark (l : Leader) (b : Bool) :
    (l.leaderChange b).1.chosenWatermark = l.chosenWatermark := by
  obtain ⟨_, _, -, -, hresend⟩ := stopResendPhase1as_eq l
  obtain ⟨_, _, -, hnoop⟩ := stopNoopFlushTimer_eq l
  unfold leaderChange
  split
  · rfl
  · rw [hresend]
  · rw [hnoop]
  · rfl
  · rw [hresend]
    rfl
  · rw [hnoop]
    rfl

/-- Only a message of a replica raises the watermark. -/
theorem handle_watermark (h : l.handle e = some (l', out)) : l'.chosenWatermark = l.chosenWatermark ∨
    ∃ m, e = .chosenWatermark m ∧ l'.chosenWatermark = max l.chosenWatermark m.slot := by
  by_cases hr : l.Restarts e
  · obtain ⟨round, hround⟩ := handle_eq_of_restarts hr h
    have hw := leaderChange_watermark { l with round := round } true
    rw [hround] at hw
    exact Or.inl hw
  cases e with
  | indication leaderIndex =>
    have hw := leaderChange_watermark l (leaderIndex = l.index)
    rw [Option.some.inj h] at hw
    exact Or.inl hw
  | phase1b m order =>
    by_cases hc : l.Completes m
    · obtain ⟨t, T, -, -, heq⟩ := enterPhase2_eq (l.insertPhase1b m) (l.valuesWith m order)
      cases (handlePhase1b_of_completes hc h).2 _ _ heq
      exact Or.inl rfl
    · obtain ⟨-, rfl | ⟨-, -, rfl⟩⟩ := handlePhase1b_of_not_completes hc h
      · exact Or.inl rfl
      · exact Or.inl rfl
  | nack m =>
    obtain ⟨round, hround⟩ := handleNack_of_not_restarts hr
    cases hround.symm.trans (Option.some.inj h)
    exact Or.inl rfl
  | chosenWatermark m =>
    cases h
    exact Or.inr ⟨m, rfl, rfl⟩
  | recover m =>
    cases (handleRecover_of_not_restarts hr).symm.trans (Option.some.inj h)
    exact Or.inl rfl
  | clientRequestBatch batcher batch =>
    simp only [handle, handleClientRequestBatch, Option.some.injEq] at h
    split at h
    all_goals
      cases h
      exact Or.inl rfl
  | leaderInfoRequestBatcher src batcher =>
    cases h
    exact Or.inl rfl
  | timeout id =>
    obtain ⟨⟨callback, T⟩, -, heq⟩ := Option.map_eq_some_iff.mp h
    cases callback with
    | resendPhase1as p =>
      cases heq
      exact Or.inl rfl
    | noopFlush =>
      cases heq
      exact Or.inl rfl
  | partition e =>
    obtain ⟨part, -, he⟩ := Option.map_eq_some_iff.mp h
    cases he
    exact Or.inl rfl

/-! ### The slots of a leader -/

/-- If phase 1 ends and no answer reports a slot, the next slot is not above the watermark. -/
def Filled (l : Leader) : LeaderEvent → Prop
  | .phase1b m order =>
    l.Completes m → maxSlot (l.valuesWith m order) = none → l.nextSlot ≤ l.chosenWatermark
  | _ => True

instance (l : Leader) : ∀ e, Decidable (l.Filled e)
  | .phase1b _ _ => inferInstanceAs (Decidable (_ → _ → _))
  | .indication _ | .nack _ | .chosenWatermark _ | .recover _ | .clientRequestBatch _ _
  | .leaderInfoRequestBatcher _ _ | .timeout _ | .partition _ => isTrue trivial

/-- `sent` has a proposal for slot `k` in round `r`. -/
def Proposes (sent : List LeaderOut) (k r : ℕ) : Prop := ∃ o m, .phase2a o m ∈ sent ∧ m.slot = k ∧ m.round = r

/-- In phase 2 every slot below the next one is below the watermark or proposed in the current round. -/
def NoGap (l : Leader) (sent : List LeaderOut) : Prop := l.state = .phase2 → ∀ k < l.nextSlot,
  k < l.chosenWatermark ∨ Proposes sent k l.round

theorem Proposes.append_left {k r : ℕ} (h : Proposes sent k r) : Proposes (sent ++ out) k r := by
  obtain ⟨o, m, hm, hrest⟩ := h
  exact ⟨o, m, List.mem_append_left _ hm, hrest⟩

/-- The recovery loop proposes every slot from the watermark up to the largest reported one. -/
theorem recoverSlots_proposes {values : List Phase1b} (hmax : maxSlot values ≠ none) {k : ℕ}
    (hk : k < l.firstSlot values) :
    k < l.chosenWatermark ∨ Proposes (l.recoverSlots values).2 k l.round := by
  obtain ⟨slot, hslot⟩ := Option.ne_none_iff_exists'.mp hmax
  simp only [firstSlot, hslot] at hk
  rcases Nat.lt_or_ge k l.chosenWatermark with hlt | hge
  · exact Or.inl hlt
  · refine Or.inr ⟨.recovered, ⟨l.index, k, l.round, safeValue values k⟩, ?_, rfl, rfl⟩
    rw [recoverSlots_eq]
    simp only [hslot]
    exact List.mem_map.mpr ⟨k, List.mem_range'_1.mpr ⟨hge, by omega⟩, rfl⟩

/-- The end of phase 1 leaves no gap. -/
theorem noGap_of_completes {m : Phase1b} {order : List ℕ} (hc : l.Completes m)
    (hfilled : l.Filled (.phase1b m order)) (h : l.handlePhase1b m order = some (l', out)) :
    l'.NoGap out := by
  obtain ⟨t, T, -, -, heq⟩ := enterPhase2_eq (l.insertPhase1b m) (l.valuesWith m order)
  cases (handlePhase1b_of_completes hc h).2 _ _ heq
  intro _ k hk
  dsimp only at hk ⊢
  rcases Nat.lt_or_ge k (l.firstSlot (l.valuesWith m order)) with hlow | hhigh
  · by_cases hmax : maxSlot (l.valuesWith m order) = none
    · -- nothing is reported: the old next slot is kept
      have hle := hfilled hc hmax
      simp only [firstSlot, hmax] at hlow
      exact Or.inl (hlow.trans_le hle)
    · rcases recoverSlots_proposes (l := l.insertPhase1b m) hmax hlow with hlt | ⟨o, p, hp, hrest⟩
      · exact Or.inl hlt
      · exact Or.inr ⟨o, p, List.mem_append_left _ (List.mem_append_right _ hp), hrest⟩
  · -- a pending batch
    obtain ⟨j, rfl⟩ := Nat.exists_eq_add_of_le hhigh
    have hj : j < l.pendingClientRequestBatches.length := Nat.lt_of_add_lt_add_left hk
    refine Or.inr ⟨_, _, List.mem_append_right _ (List.mem_mapIdx.mpr ⟨j, hj, rfl⟩), rfl, rfl⟩

theorem NoGap.step (h : l.NoGap sent) (hn : 1 ≤ l.roundSystem.n) (hfilled : l.Filled e)
    (hl : l.handle e = some (l', out)) : l'.NoGap (sent ++ out) := by
  cases handle_move hn hl with
  | quiet _ _ _ frame round state nextSlot phase1bs resend watermark =>
    intro hs k hk
    rw [state] at hs
    rw [nextSlot] at hk
    rw [round]
    exact (h hs k hk).imp (fun hlt => hlt.trans_le watermark) Proposes.append_left
  | retire _ _ frame round state =>
    intro hs
    rw [state] at hs
    cases hs
  | follow m inactive =>
    intro hs
    exact absurd (inactive.symm.trans hs) (by simp)
  | collect m order phase1 =>
    intro hs
    exact absurd (phase1.symm.trans hs) (by simp)
  | campaign _ _ _ base frame hbase round state =>
    intro hs
    rw [state] at hs
    cases hs
  | complete m order _ _ frame completes =>
    intro hs k hk
    refine (noGap_of_completes completes hfilled hl hs k hk).imp_right ?_
    rintro ⟨o, p, hp, hrest⟩
    exact ⟨o, p, List.mem_append_right _ hp, hrest⟩
  | propose _ _ origin value cause frame round state nextSlot phase1bs resend watermark =>
    intro hs k hk
    rw [state] at hs
    rw [nextSlot] at hk
    rw [round, watermark]
    rcases Nat.lt_succ_iff_lt_or_eq.mp hk with hlt | rfl
    · exact (h hs k hlt).imp_right Proposes.append_left
    · exact Or.inr ⟨_, _, List.mem_append_right _ (List.mem_singleton.mpr rfl), rfl, rfl⟩

theorem noGap_init {n i : ℕ} :
    (Leader.new i (pids n)).onStart.1.NoGap (Leader.new i (pids n)).onStart.2 := by
  intro _ k hk
  have hzero : (Leader.new i (pids n)).onStart.1.nextSlot = 0 := by
    unfold onStart
    split_ifs <;> rfl
  omega

end Leader

namespace ReplicaRun

variable {pid : ℕ} {options : ReplicaOptions} {numReplicas : ℕ} {leaders : List ℕ} {s : ReplicaRun}

theorem slot_of_mem_announce {r : Replica} {leader : ℕ} {m : ChosenWatermark}
    (h : .chosenWatermark leader m ∈ r.announce) : m.slot = r.executedWatermark := by
  unfold Replica.announce at h
  dsimp only at h
  split_ifs at h
  · obtain ⟨_, -, heq⟩ := List.mem_map.mp h
    cases heq
    rfl
  · cases h

/-- A replica announces watermarks it has reached. -/
theorem watermark_sent_le (h : (machine pid options numReplicas leaders).Reachable s) {leader : ℕ}
    {m : ChosenWatermark} (hm : .chosenWatermark leader m ∈ s.sent) :
    m.slot ≤ s.replica.executedWatermark := by
  refine h.invariant (P := fun s => ∀ leader m, .chosenWatermark leader m ∈ s.sent →
    m.slot ≤ s.replica.executedWatermark) (fun _ _ hm => absurd hm List.not_mem_nil) ?_ leader m hm
  intro s e t hr hs hstep leader m hm
  obtain ⟨r, out, hres, rfl⟩ := step_eq_some hstep
  rcases Replica.handle_cases (stored_of_reachable hr).recoverTimer hres with
    ⟨_, _, -, -, rfl, rfl, -⟩ | ⟨c, k, -, -, hacc⟩ | ⟨-, hidle, hout, -⟩
  · exact hs leader m (by simpa using hm)
  · have hgrows : r.executedWatermark = s.replica.executedWatermark + k := by rw [hacc.replica]
    rcases List.mem_append.mp hm with hm | hm
    · have := hs leader m hm
      dsimp only
      omega
    · rw [hacc.out] at hm
      rcases List.mem_append.mp hm with hm | hm
      · obtain ⟨j, hj, hm⟩ := List.mem_flatMap.mp hm
        have hslot := slot_of_mem_announce hm
        have := List.mem_range'_1.mp hj
        simp only at hslot ⊢
        omega
      · obtain ⟨_, -, heq⟩ := List.mem_map.mp hm
        cases heq
  · rw [hidle.executedWatermark]
    rcases List.mem_append.mp hm with hm | hm
    · exact hs leader m hm
    · rcases hout with rfl | rfl
      · cases hm
      · obtain ⟨_, -, heq⟩ := List.mem_map.mp hm
        cases heq

end ReplicaRun

namespace System

variable {n : ℕ} {options : ReplicaOptions} {s t : System} {e : SystemEvent} {i : ℕ}

/-- A replica of a reachable state has announced no more than it has executed. -/
theorem announced_le (h : (machine n options).Reachable s) {j : ℕ} {m : ChosenWatermark}
    (hm : .chosenWatermark i m ∈ s.replicaOuts j) : m.slot ≤ (s.replica j).executedWatermark := by
  obtain ⟨es, hrun⟩ := h.exists_run
  obtain ⟨r, hr, hrec⟩ := history_of_run hrun j
  have hsent : .chosenWatermark i m ∈ r.sent := by
    rw [hrec.sent]
    exact hm
  rw [← hrec.replica]
  exact ReplicaRun.watermark_sent_le (Machine.reachable_of_run hr) hsent

theorem mem_replicaOuts_step (hstep : s.step n e = some t) {j : ℕ} {o : ReplicaOut}
    (ho : o ∈ s.replicaOuts j) : o ∈ t.replicaOuts j := by
  rcases step_cases hstep with ⟨_, _, _, _, -, -, -, -, rfl⟩ | ⟨_, _, -, -, -, rfl⟩ |
    ⟨k, _, _, out, -, -, -, -, rfl⟩
  · exact ho
  · exact ho
  · by_cases hjk : j = k
    · subst hjk
      simp only [setReplica, Function.update_self]
      exact List.mem_append_left _ ho
    · simpa only [setReplica, Function.update_of_ne hjk] using ho

/-- The watermark of leader `i` was announced to it. -/
def WatermarkTold (n : ℕ) (s : System) (i : ℕ) : Prop := (s.leader i).chosenWatermark = 0 ∨
  ∃ j ∈ pids n, ∃ m, .chosenWatermark i m ∈ s.replicaOuts j ∧ (s.leader i).chosenWatermark = m.slot

theorem WatermarkTold.step (h : s.WatermarkTold n i) (hstep : s.step n e = some t) :
    t.WatermarkTold n i := by
  have hkeep : (t.leader i).chosenWatermark = (s.leader i).chosenWatermark → t.WatermarkTold n i := by
    intro heq
    refine h.imp heq.trans ?_
    rintro ⟨j, hj, m, hm, hslot⟩
    exact ⟨j, hj, m, mem_replicaOuts_step hstep hm, heq.trans hslot⟩
  rcases step_cases hstep with ⟨j, le, l, out, rfl, -, hin, hl, rfl⟩ | ⟨_, _, -, -, -, rfl⟩ |
    ⟨_, _, _, _, -, -, -, -, rfl⟩
  · by_cases hij : i = j
    · subst hij
      rcases Leader.handle_watermark hl with heq | ⟨m, rfl, heq⟩
      · exact hkeep (by rw [leader_setLeader_self, heq])
      · rcases max_choice (s.leader i).chosenWatermark m.slot with hmax | hmax
        · exact hkeep (by rw [leader_setLeader_self, heq, hmax])
        · obtain ⟨k, hk, hm⟩ := hin
          exact Or.inr ⟨k, hk, m, hm, by rw [leader_setLeader_self, heq, hmax]⟩
    · exact hkeep (by rw [leader_setLeader_of_ne hij])
  · exact hkeep rfl
  · exact hkeep rfl

/-- **The watermark of a leader is not ahead of the replicas.** -/
theorem watermark_executed (h : (machine n options).Reachable s) (hi : i ∈ pids n) :
    ∃ j ∈ pids n, (s.leader i).chosenWatermark ≤ (s.replica j).executedWatermark := by
  have htold : s.WatermarkTold n i := by
    refine h.invariant (P := fun s => s.WatermarkTold n i) (Or.inl ?_) fun _ _ _ _ hs hstep => hs.step hstep
    show (Leader.new i (pids n)).onStart.1.chosenWatermark = 0
    unfold Leader.onStart
    split_ifs <;> rfl
  rcases htold with hzero | ⟨j, hj, m, hm, heq⟩
  · exact ⟨i, hi, by omega⟩
  · exact ⟨j, hj, heq ▸ announced_le h hm⟩

/-- The condition on the steps. -/
def Fills (s : System) : SystemEvent → Prop
  | .leader i e => (s.leader i).Filled e
  | _ => True

instance (s : System) : ∀ e, Decidable (s.Fills e)
  | .leader i e => inferInstanceAs (Decidable ((s.leader i).Filled e))
  | .synod _ | .replica _ _ => isTrue trivial

/-- **No slot is skipped**: in a run all of whose steps are filled, every slot below the next one of a
leader in phase 2 is below its watermark or proposed in its round. -/
theorem noGap_of_reachable (h : (machine n options).ReachableUnder Fills s) (hi : i ∈ pids n) :
    (s.leader i).NoGap (s.leaderOuts i) := by
  refine h.invariant (P := fun s => ∀ i ∈ pids n, (s.leader i).NoGap (s.leaderOuts i))
    (fun i _ => Leader.noGap_init) (fun s e t hr hok hs hstep i hi => ?_) i hi
  rcases step_cases hstep with ⟨j, le, l, out, rfl, hj, -, hl, rfl⟩ | ⟨se, u, -, -, -, rfl⟩ |
    ⟨j, re, r, out, -, -, -, -, rfl⟩
  · by_cases hij : i = j
    · subst hij
      rw [leader_setLeader_self, leaderOuts_setLeader_self]
      have hone := ((inv_of_reachable hr.reachable).history i hi).one_le hi
      exact (hs i hi).step hone hok hl
    · rw [leader_setLeader_of_ne hij, leaderOuts_setLeader_of_ne hij]
      exact hs i hi
  · exact hs i hi
  · exact hs i hi

end System

end OmniPaxosBench.MultiPaxos
