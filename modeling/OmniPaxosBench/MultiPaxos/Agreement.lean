import OmniPaxosBench.MultiPaxos.LeaderDiscipline
import OmniPaxosBench.MultiPaxos.SlotAllocation
import OmniPaxosBench.MultiPaxos.SynodAgreement

/-! # Multi-Paxos: agreement of the whole system

Two `Chosen` messages for one slot can carry different values, for three reasons: the two that make a
leader propose where it must not (`Leader.Guarded`), and the one that makes it reuse a slot
(`Leader.Covered`). In a run all of whose steps avoid them (`Sound`), what each leader hands to its
proxy leader follows the rule of `Synod.Lawful` (`LeaderLaw`), and agreement follows from that of the
acceptors and proxy leaders. -/

namespace OmniPaxosBench.MultiPaxos.System

open OmniPaxosBench.Lib

/-- The condition on the steps. -/
def Sound (n : ℕ) (s : System) : SystemEvent → Prop
  | .leader i e => Leader.Guarded n i (s.leader i) e ∧ (s.leader i).Covered e
  | _ => True

instance (n : ℕ) (s : System) : ∀ e, Decidable (s.Sound n e)
  | .leader i e => inferInstanceAs (Decidable (Leader.Guarded n i (s.leader i) e ∧ (s.leader i).Covered e))
  | .synod _ | .replica _ _ => isTrue trivial

/-- The answer was given before its acceptor voted in the round. -/
def Fresh (pr : Promise) : Prop := pr.votedBefore = false

/-- What holds of leader `i` and of what it has sent, given the records of the acceptors. -/
structure LeaderLaw (n : ℕ) (u : Synod) (i : ℕ) (l : Leader) (sent : List LeaderOut) : Prop where
  owned : ∀ o m, .phase2a o m ∈ sent → (⟨n⟩ : ClassicRoundRobin).leader m.round = i
  current : ∀ o m, .phase2a o m ∈ sent → m.round = l.round →
    l.state ≠ .phase1 ∧ (l.state = .phase2 → m.slot < l.nextSlot)
  one : ∀ o m o' m', .phase2a o m ∈ sent → .phase2a o' m' ∈ sent → m.slot = m'.slot →
    m.round = m'.round → m = m'
  phase2 : l.state = .phase2 → (⟨n⟩ : ClassicRoundRobin).leader l.round = i →
    Clear n u Fresh l.round l.nextSlot
  justified : ∀ o m, .phase2a o m ∈ sent → Synod.Justified n u m

variable {n : ℕ} {options : ReplicaOptions} {s t : System} {u v : Synod} {values : List Phase1b}
  {p : Phase1a} {i : ℕ} {l l' : Leader} {sent out : List LeaderOut} {e : LeaderEvent}

theorem leaderLaw_init (hi : i ∈ pids n) :
    LeaderLaw n u i (Leader.new i (pids n)).onStart.1 (Leader.new i (pids n)).onStart.2 := by
  have hsent : ∀ o m, .phase2a o m ∉ (Leader.new i (pids n)).onStart.2 := by
    intro o m hm
    rcases Leader.onStart_cases hi _ rfl with ⟨-, h⟩ | ⟨-, h⟩
    · rw [h] at hm
      obtain ⟨pid, he⟩ := Leader.mem_sendPhase1a hm
      cases he
    · rw [h] at hm; cases hm
  refine ⟨fun o m hm => absurd hm (hsent o m), fun o m hm => absurd hm (hsent o m),
    fun o m _ _ hm => absurd hm (hsent o m), fun h2 hown => ?_, fun o m hm => absurd hm (hsent o m)⟩
  exact absurd hown (Leader.not_owned_of_phase2 hi h2)

/-! ### Justified proposals -/

theorem Quorum.answers (h : Quorum n u Fresh p values) (hu : Synod.Inv n u) {slot : ℕ}
    (hw : p.chosenWatermark ≤ slot) : Synod.Answers n u p.round slot values := by
  refine ⟨h.nodup, h.majority, fun b hb => ?_⟩
  obtain ⟨pr, hpr, rfl, rfl, hf⟩ := h.answer b hb
  exact ⟨(hu.acceptor.promise pr hpr).round, pr, hpr, rfl, hw, hf⟩

/-- Any value may be proposed in a slot above all reported ones. -/
theorem Clear.justified {k : ℕ} {m : Phase2a} (h : Clear n u Fresh m.round k) (hu : Synod.Inv n u)
    (hk : k ≤ m.slot) : Synod.Justified n u m := by
  obtain ⟨p, values, hq, hr, hw, hrep⟩ := h
  refine ⟨values, hr ▸ hq.answers hu (hw.trans hk), Or.inl fun b hb x hx => ?_⟩
  exact ((hrep b hb x hx).trans_le hk).ne

theorem justified_mono (hprom : ∀ pr ∈ u.promises, pr ∈ v.promises) {m : Phase2a}
    (h : Synod.Justified n u m) : Synod.Justified n v m := by
  obtain ⟨values, ⟨h1, h2, h3⟩, hval⟩ := h
  refine ⟨values, ⟨h1, h2, fun b hb => ?_⟩, hval⟩
  obtain ⟨hr, pr, hpr, hrest⟩ := h3 b hb
  exact ⟨hr, pr, hprom pr hpr, hrest⟩

theorem LeaderLaw.mono (h : LeaderLaw n u i l sent) (hprom : ∀ pr ∈ u.promises, pr ∈ v.promises) :
    LeaderLaw n v i l sent :=
  ⟨h.owned, h.current, h.one, fun h2 ho => (h.phase2 h2 ho).mono hprom le_rfl,
    fun o m hm => justified_mono hprom (h.justified o m hm)⟩

/-- All leaders keep the law. -/
def AgreeInv (n : ℕ) (s : System) : Prop :=
  ∀ i ∈ pids n, LeaderLaw n s.synod i (s.leader i) (s.leaderOuts i)

/-- While leader `i` is in phase 1, nobody has voted in its round. -/
theorem fresh_of_phase1 (h : Inv n s) (hu : Synod.Inv n s.synod) (ha : AgreeInv n s)
    (hi : i ∈ pids n) (hs : (s.leader i).state = .phase1)
    (hown : (⟨n⟩ : ClassicRoundRobin).leader (s.leader i).round = i) {pr : Promise}
    (hpr : pr ∈ s.synod.promises) (hround : pr.phase1a.round = (s.leader i).round) : Fresh pr := by
  by_contra hb
  obtain ⟨m, hm, hmr⟩ := (hu.acceptor.promise pr hpr).before (by simpa [Fresh] using hb)
  rw [(hu.acceptor.promise pr hpr).round, hround] at hmr
  obtain ⟨-, q, hq⟩ := hu.channel.toAcceptors _ m (hu.channel.votes _ m hm)
  obtain ⟨hqn, x, hx, o, rfl⟩ := h.proposals q m hq
  obtain rfl : q = i := by rw [← (ha q hqn).owned o m hx, hmr, hown]
  exact ((ha q hqn).current o m hx hmr).1 hs

/-! ### Steps -/

/-- The end of phase 1 keeps the law. -/
theorem LeaderLaw.complete (h : Inv n s) (hu : Synod.Inv n s.synod) (ha : AgreeInv n s)
    (hi : i ∈ pids n) {m : Phase1b} {order : List ℕ} (hin : s.LeaderInput n i (.phase1b m order))
    (hcov : (s.leader i).Covered (.phase1b m order)) (hc : (s.leader i).Completes m)
    (henum : HashMap.Enumerates order ((s.leader i).insertPhase1b m).phase1bs)
    (round : l.round = (s.leader i).round) (state : l.state = .phase2)
    (nextSlot : (s.leader i).firstSlot ((s.leader i).valuesWith m order) ≤ l.nextSlot)
    (proposals : ∀ origin q, .phase2a origin q ∈ out →
      Leader.Completion (s.leader i) ((s.leader i).valuesWith m order) l origin q)
    (one : ∀ o q o' q', .phase2a o q ∈ out → .phase2a o' q' ∈ out → q.slot = q'.slot → q = q') :
    LeaderLaw n s.synod i l (s.leaderOuts i ++ out) := by
  have hl := ha i hi
  obtain ⟨p, hw, hr, hpw, hq⟩ := quorum_of_completes h hu hi hin hc henum
  obtain ⟨id, p', hres, hp'r, -⟩ := (h.history i hi).campaign hc.1
  have hown : (⟨n⟩ : ClassicRoundRobin).leader (s.leader i).round = i := by
    rw [← hp'r]; exact ((h.history i hi).announced p' (Or.inr (Or.inr ⟨id, hres⟩))).2.2
  have hfresh : Quorum n s.synod Fresh p ((s.leader i).valuesWith m order) :=
    hq.mono (fun _ h => h) fun pr hpr hp _ =>
      fresh_of_phase1 h hu ha hi hc.1 hown hpr (by rw [hp, hr])
  have hclear : Clear n s.synod Fresh (s.leader i).round
      ((s.leader i).firstSlot ((s.leader i).valuesWith m order)) :=
    ⟨p, _, hfresh, hr, Leader.watermark_le_firstSlot hcov hc hw fun b hb x hx =>
      hq.watermark_le hu hb hx, fun b hb x hx => Leader.lt_firstSlot hb hx⟩
  -- what was handed over before is of a lower round
  have hold : ∀ {o q}, .phase2a o q ∈ s.leaderOuts i → q.round ≠ (s.leader i).round :=
    fun hmem heq => (hl.current _ _ hmem heq).1 hc.1
  refine ⟨fun o q hmem => ?_, fun o q hmem heq => ?_, fun o q o' q' hmem hmem' hslot heq => ?_,
    fun _ _ => ?_, fun o q hmem => ?_⟩
  · rcases List.mem_append.mp hmem with hmem | hmem
    · exact hl.owned o q hmem
    · rw [(proposals o q hmem).round]; exact hown
  · rcases List.mem_append.mp hmem with hmem | hmem
    · exact absurd (heq.trans round) (hold hmem)
    · refine ⟨by simp [state], fun _ => ?_⟩
      rcases (proposals o q hmem).kind with ⟨-, -, hlt, -⟩ | ⟨-, -, hlt⟩
      · omega
      · exact hlt
  · rcases List.mem_append.mp hmem with hmem | hmem <;>
      rcases List.mem_append.mp hmem' with hmem' | hmem'
    · exact hl.one o q o' q' hmem hmem' hslot heq
    · exact absurd (heq.trans (proposals o' q' hmem').round) (hold hmem)
    · exact absurd (heq.symm.trans (proposals o q hmem).round) (hold hmem')
    · exact one o q o' q' hmem hmem' hslot
  · rw [round]; exact hclear.mono (fun _ h => h) nextSlot
  · rcases List.mem_append.mp hmem with hmem | hmem
    · exact hl.justified o q hmem
    · obtain ⟨-, hqr, hkind⟩ := proposals o q hmem
      rcases hkind with ⟨-, hle, -, -, hval⟩ | ⟨-, hle, -⟩
      · refine ⟨_, ?_, Or.inr hval⟩
        rw [hqr, ← hr]
        exact hfresh.answers hu (hpw.trans hle)
      · exact Clear.justified (hqr ▸ hclear) hu hle

/-- A proposal in the next slot keeps the law. -/
theorem LeaderLaw.propose (hu : Synod.Inv n u) (hl : LeaderLaw n u i l sent)
    (hs : l.state = .phase2) (hown : (⟨n⟩ : ClassicRoundRobin).leader l.round = i)
    (round : l'.round = l.round) (state : l'.state = l.state) (nextSlot : l'.nextSlot = l.nextSlot + 1)
    (origin : Origin) (value : CommandBatchOrNoop) :
    LeaderLaw n u i l' (sent ++ [.phase2a origin ⟨l.index, l.nextSlot, l.round, value⟩]) := by
  have hclear := hl.phase2 hs hown
  have hlt : ∀ {o q}, .phase2a o q ∈ sent → q.round = l.round → q.slot < l.nextSlot :=
    fun hmem heq => (hl.current _ _ hmem heq).2 hs
  refine ⟨fun o q hmem => ?_, fun o q hmem heq => ?_, fun o q o' q' hmem hmem' hslot heq => ?_,
    fun _ _ => ?_, fun o q hmem => ?_⟩
  · rcases List.mem_append.mp hmem with hmem | hmem
    · exact hl.owned o q hmem
    · cases List.mem_singleton.mp hmem; exact hown
  · refine ⟨by simp [state, hs], fun _ => ?_⟩
    rw [nextSlot]
    rcases List.mem_append.mp hmem with hmem | hmem
    · have := hlt hmem (heq.trans round)
      omega
    · cases List.mem_singleton.mp hmem; exact Nat.lt_succ_self _
  · rcases List.mem_append.mp hmem with hmem | hmem <;>
      rcases List.mem_append.mp hmem' with hmem' | hmem'
    · exact hl.one o q o' q' hmem hmem' hslot heq
    · cases List.mem_singleton.mp hmem'
      exact absurd hslot (hlt hmem heq).ne
    · cases List.mem_singleton.mp hmem
      exact absurd hslot (hlt hmem' heq.symm).ne'
    · cases List.mem_singleton.mp hmem; cases List.mem_singleton.mp hmem'; rfl
  · rw [round]; exact hclear.mono (fun _ h => h) (by omega)
  · rcases List.mem_append.mp hmem with hmem | hmem
    · exact hl.justified o q hmem
    · cases List.mem_singleton.mp hmem
      exact Clear.justified hclear hu le_rfl

/-- A step that hands over nothing keeps the law, if the leader leaves phase 2 or stays as it is. -/
theorem LeaderLaw.quiet (hl : LeaderLaw n u i l sent) (hout : ∀ o m, .phase2a o m ∉ out)
    (hcur : ∀ m : Phase2a, m.round ≤ l.round → m.round = l'.round → m.round = l.round ∧
      (l'.state = .phase1 → l.state = .phase1) ∧
      (l'.state = .phase2 → l.state = .phase2 ∧ l'.nextSlot = l.nextSlot))
    (hle : ∀ o m, .phase2a o m ∈ sent → m.round ≤ l.round)
    (h2 : l'.state = .phase2 → l.state = .phase2 ∧ l'.round = l.round ∧ l'.nextSlot = l.nextSlot) :
    LeaderLaw n u i l' (sent ++ out) := by
  have hsent : ∀ {o m}, .phase2a o m ∈ sent ++ out → .phase2a o m ∈ sent := fun hm =>
    (List.mem_append.mp hm).resolve_right (hout _ _)
  refine ⟨fun o m hm => hl.owned o m (hsent hm), fun o m hm heq => ?_,
    fun o m o' m' hm hm' => hl.one o m o' m' (hsent hm) (hsent hm'), fun hs ho => ?_,
    fun o m hm => hl.justified o m (hsent hm)⟩
  · obtain ⟨hr, h1, h2'⟩ := hcur m (hle o m (hsent hm)) heq
    obtain ⟨hne, hlt⟩ := hl.current o m (hsent hm) hr
    refine ⟨fun hs => hne (h1 hs), fun hs => ?_⟩
    rw [(h2' hs).2]; exact hlt (h2' hs).1
  · obtain ⟨hs', hr, hn⟩ := h2 hs
    rw [hr, hn]; exact hl.phase2 hs' (hr ▸ ho)

theorem LeaderLaw.move (h : Inv n s) (hu : Synod.Inv n s.synod) (ha : AgreeInv n s)
    (hi : i ∈ pids n) (hin : s.LeaderInput n i e) (hg : Leader.Guarded n i (s.leader i) e)
    (hcov : (s.leader i).Covered e) (hm : Leader.Move (s.leader i) e l out) :
    LeaderLaw n s.synod i l (s.leaderOuts i ++ out) := by
  have hl := ha i hi
  have hle : ∀ o m, .phase2a o m ∈ s.leaderOuts i → m.round ≤ (s.leader i).round := fun o m hmem =>
    ((h.history i hi).told o m hmem).2.2
  cases hm with
  | quiet _ _ _ frame round state nextSlot phase1bs resend watermark timers outs =>
    refine hl.quiet (fun o m hmem => ?_) (fun m _ heq => ⟨heq.trans round, fun h1 => state ▸ h1,
      fun h2 => ⟨state ▸ h2, nextSlot⟩⟩) hle fun h2 => ⟨state ▸ h2, round, nextSlot⟩
    rcases outs _ hmem with hnote | ⟨pid, p, he, -⟩
    · cases hnote
    · cases he
  | retire _ _ frame round state =>
    exact hl.quiet (fun o m hmem => by cases hmem) (fun m _ heq => ⟨heq.trans round,
      fun h1 => (by rw [state] at h1; cases h1), fun h2 => by rw [state] at h2; cases h2⟩) hle
      fun h2 => by rw [state] at h2; cases h2
  | follow m inactive above =>
    refine hl.quiet (fun o m hmem => by cases hmem) (fun q hq heq => ?_) hle fun h2 => ?_
    · simp only at heq; omega
    · exact absurd (inactive.symm.trans h2) (by simp)
  | collect m order phase1 =>
    refine hl.quiet (fun o m hmem => by cases hmem) (fun q hq heq => ⟨heq, fun _ => phase1,
      fun h2 => ?_⟩) hle fun h2 => ?_
    all_goals exact absurd (phase1.symm.trans h2) (by simp)
  | campaign _ _ _ base frame hbase round state watermark phase1bs resend timers outs =>
    have hlt := ClassicRoundRobin.lt_nextClassicRound ((h.history i hi).one_le hi) (s.leader i).index base
    refine hl.quiet (fun o m hmem => ?_) (fun q hq heq => ?_) hle fun h2 => ?_
    · obtain ⟨pid, he⟩ := outs _ hmem
      cases he
    · rw [round] at heq; omega
    · rw [state] at h2; cases h2
  | complete m order _ _ frame completes enum round state watermark nextSlot resend timers notes
      proposals one =>
    exact LeaderLaw.complete h hu ha hi hin hcov completes enum round state nextSlot proposals one
  | propose _ _ origin value cause frame round state nextSlot =>
    have hphase2 : (s.leader i).state = .phase2 ∧
        (⟨n⟩ : ClassicRoundRobin).leader (s.leader i).round = i := by
      rcases cause with ⟨-, hs, pid, b, rfl⟩ | ⟨-, id, rfl, hcb⟩
      · exact ⟨hs, hg hs⟩
      · exact hg hcb
    exact hl.propose hu hphase2.1 hphase2.2 round state nextSlot origin value

theorem AgreeInv.step (h : Inv n s) (hu : Synod.Inv n s.synod) (ha : AgreeInv n s) {e : SystemEvent}
    (hok : s.Sound n e) (hstep : s.step n e = some t) : AgreeInv n t := by
  rcases step_cases hstep with ⟨i, le, l, out, rfl, hi, hin, hl, rfl⟩ | ⟨se, u, -, hin, hu', rfl⟩ |
    ⟨i, re, r, out, -, -, -, -, rfl⟩
  · have hlaw := LeaderLaw.move h hu ha hi hin hok.1 hok.2
      (Leader.handle_move ((h.history i hi).one_le hi) hl)
    intro j hj
    by_cases hji : j = i
    · subst hji; rw [leader_setLeader_self, leaderOuts_setLeader_self]; exact hlaw
    · rw [leader_setLeader_of_ne hji, leaderOuts_setLeader_of_ne hji]; exact ha j hj
  · obtain ⟨-, hprom, -⟩ := synod_step_records hu'
    exact fun j hj => (ha j hj).mono hprom
  · exact ha

theorem agreeInv_of_reachable (h : (machine n options).ReachableUnder (Sound n) s) : AgreeInv n s :=
  h.invariant (fun _ hi => leaderLaw_init hi) fun _ _ _ hr hok hs hstep =>
    hs.step (inv_of_reachable hr.reachable)
      (Synod.inv_of_reachable (synod_reachable hr.reachable)) hok hstep

/-! ### Agreement -/

theorem AgreeInv.lawful (h : Inv n s) (ha : AgreeInv n s) : Synod.Lawful n s.synod := by
  refine ⟨fun q m q' m' hm hm' hslot hround => ?_, fun q m hm => ?_⟩
  · obtain ⟨hq, x, hx, o, rfl⟩ := h.proposals q m hm
    obtain ⟨hq', x', hx', o', rfl⟩ := h.proposals q' m' hm'
    obtain rfl : q' = q := by
      rw [← (ha q hq).owned o m hx, ← (ha q' hq').owned o' m' hx', hround]
    obtain rfl := (ha q' hq).one o m o' m' hx hx' hslot hround
    exact ⟨rfl, ((h.history q' hq).told o m hx).1.symm, rfl⟩
  · obtain ⟨hq, x, hx, o, rfl⟩ := h.proposals q m hm
    exact (ha q hq).justified o m hx

/-- **Agreement**: in a run all of whose steps are sound, no two `Chosen` messages for one slot carry
different values. -/
theorem agreement_of_sound {n : ℕ} {options : ReplicaOptions} {s : System}
    (h : (machine n options).ReachableUnder (Sound n) s) :
    ∀ c ∈ s.synod.chosen, ∀ c' ∈ s.synod.chosen, c.chosen.slot = c'.chosen.slot →
      c.chosen.commandBatchOrNoop = c'.chosen.commandBatchOrNoop := fun _ hc _ hc' hslot =>
  Synod.chosen_eq_of_lawful (Synod.inv_of_reachable (synod_reachable h.reachable))
    ((agreeInv_of_reachable h).lawful (inv_of_reachable h.reachable)) hc hc' hslot

/-- Leader 1 enters phase 2 of round 3 with slot 0, and a second batch is chosen there. -/
def otherBatch : List SystemEvent :=
  [.leader 1 (.phase1b ⟨2, 3, []⟩ [1, 2]), .leader 1 (.clientRequestBatch 1 [⟨[8]⟩]),
    .synod (.propose 1 ⟨1, 0, 3, .commandBatch [[8]]⟩),
    .synod (.phase2a 1 ⟨1, 0, 3, .commandBatch [[8]]⟩),
    .synod (.phase2a 2 ⟨1, 0, 3, .commandBatch [[8]]⟩), .synod (.phase2b 1 ⟨1, 0, 3⟩),
    .synod (.phase2b 1 ⟨2, 0, 3⟩)]

/-- No timer fires in the run and no message is delivered twice. -/
theorem two_values_chosen : (firstBatch ++ nothingReported ++ otherBatch).Nodup ∧ ∃ s,
    (machine 2 everySlot).run (machine 2 everySlot).init
      (firstBatch ++ nothingReported ++ otherBatch) = some s ∧
    ⟨2, 2, 1, 0, .commandBatch [[7]]⟩ ∈ s.synod.chosen ∧
    ⟨1, 3, 1, 0, .commandBatch [[8]]⟩ ∈ s.synod.chosen :=
  ⟨by decide, _, rfl, by decide, by decide⟩

/-- Leader 1 recovers slot 0 in round 3, and it is chosen there again. -/
def chosenAgain : List SystemEvent :=
  [.synod (.propose 1 ⟨1, 0, 3, .commandBatch [[7]]⟩),
    .synod (.phase2a 1 ⟨1, 0, 3, .commandBatch [[7]]⟩),
    .synod (.phase2a 2 ⟨1, 0, 3, .commandBatch [[7]]⟩), .synod (.phase2b 1 ⟨1, 0, 3⟩),
    .synod (.phase2b 1 ⟨2, 0, 3⟩)]

theorem chosenAgain_agree : ∃ s, (machine 2 everySlot).ReachableUnder (Sound 2) s ∧
    s.synod.chosen.map (fun c => (c.proxyLeader, c.round, c.chosen.slot)) =
      [(2, 2, 0), (2, 2, 0), (1, 3, 0), (1, 3, 0)] ∧
    ∀ c ∈ s.synod.chosen, ∀ c' ∈ s.synod.chosen, c.chosen.slot = c'.chosen.slot →
      c.chosen.commandBatchOrNoop = c'.chosen.commandBatchOrNoop := by
  obtain ⟨s, hrun, hchosen⟩ : ∃ s, (machine 2 everySlot).run (machine 2 everySlot).init
      (firstBatch ++ secondBatch ++ chosenAgain) = some s ∧
      s.synod.chosen.map (fun c => (c.proxyLeader, c.round, c.chosen.slot)) =
        [(2, 2, 0), (2, 2, 0), (1, 3, 0), (1, 3, 0)] := ⟨_, rfl, by decide⟩
  have hsound : (machine 2 everySlot).AllSteps (Sound 2) (machine 2 everySlot).init
      (firstBatch ++ secondBatch ++ chosenAgain) := by decide
  have hr := Machine.ReachableUnder.init.run hsound hrun
  exact ⟨s, hr, hchosen, agreement_of_sound hr⟩

end OmniPaxosBench.MultiPaxos.System
