import OmniPaxosBench.MultiPaxos.System

/-! # Multi-Paxos: where new batches go

When phase 1 of a round ends, new batches are to go to slots above all that were chosen in lower
rounds. The answers of the majority report the votes from the watermark of the `Phase1a` on. If they
report a slot, it is at least the watermark, and the slot after the largest one is above everything
chosen. If they report none, the leader goes on with its old `nextSlot`, which can be below the
watermark: a leader that has never led has `nextSlot = 0`. `Covered` excludes this, and
`newBatch_above_chosen` shows that nothing else goes wrong. -/

namespace OmniPaxosBench.MultiPaxos

open OmniPaxosBench.Lib

namespace Leader

/-- The watermark in the `Phase1a` the leader is campaigning with. -/
def watermarkSent (l : Leader) : Option ℕ :=
  match l.resendPhase1as with
  | some ⟨_, .resendPhase1as p⟩ => some p.chosenWatermark
  | _ => none

/-- If phase 1 ends and no answer reports a slot, the next slot is not below the watermark the answers
were asked for. -/
def Covered (l : Leader) : LeaderEvent → Prop
  | .phase1b m order => l.Completes m → (∀ b ∈ l.valuesWith m order, b.info = []) →
      ∀ w ∈ l.watermarkSent, w ≤ l.nextSlot
  | _ => True

instance (l : Leader) : ∀ e, Decidable (l.Covered e)
  | .phase1b _ _ => inferInstanceAs (Decidable (_ → _ → _))
  | .indication _ | .nack _ | .chosenWatermark _ | .recover _ | .clientRequestBatch _ _
  | .leaderInfoRequestBatcher _ _ | .timeout _ | .partition _ => isTrue trivial

/-! ### The largest reported slot -/

/-- The fold takes one of the elements, and a largest one. -/
theorem foldl_max_spec (l : List (Option ℕ)) (acc : Option ℕ) :
    l.foldl max acc ∈ acc :: l ∧ ∀ k, some k ∈ acc :: l → ∃ k', l.foldl max acc = some k' ∧ k ≤ k' := by
  induction l generalizing acc with
  | nil => exact ⟨by simp, fun k hk => ⟨k, (List.mem_singleton.mp hk).symm, le_rfl⟩⟩
  | cons o l ih =>
    obtain ⟨h1, h2⟩ := ih (max acc o)
    have hmax : (max acc o = acc ∨ max acc o = o) ∧
        ∀ k, some k = acc ∨ some k = o → ∃ k', max acc o = some k' ∧ k ≤ k' := by
      rcases acc with _ | a <;> rcases o with _ | b
      · simp
      · simp
      · simp
      · refine ⟨?_, fun k hk => ⟨max a b, rfl, by rcases hk with hk | hk <;> cases hk <;> simp⟩⟩
        rcases max_choice a b with h | h
        · exact Or.inl (congrArg some h)
        · exact Or.inr (congrArg some h)
    rw [List.foldl_cons]
    refine ⟨?_, fun k hk => ?_⟩
    · rcases List.mem_cons.mp h1 with h | h
      · rw [h]; rcases hmax.1 with h' | h' <;> rw [h'] <;> simp
      · simp [h]
    · have hk' : (some k = acc ∨ some k = o) ∨ some k ∈ l := by
        simpa [or_assoc] using hk
      rcases hk' with hk' | hk'
      · obtain ⟨k1, hk1, hle⟩ := hmax.2 k hk'
        obtain ⟨k2, hk2, hle'⟩ := h2 k1 (by simp [hk1])
        exact ⟨k2, hk2, hle.trans hle'⟩
      · exact h2 k (by simp [hk'])

/-- Every reported slot is at most the largest one. -/
theorem le_maxSlot {values : List Phase1b} {b : Phase1b} {x : Phase1bSlotInfo} (hb : b ∈ values)
    (hx : x ∈ b.info) : ∃ k, maxSlot values = some k ∧ x.slot ≤ k := by
  obtain ⟨j, hj⟩ : ∃ j, maxPhase1bSlot b = some j := by
    cases h : maxPhase1bSlot b with
    | some j => exact ⟨j, rfl⟩
    | none => rw [maxPhase1bSlot, List.max?_eq_none_iff, List.map_eq_nil_iff] at h; simp [h] at hx
  obtain ⟨k, hk, hle⟩ := (foldl_max_spec (values.map maxPhase1bSlot) none).2 j
    (List.mem_cons_of_mem _ (List.mem_map.mpr ⟨b, hb, hj⟩))
  refine ⟨k, hk, le_trans ?_ hle⟩
  exact (List.max?_eq_some_iff.mp hj).2 _ (List.mem_map.mpr ⟨x, hx, rfl⟩)

/-- The largest slot is reported. -/
theorem maxSlot_reported {values : List Phase1b} {k : ℕ} (h : maxSlot values = some k) :
    ∃ b ∈ values, ∃ x ∈ b.info, x.slot = k := by
  have hmem := (foldl_max_spec (values.map maxPhase1bSlot) none).1
  rw [show (values.map maxPhase1bSlot).foldl max none = some k from h] at hmem
  rcases List.mem_cons.mp hmem with hmem | hmem
  · cases hmem
  · obtain ⟨b, hb, hk⟩ := List.mem_map.mp hmem
    obtain ⟨x, hx, hs⟩ := List.mem_map.mp (List.max?_eq_some_iff.mp hk).1
    exact ⟨b, hb, x, hx, hs⟩

theorem lt_firstSlot {l : Leader} {values : List Phase1b} {b : Phase1b} {x : Phase1bSlotInfo}
    (hb : b ∈ values) (hx : x ∈ b.info) : x.slot < l.firstSlot values := by
  obtain ⟨k, hk, hle⟩ := le_maxSlot hb hx
  simp only [firstSlot, hk]
  omega

/-- The first new slot is not below the watermark the answers were asked for. -/
theorem watermark_le_firstSlot {l : Leader} {m : Phase1b} {order : List ℕ} {w : ℕ}
    (hcov : Covered l (.phase1b m order)) (hc : l.Completes m) (hw : w ∈ l.watermarkSent)
    (hrep : ∀ b ∈ l.valuesWith m order, ∀ x ∈ b.info, w ≤ x.slot) :
    w ≤ l.firstSlot (l.valuesWith m order) := by
  by_cases hempty : ∀ b ∈ l.valuesWith m order, b.info = []
  · unfold firstSlot
    split
    · next k hk =>
      obtain ⟨b, hb, x, hx, -⟩ := maxSlot_reported hk
      simp [hempty b hb] at hx
    · exact hcov hc hempty w hw
  · push Not at hempty
    obtain ⟨b, hb, hne⟩ := hempty
    obtain ⟨x, hx⟩ := List.exists_mem_of_ne_nil _ hne
    exact (hrep b hb x hx).trans (lt_firstSlot hb hx).le

end Leader

namespace System

/-! ### Answers of a majority -/

/-- `values` are answers of a majority to the `Phase1a` `p`, each on record as a promise with the
property `F`. -/
structure Quorum (n : ℕ) (u : Synod) (F : Promise → Prop) (p : Phase1a) (values : List Phase1b) :
    Prop where
  nodup : (values.map (·.acceptorIndex)).Nodup
  majority : n / 2 + 1 ≤ values.length
  answer : ∀ b ∈ values, ∃ pr ∈ u.promises, pr.phase1b = b ∧ pr.phase1a = p ∧ F pr

variable {n : ℕ} {options : ReplicaOptions} {s t : System} {u v : Synod} {values : List Phase1b}
  {F F' : Promise → Prop} {p : Phase1a}

theorem Quorum.mono (h : Quorum n u F p values) (hprom : ∀ pr ∈ u.promises, pr ∈ v.promises)
    (hF : ∀ pr ∈ u.promises, pr.phase1a = p → F pr → F' pr) : Quorum n v F' p values := by
  refine ⟨h.nodup, h.majority, fun b hb => ?_⟩
  obtain ⟨pr, hpr, heq, hp, hf⟩ := h.answer b hb
  exact ⟨pr, hprom pr hpr, heq, hp, hF pr hpr hp hf⟩

/-- The answers come from a majority of the acceptors. -/
theorem Quorum.isMajority (h : Quorum n u F p values) (hu : Synod.Inv n u) :
    IsMajority (pids n).toFinset (Synod.voters values) := by
  refine Synod.isMajority_voters hu h.nodup h.majority fun b hb => ?_
  obtain ⟨pr, hpr, heq, -⟩ := h.answer b hb
  exact ⟨pr, hpr, heq⟩

/-- A slot chosen in a lower round, not below the watermark, is reported. -/
theorem Quorum.reported (h : Quorum n u F p values) (hu : Synod.Inv n u) {c : ChosenSent}
    (hc : c ∈ u.chosen) (hround : c.round < p.round) (hslot : p.chosenWatermark ≤ c.chosen.slot) :
    ∃ b ∈ values, ∃ x ∈ b.info, x.slot = c.chosen.slot := by
  obtain ⟨-, Q, hQ, hvotes⟩ := hu.proxy.chosen c hc
  obtain ⟨a, haQ, haV⟩ := hQ.inter (h.isMajority hu)
  obtain ⟨b, hb, rfl⟩ := Synod.mem_voters.mp haV
  obtain ⟨value, m, hm, hs, hr, -⟩ := hvotes _ haQ
  obtain ⟨pr, hpr, rfl, rfl, -⟩ := h.answer b hb
  have hprom := hu.acceptor.promise pr hpr
  obtain ⟨x, hx, hxs, -⟩ := hprom.covers m hm (by rw [hprom.round]; omega) (by omega)
  exact ⟨_, hb, x, hx, hxs.trans hs⟩

/-- Only slots from the watermark on are reported. -/
theorem Quorum.watermark_le (h : Quorum n u F p values) (hu : Synod.Inv n u) {b : Phase1b}
    (hb : b ∈ values) {x : Phase1bSlotInfo} (hx : x ∈ b.info) : p.chosenWatermark ≤ x.slot := by
  obtain ⟨pr, hpr, rfl, rfl, -⟩ := h.answer b hb
  exact ((hu.acceptor.promise pr hpr).sound x hx).1

/-! ### The end of phase 1 -/

/-- An answer that reached leader `i` and is of the round of its campaign answers its `Phase1a`. -/
theorem promise_of_sent (h : Inv n s) (hu : Synod.Inv n s.synod) {i : ℕ}
    (hp : (s.leader i).Announced (s.leaderOuts i) p) {b : Phase1b}
    (hb : .toLeader i (.phase1b b) ∈ s.synod.acceptorOuts) (hround : b.round = p.round) :
    ∃ pr ∈ s.synod.promises, pr.phase1b = b ∧ pr.phase1a = p := by
  obtain ⟨pr, hpr, rfl, hsrc⟩ := hu.channel.phase1b i b hb
  obtain ⟨j, hj, a, ha⟩ := h.promises pr hpr
  have hann : (s.leader j).Announced (s.leaderOuts j) pr.phase1a := Or.inl ⟨a, ha⟩
  obtain rfl : j = i := ((h.history j hj).announced _ hann).1.symm.trans hsrc
  refine ⟨pr, hpr, rfl, (h.history j hj).one _ _ hann hp ?_⟩
  rw [← hround, (hu.acceptor.promise pr hpr).round]

/-- **The end of phase 1**: the answers at hand are those of a majority to the `Phase1a` of the
campaign. -/
theorem quorum_of_completes (h : Inv n s) (hu : Synod.Inv n s.synod) {i : ℕ} (hi : i ∈ pids n)
    {m : Phase1b} {order : List ℕ} (hin : s.LeaderInput n i (.phase1b m order))
    (hc : (s.leader i).Completes m)
    (henum : HashMap.Enumerates order ((s.leader i).insertPhase1b m).phase1bs) :
    ∃ p, (s.leader i).watermarkSent = some p.chosenWatermark ∧ p.round = (s.leader i).round ∧
      p.chosenWatermark ≤ (s.leader i).chosenWatermark ∧
      Quorum n s.synod (fun _ => True) p ((s.leader i).valuesWith m order) := by
  obtain ⟨hs, hr, hmaj⟩ := hc
  obtain ⟨id, p, hres, hpr, hpw⟩ := (h.history i hi).campaign hs
  have hkept : ∀ a b, ((s.leader i).insertPhase1b m).phase1bs.lookup a = some b → Kept s i a b := by
    intro a b hb
    rw [Leader.insertPhase1b, HashMap.lookup_insert_ite] at hb
    split_ifs at hb with ha
    · cases hb; exact ⟨ha.symm, hr, hin⟩
    · exact h.kept i hi hs a b hb
  refine ⟨p, by simp [Leader.watermarkSent, hres], hpr, hpw, ?_, ?_, fun b hb => ?_⟩
  · rw [Leader.valuesWith, HashMap.map_valuesIn (fun a b hb => (hkept a b hb).key) henum.mem_keys]
    exact henum.1
  · have hlen := congrArg List.length
      (HashMap.map_valuesIn (fun a b hb => (hkept a b hb).key) henum.mem_keys)
    rw [List.length_map, henum.length] at hlen
    rw [Leader.valuesWith, hlen, ← (h.history i hi).majority]
    exact hmaj
  · obtain ⟨a, ha⟩ := (HashMap.mem_valuesIn henum).mp hb
    have hk := hkept a b ha
    obtain ⟨pr, hmem, heq, hp⟩ :=
      promise_of_sent h hu (Or.inr (Or.inr ⟨id, hres⟩)) hk.sent (hk.round.trans hpr.symm)
    exact ⟨pr, hmem, heq, hp, trivial⟩

/-! ### Slots above everything chosen -/

/-- By the answers of a majority, every slot chosen below round `r` is below `k`. -/
def Clear (n : ℕ) (u : Synod) (F : Promise → Prop) (r k : ℕ) : Prop :=
  ∃ p values, Quorum n u F p values ∧ p.round = r ∧ p.chosenWatermark ≤ k ∧
    ∀ b ∈ values, ∀ x ∈ b.info, x.slot < k

theorem Clear.mono {r k k' : ℕ} (h : Clear n u F r k) (hprom : ∀ pr ∈ u.promises, pr ∈ v.promises)
    (hk : k ≤ k') : Clear n v F r k' := by
  obtain ⟨p, values, hq, hr, hw, hrep⟩ := h
  exact ⟨p, values, hq.mono hprom fun _ _ _ h => h, hr, hw.trans hk, fun b hb x hx =>
    (hrep b hb x hx).trans_le hk⟩

theorem Clear.lt {r k : ℕ} (h : Clear n u F r k) (hu : Synod.Inv n u) {c : ChosenSent}
    (hc : c ∈ u.chosen) (hround : c.round < r) : c.chosen.slot < k := by
  obtain ⟨p, values, hq, rfl, hw, hrep⟩ := h
  by_cases hlt : c.chosen.slot < p.chosenWatermark
  · omega
  · obtain ⟨b, hb, x, hx, hxs⟩ := hq.reported hu hc hround (not_lt.mp hlt)
    exact hxs ▸ hrep b hb x hx

/-- The condition on the steps. -/
def Covers (s : System) : SystemEvent → Prop
  | .leader i e => (s.leader i).Covered e
  | _ => True

instance (s : System) : ∀ e, Decidable (s.Covers e)
  | .leader i e => inferInstanceAs (Decidable ((s.leader i).Covered e))
  | .synod _ | .replica _ _ => isTrue trivial

/-- At the end of a covered phase 1, the first new slot is above everything chosen. -/
theorem clear_firstSlot (h : Inv n s) (hu : Synod.Inv n s.synod) {i : ℕ} (hi : i ∈ pids n)
    {m : Phase1b} {order : List ℕ} (hin : s.LeaderInput n i (.phase1b m order))
    (hc : (s.leader i).Completes m)
    (henum : HashMap.Enumerates order ((s.leader i).insertPhase1b m).phase1bs)
    (hcov : (s.leader i).Covered (.phase1b m order)) :
    Clear n s.synod (fun _ => True) (s.leader i).round
      ((s.leader i).firstSlot ((s.leader i).valuesWith m order)) := by
  obtain ⟨p, hw, hr, -, hq⟩ := quorum_of_completes h hu hi hin hc henum
  refine ⟨p, _, hq, hr, ?_, fun b hb x hx => Leader.lt_firstSlot hb hx⟩
  exact Leader.watermark_le_firstSlot hcov hc hw fun b hb x hx => hq.watermark_le hu hb hx

/-- In phase 2, and at each new batch, the slots are clear; in the first round there is nothing
below. -/
structure SlotInv (n : ℕ) (s : System) : Prop where
  phase2 : ∀ i ∈ pids n, (s.leader i).state = .phase2 →
    (s.leader i).round = n ∨ Clear n s.synod (fun _ => True) (s.leader i).round (s.leader i).nextSlot
  batches : ∀ i ∈ pids n, ∀ m, .phase2a .clientBatch m ∈ s.leaderOuts i →
    m.round = n ∨ Clear n s.synod (fun _ => True) m.round m.slot

theorem slotInv_init : SlotInv n (init n options) := by
  refine ⟨fun i hi _ => Or.inl ?_, fun i hi m hm => ?_⟩
  · rcases Leader.onStart_cases hi _ rfl with ⟨-, h⟩ | ⟨-, h⟩
    · simp only [init, h]; exact (Leader.new_pids hi).1
    · simp only [init, h]; exact (Leader.new_pids hi).1
  · simp only [init] at hm
    rcases Leader.onStart_cases hi _ rfl with ⟨-, h⟩ | ⟨-, h⟩
    · rw [h] at hm
      obtain ⟨pid, he⟩ := Leader.mem_sendPhase1a hm
      cases he
    · rw [h] at hm; cases hm

/-- What one event of leader `i` does to its own part of the invariant. -/
theorem slotInv_move (h : Inv n s) (hu : Synod.Inv n s.synod) (hs : SlotInv n s) {i : ℕ}
    (hi : i ∈ pids n) {e : LeaderEvent} {l : Leader} {out : List LeaderOut}
    (hin : s.LeaderInput n i e) (hcov : (s.leader i).Covered e)
    (hm : Leader.Move (s.leader i) e l out) :
    (l.state = .phase2 → l.round = n ∨ Clear n s.synod (fun _ => True) l.round l.nextSlot) ∧
      ∀ m, .phase2a .clientBatch m ∈ out → m.round = n ∨ Clear n s.synod (fun _ => True) m.round m.slot := by
  have hself : ∀ {k}, (s.leader i).nextSlot ≤ k → (s.leader i).state = .phase2 →
      (s.leader i).round = n ∨ Clear n s.synod (fun _ => True) (s.leader i).round k := fun hk h2 =>
    (hs.phase2 i hi h2).imp_right fun hcl => hcl.mono (fun _ h => h) hk
  cases hm with
  | quiet _ _ _ frame round state nextSlot phase1bs resend watermark timers outs =>
    refine ⟨fun h2 => ?_, fun m hmem => ?_⟩
    · rw [round, nextSlot]; exact hself le_rfl (state ▸ h2)
    · rcases outs _ hmem with hnote | ⟨pid, p, he, -⟩
      · cases hnote
      · cases he
  | retire _ _ frame round state =>
    exact ⟨fun h2 => (by rw [state] at h2; cases h2), fun m hmem => by cases hmem⟩
  | follow m inactive =>
    exact ⟨fun h2 => absurd (inactive.symm.trans h2) (by simp), fun m hmem => by cases hmem⟩
  | collect m order phase1 =>
    exact ⟨fun h2 => absurd (phase1.symm.trans h2) (by simp), fun m hmem => by cases hmem⟩
  | campaign _ _ _ base frame hbase round state watermark phase1bs resend timers outs =>
    refine ⟨fun h2 => (by rw [state] at h2; cases h2), fun m hmem => ?_⟩
    obtain ⟨pid, he⟩ := outs _ hmem
    cases he
  | complete m order _ _ frame completes enum round state watermark nextSlot resend timers notes
      proposals =>
    have hclear := clear_firstSlot h hu hi hin completes enum hcov
    refine ⟨fun _ => Or.inr ?_, fun m' hmem => Or.inr ?_⟩
    · rw [round]; exact hclear.mono (fun _ h => h) nextSlot
    · obtain ⟨-, hr, hkind⟩ := proposals _ _ hmem
      rcases hkind with ⟨ho, -⟩ | ⟨-, hle, -⟩
      · cases ho
      · rw [hr]; exact hclear.mono (fun _ h => h) hle
  | propose _ _ origin value cause frame round state nextSlot =>
    refine ⟨fun h2 => ?_, fun m hmem => ?_⟩
    · rw [round, nextSlot]; exact hself (Nat.le_succ _) (state ▸ h2)
    · cases List.mem_singleton.mp hmem
      rcases cause with ⟨-, h2, -⟩ | ⟨ho, -⟩
      · exact hself le_rfl h2
      · cases ho

theorem SlotInv.step (h : Inv n s) (hu : Synod.Inv n s.synod) (hs : SlotInv n s) {e : SystemEvent}
    (hcov : Covers s e) (hstep : s.step n e = some t) : SlotInv n t := by
  rcases step_cases hstep with ⟨i, le, l, out, rfl, hi, hin, hl, rfl⟩ | ⟨se, u, -, hin, hu', rfl⟩ |
    ⟨i, re, r, out, -, -, -, -, rfl⟩
  · obtain ⟨h2, hb⟩ := slotInv_move h hu hs hi hin hcov
      (Leader.handle_move ((h.history i hi).one_le hi) hl)
    refine ⟨fun j hj => ?_, fun j hj m hm => ?_⟩
    · by_cases hji : j = i
      · subst hji; rw [leader_setLeader_self]; exact h2
      · rw [leader_setLeader_of_ne hji]; exact hs.phase2 j hj
    · rcases mem_leaderOuts_setLeader.mp hm with hold | ⟨-, hnew⟩
      · exact hs.batches j hj m hold
      · exact hb m hnew
  · obtain ⟨-, hprom, -⟩ := synod_step_records hu'
    exact ⟨fun j hj hp => (hs.phase2 j hj hp).imp_right fun hcl => hcl.mono hprom le_rfl,
      fun j hj m hm => (hs.batches j hj m hm).imp_right fun hcl => hcl.mono hprom le_rfl⟩
  · exact ⟨hs.phase2, hs.batches⟩

theorem slotInv_of_reachable (h : (machine n options).ReachableUnder Covers s) : SlotInv n s :=
  h.invariant slotInv_init fun _ _ _ hr hcov hs hstep =>
    hs.step (inv_of_reachable hr.reachable)
      (Synod.inv_of_reachable (synod_reachable hr.reachable)) hcov hstep

/-- Nothing is chosen below the first round. -/
theorem low_le_chosen (h : Inv n s) (hu : Synod.Inv n s.synod) {c : ChosenSent}
    (hc : c ∈ s.synod.chosen) : n ≤ c.round := by
  obtain ⟨⟨m, hm, -, hr, -⟩, -⟩ := hu.proxy.chosen c hc
  obtain ⟨hp, x, hx, o, rfl⟩ := h.proposals _ _ hm
  have := ((h.history _ hp).told o m hx).2.1
  omega

/-- **Slot allocation**: in a run all of whose steps are covered, the slot a leader enters phase 2
with is above every slot chosen so far in a lower round, and so no new batch is ever proposed in such
a slot. -/
theorem newBatch_above_chosen {n : ℕ} {options : ReplicaOptions} {s : System}
    (h : (machine n options).ReachableUnder Covers s) :
    (∀ i m order t, Covers s (.leader i (.phase1b m order)) →
      s.step n (.leader i (.phase1b m order)) = some t → (s.leader i).Completes m →
      (t.leader i).state = .phase2 ∧ (t.leader i).round = (s.leader i).round ∧
      ∀ c ∈ t.synod.chosen, c.round < (t.leader i).round → c.chosen.slot <
        (((s.leader i).insertPhase1b m).enterPhase2 ((s.leader i).valuesWith m order)).1.nextSlot) ∧
    ∀ i ∈ pids n, ∀ m, .phase2a .clientBatch m ∈ s.leaderOuts i →
      ∀ c ∈ s.synod.chosen, c.round < m.round → c.chosen.slot ≠ m.slot := by
  have hinv := inv_of_reachable h.reachable
  have hu := Synod.inv_of_reachable (synod_reachable h.reachable)
  refine ⟨fun i m order t hcov hstep hc => ?_, fun i hi m hm c hmem hlt => ?_⟩
  · rcases step_cases hstep with ⟨j, le, l, out, he, hi, hin, hl, rfl⟩ | ⟨_, _, he, -⟩ |
      ⟨_, _, _, _, he, -⟩
    · cases he
      obtain ⟨_, _, -, -, heq⟩ :=
        Leader.enterPhase2_eq ((s.leader i).insertPhase1b m) ((s.leader i).valuesWith m order)
      obtain ⟨henum, hres⟩ := Leader.handlePhase1b_of_completes hc hl
      cases hres _ _ heq
      rw [leader_setLeader_self, heq]
      exact ⟨rfl, rfl, fun c hmem hlt => (clear_firstSlot hinv hu hi hin hc henum hcov).lt hu hmem hlt⟩
    · cases he
    · cases he
  · rcases (slotInv_of_reachable h).batches i hi m hm with hn | hclear
    · have := low_le_chosen hinv hu hmem
      omega
    · exact (hclear.lt hu hmem hlt).ne

/-! ### Two nodes -/

/-- Watermarks are announced after every slot. -/
def everySlot : ReplicaOptions := ⟨4, 1, by decide⟩

/-- Of two nodes, leader 2 wins round 2 and its first batch is chosen in slot 0. -/
def firstBatch : List SystemEvent :=
  [.synod (.phase1a 1 ⟨2, 2, 0⟩), .synod (.phase1a 2 ⟨2, 2, 0⟩), .leader 2 (.phase1b ⟨1, 2, []⟩ [1]),
    .leader 2 (.phase1b ⟨2, 2, []⟩ [1, 2]), .leader 2 (.clientRequestBatch 2 [⟨[7]⟩]),
    .synod (.propose 2 ⟨2, 0, 2, .commandBatch [[7]]⟩),
    .synod (.phase2a 1 ⟨2, 0, 2, .commandBatch [[7]]⟩),
    .synod (.phase2a 2 ⟨2, 0, 2, .commandBatch [[7]]⟩), .synod (.phase2b 2 ⟨1, 0, 2⟩),
    .synod (.phase2b 2 ⟨2, 0, 2⟩)]

/-- Replica 1 executes slot 0 and tells leader 1, which is then elected and starts round 3 with the
watermark 1. No answer reports a slot. -/
def nothingReported : List SystemEvent :=
  [.replica 1 (.chosen ⟨0, .commandBatch [[7]]⟩), .leader 1 (.chosenWatermark ⟨1⟩),
    .leader 1 (.indication 1), .synod (.phase1a 1 ⟨1, 3, 1⟩), .synod (.phase1a 2 ⟨1, 3, 1⟩),
    .leader 1 (.phase1b ⟨1, 3, []⟩ [1])]

/-- The second answer ends phase 1 of round 3, and leader 1 enters phase 2 with the slot 0 that was
chosen in round 2. No timer fires in the run and no message is delivered twice. -/
theorem slot_reused : (firstBatch ++ nothingReported).Nodup ∧ ∃ s t,
    (machine 2 everySlot).run (machine 2 everySlot).init (firstBatch ++ nothingReported) = some s ∧
    s.step 2 (.leader 1 (.phase1b ⟨2, 3, []⟩ [1, 2])) = some t ∧
    (s.leader 1).Completes ⟨2, 3, []⟩ ∧ (t.leader 1).round = 3 ∧ (t.leader 1).nextSlot = 0 ∧
    (((s.leader 1).insertPhase1b ⟨2, 3, []⟩).enterPhase2
      ((s.leader 1).valuesWith ⟨2, 3, []⟩ [1, 2])).1.nextSlot = 0 ∧
    ⟨2, 2, 1, 0, .commandBatch [[7]]⟩ ∈ t.synod.chosen :=
  ⟨by decide, _, _, rfl, rfl, by decide, rfl, rfl, rfl, by decide⟩

/-- Leader 1 is elected before it hears of the watermark. The answers report slot 0, and its first
batch goes to slot 1. -/
def secondBatch : List SystemEvent :=
  [.leader 1 (.indication 1), .synod (.phase1a 1 ⟨1, 3, 0⟩), .synod (.phase1a 2 ⟨1, 3, 0⟩),
    .leader 1 (.phase1b ⟨1, 3, [⟨0, 2, .commandBatch [[7]]⟩]⟩ [1]),
    .leader 1 (.phase1b ⟨2, 3, [⟨0, 2, .commandBatch [[7]]⟩]⟩ [1, 2]),
    .leader 1 (.clientRequestBatch 1 [⟨[8]⟩])]

theorem secondBatch_above : ∃ s, (machine 2 everySlot).ReachableUnder Covers s ∧
    .phase2a .clientBatch ⟨1, 1, 3, .commandBatch [[8]]⟩ ∈ s.leaderOuts 1 ∧
    ⟨2, 2, 1, 0, .commandBatch [[7]]⟩ ∈ s.synod.chosen ∧
    ∀ c ∈ s.synod.chosen, c.round < 3 → c.chosen.slot ≠ 1 := by
  obtain ⟨s, hrun, hout, hchosen⟩ : ∃ s, (machine 2 everySlot).run (machine 2 everySlot).init
      (firstBatch ++ secondBatch) = some s ∧
      .phase2a .clientBatch ⟨1, 1, 3, .commandBatch [[8]]⟩ ∈ s.leaderOuts 1 ∧
      ⟨2, 2, 1, 0, .commandBatch [[7]]⟩ ∈ s.synod.chosen := ⟨_, rfl, by decide, by decide⟩
  have hcov : (machine 2 everySlot).AllSteps Covers (machine 2 everySlot).init
      (firstBatch ++ secondBatch) := by decide
  have hr := Machine.ReachableUnder.init.run hcov hrun
  exact ⟨s, hr, hout, hchosen, (newBatch_above_chosen hr).2 1 (by decide) _ hout⟩

end System

end OmniPaxosBench.MultiPaxos
