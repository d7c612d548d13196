import OmniPaxosBench.MultiPaxos.ReplicaLog

/-! # Multi-Paxos: what a replica tells the leaders

Besides executing the log a replica has two duties. While there is a gap in its log a periodic timer
asks the leaders to recover the missing slot, and whenever the watermark passes a multiple of the
period one of the replicas announces it to the leaders.

The timer: `start_recover_timer` drops the handle, so `stop_recover_timer` and `reset_recover_timer` never
cancel anything. The number of live timers is right until a gap is filled (`count_step`), which gives
the exact condition `recoverTimer_iff`.

The announcements: the duty goes to the replica whose index is the number of the period modulo the
number of replicas. The indices are `1, …, n` and the remainders `0, …, n - 1`, so nobody announces
the periods that `n` divides (`announced_iff`). -/

namespace OmniPaxosBench.MultiPaxos

open OmniPaxosBench.Lib

namespace ReplicaRun

variable {pid : ℕ} {options : ReplicaOptions} {numReplicas : ℕ} {leaders : List ℕ}
  {s t : ReplicaRun} {e : ReplicaEvent}

/-! ### The recover timer -/

/-- **The recover timer of a replica**: exactly one is scheduled while there is a gap and none
otherwise, so without a gap no timer is due, and with one the due timer sends `Recover` to each
leader. -/
structure RecoverTimer (r : Replica) : Prop where
  count : r.timers.live.length = if r.numChosen ≠ r.executedWatermark then 1 else 0
  quiet : r.numChosen = r.executedWatermark → ∀ id, r.handle (.timeout id) = none
  sends : r.numChosen ≠ r.executedWatermark → ∃ id,
    r.handle (.timeout id) =
      some (r, r.connectedLeaders.map fun pid => .recover pid ⟨r.executedWatermark⟩) ∧
    ∀ id', id' ≠ id → r.handle (.timeout id') = none

/-- The rest follows from the number of timers. -/
theorem recoverTimer_of_count {r : Replica}
    (h : r.timers.live.length = if r.numChosen ≠ r.executedWatermark then 1 else 0) :
    RecoverTimer r := by
  refine ⟨h, fun hgap id => ?_, fun hgap => ?_⟩
  · rw [if_neg (not_not_intro hgap), List.length_eq_zero_iff] at h
    simp [Replica.handle, Timers.callbackOf, h]
  · rw [if_pos hgap, List.length_eq_one_iff] at h
    obtain ⟨timer, htimer⟩ := h
    refine ⟨timer.id, ?_, fun id' hid' => ?_⟩
    · simp [Replica.handle, Timers.callbackOf, htimer, Replica.recover]
    · simp [Replica.handle, Timers.callbackOf, htimer, Ne.symm hid']

/-- The message fills the slot at the watermark while other slots behind it are chosen. -/
def FillsGap (s : ReplicaRun) (e : ReplicaEvent) : Prop :=
  s.replica.numChosen ≠ s.replica.executedWatermark ∧
    ∃ m, e = .chosen m ∧ m.slot = s.replica.executedWatermark

/-- The watermark moves just when its slot arrives. -/
theorem Stored.executes_iff (h : Stored s) {m : Chosen} {r : Replica} {out : List ReplicaOut} {n : ℕ}
    (hget : s.replica.log.get m.slot = none) (hacc : s.replica.Accepts r m out n) :
    n = 0 ↔ m.slot ≠ s.replica.executedWatermark := by
  have hwm : r.executedWatermark = s.replica.executedWatermark + n := by rw [hacc.replica]
  have hleast := (h.new hget hacc).least
  rw [slots, slots_append] at hleast
  constructor
  · rintro rfl heq
    refine hleast.notMem ?_
    rw [← heq] at hwm
    rw [hwm]
    exact Finset.mem_insert_self _ _
  · intro hne
    have := hleast.unique (h.least.insert_of_ne hne)
    dsimp only at this
    omega

/-- **One step**: the number of timers stays right just when no gap is filled. -/
theorem Stored.count_step (h : Stored s)
    (hcount : s.replica.timers.live.length =
      if s.replica.numChosen ≠ s.replica.executedWatermark then 1 else 0)
    (hstep : (machine pid options numReplicas leaders).step s e = some t) :
    t.replica.timers.live.length =
      (if t.replica.numChosen ≠ t.replica.executedWatermark then 1 else 0) ↔ ¬ FillsGap s e := by
  obtain ⟨r, out, hr, rfl⟩ := step_eq_some hstep
  rcases Replica.handle_cases h.recoverTimer hr with ⟨m, v, rfl, hget, rfl, rfl, hby⟩ |
    ⟨m, n, rfl, hget, hacc⟩ | ⟨hne, hidle, -⟩
  · refine iff_of_true hcount ?_
    rintro ⟨-, m', heq, hslot⟩
    cases heq
    rw [hslot, h.get_eq_none.mpr h.least.notMem] at hget
    cases hget
  · have hn := h.executes_iff hget hacc
    have hle : s.replica.executedWatermark ≤ s.replica.numChosen := h.count ▸ h.least.le_card
    have hfill : FillsGap s (.chosen m) ↔
        s.replica.numChosen ≠ s.replica.executedWatermark ∧ n ≠ 0 := by
      refine and_congr_right fun _ => ⟨?_, fun hn0 => ⟨m, rfl, by_contra fun hne => hn0 (hn.mpr hne)⟩⟩
      rintro ⟨m', heq, hslot⟩ hn0
      cases heq
      exact hn.mp hn0 hslot
    rw [hfill, hacc.replica]
    dsimp only
    -- a timer is started for a new gap and for one that has moved; the old one stays
    by_cases hgap : s.replica.numChosen = s.replica.executedWatermark
    · rw [if_neg (not_not_intro hgap)] at hcount
      refine iff_of_true ?_ fun hf => hf.1 hgap
      simp only [hgap, ne_eq, not_true_eq_false, false_implies, and_true]
      split_ifs <;> simp [Timers.schedule, hcount]
    · rw [if_pos hgap] at hcount
      by_cases hn0 : n = 0
      · subst hn0
        refine iff_of_true ?_ fun hf => hf.2 rfl
        have hgap' : s.replica.numChosen + 1 ≠ s.replica.executedWatermark + 0 := by omega
        rw [if_neg (fun hc => hc.2 hgap rfl), if_pos hgap', hcount]
      · refine iff_of_false ?_ (not_not_intro ⟨hgap, hn0⟩)
        by_cases hgap' : s.replica.numChosen + 1 = s.replica.executedWatermark + n
        · rw [if_neg (fun hc => hc.1 hgap'), if_neg (not_not_intro hgap'), hcount]
          decide
        · rw [if_pos ⟨hgap', fun _ => hn0⟩, if_pos hgap']
          simp [Timers.schedule, hcount]
  · refine iff_of_true ?_ ?_
    · rw [hidle.timers, hidle.numChosen, hidle.executedWatermark]
      exact hcount
    · rintro ⟨-, m, heq, -⟩
      exact hne m heq

/-- A message that fills a gap does not panic: the log has an entry for its slot, as it holds later ones. -/
theorem Stored.handleChosen_of_gap (h : Stored s)
    (hgap : s.replica.numChosen ≠ s.replica.executedWatermark) {m : Chosen}
    (hslot : m.slot = s.replica.executedWatermark) : ∃ x, s.replica.handleChosen m = some x := by
  rw [h.count, Ne, h.least.card_eq_iff] at hgap
  push Not at hgap
  obtain ⟨k, hk, j, hlt, hj⟩ := hgap
  have hle : s.replica.executedWatermark ≤ j := by
    by_contra hlt'
    exact hj (h.least.mem_of_lt (not_le.mp hlt'))
  have hlen : m.slot - s.replica.log.watermark < s.replica.log.buffer.length := by
    by_contra hge
    have hnone : s.replica.log.get k = none := Replica.get_eq_none_of_length_le (by omega)
    exact h.get_eq_none.mp hnone hk
  have hget : s.replica.log.get m.slot = none := h.get_eq_none.mpr (hslot ▸ h.least.notMem)
  rw [Replica.handleChosen_eq hget, BufferMap.checkedPut_of_lt (h.watermark ▸ Nat.zero_le _) hlen]
  exact ⟨_, rfl⟩

/-- **The exact condition for the recover timer**: it is right in every state of a run just when the run
never fills the slot at the watermark while other slots behind it are chosen. -/
theorem recoverTimer_iff (pid : ℕ) (options : ReplicaOptions) (numReplicas : ℕ) (leaders : List ℕ)
    (es : List ReplicaEvent) :
    (machine pid options numReplicas leaders).AllStates (fun s => RecoverTimer s.replica)
        (machine pid options numReplicas leaders).init es ↔
      (machine pid options numReplicas leaders).AllSteps (fun s e => ¬ FillsGap s e)
        (machine pid options numReplicas leaders).init es := by
  have hinit : RecoverTimer (machine pid options numReplicas leaders).init.replica :=
    recoverTimer_of_count rfl
  refine Machine.Reachable.allStates_iff_allSteps (fun s hr hs e => ?_) Machine.Reachable.init hinit es
  have hst := stored_of_reachable hr
  constructor
  · intro hfill t hstep
    exact recoverTimer_of_count ((hst.count_step hs.count hstep).mpr hfill)
  · rintro hall ⟨hgap, m, rfl, hslot⟩
    obtain ⟨x, hx⟩ := hst.handleChosen_of_gap hgap hslot
    have hstep : (machine pid options numReplicas leaders).step s (.chosen m) = some _ :=
      Option.map_eq_some_iff.mpr ⟨x, hx, rfl⟩
    exact (hst.count_step hs.count hstep).mp (hall _ hstep).count ⟨hgap, m, rfl, hslot⟩

/-- Slot `1` arrives before slot `0`: the log has no gap any more, and the timer goes on. -/
theorem timer_left_after_gap : ∃ s, (machine 1 sampleOptions 3 [1, 2, 3]).run
      (machine 1 sampleOptions 3 [1, 2, 3]).init [.chosen ⟨1, .noop⟩, .chosen ⟨0, .noop⟩] = some s ∧
    s.replica.numChosen = s.replica.executedWatermark ∧ s.replica.timers.live.length = 1 ∧
    ¬ RecoverTimer s.replica := by
  refine ⟨_, rfl, rfl, rfl, fun h => ?_⟩
  have hcount := h.count
  exact absurd hcount (by decide)

/-! ### Announcing the watermark -/

/-- The leader and the slot of a watermark message. -/
def announcementOf : ReplicaOut → Option (ℕ × ℕ)
  | .chosenWatermark leader m => some (leader, m.slot)
  | _ => none

/-- What the replica `pid` of `n` announces when the watermark passes slot `k`. -/
def announcements (pid period n : ℕ) (leaders : List ℕ) (k : ℕ) : List (ℕ × ℕ) :=
  if (k + 1) % period = 0 ∧ (k + 1) / period % n = pid then leaders.map fun leader => (leader, k + 1)
  else []

/-- What a replica without simulated partitions has announced. -/
structure Announces (pid : ℕ) (options : ReplicaOptions) (n : ℕ) (leaders : List ℕ)
    (s : ReplicaRun) : Prop where
  index : s.replica.index = pid
  period : s.replica.options = options
  replicas : s.replica.numReplicas = n
  targets : s.replica.leaders = leaders
  connected : s.replica.disconnectedPeers = []
  sent : s.sent.filterMap announcementOf = (List.range s.replica.executedWatermark).flatMap
    (announcements pid options.sendChosenWatermarkEveryNEntries n leaders)

theorem filterMap_announcementOf {r : Replica} (hconn : r.disconnectedPeers = []) (k : ℕ) :
    (Replica.announce { r with executedWatermark := k + 1 }).filterMap announcementOf =
      announcements r.index r.options.sendChosenWatermarkEveryNEntries r.numReplicas r.leaders k := by
  unfold Replica.announce announcements Replica.connectedLeaders
  dsimp only
  rw [hconn]
  split_ifs
  · simp [List.filterMap_map, Function.comp_def, announcementOf]
  · rfl

theorem Announces.step {options : ReplicaOptions} {n : ℕ} {leaders : List ℕ}
    (h : Announces pid options n leaders s) (hst : Stored s)
    (hpart : ∀ p, e ≠ .partition p) (hstep : (machine pid options n leaders).step s e = some t) :
    Announces pid options n leaders t := by
  obtain ⟨r, out, hr, rfl⟩ := step_eq_some hstep
  rcases Replica.handle_cases hst.recoverTimer hr with ⟨m, v, rfl, hget, rfl, rfl, hby⟩ |
    ⟨m, k, rfl, hget, hacc⟩ | ⟨hne, hidle, hout, hsame⟩
  · refine ⟨h.index, h.period, h.replicas, h.targets, h.connected, ?_⟩
    rw [List.append_nil]
    exact h.sent
  · have hconn : r.disconnectedPeers = [] := by
      rw [hacc.replica]
      exact h.connected
    have hframe := hacc.frame
    have hwm : r.executedWatermark = s.replica.executedWatermark + k := by rw [hacc.replica]
    have hreplies : (((s.replica.executedBy m).flatMap fun c =>
        s.replica.replies c.commandBatchOrNoop).map ReplicaOut.toClient).filterMap announcementOf = [] := by
      rw [List.filterMap_map]
      exact List.filterMap_eq_nil_iff.mpr fun _ _ => rfl
    refine ⟨hframe.index.trans h.index, hframe.options.trans h.period,
      hframe.numReplicas.trans h.replicas, hframe.leaders.trans h.targets, hconn, ?_⟩
    have hrange : List.range r.executedWatermark = List.range s.replica.executedWatermark ++
        List.range' s.replica.executedWatermark k := by
      have happend := List.range'_append_1 (s := 0) (m := s.replica.executedWatermark) (n := k)
      rw [Nat.zero_add] at happend
      rw [hwm, List.range_eq_range', List.range_eq_range', happend]
    rw [List.filterMap_append, h.sent, hacc.out, List.filterMap_append, hreplies, List.append_nil,
      List.filterMap_flatMap, hrange, List.flatMap_append]
    congr 1
    refine List.flatMap_congr fun j _ => ?_
    rw [filterMap_announcementOf hconn, hframe.index, hframe.options, hframe.numReplicas,
      hframe.leaders, h.index, h.period, h.replicas, h.targets]
  · have hconn : r.disconnectedPeers = [] := by
      rw [hsame hpart]
      exact h.connected
    refine ⟨hidle.index.trans h.index, hidle.options.trans h.period,
      hidle.numReplicas.trans h.replicas, hidle.leaders.trans h.targets, hconn, ?_⟩
    have hnil : out.filterMap announcementOf = [] := by
      rcases hout with rfl | rfl
      · rfl
      · simp [Replica.recover, announcementOf]
    rw [List.filterMap_append, hnil, List.append_nil, hidle.executedWatermark]
    exact h.sent

theorem announces_of_reachable {n : ℕ}
    (h : (machine pid options n leaders).ReachableUnder (fun _ e => ∀ p, e ≠ .partition p) s) :
    Announces pid options n leaders s :=
  h.invariant (P := Announces pid options n leaders) ⟨rfl, rfl, rfl, rfl, rfl, rfl⟩
    fun _ _ _ hr hok hs hstep => hs.step (stored_of_reachable hr.reachable) hok hstep

theorem Announces.mem_sent_iff {n : ℕ} (h : Announces pid options n leaders s) {leader slot : ℕ} :
    .chosenWatermark leader ⟨slot⟩ ∈ s.sent ↔ 1 ≤ slot ∧ slot ≤ s.replica.executedWatermark ∧
      slot % options.sendChosenWatermarkEveryNEntries = 0 ∧
      slot / options.sendChosenWatermarkEveryNEntries % n = pid ∧ leader ∈ leaders := by
  have hiff : .chosenWatermark leader ⟨slot⟩ ∈ s.sent ↔
      (leader, slot) ∈ s.sent.filterMap announcementOf := by
    rw [List.mem_filterMap]
    constructor
    · intro hin
      exact ⟨_, hin, rfl⟩
    · rintro ⟨o, hin, ho⟩
      cases o with
      | chosenWatermark leader' m =>
        cases ho
        exact hin
      | recover => cases ho
      | toClient => cases ho
  rw [hiff, h.sent, List.mem_flatMap]
  unfold announcements
  constructor
  · rintro ⟨k, hk, hin⟩
    split_ifs at hin with hdue
    · obtain ⟨leader', hl, heq⟩ := List.mem_map.mp hin
      cases heq
      exact ⟨by omega, List.mem_range.mp hk, hdue.1, hdue.2, hl⟩
    · cases hin
  · rintro ⟨hpos, hle, hmod, hturn, hl⟩
    obtain ⟨k, rfl⟩ : ∃ k, slot = k + 1 := ⟨slot - 1, by omega⟩
    refine ⟨k, List.mem_range.mpr hle, ?_⟩
    rw [if_pos ⟨hmod, hturn⟩]
    exact List.mem_map.mpr ⟨leader, hl, rfl⟩

/-- **Exactly one replica has announced a slot**: it has sent the message to every leader, and no other
replica has sent it at all. -/
def AnnouncedByOne (n : ℕ) (leaders : List ℕ) (slot : ℕ) (replicas : ℕ → ReplicaRun) : Prop :=
  ∃ i, 1 ≤ i ∧ i ≤ n ∧ (∀ leader ∈ leaders, .chosenWatermark leader ⟨slot⟩ ∈ (replicas i).sent) ∧
    ∀ j, 1 ≤ j → j ≤ n → j ≠ i → ∀ leader, .chosenWatermark leader ⟨slot⟩ ∉ (replicas j).sent

/-- **The exact condition for the announcements**: when all `n` replicas have executed `k` periods, the
watermark was announced by exactly one of them just when `n` does not divide `k`. -/
theorem announced_iff {n k : ℕ} (hn : 1 ≤ n) (hk : 1 ≤ k) (options : ReplicaOptions)
    {leaders : List ℕ} (hleaders : leaders ≠ []) (replicas : ℕ → ReplicaRun)
    (hrun : ∀ i, 1 ≤ i → i ≤ n → (machine i options n leaders).ReachableUnder
      (fun _ e => ∀ p, e ≠ .partition p) (replicas i))
    (hexec : ∀ i, 1 ≤ i → i ≤ n → k * options.sendChosenWatermarkEveryNEntries ≤
      (replicas i).replica.executedWatermark) :
    AnnouncedByOne n leaders (k * options.sendChosenWatermarkEveryNEntries) replicas ↔ ¬ n ∣ k := by
  have hpos := options.pos
  have hslot : 1 ≤ k * options.sendChosenWatermarkEveryNEntries := Nat.mul_pos hk hpos
  have hmem : ∀ i, 1 ≤ i → i ≤ n → ∀ leader,
      .chosenWatermark leader ⟨k * options.sendChosenWatermarkEveryNEntries⟩ ∈ (replicas i).sent ↔
        k % n = i ∧ leader ∈ leaders := by
    intro i h1 hi leader
    rw [(announces_of_reachable (hrun i h1 hi)).mem_sent_iff, Nat.mul_mod_left,
      Nat.mul_div_cancel _ hpos]
    have := hexec i h1 hi
    tauto
  rw [Nat.dvd_iff_mod_eq_zero]
  constructor
  · rintro ⟨i, h1, hi, hall, -⟩ hzero
    obtain ⟨leader, hl⟩ := List.exists_mem_of_ne_nil leaders hleaders
    have := ((hmem i h1 hi leader).mp (hall leader hl)).1
    omega
  · intro hne
    have hlt := Nat.mod_lt k hn
    refine ⟨k % n, Nat.pos_of_ne_zero hne, hlt.le, fun leader hl => ?_, fun j h1 hj hji leader hin => ?_⟩
    · exact (hmem _ (Nat.pos_of_ne_zero hne) hlt.le leader).mpr ⟨rfl, hl⟩
    · exact hji ((hmem j h1 hj leader).mp hin).1.symm

/-- Three slots in order. -/
def threeSlots : List ReplicaEvent := [.chosen ⟨0, .noop⟩, .chosen ⟨1, .noop⟩, .chosen ⟨2, .noop⟩]

/-- The replicas of three nodes after three slots, with a period of one slot. -/
def afterThree (i : ℕ) : ReplicaRun :=
  ((machine i sampleOptions 3 [1, 2, 3]).run (machine i sampleOptions 3 [1, 2, 3]).init threeSlots).getD
    (machine i sampleOptions 3 [1, 2, 3]).init

theorem afterThree_run {i : ℕ} (h1 : 1 ≤ i) (hi : i ≤ 3) : (machine i sampleOptions 3 [1, 2, 3]).run
    (machine i sampleOptions 3 [1, 2, 3]).init threeSlots = some (afterThree i) := by
  obtain rfl | rfl | rfl : i = 1 ∨ i = 2 ∨ i = 3 := by omega
  · rfl
  · rfl
  · rfl

theorem afterThree_watermark {i : ℕ} (h1 : 1 ≤ i) (hi : i ≤ 3) :
    (afterThree i).replica.executedWatermark = 3 := by
  have hleast := (stored_of_reachable (Machine.reachable_of_run (afterThree_run h1 hi))).least
  have hrec : (afterThree i).received = threeSlots.flatMap chosenOf :=
    received_of_run (afterThree_run h1 hi)
  rw [slots, hrec] at hleast
  exact hleast.unique (.intro (by decide) (by decide))

/-- Nobody announces the third period. -/
theorem nobody_announces_third :
    (∀ i, 1 ≤ i → i ≤ 3 → (afterThree i).replica.executedWatermark = 3 * 1) ∧
      ¬ AnnouncedByOne 3 [1, 2, 3] (3 * 1) afterThree := by
  refine ⟨fun i h1 hi => afterThree_watermark h1 hi, ?_⟩
  rintro ⟨i, h1, hi, hall, -⟩
  have hin := hall 1 (by decide)
  obtain rfl | rfl | rfl : i = 1 ∨ i = 2 ∨ i = 3 := by omega
  · exact absurd hin (by decide +kernel)
  · exact absurd hin (by decide +kernel)
  · exact absurd hin (by decide +kernel)

/-- The first period is announced by one replica. -/
theorem announced_iff_first :
    AnnouncedByOne 3 [1, 2, 3] (1 * sampleOptions.sendChosenWatermarkEveryNEntries) afterThree := by
  have hrun : ∀ i, 1 ≤ i → i ≤ 3 → (machine i sampleOptions 3 [1, 2, 3]).ReachableUnder
      (fun _ e => ∀ p, e ≠ .partition p) (afterThree i) := fun i h1 hi =>
    Machine.ReachableUnder.init.run (Machine.allSteps_of_forall (by simp [threeSlots]) _)
      (afterThree_run h1 hi)
  have hexec : ∀ i, 1 ≤ i → i ≤ 3 → 1 * sampleOptions.sendChosenWatermarkEveryNEntries ≤
      (afterThree i).replica.executedWatermark := by
    intro i h1 hi
    rw [afterThree_watermark h1 hi]
    decide
  exact (announced_iff (by decide) (by decide) sampleOptions (by decide) afterThree hrun hexec).mpr
    (by decide)

end ReplicaRun

end OmniPaxosBench.MultiPaxos
