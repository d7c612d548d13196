import OmniPaxosBench.MultiPaxos.LeaderMoves
import OmniPaxosBench.MultiPaxos.Synod

/-! # Multi-Paxos: a leader and what it has sent

`History` relates a leader to the list of all it has sent, under any events. A round is campaigned
for once: all `Phase1a`s of one round that the leader has sent, or may still send from a timer, are
equal (`one`), and in phase 1 the handle of the resend timer holds the one of the current round
(`campaign`). -/

namespace OmniPaxosBench.MultiPaxos.Leader

open OmniPaxosBench.Lib

/-- A `Phase1a` the leader has sent, or has left with the timer. -/
def Announced (l : Leader) (sent : List LeaderOut) (p : Phase1a) : Prop :=
  (∃ pid, .phase1a pid p ∈ sent) ∨ (∃ id, ⟨id, .resendPhase1as p⟩ ∈ l.timers.live) ∨
    ∃ id, l.resendPhase1as = some ⟨id, .resendPhase1as p⟩

/-- What holds of a leader with index `i` of `n` and the messages it has sent. -/
structure History (n i : ℕ) (l : Leader) (sent : List LeaderOut) : Prop where
  index : l.index = i
  roundSystem : l.roundSystem = ⟨n⟩
  majority : l.majority = n / 2 + 1
  low : n ≤ l.round
  announced : ∀ p, l.Announced sent p →
    p.src = i ∧ p.round ≤ l.round ∧ (⟨n⟩ : ClassicRoundRobin).leader p.round = i
  one : ∀ p p', l.Announced sent p → l.Announced sent p' → p.round = p'.round → p = p'
  campaign : l.state = .phase1 → ∃ id p, l.resendPhase1as = some ⟨id, .resendPhase1as p⟩ ∧
    p.round = l.round ∧ p.chosenWatermark ≤ l.chosenWatermark
  told : ∀ o m, .phase2a o m ∈ sent → m.src = i ∧ n ≤ m.round ∧ m.round ≤ l.round

variable {n i : ℕ} {l l' : Leader} {sent out : List LeaderOut} {e : LeaderEvent}

theorem length_pids (n : ℕ) : (pids n).length = n := List.length_range'

theorem nextClassicRound_zero {n : ℕ} (hn : 1 ≤ n) :
    (⟨n⟩ : ClassicRoundRobin).nextClassicRound n 0 = n := by
  have : ¬ n < 1 := by omega
  simp [ClassicRoundRobin.nextClassicRound]

/-- A leader before it is started. -/
theorem new_pids (hi : i ∈ pids n) : (Leader.new i (pids n)).round = n ∧
    (Leader.new i (pids n)).state = if i = n then .phase1 else .phase2 := by
  obtain ⟨h1, h2⟩ := mem_pids.mp hi
  simp [Leader.new, length_pids, nextClassicRound_zero (by omega : 1 ≤ n)]

/-- The leader that owns the first round starts its campaign; the others do nothing. -/
theorem onStart_cases (hi : i ∈ pids n) : ∀ l₀, l₀ = Leader.new i (pids n) →
    (i = n ∧ l₀.onStart = l₀.startPhase1 n 0) ∨ (i ≠ n ∧ l₀.onStart = (l₀, [])) := by
  rintro l₀ rfl
  obtain ⟨hr, hs⟩ := new_pids hi
  unfold onStart
  rw [hs, hr]
  by_cases h : i = n
  · exact Or.inl ⟨h, by rw [if_pos h, if_pos rfl]; rfl⟩
  · exact Or.inr ⟨h, by simp [h]⟩

/-- A leader that starts in phase 2 does not own the first round. -/
theorem not_owned_of_phase2 (hi : i ∈ pids n) (hphase2 : (Leader.new i (pids n)).onStart.1.state = .phase2) :
    (⟨n⟩ : ClassicRoundRobin).leader (Leader.new i (pids n)).onStart.1.round ≠ i := by
  obtain ⟨hr, hs⟩ := new_pids hi
  intro hown
  rcases onStart_cases hi _ rfl with ⟨rfl, h⟩ | ⟨hne, h⟩
  · rw [h] at hphase2
    have hnew : (Leader.new i (pids i)).state = .phase2 := hphase2
    simp [hs] at hnew
  · rw [h, hr, ClassicRoundRobin.leader_self] at hown
    exact hne hown.symm

theorem phase1bs_onStart (i n : ℕ) : (Leader.new i (pids n)).onStart.1.phase1bs = ∅ := by
  unfold onStart
  split_ifs <;> rfl

theorem history_init (hi : i ∈ pids n) :
    History n i (Leader.new i (pids n)).onStart.1 (Leader.new i (pids n)).onStart.2 := by
  obtain ⟨hr, hs⟩ := new_pids hi
  obtain ⟨h1, h2⟩ := mem_pids.mp hi
  have hmaj : (Leader.new i (pids n)).majority = n / 2 + 1 := by simp [Leader.new, length_pids]
  have hsys : (Leader.new i (pids n)).roundSystem = ⟨n⟩ := by simp [Leader.new, length_pids]
  rcases onStart_cases hi _ rfl with ⟨rfl, h⟩ | ⟨hne, h⟩
  · -- everything announced is the first `Phase1a`
    have hann : ∀ p, ((Leader.new i (pids i)).startPhase1 i 0).1.Announced
        ((Leader.new i (pids i)).startPhase1 i 0).2 p → p = ⟨i, i, 0⟩ := by
      rintro p (⟨pid, hp⟩ | ⟨id, hp⟩ | ⟨id, hp⟩)
      · obtain ⟨pid', he⟩ := mem_sendPhase1a hp
        cases he; rfl
      · rcases Timers.mem_schedule.mp hp with hp | hp
        · simp [Leader.new, Timers.empty] at hp
        · cases hp; rfl
      · cases hp; rfl
    rw [h]
    refine ⟨rfl, hsys, hmaj, hr.ge, fun p hp => ?_, fun p p' hp hp' _ => ?_, fun _ => ?_, fun o m hm => ?_⟩
    · cases hann p hp
      exact ⟨rfl, hr.ge, ClassicRoundRobin.leader_self⟩
    · rw [hann p hp, hann p' hp']
    · exact ⟨_, ⟨i, i, 0⟩, rfl, hr.symm, le_rfl⟩
    · obtain ⟨pid, he⟩ := mem_sendPhase1a hm
      cases he
  · rw [h]
    have hann : ∀ p, ¬ (Leader.new i (pids n)).Announced [] p := by
      rintro p (⟨pid, hp⟩ | ⟨id, hp⟩ | ⟨id, hp⟩)
      · cases hp
      · simp [Leader.new, Timers.empty] at hp
      · simp [Leader.new] at hp
    refine ⟨rfl, hsys, hmaj, hr.ge, fun p hp => absurd hp (hann p), fun p _ hp => absurd hp (hann p),
      fun hp => ?_, fun o m hm => by cases hm⟩
    simp [hs, hne] at hp

/-! ### Steps -/

/-- Rounds only grow. -/
theorem Move.round_le (hn : 1 ≤ l.roundSystem.n) (hm : Move l e l' out) : l.round ≤ l'.round := by
  cases hm with
  | quiet _ _ _ frame round => exact round.ge
  | retire _ _ frame round => exact round.ge
  | follow m inactive above => exact above.le
  | collect => exact le_rfl
  | campaign _ _ _ base frame hbase round =>
    rw [round]
    exact hbase.trans (ClassicRoundRobin.lt_nextClassicRound hn l.index base).le
  | complete m order _ _ frame completes enum round => exact round.ge
  | propose _ _ origin value cause frame round => exact round.ge

/-- What is announced after a step was announced before, or is the `Phase1a` of a new round. -/
theorem Move.announced (hn : 1 ≤ l.roundSystem.n) (hm : Move l e l' out) {p : Phase1a}
    (hp : l'.Announced (sent ++ out) p) : l.Announced sent p ∨
      (l.round < l'.round ∧ p = l.ownPhase1a l'.round ∧
        ∃ base, l'.round = l.roundSystem.nextClassicRound l.index base) := by
  -- the three places, for a step that keeps the timers but for noop flushes
  have hkeep : (∀ pid, .phase1a pid p ∈ out → l.Announced sent p) →
      (∀ t ∈ l'.timers.live, t ∈ l.timers.live ∨ t.callback = .noopFlush) →
      (l'.resendPhase1as = l.resendPhase1as ∨ l'.resendPhase1as = none) → l.Announced sent p := by
    intro hout ht hh
    rcases hp with ⟨pid, hp⟩ | ⟨id, hp⟩ | ⟨id, hp⟩
    · rcases List.mem_append.mp hp with hp | hp
      · exact Or.inl ⟨pid, hp⟩
      · exact hout pid hp
    · rcases ht _ hp with hp | hp
      · exact Or.inr (Or.inl ⟨id, hp⟩)
      · cases hp
    · rcases hh with hh | hh
      · exact Or.inr (Or.inr ⟨id, hh ▸ hp⟩)
      · rw [hh] at hp; cases hp
  cases hm with
  | quiet _ _ _ frame round state nextSlot phase1bs resend watermark timers outs =>
    refine Or.inl (hkeep (fun pid hmem => ?_) (fun t ht => Or.inl (timers t ht)) (Or.inl resend))
    rcases outs _ hmem with hnote | ⟨pid', p', he, id, hid⟩
    · cases hnote
    · cases he; exact Or.inr (Or.inl ⟨id, hid⟩)
  | retire _ _ frame round state watermark resend timers =>
    exact Or.inl (hkeep (by simp) (fun t ht => Or.inl (timers t ht)) resend)
  | follow => exact Or.inl (hkeep (by simp) (fun t ht => Or.inl ht) (Or.inl rfl))
  | collect => exact Or.inl (hkeep (by simp) (fun t ht => Or.inl ht) (Or.inl rfl))
  | complete m order _ _ frame completes enum round state watermark nextSlot resend timers notes =>
    refine Or.inl (hkeep (fun pid hmem => ?_) timers resend)
    rcases notes _ hmem with hnote | ⟨origin, p', he⟩
    · cases hnote
    · cases he
  | propose _ _ origin value cause frame round state nextSlot phase1bs resend watermark timers =>
    exact Or.inl (hkeep (by simp) (fun t ht => Or.inl (timers t ht)) (Or.inl resend))
  | campaign _ _ _ base frame hbase round state watermark phase1bs resend timers outs =>
    have hlt : l.round < l'.round := by
      rw [round]
      exact hbase.trans_lt (ClassicRoundRobin.lt_nextClassicRound hn l.index base)
    rcases hp with ⟨pid, hp⟩ | ⟨id, hp⟩ | ⟨id, hp⟩
    · rcases List.mem_append.mp hp with hp | hp
      · exact Or.inl (Or.inl ⟨pid, hp⟩)
      · obtain ⟨pid', he⟩ := outs _ hp
        cases he; exact Or.inr ⟨hlt, rfl, base, round⟩
    · rcases timers _ hp with hp | hp
      · exact Or.inl (Or.inr (Or.inl ⟨id, hp⟩))
      · cases hp; exact Or.inr ⟨hlt, rfl, base, round⟩
    · obtain ⟨id', he⟩ := resend
      rw [he] at hp
      cases hp; exact Or.inr ⟨hlt, rfl, base, round⟩

/-- A `Phase2a` handed over is of the current round, and the leader does not move on in that step. -/
theorem Move.told (hm : Move l e l' out) {o : Origin} {m : Phase2a} (h : .phase2a o m ∈ out) :
    m.src = l.index ∧ m.round = l.round ∧ l'.round = l.round := by
  cases hm with
  | quiet _ _ _ frame round state nextSlot phase1bs resend watermark timers outs =>
    rcases outs _ h with hnote | ⟨pid', p', he, -⟩
    · cases hnote
    · cases he
  | retire => cases h
  | follow => cases h
  | collect => cases h
  | campaign _ _ _ base frame hbase round state watermark phase1bs resend timers outs =>
    obtain ⟨pid, he⟩ := outs _ h
    cases he
  | complete m' order _ _ frame completes enum round state watermark nextSlot resend timers notes
      proposals =>
    exact ⟨(proposals _ _ h).src, (proposals _ _ h).round, round⟩
  | propose _ _ origin value cause frame round =>
    cases List.mem_singleton.mp h
    exact ⟨rfl, rfl, round⟩

theorem Move.frame (hm : Move l e l' out) : Frame l l' := by
  cases hm with
  | follow => exact ⟨rfl, rfl, rfl⟩
  | collect => exact ⟨rfl, rfl, rfl⟩
  | _ => assumption

theorem Move.watermark_le (hm : Move l e l' out) : l.chosenWatermark ≤ l'.chosenWatermark := by
  cases hm with
  | quiet _ _ _ frame round state nextSlot phase1bs resend watermark => exact watermark
  | follow => exact le_rfl
  | collect => exact le_rfl
  | _ => exact Eq.ge (by assumption)

/-- A leader in phase 1 was there before with the same handle, or has just begun. -/
theorem Move.phase1 (hm : Move l e l' out) (hs : l'.state = .phase1) :
    (l.state = .phase1 ∧ l'.resendPhase1as = l.resendPhase1as ∧ l'.round = l.round) ∨
      ∃ id, l'.resendPhase1as = some ⟨id, .resendPhase1as (l.ownPhase1a l'.round)⟩ := by
  cases hm with
  | quiet _ _ _ frame round state nextSlot phase1bs resend => exact Or.inl ⟨state ▸ hs, resend, round⟩
  | retire _ _ frame round state => rw [state] at hs; cases hs
  | follow m inactive above =>
    have : l.state = .phase1 := hs
    rw [inactive] at this; cases this
  | collect => exact Or.inl ⟨hs, rfl, rfl⟩
  | campaign _ _ _ base frame hbase round state watermark phase1bs resend => exact Or.inr resend
  | complete m order _ _ frame completes enum round state => rw [state] at hs; cases hs
  | propose _ _ origin value cause frame round state nextSlot phase1bs resend =>
    exact Or.inl ⟨state ▸ hs, resend, round⟩

theorem History.one_le (h : History n i l sent) (hi : i ∈ pids n) : 1 ≤ l.roundSystem.n := by
  obtain ⟨h1, h2⟩ := mem_pids.mp hi
  rw [h.roundSystem]; exact h1.trans h2

theorem History.move (hi : i ∈ pids n) (h : History n i l sent) (hm : Move l e l' out) :
    History n i l' (sent ++ out) := by
  obtain ⟨h1, h2⟩ := mem_pids.mp hi
  have hn := h.one_le hi
  have hle := hm.round_le hn
  have hcases : ∀ {p}, l'.Announced (sent ++ out) p → l.Announced sent p ∨
      (l.round < p.round ∧ p = l.ownPhase1a l'.round ∧
        (⟨n⟩ : ClassicRoundRobin).leader l'.round = i) := by
    intro p hp
    rcases hm.announced hn hp with hp | ⟨hlt, rfl, base, hbase⟩
    · exact Or.inl hp
    · refine Or.inr ⟨hlt, rfl, ?_⟩
      rw [hbase, h.index, h.roundSystem]
      exact ClassicRoundRobin.leader_nextClassicRound h1 h2 base
  refine ⟨hm.frame.index.trans h.index, hm.frame.roundSystem.trans h.roundSystem,
    hm.frame.majority.trans h.majority, h.low.trans hle, fun p hp => ?_, fun p p' hp hp' heq => ?_,
    fun hs => ?_, fun o m hmem => ?_⟩
  · rcases hcases hp with hp | ⟨-, rfl, hown⟩
    · obtain ⟨hsrc, hround, hown⟩ := h.announced p hp
      exact ⟨hsrc, hround.trans hle, hown⟩
    · exact ⟨h.index, le_rfl, hown⟩
  · -- an old `Phase1a` is of an old round
    rcases hcases hp with hp | ⟨hlt, rfl, -⟩ <;> rcases hcases hp' with hp' | ⟨hlt', rfl, -⟩
    · exact h.one p p' hp hp' heq
    · have := (h.announced p hp).2.1; omega
    · have := (h.announced p' hp').2.1; omega
    · rfl
  · rcases hm.phase1 hs with ⟨hs', hres, hround⟩ | ⟨id, hres⟩
    · obtain ⟨id, p, hp, hpr, hpw⟩ := h.campaign hs'
      exact ⟨id, p, hres.trans hp, hpr.trans hround.symm, hpw.trans hm.watermark_le⟩
    · exact ⟨id, _, hres, rfl, hm.watermark_le⟩
  · rcases List.mem_append.mp hmem with hmem | hmem
    · obtain ⟨hsrc, hlow, hround⟩ := h.told o m hmem
      exact ⟨hsrc, hlow, hround.trans hle⟩
    · obtain ⟨hsrc, hround, hstay⟩ := hm.told hmem
      exact ⟨hsrc.trans h.index, hround ▸ h.low, (hround.trans hstay.symm).le⟩

end OmniPaxosBench.MultiPaxos.Leader
