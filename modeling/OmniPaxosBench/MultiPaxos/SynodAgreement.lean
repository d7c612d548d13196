import OmniPaxosBench.MultiPaxos.SynodInvariants

/-! # Multi-Paxos: at most one value is chosen per slot

The votes recorded by the acceptors, read slot by slot, are a voting history in the sense of
`Lib.Voting`. `Lawful` is the rule for the proposers: one value and one proxy leader per slot and
round (`OneValue`), and each value taken from a majority of answers by `Leader.safeValue`
(`Justified`). Under it `chosen_unique` applies to each slot. -/

namespace OmniPaxosBench.MultiPaxos.Synod

open OmniPaxosBench.Lib

/-- All `Phase2a`s of one slot and round carry one value and are handed to one proxy leader, the one
they name as their source. -/
def OneValue (s : Synod) : Prop :=
  ∀ p m p' m', (p, m) ∈ s.proposals → (p', m') ∈ s.proposals → m.slot = m'.slot →
    m.round = m'.round → m.commandBatchOrNoop = m'.commandBatchOrNoop ∧ p = m.src ∧ p' = p

/-- The answers `values` are from a majority, for round `r`, for watermarks not above `slot`, each
given before its acceptor voted in round `r`. -/
structure Answers (n : ℕ) (s : Synod) (r slot : ℕ) (values : List Phase1b) : Prop where
  nodup : (values.map (·.acceptorIndex)).Nodup
  majority : n / 2 + 1 ≤ values.length
  answer : ∀ b ∈ values, b.round = r ∧ ∃ pr ∈ s.promises, pr.phase1b = b ∧
    pr.phase1a.chosenWatermark ≤ slot ∧ pr.votedBefore = false

/-- No answer reports the slot. -/
def Unreported (values : List Phase1b) (slot : ℕ) : Prop :=
  ∀ b ∈ values, ∀ i ∈ b.info, i.slot ≠ slot

/-- The value of a proposal is free or the safe one, by a majority of answers. -/
def Justified (n : ℕ) (s : Synod) (m : Phase2a) : Prop :=
  ∃ values, Answers n s m.round m.slot values ∧
    (Unreported values m.slot ∨ m.commandBatchOrNoop = Leader.safeValue values m.slot)

/-- The rule for the proposers. -/
def Lawful (n : ℕ) (s : Synod) : Prop := OneValue s ∧ ∀ p m, (p, m) ∈ s.proposals → Justified n s m

variable {n : ℕ} {s : Synod}

theorem Answers.isMajority {r slot : ℕ} {values : List Phase1b} (h : Answers n s r slot values)
    (hi : Inv n s) : IsMajority (pids n).toFinset (voters values) := by
  refine isMajority_voters hi h.nodup h.majority fun b hb => ?_
  obtain ⟨-, pr, hpr, heq, -⟩ := h.answer b hb
  exact ⟨pr, hpr, heq⟩

/-- A vote below the round of an answer, in a slot not below its watermark, is reported by it with a
round at least as high. -/
theorem Answers.reported {r slot : ℕ} {values : List Phase1b} (h : Answers n s r slot values)
    (hi : Inv n s) {b : Phase1b} (hb : b ∈ values) {r' : ℕ} {v : CommandBatchOrNoop}
    (hv : s.Voted b.acceptorIndex slot r' v) (hr : r' < r) :
    ∃ i ∈ b.info, i.slot = slot ∧ r' ≤ i.voteRound := by
  obtain ⟨hround, pr, hpr, rfl, hw, -⟩ := h.answer b hb
  obtain ⟨m, hm, hslot, rfl, -⟩ := hv
  obtain ⟨i, hi1, hi2, hi3⟩ := (hi.acceptor.promise pr hpr).covers m hm (by omega) (by omega)
  exact ⟨i, hi1, by omega, hi3⟩

/-- **A justified value is safe** in the sense of the voting library. -/
theorem Justified.safe {m : Phase2a} (h : Justified n s m) (hi : Inv n s) :
    Safe (pids n).toFinset (fun a r v => s.Voted a m.slot r v) m.round m.commandBatchOrNoop := by
  obtain ⟨values, hans, hval⟩ := h
  refine ⟨voters values, hans.isMajority hi, ?_⟩
  by_cases hrep : ∃ b ∈ values, ∃ i ∈ b.info, i.slot = m.slot
  · -- the value is that of the highest reported vote, and every vote below the round is reported
    right
    obtain ⟨b, hb, i, hib, hslot, hsafe, hmax⟩ := Leader.safeValue_reported hrep
    have hvalue : m.commandBatchOrNoop = i.voteValue := by
      rcases hval with hun | hval
      · exact absurd hslot (hun b hb i hib)
      · rw [hval, hsafe]
    obtain ⟨hround, pr, hpr, rfl, -, hbefore⟩ := hans.answer b hb
    have hpi := hi.acceptor.promise pr hpr
    refine ⟨i.voteRound, hround ▸ hpi.strict hbefore i hib, ⟨pr.phase1b.acceptorIndex, ?_⟩, ?_⟩
    · rw [hvalue, ← hslot]; exact (hpi.sound i hib).2
    · intro a ha r' hlt hr' w hw
      obtain ⟨b', hb', rfl⟩ := mem_voters.mp ha
      obtain ⟨i', hi', hslot', hle⟩ := hans.reported hi hb' hw hr'
      have := hmax b' hb' i' hi' hslot'
      omega
  · left
    intro a ha r' hr' w hw
    obtain ⟨b, hb, rfl⟩ := mem_voters.mp ha
    obtain ⟨i, hib, hslot, -⟩ := hans.reported hi hb hw hr'
    exact hrep ⟨b, hb, i, hib, hslot⟩

/-- A vote is for a proposal. -/
theorem Voted.proposed (hi : Inv n s) {a slot r : ℕ} {v : CommandBatchOrNoop}
    (h : s.Voted a slot r v) :
    ∃ p m, (p, m) ∈ s.proposals ∧ m.slot = slot ∧ m.round = r ∧ m.commandBatchOrNoop = v := by
  obtain ⟨m, hm, h1, h2, h3⟩ := h
  obtain ⟨-, p, hp⟩ := hi.channel.toAcceptors a m (hi.channel.votes a m hm)
  exact ⟨p, m, hp, h1, h2, h3⟩

/-- The value of a `Chosen` message is chosen in its round in the sense of the voting library. -/
theorem chosenIn_of_sent (hi : Inv n s) (hone : OneValue s) {c : ChosenSent} (hc : c ∈ s.chosen) :
    ChosenIn (pids n).toFinset (fun a r v => s.Voted a c.chosen.slot r v) c.round
      c.chosen.commandBatchOrNoop := by
  obtain ⟨⟨m, hm, hslot, hround, hval⟩, Q, hQ, hQv⟩ := hi.proxy.chosen c hc
  refine ⟨Q, hQ, fun a ha => ?_⟩
  obtain ⟨v, hv⟩ := hQv a ha
  obtain ⟨p', m', hm', hslot', hround', hval'⟩ := hv.proposed hi
  obtain ⟨heq, -⟩ := hone _ m _ m' hm hm' (by omega) (by omega)
  have : v = c.chosen.commandBatchOrNoop := by rw [← hval, heq, hval']
  exact this ▸ hv

/-- `v` is proposed in a slot and round. -/
def Proposed (s : Synod) (slot r : ℕ) (v : CommandBatchOrNoop) : Prop :=
  ∃ p m, (p, m) ∈ s.proposals ∧ m.slot = slot ∧ m.round = r ∧ m.commandBatchOrNoop = v

theorem chosen_eq_of_lawful (hi : Inv n s) (hl : Lawful n s) {c c' : ChosenSent} (hc : c ∈ s.chosen)
    (hc' : c' ∈ s.chosen) (hslot : c.chosen.slot = c'.chosen.slot) :
    c.chosen.commandBatchOrNoop = c'.chosen.commandBatchOrNoop := by
  obtain ⟨hone, hjust⟩ := hl
  have hv := chosenIn_of_sent hi hone hc
  have hv' := chosenIn_of_sent hi hone hc'
  rw [← hslot] at hv'
  have hone' : ∀ r v w, s.Proposed c.chosen.slot r v → s.Proposed c.chosen.slot r w → v = w := by
    rintro r v w ⟨p, m, hm, h1, h2, rfl⟩ ⟨p', m', hm', h1', h2', rfl⟩
    exact (hone p m p' m' hm hm' (by omega) (by omega)).1
  have hvote : ∀ a r v, s.Voted a c.chosen.slot r v → s.Proposed c.chosen.slot r v :=
    fun a r v h => h.proposed hi
  refine chosen_unique hone' hvote ?_ hv hv'
  rintro r v ⟨p, m, hm, h1, rfl, rfl⟩
  rw [← h1]
  exact (hjust p m hm).safe hi

/-- **Agreement**: if the `Phase2a`s handed to the proxy leaders follow the rule, no two `Chosen`
messages for one slot carry different values. -/
theorem agreement_of_lawful {n : ℕ} {s : Synod} (hr : (machine n).Reachable s) (hl : Lawful n s) :
    ∀ c ∈ s.chosen, ∀ c' ∈ s.chosen, c.chosen.slot = c'.chosen.slot →
      c.chosen.commandBatchOrNoop = c'.chosen.commandBatchOrNoop :=
  fun _ hc _ hc' hslot => chosen_eq_of_lawful (inv_of_reachable hr) hl hc hc' hslot

/-- Of three nodes, acceptors 1 and 2 vote for a batch in round 1. Acceptors 2 and 3 answer in round 2, one
of them reports the vote, and they vote for the batch again. -/
def twoRounds : List SynodEvent :=
  [.phase1a 1 ⟨1, 1, 0⟩, .phase1a 2 ⟨1, 1, 0⟩, .propose 1 ⟨1, 0, 1, .commandBatch [[7]]⟩,
    .phase2a 1 ⟨1, 0, 1, .commandBatch [[7]]⟩, .phase2a 2 ⟨1, 0, 1, .commandBatch [[7]]⟩,
    .phase2b 1 ⟨1, 0, 1⟩, .phase2b 1 ⟨2, 0, 1⟩,
    .phase1a 2 ⟨2, 2, 0⟩, .phase1a 3 ⟨2, 2, 0⟩, .propose 2 ⟨2, 0, 2, .commandBatch [[7]]⟩,
    .phase2a 2 ⟨2, 0, 2, .commandBatch [[7]]⟩, .phase2a 3 ⟨2, 0, 2, .commandBatch [[7]]⟩,
    .phase2b 2 ⟨2, 0, 2⟩, .phase2b 2 ⟨3, 0, 2⟩]

/-- What is recorded in `twoRounds`. -/
theorem twoRounds_run : ∃ s, (machine 3).run (machine 3).init twoRounds = some s ∧
    s.proposals = [(1, ⟨1, 0, 1, .commandBatch [[7]]⟩), (2, ⟨2, 0, 2, .commandBatch [[7]]⟩)] ∧
    s.promises = [⟨⟨1, 1, 0⟩, ⟨1, 1, []⟩, false⟩, ⟨⟨1, 1, 0⟩, ⟨2, 1, []⟩, false⟩,
      ⟨⟨2, 2, 0⟩, ⟨2, 2, [⟨0, 1, .commandBatch [[7]]⟩]⟩, false⟩, ⟨⟨2, 2, 0⟩, ⟨3, 2, []⟩, false⟩] ∧
    s.chosen = (pids 3).map (fun pid => ⟨1, 1, pid, 0, .commandBatch [[7]]⟩) ++
      (pids 3).map fun pid => ⟨2, 2, pid, 0, .commandBatch [[7]]⟩ :=
  ⟨_, rfl, by decide, by decide, by decide⟩

theorem twoRounds_agree : ∃ s, (machine 3).Reachable s ∧ Lawful 3 s ∧
    s.chosen.map (fun c => (c.proxyLeader, c.round)) = [(1, 1), (1, 1), (1, 1), (2, 2), (2, 2), (2, 2)] ∧
    ∀ c ∈ s.chosen, ∀ c' ∈ s.chosen, c.chosen.slot = c'.chosen.slot →
      c.chosen.commandBatchOrNoop = c'.chosen.commandBatchOrNoop := by
  obtain ⟨s, hrun, hprop, hprom, hchosen⟩ := twoRounds_run
  have hr := Machine.reachable_of_run hrun
  have hlawful : Lawful 3 s := by
    refine ⟨?_, ?_⟩
    · intro p m p' m' hm hm' h1 h2
      rw [hprop] at hm hm'
      simp only [List.mem_cons, Prod.mk.injEq, List.not_mem_nil, or_false] at hm hm'
      rcases hm with ⟨rfl, rfl⟩ | ⟨rfl, rfl⟩ <;> rcases hm' with ⟨rfl, rfl⟩ | ⟨rfl, rfl⟩ <;> simp_all
    · intro p m hm
      rw [hprop] at hm
      simp only [List.mem_cons, Prod.mk.injEq, List.not_mem_nil, or_false] at hm
      rcases hm with ⟨rfl, rfl⟩ | ⟨rfl, rfl⟩
      · exact ⟨[⟨1, 1, []⟩, ⟨2, 1, []⟩], ⟨by simp, by simp, by simp [hprom]⟩, Or.inl (by simp [Unreported])⟩
      · exact ⟨[⟨2, 2, [⟨0, 1, .commandBatch [[7]]⟩]⟩, ⟨3, 2, []⟩], ⟨by simp, by simp, by simp [hprom]⟩,
          Or.inr (by decide)⟩
  exact ⟨s, hr, hlawful, by rw [hchosen]; decide, agreement_of_lawful hr hlawful⟩

end OmniPaxosBench.MultiPaxos.Synod
