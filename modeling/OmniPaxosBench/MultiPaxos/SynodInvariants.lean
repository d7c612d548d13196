import OmniPaxosBench.MultiPaxos.Synod

/-! # Multi-Paxos: invariants of the acceptors and proxy leaders

`AcceptorInv`: an acceptor's state holds for each slot the last of its votes, and an answer to a
`Phase1a` covers all votes below its round that are ever cast (`PromiseInv`). `ChannelInv`: messages
say what happened. `ProxyInv`: a `Chosen` message rests on a majority of votes. Nothing is assumed
about the proposers. -/

namespace OmniPaxosBench.MultiPaxos.Synod

open OmniPaxosBench.Lib

/-- Acceptor `a` voted for `value` in `slot` and `round`. -/
def Voted (s : Synod) (a slot round : ℕ) (value : CommandBatchOrNoop) : Prop :=
  ∃ m, (a, m) ∈ s.votes ∧ m.slot = slot ∧ m.round = round ∧ m.commandBatchOrNoop = value

theorem Voted.mono {s t : Synod} (h : ∀ v ∈ s.votes, v ∈ t.votes) {a slot round : ℕ}
    {value : CommandBatchOrNoop} (hv : s.Voted a slot round value) : t.Voted a slot round value := by
  obtain ⟨m, hm, hrest⟩ := hv
  exact ⟨m, h _ hm, hrest⟩

/-! ### The acceptors -/

/-- What an answer says about the votes of its acceptor, now and later. -/
structure PromiseInv (n : ℕ) (s : Synod) (pr : Promise) : Prop where
  mem : pr.phase1b.acceptorIndex ∈ pids n
  round : pr.phase1b.round = pr.phase1a.round
  le : pr.phase1b.round ≤ (s.acceptor pr.phase1b.acceptorIndex).round
  covers : ∀ m, (pr.phase1b.acceptorIndex, m) ∈ s.votes → m.round < pr.phase1b.round →
    pr.phase1a.chosenWatermark ≤ m.slot →
      ∃ i ∈ pr.phase1b.info, i.slot = m.slot ∧ m.round ≤ i.voteRound
  sound : ∀ i ∈ pr.phase1b.info, pr.phase1a.chosenWatermark ≤ i.slot ∧
    s.Voted pr.phase1b.acceptorIndex i.slot i.voteRound i.voteValue
  strict : pr.votedBefore = false → ∀ i ∈ pr.phase1b.info, i.voteRound < pr.phase1b.round
  before : pr.votedBefore = true →
    ∃ m, (pr.phase1b.acceptorIndex, m) ∈ s.votes ∧ m.round = pr.phase1b.round

structure AcceptorInv (n : ℕ) (s : Synod) : Prop where
  index : ∀ a, (s.acceptor a).index = a
  voteRound : ∀ a m, (a, m) ∈ s.votes → m.round ≤ (s.acceptor a).round
  voteKept : ∀ a m, (a, m) ∈ s.votes →
    ∃ st, (s.acceptor a).states[m.slot]? = some st ∧ m.round ≤ st.voteRound
  stateVoted : ∀ a k st, (s.acceptor a).states[k]? = some st →
    s.Voted a k st.voteRound st.voteValue
  promise : ∀ pr ∈ s.promises, PromiseInv n s pr

/-- Rounds only grow, votes are only added, and a new vote is not below the round of its acceptor. -/
structure Later (s t : Synod) : Prop where
  round : ∀ a, (s.acceptor a).round ≤ (t.acceptor a).round
  votes : ∀ v ∈ s.votes, v ∈ t.votes
  fresh : ∀ a m, (a, m) ∈ t.votes → (a, m) ∈ s.votes ∨ (s.acceptor a).round ≤ m.round

/-- An answer stays valid: a vote cast after it is not below its round. -/
theorem PromiseInv.later {n : ℕ} {s t : Synod} {pr : Promise} (h : PromiseInv n s pr)
    (hl : Later s t) : PromiseInv n t pr where
  mem := h.mem
  round := h.round
  le := h.le.trans (hl.round _)
  covers m hm hlt hw := by
    rcases hl.fresh _ m hm with hold | hge
    · exact h.covers m hold hlt hw
    · have := h.le; omega
  sound i hi := ⟨(h.sound i hi).1, (h.sound i hi).2.mono hl.votes⟩
  strict := h.strict
  before hb := by
    obtain ⟨m, hm, hr⟩ := h.before hb
    exact ⟨m, hl.votes _ hm, hr⟩

theorem acceptorInv_init (n : ℕ) : AcceptorInv n (init n) where
  index _ := rfl
  voteRound a m h := by simp [init] at h
  voteKept a m h := by simp [init] at h
  stateVoted a k st h := by simp [init, Acceptor.new] at h
  promise pr h := by simp [init] at h

theorem hasVoted_eq_true {s : Synod} {a r : ℕ} :
    s.hasVoted a r = true ↔ ∃ m, (a, m) ∈ s.votes ∧ m.round = r := by
  simp [hasVoted, List.any_eq_true]

/-- A step that leaves rounds, states and votes of the acceptors alone. -/
theorem AcceptorInv.same {n : ℕ} {s t : Synod} (h : AcceptorInv n s)
    (hacc : ∀ a, SameAcceptor (s.acceptor a) (t.acceptor a)) (hvotes : t.votes = s.votes)
    (hprom : t.promises = s.promises) : AcceptorInv n t where
  index a := (hacc a).1.trans (h.index a)
  voteRound a m hm := by rw [(hacc a).2.1]; exact h.voteRound a m (hvotes ▸ hm)
  voteKept a m hm := by rw [(hacc a).2.2]; exact h.voteKept a m (hvotes ▸ hm)
  stateVoted a k st hst := by
    rw [(hacc a).2.2] at hst
    exact (h.stateVoted a k st hst).mono (by simp [hvotes])
  promise pr hpr := by
    refine (h.promise pr (hprom ▸ hpr)).later ⟨fun a => (hacc a).2.1.ge, by simp [hvotes], ?_⟩
    intro a m hm
    exact Or.inl (hvotes ▸ hm)

/-- The answer just given covers the votes cast so far. -/
theorem promiseInv_report {n : ℕ} {s : Synod} (h : AcceptorInv n s) {a : ℕ} (ha : a ∈ pids n)
    {m : Phase1a} (hr : (s.acceptor a).round ≤ m.round) :
    PromiseInv n { s with acceptor := Function.update s.acceptor a { s.acceptor a with round := m.round } }
      ⟨m, ⟨a, m.round, (s.acceptor a).report m.chosenWatermark⟩, s.hasVoted a m.round⟩ where
  mem := ha
  round := rfl
  le := by simp
  covers v hv _ hw := by
    obtain ⟨st, hst, hle⟩ := h.voteKept a v hv
    exact ⟨⟨v.slot, st.voteRound, st.voteValue⟩, Acceptor.mem_report.mpr ⟨hw, hst⟩, rfl, hle⟩
  sound i hi := by
    obtain ⟨hw, hst⟩ := Acceptor.mem_report.mp hi
    exact ⟨hw, h.stateVoted a i.slot _ hst⟩
  strict hb i hi := by
    obtain ⟨-, hst⟩ := Acceptor.mem_report.mp hi
    obtain ⟨v, hv, -, hvr, -⟩ := h.stateVoted a i.slot _ hst
    have hle := h.voteRound a v hv
    have hne : v.round ≠ m.round := fun heq => by
      have := hasVoted_eq_true.mpr ⟨v, hv, heq⟩
      simp_all
    simp only at hvr ⊢
    omega
  before hb := hasVoted_eq_true.mp hb

/-- An acceptor that promises raises its round. -/
theorem update_round {s : Synod} {a round : ℕ} (hr : (s.acceptor a).round ≤ round) (b : ℕ) :
    (Function.update s.acceptor a { s.acceptor a with round := round } b).index = (s.acceptor b).index ∧
    (Function.update s.acceptor a { s.acceptor a with round := round } b).states = (s.acceptor b).states ∧
    (s.acceptor b).round ≤ (Function.update s.acceptor a { s.acceptor a with round := round } b).round := by
  by_cases hb : b = a
  · subst hb
    rw [Function.update_self]
    exact ⟨rfl, rfl, hr⟩
  · rw [Function.update_of_ne hb]
    exact ⟨rfl, rfl, le_rfl⟩

theorem AcceptorInv.promise_step {n : ℕ} {s : Synod} (h : AcceptorInv n s) {a : ℕ} (ha : a ∈ pids n)
    {m : Phase1a} (hr : (s.acceptor a).round ≤ m.round) (out : List AcceptorOut) :
    AcceptorInv n { s with
      acceptor := Function.update s.acceptor a { s.acceptor a with round := m.round }
      acceptorOuts := out
      promises := s.promises ++
        [⟨m, ⟨a, m.round, (s.acceptor a).report m.chosenWatermark⟩, s.hasVoted a m.round⟩] } where
  index b := (update_round hr b).1.trans (h.index b)
  voteRound b v hv := (h.voteRound b v hv).trans (update_round hr b).2.2
  voteKept b v hv := by
    dsimp only
    rw [(update_round hr b).2.1]
    exact h.voteKept b v hv
  stateVoted b k st hst := by
    dsimp only at hst
    rw [(update_round hr b).2.1] at hst
    exact h.stateVoted b k st hst
  promise pr hpr := by
    rcases List.mem_append.mp hpr with hold | hnew
    · exact (h.promise pr hold).later
        ⟨fun b => (update_round hr b).2.2, fun v hv => hv, fun b v hv => Or.inl hv⟩
    · have hnew' := promiseInv_report h ha hr
      rw [List.mem_singleton.mp hnew]
      exact ⟨hnew'.mem, hnew'.round, hnew'.le, hnew'.covers, hnew'.sound, hnew'.strict, hnew'.before⟩

theorem AcceptorInv.vote_step {n : ℕ} {s : Synod} (h : AcceptorInv n s) {a : ℕ} {m : Phase2a}
    (hr : (s.acceptor a).round ≤ m.round) (out : List AcceptorOut) :
    AcceptorInv n { s with
      acceptor := Function.update s.acceptor a ((s.acceptor a).vote m)
      acceptorOuts := out
      votes := s.votes ++ [(a, m)] } where
  index b := by
    by_cases hb : b = a
    · subst hb; simpa using h.index b
    · simpa [Function.update_of_ne hb] using h.index b
  voteRound b v hv := by
    by_cases hb : b = a
    · subst hb
      rcases List.mem_append.mp hv with hv | hv
      · simpa using (h.voteRound b v hv).trans hr
      · cases List.mem_singleton.mp hv; simp
    · have hv' : (b, v) ∈ s.votes := by simpa [hb] using hv
      simpa [Function.update_of_ne hb] using h.voteRound b v hv'
  voteKept b v hv := by
    by_cases hb : b = a
    · subst hb
      simp only [Function.update_self, Acceptor.vote_states]
      rcases List.mem_append.mp hv with hv | hv
      · -- an older vote in the same slot is overwritten by one of a round not below it
        split_ifs with hslot
        · exact ⟨_, rfl, (h.voteRound b v hv).trans hr⟩
        · exact h.voteKept b v hv
      · cases List.mem_singleton.mp hv
        exact ⟨_, if_pos rfl, le_rfl⟩
    · have hv' : (b, v) ∈ s.votes := by simpa [hb] using hv
      simpa [Function.update_of_ne hb] using h.voteKept b v hv'
  stateVoted b k st hst := by
    have hmono : ∀ v ∈ s.votes, v ∈ s.votes ++ [(a, m)] := fun v hv => by simp [hv]
    by_cases hb : b = a
    · subst hb
      simp only [Function.update_self, Acceptor.vote_states] at hst
      split_ifs at hst with hk
      · cases hst; exact ⟨m, by simp, hk.symm, rfl, rfl⟩
      · exact (h.stateVoted b k st hst).mono hmono
    · simp only [Function.update_of_ne hb] at hst
      exact (h.stateVoted b k st hst).mono hmono
  promise pr hpr := by
    refine (h.promise pr hpr).later ⟨fun b => ?_, fun v hv => by simp [hv], fun b v hv => ?_⟩
    · by_cases hb : b = a
      · subst hb; simpa using hr
      · simp [Function.update_of_ne hb]
    · rcases List.mem_append.mp hv with hv | hv
      · exact Or.inl hv
      · cases List.mem_singleton.mp hv; exact Or.inr hr

/-- Updating one entry by one that is the same up to the partition. -/
theorem sameAcceptor_update {s : Synod} {a : ℕ} {acc : Acceptor}
    (h : SameAcceptor (s.acceptor a) acc) (b : ℕ) :
    SameAcceptor (s.acceptor b) (Function.update s.acceptor a acc b) := by
  by_cases hb : b = a
  · subst hb; simpa using h
  · rw [Function.update_of_ne hb]; exact ⟨rfl, rfl, rfl⟩

theorem AcceptorInv.move {n : ℕ} {s t : Synod} (h : AcceptorInv n s) (hm : Move n s t) :
    AcceptorInv n t := by
  have hrefl : ∀ a, SameAcceptor (s.acceptor a) (s.acceptor a) := fun _ => ⟨rfl, rfl, rfl⟩
  cases hm with
  | refuse a acc out same nacks => exact h.same (sameAcceptor_update same) rfl rfl
  | promise a m ha hr b hb =>
    subst hb
    rw [h.index a]
    exact h.promise_step ha hr _
  | vote a m hm hr => exact h.vote_step hr _
  | _ => exact h.same hrefl rfl rfl

/-! ### Messages -/

structure ChannelInv (n : ℕ) (s : Synod) : Prop where
  acceptors : ∀ p, (s.proxyLeader p).acceptors = pids n
  toAcceptors : ∀ a m, (a, m) ∈ s.toAcceptors → a ∈ pids n ∧ ∃ p, (p, m) ∈ s.proposals
  votes : ∀ a m, (a, m) ∈ s.votes → (a, m) ∈ s.toAcceptors
  phase2b : ∀ p b, .toProxyLeader p b ∈ s.acceptorOuts →
    b.acceptorIndex ∈ pids n ∧ ∃ v, s.Voted b.acceptorIndex b.slot b.round v
  phase1b : ∀ pid b, .toLeader pid (.phase1b b) ∈ s.acceptorOuts →
    ∃ pr ∈ s.promises, pr.phase1b = b ∧ pr.phase1a.src = pid

theorem channelInv_init (n : ℕ) : ChannelInv n (init n) where
  acceptors _ := rfl
  toAcceptors a m h := by simp [init] at h
  votes a m h := by simp [init] at h
  phase2b p b h := by simp [init] at h
  phase1b pid b h := by simp [init] at h

theorem acceptors_update {n : ℕ} {s : Synod} (h : ∀ p, (s.proxyLeader p).acceptors = pids n) {p : ℕ}
    {proxy : ProxyLeader} (hp : proxy.acceptors = pids n) (q : ℕ) :
    (Function.update s.proxyLeader p proxy q).acceptors = pids n := by
  by_cases hq : q = p
  · subst hq; simpa using hp
  · rw [Function.update_of_ne hq]; exact h q

theorem ChannelInv.move {n : ℕ} {s t : Synod} (h : ChannelInv n s) (ha : AcceptorInv n s)
    (hm : Move n s t) : ChannelInv n t := by
  cases hm with
  | refuse a acc out same nacks =>
    refine ⟨h.acceptors, h.toAcceptors, h.votes, fun p b hb => ?_, fun pid b hb => ?_⟩
    · rcases List.mem_append.mp hb with hb | hb
      · exact h.phase2b p b hb
      · obtain ⟨_, _, he⟩ := nacks _ hb; cases he
    · rcases List.mem_append.mp hb with hb | hb
      · exact h.phase1b pid b hb
      · obtain ⟨_, _, he⟩ := nacks _ hb; cases he
  | proxyQuiet p proxy same =>
    exact ⟨acceptors_update h.acceptors (same.1.trans (h.acceptors p)), h.toAcceptors, h.votes,
      h.phase2b, h.phase1b⟩
  | promise a m _ hr b hb =>
    refine ⟨h.acceptors, h.toAcceptors, h.votes, fun p c hc => ?_, fun pid c hc => ?_⟩
    · exact h.phase2b p c (by simpa using hc)
    · rcases List.mem_append.mp hc with hc | hc
      · obtain ⟨pr, hpr, hrest⟩ := h.phase1b pid c hc
        exact ⟨pr, by simp [hpr], hrest⟩
      · cases List.mem_singleton.mp hc
        exact ⟨_, List.mem_append_right _ (List.mem_singleton.mpr rfl), rfl, rfl⟩
  | known p m =>
    refine ⟨h.acceptors, fun a c hc => ?_, h.votes, h.phase2b, h.phase1b⟩
    obtain ⟨h1, q, hq⟩ := h.toAcceptors a c hc
    exact ⟨h1, q, by simp [hq]⟩
  | propose p m =>
    refine ⟨acceptors_update h.acceptors (h.acceptors p), fun a c hc => ?_, fun a c hc => ?_,
      h.phase2b, h.phase1b⟩
    · rcases List.mem_append.mp hc with hc | hc
      · obtain ⟨h1, q, hq⟩ := h.toAcceptors a c hc
        exact ⟨h1, q, by simp [hq]⟩
      · obtain ⟨pid, hpid, he⟩ := List.mem_map.mp hc
        cases he
        refine ⟨?_, p, by simp⟩
        rw [← h.acceptors p]
        exact List.mem_of_mem_filter hpid
    · exact List.mem_append_left _ (h.votes a c hc)
  | vote a m hm hr =>
    have hmono : ∀ v ∈ s.votes, v ∈ s.votes ++ [(a, m)] := fun v hv => by simp [hv]
    refine ⟨h.acceptors, h.toAcceptors, fun b c hc => ?_, fun p c hc => ?_, fun pid c hc => ?_⟩
    · rcases List.mem_append.mp hc with hc | hc
      · exact h.votes b c hc
      · cases List.mem_singleton.mp hc; exact hm
    · rcases List.mem_append.mp hc with hc | hc
      · obtain ⟨hmem, v, hv⟩ := h.phase2b p c hc
        exact ⟨hmem, v, hv.mono hmono⟩
      · cases List.mem_singleton.mp hc
        refine ⟨?_, m.commandBatchOrNoop, m, ?_, rfl, rfl, rfl⟩
        · rw [ha.index]; exact (h.toAcceptors a m hm).1
        · rw [ha.index]; simp
    · exact h.phase1b pid c (by simpa using hc)
  | count p m hm pending hp =>
    exact ⟨acceptors_update h.acceptors (h.acceptors p), h.toAcceptors, h.votes, h.phase2b, h.phase1b⟩
  | choose p m hm pending hp hmaj =>
    exact ⟨acceptors_update h.acceptors (h.acceptors p), h.toAcceptors, h.votes, h.phase2b, h.phase1b⟩

/-! ### The proxy leaders -/

/-- What a proxy leader knows of a slot and round is right. -/
def PendingInv (n : ℕ) (s : Synod) (p : ℕ) (k : SlotRound) (pending : Pending) : Prop :=
  ((p, pending.phase2a) ∈ s.proposals ∧ pending.phase2a.slot = k.slot ∧
    pending.phase2a.round = k.round) ∧
  ∀ a ∈ pending.phase2bs.keys, a ∈ pids n ∧ ∃ v, s.Voted a k.slot k.round v

/-- A `Chosen` message rests on a proposal and on a majority of votes in its round. -/
def ChosenInv (n : ℕ) (s : Synod) (c : ChosenSent) : Prop :=
  (∃ m, (c.proxyLeader, m) ∈ s.proposals ∧ m.slot = c.chosen.slot ∧ m.round = c.round ∧
    m.commandBatchOrNoop = c.chosen.commandBatchOrNoop) ∧
  ∃ Q, IsMajority (pids n).toFinset Q ∧ ∀ a ∈ Q, ∃ v, s.Voted a c.chosen.slot c.round v

structure ProxyInv (n : ℕ) (s : Synod) : Prop where
  majority : ∀ p, (s.proxyLeader p).majority = n / 2 + 1
  pending : ∀ p k pending, (s.proxyLeader p).states.lookup k = some (.pending pending) →
    PendingInv n s p k pending
  chosen : ∀ c ∈ s.chosen, ChosenInv n s c

theorem PendingInv.mono {n : ℕ} {s t : Synod} (hp : ∀ x ∈ s.proposals, x ∈ t.proposals)
    (hv : ∀ v ∈ s.votes, v ∈ t.votes) {p : ℕ} {k : SlotRound} {pending : Pending}
    (h : PendingInv n s p k pending) : PendingInv n t p k pending := by
  obtain ⟨⟨h1, h2⟩, h3⟩ := h
  refine ⟨⟨hp _ h1, h2⟩, fun a ha => ?_⟩
  obtain ⟨hmem, v, hvv⟩ := h3 a ha
  exact ⟨hmem, v, hvv.mono hv⟩

theorem ChosenInv.mono {n : ℕ} {s t : Synod} (hp : ∀ x ∈ s.proposals, x ∈ t.proposals)
    (hv : ∀ v ∈ s.votes, v ∈ t.votes) {c : ChosenSent} (h : ChosenInv n s c) : ChosenInv n t c := by
  obtain ⟨⟨m, hm, hrest⟩, Q, hQ, hQv⟩ := h
  refine ⟨⟨m, hp _ hm, hrest⟩, Q, hQ, fun a ha => ?_⟩
  obtain ⟨v, hvv⟩ := hQv a ha
  exact ⟨v, hvv.mono hv⟩

theorem proxyInv_init (n : ℕ) : ProxyInv n (init n) where
  majority _ := by simp [init, ProxyLeader.new, pids]
  pending p k pending h := by simp [init, ProxyLeader.new] at h
  chosen c h := by simp [init] at h

/-- A step that changes no proxy leader and loses no proposal and no vote. -/
theorem ProxyInv.mono {n : ℕ} {s t : Synod} (h : ProxyInv n s)
    (hproxy : ∀ p, (t.proxyLeader p).states = (s.proxyLeader p).states ∧
      (t.proxyLeader p).majority = (s.proxyLeader p).majority)
    (hp : ∀ x ∈ s.proposals, x ∈ t.proposals) (hv : ∀ v ∈ s.votes, v ∈ t.votes)
    (hc : t.chosen = s.chosen) : ProxyInv n t where
  majority p := (hproxy p).2.trans (h.majority p)
  pending p k pending hk := (h.pending p k pending ((hproxy p).1 ▸ hk)).mono hp hv
  chosen c hmem := (h.chosen c (hc ▸ hmem)).mono hp hv

/-- A step that changes the state of one slot and round at one proxy leader. -/
theorem ProxyInv.setState {n : ℕ} {s t : Synod} (h : ProxyInv n s) {p : ℕ} {k : SlotRound}
    {st : ProxyState}
    (hproxy : t.proxyLeader = Function.update s.proxyLeader p ((s.proxyLeader p).setState k st))
    (hp : ∀ x ∈ s.proposals, x ∈ t.proposals) (hv : ∀ v ∈ s.votes, v ∈ t.votes)
    (hst : ∀ pending, st = .pending pending → PendingInv n t p k pending)
    (hc : ∀ c ∈ t.chosen, c ∈ s.chosen ∨ ChosenInv n t c) : ProxyInv n t where
  majority q := by
    rw [hproxy]
    by_cases hq : q = p
    · subst hq; simpa [ProxyLeader.setState] using h.majority q
    · rw [Function.update_of_ne hq]; exact h.majority q
  pending q k' pending hk := by
    rw [hproxy] at hk
    by_cases hq : q = p
    · subst hq
      rw [Function.update_self, ProxyLeader.lookup_setState] at hk
      split_ifs at hk with hkk
      · subst hkk; exact hst pending (Option.some.inj hk)
      · exact (h.pending q k' pending hk).mono hp hv
    · rw [Function.update_of_ne hq] at hk
      exact (h.pending q k' pending hk).mono hp hv
  chosen c hmem := by
    rcases hc c hmem with hold | hnew
    · exact (h.chosen c hold).mono hp hv
    · exact hnew

/-- Counting one more answer. -/
theorem PendingInv.count {n : ℕ} {s : Synod} (hch : ChannelInv n s) {p : ℕ} {m : Phase2b}
    (hm : .toProxyLeader p m ∈ s.acceptorOuts) {pending : Pending}
    (h : PendingInv n s p ⟨m.slot, m.round⟩ pending) :
    PendingInv n s p ⟨m.slot, m.round⟩
      ⟨pending.phase2a, pending.phase2bs.insert m.acceptorIndex m⟩ := by
  refine ⟨h.1, fun a ha => ?_⟩
  rw [HashMap.keys_insert, Finset.mem_insert] at ha
  rcases ha with rfl | ha
  · exact hch.phase2b p m hm
  · exact h.2 a ha

theorem ProxyInv.move {n : ℕ} {s t : Synod} (h : ProxyInv n s) (hch : ChannelInv n s)
    (hm : Move n s t) : ProxyInv n t := by
  have hrefl : ∀ p, (s.proxyLeader p).states = (s.proxyLeader p).states ∧
      (s.proxyLeader p).majority = (s.proxyLeader p).majority := fun _ => ⟨rfl, rfl⟩
  cases hm with
  | refuse a acc out same nacks => exact h.mono hrefl (fun _ hx => hx) (fun _ hv => hv) rfl
  | proxyQuiet p proxy same =>
    refine h.mono (fun q => ?_) (fun _ hx => hx) (fun _ hv => hv) rfl
    by_cases hq : q = p
    · subst hq; simpa using same.2
    · simp [Function.update_of_ne hq]
  | promise a m ha hr b hb => exact h.mono hrefl (fun _ hx => hx) (fun _ hv => hv) rfl
  | known p m => exact h.mono hrefl (fun x hx => by simp [hx]) (fun _ hv => hv) rfl
  | propose p m =>
    refine h.setState rfl (fun x hx => by simp [hx]) (fun _ hv => hv) ?_ fun c hc => Or.inl hc
    rintro pending he
    cases he
    exact ⟨⟨by simp, rfl, rfl⟩, fun a ha => by simp at ha⟩
  | vote a m hm hr => exact h.mono hrefl (fun _ hx => hx) (fun v hv => by simp [hv]) rfl
  | count p m hm pending hp =>
    refine h.setState rfl (fun _ hx => hx) (fun _ hv => hv) ?_ fun c hc => Or.inl hc
    rintro pending' he
    cases he
    exact ((h.pending p _ pending hp).count hch hm).mono (fun _ hx => hx) fun _ hv => hv
  | choose p m hm pending hp hmaj =>
    refine h.setState rfl (fun _ hx => hx) (fun _ hv => hv) (fun _ he => by cases he) fun c hc => ?_
    rcases List.mem_append.mp hc with hc | hc
    · exact Or.inl hc
    obtain ⟨pid, -, rfl⟩ := List.mem_map.mp hc
    obtain ⟨⟨h1, h2, h3⟩, h4⟩ := (h.pending p _ pending hp).count hch hm
    refine Or.inr ⟨⟨pending.phase2a, h1, h2, h3, rfl⟩, _, ⟨fun a ha => ?_, ?_⟩, fun a ha => (h4 a ha).2⟩
    · exact List.mem_toFinset.mpr (h4 a ha).1
    · rw [card_pids, ← h.majority p]; exact hmaj

/-! ### All of it -/

structure Inv (n : ℕ) (s : Synod) : Prop where
  acceptor : AcceptorInv n s
  channel : ChannelInv n s
  proxy : ProxyInv n s

/-- **The invariants hold in every reachable state.** -/
theorem inv_of_reachable {n : ℕ} {s : Synod} (h : (machine n).Reachable s) : Inv n s := by
  refine h.invariant ⟨acceptorInv_init n, channelInv_init n, proxyInv_init n⟩ fun s e t _ hi hs => ?_
  have hm := step_move hs
  exact ⟨hi.acceptor.move hm, hi.channel.move hi.acceptor hm, hi.proxy.move hi.channel hm⟩

/-! ### Majorities of answers -/

/-- The acceptors that answered. -/
def voters (values : List Phase1b) : Finset ℕ := (values.map (·.acceptorIndex)).toFinset

theorem mem_voters {values : List Phase1b} {a : ℕ} :
    a ∈ voters values ↔ ∃ b ∈ values, b.acceptorIndex = a := by
  simp [voters]

/-- Enough answers of different acceptors are those of a majority. -/
theorem isMajority_voters {n : ℕ} {s : Synod} {values : List Phase1b} (hi : Inv n s)
    (hnodup : (values.map (·.acceptorIndex)).Nodup) (hmaj : n / 2 + 1 ≤ values.length)
    (hanswer : ∀ b ∈ values, ∃ pr ∈ s.promises, pr.phase1b = b) :
    IsMajority (pids n).toFinset (voters values) := by
  refine ⟨fun a ha => ?_, ?_⟩
  · obtain ⟨b, hb, rfl⟩ := mem_voters.mp ha
    obtain ⟨pr, hpr, rfl⟩ := hanswer b hb
    exact List.mem_toFinset.mpr (hi.acceptor.promise pr hpr).mem
  · rw [card_pids, voters, List.toFinset_card_of_nodup hnodup, List.length_map]
    exact hmaj

end OmniPaxosBench.MultiPaxos.Synod
