import OmniPaxosBench.MultiPaxos.System

/-! # Multi-Paxos: what handled messages leave behind

Without simulated partitions every message a handler is to send goes out (`Dispatched`): an open slot
and round has been sent to all acceptors and lacks a majority of answers, and a closed one has been
announced to all replicas. What a handled message does is never undone: a proxy leader does not forget
a slot and round (`Known`), an acceptor that has handled a `Phase2a` has voted for it or has left its
round (`Answered`), and an answer is counted or no longer needed (`Counted`). So a `Phase2a` whose
messages have all been handled is chosen, unless too many acceptors have left its round
(`Dispatched.announced`). -/

namespace OmniPaxosBench.MultiPaxos

open OmniPaxosBench.Lib

/-- No simulated partition at the acceptors and proxy leaders. -/
def SynodEvent.Unpartitioned : SynodEvent → Prop
  | .acceptorPartition _ _ | .proxyLeaderPartition _ _ => False
  | .phase1a _ _ | .propose _ _ | .phase2a _ _ | .phase2b _ _ => True

instance : ∀ e : SynodEvent, Decidable e.Unpartitioned
  | .acceptorPartition _ _ | .proxyLeaderPartition _ _ => isFalse id
  | .phase1a _ _ | .propose _ _ | .phase2a _ _ | .phase2b _ _ => isTrue trivial

/-- A `Phase2b` counts if its slot and round is open, and closes it if it completes the majority. -/
theorem ProxyLeader.handlePhase2b_outcome (p : ProxyLeader) (b : Phase2b) :
    ((∀ pending, p.states.lookup ⟨b.slot, b.round⟩ ≠ some (.pending pending)) ∧
        p.handlePhase2b b = (p, [])) ∨
      ∃ pending, p.states.lookup ⟨b.slot, b.round⟩ = some (.pending pending) ∧
        ((HashMap.len (pending.phase2bs.insert b.acceptorIndex b) < p.majority ∧
            p.handlePhase2b b = (p.setState ⟨b.slot, b.round⟩
              (.pending ⟨pending.phase2a, pending.phase2bs.insert b.acceptorIndex b⟩), [])) ∨
          p.handlePhase2b b = (p.setState ⟨b.slot, b.round⟩ .done,
            (p.connected p.replicas).map fun pid =>
              (pid, ⟨b.slot, pending.phase2a.commandBatchOrNoop⟩))) := by
  unfold handlePhase2b
  split
  · next h => exact Or.inl ⟨fun _ => by simp [h], rfl⟩
  · next h => exact Or.inl ⟨fun _ => by simp [h], rfl⟩
  · next pending h =>
    refine Or.inr ⟨pending, h, ?_⟩
    dsimp only
    split_ifs with hfew
    · exact Or.inl ⟨hfew, rfl⟩
    · exact Or.inr rfl

theorem ProxyLeader.handlePhase2a_frame (p : ProxyLeader) (m : Phase2a) :
    (p.handlePhase2a m).1.disconnectedPeers = p.disconnectedPeers ∧
      (p.handlePhase2a m).1.replicas = p.replicas := by
  rcases handlePhase2a_cases p m with h | ⟨-, h⟩ <;> rw [h] <;> exact ⟨rfl, rfl⟩

theorem ProxyLeader.handlePhase2b_frame (p : ProxyLeader) (b : Phase2b) :
    (p.handlePhase2b b).1.disconnectedPeers = p.disconnectedPeers ∧
      (p.handlePhase2b b).1.replicas = p.replicas := by
  rcases handlePhase2b_outcome p b with ⟨-, h⟩ | ⟨pending, -, ⟨-, h⟩ | h⟩ <;> rw [h] <;>
    exact ⟨rfl, rfl⟩

namespace Synod

variable {n a p : ℕ} {s t : Synod} {e : SynodEvent} {k : SlotRound}

/-! ### One slot and round at a proxy leader -/

/-- What proxy leader `p` knows of `k`. -/
def slotState (s : Synod) (p : ℕ) (k : SlotRound) : Option ProxyState := (s.proxyLeader p).states.lookup k

/-- The effect of an event on `k` at proxy leader `p`: none, the slot and round is opened, an answer is
counted, or a majority closes it. -/
inductive SlotMove (s t : Synod) (p : ℕ) (k : SlotRound) : SynodEvent → Prop
  | same (e : SynodEvent) (state : t.slotState p k = s.slotState p k) : SlotMove s t p k e
  | opened (m : Phase2a) (key : k = ⟨m.slot, m.round⟩) (before : s.slotState p k = none)
      (state : t.slotState p k = some (.pending ⟨m, ∅⟩))
      (sent : ∀ a ∈ (s.proxyLeader p).connected (s.proxyLeader p).acceptors, (a, m) ∈ t.toAcceptors) :
      SlotMove s t p k (.propose p m)
  | counted (b : Phase2b) (pending : Pending) (key : k = ⟨b.slot, b.round⟩)
      (before : s.slotState p k = some (.pending pending))
      (few : HashMap.len (pending.phase2bs.insert b.acceptorIndex b) < (s.proxyLeader p).majority)
      (state : t.slotState p k =
        some (.pending ⟨pending.phase2a, pending.phase2bs.insert b.acceptorIndex b⟩)) :
      SlotMove s t p k (.phase2b p b)
  | closed (b : Phase2b) (pending : Pending) (key : k = ⟨b.slot, b.round⟩)
      (before : s.slotState p k = some (.pending pending)) (state : t.slotState p k = some .done)
      (sent : ∀ i ∈ (s.proxyLeader p).connected (s.proxyLeader p).replicas,
        ⟨p, k.round, i, k.slot, pending.phase2a.commandBatchOrNoop⟩ ∈ t.chosen) :
      SlotMove s t p k (.phase2b p b)

/-- A change of one entry of one proxy leader, seen at `k`. -/
theorem slotState_setState {q : ℕ} {k' : SlotRound} {st : ProxyState} :
    (Function.update s.proxyLeader q ((s.proxyLeader q).setState k' st) p).states.lookup k =
      if p = q ∧ k = k' then some st else s.slotState p k := by
  by_cases hp : p = q
  · subst hp
    rw [Function.update_self, ProxyLeader.lookup_setState]
    simp [slotState]
  · rw [Function.update_of_ne hp, if_neg fun h => hp h.1]
    rfl

theorem slotMove_propose (s : Synod) (q : ℕ) (m : Phase2a) (p : ℕ) (k : SlotRound) :
    SlotMove s (s.stepPropose q m) p k (.propose q m) := by
  unfold stepPropose
  rcases ProxyLeader.handlePhase2a_cases (s.proxyLeader q) m with h | ⟨hnone, h⟩
  · rw [h]
    exact .same _ (by simp [slotState])
  · rw [h]
    by_cases hk : p = q ∧ k = ⟨m.slot, m.round⟩
    · obtain ⟨rfl, rfl⟩ := hk
      refine .opened m rfl hnone (slotState_setState.trans (if_pos ⟨rfl, rfl⟩)) fun a ha => ?_
      exact List.mem_append_right _ (List.mem_map.mpr ⟨a, ha, rfl⟩)
    · exact .same _ (slotState_setState.trans (if_neg hk))

theorem slotMove_phase2b (s : Synod) (q : ℕ) (b : Phase2b) (p : ℕ) (k : SlotRound) :
    SlotMove s (s.stepPhase2b q b) p k (.phase2b q b) := by
  unfold stepPhase2b
  rcases ProxyLeader.handlePhase2b_outcome (s.proxyLeader q) b with ⟨-, h⟩ | ⟨pending, hpending, h⟩
  · rw [h]
    exact .same _ (by simp [slotState])
  · by_cases hk : p = q ∧ k = ⟨b.slot, b.round⟩
    · obtain ⟨rfl, rfl⟩ := hk
      rcases h with ⟨hfew, h⟩ | h
      · rw [h]
        exact .counted b pending rfl hpending hfew (slotState_setState.trans (if_pos ⟨rfl, rfl⟩))
      · rw [h]
        refine .closed b pending rfl hpending (slotState_setState.trans (if_pos ⟨rfl, rfl⟩)) fun i hi => ?_
        exact List.mem_append_right _ (List.mem_map.mpr ⟨_, List.mem_map.mpr ⟨i, hi, rfl⟩, rfl⟩)
    · rcases h with ⟨-, h⟩ | h
      · rw [h]
        exact .same _ (slotState_setState.trans (if_neg hk))
      · rw [h]
        exact .same _ (slotState_setState.trans (if_neg hk))

/-- **Every step is one of these at every slot and round.** -/
theorem slotMove_of_step (h : s.step n e = some t) (p : ℕ) (k : SlotRound) : SlotMove s t p k e := by
  cases e with
  | phase1a a m =>
    simp only [step] at h
    split_ifs at h
    obtain ⟨⟨acc, out⟩, -, rfl⟩ := Option.map_eq_some_iff.mp h
    exact .same _ rfl
  | propose q m =>
    simp only [step] at h
    split_ifs at h
    cases h
    exact slotMove_propose s q m p k
  | phase2a a m =>
    simp only [step] at h
    split_ifs at h
    obtain ⟨⟨acc, out⟩, -, rfl⟩ := Option.map_eq_some_iff.mp h
    exact .same _ rfl
  | phase2b q b =>
    simp only [step] at h
    split_ifs at h
    cases h
    exact slotMove_phase2b s q b p k
  | acceptorPartition a e =>
    obtain ⟨part, -, rfl⟩ := Option.map_eq_some_iff.mp h
    exact .same _ rfl
  | proxyLeaderPartition q e =>
    obtain ⟨part, -, rfl⟩ := Option.map_eq_some_iff.mp h
    refine .same _ ?_
    by_cases hp : p = q
    · subst hp
      simp [slotState]
    · simp [slotState, Function.update_of_ne hp]

/-! ### What grows -/

/-- Nothing sent is taken back, and no acceptor returns to a lower round. -/
structure Grows (s t : Synod) : Prop where
  toAcceptors : ∀ x ∈ s.toAcceptors, x ∈ t.toAcceptors
  acceptorOuts : ∀ x ∈ s.acceptorOuts, x ∈ t.acceptorOuts
  votes : ∀ x ∈ s.votes, x ∈ t.votes
  chosen : ∀ x ∈ s.chosen, x ∈ t.chosen
  round : ∀ a, (s.acceptor a).round ≤ (t.acceptor a).round

theorem round_le_update {acc : Acceptor} (h : (s.acceptor a).round ≤ acc.round) (b : ℕ) :
    (s.acceptor b).round ≤ (Function.update s.acceptor a acc b).round := by
  by_cases hb : b = a
  · subst hb
    rwa [Function.update_self]
  · rw [Function.update_of_ne hb]

theorem grows_of_move (hm : Move n s t) : Grows s t := by
  cases hm with
  | refuse a acc out same nacks =>
    exact ⟨fun _ h => h, fun _ h => List.mem_append_left _ h, fun _ h => h, fun _ h => h,
      round_le_update same.2.1.ge⟩
  | promise a m ha hr b hb =>
    exact ⟨fun _ h => h, fun _ h => List.mem_append_left _ h, fun _ h => h, fun _ h => h,
      round_le_update hr⟩
  | propose p m =>
    exact ⟨fun _ h => List.mem_append_left _ h, fun _ h => h, fun _ h => h, fun _ h => h, fun _ => le_rfl⟩
  | vote a m hm hr =>
    exact ⟨fun _ h => h, fun _ h => List.mem_append_left _ h, fun _ h => List.mem_append_left _ h,
      fun _ h => h, round_le_update hr⟩
  | choose p m hm pending hp hmaj =>
    exact ⟨fun _ h => h, fun _ h => h, fun _ h => h, fun _ h => List.mem_append_left _ h, fun _ => le_rfl⟩
  | proxyQuiet | known | count =>
    exact ⟨fun _ h => h, fun _ h => h, fun _ h => h, fun _ h => h, fun _ => le_rfl⟩

/-! ### Effects that stay -/

/-- Proxy leader `p` knows the slot and round. -/
def Known (s : Synod) (p : ℕ) (k : SlotRound) : Prop := s.slotState p k ≠ none

/-- Acceptor `a` has voted for `m`, or has left its round. -/
def Answered (s : Synod) (a : ℕ) (m : Phase2a) : Prop := (a, m) ∈ s.votes ∨ m.round < (s.acceptor a).round

/-- Proxy leader `p` has counted the answer, or needs no more. -/
def Counted (s : Synod) (p : ℕ) (b : Phase2b) : Prop :=
  s.slotState p ⟨b.slot, b.round⟩ = some .done ∨
    ∃ pending, s.slotState p ⟨b.slot, b.round⟩ = some (.pending pending) ∧
      b.acceptorIndex ∈ pending.phase2bs.keys

theorem Known.step (h : s.Known p k) (hstep : s.step n e = some t) : t.Known p k := by
  unfold Known at h ⊢
  cases slotMove_of_step hstep p k with
  | same _ state => rwa [state]
  | opened m key before => exact absurd before h
  | counted b pending key before few state => simp [state]
  | closed b pending key before state => simp [state]

theorem Answered.step {m : Phase2a} (h : s.Answered a m) (hstep : s.step n e = some t) : t.Answered a m := by
  have hg := grows_of_move (step_move hstep)
  exact h.imp (hg.votes _) fun hlt => hlt.trans_le (hg.round a)

theorem Counted.step {b : Phase2b} (h : s.Counted p b) (hstep : s.step n e = some t) : t.Counted p b := by
  unfold Counted at h ⊢
  cases slotMove_of_step hstep p ⟨b.slot, b.round⟩ with
  | same _ state => rwa [state]
  | opened m key before => simp [before] at h
  | counted b' pending key before few state =>
    rcases h with h | ⟨pending', h, hmem⟩
    · simp [before] at h
    · rw [before] at h
      cases h
      refine Or.inr ⟨_, state, ?_⟩
      rw [HashMap.keys_insert]
      exact Finset.mem_insert_of_mem hmem
  | closed b' pending key before state => exact Or.inl state

theorem known_of_propose {m : Phase2a} (hstep : s.step n (.propose p m) = some t) :
    t.Known p ⟨m.slot, m.round⟩ := by
  simp only [step] at hstep
  split_ifs at hstep
  cases hstep
  unfold Known stepPropose
  rcases h : (s.proxyLeader p).states.lookup ⟨m.slot, m.round⟩ with _ | st
  · simp [ProxyLeader.handlePhase2a, h, slotState, ProxyLeader.lookup_setState]
  · simp [ProxyLeader.handlePhase2a, h, slotState]

theorem counted_of_phase2b {b : Phase2b} (hk : s.Known p ⟨b.slot, b.round⟩)
    (hstep : s.step n (.phase2b p b) = some t) : t.Counted p b := by
  simp only [step] at hstep
  split_ifs at hstep
  cases hstep
  unfold Counted stepPhase2b
  rcases ProxyLeader.handlePhase2b_outcome (s.proxyLeader p) b with ⟨hnot, h⟩ | ⟨pending, -, ⟨-, h⟩ | h⟩
  · rw [h]
    -- the slot and round is known and not open, so it is closed
    rcases hst : (s.proxyLeader p).states.lookup ⟨b.slot, b.round⟩ with _ | ⟨pending | _⟩
    · exact absurd hst hk
    · exact absurd hst (hnot pending)
    · exact Or.inl (by simp [slotState, hst])
  · rw [h]
    refine Or.inr ⟨_, slotState_setState.trans (if_pos ⟨rfl, rfl⟩), ?_⟩
    rw [HashMap.keys_insert]
    exact Finset.mem_insert_self _ _
  · rw [h]
    exact Or.inl (slotState_setState.trans (if_pos ⟨rfl, rfl⟩))

/-! ### Without partitions -/

/-- Everything that is to be sent is sent. -/
structure Dispatched (n : ℕ) (s : Synod) : Prop where
  acceptors : ∀ a, (s.acceptor a).disconnectedPeers = []
  proxyLeaders : ∀ p, (s.proxyLeader p).disconnectedPeers = []
  replicas : ∀ p, (s.proxyLeader p).replicas = pids n
  pending : ∀ p k pending, s.slotState p k = some (.pending pending) →
    (∀ a ∈ pids n, (a, pending.phase2a) ∈ s.toAcceptors) ∧ HashMap.len pending.phase2bs < n / 2 + 1
  done : ∀ p k, s.slotState p k = some .done →
    ∃ value, ∀ i ∈ pids n, ⟨p, k.round, i, k.slot, value⟩ ∈ s.chosen
  proposals : ∀ p m, (p, m) ∈ s.proposals → s.Known p ⟨m.slot, m.round⟩
  chosen : ∀ c ∈ s.chosen, ∀ i ∈ pids n, { c with replica := i } ∈ s.chosen
  votes : ∀ a m, (a, m) ∈ s.votes → .toProxyLeader m.src ⟨a, m.slot, m.round⟩ ∈ s.acceptorOuts
  phase2b : ∀ p b, .toProxyLeader p b ∈ s.acceptorOuts → ∃ m, (b.acceptorIndex, m) ∈ s.votes ∧
    m.src = p ∧ m.slot = b.slot ∧ m.round = b.round

theorem dispatched_init (n : ℕ) : Dispatched n (init n) := by
  refine ⟨fun _ => rfl, fun _ => rfl, fun _ => rfl, fun p k pending h => ?_, fun p k h => ?_,
    fun p m h => ?_, fun c h => ?_, fun a m h => ?_, fun p b h => ?_⟩
  · simp [init, slotState, ProxyLeader.new] at h
  · simp [init, slotState, ProxyLeader.new] at h
  all_goals simp [init] at h

/-- An update that leaves a field of the entry alone. -/
theorem field_update {β γ : Type} (field : β → γ) {f : ℕ → β} {i : ℕ} {v : β} (h : field v = field (f i))
    (j : ℕ) : field (Function.update f i v j) = field (f j) := by
  by_cases hj : j = i
  · subst hj
    rw [Function.update_self, h]
  · rw [Function.update_of_ne hj]

/-- No step but a simulated partition changes who is connected. -/
theorem connected_step (he : e.Unpartitioned) (hstep : s.step n e = some t) :
    (∀ a, (t.acceptor a).disconnectedPeers = (s.acceptor a).disconnectedPeers) ∧
      ∀ p, (t.proxyLeader p).disconnectedPeers = (s.proxyLeader p).disconnectedPeers ∧
        (t.proxyLeader p).replicas = (s.proxyLeader p).replicas := by
  cases e with
  | phase1a a m =>
    simp only [step] at hstep
    split_ifs at hstep
    obtain ⟨⟨acc, out⟩, hacc, rfl⟩ := Option.map_eq_some_iff.mp hstep
    refine ⟨field_update (fun x : Acceptor => x.disconnectedPeers) ?_, fun _ => ⟨rfl, rfl⟩⟩
    rcases Acceptor.handlePhase1a_cases hacc with ⟨rfl, -⟩ | ⟨-, rfl, -⟩ <;> rfl
  | propose p m =>
    simp only [step] at hstep
    split_ifs at hstep
    cases hstep
    have h := ProxyLeader.handlePhase2a_frame (s.proxyLeader p) m
    exact ⟨fun _ => rfl, fun q => ⟨field_update (fun x : ProxyLeader => x.disconnectedPeers) h.1 q,
      field_update ProxyLeader.replicas h.2 q⟩⟩
  | phase2a a m =>
    simp only [step] at hstep
    split_ifs at hstep
    obtain ⟨⟨acc, out⟩, hacc, rfl⟩ := Option.map_eq_some_iff.mp hstep
    refine ⟨field_update (fun x : Acceptor => x.disconnectedPeers) ?_, fun _ => ⟨rfl, rfl⟩⟩
    rcases Acceptor.handlePhase2a_cases hacc with ⟨rfl, -⟩ | ⟨-, rfl, -⟩ <;> rfl
  | phase2b p b =>
    simp only [step] at hstep
    split_ifs at hstep
    cases hstep
    have h := ProxyLeader.handlePhase2b_frame (s.proxyLeader p) b
    exact ⟨fun _ => rfl, fun q => ⟨field_update (fun x : ProxyLeader => x.disconnectedPeers) h.1 q,
      field_update ProxyLeader.replicas h.2 q⟩⟩
  | acceptorPartition a e => exact absurd he id
  | proxyLeaderPartition p e => exact absurd he id

/-- A connected proxy leader sends to everyone. -/
theorem Dispatched.connected (h : Dispatched n s) (p : ℕ) (l : List ℕ) : (s.proxyLeader p).connected l = l := by
  rw [ProxyLeader.connected, h.proxyLeaders p]
  simp

theorem Dispatched.pending_step (h : Dispatched n s) (hi : Inv n s) (hstep : s.step n e = some t)
    {pending : Pending} (hp : t.slotState p k = some (.pending pending)) :
    (∀ a ∈ pids n, (a, pending.phase2a) ∈ t.toAcceptors) ∧ HashMap.len pending.phase2bs < n / 2 + 1 := by
  have hg := grows_of_move (step_move hstep)
  cases slotMove_of_step hstep p k with
  | same _ state =>
    obtain ⟨h1, h2⟩ := h.pending p k pending (state ▸ hp)
    exact ⟨fun a ha => hg.toAcceptors _ (h1 a ha), h2⟩
  | opened m key before state sent =>
    cases state.symm.trans hp
    refine ⟨fun a ha => sent a ?_, ?_⟩
    · rw [h.connected, hi.channel.acceptors]
      exact ha
    · rw [HashMap.len, Finmap.keys_empty, Finset.card_empty]
      omega
  | counted b before' key before few state =>
    cases state.symm.trans hp
    exact ⟨fun a ha => hg.toAcceptors _ ((h.pending p k before' before).1 a ha), hi.proxy.majority p ▸ few⟩
  | closed b before' key before state => exact absurd (state.symm.trans hp) (by simp)

theorem Dispatched.done_step (h : Dispatched n s) (hstep : s.step n e = some t)
    (hp : t.slotState p k = some .done) :
    ∃ value, ∀ i ∈ pids n, ⟨p, k.round, i, k.slot, value⟩ ∈ t.chosen := by
  have hg := grows_of_move (step_move hstep)
  cases slotMove_of_step hstep p k with
  | same _ state =>
    obtain ⟨value, hvalue⟩ := h.done p k (state ▸ hp)
    exact ⟨value, fun i hi => hg.chosen _ (hvalue i hi)⟩
  | opened m key before state => exact absurd (state.symm.trans hp) (by simp)
  | counted b pending key before few state => exact absurd (state.symm.trans hp) (by simp)
  | closed b pending key before state sent =>
    refine ⟨_, fun i hi => sent i ?_⟩
    rw [h.connected, h.replicas]
    exact hi

/-- The records of a step. -/
theorem Dispatched.records_step (h : Dispatched n s) (hi : Inv n s) (hstep : s.step n e = some t) :
    (∀ c ∈ t.chosen, ∀ i ∈ pids n, { c with replica := i } ∈ t.chosen) ∧
    (∀ a m, (a, m) ∈ t.votes → .toProxyLeader m.src ⟨a, m.slot, m.round⟩ ∈ t.acceptorOuts) ∧
    ∀ p b, .toProxyLeader p b ∈ t.acceptorOuts → ∃ m, (b.acceptorIndex, m) ∈ t.votes ∧
      m.src = p ∧ m.slot = b.slot ∧ m.round = b.round := by
  cases step_move hstep with
  | refuse a acc out same nacks =>
    refine ⟨h.chosen, fun a m hm => List.mem_append_left _ (h.votes a m hm), fun p b hb => ?_⟩
    rcases List.mem_append.mp hb with hb | hb
    · exact h.phase2b p b hb
    · obtain ⟨_, _, he⟩ := nacks _ hb
      cases he
  | promise a m ha hr b hb =>
    refine ⟨h.chosen, fun a m hm => List.mem_append_left _ (h.votes a m hm), fun p c hc => ?_⟩
    rcases List.mem_append.mp hc with hc | hc
    · exact h.phase2b p c hc
    · cases List.mem_singleton.mp hc
  | vote a m hm hr =>
    refine ⟨h.chosen, fun b v hv => ?_, fun p b hb => ?_⟩
    · rcases List.mem_append.mp hv with hv | hv
      · exact List.mem_append_left _ (h.votes b v hv)
      · cases List.mem_singleton.mp hv
        refine List.mem_append_right _ (List.mem_singleton.mpr ?_)
        rw [hi.acceptor.index]
    · rcases List.mem_append.mp hb with hb | hb
      · obtain ⟨v, hv, hrest⟩ := h.phase2b p b hb
        exact ⟨v, List.mem_append_left _ hv, hrest⟩
      · cases List.mem_singleton.mp hb
        refine ⟨m, List.mem_append_right _ (List.mem_singleton.mpr ?_), rfl, rfl, rfl⟩
        rw [hi.acceptor.index]
  | choose p m hm pending hp hmaj =>
    refine ⟨fun c hc i hi => ?_, h.votes, h.phase2b⟩
    rcases List.mem_append.mp hc with hc | hc
    · exact List.mem_append_left _ (h.chosen c hc i hi)
    · obtain ⟨j, -, rfl⟩ := List.mem_map.mp hc
      refine List.mem_append_right _ (List.mem_map.mpr ⟨i, ?_, rfl⟩)
      rw [h.connected, h.replicas]
      exact hi
  | proxyQuiet | known | propose | count => exact ⟨h.chosen, h.votes, h.phase2b⟩

theorem Dispatched.proposals_step (h : Dispatched n s) (hstep : s.step n e = some t) {m : Phase2a}
    (hm : (p, m) ∈ t.proposals) : t.Known p ⟨m.slot, m.round⟩ := by
  rcases (System.synod_step_records hstep).2.2.1 _ hm with hm | ⟨q, m', rfl, heq, -⟩
  · exact (h.proposals p m hm).step hstep
  · cases heq
    exact known_of_propose hstep

theorem Dispatched.step (h : Dispatched n s) (hi : Inv n s) (he : e.Unpartitioned)
    (hstep : s.step n e = some t) : Dispatched n t := by
  obtain ⟨hacc, hproxy⟩ := connected_step he hstep
  obtain ⟨hchosen, hvotes, hphase2b⟩ := h.records_step hi hstep
  exact
    { acceptors := fun a => (hacc a).trans (h.acceptors a)
      proxyLeaders := fun p => (hproxy p).1.trans (h.proxyLeaders p)
      replicas := fun p => (hproxy p).2.trans (h.replicas p)
      pending := fun p k pending hp => h.pending_step hi hstep hp
      done := fun p k hp => h.done_step hstep hp
      proposals := fun p m hm => h.proposals_step hstep hm
      chosen := hchosen
      votes := hvotes
      phase2b := hphase2b }

theorem answered_of_phase2a (h : Dispatched n s) {m : Phase2a}
    (hstep : s.step n (.phase2a a m) = some t) : t.Answered a m := by
  simp only [step] at hstep
  split_ifs at hstep
  obtain ⟨⟨acc, out⟩, hacc, rfl⟩ := Option.map_eq_some_iff.mp hstep
  simp only [Acceptor.handlePhase2a, h.acceptors a, List.not_mem_nil, if_false] at hacc
  split_ifs at hacc with hlow hleader hproxy
  · cases hacc
    exact Or.inr (by simpa using hlow)
  · cases hacc
    exact Or.inl (List.mem_append_right _ (List.mem_singleton.mpr rfl))

/-- An answer comes from a vote for something the proxy leader knows, if proposals carry the proxy leader
they were handed to. -/
theorem Dispatched.known_of_phase2b (h : Dispatched n s) (hi : Inv n s)
    (hsrc : ∀ p m, (p, m) ∈ s.proposals → m.src = p) {b : Phase2b}
    (hb : .toProxyLeader p b ∈ s.acceptorOuts) : s.Known p ⟨b.slot, b.round⟩ := by
  obtain ⟨m, hm, rfl, hslot, hround⟩ := h.phase2b p b hb
  obtain ⟨-, q, hq⟩ := hi.channel.toAcceptors _ m (hi.channel.votes _ m hm)
  rw [hsrc q m hq, ← hslot, ← hround]
  exact h.proposals q m hq

/-- **A `Phase2a` whose messages have been handled is chosen and announced to every replica**, unless too
many acceptors have left its round. -/
theorem Dispatched.announced (h : Dispatched n s) (hi : Inv n s)
    (hsrc : ∀ p m, (p, m) ∈ s.proposals → m.src = p) (hk : s.Known p k)
    (hanswered : ∀ a m, (a, m) ∈ s.toAcceptors → s.Answered a m)
    (hcounted : ∀ p b, .toProxyLeader p b ∈ s.acceptorOuts → s.Counted p b) {Q : Finset ℕ}
    (hQ : IsMajority (pids n).toFinset Q) (hround : ∀ a ∈ Q, (s.acceptor a).round ≤ k.round) :
    ∃ value, ∀ i ∈ pids n, ⟨p, k.round, i, k.slot, value⟩ ∈ s.chosen := by
  rcases hst : s.slotState p k with _ | ⟨pending | _⟩
  · exact absurd hst hk
  · -- every acceptor of the majority has voted, and its answer is counted
    exfalso
    obtain ⟨hsent, hfew⟩ := h.pending p k pending hst
    obtain ⟨⟨hprop, hslot, hr⟩, -⟩ := hi.proxy.pending p k pending hst
    have hkeys : Q ⊆ pending.phase2bs.keys := by
      intro a ha
      have hmem : a ∈ pids n := List.mem_toFinset.mp (hQ.1 ha)
      have hvote : (a, pending.phase2a) ∈ s.votes := by
        rcases hanswered a _ (hsent a hmem) with hv | hlt
        · exact hv
        · have := hround a ha
          omega
      have hc := hcounted _ _ (h.votes a _ hvote)
      rw [hsrc p _ hprop] at hc
      unfold Counted at hc
      simp only [hslot, hr] at hc
      rcases hc with hdone | ⟨pending', hpending', hin⟩
      · cases hst.symm.trans hdone
      · cases hst.symm.trans hpending'
        exact hin
    have hcard : n / 2 + 1 ≤ HashMap.len pending.phase2bs := by
      have h1 := Finset.card_le_card hkeys
      have h2 := hQ.2
      rw [card_pids] at h2
      exact h2.trans h1
    omega
  · exact h.done p k hst

end Synod

end OmniPaxosBench.MultiPaxos
