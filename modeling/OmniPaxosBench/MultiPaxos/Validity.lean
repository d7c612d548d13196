import OmniPaxosBench.MultiPaxos.SlotAllocation
import OmniPaxosBench.MultiPaxos.SynodAgreement

/-! # Multi-Paxos: chosen values were assigned to their slot

A value is assigned to a slot once, by the leader that makes a `Phase2a` of a client batch or of a
noop. From then on it travels: over a proxy leader to the acceptors, from their votes into the answers
of phase 1, and by `safeValue` into the `Phase2a`s of later rounds and other leaders. `Assigned` is
what stays true of it on the way. `ReplicaInv` follows the chosen values into the logs of the replicas
and into the replies to the clients. -/

namespace OmniPaxosBench.MultiPaxos

open OmniPaxosBench.Lib

/-! ### The log of a replica -/

namespace Replica

variable {r r' : Replica} {out : List ReplicaOut} {e : ReplicaEvent}

theorem replies_data {value : CommandBatchOrNoop} {resp : ProposalResp} (h : resp ∈ r.replies value) :
    ∃ batch, value = .commandBatch batch ∧ resp.data ∈ batch := by
  unfold replies at h
  split_ifs at h
  · cases value with
    | commandBatch batch =>
      obtain ⟨data, hd, rfl⟩ := List.mem_map.mp h
      exact ⟨batch, rfl, hd⟩
    | noop => cases h
  · cases h

theorem not_toClient_announce {m : ProposalResp} : .toClient m ∉ r.announce := by
  unfold announce
  dsimp only
  split_ifs <;> simp

/-- The loop leaves the log alone and replies with data of its entries. -/
theorem executeLogLoop_spec (fuel : ℕ) (r : Replica) :
    (r.executeLogLoop fuel).1.log = r.log ∧
    (∀ m, .toClient m ∉ (r.executeLogLoop fuel).2.1) ∧
    ∀ resp ∈ (r.executeLogLoop fuel).2.2, ∃ k batch,
      r.log.get k = some (.commandBatch batch) ∧ resp.data ∈ batch := by
  induction fuel generalizing r with
  | zero => exact ⟨rfl, by simp [executeLogLoop], by simp [executeLogLoop]⟩
  | succ fuel ih =>
    unfold executeLogLoop
    split
    · exact ⟨rfl, by simp, by simp⟩
    · next value hget =>
      obtain ⟨h1, h2, h3⟩ := ih { r with executedWatermark := r.executedWatermark + 1 }
      refine ⟨h1, fun m hm => ?_, fun resp hresp => ?_⟩
      · rcases List.mem_append.mp hm with hm | hm
        · exact not_toClient_announce hm
        · exact h2 m hm
      · rcases List.mem_append.mp hresp with hresp | hresp
        · obtain ⟨batch, rfl, hd⟩ := replies_data hresp
          exact ⟨_, batch, hget, hd⟩
        · exact h3 resp hresp

/-- **A replica replies with what it was told is chosen**: the entries of its log and the data of its
replies come from the old log or from the `Chosen` message at hand. -/
theorem handle_spec (h : r.handle e = some (r', out)) :
    (∀ k v, r'.log.get k = some v → r.log.get k = some v ∨ e = .chosen ⟨k, v⟩) ∧
    ∀ resp, .toClient resp ∈ out → ∃ k batch, r'.log.get k = some (.commandBatch batch) ∧
      resp.data ∈ batch := by
  cases e with
  | chosen m =>
    unfold handle handleChosen at h
    dsimp only at h
    split at h
    · cases h; exact ⟨fun k v hv => Or.inl hv, by simp⟩
    · obtain ⟨log, hput, h⟩ := Option.map_eq_some_iff.mp h
      obtain rfl := BufferMap.eq_put_of_checkedPut hput
      have hspec := executeLogLoop_spec
        (r.log.put m.slot m.commandBatchOrNoop).buffer.length
        { r with log := r.log.put m.slot m.commandBatchOrNoop, numChosen := r.numChosen + 1 }
      obtain ⟨r₁, out₁, resps, heq⟩ : ∃ r₁ out₁ resps, executeLog
          { r with log := r.log.put m.slot m.commandBatchOrNoop, numChosen := r.numChosen + 1 } =
          (r₁, out₁, resps) := ⟨_, _, _, rfl⟩
      rw [heq] at h
      simp only [executeLog] at heq
      rw [heq] at hspec
      obtain ⟨hlog, hnone, hdata⟩ := hspec
      -- the recover timer is started or stopped; the log and the messages are the same
      have hres : r'.log = r₁.log ∧ out = out₁ ++ resps.map .toClient := by
        split_ifs at h
        all_goals cases h
        all_goals refine ⟨?_, rfl⟩
        all_goals first | rfl | (unfold resetRecoverTimer stopRecoverTimer; split <;> rfl) |
          (unfold stopRecoverTimer; split <;> rfl)
      rw [hres.1, hres.2, hlog]
      refine ⟨fun k v hv => ?_, fun resp hresp => ?_⟩
      · rcases BufferMap.get_put hv with ⟨rfl, rfl⟩ | hv
        · exact Or.inr rfl
        · exact Or.inl hv
      · rcases List.mem_append.mp hresp with hresp | hresp
        · exact absurd hresp (hnone resp)
        · obtain ⟨resp', hmem, heq'⟩ := List.mem_map.mp hresp
          cases heq'
          exact hdata resp hmem
  | indication leader => cases h; exact ⟨fun k v hv => Or.inl hv, by simp⟩
  | timeout id =>
    obtain ⟨-, -, heq⟩ := Option.map_eq_some_iff.mp h
    cases heq
    exact ⟨fun k v hv => Or.inl hv, by simp [recover]⟩
  | partition pe =>
    obtain ⟨s, -, heq⟩ := Option.map_eq_some_iff.mp h
    cases heq
    exact ⟨fun k v hv => Or.inl hv, by simp⟩

end Replica

/-! ### The leaders -/

/-- The three places that hand a `Phase2a` over. -/
theorem Leader.Move.source {l l' : Leader} {e : LeaderEvent} {out : List LeaderOut} {o : Origin}
    {m : Phase2a} (hmove : Move l e l' out) (hm : .phase2a o m ∈ out) :
    o = .clientBatch ∨
    (o = .noopFlush ∧ ∃ id, e = .timeout id ∧ l.timers.callbackOf id = some .noopFlush) ∨
    (o = .recovered ∧ ∃ b order, e = .phase1b b order ∧ l.Completes b ∧
      HashMap.Enumerates order (l.insertPhase1b b).phase1bs ∧
      m.commandBatchOrNoop = safeValue (l.valuesWith b order) m.slot) := by
  cases hmove with
  | quiet _ _ _ frame round state nextSlot phase1bs resend watermark timers outs =>
    rcases outs _ hm with hnote | ⟨pid, p, he, -⟩
    · cases hnote
    · cases he
  | retire => cases hm
  | follow => cases hm
  | collect => cases hm
  | campaign _ _ _ base frame hbase round state watermark phase1bs resend timers outs =>
    obtain ⟨pid, he⟩ := outs _ hm
    cases he
  | complete b order _ _ frame completes enum round state watermark nextSlot resend timers notes
      proposals =>
    rcases (proposals _ _ hm).kind with ⟨ho, -, -, -, hval⟩ | ⟨ho, -⟩
    · exact Or.inr (Or.inr ⟨ho, b, order, rfl, completes, enum, hval⟩)
    · exact Or.inl ho
  | propose _ _ origin value cause =>
    cases List.mem_singleton.mp hm
    rcases cause with ⟨ho, -⟩ | cause
    · exact Or.inl ho
    · exact Or.inr (Or.inl cause)

/-- The noop-flush timer proposes noops. -/
theorem Leader.noop_of_noopFlush {l l' : Leader} {id : ℕ} {out : List LeaderOut} {o : Origin}
    {m : Phase2a} (hcb : l.timers.callbackOf id = some .noopFlush)
    (h : l.handle (.timeout id) = some (l', out)) (hm : .phase2a o m ∈ out) :
    m.commandBatchOrNoop = .noop := by
  simp only [handle, handleTimeout, Timers.fire, hcb, Option.map_some, Option.some.injEq,
    noopFlush, proposeNext, Prod.mk.injEq] at h
  rw [← h.2, List.mem_singleton, LeaderOut.phase2a.injEq] at hm
  rw [hm.2]

/-- `Chosen` messages stay sent. -/
theorem Synod.mem_chosen_step {n : ℕ} {u v : Synod} {e : SynodEvent} (h : u.step n e = some v)
    {c : ChosenSent} (hc : c ∈ u.chosen) : c ∈ v.chosen := by
  have hmove := step_move h
  cases hmove with
  | choose => exact List.mem_append_left _ hc
  | _ => exact hc

namespace System

/-- The value is a noop, or a leader assigned it to the slot when it processed a client batch. -/
def Assigned (n : ℕ) (s : System) (slot : ℕ) (value : CommandBatchOrNoop) : Prop :=
  value = .noop ∨ ∃ i ∈ pids n, ∃ m, .phase2a .clientBatch m ∈ s.leaderOuts i ∧ m.slot = slot ∧
    m.commandBatchOrNoop = value

/-- Every proposal carries a value assigned to its slot. -/
def TellsAssigned (n : ℕ) (s : System) : Prop :=
  ∀ i ∈ pids n, ∀ o m, .phase2a o m ∈ s.leaderOuts i → s.Assigned n m.slot m.commandBatchOrNoop

/-- The logs and the replies of the replicas hold chosen values. -/
structure ReplicaInv (s : System) : Prop where
  log : ∀ i k v, (s.replica i).log.get k = some v → ∃ c ∈ s.synod.chosen, c.chosen = ⟨k, v⟩
  replies : ∀ i resp, .toClient resp ∈ s.replicaOuts i → ∃ c ∈ s.synod.chosen, ∃ batch,
    c.chosen.commandBatchOrNoop = .commandBatch batch ∧ resp.data ∈ batch

variable {n : ℕ} {options : ReplicaOptions} {s t : System} {e : SystemEvent}

theorem Assigned.setLeader {i : ℕ} {l : Leader} {out : List LeaderOut} {slot : ℕ}
    {value : CommandBatchOrNoop} (h : s.Assigned n slot value) :
    (s.setLeader i l out).Assigned n slot value := by
  rcases h with rfl | ⟨j, hj, m, hm, hrest⟩
  · exact Or.inl rfl
  · exact Or.inr ⟨j, hj, m, mem_leaderOuts_setLeader.mpr (Or.inl hm), hrest⟩

/-- A value that was proposed to an acceptor was assigned. -/
theorem TellsAssigned.proposed (ht : TellsAssigned n s) (h : Inv n s) {p : ℕ} {m : Phase2a}
    (hm : (p, m) ∈ s.synod.proposals) : s.Assigned n m.slot m.commandBatchOrNoop := by
  obtain ⟨hp, x, hx, o, rfl⟩ := h.proposals p m hm
  exact ht p hp o m hx

/-- **Recovered values**: what `safeValue` takes from the answers of a majority was assigned to the
slot. -/
theorem TellsAssigned.safeValue (ht : TellsAssigned n s) (h : Inv n s) (hu : Synod.Inv n s.synod)
    {F : Promise → Prop} {p : Phase1a} {values : List Phase1b} (hq : Quorum n s.synod F p values)
    (slot : ℕ) : s.Assigned n slot (Leader.safeValue values slot) := by
  by_cases hrep : ∃ b ∈ values, ∃ i ∈ b.info, i.slot = slot
  · obtain ⟨b, hb, i, hi, rfl, hval, -⟩ := Leader.safeValue_reported hrep
    obtain ⟨pr, hpr, rfl, -⟩ := hq.answer b hb
    have hvoted := ((hu.acceptor.promise pr hpr).sound i hi).2
    obtain ⟨q, m, hm, hslot, -, hv⟩ := hvoted.proposed hu
    rw [hval, ← hslot, ← hv]
    exact ht.proposed h hm
  · have hnone : (values.flatMap (·.info)).filter (fun x => x.slot = slot) = [] := by
      refine List.eq_nil_iff_forall_not_mem.mpr fun i hi => hrep ?_
      obtain ⟨⟨b, hb, hib⟩, hs⟩ := Leader.mem_slotInfos.mp hi
      exact ⟨b, hb, i, hib, hs⟩
    left
    simp only [Leader.safeValue, hnone, maxBy]

/-- What leader `i` hands over in one step was assigned, before or in this step. -/
theorem TellsAssigned.move (ht : TellsAssigned n s) (h : Inv n s) (hu : Synod.Inv n s.synod) {i : ℕ}
    (hi : i ∈ pids n) {le : LeaderEvent} {l : Leader} {out : List LeaderOut}
    (hin : s.LeaderInput n i le) (hl : (s.leader i).handle le = some (l, out)) {o : Origin}
    {m : Phase2a} (hm : .phase2a o m ∈ out) :
    (s.setLeader i l out).Assigned n m.slot m.commandBatchOrNoop := by
  have hmove := Leader.handle_move ((h.history i hi).one_le hi) hl
  rcases hmove.source hm with rfl | ⟨-, id, rfl, hcb⟩ | ⟨-, b, order, rfl, hc, henum, hval⟩
  · exact Or.inr ⟨i, hi, m, mem_leaderOuts_setLeader.mpr (Or.inr ⟨rfl, hm⟩), rfl, rfl⟩
  · exact Or.inl (Leader.noop_of_noopFlush hcb hl hm)
  · obtain ⟨p, -, -, -, hq⟩ := quorum_of_completes h hu hi hin hc henum
    rw [hval]
    exact (ht.safeValue h hu hq m.slot).setLeader

theorem TellsAssigned.step (ht : TellsAssigned n s) (h : Inv n s) (hu : Synod.Inv n s.synod)
    (hstep : s.step n e = some t) : TellsAssigned n t := by
  rcases step_cases hstep with ⟨i, le, l, out, -, hi, hin, hl, rfl⟩ | ⟨se, u, -, -, -, rfl⟩ |
    ⟨i, re, r, out, -, -, -, -, rfl⟩
  · intro j hj o m hm
    rcases mem_leaderOuts_setLeader.mp hm with hold | ⟨rfl, hnew⟩
    · exact (ht j hj o m hold).setLeader
    · exact ht.move h hu hi hin hl hnew
  · exact ht
  · exact ht

theorem tellsAssigned_of_reachable (h : (machine n options).Reachable s) : TellsAssigned n s := by
  refine h.invariant (P := TellsAssigned n) (fun i hi o m hm => ?_) fun s e t hr hs hstep => ?_
  · rcases Leader.onStart_cases hi _ rfl with ⟨-, heq⟩ | ⟨-, heq⟩
    · change _ ∈ (Leader.new i (pids n)).onStart.2 at hm
      rw [heq] at hm
      obtain ⟨pid, he⟩ := Leader.mem_sendPhase1a hm
      cases he
    · change _ ∈ (Leader.new i (pids n)).onStart.2 at hm
      rw [heq] at hm
      cases hm
  · exact hs.step (inv_of_reachable hr) (Synod.inv_of_reachable (synod_reachable hr)) hstep

/-- **Validity**: a chosen value was assigned to its slot. -/
theorem assigned_of_chosen (h : (machine n options).Reachable s) {c : ChosenSent}
    (hc : c ∈ s.synod.chosen) : s.Assigned n c.chosen.slot c.chosen.commandBatchOrNoop := by
  have hu := Synod.inv_of_reachable (synod_reachable h)
  obtain ⟨⟨m, hm, hslot, -, hval⟩, -⟩ := hu.proxy.chosen c hc
  rw [← hslot, ← hval]
  exact (tellsAssigned_of_reachable h).proposed (inv_of_reachable h) hm

/-! ### The replicas -/

theorem ReplicaInv.step (h : ReplicaInv s) (hstep : s.step n e = some t) : ReplicaInv t := by
  rcases step_cases hstep with ⟨i, le, l, out, -, -, -, -, rfl⟩ | ⟨se, u, -, -, hu, rfl⟩ |
    ⟨i, re, r, out, -, -, hin, hr, rfl⟩
  · exact ⟨h.log, h.replies⟩
  · constructor
    · intro i k v hv
      obtain ⟨c, hc, heq⟩ := h.log i k v hv
      exact ⟨c, Synod.mem_chosen_step hu hc, heq⟩
    · intro i resp hresp
      obtain ⟨c, hc, hrest⟩ := h.replies i resp hresp
      exact ⟨c, Synod.mem_chosen_step hu hc, hrest⟩
  · obtain ⟨hlog, hresp⟩ := Replica.handle_spec hr
    have hnew : ∀ k v, r.log.get k = some v → ∃ c ∈ s.synod.chosen, c.chosen = ⟨k, v⟩ := by
      intro k v hv
      rcases hlog k v hv with hv | rfl
      · exact h.log i k v hv
      · obtain ⟨c, hc, -, heq⟩ := hin
        exact ⟨c, hc, heq⟩
    constructor
    · intro j k v hv
      by_cases hji : j = i
      · subst hji
        simp only [setReplica, Function.update_self] at hv
        exact hnew k v hv
      · simp only [setReplica, Function.update_of_ne hji] at hv
        exact h.log j k v hv
    · intro j resp hmem
      by_cases hji : j = i
      · subst hji
        simp only [setReplica, Function.update_self] at hmem
        rcases List.mem_append.mp hmem with hmem | hmem
        · exact h.replies j resp hmem
        · obtain ⟨k, batch, hk, hd⟩ := hresp resp hmem
          obtain ⟨c, hc, heq⟩ := hnew k _ hk
          exact ⟨c, hc, batch, by rw [heq], hd⟩
      · simp only [setReplica, Function.update_of_ne hji] at hmem
        exact h.replies j resp hmem

theorem replicaInv_of_reachable (h : (machine n options).Reachable s) : ReplicaInv s := by
  refine h.invariant (P := ReplicaInv) ⟨fun i k v hv => ?_, fun i resp hresp => ?_⟩
    fun _ _ _ _ hs hstep => hs.step hstep
  · simp [machine, init, Replica.new] at hv
  · simp [machine, init] at hresp

end System

end OmniPaxosBench.MultiPaxos
