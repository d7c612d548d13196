import OmniPaxosBench.Lib.CommonLog
import OmniPaxosBench.Lib.Stairs
import OmniPaxosBench.MultiPaxos.Agreement
import OmniPaxosBench.MultiPaxos.ReplicaLog
import OmniPaxosBench.MultiPaxos.Validity

/-! # Multi-Paxos: the replicas execute one log

Each replica of the system runs as the single replica of `ReplicaRun`, on the events of the system that
are its own (`project`); the messages it receives were sent to it, so they carry chosen values. With
agreement on these the executed logs of all replicas, at all times of a run, are prefixes of one log. -/

namespace OmniPaxosBench.MultiPaxos

open OmniPaxosBench.Lib

namespace ReplicaRun

variable {pid : ℕ} {options : ReplicaOptions} {numReplicas : ℕ} {leaders : List ℕ}
  {s t : ReplicaRun} {e : ReplicaEvent}

/-- The commands of an executed slot. -/
def commands (c : Chosen) : List ProposalType :=
  match c.commandBatchOrNoop with
  | .commandBatch batch => batch
  | .noop => []

/-- The data a replica has replied with. -/
def repliedData (s : ReplicaRun) : List ProposalType := (s.sent.filterMap replyOf).map (·.data)

theorem replies_sublist (r : Replica) (c : Chosen) :
    ((r.replies c.commandBatchOrNoop).map (·.data)).Sublist (commands c) := by
  unfold Replica.replies commands
  split_ifs
  · cases c.commandBatchOrNoop with
    | commandBatch batch =>
      dsimp only
      rw [List.map_map]
      exact (List.map_id batch).symm ▸ List.Sublist.refl _
    | noop => exact List.nil_sublist _
  · exact List.nil_sublist _

/-- A replica replies to the commands it has executed, in their order and to each at most once. -/
theorem repliedData_sublist (h : (machine pid options numReplicas leaders).Reachable s) :
    s.repliedData.Sublist (s.executed.flatMap commands) := by
  refine h.invariant (P := fun s => s.repliedData.Sublist (s.executed.flatMap commands))
    (List.Sublist.refl _) fun s e t hr hs hstep => ?_
  obtain ⟨r, out, hres, rfl⟩ := step_eq_some hstep
  unfold repliedData at hs ⊢
  rw [List.filterMap_append, List.map_append, List.flatMap_append]
  refine hs.append ?_
  rcases Replica.handle_cases (stored_of_reachable hr).recoverTimer hres with
    ⟨m, v, rfl, -, -, rfl, -⟩ | ⟨m, n, rfl, -, hacc⟩ | ⟨hne, -, hout, -⟩
  · exact List.nil_sublist _
  · rw [replies_of_accepts hacc]
    simp only [chosenOf, List.flatMap_cons, List.flatMap_nil, List.append_nil]
    induction s.replica.executedBy m with
    | nil => exact List.Sublist.refl _
    | cons c cs ih =>
      rw [List.flatMap_cons, List.flatMap_cons, List.map_append]
      exact (replies_sublist _ c).append ih
  · have hnone : out.filterMap replyOf = [] := by
      rcases hout with rfl | rfl
      · rfl
      · exact filterMap_replyOf_recover _
    rw [hnone]
    exact List.nil_sublist _

/-- The executed log only grows. -/
theorem executed_prefix {es : List ReplicaEvent}
    (h : (machine pid options numReplicas leaders).run s es = some t) : s.executed <+: t.executed := by
  induction es generalizing s with
  | nil => cases h; exact List.prefix_refl _
  | cons e es ih =>
    rw [Machine.run_cons, Option.bind_eq_some_iff] at h
    obtain ⟨u, hu, hrest⟩ := h
    obtain ⟨r, out, -, rfl⟩ := step_eq_some hu
    exact (List.prefix_append _ _).trans (ih hrest)

theorem Stored.length_executed (h : Stored s) : s.executed.length = s.replica.executedWatermark := by
  have := congrArg List.length h.order
  rwa [List.length_map, List.length_range] at this

theorem Stored.inOrder (h : Stored s) : InOrder Chosen.slot s.executed := by
  unfold InOrder
  rw [h.length_executed]
  exact h.order

theorem Stored.received_of_executed (h : Stored s) {c : Chosen} (hc : c ∈ s.executed) : c ∈ s.received :=
  (first_eq_some (h.values c hc)).1

end ReplicaRun

namespace System

variable {n : ℕ} {options : ReplicaOptions} {s t : System} {e : SystemEvent} {i j : ℕ}

/-- The event of replica `i`, if it is one. -/
def replicaEvent (i : ℕ) : SystemEvent → Option ReplicaEvent
  | .replica j e => if j = i then some e else none
  | _ => none

/-- What replica `i` has gone through in a run of the system. -/
def history (n : ℕ) (options : ReplicaOptions) (i : ℕ) (es : List SystemEvent) : Option ReplicaRun :=
  (ReplicaRun.machine i options n (pids n)).run (ReplicaRun.machine i options n (pids n)).init
    (es.filterMap (replicaEvent i))

/-- `r` is replica `i` with its history. -/
structure Records (s : System) (i : ℕ) (r : ReplicaRun) : Prop where
  replica : r.replica = s.replica i
  sent : r.sent = s.replicaOuts i
  received : ∀ m ∈ r.received, ∃ c ∈ s.synod.chosen, c.chosen = m

theorem Records.other {r : ReplicaRun} (h : Records s i r) (hreplica : t.replica i = s.replica i)
    (houts : t.replicaOuts i = s.replicaOuts i) (hchosen : ∀ c ∈ s.synod.chosen, c ∈ t.synod.chosen) :
    Records t i r := by
  refine ⟨h.replica.trans hreplica.symm, h.sent.trans houts.symm, fun m hm => ?_⟩
  obtain ⟨c, hc, heq⟩ := h.received m hm
  exact ⟨c, hchosen c hc, heq⟩

/-- A step of the system is one of replica `i`, or does not touch it. -/
theorem Records.step {r : ReplicaRun} (h : Records s i r) (options : ReplicaOptions) (hstep : s.step n e = some t) :
    (replicaEvent i e = none ∧ Records t i r) ∨ ∃ re r', replicaEvent i e = some re ∧
      (ReplicaRun.machine i options n (pids n)).step r re = some r' ∧ Records t i r' := by
  rcases step_cases hstep with ⟨j, le, l, out, rfl, -, -, -, rfl⟩ | ⟨se, u, rfl, -, hu, rfl⟩ |
    ⟨j, re, r', out, rfl, -, hin, hr, rfl⟩
  · exact Or.inl ⟨rfl, h.other rfl rfl fun _ hc => hc⟩
  · exact Or.inl ⟨rfl, h.other rfl rfl fun _ hc => Synod.mem_chosen_step hu hc⟩
  · by_cases hji : j = i
    · subst hji
      have hstep' : (ReplicaRun.machine j options n (pids n)).step r re = some ⟨r', r.received ++
          ReplicaRun.chosenOf re, r.executed ++ (ReplicaRun.chosenOf re).flatMap r.replica.executedBy,
          r.sent ++ out⟩ := by
        simp only [ReplicaRun.machine, h.replica, hr, Option.map_some]
      refine Or.inr ⟨re, _, if_pos rfl, hstep', ?_⟩
      refine ⟨?_, ?_, fun m hm => ?_⟩
      · simp only [setReplica, Function.update_self]
      · simp only [setReplica, Function.update_self, h.sent]
      · rcases List.mem_append.mp hm with hm | hm
        · exact h.received m hm
        · cases re with
          | chosen m' =>
            obtain rfl := List.mem_singleton.mp hm
            obtain ⟨c, hc, -, heq⟩ := hin
            exact ⟨c, hc, heq⟩
          | indication | timeout | partition => cases hm
    · refine Or.inl ⟨if_neg hji, h.other ?_ ?_ fun _ hc => hc⟩
      · exact Function.update_of_ne (Ne.symm hji) ..
      · exact Function.update_of_ne (Ne.symm hji) ..

/-- **Projection**: each replica of the system runs as one on its own, and receives what was chosen. -/
theorem project {es : List SystemEvent} {r : ReplicaRun} (h : Records s i r)
    (hrun : (machine n options).run s es = some t) :
    ∃ r', (ReplicaRun.machine i options n (pids n)).run r (es.filterMap (replicaEvent i)) = some r' ∧
      Records t i r' := by
  induction es generalizing s r with
  | nil => cases hrun; exact ⟨r, rfl, h⟩
  | cons e es ih =>
    rw [Machine.run_cons, Option.bind_eq_some_iff] at hrun
    obtain ⟨s1, h1, h2⟩ := hrun
    rcases h.step options h1 with ⟨hnone, hnext⟩ | ⟨re, r1, hsome, hr1, hnext⟩
    · obtain ⟨r', hr', hrec⟩ := ih hnext h2
      exact ⟨r', by rw [List.filterMap_cons_none hnone]; exact hr', hrec⟩
    · obtain ⟨r', hr', hrec⟩ := ih hnext h2
      refine ⟨r', ?_, hrec⟩
      rw [List.filterMap_cons_some hsome, Machine.run_cons, hr1]
      exact hr'

theorem records_init (i : ℕ) :
    Records (machine n options).init i (ReplicaRun.machine i options n (pids n)).init :=
  ⟨rfl, rfl, fun _ hm => absurd hm List.not_mem_nil⟩

theorem history_of_run {es : List SystemEvent}
    (hrun : (machine n options).run (machine n options).init es = some s) (i : ℕ) :
    ∃ r, history n options i es = some r ∧ Records s i r := project (records_init i) hrun

/-- **State machine replication.** In a run all of whose steps are sound there is one log, of values that
clients' batches or noops were assigned to, such that what any replica has executed at any time of the
run is a prefix of it; and a replica replies to commands it has executed, in the order of the log and to
each at most once. -/
theorem replicas_execute_one_log {es : List SystemEvent}
    (hrun : (machine n options).run (machine n options).init es = some s)
    (hsound : (machine n options).AllSteps (Sound n) (machine n options).init es) :
    ∃ log : List Chosen, log.map Chosen.slot = List.range log.length ∧
      (∀ c ∈ log, s.Assigned n c.slot c.commandBatchOrNoop) ∧
      ∀ i ∈ pids n, ∀ es₁ es₂ s₁, es = es₁ ++ es₂ →
        (machine n options).run (machine n options).init es₁ = some s₁ →
        ∃ r, history n options i es₁ = some r ∧ r.replica = s₁.replica i ∧ r.sent = s₁.replicaOuts i ∧
          r.executed <+: log ∧ r.repliedData.Sublist (r.executed.flatMap ReplicaRun.commands) := by
  have hreach := Machine.ReachableUnder.init.run hsound hrun
  have hinv := inv_of_reachable hreach.reachable
  have hsynod := Synod.inv_of_reachable (synod_reachable hreach.reachable)
  have hlawful := (agreeInv_of_reachable hreach).lawful hinv
  choose r hr hrec using history_of_run hrun
  have hst : ∀ i, ReplicaRun.Stored (r i) := fun i =>
    ReplicaRun.stored_of_reachable (Machine.reachable_of_run (hr i))
  have hchosen : ∀ i, ∀ c ∈ (r i).executed, ∃ c' ∈ s.synod.chosen, c'.chosen = c := fun i c hc =>
    (hrec i).received c ((hst i).received_of_executed hc)
  have hagree : ∀ i j, AgreeOn Chosen.slot (r i).executed (r j).executed := by
    intro i j a ha b hb hslot
    obtain ⟨c, hc, rfl⟩ := hchosen i a ha
    obtain ⟨c', hc', rfl⟩ := hchosen j b hb
    have hvalue := Synod.chosen_eq_of_lawful hsynod hlawful hc hc' hslot
    cases hx : c.chosen with
    | mk slot value =>
      cases hy : c'.chosen with
      | mk slot' value' =>
        rw [hx, hy] at hslot hvalue
        rw [show slot = slot' from hslot, show value = value' from hvalue]
  obtain ⟨log, horder, hsource, hprefix⟩ := exists_commonLog ((pids n).map fun i => (r i).executed)
    (fun l hl => by obtain ⟨i, -, rfl⟩ := List.mem_map.mp hl; exact (hst i).inOrder)
    (fun l hl l' hl' => by
      obtain ⟨i, -, rfl⟩ := List.mem_map.mp hl
      obtain ⟨j, -, rfl⟩ := List.mem_map.mp hl'
      exact hagree i j)
  refine ⟨log, horder, fun c hc => ?_, fun i hi es₁ es₂ s₁ hes hrun₁ => ?_⟩
  · rcases hsource with rfl | hmem
    · cases hc
    · obtain ⟨i, -, rfl⟩ := List.mem_map.mp hmem
      obtain ⟨c', hc', rfl⟩ := hchosen i c hc
      exact assigned_of_chosen hreach.reachable hc'
  · obtain ⟨r₁, hr₁, hrec₁⟩ := history_of_run hrun₁ i
    refine ⟨r₁, hr₁, hrec₁.replica, hrec₁.sent, ?_, ?_⟩
    · have hlater := hr i
      rw [history, hes, List.filterMap_append, Machine.run_append] at hlater
      rw [history] at hr₁
      rw [hr₁, Option.bind_some] at hlater
      exact (ReplicaRun.executed_prefix hlater).trans
        ( hprefix _ (List.mem_map.mpr ⟨i, hi, rfl⟩))
    · exact ReplicaRun.repliedData_sublist (Machine.reachable_of_run hr₁)

/-- Both replicas handle what was chosen in slot 0, the first one twice. -/
def bothExecute : List SystemEvent :=
  [.replica 1 (.indication 1), .replica 1 (.chosen ⟨0, .commandBatch [[7]]⟩),
    .replica 2 (.chosen ⟨0, .commandBatch [[7]]⟩), .replica 1 (.chosen ⟨0, .commandBatch [[7]]⟩)]

theorem bothExecute_one_log : ∃ s, (machine 2 everySlot).run (machine 2 everySlot).init
      (firstBatch ++ secondBatch ++ chosenAgain ++ bothExecute) = some s ∧
    (s.replica 1).executedWatermark = 1 ∧ (s.replica 2).executedWatermark = 1 ∧
    .toClient ⟨[7], 1, 0⟩ ∈ s.replicaOuts 1 ∧ ∃ log : List Chosen, ∀ i ∈ pids 2, ∃ r,
      history 2 everySlot i (firstBatch ++ secondBatch ++ chosenAgain ++ bothExecute) = some r ∧
      r.replica = s.replica i ∧ r.executed <+: log := by
  obtain ⟨s, hrun, h1, h2, hreply⟩ : ∃ s, (machine 2 everySlot).run (machine 2 everySlot).init
      (firstBatch ++ secondBatch ++ chosenAgain ++ bothExecute) = some s ∧
      (s.replica 1).executedWatermark = 1 ∧ (s.replica 2).executedWatermark = 1 ∧
      .toClient ⟨[7], 1, 0⟩ ∈ s.replicaOuts 1 := ⟨_, rfl, by decide, by decide, by decide⟩
  have hsound : (machine 2 everySlot).AllSteps (Sound 2) (machine 2 everySlot).init
      (firstBatch ++ secondBatch ++ chosenAgain ++ bothExecute) := by decide
  obtain ⟨log, -, -, hlog⟩ := replicas_execute_one_log hrun hsound
  refine ⟨s, hrun, h1, h2, hreply, log, fun i hi => ?_⟩
  obtain ⟨r, hr, hreplica, -, hprefix, -⟩ := hlog i hi _ [] s (List.append_nil _).symm hrun
  exact ⟨r, hr, hreplica, hprefix⟩

end System

end OmniPaxosBench.MultiPaxos
