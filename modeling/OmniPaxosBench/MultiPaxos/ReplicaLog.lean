import OmniPaxosBench.Lib.Machine
import OmniPaxosBench.Lib.Prefix
import OmniPaxosBench.MultiPaxos.Replica

/-! # Multi-Paxos: a replica executes the chosen log

`Chosen` messages reach a replica in any order, with gaps and duplicates. The runs of a replica are
followed together with the messages it has handled, the slots it has executed and what it has sent
(`ReplicaRun`).

* `executeLogLoop_spec`: what the loop of `execute_log` executes, announces and replies.
* `Stored`: the log holds the first value received for each slot, the counters are the least slot not
  received and the number of slots received, and the executed slots are those below the watermark.
* `stored_of_run`: this holds in every run, from which the results about runs follow. -/

namespace OmniPaxosBench.MultiPaxos

open OmniPaxosBench.Lib

namespace Replica

/-! ### The loop of `execute_log` -/

/-- The slots the loop executes, with their values; the code ignores the actual execution. -/
def executions : ℕ → Replica → List Chosen
  | 0, _ => []
  | fuel + 1, r =>
    match r.log.get r.executedWatermark with
    | none => []
    | some value => ⟨r.executedWatermark, value⟩ ::
        executions fuel { r with executedWatermark := r.executedWatermark + 1 }

/-- **The loop executes `n` slots** from the watermark on. -/
structure Executes (r : Replica) (fuel n : ℕ) : Prop where
  result : r.executeLogLoop fuel = ({ r with executedWatermark := r.executedWatermark + n },
    (List.range' r.executedWatermark n).flatMap fun k =>
      announce { r with executedWatermark := k + 1 },
    (r.executions fuel).flatMap fun c => r.replies c.commandBatchOrNoop)
  slots : (r.executions fuel).map Chosen.slot = List.range' r.executedWatermark n
  values : ∀ c ∈ r.executions fuel, r.log.get c.slot = some c.commandBatchOrNoop

theorem executeLogLoop_executes (fuel : ℕ) (r : Replica) : ∃ n, r.Executes fuel n := by
  induction fuel generalizing r with
  | zero => exact ⟨0, rfl, rfl, by simp [executions]⟩
  | succ fuel ih =>
    cases hget : r.log.get r.executedWatermark with
    | none =>
      have hnil : r.executions (fuel + 1) = [] := by rw [executions, hget]
      refine ⟨0, ?_, by rw [hnil]; rfl, by simp [hnil]⟩
      rw [executeLogLoop, hget, hnil]
      rfl
    | some value =>
      obtain ⟨n, hres, hslots, hvalues⟩ := ih { r with executedWatermark := r.executedWatermark + 1 }
      have hcons : r.executions (fuel + 1) = ⟨r.executedWatermark, value⟩ ::
          executions fuel { r with executedWatermark := r.executedWatermark + 1 } := by
        rw [executions, hget]
      refine ⟨n + 1, ?_, ?_, ?_⟩
      · rw [executeLogLoop, hget, hcons, List.range'_succ, List.flatMap_cons, List.flatMap_cons]
        dsimp only
        rw [hres]
        simp only [Nat.add_assoc, Nat.add_comm 1 n]
        rfl
      · rw [hcons, List.map_cons, hslots, List.range'_succ]
      · rw [hcons]
        intro c hc
        rcases List.mem_cons.mp hc with rfl | hc
        · exact hget
        · exact hvalues c hc

/-- A loop that has stopped at an empty slot does not use more fuel. -/
theorem executeLogLoop_succ {fuel : ℕ} {r : Replica}
    (h : r.log.get (r.executeLogLoop fuel).1.executedWatermark = none) :
    r.executeLogLoop (fuel + 1) = r.executeLogLoop fuel := by
  induction fuel generalizing r with
  | zero =>
    have hget : r.log.get r.executedWatermark = none := h
    simp only [executeLogLoop, hget]
  | succ fuel ih =>
    rw [executeLogLoop]
    cases hget : r.log.get r.executedWatermark with
    | none => rw [executeLogLoop, hget]
    | some value =>
      rw [executeLogLoop, hget] at h ⊢
      dsimp only at h ⊢
      rw [ih h]

/-- **Termination**: with the fuel of `executeLog` or more the loop stops at the same empty slot. -/
theorem executeLogLoop_eq_executeLog (r : Replica) {fuel : ℕ} (h : r.log.buffer.length ≤ fuel) :
    r.executeLogLoop fuel = r.executeLog := by
  induction fuel, h using Nat.le_induction with
  | base => rfl
  | succ fuel _ ih =>
    rw [executeLogLoop_succ, ih]
    rw [ih]
    exact (executeLog_stops r).2

/-- The slots that `handle_chosen` executes for a message. -/
def executedBy (r : Replica) (m : Chosen) : List Chosen :=
  match r.log.get m.slot with
  | some _ => []
  | none =>
    let r := { r with log := r.log.put m.slot m.commandBatchOrNoop, numChosen := r.numChosen + 1 }
    r.executions r.log.buffer.length

/-! ### One message -/

/-- **A message for a new slot**: `n` slots are executed, and the timer is started if there is a gap
that is new or has moved. -/
structure Accepts (r r' : Replica) (m : Chosen) (out : List ReplicaOut) (n : ℕ) : Prop where
  replica : r' = { r with
    log := r.log.put m.slot m.commandBatchOrNoop
    numChosen := r.numChosen + 1
    executedWatermark := r.executedWatermark + n
    timers := if r.numChosen + 1 ≠ r.executedWatermark + n ∧
        (r.numChosen ≠ r.executedWatermark → n ≠ 0) then r.timers.schedule () else r.timers }
  stops : r'.log.get r'.executedWatermark = none
  out : out = (List.range' r.executedWatermark n).flatMap (fun k =>
      announce { r' with executedWatermark := k + 1 }) ++
    ((r.executedBy m).flatMap fun c => r.replies c.commandBatchOrNoop).map .toClient
  slots : (r.executedBy m).map Chosen.slot = List.range' r.executedWatermark n
  values : ∀ c ∈ r.executedBy m, r'.log.get c.slot = some c.commandBatchOrNoop

/-- The end of `handle_chosen`: start, reset or stop the timer, given the states before the message and
after the log was executed. -/
def settleTimer (r r₂ : Replica) : Replica :=
  if r.numChosen ≠ r.executedWatermark then
    if r₂.numChosen ≠ r₂.executedWatermark then
      if r.executedWatermark ≠ r₂.executedWatermark then r₂.resetRecoverTimer else r₂
    else r₂.stopRecoverTimer
  else if r₂.numChosen ≠ r₂.executedWatermark then r₂.startRecoverTimer
  else r₂

/-- The handle of the timer is never kept, so nothing is cancelled. -/
theorem settleTimer_eq (r r₂ : Replica) (h : r₂.recoverTimer = none) : settleTimer r r₂ =
    { r₂ with timers := if r₂.numChosen ≠ r₂.executedWatermark ∧
        (r.numChosen ≠ r.executedWatermark → r.executedWatermark ≠ r₂.executedWatermark)
      then r₂.timers.schedule () else r₂.timers } := by
  have hstop : r₂.stopRecoverTimer = r₂ := by
    unfold stopRecoverTimer
    rw [h]
  unfold settleTimer resetRecoverTimer
  rw [hstop]
  split_ifs <;> first | rfl | (exfalso; tauto)

/-- A message for a new slot panics, or puts its value and executes the log. -/
theorem handleChosen_eq {r : Replica} {m : Chosen} (h : r.log.get m.slot = none) :
    r.handleChosen m = (r.log.checkedPut m.slot m.commandBatchOrNoop).map fun _ =>
      let x := executeLog
        { r with log := r.log.put m.slot m.commandBatchOrNoop, numChosen := r.numChosen + 1 }
      (r.settleTimer x.1, x.2.1 ++ x.2.2.map .toClient) := by
  unfold handleChosen settleTimer
  rw [h]
  dsimp only
  cases hput : r.log.checkedPut m.slot m.commandBatchOrNoop with
  | none => rfl
  | some log =>
    obtain rfl := BufferMap.eq_put_of_checkedPut hput
    rw [Option.map_some, Option.map_some]
    congr 1
    split_ifs <;> rfl

theorem handleChosen_old {r : Replica} {m : Chosen} {v : CommandBatchOrNoop}
    (h : r.log.get m.slot = some v) : r.handleChosen m = some (r, []) ∧ r.executedBy m = [] := by
  unfold handleChosen executedBy
  rw [h]
  exact ⟨rfl, rfl⟩

theorem handleChosen_new {r r' : Replica} {m : Chosen} {out : List ReplicaOut}
    (h : r.log.get m.slot = none) (ht : r.recoverTimer = none) (hres : r.handleChosen m = some (r', out)) :
    ∃ n, r.Accepts r' m out n := by
  have hby : r.executedBy m = executions (r.log.put m.slot m.commandBatchOrNoop).buffer.length
      { r with log := r.log.put m.slot m.commandBatchOrNoop, numChosen := r.numChosen + 1 } := by
    unfold executedBy
    rw [h]
  obtain ⟨n, hexec, hslots, hvalues⟩ := executeLogLoop_executes
    (r.log.put m.slot m.commandBatchOrNoop).buffer.length
    { r with log := r.log.put m.slot m.commandBatchOrNoop, numChosen := r.numChosen + 1 }
  have hstop := (executeLog_stops
    { r with log := r.log.put m.slot m.commandBatchOrNoop, numChosen := r.numChosen + 1 }).2
  have hloop : executeLog
      { r with log := r.log.put m.slot m.commandBatchOrNoop, numChosen := r.numChosen + 1 } = _ := hexec
  rw [hloop] at hstop
  rw [← hby] at hslots hvalues hloop
  rw [handleChosen_eq h, hloop] at hres
  obtain ⟨-, -, heq⟩ := Option.map_eq_some_iff.mp hres
  obtain ⟨rfl, rfl⟩ := Prod.mk.inj heq
  dsimp only
  have hset := settleTimer_eq r { r with
    log := r.log.put m.slot m.commandBatchOrNoop
    numChosen := r.numChosen + 1
    executedWatermark := r.executedWatermark + n } ht
  rw [hset]
  refine ⟨n, ?_, hstop, rfl, hslots, hvalues⟩
  congr 1
  simp

/-- What no event changes. -/
structure Frame (r r' : Replica) : Prop where
  index : r'.index = r.index
  options : r'.options = r.options
  numReplicas : r'.numReplicas = r.numReplicas
  leaders : r'.leaders = r.leaders
  currentRound : r'.currentRound = r.currentRound

/-- What only a `Chosen` message changes. -/
structure Idle (r r' : Replica) : Prop extends Frame r r' where
  log : r'.log = r.log
  executedWatermark : r'.executedWatermark = r.executedWatermark
  numChosen : r'.numChosen = r.numChosen
  recoverTimer : r'.recoverTimer = r.recoverTimer
  timers : r'.timers = r.timers

theorem Accepts.frame {r r' : Replica} {m : Chosen} {out : List ReplicaOut} {n : ℕ}
    (h : r.Accepts r' m out n) : Frame r r' := by
  rw [h.replica]
  exact ⟨rfl, rfl, rfl, rfl, rfl⟩

/-- **What one event can do.** -/
theorem handle_cases {r r' : Replica} {e : ReplicaEvent} {out : List ReplicaOut}
    (ht : r.recoverTimer = none) (h : r.handle e = some (r', out)) :
    (∃ m v, e = .chosen m ∧ r.log.get m.slot = some v ∧ r' = r ∧ out = [] ∧ r.executedBy m = []) ∨
    (∃ m n, e = .chosen m ∧ r.log.get m.slot = none ∧ r.Accepts r' m out n) ∨
    ((∀ m, e ≠ .chosen m) ∧ r.Idle r' ∧ (out = [] ∨ out = r.recover) ∧
      ((∀ p, e ≠ .partition p) → r'.toPartition = r.toPartition)) := by
  cases e with
  | chosen m =>
    have hres : r.handleChosen m = some (r', out) := h
    cases hget : r.log.get m.slot with
    | some v =>
      obtain ⟨heq, hby⟩ := handleChosen_old hget
      rw [heq, Option.some_inj, Prod.mk.injEq] at hres
      exact .inl ⟨m, v, rfl, hget, hres.1.symm, hres.2.symm, hby⟩
    | none =>
      obtain ⟨n, hacc⟩ := handleChosen_new hget ht hres
      exact .inr (.inl ⟨m, n, rfl, hget, hacc⟩)
  | indication leader =>
    cases h
    exact .inr (.inr ⟨by simp, ⟨⟨rfl, rfl, rfl, rfl, rfl⟩, rfl, rfl, rfl, rfl, rfl⟩, .inl rfl, fun _ => rfl⟩)
  | timeout id =>
    obtain ⟨-, -, heq⟩ := Option.map_eq_some_iff.mp h
    cases heq
    exact .inr (.inr ⟨by simp, ⟨⟨rfl, rfl, rfl, rfl, rfl⟩, rfl, rfl, rfl, rfl, rfl⟩, .inr rfl, fun _ => rfl⟩)
  | partition pe =>
    obtain ⟨s, -, heq⟩ := Option.map_eq_some_iff.mp h
    cases heq
    exact .inr (.inr ⟨by simp, ⟨⟨rfl, rfl, rfl, rfl, rfl⟩, rfl, rfl, rfl, rfl, rfl⟩, .inl rfl,
      fun hp => absurd rfl (hp pe)⟩)

end Replica

/-! ### Runs -/

/-- A replica with its history. -/
structure ReplicaRun where
  replica : Replica
  /-- The `Chosen` messages handled so far. -/
  received : List Chosen
  /-- The slots executed so far, with the values executed. -/
  executed : List Chosen
  sent : List ReplicaOut

namespace ReplicaRun

/-- The message an event hands to `handle_chosen`. -/
def chosenOf : ReplicaEvent → List Chosen
  | .chosen m => [m]
  | _ => []

/-- A fresh replica and everything that can happen to it. -/
def machine (pid : ℕ) (options : ReplicaOptions) (numReplicas : ℕ) (leaders : List ℕ) :
    Machine ReplicaRun ReplicaEvent where
  init := ⟨Replica.new pid options numReplicas leaders, [], [], []⟩
  step s e := (s.replica.handle e).map fun x =>
    { replica := x.1
      received := s.received ++ chosenOf e
      executed := s.executed ++ (chosenOf e).flatMap s.replica.executedBy
      sent := s.sent ++ x.2 }

/-- The slots received so far. -/
def slots (s : ReplicaRun) : Finset ℕ := (s.received.map Chosen.slot).toFinset

/-- The first message received for a slot. -/
def first (s : ReplicaRun) (slot : ℕ) : Option Chosen := s.received.find? fun m => m.slot = slot

variable {pid : ℕ} {options : ReplicaOptions} {numReplicas : ℕ} {leaders : List ℕ}
  {s t : ReplicaRun} {e : ReplicaEvent}

theorem chosenOf_eq_nil (h : ∀ m, e ≠ .chosen m) : chosenOf e = [] := by
  cases e with
  | chosen m => exact absurd rfl (h m)
  | _ => rfl

theorem step_eq_some (h : (machine pid options numReplicas leaders).step s e = some t) :
    ∃ r out, s.replica.handle e = some (r, out) ∧
      t = ⟨r, s.received ++ chosenOf e, s.executed ++ (chosenOf e).flatMap s.replica.executedBy,
        s.sent ++ out⟩ := by
  obtain ⟨⟨r, out⟩, hr, heq⟩ := Option.map_eq_some_iff.mp h
  exact ⟨r, out, hr, heq.symm⟩

theorem first_eq_some {slot : ℕ} {m : Chosen} (h : s.first slot = some m) :
    m ∈ s.received ∧ m.slot = slot := by
  have := List.find?_some h
  exact ⟨List.mem_of_find?_eq_some h, by simpa using this⟩

theorem mem_slots {slot : ℕ} : slot ∈ s.slots ↔ ∃ m ∈ s.received, m.slot = slot := by
  simp [slots]

theorem mem_slots_iff_first {slot : ℕ} : slot ∈ s.slots ↔ ∃ m, s.first slot = some m := by
  rw [mem_slots]
  constructor
  · rintro ⟨m, hm, hslot⟩
    cases hf : s.first slot with
    | some m' => exact ⟨m', rfl⟩
    | none => exact absurd hslot (by simpa using List.find?_eq_none.mp hf m hm)
  · rintro ⟨m, hm⟩
    exact ⟨m, first_eq_some hm⟩

/-- **What a replica has stored and executed.** -/
structure Stored (s : ReplicaRun) : Prop where
  recoverTimer : s.replica.recoverTimer = none
  watermark : s.replica.log.watermark = 0
  log : ∀ k, s.replica.log.get k = (s.first k).map Chosen.commandBatchOrNoop
  least : LeastMissing s.slots s.replica.executedWatermark
  count : s.replica.numChosen = s.slots.card
  order : s.executed.map Chosen.slot = List.range s.replica.executedWatermark
  values : ∀ c ∈ s.executed, s.first c.slot = some c

theorem Stored.get_eq_none (h : Stored s) {k : ℕ} : s.replica.log.get k = none ↔ k ∉ s.slots := by
  rw [h.log, Option.map_eq_none_iff, mem_slots_iff_first, not_exists, Option.eq_none_iff_forall_ne_some]

theorem stored_init : Stored (machine pid options numReplicas leaders).init := by
  refine ⟨rfl, rfl, fun k => BufferMap.get_new _ k, ?_, rfl, rfl, by simp [machine]⟩
  exact .intro (by simp [machine, slots]) fun k hk => absurd hk (Nat.not_lt_zero k)

theorem first_append (m : Chosen) (slot : ℕ) :
    List.find? (fun c => c.slot = slot) (s.received ++ [m]) =
      (s.first slot).or (if m.slot = slot then some m else none) := by
  rw [List.find?_append]
  congr 1
  by_cases h : m.slot = slot <;> simp [h]

theorem slots_append (m : Chosen) :
    ((s.received ++ [m]).map Chosen.slot).toFinset = insert m.slot s.slots := by
  rw [List.map_append, List.toFinset_append, Finset.union_comm]
  rfl

/-- A message for a slot that is stored. -/
theorem Stored.old (h : Stored s) {m : Chosen} {v : CommandBatchOrNoop}
    (hget : s.replica.log.get m.slot = some v) :
    Stored ⟨s.replica, s.received ++ [m], s.executed, s.sent⟩ := by
  have hold : m.slot ∈ s.slots := by
    by_contra hnot
    rw [h.get_eq_none.mpr hnot] at hget
    cases hget
  obtain ⟨m', hm'⟩ := mem_slots_iff_first.mp hold
  have hfirst : ∀ k, List.find? (fun c => c.slot = k) (s.received ++ [m]) = s.first k := by
    intro k
    rw [first_append]
    split_ifs with hk
    · rw [← hk, hm']
      rfl
    · exact Option.or_none
  have hslots : ((s.received ++ [m]).map Chosen.slot).toFinset = s.slots := by
    rw [slots_append]
    exact Finset.insert_eq_self.mpr hold
  refine ⟨h.recoverTimer, h.watermark, fun k => ?_, ?_, ?_, h.order, fun c hc => ?_⟩
  · rw [first, hfirst]
    exact h.log k
  · rw [slots, hslots]
    exact h.least
  · rw [slots, hslots]
    exact h.count
  · rw [first, hfirst]
    exact h.values c hc

/-- **A message for a new slot.** -/
theorem Stored.new (h : Stored s) {m : Chosen} {r : Replica} {out : List ReplicaOut} {n : ℕ}
    (hget : s.replica.log.get m.slot = none) (hacc : s.replica.Accepts r m out n) :
    Stored ⟨r, s.received ++ [m], s.executed ++ s.replica.executedBy m, s.sent ++ out⟩ := by
  have hnew : m.slot ∉ s.slots := h.get_eq_none.mp hget
  have hrlog : r.log = s.replica.log.put m.slot m.commandBatchOrNoop := by rw [hacc.replica]
  have hrw : r.executedWatermark = s.replica.executedWatermark + n := by rw [hacc.replica]
  have hlog : ∀ k, r.log.get k =
      (List.find? (fun c => c.slot = k) (s.received ++ [m])).map Chosen.commandBatchOrNoop := by
    intro k
    rw [hrlog, BufferMap.get_put_of_le (by rw [h.watermark]; exact Nat.zero_le _), first_append, h.log]
    by_cases hk : k = m.slot
    · have hnone : s.first m.slot = none := by
        rw [h.log, Option.map_eq_none_iff] at hget
        exact hget
      simp [hk, hnone]
    · simp [hk, Ne.symm hk]
  generalize ht : (⟨r, s.received ++ [m], s.executed ++ s.replica.executedBy m, s.sent ++ out⟩ :
    ReplicaRun) = t
  have hlog' : ∀ k, r.log.get k = (t.first k).map Chosen.commandBatchOrNoop := by
    rw [← ht]
    exact hlog
  have hslots' : t.slots = insert m.slot s.slots := by
    rw [← ht]
    exact slots_append m
  have hnone : ∀ k, r.log.get k = none ↔ k ∉ t.slots := by
    intro k
    rw [hlog', Option.map_eq_none_iff, mem_slots_iff_first, not_exists,
      Option.eq_none_iff_forall_ne_some]
  have hleast : LeastMissing t.slots r.executedWatermark := by
    refine .intro ((hnone _).mp hacc.stops) fun k hk => ?_
    by_contra hnot
    rcases Nat.lt_or_ge k s.replica.executedWatermark with hlt | hge
    · exact hnot (hslots' ▸ Finset.mem_insert_of_mem (h.least.mem_of_lt hlt))
    · have hin : k ∈ (s.replica.executedBy m).map Chosen.slot := by
        rw [hacc.slots, List.mem_range'_1]
        omega
      obtain ⟨c, hc, rfl⟩ := List.mem_map.mp hin
      rw [← hnone, hacc.values c hc] at hnot
      cases hnot
  have hvalues : ∀ c ∈ s.executed ++ s.replica.executedBy m, t.first c.slot = some c := by
    intro c hc
    rcases List.mem_append.mp hc with hc | hc
    · rw [← ht, first, first_append, h.values c hc]
      rfl
    · have hval := hacc.values c hc
      rw [hlog'] at hval
      obtain ⟨c', hc', hval⟩ := Option.map_eq_some_iff.mp hval
      have hslot := (first_eq_some hc').2
      obtain ⟨slot, value⟩ := c
      obtain ⟨slot', value'⟩ := c'
      dsimp only at hslot hval hc' ⊢
      rw [hc', hslot, hval]
  subst ht
  refine ⟨by rw [hacc.replica]; exact h.recoverTimer, ?_, hlog', hleast, ?_, ?_, hvalues⟩
  · rw [hrlog, BufferMap.put_watermark]
    exact h.watermark
  · rw [hslots', Finset.card_insert_of_notMem hnew, ← h.count, hacc.replica]
  · rw [List.map_append, h.order, hacc.slots, hrw, List.range_eq_range', List.range_eq_range']
    have happend := List.range'_append_1 (s := 0) (m := s.replica.executedWatermark) (n := n)
    rwa [Nat.zero_add] at happend

/-- **One event.** -/
theorem Stored.step (h : Stored s) (hstep : (machine pid options numReplicas leaders).step s e = some t) :
    Stored t := by
  obtain ⟨r, out, hr, rfl⟩ := step_eq_some hstep
  rcases Replica.handle_cases h.recoverTimer hr with ⟨m, v, rfl, hget, rfl, rfl, hby⟩ |
    ⟨m, n, rfl, hget, hacc⟩ | ⟨hne, hidle, -⟩
  · have hold := h.old hget
    simp only [chosenOf, List.flatMap_cons, List.flatMap_nil, hby, List.append_nil]
    exact ⟨hold.recoverTimer, hold.watermark, hold.log, hold.least, hold.count, hold.order, hold.values⟩
  · have hnew := h.new hget hacc
    simp only [chosenOf, List.flatMap_cons, List.flatMap_nil, List.append_nil]
    exact hnew
  · simp only [chosenOf_eq_nil hne, List.flatMap_nil, List.append_nil]
    refine ⟨by rw [hidle.recoverTimer]; exact h.recoverTimer, by rw [hidle.log]; exact h.watermark,
      fun k => by rw [hidle.log]; exact h.log k, ?_, ?_, ?_, h.values⟩
    · rw [hidle.executedWatermark]
      exact h.least
    · rw [hidle.numChosen]
      exact h.count
    · rw [hidle.executedWatermark]
      exact h.order

theorem stored_of_reachable (h : (machine pid options numReplicas leaders).Reachable s) : Stored s :=
  h.invariant (P := Stored) stored_init fun _ _ _ _ hs hstep => hs.step hstep

/-! ### What every run has executed -/

/-- The executed slots are the received ones below the watermark. -/
theorem Stored.executed_eq (h : Stored s) :
    s.executed = (List.range s.replica.executedWatermark).filterMap s.first := by
  rw [← h.order, List.filterMap_map]
  have hall : ∀ c ∈ s.executed, (s.first ∘ Chosen.slot) c = some c := h.values
  rw [List.filterMap_congr hall, List.filterMap_some]

/-- **Agreement**: replicas that have received the same messages, with one value for each slot, have
executed the same. -/
theorem Stored.agree (hs : Stored s) (ht : Stored t) (hsame : ∀ m, m ∈ s.received ↔ m ∈ t.received)
    (hone : ∀ m ∈ s.received, ∀ m' ∈ s.received, m.slot = m'.slot → m = m') :
    s.executed = t.executed := by
  have hslots : s.slots = t.slots := by
    ext k
    simp only [mem_slots, hsame]
  have hfirst : s.first = t.first := by
    funext k
    cases hk : s.first k with
    | none =>
      have hnot : k ∉ t.slots := by
        rw [← hslots, mem_slots_iff_first, hk]
        simp
      rw [mem_slots_iff_first, not_exists] at hnot
      exact (Option.eq_none_iff_forall_ne_some.mpr hnot).symm
    | some m =>
      obtain ⟨hm, hslot⟩ := first_eq_some hk
      obtain ⟨m', hm'⟩ := mem_slots_iff_first.mp (hslots ▸ mem_slots.mpr ⟨m, hm, hslot⟩)
      obtain ⟨hin, hslot'⟩ := first_eq_some hm'
      rw [hm', hone m hm m' ((hsame m').mpr hin) (hslot.trans hslot'.symm)]
  have hwm : s.replica.executedWatermark = t.replica.executedWatermark :=
    hs.least.unique (hslots ▸ ht.least)
  rw [hs.executed_eq, ht.executed_eq, hfirst, hwm]

theorem received_of_run {es : List ReplicaEvent}
    (h : (machine pid options numReplicas leaders).run s es = some t) :
    t.received = s.received ++ es.flatMap chosenOf := by
  induction es generalizing s with
  | nil =>
    cases h
    simp
  | cons e es ih =>
    rw [Machine.run_cons, Option.bind_eq_some_iff] at h
    obtain ⟨u, hu, hrest⟩ := h
    obtain ⟨r, out, -, rfl⟩ := step_eq_some hu
    rw [ih hrest, List.flatMap_cons, List.append_assoc]

/-! ### Replies -/

/-- The reply in a message, if it is one to the client. -/
def replyOf : ReplicaOut → Option ProposalResp
  | .toClient m => some m
  | _ => none

/-- The replies for an executed slot, in the order of the batch. -/
def repliesFor (leader : ℕ) (c : Chosen) : List ProposalResp :=
  match c.commandBatchOrNoop with
  | .commandBatch batch => batch.map fun data => ⟨data, leader, 0⟩
  | .noop => []

theorem filterMap_replyOf_announce (r : Replica) : r.announce.filterMap replyOf = [] := by
  unfold Replica.announce
  dsimp only
  split_ifs
  · simp [replyOf]
  · rfl

theorem filterMap_replyOf_recover (r : Replica) : r.recover.filterMap replyOf = [] := by
  simp [Replica.recover, replyOf]

theorem replies_of_accepts {r r' : Replica} {m : Chosen} {out : List ReplicaOut} {n : ℕ}
    (h : r.Accepts r' m out n) : out.filterMap replyOf =
      (r.executedBy m).flatMap fun c => r.replies c.commandBatchOrNoop := by
  rw [h.out, List.filterMap_append, List.filterMap_map]
  have hnone : ((List.range' r.executedWatermark n).flatMap fun k =>
      Replica.announce { r' with executedWatermark := k + 1 }).filterMap replyOf = [] := by
    rw [List.filterMap_flatMap]
    exact List.flatMap_eq_nil_iff.mpr fun k _ => filterMap_replyOf_announce _
  rw [hnone, List.nil_append]
  exact List.filterMap_some

/-- What a replica that was the leader all the time has replied. -/
structure Replied (leader : ℕ) (s : ReplicaRun) : Prop where
  index : s.replica.index = leader
  currentRound : s.replica.currentRound = 0
  replies : s.sent.filterMap replyOf = s.executed.flatMap (repliesFor leader)

theorem Replied.replies_eq {leader : ℕ} (h : Replied leader s) (hleader : s.replica.currentLeader = leader)
    (c : Chosen) : s.replica.replies c.commandBatchOrNoop = repliesFor leader c := by
  unfold Replica.replies repliesFor
  rw [if_pos (h.index.trans hleader.symm)]
  cases c.commandBatchOrNoop with
  | commandBatch batch =>
    dsimp only
    rw [hleader, h.currentRound]
  | noop => rfl

theorem Replied.step (h : Replied pid s) (hst : Stored s) (hleader : s.replica.currentLeader = pid)
    (hstep : (machine pid options numReplicas leaders).step s e = some t) : Replied pid t := by
  obtain ⟨r, out, hr, rfl⟩ := step_eq_some hstep
  rcases Replica.handle_cases hst.recoverTimer hr with ⟨m, v, rfl, hget, rfl, rfl, hby⟩ |
    ⟨m, n, rfl, hget, hacc⟩ | ⟨hne, hidle, hout, -⟩
  · refine ⟨h.index, h.currentRound, ?_⟩
    simp only [chosenOf, List.flatMap_cons, List.flatMap_nil, hby, List.append_nil]
    exact h.replies
  · refine ⟨hacc.frame.index.trans h.index, hacc.frame.currentRound.trans h.currentRound, ?_⟩
    simp only [chosenOf, List.flatMap_cons, List.flatMap_nil, List.append_nil, List.filterMap_append,
      List.flatMap_append, h.replies, replies_of_accepts hacc]
    congr 2
    funext c
    exact h.replies_eq hleader c
  · refine ⟨hidle.index.trans h.index, hidle.currentRound.trans h.currentRound, ?_⟩
    simp only [chosenOf_eq_nil hne, List.flatMap_nil, List.append_nil, List.filterMap_append, h.replies]
    rcases hout with rfl | rfl
    · simp
    · rw [filterMap_replyOf_recover, List.append_nil]

theorem replied_of_run {es : List ReplicaEvent}
    (h : (machine pid options numReplicas leaders).run
      (machine pid options numReplicas leaders).init es = some s)
    (hleader : (machine pid options numReplicas leaders).AllStates
      (fun s => s.replica.currentLeader = pid) (machine pid options numReplicas leaders).init es) :
    Replied pid s := by
  have hreach := Machine.ReachableUnder.init.run hleader.allSteps h
  refine hreach.invariant (P := Replied pid) ⟨rfl, rfl, rfl⟩ fun s e t hr hok hs hstep => ?_
  exact hs.step (stored_of_reachable hr.reachable) hok hstep

/-- **A replica executes the chosen log in prefix order, each slot once.** For every run of a fresh
replica: the watermark is the least slot not received, `num_chosen` counts the slots received, the two
are equal just when no slot is above a missing one, the slots below the watermark were executed in
order, each with the first value received for it, and `execute_log` always ends at an empty slot.
Replicas that received the same messages have executed the same, and one that was the leader all the
time has replied to every command executed, in order. -/
theorem executes_chosen_log (pid : ℕ) (options : ReplicaOptions) (numReplicas : ℕ) (leaders : List ℕ)
    {es : List ReplicaEvent} {s : ReplicaRun}
    (hrun : (machine pid options numReplicas leaders).run
      (machine pid options numReplicas leaders).init es = some s) :
    s.received = es.flatMap chosenOf ∧
    IsLeast {slot | ∀ m ∈ s.received, m.slot ≠ slot} s.replica.executedWatermark ∧
    s.replica.numChosen = (s.received.map Chosen.slot).toFinset.card ∧
    (s.replica.numChosen = s.replica.executedWatermark ↔
      ∀ m ∈ s.received, ∀ slot < m.slot, ∃ m' ∈ s.received, m'.slot = slot) ∧
    s.executed.map Chosen.slot = List.range s.replica.executedWatermark ∧
    (∀ c ∈ s.executed, s.received.find? (fun m => m.slot = c.slot) = some c) ∧
    (∀ (r : Replica) (fuel : ℕ), r.log.buffer.length ≤ fuel → r.executeLogLoop fuel = r.executeLog ∧
      r.log.get (r.executeLogLoop fuel).1.executedWatermark = none) ∧
    (∀ (pid' : ℕ) (options' : ReplicaOptions) (numReplicas' : ℕ) (leaders' : List ℕ)
      (es' : List ReplicaEvent) (s' : ReplicaRun),
      (machine pid' options' numReplicas' leaders').run
        (machine pid' options' numReplicas' leaders').init es' = some s' →
      (∀ m, m ∈ s.received ↔ m ∈ s'.received) →
      (∀ m ∈ s.received, ∀ m' ∈ s.received, m.slot = m'.slot → m = m') →
      s.executed = s'.executed) ∧
    ((machine pid options numReplicas leaders).AllStates (fun s => s.replica.currentLeader = pid)
        (machine pid options numReplicas leaders).init es →
      s.sent.filterMap replyOf = s.executed.flatMap (repliesFor pid)) := by
  have hst := stored_of_reachable (Machine.reachable_of_run hrun)
  refine ⟨received_of_run hrun, ?_, hst.count, ?_, hst.order, hst.values, fun r fuel hfuel => ?_,
    fun pid' options' numReplicas' leaders' es' s' hrun' hsame hone => ?_, fun hleader => ?_⟩
  · have hset : {k | k ∉ s.slots} = {slot | ∀ m ∈ s.received, m.slot ≠ slot} := by
      ext k
      simp [mem_slots]
    rw [← hset]
    exact hst.least
  · rw [hst.count, hst.least.card_eq_iff]
    constructor
    · intro hall m hm slot hlt
      exact mem_slots.mp (hall m.slot (mem_slots.mpr ⟨m, hm, rfl⟩) slot hlt)
    · intro hall k hk slot hlt
      obtain ⟨m, hm, rfl⟩ := mem_slots.mp hk
      exact mem_slots.mpr (hall m hm slot hlt)
  · have heq := Replica.executeLogLoop_eq_executeLog r hfuel
    exact ⟨heq, by rw [heq]; exact (Replica.executeLog_stops r).2⟩
  · exact hst.agree (stored_of_reachable (Machine.reachable_of_run hrun')) hsame hone
  · exact (replied_of_run hrun hleader).replies

/-- The options used in the samples: no padding, and a watermark message after every slot. -/
def sampleOptions : ReplicaOptions := ⟨0, 1, Nat.zero_lt_one⟩

/-- Slot `1` arrives before slot `0`, and slot `0` twice with different values. -/
def swapped : List ReplicaEvent :=
  [.chosen ⟨1, .commandBatch [[7]]⟩, .chosen ⟨0, .commandBatch [[8]]⟩, .chosen ⟨0, .noop⟩]

theorem executes_chosen_log_swapped : ∃ s, (machine 3 sampleOptions 3 [1, 2, 3]).run
      (machine 3 sampleOptions 3 [1, 2, 3]).init swapped = some s ∧
    s.replica.executedWatermark = 2 ∧ s.executed.map Chosen.slot = [0, 1] := by
  obtain ⟨s, hs⟩ : ∃ s, (machine 3 sampleOptions 3 [1, 2, 3]).run
    (machine 3 sampleOptions 3 [1, 2, 3]).init swapped = some s := ⟨_, rfl⟩
  have hwm : ((machine 3 sampleOptions 3 [1, 2, 3]).run
    (machine 3 sampleOptions 3 [1, 2, 3]).init swapped).map (·.replica.executedWatermark) = some 2 := rfl
  rw [hs] at hwm
  have hwm : s.replica.executedWatermark = 2 := Option.some.inj hwm
  obtain ⟨-, -, -, -, horder, -⟩ := executes_chosen_log 3 sampleOptions 3 [1, 2, 3] hs
  rw [hwm] at horder
  exact ⟨s, hs, hwm, horder⟩

end ReplicaRun

end OmniPaxosBench.MultiPaxos
