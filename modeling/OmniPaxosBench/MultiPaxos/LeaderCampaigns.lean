import OmniPaxosBench.MultiPaxos.LeaderCustody
import OmniPaxosBench.MultiPaxos.SlotAllocation

/-! # Multi-Paxos: who campaigns

Only the node that the election named last should campaign, and before the first indication only the
node that owns the first round. A leader leaves phase 1 and phase 2 when another node is named, and
stops its resend timer (`Timed`), so after an indication this holds. It fails before: all nodes but
the initial leader are started in phase 2, where a `Recover` or a `Nack` with a higher round makes
them campaign. `campaigns_rightful_iff` says that nothing else does. -/

namespace OmniPaxosBench.MultiPaxos

open OmniPaxosBench.Lib

namespace Leader

variable {l l' : Leader} {out : List LeaderOut} {e : LeaderEvent}

/-! ### The resend timer -/

/-- No resend of a `Phase1a` is scheduled. -/
def NoResend (l : Leader) : Prop := ∀ id p, ⟨id, .resendPhase1as p⟩ ∉ l.timers.live

/-- A scheduled resend is the one whose handle is kept, and the leader is in phase 1. -/
def Timed (l : Leader) : Prop := ∀ id p, ⟨id, .resendPhase1as p⟩ ∈ l.timers.live →
  l.state = .phase1 ∧ l.resendPhase1as = some ⟨id, .resendPhase1as p⟩

theorem NoResend.timed (h : l.NoResend) : l.Timed := fun id p hp => absurd hp (h id p)

theorem Timed.noResend (h : l.Timed) (hs : l.state ≠ .phase1) : l.NoResend := fun id p hp =>
  hs (h id p hp).1

theorem NoResend.of_subset (h : l.NoResend)
    (hsub : ∀ t ∈ l'.timers.live, t ∈ l.timers.live ∨ t.callback = .noopFlush) : l'.NoResend := by
  intro id p hp
  rcases hsub _ hp with hp | hp
  · exact h id p hp
  · cases hp

theorem Timed.of_subset (h : l.Timed) (hs : l'.state = l.state)
    (hres : l'.resendPhase1as = l.resendPhase1as) (hsub : ∀ t ∈ l'.timers.live, t ∈ l.timers.live) :
    l'.Timed := by
  intro id p hp
  rw [hs, hres]
  exact h id p (hsub _ hp)

/-- Stopping the timer stops all resends. -/
theorem Timed.stopResendPhase1as (h : l.Timed) : l.stopResendPhase1as.NoResend := by
  intro id p hp
  unfold Leader.stopResendPhase1as at hp
  split at hp
  · next t ht =>
    obtain ⟨hmem, hne⟩ := Timers.mem_remove.mp hp
    have hown := (h id p hmem).2
    rw [ht] at hown
    cases hown
    exact hne rfl
  · next ht =>
    have hown := (h id p hp).2
    rw [ht] at hown
    cases hown

theorem NoResend.stopNoopFlushTimer (h : l.NoResend) : l.stopNoopFlushTimer.NoResend := by
  obtain ⟨t, T, hT, heq⟩ := stopNoopFlushTimer_eq l
  rw [heq]
  exact h.of_subset fun t ht => Or.inl (hT t ht)

theorem NoResend.campaign (h : l.NoResend) : l.campaign.1.Timed := by
  intro id p hp
  refine ⟨rfl, ?_⟩
  rcases Timers.mem_schedule.mp hp with hp | hp
  · exact absurd hp (h id p)
  · rw [hp]; rfl

theorem Timed.leaderChange (h : l.Timed) (b : Bool) : (l.leaderChange b).1.Timed := by
  unfold Leader.leaderChange
  cases hs : l.state with
  | inactive =>
    cases b with
    | false => exact h
    | true => exact (h.noResend (by simp [hs])).campaign
  | phase1 =>
    cases b with
    | false => exact NoResend.timed fun id p hp => h.stopResendPhase1as id p hp
    | true => exact h.stopResendPhase1as.campaign
  | phase2 =>
    have hno := (h.noResend (by simp [hs])).stopNoopFlushTimer
    cases b with
    | false => exact NoResend.timed fun id p hp => hno id p hp
    | true => exact hno.campaign

/-- Phase 2 begins without a resend. -/
theorem Timed.enterPhase2 (h : l.Timed) (values : List Phase1b) :
    (l.enterPhase2 values).1.NoResend := by
  have hl : { l with nextSlot := l.firstSlot values }.Timed := fun id p hp => h id p hp
  simp only [Leader.enterPhase2, recoverSlots_eq, makeNoopFlushTimer]
  refine hl.stopResendPhase1as.of_subset fun t ht => ?_
  rcases Timers.mem_schedule.mp ht with ht | ht
  · exact Or.inl ht
  · exact Or.inr (by rw [ht]; rfl)

/-! ### States -/

/-- The new leader is in phase 1, the old one inactive. -/
theorem leaderChange_state (l : Leader) (b : Bool) :
    (l.leaderChange b).1.state = if b then .phase1 else .inactive := by
  unfold leaderChange
  cases hs : l.state <;> cases b <;> first | rfl | exact hs

theorem leaderChange_false_out (l : Leader) : (l.leaderChange false).2 = [] := by
  unfold leaderChange
  cases l.state <;> rfl

theorem leaderChange_index (l : Leader) (b : Bool) : (l.leaderChange b).1.index = l.index :=
  (leaderChange_move (l := l) (.indication 0) b).frame.index

/-- What an event does to the state of a leader, and when it makes the leader send a `Phase1a`. -/
structure Effect (l : Leader) (e : LeaderEvent) (l' : Leader) (out : List LeaderOut) : Prop where
  index : l'.index = l.index
  timed : l'.Timed
  campaigns : ∀ a p, .phase1a a p ∈ out → l'.state = .phase1
  restarts : l.Restarts e → l'.state = .phase1
  retires : ∀ i, e = .indication i → i ≠ l.index → l'.state = .inactive
  stays : ¬ l.Restarts e → (∀ i, e ≠ .indication i) →
    (l'.state = .phase1 → l.state = .phase1) ∧ (l'.state = .inactive ↔ l.state = .inactive)

/-- An event that leaves the state as it is and sends no new `Phase1a`. -/
theorem Effect.quiet (hi : ∀ i, e ≠ .indication i) (hr : ¬ l.Restarts e) (index : l'.index = l.index)
    (timed : l'.Timed) (state : l'.state = l.state)
    (outs : ∀ a p, .phase1a a p ∈ out → l.state = .phase1) : Effect l e l' out :=
  ⟨index, timed, fun a p h => state.trans (outs a p h), fun h => absurd h hr,
    fun i h => absurd h (hi i), fun _ _ => ⟨fun h => state ▸ h, by rw [state]⟩⟩

/-- A campaign, also with a round raised by a nack. -/
theorem leaderChange_true_effect {l₀ : Leader} (h : l₀.Timed) (hindex : l₀.index = l.index)
    (hr : l.Restarts e) (heq : l₀.leaderChange true = (l', out)) : Effect l e l' out := by
  have hs := leaderChange_state l₀ true
  have hi := leaderChange_index l₀ true
  have ht := h.leaderChange true
  rw [heq] at hs hi ht
  refine ⟨hi.trans hindex, ht, fun _ _ _ => hs, fun _ => hs, fun i he hne => ?_, fun h => absurd hr h⟩
  subst he
  exact absurd hr hne

theorem handlePhase1b_effect {m : Phase1b} {order : List ℕ} (ht : l.Timed)
    (h : l.handlePhase1b m order = some (l', out)) : Effect l (.phase1b m order) l' out := by
  have hno : ∀ i, LeaderEvent.phase1b m order ≠ .indication i := by simp
  by_cases hc : l.Completes m
  · -- the timer is stopped, and only a noop flush is scheduled
    obtain ⟨-, hres⟩ := handlePhase1b_of_completes hc h
    obtain ⟨l₂, out₂, heq⟩ : ∃ l₂ out₂, (l.insertPhase1b m).enterPhase2 (l.valuesWith m order) =
        (l₂, out₂) := ⟨_, _, rfl⟩
    have hno₂ : l₂.NoResend := by
      have hl := Timed.enterPhase2 (l := l.insertPhase1b m) (fun id p hp => ht id p hp)
        (l.valuesWith m order)
      rw [heq] at hl; exact hl
    obtain ⟨_, _, -, -, hl₂⟩ := enterPhase2_eq (l.insertPhase1b m) (l.valuesWith m order)
    obtain ⟨rfl, rfl⟩ := Prod.mk.inj (heq.symm.trans hl₂)
    obtain ⟨rfl, rfl⟩ := Prod.mk.inj (hres _ _ heq)
    refine ⟨rfl, NoResend.timed fun id p hp => hno₂ id p hp, fun a p hp => ?_, fun hr => absurd hr id,
      fun i he => absurd he (hno i), fun _ _ => ⟨fun _ => hc.1, by simp [hc.1]⟩⟩
    rcases List.mem_append.mp hp with hp | hp
    · obtain ⟨slot, -, -, -, he⟩ := mem_recoverSlots (List.mem_append.mp hp |>.resolve_left (by simp))
      cases he
    · obtain ⟨k, hk, he⟩ := mem_mapIdx_batches hp
      cases he
  · obtain ⟨rfl, rfl | ⟨-, -, rfl⟩⟩ := handlePhase1b_of_not_completes hc h
    · exact Effect.quiet hno id rfl ht rfl (by simp)
    · exact Effect.quiet hno id rfl ht rfl (by simp)

theorem handleTimeout_effect {id : ℕ} (ht : l.Timed) (h : l.handleTimeout id = some (l', out)) :
    Effect l (.timeout id) l' out := by
  obtain ⟨⟨cb, T⟩, hfire, heq⟩ := Option.map_eq_some_iff.mp h
  obtain ⟨hlive, rfl⟩ := Timers.fire_eq_some hfire
  have ht' : ∀ k, { l with timers := l.timers.remove id, nextSlot := k }.Timed := fun k =>
    ht.of_subset rfl rfl fun t ht => (Timers.mem_remove.mp ht).1
  cases cb with
  | resendPhase1as p =>
    cases heq
    exact Effect.quiet (by simp) (fun h => h) rfl (ht' _) rfl fun _ _ _ => (ht id p hlive).1
  | noopFlush =>
    cases heq
    exact Effect.quiet (by simp) (fun h => h) rfl (ht' _) rfl (by simp)

/-- **The effect of every event.** -/
theorem handle_effect (ht : l.Timed) (h : l.handle e = some (l', out)) : Effect l e l' out := by
  by_cases hr : l.Restarts e
  · obtain ⟨round, hround⟩ := handle_eq_of_restarts hr h
    have ht₀ : { l with round := round }.Timed := fun id p hp => ht id p hp
    exact leaderChange_true_effect ht₀ rfl hr hround
  cases e with
  | indication leaderIndex =>
    have hown : ¬ leaderIndex = l.index := hr
    simp only [handle, hown, decide_false, Option.some.injEq] at h
    have hs := leaderChange_state l false
    have hi := leaderChange_index l false
    have ht' := ht.leaderChange false
    have hout := leaderChange_false_out l
    rw [h] at hs hi ht' hout
    refine ⟨hi, ht', fun a p hp => ?_, fun hr' => absurd hr' hr, fun _ _ _ => hs, fun _ hne => ?_⟩
    · cases hout; cases hp
    · exact absurd rfl (hne leaderIndex)
  | phase1b m order => exact handlePhase1b_effect ht h
  | nack m =>
    obtain ⟨round, hround⟩ := handleNack_of_not_restarts hr
    cases hround.symm.trans (Option.some.inj h)
    exact Effect.quiet (by simp) hr rfl (fun id p hp => ht id p hp) rfl (by simp)
  | chosenWatermark m =>
    cases h
    exact Effect.quiet (by simp) hr rfl (fun id p hp => ht id p hp) rfl (by simp)
  | recover m =>
    cases (handleRecover_of_not_restarts hr).symm.trans (Option.some.inj h)
    exact Effect.quiet (by simp) hr rfl ht rfl (by simp)
  | clientRequestBatch batcher batch =>
    simp only [handle, handleClientRequestBatch, Option.some.injEq] at h
    split at h
    all_goals
      cases h
      exact Effect.quiet (by simp) hr rfl (fun id p hp => ht id p hp) rfl (by simp)
  | leaderInfoRequestBatcher src batcher =>
    cases h
    refine Effect.quiet (by simp) hr rfl ht rfl fun a p hp => ?_
    exact absurd (handleLeaderInfoRequestBatcher_note hp) id
  | timeout id => exact handleTimeout_effect ht h
  | partition e =>
    obtain ⟨part, -, he⟩ := Option.map_eq_some_iff.mp h
    cases he
    exact Effect.quiet (by simp) hr rfl (fun id p hp => ht id p hp) rfl (by simp)

/-- The messages that make a leader campaign wherever it is not inactive. -/
def Provokes (l : Leader) : LeaderEvent → Prop
  | .nack m => l.round < m.round
  | .recover _ => True
  | _ => False

instance (l : Leader) : ∀ e, Decidable (l.Provokes e)
  | .nack _ => inferInstanceAs (Decidable (_ < _))
  | .recover _ => isTrue trivial
  | .indication _ | .phase1b _ _ | .chosenWatermark _ | .clientRequestBatch _ _
  | .leaderInfoRequestBatcher _ _ | .timeout _ | .partition _ => isFalse id

/-- Apart from an indication, phase 1 is started by these messages only. -/
theorem restarts_iff (hi : ∀ i, e ≠ .indication i) :
    l.Restarts e ↔ l.Provokes e ∧ l.state ≠ .inactive := by
  cases e with
  | indication i => exact absurd rfl (hi i)
  | nack m => exact Iff.rfl
  | recover m => exact ⟨fun h => ⟨trivial, h⟩, fun h => h.2⟩
  | _ => exact ⟨fun h => absurd h id, fun h => absurd h.1 id⟩

end Leader

/-! ### Runs -/

/-- A leader, the last indication its node got, and the messages of the last step. -/
structure Campaigner where
  leader : Leader
  indicated : Option ℕ
  out : List LeaderOut

namespace Campaigner

/-- The last indication names the node, or there was none and the node owns the first round. -/
def Elected (n : ℕ) (s : Campaigner) : Prop :=
  s.indicated = some s.leader.index ∨ (s.indicated = none ∧ s.leader.index = n)

instance (n : ℕ) (s : Campaigner) : Decidable (s.Elected n) := inferInstanceAs (Decidable (_ ∨ _))

/-- Only an elected leader sends a `Phase1a` or is in phase 1. -/
structure Rightful (n : ℕ) (s : Campaigner) : Prop where
  phase1a : ∀ a p, .phase1a a p ∈ s.out → s.Elected n
  phase1 : s.leader.state = .phase1 → s.Elected n

/-- A `Recover` or a higher `Nack` reaches a node other than the initial leader before its first
indication. -/
def Provoked (n : ℕ) (s : Campaigner) (e : LeaderEvent) : Prop :=
  s.indicated = none ∧ s.leader.index ≠ n ∧ s.leader.Provokes e

instance (n : ℕ) (s : Campaigner) (e : LeaderEvent) : Decidable (s.Provoked n e) :=
  inferInstanceAs (Decidable (_ ∧ _ ∧ _))

/-- The last indication after an event. -/
def indicatedAfter (last : Option ℕ) : LeaderEvent → Option ℕ
  | .indication i => some i
  | _ => last

def step (s : Campaigner) (e : LeaderEvent) : Option Campaigner :=
  (s.leader.handle e).map fun (l, out) => ⟨l, indicatedAfter s.indicated e, out⟩

/-- The leader of node `pid` of `n` from its start on. -/
def machine (n pid : ℕ) : Machine Campaigner LeaderEvent where
  init := ⟨(Leader.new pid (pids n)).onStart.1, none, (Leader.new pid (pids n)).onStart.2⟩
  step := step

/-- What holds whatever the leader is told. -/
structure Inv (n : ℕ) (s : Campaigner) : Prop where
  timed : s.leader.Timed
  active : s.leader.state ≠ .inactive → s.indicated = none ∨ s.Elected n
  start : s.indicated = none → s.leader.state ≠ .inactive

variable {n pid : ℕ} {s t : Campaigner} {e : LeaderEvent}

theorem step_effect (hs : s.Inv n) (h : s.step e = some t) :
    Leader.Effect s.leader e t.leader t.out ∧ t.indicated = indicatedAfter s.indicated e := by
  obtain ⟨⟨l, out⟩, hl, rfl⟩ := Option.map_eq_some_iff.mp h
  exact ⟨Leader.handle_effect hs.timed hl, rfl⟩

/-- The leader is elected by its own indication; other events leave that as it is. -/
theorem elected_after (hindex : t.leader.index = s.leader.index)
    (hind : t.indicated = indicatedAfter s.indicated e) :
    (∀ i, e = .indication i → (t.Elected n ↔ i = s.leader.index)) ∧
      ((∀ i, e ≠ .indication i) → t.indicated = s.indicated ∧ (t.Elected n ↔ s.Elected n)) := by
  constructor
  · rintro i rfl
    simp only [Elected, hind, hindex, indicatedAfter, Option.some.injEq, reduceCtorEq, false_and,
      or_false]
  · intro hno
    have hsame : t.indicated = s.indicated := by
      rw [hind]
      cases e with
      | indication i => exact absurd rfl (hno i)
      | _ => rfl
    exact ⟨hsame, by simp only [Elected, hsame, hindex]⟩

/-- A leader that has just started. -/
theorem onStart_facts (n pid : ℕ) : ∀ l₀, l₀ = Leader.new pid (pids n) →
    l₀.onStart.1.index = pid ∧ l₀.onStart.1.Timed ∧
      ((pid = n ∧ l₀.onStart.1.state = .phase1) ∨
        (pid ≠ n ∧ l₀.onStart.1.state = .phase2 ∧ l₀.onStart.2 = [])) := by
  rintro l₀ rfl
  have hno : (Leader.new pid (pids n)).NoResend := by
    intro id p hp
    simp [Leader.new, Timers.empty] at hp
  have hs : (Leader.new pid (pids n)).state = if pid = n then .phase1 else .phase2 := by
    simp only [Leader.new, Leader.length_pids]
  unfold Leader.onStart
  by_cases hn : pid = n
  · rw [if_pos hn] at hs
    rw [if_pos hs]
    refine ⟨rfl, fun id p hp => ⟨hs, ?_⟩, Or.inl ⟨hn, hs⟩⟩
    rcases Timers.mem_schedule.mp hp with hp | hp
    · exact absurd hp (hno id p)
    · rw [hp]; rfl
  · rw [if_neg hn] at hs
    rw [if_neg (by simp [hs])]
    exact ⟨rfl, hno.timed, Or.inr ⟨hn, hs, rfl⟩⟩

theorem inv_init : (machine n pid).init.Inv n := by
  obtain ⟨-, ht, hstart⟩ := onStart_facts n pid _ rfl
  refine ⟨ht, fun _ => Or.inl rfl, fun _ hs => ?_⟩
  rcases hstart with ⟨-, h⟩ | ⟨-, h, -⟩
  · exact absurd (h.symm.trans hs) (by simp)
  · exact absurd (h.symm.trans hs) (by simp)

theorem Inv.step (hs : s.Inv n) (h : s.step e = some t) : t.Inv n := by
  obtain ⟨he, hind⟩ := step_effect hs h
  obtain ⟨hown, hsame⟩ := elected_after (n := n) he.index hind
  refine ⟨he.timed, fun hact => ?_, fun hnone hinact => ?_⟩
  · by_cases hi : ∃ i, e = .indication i
    · -- an indication of another node would have made the leader inactive
      obtain ⟨i, hi⟩ := hi
      refine Or.inr ((hown i hi).mpr ?_)
      by_contra hne
      exact hact (he.retires i hi hne)
    · have hno : ∀ i, e ≠ .indication i := fun i h => hi ⟨i, h⟩
      obtain ⟨hlast, hel⟩ := hsame hno
      rw [hlast, hel]
      refine hs.active fun hinact => hact ?_
      have hr : ¬ s.leader.Restarts e := fun hr => ((Leader.restarts_iff hno).mp hr).2 hinact
      exact (he.stays hr hno).2.mpr hinact
  · by_cases hi : ∃ i, e = .indication i
    · obtain ⟨i, rfl⟩ := hi
      rw [hind] at hnone
      cases hnone
    · have hno : ∀ i, e ≠ .indication i := fun i h => hi ⟨i, h⟩
      have hact := hs.start ((hsame hno).1 ▸ hnone)
      by_cases hr : s.leader.Restarts e
      · rw [he.restarts hr] at hinact; cases hinact
      · exact hact ((he.stays hr hno).2.mp hinact)

theorem inv_of_reachable (h : (machine n pid).Reachable s) : s.Inv n :=
  h.invariant inv_init fun _ _ _ _ hs hstep => hs.step hstep

theorem rightful_init : (machine n pid).init.Rightful n := by
  obtain ⟨hindex, -, hstart⟩ := onStart_facts n pid _ rfl
  rcases hstart with ⟨hn, -⟩ | ⟨-, hs, hout⟩
  · have hel : (machine n pid).init.Elected n := Or.inr ⟨rfl, hindex.trans hn⟩
    exact ⟨fun _ _ _ => hel, fun _ => hel⟩
  · refine ⟨fun a p hp => ?_, fun h => absurd (hs.symm.trans h) (by simp)⟩
    simp only [machine, hout] at hp
    cases hp

/-- A step keeps the rule just when the leader is not provoked. -/
theorem Rightful.step_iff (hinv : s.Inv n) (hs : s.Rightful n) (e : LeaderEvent) :
    ¬ s.Provoked n e ↔ ∀ t, s.step e = some t → t.Rightful n := by
  constructor
  · intro hp t ht
    obtain ⟨he, hind⟩ := step_effect hinv ht
    obtain ⟨hown, hsame⟩ := elected_after (n := n) he.index hind
    suffices h : t.leader.state = .phase1 → t.Elected n from
      ⟨fun a p ha => h (he.campaigns a p ha), h⟩
    intro hphase1
    by_cases hi : ∃ i, e = .indication i
    · obtain ⟨i, hi⟩ := hi
      refine (hown i hi).mpr ?_
      by_contra hne
      rw [he.retires i hi hne] at hphase1
      cases hphase1
    · have hno : ∀ i, e ≠ .indication i := fun i h => hi ⟨i, h⟩
      rw [(hsame hno).2]
      by_cases hr : s.leader.Restarts e
      · obtain ⟨hprov, hact⟩ := (Leader.restarts_iff hno).mp hr
        rcases hinv.active hact with hnone | hel
        · refine Or.inr ⟨hnone, ?_⟩
          by_contra hne
          exact hp ⟨hnone, hne, hprov⟩
        · exact hel
      · exact hs.phase1 ((he.stays hr hno).1 hphase1)
  · rintro h ⟨hnone, hne, hprov⟩
    have hno : ∀ i, e ≠ .indication i := by
      rintro i rfl
      exact hprov
    have hr := (Leader.restarts_iff hno).mpr ⟨hprov, hinv.start hnone⟩
    obtain ⟨t, ht⟩ : ∃ t, s.step e = some t := by
      cases e with
      | nack m => exact ⟨_, rfl⟩
      | recover m => exact ⟨_, rfl⟩
      | _ => exact absurd hprov id
    obtain ⟨he, hind⟩ := step_effect hinv ht
    obtain ⟨-, hsame⟩ := elected_after (n := n) he.index hind
    rcases ((hsame hno).2.mp ((h t ht).phase1 (he.restarts hr))) with hel | hel
    · rw [hnone] at hel; cases hel
    · exact hne hel.2

/-- **Campaigns**: in a run of a leader only an elected leader campaigns, at any moment, if and only
if no `Recover` and no higher `Nack` reaches a node other than the initial leader before its first
indication. -/
theorem campaigns_rightful_iff (n pid : ℕ) (es : List LeaderEvent) :
    (machine n pid).AllStates (Rightful n) (machine n pid).init es ↔
      (machine n pid).AllSteps (fun s e => ¬ s.Provoked n e) (machine n pid).init es :=
  Machine.Reachable.allStates_iff_allSteps (fun _ hr hs e => hs.step_iff (inv_of_reachable hr) e)
    .init rightful_init es

/-- Of two nodes, leader 2 wins round 2 and proposes two batches, of which only the second is chosen.
Replica 1 sees a gap at slot 0 and asks for a new election when its timer is due. -/
def gapAtReplica : List SystemEvent :=
  [.synod (.phase1a 1 ⟨2, 2, 0⟩), .synod (.phase1a 2 ⟨2, 2, 0⟩), .leader 2 (.phase1b ⟨1, 2, []⟩ [1]),
    .leader 2 (.phase1b ⟨2, 2, []⟩ [1, 2]), .leader 2 (.clientRequestBatch 2 [⟨[7]⟩]),
    .leader 2 (.clientRequestBatch 2 [⟨[8]⟩]), .synod (.propose 2 ⟨2, 1, 2, .commandBatch [[8]]⟩),
    .synod (.phase2a 1 ⟨2, 1, 2, .commandBatch [[8]]⟩),
    .synod (.phase2a 2 ⟨2, 1, 2, .commandBatch [[8]]⟩), .synod (.phase2b 2 ⟨1, 1, 2⟩),
    .synod (.phase2b 2 ⟨2, 1, 2⟩), .replica 1 (.chosen ⟨1, .commandBatch [[8]]⟩),
    .replica 1 (.timeout 0)]

/-- The `Recover` makes leader 1 campaign in round 3, though no node was ever elected in the run. -/
theorem never_elected_campaigns :
    (∃ s, (System.machine 2 System.everySlot).run (System.machine 2 System.everySlot).init
      (gapAtReplica ++ [.leader 1 (.recover ⟨0⟩)]) = some s ∧
      .phase1a 2 ⟨1, 3, 0⟩ ∈ s.leaderOuts 1) ∧
    (∀ i k, SystemEvent.leader i (.indication k) ∉ gapAtReplica ++ [.leader 1 (.recover ⟨0⟩)]) ∧
    ¬ (machine 2 1).AllStates (Rightful 2) (machine 2 1).init [.recover ⟨0⟩] := by
  refine ⟨⟨_, rfl, by decide⟩, by simp [gapAtReplica], fun h => ?_⟩
  have hlast : Rightful 2 _ := h.2 _ rfl
  have hel := hlast.phase1 rfl
  revert hel
  decide

end Campaigner

end OmniPaxosBench.MultiPaxos
