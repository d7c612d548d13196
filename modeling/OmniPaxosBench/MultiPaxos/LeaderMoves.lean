import OmniPaxosBench.MultiPaxos.Leader

/-! # Multi-Paxos: what a leader can do in one step

`Move` lists the effects an event can have on a leader, with everything the later invariants need and
nothing else: nothing of interest, retirement, adopting a round while inactive, collecting an answer,
campaigning in a new round, completing phase 1, and proposing in the next slot. `handle_move` proves
the list complete. -/

namespace OmniPaxosBench.MultiPaxos.Leader

open OmniPaxosBench.Lib

/-- The constants of a leader. -/
structure Frame (l l' : Leader) : Prop where
  index : l'.index = l.index
  roundSystem : l'.roundSystem = l.roundSystem
  majority : l'.majority = l.majority

/-- The slot of the first new batch after phase 1: above all reported slots, and the old `nextSlot`
if there are none. -/
def firstSlot (l : Leader) (values : List Phase1b) : ℕ :=
  match maxSlot values with
  | some k => k + 1
  | none => l.nextSlot

/-- The answers at hand when `m` completes phase 1, in the order the hash map yields them. -/
def valuesWith (l : Leader) (m : Phase1b) (order : List ℕ) : List Phase1b :=
  HashMap.valuesIn (l.insertPhase1b m).phase1bs order

/-- A message that is neither a `Phase1a` nor a `Phase2a`. -/
def IsNote : LeaderOut → Prop
  | .toBatcher _ _ | .toClient _ _ => True
  | _ => False

/-- The `Phase1a` of a campaign in `round`. -/
def ownPhase1a (l : Leader) (round : ℕ) : Phase1a := ⟨l.index, round, l.chosenWatermark⟩

/-- A proposal made on completing phase 1: recovered below `firstSlot`, a pending batch above. -/
structure Completion (l : Leader) (values : List Phase1b) (l' : Leader) (origin : Origin)
    (p : Phase2a) : Prop where
  src : p.src = l.index
  round : p.round = l.round
  kind : (origin = .recovered ∧ l.chosenWatermark ≤ p.slot ∧ p.slot < l.firstSlot values ∧
      (maxSlot values).isSome ∧ p.commandBatchOrNoop = safeValue values p.slot) ∨
    (origin = .clientBatch ∧ l.firstSlot values ≤ p.slot ∧ p.slot < l'.nextSlot)

/-- The effects of an event on a leader. -/
inductive Move (l : Leader) : LeaderEvent → Leader → List LeaderOut → Prop
  /-- Nothing of interest changes; the messages are old `Phase1a`s or notes. -/
  | quiet (e : LeaderEvent) (l' : Leader) (out : List LeaderOut) (frame : Frame l l')
      (round : l'.round = l.round) (state : l'.state = l.state) (nextSlot : l'.nextSlot = l.nextSlot)
      (phase1bs : l'.phase1bs = l.phase1bs) (resend : l'.resendPhase1as = l.resendPhase1as)
      (watermark : l.chosenWatermark ≤ l'.chosenWatermark)
      (timers : ∀ t ∈ l'.timers.live, t ∈ l.timers.live)
      (outs : ∀ o ∈ out, IsNote o ∨ ∃ pid p, o = .phase1a pid p ∧
        ∃ id, ⟨id, .resendPhase1as p⟩ ∈ l.timers.live) : Move l e l' out
  | retire (e : LeaderEvent) (l' : Leader) (frame : Frame l l') (round : l'.round = l.round)
      (state : l'.state = .inactive) (watermark : l'.chosenWatermark = l.chosenWatermark)
      (resend : l'.resendPhase1as = l.resendPhase1as ∨ l'.resendPhase1as = none)
      (timers : ∀ t ∈ l'.timers.live, t ∈ l.timers.live) : Move l e l' []
  | follow (m : Nack) (inactive : l.state = .inactive) (above : l.round < m.round) :
      Move l (.nack m) { l with round := m.round } []
  | collect (m : Phase1b) (order : List ℕ) (phase1 : l.state = .phase1) (same : m.round = l.round) :
      Move l (.phase1b m order) (l.insertPhase1b m) []
  | campaign (e : LeaderEvent) (l' : Leader) (out : List LeaderOut) (base : ℕ) (frame : Frame l l')
      (hbase : l.round ≤ base) (round : l'.round = l.roundSystem.nextClassicRound l.index base)
      (state : l'.state = .phase1) (watermark : l'.chosenWatermark = l.chosenWatermark)
      (phase1bs : l'.phase1bs = ∅)
      (resend : ∃ id, l'.resendPhase1as = some ⟨id, .resendPhase1as (l.ownPhase1a l'.round)⟩)
      (timers : ∀ t ∈ l'.timers.live, t ∈ l.timers.live ∨
        t.callback = .resendPhase1as (l.ownPhase1a l'.round))
      (outs : ∀ o ∈ out, ∃ pid, o = .phase1a pid (l.ownPhase1a l'.round)) : Move l e l' out
  | complete (m : Phase1b) (order : List ℕ) (l' : Leader) (out : List LeaderOut) (frame : Frame l l')
      (completes : l.Completes m) (enum : HashMap.Enumerates order (l.insertPhase1b m).phase1bs)
      (round : l'.round = l.round) (state : l'.state = .phase2)
      (watermark : l'.chosenWatermark = l.chosenWatermark)
      (nextSlot : l.firstSlot (l.valuesWith m order) ≤ l'.nextSlot)
      (resend : l'.resendPhase1as = l.resendPhase1as ∨ l'.resendPhase1as = none)
      (timers : ∀ t ∈ l'.timers.live, t ∈ l.timers.live ∨ t.callback = .noopFlush)
      (notes : ∀ o ∈ out, IsNote o ∨ ∃ origin p, o = .phase2a origin p)
      (proposals : ∀ origin p, .phase2a origin p ∈ out →
        Completion l (l.valuesWith m order) l' origin p)
      (one : ∀ o p o' p', .phase2a o p ∈ out → .phase2a o' p' ∈ out → p.slot = p'.slot → p = p') :
      Move l (.phase1b m order) l' out
  | propose (e : LeaderEvent) (l' : Leader) (origin : Origin) (value : CommandBatchOrNoop)
      (cause : (origin = .clientBatch ∧ l.state = .phase2 ∧ ∃ pid b, e = .clientRequestBatch pid b) ∨
        (origin = .noopFlush ∧ ∃ id, e = .timeout id ∧ l.timers.callbackOf id = some .noopFlush))
      (frame : Frame l l') (round : l'.round = l.round) (state : l'.state = l.state)
      (nextSlot : l'.nextSlot = l.nextSlot + 1) (phase1bs : l'.phase1bs = l.phase1bs)
      (resend : l'.resendPhase1as = l.resendPhase1as)
      (watermark : l'.chosenWatermark = l.chosenWatermark)
      (timers : ∀ t ∈ l'.timers.live, t ∈ l.timers.live) :
      Move l e l' [.phase2a origin ⟨l.index, l.nextSlot, l.round, value⟩]

/-! ### Timers -/

variable {l : Leader}

/-- Stopping a timer changes the timers only. -/
theorem stopResendPhase1as_eq (l : Leader) : ∃ h T, (h = l.resendPhase1as ∨ h = none) ∧
    (∀ t ∈ T.live, t ∈ l.timers.live) ∧
    l.stopResendPhase1as = { l with resendPhase1as := h, timers := T } := by
  unfold stopResendPhase1as
  split
  · next t _ => exact ⟨none, l.timers.cancel t, Or.inr rfl, fun u hu => Timers.mem_of_mem_cancel hu, rfl⟩
  · next h => exact ⟨l.resendPhase1as, l.timers, Or.inl rfl, fun _ hu => hu, rfl⟩

theorem stopNoopFlushTimer_eq (l : Leader) : ∃ h T, (∀ t ∈ T.live, t ∈ l.timers.live) ∧
    l.stopNoopFlushTimer = { l with noopFlushTimer := h, timers := T } := by
  unfold stopNoopFlushTimer
  split
  · next t _ => exact ⟨none, l.timers.cancel t, fun u hu => Timers.mem_of_mem_cancel hu, rfl⟩
  · exact ⟨l.noopFlushTimer, l.timers, fun _ hu => hu, rfl⟩

/-! ### Campaigns -/

theorem mem_sendPhase1a {p : Phase1a} {o : LeaderOut} (h : o ∈ l.sendPhase1a p) :
    ∃ pid, o = .phase1a pid p := by
  obtain ⟨pid, -, rfl⟩ := List.mem_map.mp h
  exact ⟨pid, rfl⟩

/-- A campaign by a leader that differs from `l` in the timers, and in a round raised to `base`. -/
theorem campaign_move {l₀ : Leader} (e : LeaderEvent) (hbase : l.round ≤ l₀.round)
    (hframe : Frame l l₀) (hw : l₀.chosenWatermark = l.chosenWatermark)
    (ht : ∀ t ∈ l₀.timers.live, t ∈ l.timers.live) : Move l e l₀.campaign.1 l₀.campaign.2 := by
  have hown : l.ownPhase1a l₀.campaign.1.round =
      ⟨l₀.index, l₀.roundSystem.nextClassicRound l₀.index l₀.round, l₀.chosenWatermark⟩ := by
    rw [ownPhase1a, ← hframe.index, ← hw]; rfl
  refine .campaign e _ _ l₀.round ⟨hframe.1, hframe.2, hframe.3⟩ hbase ?_ rfl hw rfl ?_ ?_ ?_
  · rw [← hframe.index, ← hframe.roundSystem]; rfl
  · rw [hown]; exact ⟨_, rfl⟩
  · rw [hown]
    intro t htl
    rcases Timers.mem_schedule.mp htl with h | h
    · exact Or.inl (ht t h)
    · exact Or.inr (by rw [h]; rfl)
  · rw [hown]
    intro o ho
    exact mem_sendPhase1a ho

theorem leaderChange_true_move {l₀ : Leader} (e : LeaderEvent) (hbase : l.round ≤ l₀.round)
    (hframe : Frame l l₀) (hw : l₀.chosenWatermark = l.chosenWatermark)
    (ht : ∀ t ∈ l₀.timers.live, t ∈ l.timers.live) :
    Move l e (l₀.leaderChange true).1 (l₀.leaderChange true).2 := by
  unfold leaderChange
  cases l₀.state with
  | inactive => exact campaign_move e hbase hframe hw ht
  | phase1 =>
    obtain ⟨h, T, -, hT, heq⟩ := stopResendPhase1as_eq l₀
    simp only [heq]
    exact campaign_move e hbase ⟨hframe.1, hframe.2, hframe.3⟩ hw fun t h' => ht t (hT t h')
  | phase2 =>
    obtain ⟨h, T, hT, heq⟩ := stopNoopFlushTimer_eq l₀
    simp only [heq]
    exact campaign_move e hbase ⟨hframe.1, hframe.2, hframe.3⟩ hw fun t h' => ht t (hT t h')

theorem Frame.refl (l : Leader) : Frame l l := ⟨rfl, rfl, rfl⟩

/-- Nothing happens at all. -/
theorem Move.stay (l : Leader) (e : LeaderEvent) {out : List LeaderOut} (h : ∀ o ∈ out, IsNote o) :
    Move l e l out :=
  .quiet e l out (Frame.refl l) rfl rfl rfl rfl rfl le_rfl (fun _ h => h) fun o ho => Or.inl (h o ho)

theorem leaderChange_move (e : LeaderEvent) (b : Bool) :
    Move l e (l.leaderChange b).1 (l.leaderChange b).2 := by
  cases b with
  | true => exact leaderChange_true_move e le_rfl (Frame.refl l) rfl fun _ h => h
  | false =>
    unfold leaderChange
    cases hs : l.state with
    | inactive => exact Move.stay l e (by simp)
    | phase1 =>
      obtain ⟨h, T, hh, hT, heq⟩ := stopResendPhase1as_eq l
      simp only [heq]
      exact .retire e _ ⟨rfl, rfl, rfl⟩ rfl rfl rfl hh hT
    | phase2 =>
      obtain ⟨h, T, hT, heq⟩ := stopNoopFlushTimer_eq l
      simp only [heq]
      exact .retire e _ ⟨rfl, rfl, rfl⟩ rfl rfl rfl (Or.inl rfl) hT

/-! ### The end of phase 1 -/

/-- Batches are proposed in consecutive slots. -/
theorem processClientRequestBatches_eq : ∀ (l : Leader) (bs : List (List Proposal)),
    l.processClientRequestBatches bs = ({ l with nextSlot := l.nextSlot + bs.length },
      bs.mapIdx fun k b => .phase2a .clientBatch
        ⟨l.index, l.nextSlot + k, l.round, .commandBatch (b.map (·.data))⟩)
  | l, [] => rfl
  | l, b :: bs => by
    have ih := processClientRequestBatches_eq { l with nextSlot := l.nextSlot + 1 } bs
    simp only [processClientRequestBatches, processClientRequestBatch, proposeNext] at ih ⊢
    rw [ih, List.mapIdx_cons]
    simp only [List.length_cons, Nat.add_zero, List.cons_append, List.nil_append, Prod.mk.injEq,
      List.cons.injEq, true_and]
    refine ⟨by congr 1; omega, ?_⟩
    congr 1
    funext k b'
    rw [Nat.add_assoc, Nat.add_comm 1 k]

/-- The messages of `recoverSlots`, and the slot it leaves as the next. -/
theorem recoverSlots_eq (l : Leader) (values : List Phase1b) : l.recoverSlots values =
    ({ l with nextSlot := l.firstSlot values },
      match maxSlot values with
      | some k => (List.range' l.chosenWatermark (k + 1 - l.chosenWatermark)).map fun slot =>
          .phase2a .recovered ⟨l.index, slot, l.round, safeValue values slot⟩
      | none => []) := by
  unfold recoverSlots firstSlot
  cases maxSlot values <;> rfl

theorem mem_recoverSlots {values : List Phase1b} {o : LeaderOut}
    (h : o ∈ (l.recoverSlots values).2) : ∃ slot, l.chosenWatermark ≤ slot ∧
      slot < l.firstSlot values ∧ (maxSlot values).isSome ∧
      o = .phase2a .recovered ⟨l.index, slot, l.round, safeValue values slot⟩ := by
  rw [recoverSlots_eq] at h
  unfold firstSlot
  cases hmax : maxSlot values with
  | none => simp [hmax] at h
  | some k =>
    simp only [hmax, List.mem_map, List.mem_range'_1] at h
    obtain ⟨slot, ⟨h1, h2⟩, rfl⟩ := h
    exact ⟨slot, h1, by simp only; omega, rfl, rfl⟩

theorem mem_mapIdx_batches {bs : List (List Proposal)} {start index round : ℕ} {o : LeaderOut}
    (h : o ∈ bs.mapIdx fun k b => LeaderOut.phase2a .clientBatch
      ⟨index, start + k, round, .commandBatch (b.map (·.data))⟩) :
    ∃ k, ∃ hk : k < bs.length, o = .phase2a .clientBatch
      ⟨index, start + k, round, .commandBatch ((bs.get ⟨k, hk⟩).map (·.data))⟩ := by
  obtain ⟨k, hk, rfl⟩ := List.mem_mapIdx.mp h
  exact ⟨k, hk, rfl⟩

/-- The leader in phase 2, before the pending batches. -/
theorem enterPhase2_eq (l : Leader) (values : List Phase1b) : ∃ h T,
    (h = l.resendPhase1as ∨ h = none) ∧
    (∀ t ∈ T.live, t ∈ l.timers.live ∨ t.callback = .noopFlush) ∧
    l.enterPhase2 values =
      ({ l with
          nextSlot := l.firstSlot values, resendPhase1as := h, state := .phase2, timers := T },
        [.toBatcher l.index (.leaderInfoReplyBatcher l.round), .toClient l.index l.round] ++
          (l.recoverSlots values).2) := by
  obtain ⟨h, T, hh, hT, heq⟩ :=
    stopResendPhase1as_eq { l with nextSlot := l.firstSlot values }
  refine ⟨h, T.schedule .noopFlush, hh, fun t ht => ?_, ?_⟩
  · rcases Timers.mem_schedule.mp ht with ht | ht
    · exact Or.inl (hT t ht)
    · exact Or.inr (by rw [ht]; rfl)
  · simp only [enterPhase2, recoverSlots_eq, heq, makeNoopFlushTimer]

/-- The result of the answer that completes phase 1. -/
theorem handlePhase1b_of_completes {m : Phase1b} {order : List ℕ} {l' : Leader} {out : List LeaderOut}
    (hc : l.Completes m) (h : l.handlePhase1b m order = some (l', out)) :
    HashMap.Enumerates order (l.insertPhase1b m).phase1bs ∧ ∀ l₂ out₂,
      (l.insertPhase1b m).enterPhase2 (l.valuesWith m order) = (l₂, out₂) →
      (l', out) = ({ l₂ with
          pendingClientRequestBatches := []
          nextSlot := l₂.nextSlot + l₂.pendingClientRequestBatches.length },
        out₂ ++ l₂.pendingClientRequestBatches.mapIdx fun k b => .phase2a .clientBatch
          ⟨l₂.index, l₂.nextSlot + k, l₂.round, .commandBatch (b.map (·.data))⟩) := by
  obtain ⟨hs, hr, hmaj⟩ := hc
  have hlt : ¬ HashMap.len (l.insertPhase1b m).phase1bs < (l.insertPhase1b m).majority :=
    not_lt.mpr hmaj
  simp only [handlePhase1b, hs, hr, ne_eq, not_true_eq_false, if_false, hlt] at h
  split_ifs at h with henum
  refine ⟨henum, fun l₂ out₂ heq => ?_⟩
  rw [← valuesWith, heq] at h
  simp only [processClientRequestBatches_eq] at h
  exact (Option.some.inj h).symm

/-- The result of every other answer. -/
theorem handlePhase1b_of_not_completes {m : Phase1b} {order : List ℕ} {l' : Leader}
    {out : List LeaderOut} (hc : ¬ l.Completes m) (h : l.handlePhase1b m order = some (l', out)) :
    out = [] ∧ (l' = l ∨ l.state = .phase1 ∧ m.round = l.round ∧ l' = l.insertPhase1b m) := by
  unfold handlePhase1b at h
  split at h
  · cases h; exact ⟨rfl, Or.inl rfl⟩
  · cases h; exact ⟨rfl, Or.inl rfl⟩
  · next hs =>
    dsimp only at h
    split_ifs at h with hr hlt
    · cases h; exact ⟨rfl, Or.inl rfl⟩
    · cases h; exact ⟨rfl, Or.inr ⟨hs, not_not.mp hr, rfl⟩⟩
    · exact absurd ⟨hs, not_not.mp hr, not_lt.mp hlt⟩ hc

theorem complete_move {m : Phase1b} {order : List ℕ} {l' : Leader} {out : List LeaderOut}
    (hc : l.Completes m) (h : l.handlePhase1b m order = some (l', out)) :
    Move l (.phase1b m order) l' out := by
  obtain ⟨t, T, ht, hT, heq⟩ := enterPhase2_eq (l.insertPhase1b m) (l.valuesWith m order)
  obtain ⟨henum, hres⟩ := handlePhase1b_of_completes hc h
  cases hres _ _ heq
  have hfirst : (l.insertPhase1b m).firstSlot (l.valuesWith m order) =
      l.firstSlot (l.valuesWith m order) := rfl
  refine .complete m order _ _ ⟨rfl, rfl, rfl⟩ hc henum rfl rfl rfl (Nat.le_add_right _ _) ht hT
    ?_ ?_ ?_
  · -- the messages: two notes, the recovered slots, the pending batches
    intro o ho
    rcases List.mem_append.mp ho with ho | ho
    · rcases List.mem_append.mp ho with ho | ho
      · left
        rcases List.mem_cons.mp ho with rfl | ho
        · trivial
        · rw [List.mem_singleton.mp ho]; trivial
      · obtain ⟨slot, -, -, -, rfl⟩ := mem_recoverSlots ho
        exact Or.inr ⟨_, _, rfl⟩
    · obtain ⟨k, hk, rfl⟩ := mem_mapIdx_batches ho
      exact Or.inr ⟨_, _, rfl⟩
  · intro origin p hp
    rcases List.mem_append.mp hp with hp | hp
    · obtain ⟨slot, h1, h2, h3, he⟩ := mem_recoverSlots (List.mem_append.mp hp |>.resolve_left (by simp))
      cases he
      exact ⟨rfl, rfl, Or.inl ⟨rfl, h1, h2, h3, rfl⟩⟩
    · obtain ⟨k, hk, he⟩ := mem_mapIdx_batches hp
      cases he
      exact ⟨rfl, rfl, Or.inr ⟨rfl, Nat.le_add_right _ _, Nat.add_lt_add_left hk _⟩⟩
  · intro o p o' p' hp hp' hslot
    have hrec : ∀ {o p}, LeaderOut.phase2a o p ∈
        [.toBatcher (l.insertPhase1b m).index (.leaderInfoReplyBatcher (l.insertPhase1b m).round),
          .toClient (l.insertPhase1b m).index (l.insertPhase1b m).round] ++
          ((l.insertPhase1b m).recoverSlots (l.valuesWith m order)).2 →
        p.slot < l.firstSlot (l.valuesWith m order) ∧
          p = ⟨l.index, p.slot, l.round, safeValue (l.valuesWith m order) p.slot⟩ := by
      intro o p hp
      obtain ⟨slot, -, h2, -, he⟩ := mem_recoverSlots (List.mem_append.mp hp |>.resolve_left (by simp))
      cases he
      exact ⟨h2, rfl⟩
    rcases List.mem_append.mp hp with hp | hp <;> rcases List.mem_append.mp hp' with hp' | hp'
    · rw [(hrec hp).2, (hrec hp').2, hslot]
    · obtain ⟨k, hk, he⟩ := mem_mapIdx_batches hp'
      have := (hrec hp).1
      cases he; simp only at hslot; omega
    · obtain ⟨k, hk, he⟩ := mem_mapIdx_batches hp
      have := (hrec hp').1
      cases he; simp only at hslot; omega
    · obtain ⟨k, hk, he⟩ := mem_mapIdx_batches hp
      obtain ⟨k', hk', he'⟩ := mem_mapIdx_batches hp'
      cases he; cases he'
      have : k = k' := by simp only at hslot; omega
      subst this; rfl

/-! ### All events -/

theorem handlePhase1b_move {m : Phase1b} {order : List ℕ} {l' : Leader} {out : List LeaderOut}
    (h : l.handlePhase1b m order = some (l', out)) : Move l (.phase1b m order) l' out := by
  by_cases hc : l.Completes m
  · exact complete_move hc h
  · obtain ⟨rfl, rfl | ⟨hs, hr, rfl⟩⟩ := handlePhase1b_of_not_completes hc h
    · exact Move.stay l' _ (by simp)
    · exact .collect m order hs hr

theorem handleTimeout_move {id : ℕ} {l' : Leader} {out : List LeaderOut}
    (h : l.handleTimeout id = some (l', out)) : Move l (.timeout id) l' out := by
  obtain ⟨⟨cb, T⟩, hfire, heq⟩ := Option.map_eq_some_iff.mp h
  obtain ⟨hlive, rfl⟩ := Timers.fire_eq_some hfire
  have hT : ∀ t ∈ (l.timers.remove id).live, t ∈ l.timers.live := fun t ht =>
    (Timers.mem_remove.mp ht).1
  cases cb with
  | resendPhase1as p =>
    cases heq
    refine .quiet _ _ _ ⟨rfl, rfl, rfl⟩ rfl rfl rfl rfl rfl le_rfl hT fun o ho => Or.inr ?_
    obtain ⟨pid, rfl⟩ := mem_sendPhase1a ho
    exact ⟨pid, p, rfl, id, hlive⟩
  | noopFlush =>
    cases heq
    obtain ⟨cb, hcb, he⟩ := Option.map_eq_some_iff.mp hfire
    cases he
    exact .propose _ _ .noopFlush .noop (Or.inr ⟨rfl, id, rfl, hcb⟩) ⟨rfl, rfl, rfl⟩ rfl rfl rfl rfl
      rfl rfl hT

theorem handleNack_move (hn : 1 ≤ l.roundSystem.n) (m : Nack) :
    Move l (.nack m) (l.handleNack m).1 (l.handleNack m).2 := by
  unfold handleNack
  split_ifs with hle
  · exact Move.stay l _ (by simp)
  · have hbase : l.round ≤ l.roundSystem.nextClassicRound l.index m.round := by
      have := ClassicRoundRobin.lt_nextClassicRound hn l.index m.round
      omega
    split
    · next hs => exact .follow m hs (not_le.mp hle)
    all_goals exact leaderChange_true_move _ hbase ⟨rfl, rfl, rfl⟩ rfl fun _ h => h

theorem handleClientRequestBatch_move (batcher : ℕ) (batch : List Proposal) :
    Move l (.clientRequestBatch batcher batch) (l.handleClientRequestBatch batcher batch).1
      (l.handleClientRequestBatch batcher batch).2 := by
  unfold handleClientRequestBatch
  split
  · exact Move.stay l _ fun o ho => by rw [List.mem_singleton.mp ho]; trivial
  · exact .quiet _ _ _ ⟨rfl, rfl, rfl⟩ rfl rfl rfl rfl rfl le_rfl (fun _ h => h) (by simp)
  · next hs =>
    exact .propose _ _ .clientBatch _ (Or.inl ⟨rfl, hs, _, _, rfl⟩) ⟨rfl, rfl, rfl⟩ rfl rfl rfl rfl
      rfl rfl fun _ h => h

theorem handleRecover_move (m : Recover) :
    Move l (.recover m) (l.handleRecover m).1 (l.handleRecover m).2 := by
  unfold handleRecover
  split
  · exact Move.stay l _ (by simp)
  all_goals exact leaderChange_move _ true

theorem handleLeaderInfoRequestBatcher_note {src batcher : ℕ} {o : LeaderOut}
    (ho : o ∈ l.handleLeaderInfoRequestBatcher src batcher) : IsNote o := by
  unfold handleLeaderInfoRequestBatcher at ho
  split_ifs at ho
  · cases ho
  · split at ho
    · cases ho
    · rw [List.mem_singleton.mp ho]; trivial

/-- **Every event has one of the effects of `Move`.** -/
theorem handle_move (hn : 1 ≤ l.roundSystem.n) {e : LeaderEvent} {l' : Leader}
    {out : List LeaderOut} (h : l.handle e = some (l', out)) : Move l e l' out := by
  have hpair : ∀ {x : Leader × List LeaderOut}, Move l e x.1 x.2 → x = (l', out) →
      Move l e l' out := fun hm he => by subst he; exact hm
  cases e with
  | indication leaderIndex => exact hpair (leaderChange_move _ _) (Option.some.inj h)
  | phase1b m order => exact handlePhase1b_move h
  | nack m => exact hpair (handleNack_move hn m) (Option.some.inj h)
  | chosenWatermark m =>
    cases h
    exact .quiet _ _ _ ⟨rfl, rfl, rfl⟩ rfl rfl rfl rfl rfl (le_max_left _ _) (fun _ h => h) (by simp)
  | recover m => exact hpair (handleRecover_move m) (Option.some.inj h)
  | clientRequestBatch batcher batch =>
    exact hpair (handleClientRequestBatch_move batcher batch) (Option.some.inj h)
  | leaderInfoRequestBatcher src batcher =>
    cases h
    exact Move.stay l _ fun o ho => handleLeaderInfoRequestBatcher_note ho
  | timeout id => exact handleTimeout_move h
  | partition e =>
    obtain ⟨part, -, he⟩ := Option.map_eq_some_iff.mp h
    cases he
    exact .quiet _ _ _ ⟨rfl, rfl, rfl⟩ rfl rfl rfl rfl rfl le_rfl (fun _ h => h) (by simp)

end OmniPaxosBench.MultiPaxos.Leader
