import OmniPaxosBench.MultiPaxos.Participant
import OmniPaxosBench.MultiPaxos.Synod
import OmniPaxosBench.Lib.Machine
import Mathlib.Data.List.Chain

/-! # Multi-Paxos: runs of election participants

The participants `1, …, n` are started with one initial leader, which may be none of them. A ping that
was sent can be delivered any number of times, at any time or never, and timers are due at any time.

A participant pings under its own index only, and no ping reaches its sender. So a ping that ends a
leadership names another leader, and a participant leads just when it is the leader of its ballot.

* `participants_orderly`: the invariants of all participants, before and after they are stopped.
* `quiet_iff_not_noisy`: a stopped participant stays quiet until the first ping that it does not take
  for stale. The ping handler does not check the flag. -/

namespace OmniPaxosBench.MultiPaxos

open OmniPaxosBench.Lib

structure Participants where
  node : ℕ → Participant
  /-- What each participant has sent and triggered. -/
  outs : ℕ → List ParticipantOut

namespace Participants

open Participant

/-- `l` is the initial leader. -/
def init (n l : ℕ) : Participants where
  node i := (Participant.new ((pids n).filter (· ≠ i)) i l).onStart
  outs _ := []

variable (n : ℕ) (s : Participants)

/-- The leaders a participant has indicated, in order. -/
def indicationsOf (out : List ParticipantOut) : List ℕ :=
  out.filterMap fun
    | .indication leader => some leader
    | _ => none

/-- The messages of the events of participant `i` were sent to it. -/
def Input (i : ℕ) : ParticipantEvent → Prop
  | .ping m => ∃ j ∈ pids n, .ping i m ∈ s.outs j
  | .peerStop pid => ∃ j ∈ pids n, .peerStop i pid ∈ s.outs j
  | _ => True

instance (i : ℕ) : ∀ e, Decidable (s.Input n i e)
  | .ping _ | .peerStop _ => inferInstanceAs (Decidable (∃ _ ∈ _, _))
  | .timeout _ | .stop _ | .partition _ => isTrue trivial

/-- Participant `i` has become `p` and sent `out`. -/
def set (i : ℕ) (p : Participant) (out : List ParticipantOut) : Participants where
  node := Function.update s.node i p
  outs := Function.update s.outs i (s.outs i ++ out)

/-- An event at a participant; `none` if it cannot happen. -/
def step : ℕ × ParticipantEvent → Option Participants
  | (i, e) =>
    if i ∈ pids n ∧ s.Input n i e then ((s.node i).handle e).map fun (p, out) => s.set i p out
    else none

def machine (n l : ℕ) : Machine Participants (ℕ × ParticipantEvent) := ⟨init n l, fun s e => s.step n e⟩

variable {n s} {t : Participants} {i j l : ℕ} {p p' : Participant} {e : ParticipantEvent}
  {out new : List ParticipantOut} {m : Ping}

theorem node_set_self : (s.set i p out).node i = p := Function.update_self ..

theorem node_set_of_ne (h : j ≠ i) : (s.set i p out).node j = s.node j := Function.update_of_ne h ..

theorem outs_set_self : (s.set i p out).outs i = s.outs i ++ out := Function.update_self ..

theorem outs_set_of_ne (h : j ≠ i) : (s.set i p out).outs j = s.outs j := Function.update_of_ne h ..

theorem step_cases {e : ℕ × ParticipantEvent} (h : s.step n e = some t) :
    ∃ i pe p out, e = (i, pe) ∧ i ∈ pids n ∧ s.Input n i pe ∧ (s.node i).handle pe = some (p, out) ∧
      t = s.set i p out := by
  obtain ⟨i, pe⟩ := e
  simp only [step] at h
  split_ifs at h with hin
  obtain ⟨⟨p, out⟩, hp, rfl⟩ := Option.map_eq_some_iff.mp h
  exact ⟨i, pe, p, out, rfl, hin.1, hin.2, hp, rfl⟩

/-! ### Outputs -/

theorem indicationsOf_append (out new : List ParticipantOut) :
    indicationsOf (out ++ new) = indicationsOf out ++ indicationsOf new := List.filterMap_append

theorem indicationsOf_ping (p : Participant) (round leader : ℕ) :
    indicationsOf (p.ping round leader) = [] := by
  refine List.filterMap_eq_nil_iff.mpr fun o ho => ?_
  obtain ⟨peer, -, rfl⟩ := List.mem_map.mp ho
  rfl

theorem indicationsOf_notes (h : ∀ o ∈ out, IsNote o) : indicationsOf out = [] := by
  refine List.filterMap_eq_nil_iff.mpr fun o ho => ?_
  have hnote := h o ho
  cases o with
  | ping => cases hnote
  | indication => cases hnote
  | peerStop => rfl
  | stopReply => rfl

/-! ### The invariant -/

/-- The indications switch between `i` and other indices. -/
def Alternate (i : ℕ) (leaders : List ℕ) : Prop := leaders.IsChain fun a b => a = i ↔ b ≠ i

/-- What holds of participant `i` and of all it has sent. -/
structure NodeInv (i : ℕ) (p : Participant) (out : List ParticipantOut) : Prop where
  index : p.index = i
  peers : ∀ j ∈ p.otherParticipants, j ≠ i
  timers : TimerInv p
  leads : p.state = .leader ↔ p.leaderIndex = i
  pings : ∀ peer m, .ping peer m ∈ out → m.leaderIndex = i ∧ peer ≠ i
  alternate : Alternate i (indicationsOf out)
  last : ∀ a ∈ (indicationsOf out).getLast?, a = i ↔ p.state = .leader

theorem nodeInv_onStart (peers : List ℕ) (i l : ℕ) (h : ∀ j ∈ peers, j ≠ i) :
    NodeInv i (Participant.new peers i l).onStart [] := by
  have hindex : (Participant.new peers i l).onStart.index = i := by
    unfold onStart
    split <;> rfl
  have hpeers : (Participant.new peers i l).onStart.otherParticipants = peers := by
    unfold onStart
    split <;> rfl
  have hstate : (Participant.new peers i l).onStart.state = if i = l then .leader else .follower := by
    unfold onStart
    split <;> rfl
  have hleader : (Participant.new peers i l).onStart.leaderIndex = l := by
    unfold onStart
    split <;> rfl
  refine ⟨hindex, by rwa [hpeers], timerInv_onStart peers i l, ?_, ?_, List.IsChain.nil, ?_⟩
  · rw [hstate, hleader]
    split_ifs with hil
    · exact ⟨fun _ => hil.symm, fun _ => rfl⟩
    · exact ⟨nofun, fun heq => absurd heq.symm hil⟩
  · intro peer m hm
    cases hm
  · intro a ha
    cases ha

theorem mem_ping {p : Participant} {round leader peer : ℕ} (h : .ping peer m ∈ p.ping round leader) :
    peer ∈ p.otherParticipants ∧ m.leaderIndex = leader := by
  obtain ⟨q, hq, heq⟩ := List.mem_map.mp h
  cases heq
  exact ⟨hq, rfl⟩

/-- One more indication, compared with the last one. -/
theorem Alternate.append {leaders : List ℕ} {a : ℕ} (h : Alternate i leaders)
    (hlast : ∀ b ∈ leaders.getLast?, b = i ↔ a ≠ i) : Alternate i (leaders ++ [a]) := by
  refine List.isChain_append.mpr ⟨h, List.isChain_singleton _, fun b hb c hc => ?_⟩
  obtain rfl : a = c := Option.some.inj hc
  exact hlast b hb

/-- An event without an indication. -/
theorem NodeInv.silent (h : NodeInv i p out) (hframe : Frame p p') (htimers : TimerInv p')
    (hleads : p'.state = .leader ↔ p'.leaderIndex = i) (hstate : p'.state = p.state)
    (hpings : ∀ peer m, .ping peer m ∈ new → m.leaderIndex = i ∧ peer ≠ i)
    (hnone : indicationsOf new = []) : NodeInv i p' (out ++ new) := by
  have hsame : indicationsOf (out ++ new) = indicationsOf out := by
    rw [indicationsOf_append, hnone, List.append_nil]
  refine ⟨hframe.index.trans h.index, ?_, htimers, hleads, fun peer m hm => ?_, ?_, ?_⟩
  · rw [hframe.otherParticipants]
    exact h.peers
  · exact (List.mem_append.mp hm).elim (h.pings peer m) (hpings peer m)
  · rw [hsame]
    exact h.alternate
  · rw [hsame, hstate]
    exact h.last

/-- An event after which the participant leads if it did not, and does not if it did. -/
theorem NodeInv.indicate (h : NodeInv i p out) (hframe : Frame p p') (htimers : TimerInv p')
    (hleads : p'.state = .leader ↔ p'.leaderIndex = i)
    (hswitch : p.state = .leader ↔ p'.state ≠ .leader)
    (hpings : ∀ peer m, .ping peer m ∈ new → m.leaderIndex = i ∧ peer ≠ i)
    (hone : indicationsOf new = [p'.leaderIndex]) : NodeInv i p' (out ++ new) := by
  have hind : indicationsOf (out ++ new) = indicationsOf out ++ [p'.leaderIndex] := by
    rw [indicationsOf_append, hone]
  refine ⟨hframe.index.trans h.index, ?_, htimers, hleads, fun peer m hm => ?_, ?_, ?_⟩
  · rw [hframe.otherParticipants]
    exact h.peers
  · exact (List.mem_append.mp hm).elim (h.pings peer m) (hpings peer m)
  · rw [hind]
    refine h.alternate.append fun b hb => ?_
    rw [h.last b hb, hswitch]
    exact not_congr hleads
  · rw [hind, List.getLast?_concat]
    intro a ha
    rw [← Option.some.inj ha]
    exact hleads.symm

theorem no_ping_of_notes (h : ∀ o ∈ new, IsNote o) :
    ∀ peer m, .ping peer m ∈ new → m.leaderIndex = i ∧ peer ≠ i := by
  intro peer m hm
  cases h _ hm

/-- **One event** keeps the invariant, if the ping it may deliver is from another participant. -/
theorem NodeInv.move (h : NodeInv i p out) (hm : Move p e p' new) (htimers : TimerInv p')
    (hping : ∀ m, e = .ping m → m.leaderIndex ≠ i) : NodeInv i p' (out ++ new) := by
  have hpings : ∀ round peer m, .ping peer m ∈ p.ping round p.index → m.leaderIndex = i ∧ peer ≠ i := by
    intro round peer m hin
    obtain ⟨hpeer, hleader⟩ := mem_ping hin
    exact ⟨hleader.trans h.index, h.peers peer hpeer⟩
  cases hm with
  | idle _ _ _ frame ballot leaderIndex state stopped timers outs =>
    refine h.silent frame htimers ?_ state (no_ping_of_notes outs) (indicationsOf_notes outs)
    rw [state, leaderIndex]
    exact h.leads
  | stop _ _ _ frame ballot leaderIndex state stopped live next outs =>
    refine h.silent frame htimers ?_ state (no_ping_of_notes outs) (indicationsOf_notes outs)
    rw [state, leaderIndex]
    exact h.leads
  | heard m _ frame had ballot state round leaderIndex stopped timer =>
    refine h.silent frame htimers ?_ (state.trans had.symm) nofun rfl
    rw [state, leaderIndex]
    exact ⟨nofun, fun heq => absurd heq (hping m rfl)⟩
  | tick _ state live =>
    exact h.silent ⟨rfl, rfl⟩ htimers h.leads rfl (hpings _) (indicationsOf_ping ..)
  | claim _ _ frame had live state round leaderIndex stopped timer =>
    refine h.indicate frame htimers ?_ ?_ (fun peer m hin => ?_) ?_
    · rw [state, leaderIndex, h.index]
      exact ⟨fun _ => rfl, fun _ => rfl⟩
    · rw [had, state]
      exact ⟨nofun, fun hne => absurd rfl hne⟩
    · rcases List.mem_append.mp hin with hin | hin
      · exact hpings _ peer m hin
      · cases List.mem_singleton.mp hin
    · rw [indicationsOf_append, indicationsOf_ping, leaderIndex]
      rfl
  | yield m _ frame had ballot state round leaderIndex stopped timer =>
    refine h.indicate frame htimers ?_ ?_ (fun peer m' hin => ?_) ?_
    · rw [state, leaderIndex]
      exact ⟨nofun, fun heq => absurd heq (hping m rfl)⟩
    · rw [had, state]
      exact ⟨fun _ => nofun, fun _ => rfl⟩
    · cases List.mem_singleton.mp hin
    · rw [leaderIndex]
      rfl

theorem nodeInv_of_reachable (h : (machine n l).Reachable s) :
    ∀ i ∈ pids n, NodeInv i (s.node i) (s.outs i) := by
  refine h.invariant (P := fun s => ∀ i ∈ pids n, NodeInv i (s.node i) (s.outs i)) ?_ ?_
  · intro i _
    refine nodeInv_onStart _ i l fun j hj => ?_
    exact of_decide_eq_true (List.mem_filter.mp hj).2
  · intro s e t _ hs hstep j hj
    obtain ⟨i, pe, p, out, rfl, hi, hin, hp, rfl⟩ := step_cases hstep
    by_cases hji : j = i
    · subst hji
      rw [node_set_self, outs_set_self]
      obtain ⟨hm, htimers⟩ := handle_move (hs j hj).timers hp
      refine (hs j hj).move hm htimers ?_
      -- the ping was sent by another participant, under its own index
      rintro m rfl
      obtain ⟨k, hk, hsent⟩ := hin
      obtain ⟨hleader, hne⟩ := (hs k hk).pings _ _ hsent
      rw [hleader]
      exact hne.symm
    · rw [node_set_of_ne hji, outs_set_of_ne hji]
      exact hs j hj

/-! ### Ballots -/

theorem ballot_le_of_move (hm : Move p e p' new) : p.ballot ≤ p'.ballot := by
  cases hm with
  | idle _ _ _ _ ballot => exact ballot.ge
  | stop _ _ _ _ ballot => exact ballot.ge
  | tick => exact le_rfl
  | claim _ _ _ _ _ _ round =>
    refine le_of_lt (Prod.Lex.lt_iff.mpr (Or.inl ?_))
    change p.round < p'.round
    omega
  | heard m _ _ _ ballot _ round leaderIndex =>
    have heq : p'.ballot = m.ballot := congrArg₂ (fun r l => toLex (r, l)) round leaderIndex
    rw [heq]
    exact not_lt.mp ballot
  | yield m _ _ _ ballot _ round leaderIndex =>
    have heq : p'.ballot = m.ballot := congrArg₂ (fun r l => toLex (r, l)) round leaderIndex
    rw [heq]
    exact ballot.le

theorem ballot_le_of_step {e : ℕ × ParticipantEvent} (hs : (machine n l).Reachable s)
    (h : s.step n e = some t) (j : ℕ) : (s.node j).ballot ≤ (t.node j).ballot := by
  obtain ⟨i, pe, p, out, rfl, hi, hin, hp, rfl⟩ := step_cases h
  by_cases hji : j = i
  · subst hji
    rw [node_set_self]
    exact ballot_le_of_move (handle_move (nodeInv_of_reachable hs j hi).timers hp).1
  · rw [node_set_of_ne hji]

theorem ballot_le_of_run (hs : (machine n l).Reachable s) {es : List (ℕ × ParticipantEvent)}
    (h : (machine n l).run s es = some t) (j : ℕ) : (s.node j).ballot ≤ (t.node j).ballot := by
  induction es generalizing s with
  | nil =>
    cases h
    exact le_rfl
  | cons e es ih =>
    rw [Machine.run_cons, Option.bind_eq_some_iff] at h
    obtain ⟨s1, h1, h2⟩ := h
    exact (ballot_le_of_step hs h1 j).trans (ih (hs.step h1) h2)

/-! ### The election invariants -/

/-- One timer is live: the ping timer of a leader, the no-ping timer of a follower. Its handle is kept,
and the handle of the other timer is not. -/
def OneTimer (p : Participant) : Prop := ∃ t, p.timers.live = [t] ∧
  match p.state with
  | .leader => t.callback = .ping ∧ p.pingTimer = some t ∧ p.noPingTimer = none
  | .follower => t.callback = .noPing ∧ p.noPingTimer = some t ∧ p.pingTimer = none

/-- What the election promises of participant `i`. -/
structure Orderly (n l : ℕ) (s : Participants) (i : ℕ) : Prop where
  index : (s.node i).index = i
  leads : (s.node i).state = .leader ↔ (s.node i).leaderIndex = (s.node i).index
  timer : (s.node i).stopped = false → OneTimer (s.node i)
  /-- Whenever `i` has sent a ping, the ping carries the index of `i`. -/
  pings : ∀ peer m, .ping peer m ∈ s.outs i → m.leaderIndex = i
  alternate : Alternate i (indicationsOf (s.outs i))
  /-- Round and leader index never decrease. -/
  ballot : ∀ es t, (machine n l).run s es = some t → (s.node i).ballot ≤ (t.node i).ballot

theorem oneTimer_of_timerInv (h : TimerInv p) (hrun : p.stopped = false) : OneTimer p := by
  unfold OneTimer
  cases hstate : p.state with
  | leader =>
    obtain ⟨hno, hping⟩ := h.leader hstate
    obtain ⟨t, hlive, hkept⟩ := Timers.live_eq_singleton (fun t ht => (hping t ht).1) (h.running hrun)
    have ht : t ∈ p.timers.live := by rw [hlive]; exact List.mem_singleton_self t
    exact ⟨t, hlive, (hping t ht).2, hkept, hno⟩
  | follower =>
    obtain ⟨hping, hno⟩ := h.follower hstate
    obtain ⟨t, hlive, hkept⟩ := Timers.live_eq_singleton (fun t ht => (hno t ht).1) (h.running hrun)
    have ht : t ∈ p.timers.live := by rw [hlive]; exact List.mem_singleton_self t
    exact ⟨t, hlive, (hno t ht).2, hkept, hping⟩

/-- **The election invariants** hold of every participant in every run, with one timer for as long as it
was not stopped. -/
theorem participants_orderly {n l : ℕ} {s : Participants} (hs : (machine n l).Reachable s) {i : ℕ}
    (hi : i ∈ pids n) : Orderly n l s i := by
  have h := nodeInv_of_reachable hs i hi
  refine ⟨h.index, ?_, oneTimer_of_timerInv h.timers, fun peer m hm => (h.pings peer m hm).1,
    h.alternate, fun es t ht => ballot_le_of_run hs ht i⟩
  rw [h.index]
  exact h.leads

/-- Participant 2 hears of the initial leader 1, hears no more of it, and takes over. Participant 1 has
yielded when it claims the next round for itself. -/
def takeOver : List (ℕ × ParticipantEvent) :=
  [(1, .timeout 0), (2, .ping ⟨0, 1⟩), (2, .timeout 1), (1, .ping ⟨1, 2⟩), (1, .timeout 1)]

theorem takeOver_orderly : ∃ s, (machine 3 1).run (machine 3 1).init takeOver = some s ∧
    indicationsOf (s.outs 1) = [2, 1] ∧ (s.node 1).state = .leader ∧ Orderly 3 1 s 1 := by
  refine ⟨_, rfl, by decide, by decide, participants_orderly ?_ (by decide)⟩
  exact Machine.reachable_of_run (show (machine 3 1).run (machine 3 1).init takeOver = some _ from rfl)

/-! ### Stopped participants -/

/-- What participant `i` has sent and triggered between two states. -/
def newOuts (s t : Participants) (i : ℕ) : List ParticipantOut := (t.outs i).drop (s.outs i).length

/-- If the participant was stopped before the step, then it starts no timer and neither pings nor
indicates a leader. -/
def Quiet (n : ℕ) (s : Participants) : ℕ × ParticipantEvent → Prop
  | (i, e) => (s.node i).stopped = true → ∀ t, s.step n (i, e) = some t →
      (t.node i).timers.next = (s.node i).timers.next ∧ ∀ o ∈ newOuts s t i, IsNote o

/-- A stopped participant gets a ping that it heeds. -/
def Noisy (n : ℕ) (s : Participants) : ℕ × ParticipantEvent → Prop
  | (i, .ping m) => i ∈ pids n ∧ s.Input n i (.ping m) ∧ (s.node i).stopped = true ∧ (s.node i).Heeds m
  | _ => False

/-- Stopped participants have no timer. -/
def Halted (s : Participants) : Prop := ∀ i, TimerInv (s.node i) ∧
  ((s.node i).stopped = true → (s.node i).timers.live = [])

theorem newOuts_set : newOuts s (s.set i p out) i = out := by
  unfold newOuts
  rw [outs_set_self, List.drop_left]

theorem heeds_of_not_noisy (h : ¬ Noisy n s (i, e)) (hi : i ∈ pids n) (hin : s.Input n i e) :
    ∀ m, e = .ping m → (s.node i).stopped = true → ¬ (s.node i).Heeds m := by
  rintro m rfl hstop hm
  exact h ⟨hi, hin, hstop, hm⟩

theorem quiet_iff_of_halted (hs : Halted s) (e : ℕ × ParticipantEvent) :
    Quiet n s e ↔ ¬ Noisy n s e := by
  constructor
  · intro hquiet hnoisy
    obtain ⟨i, e⟩ := e
    cases e with
    | ping m =>
      obtain ⟨hi, hin, hstop, hm⟩ := hnoisy
      have hstep : s.step n (i, .ping m) =
          some (s.set i ((s.node i).receivePing m).1 ((s.node i).receivePing m).2) := by
        simp only [step]
        rw [if_pos ⟨hi, hin⟩]
        rfl
      obtain ⟨hnext, -⟩ := hquiet hstop _ hstep
      rw [node_set_self, next_of_heeds (hs i).1 hm] at hnext
      omega
    | _ => cases hnoisy
  · intro hnoisy
    obtain ⟨i, e⟩ := e
    intro hstop t ht
    obtain ⟨_, _, p, out, ⟨⟩, hi, hin, hp, rfl⟩ := step_cases ht
    rw [node_set_self, newOuts_set]
    exact (handle_stopped (hs i).1 (hs i).2 (heeds_of_not_noisy hnoisy hi hin) hp).2 hstop

theorem Halted.step {e : ℕ × ParticipantEvent} (hs : Halted s) (hnoisy : ¬ Noisy n s e)
    (h : s.step n e = some t) : Halted t := by
  obtain ⟨i, pe, p, out, rfl, hi, hin, hp, rfl⟩ := step_cases h
  intro j
  by_cases hji : j = i
  · subst hji
    rw [node_set_self]
    exact ⟨(handle_move (hs j).1 hp).2,
      (handle_stopped (hs j).1 (hs j).2 (heeds_of_not_noisy hnoisy hi hin) hp).1⟩
  · rw [node_set_of_ne hji]
    exact hs j

theorem halted_init (n l : ℕ) : Halted (init n l) := by
  intro i
  refine ⟨timerInv_onStart _ i l, fun hstop => ?_⟩
  have hrun : ((init n l).node i).stopped = false := by
    unfold init onStart
    dsimp only
    split <;> rfl
  rw [hrun] at hstop
  cases hstop

/-- **Quiet after a stop**: in a run the stopped participants stay quiet if and only if none of them gets
a ping that it heeds. -/
theorem quiet_iff_not_noisy (n l : ℕ) (es : List (ℕ × ParticipantEvent)) :
    (machine n l).AllSteps (Quiet n) (machine n l).init es ↔
      (machine n l).AllSteps (fun s e => ¬ Noisy n s e) (machine n l).init es :=
  Machine.allSteps_iff_of_invariant (J := Halted) (fun _ e hs => quiet_iff_of_halted hs e)
    (fun _ _ _ hs hnoisy h => hs.step hnoisy h) (halted_init n l) es

/-- Participant 2 is stopped before its leader, whose next ping reaches it. -/
def lateStop : List (ℕ × ParticipantEvent) := [(1, .timeout 0), (2, .stop 2)]

/-- The ping starts the no-ping timer of participant 2 again. When it is due, the stopped participant
claims the next round, pings and indicates itself. -/
theorem late_ping_heard : ∃ s t, (machine 2 1).run (machine 2 1).init lateStop = some s ∧
    (s.node 2).stopped = true ∧ (s.node 2).timers.live = [] ∧
    (machine 2 1).run s [(2, .ping ⟨0, 1⟩), (2, .timeout 1)] = some t ∧
    newOuts s t 2 = [.ping 1 ⟨1, 2⟩, .indication 2] ∧
    ¬ (machine 2 1).AllSteps (Quiet 2) (machine 2 1).init (lateStop ++ [(2, .ping ⟨0, 1⟩)]) := by
  refine ⟨_, _, rfl, by decide, by decide, rfl, by decide, fun hquiet => ?_⟩
  have hlast := hquiet.last rfl
  have hnext := (hlast (by decide) _ rfl).1
  revert hnext
  decide

end Participants

end OmniPaxosBench.MultiPaxos
