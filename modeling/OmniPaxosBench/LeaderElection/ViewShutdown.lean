import OmniPaxosBench.LeaderElection.VRLeaderElectionComp
import OmniPaxosBench.Lib.Machine

/-! # View-change leader election: stopped nodes

Any number of nodes with one list of views, each started and stopped at any time. A message that was
sent can be delivered any number of times, at any time or never.

A node that is stopped cancels its timer and answers no heartbeat. The handlers of the view change do
not check the flag: a stopped node still enters the views it hears of, asks a candidate to lead, follows
it with a heartbeat and a new timer, and takes the lead itself. `Rouses` lists these cases from the
state before the event; `quiet_iff_not_roused` shows that there are no others. -/

namespace OmniPaxosBench.LeaderElection

open OmniPaxosBench.Lib

namespace VRLeaderElectionComp

/-! ### One node -/

/-- Neither a message of the view change, a heartbeat request nor an indication. -/
def IsSilent : VROut → Prop
  | .vr _ _ | .hbRequest _ _ | .indication _ => False
  | _ => True

/-- The messages a node acts on although it may be stopped: the announcement of a higher view, the one
that makes a majority in the view of another node, and the vote that makes a majority for itself. -/
def Rouses (c : VRLeaderElectionComp) : VREvent → Prop
  | .vr (.startViewChange b sender) => sender ∉ c.disconnectedPeers ∧
      (c.viewchangeStatus.ballot.n < b.n ∨
        (c.viewchangeStatus = .viewChange b (c.majority - 1) ∧ b.pid ≠ c.pid ∧ b.pid ∈ c.views))
  | .vr (.doViewChange b sender) => sender ∉ c.disconnectedPeers ∧
      c.viewchangeStatus = .candidate b (c.majority - 1)
  | _ => False

instance (c : VRLeaderElectionComp) : ∀ e, Decidable (c.Rouses e)
  | .vr (.startViewChange _ _) | .vr (.doViewChange _ _) => inferInstanceAs (Decidable (_ ∧ _))
  | .start | .timeout _ | .request _ _ | .reply _ | .stop _ | .peerStop _ | .partition _ =>
    inferInstanceAs (Decidable False)

/-- The handle of a live timer is kept. -/
def Kept (c : VRLeaderElectionComp) : Prop := ∀ t ∈ c.timers.live, c.timer = some t

/-- The effects of an event on the timers: nothing; a stop; what a timer or the start of the node sets
off; what a message of the view change sets off. -/
inductive Effect (c : VRLeaderElectionComp) : VREvent → VRLeaderElectionComp → List VROut → Prop
  | calm (e : VREvent) (c' : VRLeaderElectionComp) (out : List VROut) (stopped : c'.stopped = c.stopped)
      (timer : c'.timer = c.timer) (timers : c'.timers = c.timers) (outs : ∀ o ∈ out, IsSilent o) :
      Effect c e c' out
  | stop (pid : ℕ) (c' : VRLeaderElectionComp) (out : List VROut) (stopped : c'.stopped = true)
      (live : c'.timers.live = []) (next : c'.timers.next = c.timers.next)
      (outs : ∀ o ∈ out, IsSilent o) : Effect c (.stop pid) c' out
  | due (e : VREvent) (c' : VRLeaderElectionComp) (out : List VROut)
      (cause : e = .start ∨ c.timers.live ≠ []) (stopped : c'.stopped = c.stopped) (kept : Kept c') :
      Effect c e c' out
  | roused (e : VREvent) (c' : VRLeaderElectionComp) (out : List VROut) (cause : c.Rouses e)
      (stopped : c'.stopped = c.stopped) (kept : Kept c') : Effect c e c' out

variable {c c' : VRLeaderElectionComp} {out : List VROut} {e : VREvent} {b : Ballot} {sender : ℕ}

theorem Effect.stay (c : VRLeaderElectionComp) (e : VREvent) : Effect c e c [] :=
  .calm e c [] rfl rfl rfl nofun

theorem kept_of_nil (h : c.timers.live = []) : Kept c := by
  intro t ht
  rw [h] at ht
  cases ht

/-- `stopTimer` leaves no timer. -/
theorem stopTimer_live (h : Kept c) : ∃ t T, c.stopTimer = { c with timer := t, timers := T } ∧
    T.live = [] ∧ T.next = c.timers.next := by
  unfold stopTimer
  unfold Kept at h
  cases ht : c.timer with
  | some t =>
    rw [ht] at h
    exact ⟨_, _, rfl, Timers.live_cancel h, rfl⟩
  | none =>
    rw [ht] at h
    refine ⟨c.timer, c.timers, rfl, ?_, rfl⟩
    exact List.eq_nil_iff_forall_not_mem.mpr fun t ht => by cases h t ht

/-- A new heartbeat round starts one timer, keeps its handle, and asks the leader. -/
theorem newHbRound_timer (hlive : c.timers.live = []) (h : c.newHbRound = .ok (c', out)) :
    Kept c' ∧ c'.stopped = c.stopped := by
  unfold newHbRound at h
  dsimp only at h
  split at h
  · split at h
    · cases h
      refine ⟨fun t ht => ?_, rfl⟩
      rcases Timers.mem_schedule.mp ht with ht | rfl
      · rw [hlive] at ht
        cases ht
      · rfl
    · cases h
  · cases h

theorem hbTimeout_kept (hlive : c.timers.live = []) (h : c.hbTimeout b = .ok (c', out)) :
    Kept c' ∧ c'.stopped = c.stopped := by
  unfold hbTimeout at h
  split at h
  · split_ifs at h
    · exact newHbRound_timer hlive h
    · cases h
      exact ⟨kept_of_nil hlive, rfl⟩
    · cases h
      exact ⟨kept_of_nil hlive, rfl⟩
  · cases h
    exact ⟨kept_of_nil hlive, rfl⟩

theorem handleStartViewChange_effect (h : Kept c)
    (hres : c.handleStartViewChange b sender = .ok (c', out)) :
    Effect c (.vr (.startViewChange b sender)) c' out := by
  rcases handleStartViewChange_cases hres with ⟨rfl, rfl⟩ | ⟨hdis, ⟨hlt, heq⟩ | ⟨k, hl, hcases⟩⟩
  · exact Effect.stay c' _
  · cases heq
    exact .roused _ _ _ ⟨hdis, Or.inl hlt⟩ rfl h
  · rcases hcases with ⟨-, rfl, rfl⟩ | ⟨-, -, rfl, rfl⟩ | ⟨hmaj, hown, hin, out', hr, rfl⟩
    · exact .calm _ _ _ rfl rfl rfl nofun
    · exact .calm _ _ _ rfl rfl rfl nofun
    · obtain ⟨t, T, hstop, hlive, -⟩ := stopTimer_live (c := { c with viewchangeStatus := .elected b }) h
      rw [hstop] at hr
      obtain ⟨hkept, hstopped⟩ := newHbRound_timer
        (c := { c with viewchangeStatus := .elected b, timer := t, timers := T }) hlive hr
      refine .roused _ _ _ ⟨hdis, Or.inr ⟨?_, hown, hin⟩⟩ hstopped hkept
      rw [hl, ← hmaj]
      rfl

theorem handleDoViewChange_effect (h : Kept c) (hres : c.handleDoViewChange b sender = .ok (c', out)) :
    Effect c (.vr (.doViewChange b sender)) c' out := by
  rcases handleDoViewChange_cases hres with ⟨rfl, rfl⟩ | ⟨hdis, k, hl, ⟨-, rfl, rfl⟩ | ⟨hmaj, rfl, rfl⟩⟩
  · exact Effect.stay c' _
  · exact .calm _ _ _ rfl rfl rfl nofun
  · obtain ⟨t, T, hstop, hlive, -⟩ := stopTimer_live h
    rw [hstop]
    refine .roused _ _ _ ⟨hdis, ?_⟩ rfl (kept_of_nil hlive)
    rw [hl, ← hmaj]
    rfl

theorem handleStop_effect {pid : ℕ} (h : Kept c) (hres : c.handleStop pid = .ok (c', out)) :
    Effect c (.stop pid) c' out := by
  obtain ⟨⟨ask, rfl⟩, hout⟩ := handleStop_cases hres
  obtain ⟨t, T, hstop, hlive, hnext⟩ := stopTimer_live (c := { c with disconnectedPeers := [] }) h
  rw [hstop]
  refine .stop pid _ _ rfl hlive hnext fun o ho => ?_
  rcases hout o ho with ⟨peer, rfl⟩ | rfl
  · trivial
  · trivial

theorem handlePeerStop_effect {pid : ℕ} (hres : c.handlePeerStop pid = .ok (c', out)) :
    Effect c (.peerStop pid) c' out := by
  obtain ⟨⟨ask, rfl⟩, hout⟩ := handlePeerStop_cases hres
  refine .calm _ _ _ rfl rfl rfl fun o ho => ?_
  rw [hout o ho]
  trivial

theorem handleReply_effect {m : HeartbeatReply} (hres : c.handleReply m = .ok (c', out)) :
    Effect c (.reply m) c' out := by
  obtain ⟨⟨alive, rfl⟩, rfl⟩ := handleReply_cases hres
  exact .calm _ _ _ rfl rfl rfl nofun

/-- **Every event that does not panic has one of the effects of `Effect`**; a node has no timer before it
is started. -/
theorem handle_effect (h : Kept c) (hstart : e = .start → c.timers.live = [])
    (hres : c.handle e = some (.ok (c', out))) : Effect c e c' out := by
  cases e with
  | start =>
    obtain ⟨hkept, hstopped⟩ := hbTimeout_kept (hstart rfl) (Option.some.inj hres)
    exact .due _ _ _ (Or.inl rfl) hstopped hkept
  | timeout id =>
    obtain ⟨⟨b, T⟩, hfire, heq⟩ := Option.map_eq_some_iff.mp hres
    obtain ⟨hin, rfl⟩ := Timers.fire_eq_some hfire
    -- the timer that fires is the only one
    have hlive : (c.timers.remove id).live = [] := Timers.live_cancel (t := ⟨id, b⟩) fun u hu =>
      (h _ hin).symm.trans (h u hu)
    obtain ⟨hkept, hstopped⟩ := hbTimeout_kept (c := { c with timers := c.timers.remove id }) hlive heq
    exact .due _ _ _ (Or.inr (List.ne_nil_of_mem hin)) hstopped hkept
  | request sender round =>
    have heq : c.handleRequest sender round = .ok (c', out) := Option.some.inj hres
    unfold handleRequest at heq
    split_ifs at heq
    · cases heq
      exact Effect.stay c _
    · cases heq
      refine .calm _ _ _ rfl rfl rfl fun o ho => ?_
      rw [List.mem_singleton.mp ho]
      trivial
  | reply m => exact handleReply_effect (Option.some.inj hres)
  | vr m =>
    cases m with
    | startViewChange b sender => exact handleStartViewChange_effect h (Option.some.inj hres)
    | doViewChange b sender => exact handleDoViewChange_effect h (Option.some.inj hres)
  | stop pid => exact handleStop_effect h (Option.some.inj hres)
  | peerStop pid => exact handlePeerStop_effect (Option.some.inj hres)
  | partition e =>
    obtain ⟨part, -, heq⟩ := Option.map_eq_some_iff.mp hres
    cases heq
    exact .calm _ _ _ rfl rfl rfl nofun

/-- A stopped node without timers stays so until it is roused. -/
theorem Effect.quiet (h : Effect c e c' out) (hstart : e ≠ .start) (hlive : c.timers.live = [])
    (hrouses : ¬ c.Rouses e) : c'.timers.live = [] ∧ c'.timers.next = c.timers.next ∧
      ∀ o ∈ out, IsSilent o := by
  cases h with
  | calm _ _ _ stopped timer timers outs =>
    rw [timers]
    exact ⟨hlive, rfl, outs⟩
  | stop pid _ _ stopped live next outs => exact ⟨live, next, outs⟩
  | due _ _ _ cause => exact absurd hlive (cause.resolve_left hstart)
  | roused _ _ _ cause => exact absurd cause hrouses

theorem Effect.kept (h : Effect c e c' out) (hkept : Kept c) : Kept c' := by
  cases h with
  | calm _ _ _ stopped timer timers =>
    unfold Kept
    rw [timer, timers]
    exact hkept
  | stop _ _ _ _ live => exact kept_of_nil live
  | due _ _ _ _ _ kept => exact kept
  | roused _ _ _ _ _ kept => exact kept

/-- The step in which a node is stopped. -/
theorem Effect.stopped (h : Effect c e c' out) (hrun : c.stopped = false) (hstop : c'.stopped = true) :
    c'.timers.live = [] := by
  have hsame : c'.stopped = c.stopped → c'.timers.live = [] := by
    intro heq
    rw [heq, hrun] at hstop
    cases hstop
  cases h with
  | calm _ _ _ stopped => exact hsame stopped
  | stop _ _ _ _ live => exact live
  | due _ _ _ _ stopped => exact hsame stopped
  | roused _ _ _ _ stopped => exact hsame stopped

/-- A majority in the view of another node. -/
theorem handleStartViewChange_majority (hdis : sender ∉ c.disconnectedPeers) (hmaj : 1 ≤ c.majority)
    (hstatus : c.viewchangeStatus = .viewChange b (c.majority - 1)) (hown : b.pid ≠ c.pid)
    (hin : b.pid ∈ c.views) : ∃ c' out, c.handleStartViewChange b sender =
      .ok (c', .vr b.pid (.doViewChange b c'.pid) :: out) := by
  obtain ⟨t, T, hstop⟩ := stopTimer_eq { c with viewchangeStatus := .elected b }
  unfold handleStartViewChange
  rw [if_neg hdis, hstatus]
  dsimp only
  rw [if_neg (lt_irrefl _), if_pos rfl, if_pos (by omega), if_neg hown, find_pid_of_mem hin]
  dsimp only
  rw [hstop]
  cases hr : newHbRound { c with viewchangeStatus := .elected b, timer := t, timers := T } with
  | ok x => exact ⟨x.1, x.2, rfl⟩
  | error p =>
    rcases newHbRound_error hr with hne | ⟨l, hl, hmem⟩
    · exact absurd rfl (hne b)
    · cases hl
      exact absurd hin hmem

theorem handleDoViewChange_majority (hdis : sender ∉ c.disconnectedPeers) (hmaj : 1 ≤ c.majority)
    (hstatus : c.viewchangeStatus = .candidate b (c.majority - 1)) :
    ∃ c', c.handleDoViewChange b sender = .ok (c', [.indication ⟨c.pid, b⟩]) := by
  obtain ⟨t, T, hstop⟩ := stopTimer_eq c
  unfold handleDoViewChange
  rw [if_neg hdis, hstatus]
  dsimp only
  rw [if_pos rfl, if_pos (by omega), hstop]
  exact ⟨_, rfl⟩

/-- A node that is roused is heard of, if there is another node. -/
theorem loud_of_rouses (h : c.Rouses e) (hmaj : 1 ≤ c.majority) (hpeer : ∃ j ∈ c.views, j ≠ c.pid) :
    ∃ c' out, c.handle e = some (.ok (c', out)) ∧ ∃ o ∈ out, ¬ IsSilent o := by
  cases e with
  | vr m =>
    cases m with
    | startViewChange b sender =>
      obtain ⟨hdis, hlt | ⟨hstatus, hown, hin⟩⟩ := h
      · obtain ⟨j, hj, hne⟩ := hpeer
        refine ⟨_, _, handle_higher hdis hlt,
          .vr j (.startViewChange b c.pid), ?_, nofun⟩
        exact List.mem_map.mpr ⟨j, List.mem_filter.mpr ⟨hj, decide_eq_true hne⟩, rfl⟩
      · obtain ⟨c', out, heq⟩ := handleStartViewChange_majority hdis hmaj hstatus hown hin
        exact ⟨_, _, congrArg some heq, _, List.mem_cons_self, nofun⟩
    | doViewChange b sender =>
      obtain ⟨c', heq⟩ := handleDoViewChange_majority h.1 hmaj h.2
      exact ⟨_, _, congrArg some heq, _, List.mem_cons_self, nofun⟩
  | _ => cases h

/-- The messages of the view change go to others. -/
theorem ne_pid_of_move (hm : Move c e c' out) {peer : ℕ} {m : VRMsg} (h : .vr peer m ∈ out) :
    peer ≠ c.pid := by
  cases hm with
  | quiet _ _ _ _ _ _ outs => cases outs _ h
  | enter _ _ b =>
    obtain ⟨j, hj, heq⟩ := List.mem_map.mp h
    cases heq
    exact of_decide_eq_true (List.mem_filter.mp hj).2
  | count => cases h
  | stand => cases h
  | follow _ b _ _ _ _ _ _ other _ _ outs =>
    rcases List.mem_cons.mp h with heq | h
    · cases heq
      exact other
    · cases outs _ h
  | vote => cases h
  | win => cases List.mem_singleton.mp h

end VRLeaderElectionComp

/-! ### The nodes together -/

structure ViewNodes where
  node : ℕ → VRLeaderElectionComp
  started : ℕ → Bool
  /-- What each node has sent and triggered. -/
  outs : ℕ → List VROut

namespace ViewNodes

open VRLeaderElectionComp

def init (views : List ℕ) : ViewNodes where
  node i := new views i
  started _ := false
  outs _ := []

variable (views : List ℕ) (s : ViewNodes)

/-- A node is started once and then gets messages that were sent to it. -/
def Input (i : ℕ) : VREvent → Prop
  | .start => s.started i = false
  | .vr m => s.started i = true ∧ ∃ j ∈ views, .vr i m ∈ s.outs j
  | .request sender round => s.started i = true ∧ sender ∈ views ∧ .hbRequest i round ∈ s.outs sender
  | .reply m => s.started i = true ∧ ∃ j ∈ views, .hbReply i m ∈ s.outs j
  | .peerStop pid => s.started i = true ∧ ∃ j ∈ views, .peerStop i pid ∈ s.outs j
  | .timeout _ | .stop _ | .partition _ => s.started i = true

instance (i : ℕ) : ∀ e, Decidable (s.Input views i e)
  | .start | .timeout _ | .stop _ | .partition _ => inferInstanceAs (Decidable (_ = _))
  | .vr _ | .request _ _ | .reply _ | .peerStop _ => inferInstanceAs (Decidable (_ ∧ _))

/-- Node `i` has become `c` and sent `out`. -/
def set (i : ℕ) (c : VRLeaderElectionComp) (out : List VROut) : ViewNodes where
  node := Function.update s.node i c
  started := Function.update s.started i true
  outs := Function.update s.outs i (s.outs i ++ out)

/-- An event at a node; `none` if it cannot happen, or panics. -/
def step : ℕ × VREvent → Option ViewNodes
  | (i, e) =>
    if i ∈ views ∧ s.Input views i e then
      match (s.node i).handle e with
      | some (.ok (c, out)) => some (s.set i c out)
      | _ => none
    else none

def machine : Machine ViewNodes (ℕ × VREvent) := ⟨init views, fun s e => s.step views e⟩

/-- What node `i` has sent and triggered between two states. -/
def newOuts (s t : ViewNodes) (i : ℕ) : List VROut := (t.outs i).drop (s.outs i).length

/-- If the node was stopped before the step, then it starts no timer, sends no message of the view
change and no heartbeat request, and indicates no leader. -/
def Quiet (s : ViewNodes) : ℕ × VREvent → Prop
  | (i, e) => (s.node i).stopped = true → ∀ t, s.step views (i, e) = some t →
      (t.node i).timers.next = (s.node i).timers.next ∧ ∀ o ∈ newOuts s t i, IsSilent o

/-- A stopped node gets a message of the view change that it acts on. -/
def Roused (s : ViewNodes) : ℕ × VREvent → Prop
  | (i, e) => i ∈ views ∧ s.Input views i e ∧ (s.node i).stopped = true ∧ (s.node i).Rouses e

/-- What holds of node `i`, which is `c` and has sent `out`, as long as no stopped node is roused. -/
structure NodeInv (i : ℕ) (c : VRLeaderElectionComp) (started : Bool) (out : List VROut) : Prop where
  pid : c.pid = i
  sameViews : c.views = views
  majority : 1 ≤ c.majority
  kept : Kept c
  idle : started = false → c.timers.live = [] ∧ c.stopped = false
  halted : c.stopped = true → c.timers.live = []
  away : ∀ peer m, .vr peer m ∈ out → peer ≠ i

/-- `NodeInv` of all nodes. -/
def Inv (s : ViewNodes) : Prop := ∀ i, NodeInv views i (s.node i) (s.started i) (s.outs i)

variable {views s} {t : ViewNodes} {i j : ℕ} {c : VRLeaderElectionComp} {out : List VROut} {e : VREvent}

theorem node_set_self : (s.set i c out).node i = c := Function.update_self ..

theorem node_set_of_ne (h : j ≠ i) : (s.set i c out).node j = s.node j := Function.update_of_ne h ..

theorem outs_set_self : (s.set i c out).outs i = s.outs i ++ out := Function.update_self ..

theorem outs_set_of_ne (h : j ≠ i) : (s.set i c out).outs j = s.outs j := Function.update_of_ne h ..

theorem newOuts_set : newOuts s (s.set i c out) i = out := by
  unfold newOuts
  rw [outs_set_self, List.drop_left]

theorem step_eq (hi : i ∈ views) (hin : s.Input views i e)
    (h : (s.node i).handle e = some (.ok (c, out))) : s.step views (i, e) = some (s.set i c out) := by
  simp only [step]
  rw [if_pos ⟨hi, hin⟩, h]

theorem step_cases {e : ℕ × VREvent} (h : s.step views e = some t) :
    ∃ i ve c out, e = (i, ve) ∧ i ∈ views ∧ s.Input views i ve ∧
      (s.node i).handle ve = some (.ok (c, out)) ∧ t = s.set i c out := by
  obtain ⟨i, ve⟩ := e
  simp only [step] at h
  split_ifs at h with hin
  split at h
  · next c out hc => exact ⟨i, ve, c, out, rfl, hin.1, hin.2, hc, (Option.some.inj h).symm⟩
  · cases h

theorem inv_init (views : List ℕ) : Inv views (init views) := fun _ =>
  { pid := rfl
    sameViews := rfl
    majority := Nat.le_add_left 1 _
    kept := nofun
    idle := fun _ => ⟨rfl, rfl⟩
    halted := fun _ => rfl
    away := nofun }

theorem Inv.effect (h : Inv views s) (hin : s.Input views i e)
    (hc : (s.node i).handle e = some (.ok (c, out))) : Effect (s.node i) e c out := by
  refine handle_effect (h i).kept ?_ hc
  rintro rfl
  exact ((h i).idle hin).1

/-- A stopped node that is not roused stays quiet. -/
theorem Inv.quiet (h : Inv views s) (hin : s.Input views i e)
    (hc : (s.node i).handle e = some (.ok (c, out))) (hstop : (s.node i).stopped = true)
    (hrouses : ¬ (s.node i).Rouses e) :
    c.timers.live = [] ∧ c.timers.next = (s.node i).timers.next ∧ ∀ o ∈ out, IsSilent o := by
  refine (h.effect hin hc).quiet ?_ ((h i).halted hstop) hrouses
  -- a node is stopped after it was started
  rintro rfl
  rw [((h i).idle hin).2] at hstop
  cases hstop

/-- The node at which an event happens. -/
theorem Inv.node (h : Inv views s) (hin : s.Input views i e)
    (hc : (s.node i).handle e = some (.ok (c, out)))
    (hcalm : (s.node i).stopped = true → ¬ (s.node i).Rouses e) :
    NodeInv views i c true (s.outs i ++ out) := by
  have hm := handle_move hc
  have heffect := h.effect hin hc
  refine ⟨hm.frame.pid.trans (h i).pid, hm.frame.views.trans (h i).sameViews, ?_,
    heffect.kept (h i).kept, nofun, fun hstop => ?_, fun peer m hsent => ?_⟩
  · rw [hm.frame.majority]
    exact (h i).majority
  · cases hbefore : (s.node i).stopped with
    | false => exact heffect.stopped hbefore hstop
    | true => exact (h.quiet hin hc hbefore (hcalm hbefore)).1
  · rcases List.mem_append.mp hsent with hsent | hsent
    · exact (h i).away peer m hsent
    · have hne := ne_pid_of_move hm hsent
      rwa [(h i).pid] at hne

/-- **One step** keeps the invariant, if it rouses no stopped node. -/
theorem Inv.step {e : ℕ × VREvent} (h : Inv views s) (hcalm : ¬ Roused views s e)
    (hstep : s.step views e = some t) : Inv views t := by
  obtain ⟨i, ve, c, out, rfl, hi, hin, hc, rfl⟩ := step_cases hstep
  intro j
  by_cases hji : j = i
  · subst hji
    have hstarted : (s.set j c out).started j = true := Function.update_self ..
    rw [node_set_self, outs_set_self, hstarted]
    exact h.node hin hc fun hstop hrouses => hcalm ⟨hi, hin, hstop, hrouses⟩
  · have hstarted : (s.set i c out).started j = s.started j := Function.update_of_ne hji ..
    rw [node_set_of_ne hji, outs_set_of_ne hji, hstarted]
    exact h j

theorem quiet_iff_of_inv (hs : Inv views s) (e : ℕ × VREvent) :
    Quiet views s e ↔ ¬ Roused views s e := by
  obtain ⟨i, e⟩ := e
  constructor
  · rintro hquiet ⟨hi, hin, hstop, hrouses⟩
    -- the message came from another node
    have hpeer : ∃ j ∈ (s.node i).views, j ≠ (s.node i).pid := by
      rw [(hs i).sameViews, (hs i).pid]
      cases e with
      | vr m =>
        obtain ⟨-, j, hj, hsent⟩ := hin
        exact ⟨j, hj, ((hs j).away i m hsent).symm⟩
      | _ => cases hrouses
    obtain ⟨c, out, hc, o, ho, hloud⟩ := loud_of_rouses hrouses (hs i).majority hpeer
    have hsilent := (hquiet hstop _ (step_eq hi hin hc)).2
    rw [newOuts_set] at hsilent
    exact hloud (hsilent o ho)
  · intro hcalm hstop t ht
    obtain ⟨_, _, c, out, ⟨⟩, hi, hin, hc, rfl⟩ := step_cases ht
    rw [node_set_self, newOuts_set]
    exact (hs.quiet hin hc hstop fun hrouses => hcalm ⟨hi, hin, hstop, hrouses⟩).2

/-- **Quiet after a stop**: in a run the stopped nodes stay quiet if and only if none of them gets a
message of the view change that it acts on. -/
theorem quiet_iff_not_roused (views : List ℕ) (es : List (ℕ × VREvent)) :
    (machine views).AllSteps (Quiet views) (machine views).init es ↔
      (machine views).AllSteps (fun s e => ¬ Roused views s e) (machine views).init es :=
  Machine.allSteps_iff_of_invariant (J := Inv views) (fun _ e hs => quiet_iff_of_inv hs e)
    (fun _ _ _ hs hcalm h => hs.step hcalm h) (inv_init views) es

/-- Nodes 1 and 3 enter the view of node 2 when they are started; node 3 is stopped. -/
def stoppedEarly : List (ℕ × VREvent) := [(1, .start), (3, .start), (3, .stop 3)]

/-- The announcement of node 1 then reaches node 3, which asks node 2 to lead, sends it a heartbeat
request and starts its timer. -/
theorem stopped_node_votes : ∃ s t, (machine [1, 2, 3]).run (machine [1, 2, 3]).init stoppedEarly = some s ∧
    (s.node 3).stopped = true ∧ (s.node 3).timers.live = [] ∧
    s.step [1, 2, 3] (3, .vr (.startViewChange ⟨1, 2⟩ 1)) = some t ∧
    newOuts s t 3 = [.vr 2 (.doViewChange ⟨1, 2⟩ 3), .hbRequest 2 1] ∧
    (t.node 3).timers.live = [⟨0, ⟨1, 2⟩⟩] ∧
    ¬ (machine [1, 2, 3]).AllSteps (Quiet [1, 2, 3]) (machine [1, 2, 3]).init
      (stoppedEarly ++ [(3, .vr (.startViewChange ⟨1, 2⟩ 1))]) := by
  refine ⟨_, _, rfl, by decide, by decide, rfl, by decide, by decide, fun hquiet => ?_⟩
  have hlast := hquiet.last rfl
  have hnext := (hlast (by decide) _ rfl).1
  revert hnext
  decide

end ViewNodes

end OmniPaxosBench.LeaderElection
