import Mathlib.Algebra.Order.BigOperators.Group.List
import Mathlib.Algebra.GroupWithZero.Nat
import Mathlib.Algebra.Order.Group.Nat
import Mathlib.Data.Finset.Max
import Mathlib.Data.Finset.Dedup
import Mathlib.Data.List.Perm.Subperm
import OmniPaxosBench.LeaderElection.ViewProgress

/-! # View-change leader election: the end of a view change

When the messages of the view change have been handled, all nodes have elected one leader, and it has
indicated itself (`election_ends`). This needs at least three nodes (`secondView_forever`), and that no
`DoViewChange` comes early (`hastyView_ignored`). A node that waits for messages has no timer, so a view
change that comes to rest without an elected node is never taken up again (`stuck_forever`). -/

namespace OmniPaxosBench.LeaderElection

open OmniPaxosBench.Lib VRLeaderElectionComp

/-- A message of the view change. -/
def VREvent.isMessage : VREvent → Bool
  | .vr _ => true
  | _ => false

theorem VREvent.exists_of_isMessage : ∀ {e : VREvent}, e.isMessage = true → ∃ m, e = .vr m
  | .vr m, _ => ⟨m, rfl⟩

namespace VRLeaderElectionComp

variable {c c' : VRLeaderElectionComp} {e : VREvent} {out : List VROut} {b : Ballot} {sender : ℕ}

/-- The handlers of the view change do not panic while the node of the view is one of the nodes. -/
theorem handleStartViewChange_ok (hmem : c.viewchangeStatus.ballot.pid ∈ c.views) :
    ∃ y, c.handleStartViewChange b sender = .ok y := by
  unfold handleStartViewChange
  by_cases hdis : sender ∈ c.disconnectedPeers
  · exact ⟨_, if_pos hdis⟩
  rw [if_neg hdis]
  split
  · split_ifs <;> exact ⟨_, rfl⟩
  · split_ifs <;> exact ⟨_, rfl⟩
  · next l k hs =>
    rw [hs] at hmem
    dsimp only
    split_ifs with hlt hb hmaj hown
    · exact ⟨_, rfl⟩
    · exact ⟨_, rfl⟩
    · subst hb
      have hfind : (c.views.find? fun x => x = b.pid) = some b.pid := find_pid_of_mem hmem
      obtain ⟨t, T, hstop⟩ := stopTimer_eq { c with viewchangeStatus := .elected b }
      rw [hfind]
      dsimp only
      rw [hstop]
      unfold newHbRound
      dsimp only
      rw [hfind]
      exact ⟨_, rfl⟩
    · exact ⟨_, rfl⟩
    · exact ⟨_, rfl⟩

theorem handleDoViewChange_ok : ∃ y, c.handleDoViewChange b sender = .ok y := by
  unfold handleDoViewChange
  split_ifs
  · exact ⟨_, rfl⟩
  · split
    · dsimp only
      split_ifs <;> exact ⟨_, rfl⟩
    · exact ⟨_, rfl⟩

/-- A node that waits does nothing by itself. -/
theorem handle_waiting (hs : ∀ b, c.viewchangeStatus ≠ .elected b) (he : ∀ m, e ≠ .vr m)
    (h : c.handle e = some (.ok (c', out))) :
    c'.viewchangeStatus = c.viewchangeStatus ∧ ∀ o ∈ out, IsNote o := by
  have htimeout : ∀ (T : Timers Ballot) (l : Ballot),
      hbTimeout { c with timers := T } l = .ok ({ c with timers := T }, []) := by
    intro T l
    unfold hbTimeout
    cases hst : c.viewchangeStatus with
    | elected l' => exact absurd hst (hs l')
    | viewChange => rfl
    | candidate => rfl
  cases e with
  | start =>
    have heq := (htimeout c.timers default).symm.trans (Option.some.inj h)
    cases heq
    exact ⟨rfl, nofun⟩
  | timeout id =>
    obtain ⟨⟨l, T⟩, -, heq⟩ := Option.map_eq_some_iff.mp h
    cases (htimeout T l).symm.trans heq
    exact ⟨rfl, nofun⟩
  | request sender round =>
    have heq := Option.some.inj h
    unfold handleRequest at heq
    split_ifs at heq
    · cases heq
      exact ⟨rfl, nofun⟩
    · cases heq
      refine ⟨rfl, fun o ho => ?_⟩
      rw [List.mem_singleton.mp ho]
      trivial
  | reply m =>
    obtain ⟨⟨alive, rfl⟩, rfl⟩ := handleReply_cases (Option.some.inj h)
    exact ⟨rfl, nofun⟩
  | vr m => exact absurd rfl (he m)
  | stop pid =>
    obtain ⟨⟨ask, rfl⟩, houts⟩ := handleStop_cases (Option.some.inj h)
    obtain ⟨t, T, hstop⟩ := stopTimer_eq { c with disconnectedPeers := [] }
    rw [hstop]
    refine ⟨rfl, fun o ho => ?_⟩
    rcases houts o ho with ⟨peer, rfl⟩ | rfl
    · trivial
    · trivial
  | peerStop pid =>
    obtain ⟨⟨ask, rfl⟩, houts⟩ := handlePeerStop_cases (Option.some.inj h)
    refine ⟨rfl, fun o ho => ?_⟩
    rw [houts o ho]
    trivial
  | partition p =>
    obtain ⟨part, -, heq⟩ := Option.map_eq_some_iff.mp h
    cases heq
    exact ⟨rfl, nofun⟩

end VRLeaderElectionComp

namespace ViewElection

variable {S : Views} {s t : ViewElection} {i j : ℕ} {e : VREvent} {c : VRLeaderElectionComp}
  {out : List VROut} {b : Ballot} {x : ℕ × VRMsg}

/-! ### When nothing is in flight -/

section Quiet

variable (h : Inv S s) (hP : Progress S s)
include h hP

/-- Without announcements in flight all nodes are in the highest view. -/
theorem quiet_together (hsvc : ∀ j b k, (j, .startViewChange b k) ∉ s.flight)
    (hup : ∃ i ∈ S.views, s.started i = true) : ∃ b, ∀ j ∈ S.views, s.started j = true ∧
      (s.node j).viewchangeStatus.ballot = b ∧ (j, b) ∈ s.entered := by
  obtain ⟨i₀, hi₀, hst₀⟩ := hup
  obtain ⟨i, hi, hmax⟩ := S.views.toFinset.exists_max_image (fun j => (s.node j).viewNumber)
    ⟨i₀, List.mem_toFinset.mpr hi₀⟩
  rw [List.mem_toFinset] at hi
  -- a node that has not been started is in view 0
  have hstarted : ∀ j ∈ S.views, 0 < (s.node j).viewNumber → s.started j = true := by
    intro j hj hpos
    by_contra hst
    rw [Bool.not_eq_true] at hst
    rw [(h.node j hj).number, ((h.node j hj).fresh hst).1] at hpos
    exact absurd hpos (lt_irrefl _)
  have hpos : ∀ j ∈ S.views, s.started j = true → 0 < (s.node j).viewNumber := by
    intro j hj hst
    rw [(h.node j hj).number]
    exact hP.positive j _ (hP.entered j hj hst)
  have hst := hstarted i hi ((hpos i₀ hi₀ hst₀).trans_le (hmax i₀ (List.mem_toFinset.mpr hi₀)))
  have hent := hP.entered i hi hst
  refine ⟨(s.node i).viewchangeStatus.ballot, fun j hj => ?_⟩
  have hnum : (s.node j).viewNumber = (s.node i).viewNumber := by
    by_cases hji : j = i
    · rw [hji]
    refine le_antisymm (hmax j (List.mem_toFinset.mpr hj)) ?_
    rcases hP.told i _ hent j hj hji with hle | hm
    · rw [(h.node i hi).number]; exact hle
    · exact absurd hm (hsvc _ _ _)
  have hstj := hstarted j hj (hnum ▸ hpos i hi hst)
  have hballot : (s.node j).viewchangeStatus.ballot = (s.node i).viewchangeStatus.ballot := by
    have hn : (s.node j).viewchangeStatus.ballot.n = (s.node i).viewchangeStatus.ballot.n := by
      rw [← (h.node j hj).number, ← (h.node i hi).number, hnum]
    exact ballot_ext (h.record.entered _ _ (hP.entered j hj hstj)).2.1 (h.record.entered _ _ hent).2.1 hn
  exact ⟨hstj, hballot, hballot ▸ hP.entered j hj hstj⟩

/-- A node that has seen all but one of at least three has seen a majority. -/
theorem quiet_gathered (hthree : 3 ≤ S.views.length)
    (hsvc : ∀ j b k, (j, .startViewChange b k) ∉ s.flight)
    (hall : ∀ j ∈ S.views, (j, b) ∈ s.entered) (hi : i ∈ S.views) (k : ℕ) : (s.node i).viewchangeStatus ≠ .viewChange b k := by
  intro hs
  obtain ⟨hk, m₀, hm₀⟩ := hP.heard i hi b k hs
  obtain ⟨⟨hnodup, -, -⟩, hlen⟩ := (h.node i hi).seen b k hs
  have hsub : S.views ⊆ m₀ :: s.seen i := by
    intro m hm
    rcases hm₀ m (hall m hm) with heq | hseen | hfl
    · exact heq ▸ List.mem_cons_self ..
    · exact List.mem_cons_of_mem _ hseen
    · exact absurd hfl (hsvc _ _ _)
  have hle := (S.nodup.subperm hsub).length_le
  rw [List.length_cons, hlen] at hle
  omega

/-- A node whose requests to lead have all been counted is no candidate any more. -/
theorem quiet_voted (hflight : s.flight = []) (hi : i ∈ S.views)
    (hothers : ∀ j ∈ S.views, j ≠ i → ∃ a ∈ s.asked, a.pid = j ∧ a.ballot = b) (k : ℕ) :
    (s.node i).viewchangeStatus ≠ .candidate b k := by
  intro hs
  have hk := hP.votes i hi b k hs
  obtain ⟨hpid, ⟨hnodup, hself, -⟩, hlen⟩ := (h.node i hi).votes b k hs
  have hnum : (s.node i).viewNumber = b.n := by rw [(h.node i hi).number, hs]; rfl
  have hsub : S.views ⊆ s.votes i := by
    intro m hm
    by_cases hmi : m = i
    · rw [hmi]; exact hself
    obtain ⟨a, ha, rfl, rfl⟩ := hothers m hm hmi
    rcases hP.heeded a ha with hfl | hheeded
    · rw [hflight] at hfl; cases hfl
    · rw [hpid] at hheeded
      rcases hheeded with hlt | hel | ⟨k', -, hmem⟩
      · omega
      · rw [hs] at hel; cases hel
      · exact hmem
  have hle := (S.nodup.subperm hsub).length_le
  have htwo := S.two
  rw [hlen] at hle
  omega

end Quiet

/-- All nodes have elected the node of the view of `b`, and it has indicated itself. -/
def Elected (S : Views) (s : ViewElection) (b : Ballot) : Prop :=
  b.pid ∈ S.views ∧ ⟨b.pid, b⟩ ∈ s.indications b.pid ∧
    ∀ j ∈ S.views, (s.node j).viewchangeStatus = .elected b

/-- When nothing is in flight, and a node is up, one leader is elected. -/
theorem quiet_elected (hthree : 3 ≤ S.views.length) (hs : (machine S).ReachableUnder (Orderly S) s)
    (hflight : s.flight = []) (hup : ∃ i ∈ S.views, s.started i = true) : ∃ b, Elected S s b := by
  have h := inv_of_reachable (hs.mono fun _ _ hok => hok.1)
  have hP := progress_of_reachable hs
  have hsvc : ∀ j b k, (j, VRMsg.startViewChange b k) ∉ s.flight := by
    rw [hflight]
    exact fun _ _ _ => List.not_mem_nil
  obtain ⟨b, hb⟩ := quiet_together h hP hsvc hup
  have hstatus : ∀ j ∈ S.views, (s.node j).viewchangeStatus = .elected b ∨
      ∃ k, (s.node j).viewchangeStatus = .candidate b k := by
    intro j hj
    have hgathered := quiet_gathered h hP hthree hsvc (fun m hm => (hb m hm).2.2) hj
    have hballot := (hb j hj).2.1
    cases hsj : (s.node j).viewchangeStatus with
    | elected l => rw [hsj] at hballot; exact Or.inl (congrArg _ hballot)
    | candidate l k =>
      rw [hsj] at hballot
      exact Or.inr ⟨k, congrArg (ViewChangeStatus.candidate · k) hballot⟩
    | viewChange l k =>
      rw [hsj] at hballot hgathered
      exact absurd (congrArg (ViewChangeStatus.viewChange · k) hballot) (hgathered k)
  -- a candidate is the node of the view, so the others have asked for it
  have hdone : ∀ j ∈ S.views, j ≠ b.pid → (s.node j).viewchangeStatus = .elected b := by
    intro j hj hne
    refine (hstatus j hj).resolve_right fun ⟨k, hk⟩ => hne ?_
    exact ((h.node j hj).votes b k hk).1.symm
  have hothers : ∀ j ∈ S.views, j ≠ b.pid → ∃ a ∈ s.asked, a.pid = j ∧ a.ballot = b := by
    intro j hj hne
    rcases hP.decided j hj (hb j hj).1 b (hdone j hj hne) with ⟨hpid, -⟩ | ⟨-, hasked⟩
    · exact absurd hpid.symm hne
    · exact hasked
  obtain ⟨i₀, hi₀, -⟩ := hup
  have hmem : b.pid ∈ S.views := (h.record.entered i₀ b (hb i₀ hi₀).2.2).2.1.mem
  have hlead : (s.node b.pid).viewchangeStatus = .elected b :=
    (hstatus b.pid hmem).resolve_right fun ⟨k, hk⟩ => quiet_voted h hP hflight hmem hothers k hk
  refine ⟨b, hmem, ?_, fun j hj => ?_⟩
  · rcases hP.decided b.pid hmem (hb _ hmem).1 b hlead with ⟨-, hl⟩ | ⟨hne, -⟩
    · exact hl
    · exact absurd rfl hne
  · by_cases hj' : j = b.pid
    · rw [hj']; exact hlead
    · exact hdone j hj hj'

/-! ### Handling the messages in flight -/

/-- A message of the view change is handled, and does not come early. -/
def Delivery (s : ViewElection) (x : ℕ × VREvent) : Prop := x.2.isMessage = true ∧ s.Timely x

instance (s : ViewElection) (x : ℕ × VREvent) : Decidable (Delivery s x) :=
  inferInstanceAs (Decidable (_ ∧ _))

/-- How many messages can follow from a message within its view, with itself. -/
def weight : VRMsg → ℕ
  | .startViewChange _ _ => 2
  | .doViewChange _ _ => 1

/-- A bound for the messages that can be handled before a node times out, if the views are up to `v`. -/
def remaining (S : Views) (v : ℕ) (s : ViewElection) : ℕ :=
  2 * S.views.length * (S.views.map fun j => v - (s.node j).viewNumber).sum +
    (s.flight.map fun x => weight x.2).sum

/-- The nodes are up, in views up to `v`. -/
structure UpTo (S : Views) (v : ℕ) (s : ViewElection) : Prop where
  started : ∀ i ∈ S.views, s.started i = true
  number : ∀ i ∈ S.views, (s.node i).viewNumber ≤ v

/-- The messages in flight are one fewer, and those sent. -/
theorem sum_flight_set {m : VRMsg} (hm : (i, m) ∈ s.flight) :
    ((s.set i (.vr m) c out).flight.map fun x => weight x.2).sum + weight m =
      (s.flight.map fun x => weight x.2).sum + ((messagesOf out).map fun x => weight x.2).sum := by
  have hperm := ((List.perm_cons_erase hm).map fun x => weight x.2).sum_eq
  rw [List.map_cons, List.sum_cons] at hperm
  show ((s.flight.erase (i, m) ++ messagesOf out).map fun x => weight x.2).sum + weight m = _
  rw [List.map_append, List.sum_append, hperm]
  dsimp only
  omega

/-- The views that the nodes can still enter, after a step within the view. -/
theorem sum_views_within {v : ℕ} (hn : c.viewNumber = (s.node i).viewNumber) :
    (S.views.map fun j => v - ((s.set i e c out).node j).viewNumber).sum =
      (S.views.map fun j => v - (s.node j).viewNumber).sum := by
  refine congrArg List.sum (List.map_congr_left fun j _ => ?_)
  by_cases hji : j = i
  · rw [hji, node_set_self, hn]
  · rw [node_set_of_ne hji]

/-- They are fewer when a view is entered. -/
theorem sum_views_enter {v : ℕ} (hi : i ∈ S.views) (hlt : (s.node i).viewNumber < c.viewNumber)
    (hle : c.viewNumber ≤ v) :
    (S.views.map fun j => v - ((s.set i e c out).node j).viewNumber).sum + 1 ≤
      (S.views.map fun j => v - (s.node j).viewNumber).sum := by
  refine Nat.succ_le_of_lt (List.sum_lt_sum _ _ (fun j _ => ?_) ⟨i, hi, ?_⟩)
  · by_cases hji : j = i
    · rw [hji, node_set_self]; omega
    · rw [node_set_of_ne hji]
  · rw [node_set_self]; omega

/-- **A message that is handled makes `remaining` smaller.** -/
theorem remaining_lt (h : Inv S s) {v : ℕ} (hv : v < 2 ^ 32 - 1) (hup : UpTo S v s) (hi : i ∈ S.views)
    {m : VRMsg} (hin : s.Input S i (.vr m)) (hc : (s.node i).handle (.vr m) = some (.ok (c, out))) :
    UpTo S v (s.set i (.vr m) c out) ∧ remaining S v (s.set i (.vr m) c out) < remaining S v s := by
  have hI := h.node i hi
  have hsmall : (s.node i).viewNumber < 2 ^ 32 - 1 := (hup.number i hi).trans_lt hv
  have hflight := @sum_flight_set s i c out m hin.2
  have hup' : c.viewNumber ≤ v → UpTo S v (s.set i (.vr m) c out) := by
    intro hle
    refine ⟨fun j hj => ?_, fun j hj => ?_⟩
    · by_cases hji : j = i
      · rw [hji]; exact started_set_self
      · rw [started_set_of_ne hji]; exact hup.started j hj
    · by_cases hji : j = i
      · rw [hji, node_set_self]; exact hle
      · rw [node_set_of_ne hji]; exact hup.number j hj
  have hwithin : c.viewNumber = (s.node i).viewNumber →
      ((messagesOf out).map fun x => weight x.2).sum < weight m →
      UpTo S v (s.set i (.vr m) c out) ∧ remaining S v (s.set i (.vr m) c out) < remaining S v s := by
    intro hn hlt
    refine ⟨hup' (hn ▸ hup.number i hi), ?_⟩
    unfold remaining
    rw [sum_views_within hn]
    omega
  cases handle_move hc with
  | quiet _ _ _ _ number _ outs =>
    refine hwithin number ?_
    rw [(notes_nil outs []).1]
    cases m <;> exact Nat.succ_pos _
  | enter _ _ b frame cause number status =>
    rcases cause with ⟨-, hne⟩ | ⟨k, he, hb⟩
    · exact absurd rfl (hne m)
    cases he
    -- the view has been entered by the sender, so it is at most `v`
    obtain ⟨hk, -, hle⟩ := h.record.entered k b (h.flight.startViewChange i b k hin.2).2.1
    have hcv : c.viewNumber ≤ v := number ▸ hle.trans (hup.number k hk)
    refine ⟨hup' hcv, ?_⟩
    have hsum := @sum_views_enter S s i (.vr (.startViewChange b k)) c
      ((s.node i).startViewChange b) v hi (by rw [number, hI.number]; exact hb) hcv
    have hsent : ((messagesOf ((s.node i).startViewChange b)).map fun x => weight x.2).sum ≤
        2 * S.views.length := by
      rw [(startViewChange_outputs _ b []).1, hI.views, List.map_map]
      have hconst : ((fun x : ℕ × VRMsg => weight x.2) ∘ fun peer =>
          (peer, VRMsg.startViewChange b (s.node i).pid)) = fun _ => 2 := rfl
      rw [hconst, List.map_const', List.sum_replicate_nat, mul_comm]
      exact Nat.mul_le_mul_left 2 (List.length_filter_le ..)
    have hmul := Nat.mul_le_mul_left (2 * S.views.length) hsum
    rw [Nat.mul_succ] at hmul
    unfold remaining
    have hw : weight (.startViewChange b k) = 2 := rfl
    omega
  | count _ _ _ _ _ _ _ number => exact hwithin number (Nat.succ_pos _)
  | stand _ _ _ _ _ _ _ _ number => exact hwithin number (Nat.succ_pos _)
  | vote _ _ _ _ _ _ _ number => exact hwithin number (Nat.succ_pos _)
  | win _ _ _ _ _ _ _ number => exact hwithin number (Nat.succ_pos _)
  | follow _ b k _ out _ _ _ _ number _ outs =>
    refine hwithin number ?_
    have hone : messagesOf (.vr b.pid (.doViewChange b (s.node i).pid) :: out) =
        [(b.pid, .doViewChange b (s.node i).pid)] := congrArg (_ :: ·) (notes_nil outs []).1
    rw [hone]
    exact Nat.lt_succ_self 1

/-- A started node that handles a message of the view change does not panic. -/
theorem handle_vr (h : NodeInv S s i) (hst : s.started i = true) (m : VRMsg) :
    ∃ c out, (s.node i).handle (.vr m) = some (.ok (c, out)) := by
  cases m with
  | startViewChange b sender =>
    have hmem : (s.node i).viewchangeStatus.ballot.pid ∈ (s.node i).views :=
      h.views ▸ (h.valid hst).mem
    obtain ⟨⟨c, out⟩, hy⟩ := @handleStartViewChange_ok (s.node i) b sender hmem
    exact ⟨c, out, congrArg some hy⟩
  | doViewChange b sender =>
    obtain ⟨⟨c, out⟩, hy⟩ := @handleDoViewChange_ok (s.node i) b sender
    exact ⟨c, out, congrArg some hy⟩

/-- **A message can be handled** as long as any is in flight: an announcement, or a request to lead,
which does not come early when there are no announcements. -/
theorem exists_delivery (h : Inv S s) (hP : Progress S s) (hthree : 3 ≤ S.views.length)
    (hup : ∀ i ∈ S.views, s.started i = true) (hflight : s.flight ≠ []) :
    ∃ x t, Delivery s x ∧ s.step S x = some t := by
  have hdeliver : ∀ i m, (i, m) ∈ s.flight → s.Timely (i, .vr m) →
      ∃ x t, Delivery s x ∧ s.step S x = some t := by
    intro i m hm hT
    have hi := hP.receiver _ hm
    obtain ⟨c, out, hc⟩ := handle_vr (h.node i hi) (hup i hi) m
    exact ⟨(i, .vr m), _, ⟨rfl, hT⟩, step_of_handle hi ⟨hup i hi, hm⟩ hc⟩
  by_cases hsvc : ∀ j b k, (j, .startViewChange b k) ∉ s.flight
  swap
  · push Not at hsvc
    obtain ⟨j, b, k, hm⟩ := hsvc
    exact hdeliver j _ hm trivial
  obtain ⟨⟨i, m⟩, hm⟩ := List.exists_mem_of_ne_nil _ hflight
  cases m with
  | startViewChange b k => exact absurd hm (hsvc i b k)
  | doViewChange b k =>
    have hi := hP.receiver _ hm
    obtain ⟨b', hb'⟩ := quiet_together h hP hsvc ⟨i, hi, hup i hi⟩
    refine hdeliver i _ hm ?_
    show ¬ (s.node i).Early b
    rintro (hlt | hgather)
    · -- all are in the view of `b'`, also the one that asked
      obtain ⟨-, ⟨a, ha, rfl, rfl⟩, -⟩ := h.flight.doViewChange i b k hm
      obtain ⟨hk, -, hle, -⟩ := h.record.asked a ha
      rw [(h.node i hi).number, (hb' i hi).2.1] at hlt
      rw [(h.node a.pid hk).number, (hb' a.pid hk).2.1] at hle
      omega
    · cases hs : (s.node i).viewchangeStatus with
      | viewChange l n =>
        have hl : l = b' := by rw [← (hb' i hi).2.1, hs]; rfl
        subst hl
        exact quiet_gathered h hP hthree hsvc (fun j hj => (hb' j hj).2.2) hi n hs
      | elected l => rw [hs] at hgather; cases hgather
      | candidate l n => rw [hs] at hgather; cases hgather

/-- What a message that is handled keeps, and what it makes smaller. -/
theorem delivery_step {v : ℕ} (hv : v < 2 ^ 32 - 1) (s : ViewElection) (x : ℕ × VREvent)
    (t : ViewElection) (hs : (machine S).ReachableUnder (Orderly S) s ∧ UpTo S v s) (hd : Delivery s x)
    (hstep : (machine S).step s x = some t) :
    ((machine S).ReachableUnder (Orderly S) t ∧ UpTo S v t) ∧ remaining S v t < remaining S v s := by
  obtain ⟨hr, hup⟩ := hs
  have h := inv_of_reachable (hr.mono fun _ _ hok => hok.1)
  have hsmall : Small S s x := fun i hi => (hup.number i hi).trans_lt hv
  have ht := hr.step ⟨hsmall, hd.2⟩ hstep
  obtain ⟨i, e, c, out, rfl, hi, hin, hc, rfl⟩ := step_handle hstep
  obtain ⟨m, rfl⟩ : ∃ m, e = .vr m := VREvent.exists_of_isMessage hd.1
  obtain ⟨hup', hlt⟩ := remaining_lt h hv hup hi hin hc
  exact ⟨⟨ht, hup'⟩, hlt⟩

/-- **The view-change election comes to an end.** Let all of three or more nodes be up, in views up to
`v`, after a run without a partition in which no request to lead came early. However the messages of
the view change are then handled, none of the requests early, at most `remaining` are; and when no other
can be, all nodes have elected one leader, which has indicated itself. -/
theorem election_ends (hthree : 3 ≤ S.views.length) (hs : (machine S).ReachableUnder (Orderly S) s)
    {v : ℕ} (hup : UpTo S v s) (hv : v < 2 ^ 32 - 1) {es : List (ℕ × VREvent)}
    (hes : (machine S).AllSteps Delivery s es) (hrun : (machine S).run s es = some t) :
    es.length ≤ remaining S v s ∧
      ((∀ x, Delivery t x → t.step S x = none) → ∃ b, Elected S t b) := by
  obtain ⟨⟨hr, hup'⟩, hle⟩ := Machine.length_le_of_measure (delivery_step hv) ⟨hs, hup⟩ hes hrun
  refine ⟨by omega, fun hnone => ?_⟩
  have htwo := S.two
  by_cases hflight : t.flight = []
  · have hpos : 0 < S.views.length := by omega
    have hmem : S.views[0] ∈ S.views := List.getElem_mem hpos
    exact quiet_elected hthree hr hflight ⟨_, hmem, hup'.started _ hmem⟩
  · have h := inv_of_reachable (hr.mono fun _ _ hok => hok.1)
    obtain ⟨x, u, hd, hstep⟩ := exists_delivery h (progress_of_reachable hr) hthree hup'.started hflight
    rw [hnone x hd] at hstep
    cases hstep

/-- The three nodes start, and then handle all messages. -/
def wholeView : List (ℕ × VREvent) :=
  [(1, .start), (2, .start), (3, .start), (2, .vr (.startViewChange ⟨1, 2⟩ 1)),
    (1, .vr (.startViewChange ⟨1, 2⟩ 3)), (3, .vr (.startViewChange ⟨1, 2⟩ 1)),
    (2, .vr (.doViewChange ⟨1, 2⟩ 1)), (1, .vr (.startViewChange ⟨1, 2⟩ 2)),
    (2, .vr (.startViewChange ⟨1, 2⟩ 3)), (3, .vr (.startViewChange ⟨1, 2⟩ 2)),
    (2, .vr (.doViewChange ⟨1, 2⟩ 3))]

theorem wholeView_ends : ∃ s t, (machine three).run (machine three).init (wholeView.take 3) = some s ∧
    (machine three).run s (wholeView.drop 3) = some t ∧ remaining three 1 s = 12 ∧
    (wholeView.drop 3).length ≤ 12 ∧ ∃ b, Elected three t b := by
  obtain ⟨s, hs, t, ht, hup, hrem, hes, hflight⟩ :
      ∃ s, (machine three).run (machine three).init (wholeView.take 3) = some s ∧
        ∃ t, (machine three).run s (wholeView.drop 3) = some t ∧
        (∀ i ∈ three.views, s.started i = true ∧ (s.node i).viewNumber ≤ 1) ∧ remaining three 1 s = 12 ∧
        (machine three).AllSteps Delivery s (wholeView.drop 3) ∧ t.flight = [] :=
    ⟨_, rfl, _, rfl, by decide, by decide, by decide, by decide⟩
  have horderly : (machine three).AllSteps (Orderly three) (machine three).init (wholeView.take 3) := by
    decide
  have hr := Machine.ReachableUnder.init.run horderly hs
  have hnone : ∀ x, Delivery t x → t.step three x = none := by
    rintro ⟨i, e⟩ ⟨he, -⟩
    obtain ⟨m, rfl⟩ := VREvent.exists_of_isMessage he
    have hin : ¬ (i ∈ three.views ∧ t.Input three i (.vr m)) := by
      rintro ⟨-, -, hm⟩
      rw [hflight] at hm
      cases hm
    exact if_neg hin
  obtain ⟨hlen, hend⟩ := election_ends (by decide) hr
    ⟨fun i hi => (hup i hi).1, fun i hi => (hup i hi).2⟩ (by decide) hes ht
  exact ⟨s, t, hs, ht, hrem, hrem ▸ hlen, hend hnone⟩

/-- The requests to lead of nodes 1 and 3 come before node 2 has heard of any other node. -/
def hastyView : List (ℕ × VREvent) :=
  [(1, .start), (2, .start), (3, .start), (1, .vr (.startViewChange ⟨1, 2⟩ 3)),
    (3, .vr (.startViewChange ⟨1, 2⟩ 1)), (2, .vr (.doViewChange ⟨1, 2⟩ 1)),
    (2, .vr (.doViewChange ⟨1, 2⟩ 3)), (2, .vr (.startViewChange ⟨1, 2⟩ 1)),
    (2, .vr (.startViewChange ⟨1, 2⟩ 3)), (1, .vr (.startViewChange ⟨1, 2⟩ 2)),
    (3, .vr (.startViewChange ⟨1, 2⟩ 2))]

/-- They are ignored, and node 2 does not become the leader of its view. -/
theorem hastyView_ignored : ∃ s, (machine three).run (machine three).init hastyView = some s ∧
    s.flight = [] ∧ (s.node 2).viewchangeStatus = .candidate ⟨1, 2⟩ 1 ∧ s.indications 2 = [] ∧
    (s.node 1).viewchangeStatus = .elected ⟨1, 2⟩ ∧ (s.node 3).viewchangeStatus = .elected ⟨1, 2⟩ :=
  ⟨_, rfl, by decide, by decide, by decide, by decide, by decide⟩

/-! ### A view change that has come to rest -/

/-- All nodes wait for messages of the view change, and there are none. -/
structure Stuck (S : Views) (s : ViewElection) : Prop where
  started : ∀ i ∈ S.views, s.started i = true
  flight : s.flight = []
  waiting : ∀ i ∈ S.views, ∀ b, (s.node i).viewchangeStatus ≠ .elected b

/-- Nothing that can happen to a node changes that. -/
theorem Stuck.step (h : Stuck S s) {x : ℕ × VREvent} (hstep : s.step S x = some t) : Stuck S t ∧
    ∀ i, (t.node i).viewchangeStatus = (s.node i).viewchangeStatus ∧ t.indications i = s.indications i := by
  obtain ⟨i, e, c, out, rfl, hi, hin, hc, rfl⟩ := step_handle hstep
  have he : ∀ m, e ≠ .vr m := by
    rintro m rfl
    obtain ⟨-, hm⟩ := hin
    rw [h.flight] at hm
    cases hm
  obtain ⟨hstatus, houts⟩ := handle_waiting (h.waiting i hi) he hc
  obtain ⟨hmsgs, -, hind⟩ := notes_nil houts []
  have hsame : ∀ j, ((s.set i e c out).node j).viewchangeStatus = (s.node j).viewchangeStatus ∧
      (s.set i e c out).indications j = s.indications j := by
    intro j
    by_cases hji : j = i
    · subst hji
      rw [node_set_self, indications_set_self, hind, List.append_nil]
      exact ⟨hstatus, rfl⟩
    · rw [node_set_of_ne hji, indications_set_of_ne hji]
      exact ⟨rfl, rfl⟩
  refine ⟨⟨fun j hj => ?_, ?_, fun j hj b => ?_⟩, hsame⟩
  · by_cases hji : j = i
    · rw [hji]; exact started_set_self
    · rw [started_set_of_ne hji]; exact h.started j hj
  · refine List.eq_nil_iff_forall_not_mem.mpr fun x hx => ?_
    rcases List.mem_append.mp hx with hx | hx
    · have := mem_flightAfter hx
      rw [h.flight] at this
      cases this
    · rw [hmsgs] at hx
      cases hx
  · rw [(hsame j).1]
    exact h.waiting j hj b

/-- **It is never taken up again.** If no node has an elected leader and no message of the view change
is in flight, no run elects one: a node that waits has no timer, so the statuses of all nodes stay as
they are, and none of them becomes the leader. -/
theorem stuck_forever (h : Stuck S s) {es : List (ℕ × VREvent)} (hrun : (machine S).run s es = some t) :
    Stuck S t ∧ ∀ i, (t.node i).viewchangeStatus = (s.node i).viewchangeStatus ∧
      t.indications i = s.indications i := by
  induction es generalizing s with
  | nil =>
    cases hrun
    exact ⟨h, fun i => ⟨rfl, rfl⟩⟩
  | cons x es ih =>
    rw [Machine.run_cons, Option.bind_eq_some_iff] at hrun
    obtain ⟨s₁, h₁, h₂⟩ := hrun
    obtain ⟨hs₁, hsame⟩ := h.step h₁
    obtain ⟨ht, hsame'⟩ := ih hs₁ h₂
    exact ⟨ht, fun i => ⟨(hsame' i).1.trans (hsame i).1, (hsame' i).2.trans (hsame i).2⟩⟩

/-- Two nodes. -/
def pair : Views := ⟨[1, 2], by decide, by decide⟩

/-- Node 2 leads, and node 1, which misses its reply, leads it into view 2. There it hears of node 2 and
becomes a candidate; node 2, which has sent one announcement and gets none, waits for a second node. -/
def secondView : List (ℕ × VREvent) :=
  [(1, .start), (2, .start), (1, .vr (.startViewChange ⟨1, 2⟩ 2)), (2, .vr (.startViewChange ⟨1, 2⟩ 1)),
    (2, .vr (.doViewChange ⟨1, 2⟩ 1)), (1, .timeout 0), (2, .vr (.startViewChange ⟨2, 1⟩ 1)),
    (1, .vr (.startViewChange ⟨2, 1⟩ 2))]

theorem secondView_forever : ∃ s t, (machine pair).run (machine pair).init secondView = some s ∧
    (machine pair).run s [(1, .stop 1), (2, .peerStop 1)] = some t ∧ Stuck pair t ∧
    t.indications 1 = [] := by
  obtain ⟨s, hs, t, ht, hst, hflight, h1, h2, hind⟩ :
      ∃ s, (machine pair).run (machine pair).init secondView = some s ∧
        ∃ t, (machine pair).run s [(1, .stop 1), (2, .peerStop 1)] = some t ∧
        (∀ i ∈ pair.views, s.started i = true) ∧ s.flight = [] ∧
        (s.node 1).viewchangeStatus = .candidate ⟨2, 1⟩ 1 ∧
        (s.node 2).viewchangeStatus = .viewChange ⟨2, 1⟩ 1 ∧ s.indications 1 = [] :=
    ⟨_, rfl, _, rfl, by decide, by decide, by decide, by decide, by decide⟩
  have hstuck : Stuck pair s := by
    refine ⟨hst, hflight, fun i hi b => ?_⟩
    rcases List.mem_cons.mp hi with rfl | hi
    · rw [h1]; nofun
    · rw [List.mem_singleton.mp hi, h2]; nofun
  obtain ⟨hend, hsame⟩ := stuck_forever hstuck ht
  exact ⟨s, t, hs, ht, hend, (hsame 1).2.trans hind⟩

end ViewElection

end OmniPaxosBench.LeaderElection
