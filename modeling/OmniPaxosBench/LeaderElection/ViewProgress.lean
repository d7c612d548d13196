import OmniPaxosBench.LeaderElection.ViewSafety

/-! # View-change leader election: progress

Every node may time out at any moment, and the messages of the view change may take any time, but there
is no partition, and no `DoViewChange` overtakes the announcements that make its receiver a candidate.
`Progress` says where the announcements and the requests to lead are then: counted by their receiver,
still in flight, or of no interest any more. A node that enters a view because it hears of it does not
count the announcement it heard, so all announcements but one are counted. -/

namespace OmniPaxosBench.LeaderElection

open OmniPaxosBench.Lib VRLeaderElectionComp

/-- The ballot for which a node waits to see a majority. -/
def ViewChangeStatus.gathering : ViewChangeStatus → Option Ballot
  | .viewChange b _ => some b
  | _ => none

namespace VRLeaderElectionComp

/-- The node has not yet seen a majority in the view of `b`. -/
def Early (c : VRLeaderElectionComp) (b : Ballot) : Prop :=
  c.viewNumber < b.n ∨ c.viewchangeStatus.gathering = some b

instance (c : VRLeaderElectionComp) (b : Ballot) : Decidable (c.Early b) :=
  inferInstanceAs (Decidable (_ ∨ _))

variable {c c' : VRLeaderElectionComp} {e : VREvent} {out : List VROut} {b : Ballot} {sender : ℕ}

theorem newHbRound_connected (hconn : c.disconnectedPeers = []) (h : c.newHbRound = .ok (c', out)) :
    c'.disconnectedPeers = [] := by
  unfold newHbRound at h
  dsimp only at h
  split at h
  · split at h
    · cases h; exact hconn
    · cases h
  · cases h

theorem hbTimeout_connected {l : Ballot} (hconn : c.disconnectedPeers = [])
    (h : c.hbTimeout l = .ok (c', out)) : c'.disconnectedPeers = [] := by
  unfold hbTimeout at h
  split at h
  · split_ifs at h
    · exact newHbRound_connected hconn h
    · cases h; exact hconn
    · cases h; exact hconn
  · cases h; exact hconn

theorem handleStartViewChange_connected (hconn : c.disconnectedPeers = [])
    (h : c.handleStartViewChange b sender = .ok (c', out)) : c'.disconnectedPeers = [] := by
  rcases handleStartViewChange_cases h with ⟨rfl, -⟩ | ⟨-, ⟨-, heq⟩ | ⟨k, -, hk⟩⟩
  · exact hconn
  · cases heq; exact hconn
  · rcases hk with ⟨-, rfl, -⟩ | ⟨-, -, rfl, -⟩ | ⟨-, -, -, out', hr, -⟩
    · exact hconn
    · exact hconn
    · obtain ⟨t, T, hstop⟩ := stopTimer_eq { c with viewchangeStatus := .elected b }
      rw [hstop] at hr
      refine newHbRound_connected ?_ hr
      exact hconn

theorem handleDoViewChange_connected (hconn : c.disconnectedPeers = [])
    (h : c.handleDoViewChange b sender = .ok (c', out)) : c'.disconnectedPeers = [] := by
  rcases handleDoViewChange_cases h with ⟨rfl, -⟩ | ⟨-, k, -, ⟨-, rfl, -⟩ | ⟨-, rfl, -⟩⟩
  · exact hconn
  · exact hconn
  · obtain ⟨t, T, hstop⟩ := stopTimer_eq c
    rw [hstop]
    exact hconn

/-- Only a partition disconnects peers. -/
theorem handle_connected (hconn : c.disconnectedPeers = []) (he : ∀ p, e ≠ .partition p)
    (h : c.handle e = some (.ok (c', out))) : c'.disconnectedPeers = [] := by
  cases e with
  | start => exact hbTimeout_connected hconn (Option.some.inj h)
  | timeout id =>
    obtain ⟨⟨l, timers⟩, -, heq⟩ := Option.map_eq_some_iff.mp h
    exact hbTimeout_connected (c := { c with timers := timers }) hconn heq
  | request sender round =>
    have heq := Option.some.inj h
    unfold handleRequest at heq
    split_ifs at heq
    · cases heq; exact hconn
    · cases heq; exact hconn
  | reply m =>
    obtain ⟨⟨alive, rfl⟩, -⟩ := handleReply_cases (Option.some.inj h)
    exact hconn
  | vr m =>
    cases m with
    | startViewChange b sender => exact handleStartViewChange_connected hconn (Option.some.inj h)
    | doViewChange b sender => exact handleDoViewChange_connected hconn (Option.some.inj h)
  | stop pid =>
    obtain ⟨⟨ask, rfl⟩, -⟩ := handleStop_cases (Option.some.inj h)
    obtain ⟨t, T, hstop⟩ := stopTimer_eq { c with disconnectedPeers := [] }
    rw [hstop]
  | peerStop pid =>
    obtain ⟨⟨ask, rfl⟩, -⟩ := handlePeerStop_cases (Option.some.inj h)
    exact hconn
  | partition p => exact absurd rfl (he p)

/-- A connected node counts the announcements of its view. -/
theorem counts_startViewChange (hconn : c.disconnectedPeers = []) {k : ℕ}
    (hs : c.viewchangeStatus = .viewChange b k)
    (h : c.handle (.vr (.startViewChange b sender)) = some (.ok (c', out))) :
    c'.viewchangeStatus ≠ .viewChange b k := by
  have heq : c.handleStartViewChange b sender = .ok (c', out) := Option.some.inj h
  unfold handleStartViewChange at heq
  rw [hconn, if_neg List.not_mem_nil, hs] at heq
  dsimp only at heq
  rw [if_neg (lt_irrefl _), if_pos rfl] at heq
  split_ifs at heq
  · cases heq; nofun
  · split at heq
    · obtain ⟨t, T, hstop⟩ := stopTimer_eq { c with viewchangeStatus := .elected b }
      rw [hstop] at heq
      cases hr : newHbRound { c with viewchangeStatus := .elected b, timer := t, timers := T } with
      | error p => rw [hr] at heq; cases heq
      | ok x =>
        rw [hr] at heq
        cases heq
        rw [(newHbRound_ok hr).2.2.1]
        nofun
    · cases heq
  · cases heq
    intro hk
    exact absurd (ViewChangeStatus.viewChange.inj hk).2 (Nat.succ_ne_self k)

/-- A connected candidate counts the votes for its view. -/
theorem counts_doViewChange (hconn : c.disconnectedPeers = []) {k : ℕ}
    (hs : c.viewchangeStatus = .candidate b k)
    (h : c.handle (.vr (.doViewChange b sender)) = some (.ok (c', out))) :
    c'.viewchangeStatus ≠ .candidate b k := by
  have heq : c.handleDoViewChange b sender = .ok (c', out) := Option.some.inj h
  unfold handleDoViewChange at heq
  rw [hconn, if_neg List.not_mem_nil, hs] at heq
  dsimp only at heq
  rw [if_pos rfl] at heq
  split_ifs at heq
  · cases heq; nofun
  · cases heq
    intro hk
    exact absurd (ViewChangeStatus.candidate.inj hk).2 (Nat.succ_ne_self k)

end VRLeaderElectionComp

namespace ViewElection

variable {S : Views} {s : ViewElection} {i j : ℕ} {e : VREvent} {c : VRLeaderElectionComp}
  {out : List VROut} {b : Ballot} {x : ℕ × VRMsg}

/-- No partition, and no `DoViewChange` that comes early. -/
def Timely (s : ViewElection) : ℕ × VREvent → Prop
  | (_, .partition _) => False
  | (i, .vr (.doViewChange b _)) => ¬ (s.node i).Early b
  | _ => True

instance (s : ViewElection) : ∀ x, Decidable (s.Timely x)
  | (_, .partition _) => isFalse id
  | (i, .vr (.doViewChange b _)) => inferInstanceAs (Decidable (¬ (s.node i).Early b))
  | (_, .start) | (_, .timeout _) | (_, .request _ _) | (_, .reply _) | (_, .stop _) | (_, .peerStop _)
  | (_, .vr (.startViewChange _ _)) => isTrue trivial

variable (S) in
def Orderly (s : ViewElection) (x : ℕ × VREvent) : Prop := Small S s x ∧ s.Timely x

instance (s : ViewElection) (x : ℕ × VREvent) : Decidable (Orderly S s x) :=
  inferInstanceAs (Decidable (_ ∧ _))

/-- The nodes in the view of `b`, but `m₀`, are in `seen`, or their announcement to `i` is in flight. -/
def Accounted (s : ViewElection) (i : ℕ) (b : Ballot) (seen : List ℕ) (m₀ : ℕ) : Prop :=
  ∀ m, (m, b) ∈ s.entered → m = m₀ ∨ m ∈ seen ∨ (i, .startViewChange b m) ∈ s.flight

/-- Node `i` has counted the request of `a`, or is past it. -/
def Heeded (s : ViewElection) (i : ℕ) (a : Asked) : Prop :=
  a.ballot.n < (s.node i).viewNumber ∨ (s.node i).viewchangeStatus = .elected a.ballot ∨
    ∃ k, (s.node i).viewchangeStatus = .candidate a.ballot k ∧ a.pid ∈ s.votes i

/-- Node `i` is elected, or has asked the elected one to lead. -/
def Decided (s : ViewElection) (i : ℕ) (b : Ballot) : Prop :=
  (b.pid = i ∧ ⟨i, b⟩ ∈ s.indications i) ∨ (b.pid ≠ i ∧ ∃ a ∈ s.asked, a.pid = i ∧ a.ballot = b)

variable (S s) in
structure Progress : Prop where
  connected : ∀ i ∈ S.views, (s.node i).disconnectedPeers = []
  receiver : ∀ x ∈ s.flight, x.1 ∈ S.views
  positive : ∀ k b, (k, b) ∈ s.entered → 0 < b.n
  entered : ∀ i ∈ S.views, s.started i = true → (i, (s.node i).viewchangeStatus.ballot) ∈ s.entered
  told : ∀ k b, (k, b) ∈ s.entered → ∀ j ∈ S.views, j ≠ k →
    b.n ≤ (s.node j).viewNumber ∨ (j, .startViewChange b k) ∈ s.flight
  /-- All but one of the nodes in its view have been counted, or will be. -/
  heard : ∀ i ∈ S.views, ∀ b k, (s.node i).viewchangeStatus = .viewChange b k →
    k < S.views.length / 2 + 1 ∧ ∃ m₀, Accounted s i b (s.seen i) m₀
  votes : ∀ i ∈ S.views, ∀ b k, (s.node i).viewchangeStatus = .candidate b k →
    k < S.views.length / 2 + 1
  heeded : ∀ a ∈ s.asked, (a.ballot.pid, .doViewChange a.ballot a.pid) ∈ s.flight ∨
    Heeded s a.ballot.pid a
  decided : ∀ i ∈ S.views, s.started i = true → ∀ b, (s.node i).viewchangeStatus = .elected b →
    Decided s i b

theorem progress_init : Progress S (init S) := by
  refine ⟨fun i _ => rfl, ?_, ?_, ?_, ?_, ?_, ?_, ?_, ?_⟩
  · intro x h; cases h
  · intro k b h; cases h
  · intro i _ h; cases h
  · intro k b h; cases h
  · intro i _ b k h; cases h
  · intro i _ b k h; cases h
  · intro a h; cases h
  · intro i _ h; cases h

/-- The number of a view says which node is to lead it. -/
theorem ballot_ext {b b' : Ballot} (hv : Valid S b) (hv' : Valid S b') (hn : b.n = b'.n) : b = b' := by
  have hp : b.pid = b'.pid := by rw [hv, hv', hn]
  cases b
  cases b'
  cases hn
  cases hp
  rfl

/-! ### What a step changes -/

theorem mem_flight_set_of_ne (h : x ∈ s.flight) (hne : ∀ m, e = .vr m → x ≠ (i, m)) :
    x ∈ (s.set i e c out).flight := by
  refine List.mem_append_left _ ?_
  unfold flightAfter
  split
  · next m => exact (List.mem_erase_of_ne (hne m rfl)).mpr h
  · exact h

/-- Messages to the other nodes stay in flight. -/
theorem mem_flight_set_other {m : VRMsg} (h : (j, m) ∈ s.flight) (hj : j ≠ i) :
    (j, m) ∈ (s.set i e c out).flight :=
  mem_flight_set_of_ne h fun _ _ heq => hj (congrArg Prod.fst heq)

theorem mem_flight_set_sent (h : x ∈ messagesOf out) : x ∈ (s.set i e c out).flight :=
  List.mem_append_right _ h

theorem mem_entered_cases {k : ℕ} (h : (k, b) ∈ (s.set i e c out).entered) :
    (k, b) ∈ s.entered ∨
      (k = i ∧ b = c.viewchangeStatus.ballot ∧ c.viewNumber ≠ (s.node i).viewNumber) := by
  have h' : (k, b) ∈ ite (c.viewNumber = (s.node i).viewNumber) s.entered
    (s.entered ++ [(i, c.viewchangeStatus.ballot)]) := h
  split_ifs at h' with hn
  · exact Or.inl h'
  · rcases List.mem_append.mp h' with h' | h'
    · exact Or.inl h'
    · cases List.mem_singleton.mp h'
      exact Or.inr ⟨rfl, rfl, hn⟩

/-- A view that a node enters is higher than its present one. -/
theorem enter_lt (h : NodeInv S s i) (hsmall : (s.node i).viewNumber < 2 ^ 32 - 1)
    (hcause : (b = (s.node i).nextBallot ∧ ∀ m, e ≠ .vr m) ∨
      ∃ sender, e = .vr (.startViewChange b sender) ∧ (s.node i).viewchangeStatus.ballot.n < b.n) :
    (s.node i).viewNumber < b.n := by
  rcases hcause with ⟨rfl, -⟩ | ⟨-, -, hlt⟩
  · exact lt_nextBallot hsmall
  · rw [h.number]; exact hlt

section Step

variable (h : Inv S s) (hi : i ∈ S.views) (hsmall : (s.node i).viewNumber < 2 ^ 32 - 1)
  (hin : s.Input S i e) (hc : (s.node i).handle e = some (.ok (c, out)))
include h hi hin hc

/-- The status of a node that is started changes. -/
theorem started_of_status_eq (hstatus : c.viewchangeStatus = (s.node i).viewchangeStatus) :
    s.started i = true := by
  by_cases he : e = .start
  · subst he
    obtain ⟨hs, ha⟩ := (h.node i hi).fresh hin
    obtain ⟨-, -, hnew, -⟩ := start_enters hs ha hc
    rw [hs, hnew] at hstatus
    cases hstatus
  · exact hin.started he

include hsmall

/-- A new entry is announced to all other nodes. -/
theorem entered_or_announced {k : ℕ} (hk : (k, b) ∈ (s.set i e c out).entered) : (k, b) ∈ s.entered ∨
    (k = i ∧ (s.node i).viewNumber < b.n ∧ c.viewchangeStatus = .viewChange b 1 ∧
      ∀ j ∈ S.views, j ≠ i → (j, .startViewChange b i) ∈ (s.set i e c out).flight) := by
  rcases mem_entered_cases hk with hold | ⟨rfl, rfl, hne⟩
  · exact Or.inl hold
  · right
    cases handle_move hc with
    | enter _ _ b frame cause number status =>
      rw [status]
      refine ⟨rfl, enter_lt (h.node k hi) hsmall cause, rfl, fun j hj hjk => ?_⟩
      refine mem_flight_set_sent ?_
      rw [(startViewChange_outputs _ b []).1, (h.node k hi).views, (h.node k hi).pid]
      exact List.mem_map.mpr ⟨j, List.mem_filter.mpr ⟨hj, decide_eq_true hjk⟩, rfl⟩
    | _ => contradiction

/-- Within a view the ballot stays. -/
theorem ballot_eq (hnumber : c.viewNumber = (s.node i).viewNumber) : s.started i = true ∧
    c.viewchangeStatus.ballot = (s.node i).viewchangeStatus.ballot := by
  cases handle_move hc with
  | quiet _ _ _ _ _ status => exact ⟨started_of_status_eq h hi hin hc status, by rw [status]⟩
  | enter _ _ b frame cause number status =>
    have := enter_lt (h.node i hi) hsmall cause
    omega
  | count _ b sender k _ had _ _ status => exact ⟨hin.1, by rw [had, status]; rfl⟩
  | stand _ b sender k _ had _ _ _ status => exact ⟨hin.1, by rw [had, status]; rfl⟩
  | follow _ b sender k _ _ had _ _ _ status => exact ⟨hin.1, by rw [had, status]; rfl⟩
  | vote _ b sender k _ had _ _ status => exact ⟨hin.1, by rw [had, status]; rfl⟩
  | win _ b sender k _ had _ _ status => exact ⟨hin.1, by rw [had, status]; rfl⟩

omit hsmall in
/-- Messages are sent to nodes. -/
theorem receiver_mem (hx : x ∈ messagesOf out) : x.1 ∈ S.views := by
  cases handle_move hc with
  | quiet _ _ _ _ _ _ outs =>
    rw [(notes_nil outs []).1] at hx; cases hx
  | enter _ _ b =>
    rw [(startViewChange_outputs _ b []).1, (h.node i hi).views] at hx
    obtain ⟨peer, hpeer, rfl⟩ := List.mem_map.mp hx
    exact (List.mem_filter.mp hpeer).1
  | follow _ b sender k out _ had _ _ _ _ outs =>
    have hone : messagesOf (.vr b.pid (.doViewChange b (s.node i).pid) :: out) =
        [(b.pid, .doViewChange b (s.node i).pid)] := congrArg (_ :: ·) (notes_nil outs []).1
    rw [hone, List.mem_singleton] at hx
    rw [hx]
    have hvalid := (h.node i hi).valid hin.1
    rw [had] at hvalid
    exact hvalid.mem
  | _ => cases hx

omit h hi hin hsmall in
/-- A new request is sent to the node of its view. -/
theorem asked_or_sent {a : Asked} (ha : a ∈ (s.set i e c out).asked) : a ∈ s.asked ∨
    (a.ballot.pid, .doViewChange a.ballot a.pid) ∈ (s.set i e c out).flight := by
  rcases List.mem_append.mp ha with ha | ha
  · exact Or.inl ha
  · cases handle_move hc with
    | quiet _ _ _ _ _ _ outs =>
      rw [(notes_nil outs _).2.1] at ha; cases ha
    | enter =>
      rw [(startViewChange_outputs _ _ _).2.1] at ha; cases ha
    | follow _ b sender k out _ _ _ _ _ _ outs =>
      right
      have hone : askedOf (.vr b.pid (.doViewChange b (s.node i).pid) :: out)
          (s.seenAfter i (.vr (.startViewChange b sender)) c) =
            [⟨(s.node i).pid, b, s.seenAfter i (.vr (.startViewChange b sender)) c⟩] :=
        congrArg (_ :: ·) (notes_nil outs _).2.1
      rw [hone, List.mem_singleton] at ha
      rw [ha]
      exact mem_flight_set_sent (List.mem_cons_self ..)
    | _ => cases ha

variable (hP : Progress S s) (hT : s.Timely (i, e))
include hP

/-- An announcement reaches its receiver, or is in flight. -/
theorem told_step {k : ℕ} (hk : (k, b) ∈ (s.set i e c out).entered) (hj : j ∈ S.views)
    (hjk : j ≠ k) :
    b.n ≤ ((s.set i e c out).node j).viewNumber ∨
      (j, .startViewChange b k) ∈ (s.set i e c out).flight := by
  rcases entered_or_announced h hi hsmall hin hc hk with hold | ⟨rfl, -, -, hsent⟩
  swap
  · exact Or.inr (hsent j hj hjk)
  by_cases hji : j = i
  swap
  · rw [node_set_of_ne hji]
    exact (hP.told k b hold j hj hjk).imp_right fun hm => mem_flight_set_other hm hji
  subst hji
  rw [node_set_self]
  have hle := number_le_handle (h.node _ hi).number hsmall hc
  rcases hP.told k b hold j hj hjk with hn | hm
  · exact Or.inl (hn.trans hle)
  by_cases he : e = .vr (.startViewChange b k)
  swap
  · exact Or.inr (mem_flight_set_of_ne hm fun m hem heq => he (by rw [hem, ← (Prod.mk.inj heq).2]))
  -- the announcement is handled now: if the view is a higher one, the node enters it
  left
  subst he
  rcases Nat.lt_or_ge (s.node j).viewchangeStatus.ballot.n b.n with hlt | hge
  · have hnot : k ∉ (s.node j).disconnectedPeers := by rw [hP.connected j hj]; exact List.not_mem_nil
    rw [handle_higher hnot hlt] at hc
    cases hc
    exact le_rfl
  · rw [← (h.node j hj).number] at hge
    exact hge.trans hle

omit hP in
/-- A step of another node announces what it enters. -/
theorem Accounted.other {m₀ : ℕ} {seen : List ℕ} (ha : Accounted s j b seen m₀) (hj : j ∈ S.views)
    (hji : j ≠ i) : Accounted (s.set i e c out) j b seen m₀ := by
  intro m hm
  rcases entered_or_announced h hi hsmall hin hc hm with hold | ⟨rfl, -, -, hsent⟩
  · exact (ha m hold).imp_right (Or.imp_right fun hflight => mem_flight_set_other hflight hji)
  · exact Or.inr (Or.inr (hsent j hj hji))

omit hP in
/-- A node that stays in its view adds the sender of an announcement to those it has seen. -/
theorem Accounted.self {m₀ : ℕ} {seen : List ℕ} (ha : Accounted s i b (s.seen i) m₀)
    (hb : (s.node i).viewNumber = b.n) (hsub : s.seen i ⊆ seen)
    (hcounted : ∀ m, e = .vr (.startViewChange b m) → m ∈ seen) :
    Accounted (s.set i e c out) i b seen m₀ := by
  intro m hm
  rcases entered_or_announced h hi hsmall hin hc hm with hold | ⟨-, hlt, -, -⟩
  swap
  · omega
  rcases ha m hold with heq | hmem | hflight
  · exact Or.inl heq
  · exact Or.inr (Or.inl (hsub hmem))
  · by_cases he : e = .vr (.startViewChange b m)
    · exact Or.inr (Or.inl (hcounted m he))
    · refine Or.inr (Or.inr (mem_flight_set_of_ne hflight fun m' he' heq => he ?_))
      rw [he', ← (Prod.mk.inj heq).2]

/-- A node that enters a view has seen itself there; the announcement that made it enter, if there is
one, is not counted. -/
theorem accounted_enter (hlt : (s.node i).viewNumber < b.n)
    (hcause : (b = (s.node i).nextBallot ∧ ∀ m, e ≠ .vr m) ∨
      ∃ sender, e = .vr (.startViewChange b sender) ∧ (s.node i).viewchangeStatus.ballot.n < b.n) :
    ∃ m₀, Accounted (s.set i e c out) i b [i] m₀ := by
  obtain ⟨m₀, hm₀⟩ : ∃ m₀, ∀ m, e = .vr (.startViewChange b m) → m = m₀ := by
    rcases hcause with ⟨-, hne⟩ | ⟨sender, rfl, -⟩
    · exact ⟨0, fun m he => absurd he (hne _)⟩
    · exact ⟨sender, fun m he => by cases he; rfl⟩
  refine ⟨m₀, fun m hm => ?_⟩
  by_cases hmi : m = i
  · exact Or.inr (Or.inl (List.mem_singleton.mpr hmi))
  rcases entered_or_announced h hi hsmall hin hc hm with hold | ⟨heq, -⟩
  swap
  · exact absurd heq hmi
  rcases hP.told m b hold i hi (Ne.symm hmi) with hle | hflight
  · omega
  · by_cases he : e = .vr (.startViewChange b m)
    · exact Or.inl (hm₀ m he)
    · refine Or.inr (Or.inr (mem_flight_set_of_ne hflight fun m' he' heq => he ?_))
      rw [he', ← (Prod.mk.inj heq).2]

/-- The announcements of its view that a node has not counted, but one, are in flight. -/
theorem heard_step (hj : j ∈ S.views) {k : ℕ}
    (hs : ((s.set i e c out).node j).viewchangeStatus = .viewChange b k) :
    k < S.views.length / 2 + 1 ∧ ∃ m₀, Accounted (s.set i e c out) j b ((s.set i e c out).seen j) m₀ := by
  by_cases hji : j = i
  swap
  · rw [node_set_of_ne hji] at hs
    rw [seen_set_of_ne hji]
    obtain ⟨hk, m₀, hm₀⟩ := hP.heard j hj b k hs
    exact ⟨hk, m₀, hm₀.other h hi hsmall hin hc hj hji⟩
  subst hji
  rw [node_set_self] at hs
  rw [seen_set_self]
  cases handle_move hc with
  | quiet _ _ _ _ number status =>
    rw [status] at hs
    have hseen : s.seenAfter j e c = s.seen j := by
      unfold seenAfter
      rw [if_neg (not_not.mpr number), if_pos status]
    rw [hseen]
    obtain ⟨hk, m₀, hm₀⟩ := hP.heard j hj b k hs
    have hb : (s.node j).viewNumber = b.n := by rw [(h.node j hj).number, hs]; rfl
    refine ⟨hk, m₀, hm₀.self h hi hsmall hin hc hb (List.Subset.refl _) fun m he => ?_⟩
    -- the announcement would have been counted
    subst he
    exact absurd (status.trans hs) (counts_startViewChange (hP.connected j hj) hs hc)
  | enter _ _ b' frame cause number status =>
    rw [status] at hs
    cases hs
    have htwo := S.two
    have hlt := enter_lt (h.node j hj) hsmall cause
    have hseen : s.seenAfter j e c = [j] := if_pos (by omega)
    rw [hseen]
    exact ⟨by omega, accounted_enter h hi hsmall hin hc hP hlt cause⟩
  | count _ b' sender k' frame had fewer number status =>
    rw [status] at hs
    cases hs
    rw [seenAfter_heard number (by rw [status, had]; simp)]
    obtain ⟨hk, m₀, hm₀⟩ := hP.heard j hj b k' had
    rw [(h.node j hj).majority] at fewer
    have hb : (s.node j).viewNumber = b.n := by rw [(h.node j hj).number, had]; rfl
    refine ⟨by omega, m₀, hm₀.self h hi hsmall hin hc hb (List.subset_cons_self ..) fun m he => ?_⟩
    cases he
    exact List.mem_cons_self ..
  | stand _ _ _ _ _ _ _ _ _ status => rw [status] at hs; cases hs
  | follow _ _ _ _ _ _ _ _ _ _ status => rw [status] at hs; cases hs
  | vote _ _ _ _ _ _ _ _ status => rw [status] at hs; cases hs
  | win _ _ _ _ _ _ _ _ status => rw [status] at hs; cases hs

omit hP in
/-- A request that has been heeded stays so. -/
theorem Heeded.step {a : Asked} (ha : Heeded s i a) : Heeded (s.set i e c out) i a := by
  have hle := number_le_handle (h.node _ hi).number hsmall hc
  unfold Heeded at ha ⊢
  rw [node_set_self, votes_set_self]
  rcases ha with hlt | hs | ⟨k, hs, hmem⟩
  · exact Or.inl (by omega)
  · have hnum : (s.node i).viewNumber = a.ballot.n := by rw [(h.node i hi).number, hs]; rfl
    cases handle_move hc with
    | quiet _ _ _ _ number status => exact Or.inr (Or.inl (by rw [status, hs]))
    | enter _ _ b frame cause number status =>
      have := enter_lt (h.node i hi) hsmall cause
      exact Or.inl (by omega)
    | count _ _ _ _ _ had => rw [had] at hs; cases hs
    | stand _ _ _ _ _ had => rw [had] at hs; cases hs
    | follow _ _ _ _ _ _ had => rw [had] at hs; cases hs
    | vote _ _ _ _ _ had => rw [had] at hs; cases hs
    | win _ _ _ _ _ had => rw [had] at hs; cases hs
  · have hnum : (s.node i).viewNumber = a.ballot.n := by rw [(h.node i hi).number, hs]; rfl
    cases handle_move hc with
    | quiet _ _ _ _ number status =>
      have hvotes : s.votesAfter i e c = s.votes i := if_pos status
      exact Or.inr (Or.inr ⟨k, status.trans hs, hvotes ▸ hmem⟩)
    | enter _ _ b frame cause number status =>
      have := enter_lt (h.node i hi) hsmall cause
      exact Or.inl (by omega)
    | count _ _ _ _ _ had => rw [had] at hs; cases hs
    | stand _ _ _ _ _ had => rw [had] at hs; cases hs
    | follow _ _ _ _ _ _ had => rw [had] at hs; cases hs
    | vote _ b sender k' _ had _ _ status =>
      rw [had] at hs
      cases hs
      have hvotes : s.votesAfter i (.vr (.doViewChange a.ballot sender)) c = sender :: s.votes i :=
        if_neg (by rw [status, had]; simp)
      exact Or.inr (Or.inr ⟨_, status, hvotes ▸ List.mem_cons_of_mem _ hmem⟩)
    | win _ b sender k' _ had _ _ status =>
      rw [had] at hs
      cases hs
      exact Or.inr (Or.inl status)

include hT

/-- A request that is handled is heeded. -/
theorem heeded_handle {a : Asked} (ha : a ∈ s.asked)
    (he : e = .vr (.doViewChange a.ballot a.pid)) : Heeded (s.set i e c out) i a := by
  subst he
  have hI := h.node i hi
  have htimely : ¬ (s.node i).Early a.ballot := hT
  unfold Early at htimely
  rw [not_or, Nat.not_lt] at htimely
  obtain ⟨hle, hgather⟩ := htimely
  by_cases hlt : a.ballot.n < (s.node i).viewNumber
  · exact Heeded.step h hi hsmall hin hc (Or.inl hlt)
  have hnum : (s.node i).viewchangeStatus.ballot.n = a.ballot.n := by rw [← hI.number]; omega
  have hballot := ballot_ext (hI.valid hin.1) (h.record.asked a ha).2.1 hnum
  cases hs : (s.node i).viewchangeStatus with
  | elected l =>
    rw [hs] at hballot
    exact Heeded.step h hi hsmall hin hc (Or.inr (Or.inl (hballot ▸ hs)))
  | viewChange l k =>
    rw [hs] at hballot hgather
    exact absurd (congrArg some hballot) hgather
  | candidate l k =>
    rw [hs] at hballot
    change l = a.ballot at hballot
    subst hballot
    unfold Heeded
    rw [node_set_self, votes_set_self]
    cases handle_move hc with
    | quiet _ _ _ _ _ status =>
      exact absurd (status.trans hs) (counts_doViewChange (hP.connected i hi) hs hc)
    | enter _ _ b frame cause =>
      rcases cause with ⟨-, hne⟩ | ⟨sender, he, -⟩
      · exact absurd rfl (hne _)
      · cases he
    | vote _ _ _ k' _ had _ _ status =>
      have hvotes : s.votesAfter i (.vr (.doViewChange a.ballot a.pid)) c = a.pid :: s.votes i :=
        if_neg (by rw [status, had]; simp)
      exact Or.inr (Or.inr ⟨_, status, hvotes ▸ List.mem_cons_self ..⟩)
    | win _ _ _ _ _ _ _ _ status => exact Or.inr (Or.inl status)

/-- A request is heeded, or is in flight. -/
theorem heeded_step {a : Asked} (ha : a ∈ (s.set i e c out).asked) :
    (a.ballot.pid, .doViewChange a.ballot a.pid) ∈ (s.set i e c out).flight ∨
      Heeded (s.set i e c out) a.ballot.pid a := by
  rcases asked_or_sent hc ha with hold | hsent
  swap
  · exact Or.inl hsent
  by_cases hpid : a.ballot.pid = i
  · rcases hP.heeded a hold with hm | hheeded
    · by_cases he : e = .vr (.doViewChange a.ballot a.pid)
      · rw [hpid]
        exact Or.inr (heeded_handle h hi hsmall hin hc hP hT hold he)
      · exact Or.inl (mem_flight_set_of_ne hm fun m hem heq => he (by rw [hem, ← (Prod.mk.inj heq).2]))
    · rw [hpid] at hheeded ⊢
      exact Or.inr (hheeded.step h hi hsmall hin hc)
  · refine (hP.heeded a hold).imp (fun hm => mem_flight_set_other hm hpid) fun hheeded => ?_
    unfold Heeded
    rw [node_set_of_ne hpid, votes_set_of_ne hpid]
    exact hheeded

omit h hi hin hc hsmall hP hT in
theorem Decided.set (hd : Decided s j b) : Decided (s.set i e c out) j b := by
  refine hd.imp (fun ⟨hpid, hl⟩ => ⟨hpid, ?_⟩)
    fun ⟨hpid, a, ha, hrest⟩ => ⟨hpid, a, mem_asked_set ha, hrest⟩
  by_cases hj : j = i
  · subst hj
    rw [indications_set_self]
    exact List.mem_append_left _ hl
  · rw [indications_set_of_ne hj]
    exact hl

omit hT in
/-- A node that is done with the view change has indicated itself, or asked another one. -/
theorem decided_step (hj : j ∈ S.views) (hst : (s.set i e c out).started j = true)
    (hs : ((s.set i e c out).node j).viewchangeStatus = .elected b) : Decided (s.set i e c out) j b := by
  by_cases hji : j = i
  swap
  · rw [node_set_of_ne hji] at hs
    rw [started_set_of_ne hji] at hst
    exact (hP.decided j hj hst b hs).set
  subst hji
  rw [node_set_self] at hs
  cases handle_move hc with
  | quiet _ _ _ _ _ status =>
    exact (hP.decided j hj (started_of_status_eq h hi hin hc status) b (status ▸ hs)).set
  | enter _ _ _ _ _ _ status => rw [status] at hs; cases hs
  | count _ _ _ _ _ _ _ _ status => rw [status] at hs; cases hs
  | stand _ _ _ _ _ _ _ _ _ status => rw [status] at hs; cases hs
  | vote _ _ _ _ _ _ _ _ status => rw [status] at hs; cases hs
  | follow _ b' sender k out frame had enough other number status outs =>
    rw [status] at hs
    cases hs
    rw [(h.node j hj).pid] at other
    refine Or.inr ⟨other, ⟨j, b, s.seenAfter j (.vr (.startViewChange b sender)) c⟩, ?_, rfl, rfl⟩
    refine List.mem_append_right _ ?_
    rw [(h.node j hj).pid]
    exact List.mem_cons_self ..
  | win _ b' sender k frame had enough number status =>
    rw [status] at hs
    cases hs
    obtain ⟨hpid, -⟩ := (h.node j hj).votes b k had
    refine Or.inl ⟨hpid, ?_⟩
    rw [indications_set_self, (h.node j hj).pid]
    exact List.mem_append_right _ (List.mem_singleton.mpr rfl)

omit hT in
/-- A candidate has not yet counted a majority. -/
theorem votes_step (hj : j ∈ S.views) {k : ℕ}
    (hs : ((s.set i e c out).node j).viewchangeStatus = .candidate b k) :
    k < S.views.length / 2 + 1 := by
  have htwo := S.two
  by_cases hji : j = i
  swap
  · rw [node_set_of_ne hji] at hs
    exact hP.votes j hj b k hs
  subst hji
  rw [node_set_self] at hs
  cases handle_move hc with
  | quiet _ _ _ _ _ status => exact hP.votes j hj b k (status ▸ hs)
  | enter _ _ _ _ _ _ status => rw [status] at hs; cases hs
  | count _ _ _ _ _ _ _ _ status => rw [status] at hs; cases hs
  | follow _ _ _ _ _ _ _ _ _ _ status => rw [status] at hs; cases hs
  | win _ _ _ _ _ _ _ _ status => rw [status] at hs; cases hs
  | stand _ _ _ _ _ _ _ _ _ status =>
    rw [status] at hs
    cases hs
    omega
  | vote _ _ _ k' _ had fewer _ status =>
    rw [status] at hs
    cases hs
    have := hP.votes j hj b k' had
    rw [(h.node j hj).majority] at fewer
    omega

/-- **One event keeps `Progress`.** -/
theorem Progress.handle : Progress S (s.set i e c out) := by
  have hnone : ∀ p, e ≠ .partition p := by
    rintro p rfl
    exact hT
  refine ⟨fun j hj => ?_, fun x hx => ?_, fun k b hk => ?_, fun j hj hst => ?_, fun k b hk j hj hjk => ?_,
    fun j hj b k hs => ?_, fun j hj b k hs => ?_, fun a ha => ?_, fun j hj hst b hs => ?_⟩
  · by_cases hji : j = i
    · subst hji
      rw [node_set_self]
      exact handle_connected (hP.connected j hj) hnone hc
    · rw [node_set_of_ne hji]
      exact hP.connected j hj
  · rcases List.mem_append.mp hx with hx | hx
    · exact hP.receiver x (mem_flightAfter hx)
    · exact receiver_mem h hi hin hc hx
  · rcases entered_or_announced h hi hsmall hin hc hk with hold | ⟨-, hlt, -⟩
    · exact hP.positive k b hold
    · omega
  · by_cases hji : j = i
    · subst hji
      rw [node_set_self]
      by_cases hnumber : c.viewNumber = (s.node j).viewNumber
      · obtain ⟨hst', hb⟩ := ballot_eq h hi hsmall hin hc hnumber
        rw [hb]
        exact mem_entered_set (hP.entered j hj hst')
      · show _ ∈ ite _ _ _
        rw [if_neg hnumber]
        exact List.mem_append_right _ (List.mem_singleton.mpr rfl)
    · rw [node_set_of_ne hji]
      rw [started_set_of_ne hji] at hst
      exact mem_entered_set (hP.entered j hj hst)
  · exact told_step h hi hsmall hin hc hP hk hj hjk
  · exact heard_step h hi hsmall hin hc hP hj hs
  · exact votes_step h hi hsmall hin hc hP hj hs
  · exact heeded_step h hi hsmall hin hc hP hT ha
  · exact decided_step h hi hsmall hin hc hP hj hst hs

end Step

theorem progress_of_reachable (hs : (machine S).ReachableUnder (Orderly S) s) : Progress S s := by
  refine hs.invariant (P := Progress S) progress_init fun s x t hr hok hP hstep => ?_
  have h := inv_of_reachable (hr.mono fun _ _ hok => hok.1)
  obtain ⟨i, e, c, out, rfl, hi, hin, hc, rfl⟩ := step_handle hstep
  exact hP.handle h hi (hok.1 i hi) hin hc hok.2

end ViewElection

end OmniPaxosBench.LeaderElection
