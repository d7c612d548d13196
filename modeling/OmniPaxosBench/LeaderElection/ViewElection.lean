import OmniPaxosBench.LeaderElection.VRLeaderElectionComp
import OmniPaxosBench.Lib.Machine

/-! # View-change leader election: the nodes together

At least two nodes with one list of views, each started at any time. A message of the view change is
delivered at most once, at any time or never; heartbeats can also be delivered more than once.

Besides the nodes and the messages the state records what the counters stand for: the nodes a node has
seen in its view (`seen`), the nodes that have asked it to lead (`votes`), the views each node has
entered, the `DoViewChange`s sent and the indications. No handler reads these. `Inv` relates the bare
counters to them: a counter is the length of a list without repetition, because a node enters a view
once, and so a `StartViewChange` or `DoViewChange` of a view is in flight at most once per sender and
receiver. -/

namespace OmniPaxosBench.LeaderElection

open OmniPaxosBench.Lib VRLeaderElectionComp

/-- The common list of views. -/
structure Views where
  views : List ℕ
  nodup : views.Nodup
  two : 2 ≤ views.length

/-- A `DoViewChange` sent, with the nodes its sender had seen in the view. -/
structure Asked where
  pid : ℕ
  ballot : Ballot
  seen : List ℕ
  deriving DecidableEq, Repr

structure ViewElection where
  node : ℕ → VRLeaderElectionComp
  started : ℕ → Bool
  /-- The messages of the view change that are in flight, with their receiver. -/
  flight : List (ℕ × VRMsg)
  /-- What each node has sent and triggered. -/
  outs : ℕ → List VROut
  seen : ℕ → List ℕ
  votes : ℕ → List ℕ
  entered : List (ℕ × Ballot)
  asked : List Asked

namespace ViewElection

def init (S : Views) : ViewElection where
  node i := new S.views i
  started _ := false
  flight := []
  outs _ := []
  seen _ := []
  votes _ := []
  entered := []
  asked := []

variable (S : Views) (s : ViewElection)

/-- The indications among the outputs. -/
def indicationsOf (out : List VROut) : List Leader :=
  out.filterMap fun
    | .indication l => some l
    | _ => none

/-- The indications node `i` has triggered, in order. -/
def indications (i : ℕ) : List Leader := indicationsOf (s.outs i)

/-- The messages of the view change among the outputs. -/
def messagesOf (out : List VROut) : List (ℕ × VRMsg) :=
  out.filterMap fun
    | .vr peer m => some (peer, m)
    | _ => none

/-- The `DoViewChange`s among the outputs. -/
def askedOf (out : List VROut) (seen : List ℕ) : List Asked :=
  out.filterMap fun
    | .vr _ (.doViewChange b pid) => some ⟨pid, b, seen⟩
    | _ => none

/-- A node is started once and then gets messages that were sent to it. -/
def Input (i : ℕ) : VREvent → Prop
  | .start => s.started i = false
  | .vr m => s.started i = true ∧ (i, m) ∈ s.flight
  | .request sender round => s.started i = true ∧ sender ∈ S.views ∧ .hbRequest i round ∈ s.outs sender
  | .reply m => s.started i = true ∧ ∃ j ∈ S.views, .hbReply i m ∈ s.outs j
  | .peerStop pid => s.started i = true ∧ ∃ j ∈ S.views, .peerStop i pid ∈ s.outs j
  | .timeout _ | .stop _ | .partition _ => s.started i = true

instance (i : ℕ) : ∀ e, Decidable (s.Input S i e)
  | .start | .timeout _ | .stop _ | .partition _ => inferInstanceAs (Decidable (_ = _))
  | .vr _ | .request _ _ | .reply _ | .peerStop _ => inferInstanceAs (Decidable (_ ∧ _))

/-- The nodes `i` has seen in its view, after the event `e` that made it `c`. -/
def seenAfter (i : ℕ) (e : VREvent) (c : VRLeaderElectionComp) : List ℕ :=
  if c.viewNumber ≠ (s.node i).viewNumber then [i]
  else if c.viewchangeStatus = (s.node i).viewchangeStatus then s.seen i
  else match e with
    | .vr (.startViewChange _ sender) => sender :: s.seen i
    | _ => s.seen i

/-- The nodes that have asked `i` to lead, after the event `e` that made it `c`. -/
def votesAfter (i : ℕ) (e : VREvent) (c : VRLeaderElectionComp) : List ℕ :=
  if c.viewchangeStatus = (s.node i).viewchangeStatus then s.votes i
  else match e with
    | .vr (.startViewChange _ _) => [i]
    | .vr (.doViewChange _ sender) => sender :: s.votes i
    | _ => s.votes i

/-- The messages in flight when `e` has been handled by node `i`. -/
def flightAfter (i : ℕ) (e : VREvent) : List (ℕ × VRMsg) :=
  match e with
  | .vr m => s.flight.erase (i, m)
  | _ => s.flight

/-- Node `i` has become `c` by the event `e`, and sent `out`. -/
def set (i : ℕ) (e : VREvent) (c : VRLeaderElectionComp) (out : List VROut) : ViewElection where
  node := Function.update s.node i c
  started := Function.update s.started i true
  flight := s.flightAfter i e ++ messagesOf out
  outs := Function.update s.outs i (s.outs i ++ out)
  seen := Function.update s.seen i (s.seenAfter i e c)
  votes := Function.update s.votes i (s.votesAfter i e c)
  entered := if c.viewNumber = (s.node i).viewNumber then s.entered
    else s.entered ++ [(i, c.viewchangeStatus.ballot)]
  asked := s.asked ++ askedOf out (s.seenAfter i e c)

/-- An event at a node; `none` if it cannot happen, or panics. -/
def step : ℕ × VREvent → Option ViewElection
  | (i, e) =>
    if i ∈ S.views ∧ s.Input S i e then
      match (s.node i).handle e with
      | some (.ok (c, out)) => some (s.set i e c out)
      | _ => none
    else none

def machine : Machine ViewElection (ℕ × VREvent) := ⟨init S, fun s e => s.step S e⟩

/-- No view number has reached `2 ^ 32 - 1`. -/
def Small (s : ViewElection) (_ : ℕ × VREvent) : Prop :=
  ∀ i ∈ S.views, (s.node i).viewNumber < 2 ^ 32 - 1

instance (e : ℕ × VREvent) : Decidable (Small S s e) := inferInstanceAs (Decidable (∀ _ ∈ _, _))

/-- The pid of a ballot is that of its view. -/
def Valid (b : Ballot) : Prop := b.pid = S.views.getD (b.n % S.views.length) 0

/-- A node of each of `Q`, but `i`, has asked for the view of `b`. -/
def Backed (i : ℕ) (b : Ballot) (Q : List ℕ) : Prop :=
  Q.Nodup ∧ i ∈ Q ∧ ∀ m ∈ Q, m ≠ i → ∃ a ∈ s.asked, a.pid = m ∧ a.ballot = b

/-- The nodes of `Q`, among them `i`, have all entered the view of `b`. -/
def Together (i : ℕ) (b : Ballot) (Q : List ℕ) : Prop :=
  Q.Nodup ∧ i ∈ Q ∧ ∀ m ∈ Q, (m, b) ∈ s.entered

/-- What holds of a node and of the records about it. -/
structure NodeInv (i : ℕ) : Prop where
  pid : (s.node i).pid = i
  views : (s.node i).views = S.views
  majority : (s.node i).majority = S.views.length / 2 + 1
  number : (s.node i).viewNumber = (s.node i).viewchangeStatus.ballot.n
  fresh : s.started i = false →
    (s.node i).viewchangeStatus = .elected default ∧ (s.node i).leaderIsAlive = false
  valid : s.started i = true → Valid S (s.node i).viewchangeStatus.ballot
  seen : ∀ b k, (s.node i).viewchangeStatus = .viewChange b k →
    Together s i b (s.seen i) ∧ (s.seen i).length = k
  votes : ∀ b k, (s.node i).viewchangeStatus = .candidate b k →
    b.pid = i ∧ Backed s i b (s.votes i) ∧ (s.votes i).length = k
  won : ∀ l ∈ s.indications i, l.pid = i ∧ l.round.pid = i ∧ Valid S l.round ∧
    l.round.n ≤ (s.node i).viewNumber ∧
    (l.round.n = (s.node i).viewNumber → (s.node i).viewchangeStatus = .elected l.round) ∧
    ∃ Q, Backed s i l.round Q ∧ S.views.length / 2 + 1 ≤ Q.length
  sorted : ((s.indications i).map (·.round.n)).Pairwise (· < ·)

/-- What holds of the records of the whole system. -/
structure RecordInv : Prop where
  entered : ∀ k b, (k, b) ∈ s.entered → k ∈ S.views ∧ Valid S b ∧ b.n ≤ (s.node k).viewNumber
  asked : ∀ a ∈ s.asked, a.pid ∈ S.views ∧ Valid S a.ballot ∧ a.ballot.n ≤ (s.node a.pid).viewNumber ∧
    (a.ballot.n = (s.node a.pid).viewNumber → (s.node a.pid).viewchangeStatus = .elected a.ballot) ∧
    Together s a.pid a.ballot a.seen ∧ S.views.length / 2 + 1 ≤ a.seen.length

/-- What holds of the messages in flight. -/
structure FlightInv : Prop where
  nodup : s.flight.Nodup
  startViewChange : ∀ i b k, (i, .startViewChange b k) ∈ s.flight → i ≠ k ∧ (k, b) ∈ s.entered ∧
    ∀ n, (s.node i).viewchangeStatus = .viewChange b n → k ∉ s.seen i
  doViewChange : ∀ i b k, (i, .doViewChange b k) ∈ s.flight → i ≠ k ∧
    (∃ a ∈ s.asked, a.pid = k ∧ a.ballot = b) ∧
    ∀ n, (s.node i).viewchangeStatus = .candidate b n → k ∉ s.votes i

structure Inv : Prop where
  node : ∀ i ∈ S.views, NodeInv S s i
  record : RecordInv S s
  flight : FlightInv s

theorem inv_init : Inv S (init S) := by
  refine ⟨fun i _ => ?_, ⟨?_, ?_⟩, ⟨List.nodup_nil, ?_, ?_⟩⟩
  · refine ⟨rfl, rfl, rfl, rfl, fun _ => ⟨rfl, rfl⟩, ?_, ?_, ?_, ?_, List.Pairwise.nil⟩
    · intro h; cases h
    · intro b k h; cases h
    · intro b k h; cases h
    · intro l hl; cases hl
  · intro k b h; cases h
  · intro a h; cases h
  · intro i b k h; cases h
  · intro i b k h; cases h

/-! ### Updates -/

variable {S s} {i j : ℕ} {e : VREvent} {c : VRLeaderElectionComp} {out : List VROut} {b : Ballot}
  {Q : List ℕ}

theorem node_set_self : (s.set i e c out).node i = c := Function.update_self ..

theorem node_set_of_ne (h : j ≠ i) : (s.set i e c out).node j = s.node j := Function.update_of_ne h ..

theorem started_set_self : (s.set i e c out).started i = true := Function.update_self ..

theorem started_set_of_ne (h : j ≠ i) : (s.set i e c out).started j = s.started j :=
  Function.update_of_ne h ..

theorem seen_set_self : (s.set i e c out).seen i = s.seenAfter i e c := Function.update_self ..

theorem seen_set_of_ne (h : j ≠ i) : (s.set i e c out).seen j = s.seen j := Function.update_of_ne h ..

theorem votes_set_self : (s.set i e c out).votes i = s.votesAfter i e c := Function.update_self ..

theorem votes_set_of_ne (h : j ≠ i) : (s.set i e c out).votes j = s.votes j :=
  Function.update_of_ne h ..

theorem indications_set_self :
    (s.set i e c out).indications i = s.indications i ++ indicationsOf out := by
  have houts : (s.set i e c out).outs i = s.outs i ++ out := Function.update_self ..
  unfold indications
  rw [houts, indicationsOf, List.filterMap_append]; rfl

theorem indications_set_of_ne (h : j ≠ i) : (s.set i e c out).indications j = s.indications j := by
  have houts : (s.set i e c out).outs j = s.outs j := Function.update_of_ne h ..
  unfold indications
  rw [houts]

theorem mem_entered_set {x : ℕ × Ballot} (h : x ∈ s.entered) : x ∈ (s.set i e c out).entered := by
  show x ∈ ite _ _ _
  split_ifs
  · exact h
  · exact List.mem_append_left _ h

theorem mem_asked_set {a : Asked} (h : a ∈ s.asked) : a ∈ (s.set i e c out).asked :=
  List.mem_append_left _ h

theorem Together.set (h : Together s j b Q) : Together (s.set i e c out) j b Q :=
  ⟨h.1, h.2.1, fun m hm => mem_entered_set (h.2.2 m hm)⟩

theorem Backed.set (h : Backed s j b Q) : Backed (s.set i e c out) j b Q := by
  refine ⟨h.1, h.2.1, fun m hm hne => ?_⟩
  obtain ⟨a, ha, hrest⟩ := h.2.2 m hm hne
  exact ⟨a, mem_asked_set ha, hrest⟩

theorem mem_flightAfter {x : ℕ × VRMsg} (h : x ∈ s.flightAfter i e) : x ∈ s.flight := by
  unfold flightAfter at h
  split at h
  · exact List.mem_of_mem_erase h
  · exact h

theorem nodup_flightAfter (h : s.flight.Nodup) : (s.flightAfter i e).Nodup := by
  unfold flightAfter
  split
  · exact h.erase _
  · exact h

/-- A message that was delivered is no longer in flight. -/
theorem not_mem_flightAfter (h : s.flight.Nodup) (m : VRMsg) : (i, m) ∉ s.flightAfter i (.vr m) :=
  h.not_mem_erase

theorem notes_nil (h : ∀ o ∈ out, IsNote o) (seen : List ℕ) :
    messagesOf out = [] ∧ askedOf out seen = [] ∧ indicationsOf out = [] := by
  unfold messagesOf askedOf indicationsOf
  simp only [List.filterMap_eq_nil_iff]
  refine ⟨fun o ho => ?_, fun o ho => ?_, fun o ho => ?_⟩
  all_goals
    have hnote := h o ho
    cases o with
    | vr => cases hnote
    | indication => cases hnote
    | _ => rfl

/-- What a node sends when it enters a view. -/
theorem startViewChange_outputs (c : VRLeaderElectionComp) (b : Ballot) (seen : List ℕ) :
    messagesOf (c.startViewChange b) =
        (c.views.filter (· ≠ c.pid)).map (fun peer => (peer, .startViewChange b c.pid)) ∧
      askedOf (c.startViewChange b) seen = [] ∧ indicationsOf (c.startViewChange b) = [] := by
  unfold startViewChange messagesOf askedOf indicationsOf
  simp only [List.filterMap_map, Function.comp_def]
  refine ⟨?_, List.filterMap_none .., List.filterMap_none ..⟩
  exact congrFun (List.filterMap_eq_map (f := fun peer => (peer, VRMsg.startViewChange b c.pid))) _

end ViewElection

end OmniPaxosBench.LeaderElection
