import OmniPaxosBench.LeaderElection.BallotLeaderComp
import OmniPaxosBench.Lib.Machine

/-! # Ballot leader election: leaders are monotone

Any number of nodes, each started with or without the same initial leader. A message that was sent can
be delivered any number of times, at any time or never. The state records, besides the nodes, all a
node has sent and triggered, and all values its `currentBallot` has had.

The relation that makes the indications of a node increase is `NodeInv.last`: the last ballot
indicated is at most that of the present leader, or, if the leader was given up, below the node's own
ballot. -/

namespace OmniPaxosBench.LeaderElection

open OmniPaxosBench.Lib BallotLeaderComp

/-- How a node learns of the initial leader before it is started. -/
inductive Given
  | nothing
  | byWith
  | bySetInitialLeader
  deriving DecidableEq, Repr

/-- The nodes and how they are started. -/
structure Setup where
  nodes : List ℕ
  initialLeader : Leader
  given : ℕ → Given
  small : initialLeader.round.n < 2 ^ 32 - 1

structure Election where
  node : ℕ → BallotLeaderComp
  /-- What each node has sent and triggered. -/
  outs : ℕ → List BleOut
  /-- The values `currentBallot` has had. -/
  held : ℕ → List Ballot

namespace Setup

variable (S : Setup)

/-- The ballot of the initial leader. -/
def initialBallot : Ballot := ⟨S.initialLeader.round.n, S.initialLeader.pid⟩

/-- Node `i`, before it is started. -/
def create (i : ℕ) : BallotLeaderComp × List BleOut :=
  let peers := S.nodes.filter (· ≠ i)
  match S.given i with
  | .nothing => (new peers i none, [])
  | .byWith => (new peers i (some S.initialLeader), [])
  | .bySetInitialLeader =>
    ((new peers i none).setInitialLeader S.initialLeader).getD (new peers i none, [])

/-- Node `i`, started. -/
def start (i : ℕ) : BallotLeaderComp × List BleOut :=
  let (c, out) := S.create i
  let (c, out') := c.onStart
  (c, out ++ out')

end Setup

namespace Election

def init (S : Setup) : Election where
  node i := (S.start i).1
  outs i := (S.start i).2
  held i := [(S.start i).1.currentBallot]

variable (S : Setup) (s : Election)

/-- The indications node `i` has triggered, in order. -/
def indicationsOf (out : List BleOut) : List Leader :=
  out.filterMap fun
    | .indication l => some l
    | _ => none

def indications (i : ℕ) : List Leader := indicationsOf (s.outs i)

/-- The messages of the events of node `i` were sent to it. -/
def Input (i : ℕ) : BleEvent → Prop
  | .request sender round => sender ∈ S.nodes ∧ .request i round ∈ s.outs sender
  | .reply m => ∃ j ∈ S.nodes, .reply i m ∈ s.outs j
  | .peerStop pid => ∃ j ∈ S.nodes, .peerStop i pid ∈ s.outs j
  | _ => True

instance (i : ℕ) : ∀ e, Decidable (s.Input S i e)
  | .request _ _ => inferInstanceAs (Decidable (_ ∧ _))
  | .reply _ | .peerStop _ => inferInstanceAs (Decidable (∃ _ ∈ _, _))
  | .timeout _ | .stop _ | .partition _ => isTrue trivial

/-- Node `i` has become `c` and sent `out`. -/
def set (i : ℕ) (c : BallotLeaderComp) (out : List BleOut) : Election where
  node := Function.update s.node i c
  outs := Function.update s.outs i (s.outs i ++ out)
  held := Function.update s.held i (s.held i ++ [c.currentBallot])

/-- An event at a node; `none` if it cannot happen. -/
def step : ℕ × BleEvent → Option Election
  | (i, e) =>
    if i ∈ S.nodes ∧ s.Input S i e then
      ((s.node i).handle e).map fun (c, out) => s.set i c out
    else none

def machine : Machine Election (ℕ × BleEvent) := ⟨init S, fun s e => s.step S e⟩

/-- No ballot number has reached `2 ^ 32 - 1`. -/
def Small (s : Election) (_ : ℕ × BleEvent) : Prop :=
  ∀ i ∈ S.nodes, (s.node i).currentBallot.n < 2 ^ 32 - 1

instance (e : ℕ × BleEvent) : Decidable (Small S s e) := inferInstanceAs (Decidable (∀ _ ∈ _, _))

/-- `b` is that of the given initial leader, or was the ballot of the node it names. -/
def Known (b : Ballot) : Prop :=
  ((∃ j ∈ S.nodes, S.given j ≠ .nothing) ∧ b = S.initialBallot) ∨
    (b.pid ∈ S.nodes ∧ b ∈ s.held b.pid)

/-- What holds of a node. -/
structure NodeInv (i : ℕ) : Prop where
  pid : (s.node i).currentBallot.pid = i
  now : (s.node i).currentBallot ∈ s.held i
  held : ∀ b ∈ s.held i, b.pid = i ∧ b ≤ (s.node i).currentBallot
  leader : ∀ b, (s.node i).leader = some b → Known S s b
  ballots : ∀ x ∈ (s.node i).ballots, x.1.pid ∈ S.nodes ∧ x.1 ∈ s.held x.1.pid
  replies : ∀ j m, .reply j m ∈ s.outs i → m.ballot ∈ s.held i
  last : ∀ l ∈ s.indications i, (∃ b, (s.node i).leader = some b ∧ l.round ≤ b) ∨
    ((s.node i).leader = none ∧ l.round < (s.node i).currentBallot)
  sorted : ((s.indications i).map (·.round)).Pairwise (· < ·)
  known : ∀ l ∈ s.indications i, l.round.pid = l.pid ∧ Known S s l.round

variable {S s} {i j : ℕ} {c : BallotLeaderComp} {out : List BleOut} {e : BleEvent}

/-! ### Updates -/

theorem node_set_self : (s.set i c out).node i = c := Function.update_self ..

theorem node_set_of_ne (h : j ≠ i) : (s.set i c out).node j = s.node j := Function.update_of_ne h ..

theorem outs_set_self : (s.set i c out).outs i = s.outs i ++ out := Function.update_self ..

theorem outs_set_of_ne (h : j ≠ i) : (s.set i c out).outs j = s.outs j := Function.update_of_ne h ..

theorem held_set_self : (s.set i c out).held i = s.held i ++ [c.currentBallot] :=
  Function.update_self ..

theorem held_set_of_ne (h : j ≠ i) : (s.set i c out).held j = s.held j := Function.update_of_ne h ..

theorem mem_held_set {b : Ballot} (h : b ∈ s.held j) : b ∈ (s.set i c out).held j := by
  by_cases hj : j = i
  · subst hj; rw [held_set_self]; exact List.mem_append_left _ h
  · rw [held_set_of_ne hj]; exact h

theorem Known.set {b : Ballot} (h : Known S s b) : Known S (s.set i c out) b :=
  h.imp_right fun ⟨hpid, hheld⟩ => ⟨hpid, mem_held_set hheld⟩

theorem indications_set_self :
    (s.set i c out).indications i = s.indications i ++ indicationsOf out := by
  unfold indications
  rw [outs_set_self, indicationsOf, List.filterMap_append]; rfl

theorem indications_set_of_ne (h : j ≠ i) : (s.set i c out).indications j = s.indications j := by
  unfold indications
  rw [outs_set_of_ne h]

theorem indicationsOf_notes (h : ∀ o ∈ out, IsNote o) : indicationsOf out = [] := by
  unfold indicationsOf
  rw [List.filterMap_eq_nil_iff]
  intro o ho
  have hnote := h o ho
  cases o with
  | indication l => cases hnote
  | _ => rfl

/-! ### The start -/

theorem currentBallot_start (S : Setup) (i : ℕ) : (S.start i).1.currentBallot = ⟨0, i⟩ ∨
    ((S.start i).1.currentBallot = S.initialBallot ∧ S.initialLeader.pid = i) := by
  have hcreate : (S.start i).1.currentBallot = (S.create i).1.currentBallot := rfl
  rw [hcreate]
  unfold Setup.create
  by_cases h : S.initialLeader.pid = i
  · cases S.given i with
    | nothing => exact Or.inl rfl
    | byWith => exact Or.inr ⟨by simp [new, h, Setup.initialBallot], h⟩
    | bySetInitialLeader => exact Or.inr ⟨by simp [new, setInitialLeader, h, Setup.initialBallot], h⟩
  · left
    cases S.given i with
    | nothing => rfl
    | byWith => simp [new, h]
    | bySetInitialLeader => simp [new, setInitialLeader, h]

/-- A node has the given leader, if any, and has at most indicated it. -/
theorem leader_start (S : Setup) (i : ℕ) : ((S.start i).1.leader = none ∧ indicationsOf (S.start i).2 = []) ∨
    (S.given i ≠ .nothing ∧ (S.start i).1.leader = some S.initialBallot ∧
      ∀ l ∈ indicationsOf (S.start i).2, l = ⟨S.initialLeader.pid, S.initialBallot⟩ ∧
        indicationsOf (S.start i).2 = [l]) := by
  have hsplit : indicationsOf (S.start i).2 = indicationsOf (S.create i).2 := by
    have hnil : indicationsOf (S.create i).1.onStart.2 = [] :=
      indicationsOf_notes fun o ho => isNote_newHbRound ho
    have happ : (S.start i).2 = (S.create i).2 ++ (S.create i).1.onStart.2 := rfl
    rw [happ, indicationsOf, List.filterMap_append, ← indicationsOf, ← indicationsOf, hnil,
      List.append_nil]
  have hleader : (S.start i).1.leader = (S.create i).1.leader := rfl
  rw [hsplit, hleader]
  unfold Setup.create
  cases S.given i with
  | nothing => exact Or.inl ⟨rfl, rfl⟩
  | byWith => exact Or.inr ⟨by simp, rfl, fun l hl => by simp [indicationsOf] at hl⟩
  | bySetInitialLeader =>
    refine Or.inr ⟨by simp, rfl, fun l hl => ?_⟩
    have heq : l = ⟨S.initialLeader.pid, S.initialBallot⟩ := by
      simpa [new, setInitialLeader, indicationsOf, Setup.initialBallot] using hl
    rw [heq]
    exact ⟨rfl, rfl⟩

/-- A node starts without ballots of others. -/
theorem ballots_start (S : Setup) (i : ℕ) : (S.start i).1.ballots = [] := by
  have hcreate : (S.start i).1.ballots = (S.create i).1.ballots := rfl
  rw [hcreate]
  unfold Setup.create
  cases S.given i <;> rfl

theorem pid_start (S : Setup) (i : ℕ) : (S.start i).1.currentBallot.pid = i := by
  rcases currentBallot_start S i with h | ⟨h, hpid⟩
  · rw [h]
  · rw [h]; exact hpid

/-- Nobody is answered at the start. -/
theorem not_reply_start (S : Setup) (i j : ℕ) (m : HeartbeatReply) : .reply j m ∉ (S.start i).2 := by
  intro h
  have happ : (S.start i).2 = (S.create i).2 ++ (S.create i).1.onStart.2 := rfl
  rw [happ, List.mem_append] at h
  rcases h with h | h
  · unfold Setup.create at h
    cases hg : S.given i <;> simp [hg, setInitialLeader, new] at h
  · have hnote := isNote_newHbRound h
    cases hnote

theorem nodeInv_init (S : Setup) (hi : i ∈ S.nodes) : NodeInv S (init S) i := by
  have hpid := pid_start S i
  have hknown : S.given i ≠ .nothing → Known S (init S) S.initialBallot := fun h =>
    Or.inl ⟨⟨i, hi, h⟩, rfl⟩
  have hind : (init S).indications i = indicationsOf (S.start i).2 := rfl
  have hnode : (init S).node i = (S.start i).1 := rfl
  refine ⟨hpid, List.mem_singleton.mpr rfl, ?_, ?_, ?_, ?_, ?_, ?_, ?_⟩
  · intro b hb
    rw [List.mem_singleton.mp hb]
    exact ⟨hpid, le_rfl⟩
  · intro b hb
    rw [hnode] at hb
    rcases leader_start S i with ⟨h, -⟩ | ⟨hg, h, -⟩
    · rw [h] at hb; cases hb
    · rw [h] at hb
      cases hb
      exact hknown hg
  · intro x hx
    rw [hnode, ballots_start] at hx
    cases hx
  · intro j m h
    exact absurd h (not_reply_start S i j m)
  · intro l hl
    rw [hind] at hl
    rcases leader_start S i with ⟨-, h⟩ | ⟨-, h, hl'⟩
    · rw [h] at hl; cases hl
    · rw [(hl' l hl).1]
      exact Or.inl ⟨S.initialBallot, h, le_rfl⟩
  · rw [hind]
    rcases leader_start S i with ⟨-, h⟩ | ⟨-, -, hl'⟩
    · rw [h]; exact List.Pairwise.nil
    · cases hcase : indicationsOf (S.start i).2 with
      | nil => exact List.Pairwise.nil
      | cons l ls =>
        have hmem : l ∈ indicationsOf (S.start i).2 := by rw [hcase]; exact List.mem_cons_self ..
        have hone := (hl' l hmem).2
        rw [hcase] at hone
        rw [hone]
        exact List.pairwise_singleton ..
  · intro l hl
    rw [hind] at hl
    rcases leader_start S i with ⟨-, h⟩ | ⟨hg, -, hl'⟩
    · rw [h] at hl; cases hl
    · rw [(hl' l hl).1]
      exact ⟨rfl, hknown hg⟩

/-! ### Steps -/

/-- The other nodes are not affected. -/
theorem NodeInv.other (h : NodeInv S s j) (hj : j ≠ i) : NodeInv S (s.set i c out) j := by
  refine ⟨?_, ?_, ?_, ?_, ?_, ?_, ?_, ?_, ?_⟩
  · rw [node_set_of_ne hj]; exact h.pid
  · rw [node_set_of_ne hj, held_set_of_ne hj]; exact h.now
  · rw [node_set_of_ne hj, held_set_of_ne hj]; exact h.held
  · intro b hb
    rw [node_set_of_ne hj] at hb
    exact (h.leader b hb).set
  · intro x hx
    rw [node_set_of_ne hj] at hx
    exact ⟨(h.ballots x hx).1, mem_held_set (h.ballots x hx).2⟩
  · intro k m hm
    rw [outs_set_of_ne hj] at hm
    exact mem_held_set (h.replies k m hm)
  · rw [node_set_of_ne hj, indications_set_of_ne hj]; exact h.last
  · rw [indications_set_of_ne hj]; exact h.sorted
  · intro l hl
    rw [indications_set_of_ne hj] at hl
    exact ⟨(h.known l hl).1, (h.known l hl).2.set⟩

/-- A ballot some node takes for that of the leader has not reached the bound. -/
theorem small_of_known (hinv : ∀ j ∈ S.nodes, NodeInv S s j) (hsmall : Small S s (i, e)) {b : Ballot}
    (hb : Known S s b) : b.n + 1 < 2 ^ 32 := by
  rcases hb with ⟨-, rfl⟩ | ⟨hpid, hheld⟩
  · have := S.small
    show S.initialLeader.round.n + 1 < 2 ^ 32
    omega
  · have hle := Ballot.n_le ((hinv _ hpid).held b hheld).2
    have := hsmall _ hpid
    omega

/-- One event never lowers the ballot of its node. -/
theorem currentBallot_le_move (hinv : ∀ j ∈ S.nodes, NodeInv S s j) (hsmall : Small S s (i, e))
    (hi : i ∈ S.nodes) (hm : Move (s.node i) e c out) :
    (s.node i).currentBallot ≤ c.currentBallot ∧ c.currentBallot.pid = i := by
  have hpid := (hinv i hi).pid
  cases hm with
  | quiet _ _ _ ballot => rw [ballot]; exact ⟨le_rfl, hpid⟩
  | answer => exact ⟨le_rfl, hpid⟩
  | collect => exact ⟨le_rfl, hpid⟩
  | adopt _ _ _ b source own above ballot => rw [ballot]; exact ⟨le_rfl, hpid⟩
  | drop _ _ _ b had below ballot =>
    have hlt := small_of_known hinv hsmall ((hinv i hi).leader b had)
    have hmod : (b.n + 1) % 2 ^ 32 = b.n + 1 := Nat.mod_eq_of_lt hlt
    have hn := Ballot.n_le below.le
    rw [ballot, hmod]
    refine ⟨Ballot.le_iff.mpr (Or.inl ?_), hpid⟩
    show (s.node i).currentBallot.n < b.n + 1
    omega

/-- What a step of node `i` must establish for `i` itself, with the values held before and the new
ballot in place of those held after. -/
theorem NodeInv.self (h : NodeInv S s i)
    (hballot : (s.node i).currentBallot ≤ c.currentBallot ∧ c.currentBallot.pid = i)
    (hleader : ∀ b, c.leader = some b → Known S s b)
    (hballots : ∀ x ∈ c.ballots, x.1.pid ∈ S.nodes ∧ x.1 ∈ s.held x.1.pid)
    (hreplies : ∀ k m, .reply k m ∈ out → m.ballot = (s.node i).currentBallot)
    (hlast : ∀ l ∈ s.indications i ++ indicationsOf out, (∃ b, c.leader = some b ∧ l.round ≤ b) ∨
      (c.leader = none ∧ l.round < c.currentBallot))
    (hsorted : ((s.indications i ++ indicationsOf out).map (·.round)).Pairwise (· < ·))
    (hknown : ∀ l ∈ indicationsOf out, l.round.pid = l.pid ∧ Known S s l.round) :
    NodeInv S (s.set i c out) i := by
  refine ⟨?_, ?_, ?_, ?_, ?_, ?_, ?_, ?_, ?_⟩
  · rw [node_set_self]; exact hballot.2
  · rw [node_set_self, held_set_self]; exact List.mem_append_right _ (List.mem_singleton.mpr rfl)
  · intro b hb
    rw [held_set_self, List.mem_append, List.mem_singleton] at hb
    rw [node_set_self]
    rcases hb with hb | rfl
    · exact ⟨(h.held b hb).1, (h.held b hb).2.trans hballot.1⟩
    · exact ⟨hballot.2, le_rfl⟩
  · intro b hb
    rw [node_set_self] at hb
    exact (hleader b hb).set
  · intro x hx
    rw [node_set_self] at hx
    exact ⟨(hballots x hx).1, mem_held_set (hballots x hx).2⟩
  · intro k m hm
    rw [outs_set_self, List.mem_append] at hm
    apply mem_held_set
    rcases hm with hm | hm
    · exact h.replies k m hm
    · rw [hreplies k m hm]; exact h.now
  · rw [node_set_self, indications_set_self]; exact hlast
  · rw [indications_set_self]; exact hsorted
  · intro l hl
    rw [indications_set_self, List.mem_append] at hl
    rcases hl with hl | hl
    · exact ⟨(h.known l hl).1, (h.known l hl).2.set⟩
    · exact ⟨(hknown l hl).1, (hknown l hl).2.set⟩

/-- Steps without an indication. -/
theorem NodeInv.silent (h : NodeInv S s i) (hnil : indicationsOf out = [])
    (hballot : (s.node i).currentBallot ≤ c.currentBallot ∧ c.currentBallot.pid = i)
    (hleader : ∀ b, c.leader = some b → Known S s b)
    (hballots : ∀ x ∈ c.ballots, x.1.pid ∈ S.nodes ∧ x.1 ∈ s.held x.1.pid)
    (hreplies : ∀ k m, .reply k m ∈ out → m.ballot = (s.node i).currentBallot)
    (hlast : ∀ l ∈ s.indications i, (∃ b, c.leader = some b ∧ l.round ≤ b) ∨
      (c.leader = none ∧ l.round < c.currentBallot)) : NodeInv S (s.set i c out) i := by
  refine h.self hballot hleader hballots hreplies ?_ ?_ ?_
  · rw [hnil, List.append_nil]; exact hlast
  · rw [hnil, List.append_nil]; exact h.sorted
  · rw [hnil]; intro l hl; cases hl

/-- A ballot above that of the leader is above all leaders indicated. -/
theorem NodeInv.lt_next (h : NodeInv S s i) {b : Ballot} (hb : (s.node i).leader = some b) :
    ∀ l ∈ s.indications i, l.round < ⟨b.n + 1, i⟩ := by
  intro l hl
  have hle : l.round ≤ b := by
    rcases h.last l hl with ⟨b', hb', hle⟩ | ⟨hnone, -⟩
    · rw [hb] at hb'
      cases hb'; exact hle
    · rw [hb] at hnone; cases hnone
  have hn := Ballot.n_le hle
  refine Ballot.lt_iff.mpr (Or.inl ?_)
  show l.round.n < b.n + 1
  omega

/-- A new leader is indicated. -/
theorem NodeInv.adopt (h : NodeInv S s i) {b : Ballot} (hind : indicationsOf out = [⟨b.pid, b⟩])
    (hballot : (s.node i).currentBallot ≤ c.currentBallot ∧ c.currentBallot.pid = i)
    (hknown : Known S s b) (hbelow : ∀ l ∈ s.indications i, l.round < b) (hleader : c.leader = some b)
    (hballots : c.ballots = [])
    (hreplies : ∀ k m, .reply k m ∈ out → m.ballot = (s.node i).currentBallot) :
    NodeInv S (s.set i c out) i := by
  refine h.self hballot ?_ ?_ hreplies ?_ ?_ ?_
  · intro b' hb'
    rw [hleader] at hb'
    cases hb'; exact hknown
  · intro x hx
    rw [hballots] at hx; cases hx
  · intro l hl
    rw [hind, List.mem_append, List.mem_singleton] at hl
    refine Or.inl ⟨b, hleader, ?_⟩
    rcases hl with hl | rfl
    · exact (hbelow l hl).le
    · exact le_rfl
  · rw [hind, List.map_append, List.pairwise_append]
    refine ⟨h.sorted, List.pairwise_singleton .., ?_⟩
    intro x hx y hy
    obtain ⟨l, hl, rfl⟩ := List.mem_map.mp hx
    rw [List.mem_singleton.mp hy]
    exact hbelow l hl
  · intro l hl
    rw [hind, List.mem_singleton] at hl
    rw [hl]
    exact ⟨rfl, hknown⟩

theorem NodeInv.move (hinv : ∀ j ∈ S.nodes, NodeInv S s j) (hsmall : Small S s (i, e))
    (hi : i ∈ S.nodes) (hin : s.Input S i e) (hm : Move (s.node i) e c out) :
    NodeInv S (s.set i c out) i := by
  have h := hinv i hi
  have hballot := currentBallot_le_move hinv hsmall hi hm
  have hreply : ∀ {out' : List BleOut}, (∀ o ∈ out', IsNote o) → ∀ k m, .reply k m ∈ out' →
      m.ballot = (s.node i).currentBallot := fun hnotes k m hmem => by
    have hnote := hnotes _ hmem
    cases hnote
  cases hm with
  | quiet _ _ _ ballot leader ballots outs =>
    refine h.silent (indicationsOf_notes outs) hballot ?_ (fun x hx => h.ballots x (ballots x hx))
      (hreply outs) ?_
    · rw [leader]; exact h.leader
    · rw [leader, ballot]; exact h.last
  | answer sender round =>
    refine h.silent rfl hballot h.leader h.ballots (fun k m hmem => ?_) h.last
    cases List.mem_singleton.mp hmem; rfl
  | collect m =>
    refine h.silent rfl hballot h.leader (fun x hx => ?_) (fun k m' hmem => by cases hmem) h.last
    rcases List.mem_append.mp hx with hx | hx
    · exact h.ballots x hx
    · -- the reply carries a ballot of its sender
      obtain ⟨j, hj, hsent⟩ := hin
      have hheld := (hinv j hj).replies i m hsent
      have hpid := ((hinv j hj).held _ hheld).1
      rw [List.mem_singleton.mp hx, hpid]
      exact ⟨hj, hheld⟩
  | drop _ _ _ b had below ballot leader ballots outs =>
    refine h.silent (indicationsOf_notes outs) hballot ?_ ?_ (hreply outs) ?_
    · intro b' hb'
      rw [leader] at hb'; cases hb'
    · intro x hx
      rw [ballots] at hx; cases hx
    · intro l hl
      refine Or.inr ⟨leader, ?_⟩
      rw [ballot, Nat.mod_eq_of_lt (small_of_known hinv hsmall (h.leader b had)), h.pid]
      exact h.lt_next had l hl
  | adopt _ _ out' b source own above ballot leader ballots outs =>
    have hknown : Known S s b := by
      rcases source with rfl | ⟨x, hx, rfl⟩
      · exact Or.inr (by rw [h.pid]; exact ⟨hi, h.now⟩)
      · exact Or.inr (h.ballots x hx)
    refine h.adopt (congrArg (List.cons (⟨b.pid, b⟩ : Leader)) (indicationsOf_notes outs)) hballot hknown
      (fun l hl => ?_) leader ballots fun k m hmem => ?_
    · rcases h.last l hl with ⟨b', hb', hle⟩ | ⟨-, hlt⟩
      · exact hle.trans_lt (above b' hb')
      · exact hlt.trans_le own
    · rcases List.mem_cons.mp hmem with hmem | hmem
      · cases hmem
      · exact hreply outs k m hmem

theorem step_cases {t : Election} {e : ℕ × BleEvent} (h : s.step S e = some t) :
    ∃ i be c out, e = (i, be) ∧ i ∈ S.nodes ∧ s.Input S i be ∧ Move (s.node i) be c out ∧
      t = s.set i c out := by
  obtain ⟨i, be⟩ := e
  simp only [step] at h
  split_ifs at h with hin
  obtain ⟨⟨c, out⟩, hc, rfl⟩ := Option.map_eq_some_iff.mp h
  exact ⟨i, be, c, out, rfl, hin.1, hin.2, handle_move hc, rfl⟩

theorem nodeInv_of_reachable (h : (machine S).ReachableUnder (Small S) s) :
    ∀ j ∈ S.nodes, NodeInv S s j := by
  refine h.invariant (P := fun s => ∀ j ∈ S.nodes, NodeInv S s j) (fun j hj => nodeInv_init S hj) ?_
  intro s e t _ hsmall hinv hstep j hj
  obtain ⟨i, be, c, out, rfl, hi, hin, hm, rfl⟩ := step_cases hstep
  by_cases hji : j = i
  · subst hji; exact NodeInv.move hinv hsmall hj hin hm
  · exact (hinv j hj).other hji

/-- **Monotone leaders.** As long as no ballot number reaches `2 ^ 32 - 1`: the ballots a node
indicates increase; the ballot of a node never decreases and keeps its pid; and an indicated ballot
names its node and was held by it, or is that of the given initial leader. -/
theorem leaders_monotone {S : Setup} {s : Election} (h : (machine S).ReachableUnder (Small S) s) :
    (∀ i ∈ S.nodes, ((s.indications i).map (·.round)).Pairwise (· < ·)) ∧
    (∀ i ∈ S.nodes, (s.node i).currentBallot.pid = i ∧ ∀ e t, Small S s e → s.step S e = some t →
      (s.node i).currentBallot ≤ (t.node i).currentBallot) ∧
    (∀ i ∈ S.nodes, ∀ l ∈ s.indications i, l.round.pid = l.pid ∧
      (((∃ j ∈ S.nodes, S.given j ≠ .nothing) ∧ l.round = S.initialBallot) ∨
        (l.pid ∈ S.nodes ∧ l.round ∈ s.held l.pid))) := by
  have hinv := nodeInv_of_reachable h
  refine ⟨fun i hi => (hinv i hi).sorted, fun i hi => ⟨(hinv i hi).pid, ?_⟩, fun i hi l hl => ?_⟩
  · intro e t hsmall hstep
    obtain ⟨j, be, c, out, rfl, hj, hin, hm, rfl⟩ := step_cases hstep
    by_cases hij : i = j
    · subst hij
      rw [node_set_self]
      exact (currentBallot_le_move hinv hsmall hi hm).1
    · rw [node_set_of_ne hij]
  · obtain ⟨hpid, hknown⟩ := (hinv i hi).known l hl
    refine ⟨hpid, ?_⟩
    rw [← hpid]
    exact hknown

/-- Two nodes without an initial leader. -/
def pair : Setup := ⟨[1, 2], ⟨1, ⟨0, 1⟩⟩, fun _ => .nothing, by decide⟩

/-- Node 1 gets a reply of node 2, takes it for the leader, and in the next round, without one,
raises its own ballot and then takes itself. -/
def takeover : List (ℕ × BleEvent) :=
  [(2, .request 1 1), (1, .reply ⟨1, ⟨0, 2⟩, true⟩), (1, .timeout 0), (2, .timeout 0),
    (2, .request 1 2), (1, .reply ⟨2, ⟨0, 2⟩, false⟩), (1, .timeout 1), (2, .request 1 3),
    (1, .reply ⟨3, ⟨0, 2⟩, false⟩), (1, .timeout 2)]

theorem takeover_monotone : ∃ s, (machine pair).ReachableUnder (Small pair) s ∧
    s.indications 1 = [⟨2, ⟨0, 2⟩⟩, ⟨1, ⟨1, 1⟩⟩] ∧
    ∀ l ∈ s.indications 1, l.round.pid = l.pid ∧ l.round ∈ s.held l.pid := by
  obtain ⟨s, hrun, hind⟩ : ∃ s, (machine pair).run (machine pair).init takeover = some s ∧
      s.indications 1 = [⟨2, ⟨0, 2⟩⟩, ⟨1, ⟨1, 1⟩⟩] := ⟨_, rfl, by decide⟩
  have hsmall : (machine pair).AllSteps (Small pair) (machine pair).init takeover := by decide
  have hr := Machine.ReachableUnder.init.run hsmall hrun
  refine ⟨s, hr, hind, fun l hl => ?_⟩
  obtain ⟨hpid, ⟨⟨j, hj, hne⟩, -⟩ | ⟨-, hheld⟩⟩ := (leaders_monotone hr).2.2 1 (by decide) l hl
  · exact absurd rfl hne
  · exact ⟨hpid, hheld⟩

end Election

end OmniPaxosBench.LeaderElection
