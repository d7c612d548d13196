import OmniPaxosBench.Experiment.Client
import OmniPaxosBench.Lib.Fallible
import OmniPaxosBench.Lib.Machine
import OmniPaxosBench.Partition

/-! # The partition scenarios

When the experiment starts, the client tells the nodes whom to disconnect from, in the constrained
election in two rounds: it first cuts off the lagging follower from the leader, and the others later. The
messages to a node arrive in order, those to different nodes in any order, and the nodes run their own
closures at any time. Of the client only the part that simulates the partition is here; the rest of it
sends no such messages. A node is any of its components that simulate the partition, each of which is
told the same.

`Cut` says which pairs of nodes a scenario means to disconnect. When all messages have arrived and all
closures have run, and before the recovery, these are the pairs that are disconnected
(`partition_in_place`). -/

namespace OmniPaxosBench.Experiment

open OmniPaxosBench.Lib

/-- What the supervisor of a node does to its components. -/
def receive (s : Partition) : PartitioningExpMsg → Partition
  | .disconnectPeers peers delay laggingPeer => s.disconnectPeers peers delay laggingPeer
  | .recoverPeers => s.recoverPeers

/-- The client, the messages to each node, and the nodes. -/
structure PartitionRun where
  client : Client
  started : Bool
  inbox : ℕ → List PartitioningExpMsg
  node : ℕ → Partition

inductive PartitionRunEvent
  | start (now : ℕ)
  /-- A timer of the client that has to do with the partition. -/
  | timeout (now id : ℕ)
  /-- The next message reaches node `i`. -/
  | deliver (i : ℕ)
  /-- The `k`-th closure of node `i` runs. -/
  | fire (i k : ℕ)

/-- The messages to node `i`. -/
def addressed (i : ℕ) (outs : List ClientOut) : List PartitioningExpMsg :=
  outs.filterMap fun out =>
    match out with
    | .partitioningExp j m => if j = i then some m else none
    | .proposal _ _ _ | .reconfigurationProposal _ _ | .stop _ | .replyStop _ => none

namespace PartitionRun

variable (s : PartitionRun)

def post (r : Client × List ClientOut) : PartitionRun :=
  { s with client := r.1, started := true, inbox := fun i => s.inbox i ++ addressed i r.2 }

def deliver (i : ℕ) : Option PartitionRun :=
  match s.inbox i with
  | [] => none
  | m :: rest => some { s with
      inbox := Function.update s.inbox i rest
      node := Function.update s.node i (receive (s.node i) m) }

def fire (i k : ℕ) : Option PartitionRun :=
  ((s.node i).fireDelayed k).map fun p => { s with node := Function.update s.node i p }

def timeout (now id : ℕ) : Option PartitionRun :=
  match s.client.timers.callbackOf id with
  | some .recoverPartition | some (.disconnectNonLagging _ _ _) =>
    (s.client.handleTimeout now id).bind fun r => r.toOption.map s.post
  | _ => none

def step : PartitionRunEvent → Option PartitionRun
  | .start now => if s.started then none else (s.client.createPartition now).toOption.map s.post
  | .timeout now id => s.timeout now id
  | .deliver i => s.deliver i
  | .fire i k => s.fire i k

/-- The recovery has not begun. -/
def BeforeRecovery (s : PartitionRun) : PartitionRunEvent → Prop
  | .timeout _ id => s.client.timers.callbackOf id ≠ some .recoverPartition
  | .start _ | .deliver _ | .fire _ _ => True

instance (s : PartitionRun) : ∀ e, Decidable (s.BeforeRecovery e)
  | .timeout _ id => inferInstanceAs (Decidable (s.client.timers.callbackOf id ≠ some .recoverPartition))
  | .start _ | .deliver _ | .fire _ _ => isTrue trivial

/-- The client has still to disconnect the followers that do not lag. -/
def isPending : ClientCallback → Bool
  | .disconnectNonLagging _ _ _ => true
  | _ => false

/-- All that the client has to send has arrived, and all closures have run. -/
structure Settled (s : PartitionRun) : Prop where
  started : s.started = true
  client : ∀ t ∈ s.client.timers.live, isPending t.callback = false
  inbox : ∀ i ∈ s.client.nodes, s.inbox i = []
  node : ∀ i ∈ s.client.nodes, (s.node i).delayed = []

instance (s : PartitionRun) : Decidable s.Settled :=
  decidable_of_iff (s.started = true ∧ (∀ t ∈ s.client.timers.live, isPending t.callback = false) ∧
      (∀ i ∈ s.client.nodes, s.inbox i = []) ∧ ∀ i ∈ s.client.nodes, (s.node i).delayed = [])
    ⟨fun ⟨h1, h2, h3, h4⟩ => ⟨h1, h2, h3, h4⟩, fun h => ⟨h.started, h.client, h.inbox, h.node⟩⟩

end PartitionRun

def partitionMachine (c : Client) : Machine PartitionRun PartitionRunEvent :=
  ⟨⟨c, false, fun _ => [], fun _ => {}⟩, PartitionRun.step⟩

/-! ### What the scenarios mean -/

/-- The follower that a scenario is about. -/
def firstFollower (c : Client) : ℕ := (c.nodes.filter (· ≠ c.currentLeader)).headD 0

/-- The pairs of nodes that a scenario disconnects. -/
def Cut (scenario : NetworkScenario) (leader follower i j : ℕ) : Prop :=
  match scenario with
  | .quorumLoss _ => i ≠ follower ∧ j ≠ follower
  | .constrainedElection _ => i = leader ∨ j = leader ∨ (i ≠ follower ∧ j ≠ follower)
  | .chained _ => (i = leader ∧ j = follower) ∨ (i = follower ∧ j = leader)
  | .periodicFull _ | .fullyConnected => False

/-! ### One node -/

/-- The peers a message with a lagging peer disconnects, sooner or later. -/
def named : PartitioningExpMsg → Option (List ℕ)
  | .disconnectPeers peers _ (some lp) => some (lp :: peers)
  | .disconnectPeers _ _ none | .recoverPeers => none

theorem named_lagging (peers : List ℕ) (delay : Bool) (lp : ℕ) :
    named (.disconnectPeers peers delay (some lp)) = some (lp :: peers) := rfl

/-- The node adds peers only, and in the end has those in `T`. -/
structure Adds (T : ℕ → Prop) (s : Partition) (inbox : List PartitioningExpMsg) : Prop where
  messages : ∀ m ∈ inbox, (named m).isSome
  closures : ∀ d ∈ s.delayed, ∃ peers, d = .push peers
  peers : ∀ p, T p ↔ p ∈ s.disconnectedPeers ∨ (∃ peers, .push peers ∈ s.delayed ∧ p ∈ peers) ∨
    ∃ m ∈ inbox, ∃ peers, named m = some peers ∧ p ∈ peers

/-- In the end the node is disconnected from the peers in `T`. -/
inductive Comes (T : ℕ → Prop) (s : Partition) (inbox : List PartitioningExpMsg) : Prop
  | told (peers : List ℕ) (hinbox : inbox = [.disconnectPeers peers false none]) (hnode : s = {})
      (hpeers : ∀ p, T p ↔ p ∈ peers)
  | adds (h : Adds T s inbox)

variable {T : ℕ → Prop} {s s' : Partition} {inbox : List PartitioningExpMsg} {m : PartitioningExpMsg}

theorem adds_untouched : Adds (fun _ => False) {} [] :=
  ⟨fun _ hm => absurd hm List.not_mem_nil, fun _ hd => absurd hd List.not_mem_nil, fun p => by simp⟩

theorem Adds.deliver (h : Adds T s (m :: inbox)) : Adds T (receive s m) inbox := by
  have hm := h.messages m List.mem_cons_self
  cases m with
  | recoverPeers => cases hm
  | disconnectPeers peers delay laggingPeer =>
    cases laggingPeer with
    | none => cases hm
    | some lp =>
      refine ⟨fun m hm => h.messages m (List.mem_cons_of_mem _ hm), fun d hd => ?_, fun p => ?_⟩
      · rcases List.mem_append.mp hd with hd | hd
        · exact h.closures d hd
        · exact ⟨peers, List.mem_singleton.mp hd⟩
      · rw [h.peers p]
        simp only [receive, Partition.disconnectPeers, named_lagging, List.mem_append, List.mem_cons,
          List.not_mem_nil, or_false, Delayed.push.injEq, Option.some.injEq, exists_eq_left', or_and_right,
          exists_or, exists_eq_left]
        generalize (∃ m ∈ inbox, ∃ peers, named m = some peers ∧ p ∈ peers) = later
        generalize (∃ peers, .push peers ∈ s.delayed ∧ p ∈ peers) = scheduled
        tauto

theorem Comes.deliver (h : Comes T s (m :: inbox)) : Comes T (receive s m) inbox := by
  cases h with
  | adds h => exact .adds h.deliver
  | told peers hinbox hnode hpeers =>
    obtain ⟨rfl, rfl⟩ := List.cons.inj hinbox
    subst hnode
    refine .adds ⟨fun _ hm => absurd hm List.not_mem_nil, fun _ hd => absurd hd List.not_mem_nil, fun p => ?_⟩
    rw [hpeers p]
    simp [receive, Partition.disconnectPeers]

theorem Adds.fire (h : Adds T s inbox) {k : ℕ} (hs : s.fireDelayed k = some s') : Adds T s' inbox := by
  obtain ⟨d, hd, rfl⟩ := Option.map_eq_some_iff.mp hs
  obtain ⟨hk, hget⟩ := List.getElem?_eq_some_iff.mp hd
  obtain ⟨peers, rfl⟩ := h.closures d (hget ▸ List.getElem_mem hk)
  have hmem : ∀ d', d' ∈ s.delayed ↔ d' = .push peers ∨ d' ∈ s.delayed.eraseIdx k := by
    intro d'
    rw [← (List.getElem_cons_eraseIdx_perm hk).mem_iff, List.mem_cons, hget]
  refine ⟨h.messages, fun d' hd' => h.closures d' (List.mem_of_mem_eraseIdx hd'), fun p => ?_⟩
  rw [h.peers p]
  simp only [hmem, Delayed.push.injEq, or_and_right, exists_or, exists_eq_left, List.mem_append]
  generalize (∃ m ∈ inbox, ∃ peers, named m = some peers ∧ p ∈ peers) = later
  generalize (∃ peers, .push peers ∈ s.delayed.eraseIdx k ∧ p ∈ peers) = scheduled
  tauto

theorem Comes.fire (h : Comes T s inbox) {k : ℕ} (hs : s.fireDelayed k = some s') : Comes T s' inbox := by
  cases h with
  | adds h => exact .adds (h.fire hs)
  | told peers hinbox hnode hpeers => subst hnode; cases hs

/-- What a settled node is disconnected from. -/
theorem Comes.settled (h : Comes T s []) (hs : s.delayed = []) (p : ℕ) : p ∈ s.disconnectedPeers ↔ T p := by
  cases h with
  | told peers hinbox => cases hinbox
  | adds h =>
    rw [h.peers p, hs]
    simp

theorem Adds.congr {T' : ℕ → Prop} (h : Adds T s inbox) (heq : ∀ p, T p ↔ T' p) : Adds T' s inbox :=
  ⟨h.messages, h.closures, fun p => (heq p).symm.trans (h.peers p)⟩

/-- Another message that adds peers. -/
theorem Adds.append (h : Adds T s inbox) {peers : List ℕ} (hm : named m = some peers) :
    Adds (fun p => T p ∨ p ∈ peers) s (inbox ++ [m]) := by
  refine ⟨fun m' hm' => ?_, h.closures, fun p => ?_⟩
  · rcases List.mem_append.mp hm' with hm' | hm'
    · exact h.messages m' hm'
    · rw [List.mem_singleton.mp hm', hm]
      rfl
  · rw [h.peers p]
    simp only [List.mem_append, List.mem_singleton, or_and_right, exists_or, exists_eq_left, hm,
      Option.some.injEq, exists_eq_left', or_assoc]

/-! ### The client -/

theorem addressed_append (i : ℕ) (outs outs' : List ClientOut) :
    addressed i (outs ++ outs') = addressed i outs ++ addressed i outs' := List.filterMap_append

theorem addressed_self (i : ℕ) (m : PartitioningExpMsg) : addressed i [.partitioningExp i m] = [m] := by
  simp [addressed]

theorem addressed_of_ne {i j : ℕ} (h : j ≠ i) (m : PartitioningExpMsg) :
    addressed i [.partitioningExp j m] = [] := by
  simp [addressed, h]

/-- A message to each of two nodes. -/
theorem addressed_two {j k : ℕ} (hjk : j ≠ k) (m m' : PartitioningExpMsg) (i : ℕ) :
    addressed i [.partitioningExp j m, .partitioningExp k m'] =
      if i = j then [m] else if i = k then [m'] else [] := by
  show addressed i ([.partitioningExp j m] ++ [.partitioningExp k m']) = _
  rw [addressed_append]
  by_cases hij : i = j
  · subst hij
    rw [addressed_self, addressed_of_ne hjk.symm, if_pos rfl]
    rfl
  · rw [addressed_of_ne (Ne.symm hij), if_neg hij]
    by_cases hik : i = k
    · subst hik
      rw [addressed_self, if_pos rfl]
      rfl
    · rw [addressed_of_ne (Ne.symm hik), if_neg hik]
      rfl

/-- One message to each of some nodes. -/
theorem addressed_map {is : List ℕ} (hnodup : is.Nodup) (f : ℕ → PartitioningExpMsg) (i : ℕ) :
    addressed i (is.map fun j => .partitioningExp j (f j)) = if i ∈ is then [f i] else [] := by
  induction is with
  | nil => rfl
  | cons j is ih =>
    obtain ⟨hj, hnodup⟩ := List.nodup_cons.mp hnodup
    rw [List.map_cons, ← List.singleton_append, addressed_append, ih hnodup]
    by_cases hij : j = i
    · subst hij
      rw [addressed_self, if_neg hj, if_pos List.mem_cons_self]
      rfl
    · rw [addressed_of_ne hij, List.nil_append]
      by_cases hi : i ∈ is
      · rw [if_pos hi, if_pos (List.mem_cons_of_mem _ hi)]
      · rw [if_neg hi, if_neg (by simp [hi, Ne.symm hij])]

theorem mapM_ite_eq_ok {α β : Type} {p : α → Prop} [DecidablePred p] {f : α → β} {e : String} {l : List α}
    {r : List β} (h : (l.mapM fun x => if p x then Except.ok (f x) else .error e) = .ok r) : r = l.map f := by
  induction l generalizing r with
  | nil => cases h; rfl
  | cons x l ih =>
    rw [List.mapM_cons] at h
    obtain ⟨y, hy, h⟩ := bind_eq_ok.mp h
    obtain ⟨rs, hrs, h⟩ := bind_eq_ok.mp h
    cases h
    split_ifs at hy
    cases hy
    rw [List.map_cons, ih hrs]

theorem eq_ok_of_toOption {ε α : Type} {x : Except ε α} {a : α} (h : x.toOption = some a) : x = .ok a := by
  cases x with
  | error => cases h
  | ok => exact congrArg _ (Option.some.inj h)

variable {c c' : Client} {now : ℕ} {outs : List ClientOut}

/-- The messages of the second round. -/
def laterMessages (nodes followers : List ℕ) (follower leader : ℕ) : List ClientOut :=
  ((followers.filter (· ≠ follower)).map fun i =>
    .partitioningExp i (.disconnectPeers (nodes.filter fun p => p ≠ follower ∧ p ≠ i) false none)) ++
  [.partitioningExp leader (.disconnectPeers (followers.filter (· ≠ follower)) false (some follower))]

theorem disconnectNonLagging_eq {followers : List ℕ} {follower leader : ℕ}
    (h : c.disconnectNonLagging followers follower leader = .ok (c', outs)) :
    c' = { c with proposalIdWhenPartitioned := some c.latestProposalId } ∧
      outs = laterMessages c.nodes followers follower leader := by
  unfold Client.disconnectNonLagging at h
  obtain ⟨outs', hmap, hend⟩ := bind_eq_ok.mp h
  cases hend
  rw [mapM_ite_eq_ok hmap]
  exact ⟨rfl, rfl⟩

/-- The followers, the first of which is the one the scenario is about. -/
def followersOf (c : Client) : List ℕ := c.nodes.filter (· ≠ c.currentLeader)

/-- What the start of a scenario does. -/
theorem createPartition_cases (h : c.createPartition now = .ok (c', outs)) :
    c'.nodes = c.nodes ∧ c.currentLeader ∈ c.nodes ∧
    ((c.networkScenario = .fullyConnected ∧ c'.timers = c.timers ∧ outs = []) ∨
      ∃ rest, followersOf c = firstFollower c :: rest ∧
      ((∃ d, c.networkScenario = .quorumLoss d ∧ c'.timers = c.timers.schedule .recoverPartition ∧
        outs = (c.nodes.filter (· ≠ firstFollower c)).map fun i =>
          .partitioningExp i (.disconnectPeers (c.nodes.filter (· ≠ firstFollower c)) false none)) ∨
      (∃ d, c.networkScenario = .constrainedElection d ∧
        c'.timers = (c.timers.schedule (.disconnectNonLagging (followersOf c) (firstFollower c)
          c.currentLeader)).schedule .recoverPartition ∧
        outs = [.partitioningExp (firstFollower c) (.disconnectPeers [c.currentLeader] false none),
          .partitioningExp c.currentLeader (.disconnectPeers [] false (some (firstFollower c)))]) ∨
      ∃ d, c.networkScenario = .chained d ∧ c'.timers = c.timers.schedule .recoverPartition ∧
        outs = [.partitioningExp (firstFollower c) (.disconnectPeers [c.currentLeader] false none),
          .partitioningExp c.currentLeader (.disconnectPeers [firstFollower c] false none)])) := by
  unfold Client.createPartition at h
  split_ifs at h with hzero hleader
  dsimp only at h
  have hfirst : ∀ f rest, c.nodes.filter (· ≠ c.currentLeader) = f :: rest →
      firstFollower c = f ∧ followersOf c = firstFollower c :: rest := by
    intro f rest heq
    have hf : firstFollower c = f := by rw [firstFollower, heq]; rfl
    exact ⟨hf, by rw [hf]; exact heq⟩
  split at h
  · next hscenario =>
    cases h
    exact ⟨rfl, hleader, Or.inl ⟨hscenario, rfl, rfl⟩⟩
  · cases h
  · cases h
  · next d f rest hscenario hrest =>
    obtain ⟨hf, hfollowers⟩ := hfirst f rest hrest
    cases h
    refine ⟨rfl, hleader, Or.inr ⟨rest, hfollowers, Or.inl ⟨d, hscenario, rfl, ?_⟩⟩⟩
    rw [hf]
  · next d f rest hscenario hrest =>
    obtain ⟨hf, hfollowers⟩ := hfirst f rest hrest
    cases h
    refine ⟨rfl, hleader, Or.inr ⟨rest, hfollowers, Or.inr (Or.inl ⟨d, hscenario, ?_, ?_⟩)⟩⟩
    · rw [hf]; rfl
    · rw [hf]
  · next d f rest hscenario hrest =>
    obtain ⟨hf, hfollowers⟩ := hfirst f rest hrest
    cases h
    refine ⟨rfl, hleader, Or.inr ⟨rest, hfollowers, Or.inr (Or.inr ⟨d, hscenario, rfl, ?_⟩)⟩⟩
    rw [hf]

/-! ### Runs -/

namespace PartitionRun

variable {c : Client} {s s' : PartitionRun} {e : PartitionRunEvent}

/-- What a node keeps while it gets its messages and runs its closures. -/
structure Closed (P : Partition → List PartitioningExpMsg → Prop) : Prop where
  deliver : ∀ {s m inbox}, P s (m :: inbox) → P (receive s m) inbox
  fire : ∀ {s s' inbox k}, P s inbox → s.fireDelayed k = some s' → P s' inbox

/-- Nothing has been sent to the node. -/
def Untouched (s : Partition) (inbox : List PartitioningExpMsg) : Prop := s = {} ∧ inbox = []

theorem closed_comes (T : ℕ → Prop) : Closed (Comes T) := ⟨fun h => h.deliver, fun h hs => h.fire hs⟩

theorem closed_adds (T : ℕ → Prop) : Closed (Adds T) := ⟨fun h => h.deliver, fun h hs => h.fire hs⟩

theorem closed_untouched : Closed Untouched :=
  ⟨fun h => (List.cons_ne_nil _ _ h.2).elim, fun h hs => by rw [h.1] at hs; cases hs⟩

/-- A step of a node. -/
def NodeStep (s s' : PartitionRun) : Prop := (∃ i, s.deliver i = some s') ∨ ∃ i k, s.fire i k = some s'

theorem NodeStep.frame (h : s.NodeStep s') : s'.client = s.client ∧ s'.started = s.started := by
  rcases h with ⟨i, h⟩ | ⟨i, k, h⟩
  · unfold PartitionRun.deliver at h
    split at h
    · cases h
    · cases h; exact ⟨rfl, rfl⟩
  · obtain ⟨p, -, rfl⟩ := Option.map_eq_some_iff.mp h
    exact ⟨rfl, rfl⟩

theorem NodeStep.keeps (h : s.NodeStep s') {P : Partition → List PartitioningExpMsg → Prop} (hP : Closed P)
    {j : ℕ} (hj : P (s.node j) (s.inbox j)) : P (s'.node j) (s'.inbox j) := by
  rcases h with ⟨i, h⟩ | ⟨i, k, h⟩
  · unfold PartitionRun.deliver at h
    split at h
    · cases h
    · next m rest hinbox =>
      cases h
      dsimp only
      by_cases hij : j = i
      · subst hij
        rw [Function.update_self, Function.update_self]
        exact hP.deliver (hinbox ▸ hj)
      · rw [Function.update_of_ne hij, Function.update_of_ne hij]
        exact hj
  · obtain ⟨p, hp, rfl⟩ := Option.map_eq_some_iff.mp h
    dsimp only
    by_cases hij : j = i
    · subst hij
      rw [Function.update_self]
      exact hP.fire hj hp
    · rw [Function.update_of_ne hij]
      exact hj

/-- The timers of the second round that are scheduled. -/
def pending (timers : Timers ClientCallback) : List (Timer ClientCallback) :=
  timers.live.filter fun t => isPending t.callback

/-- The client has begun, and knows the nodes it began with. -/
structure Begun (c : Client) (s : PartitionRun) : Prop where
  started : s.started = true
  nodes : s.client.nodes = c.nodes

/-- How far the partition is. -/
inductive Phase (c : Client) (s : PartitionRun) : Prop
  | fresh (hstarted : s.started = false) (hclient : s.client = c)
      (hnode : ∀ i, Untouched (s.node i) (s.inbox i))
  /-- The second round of the constrained election is still to come. -/
  | waiting (hbegun : Begun c s) (d : ℕ) (hscenario : c.networkScenario = .constrainedElection d)
      (hleader : c.currentLeader ∈ c.nodes) (rest : List ℕ) (hfollowers : followersOf c = firstFollower c :: rest)
      (t : Timer ClientCallback) (hpending : pending s.client.timers = [t])
      (hcallback : t.callback = .disconnectNonLagging (followersOf c) (firstFollower c) c.currentLeader)
      (hfirst : Comes (· = c.currentLeader) (s.node (firstFollower c)) (s.inbox (firstFollower c)))
      (hcut : Adds (· = firstFollower c) (s.node c.currentLeader) (s.inbox c.currentLeader))
      (hothers : ∀ i, i ≠ firstFollower c → i ≠ c.currentLeader → Untouched (s.node i) (s.inbox i))
  /-- All messages are sent. -/
  | placed (hbegun : Begun c s) (hpending : pending s.client.timers = [])
      (hcomes : ∀ i ∈ c.nodes, ∃ T, Comes T (s.node i) (s.inbox i) ∧ ∀ j ∈ c.nodes, j ≠ i →
        (T j ↔ Cut c.networkScenario c.currentLeader (firstFollower c) i j))

theorem Begun.node (hb : Begun c s) (h : s.NodeStep s') : Begun c s' :=
  ⟨h.frame.2.trans hb.started, by rw [h.frame.1]; exact hb.nodes⟩

theorem Phase.node (hp : Phase c s) (h : s.NodeStep s') : Phase c s' := by
  cases hp with
  | fresh hstarted hclient hnode =>
    exact .fresh (h.frame.2.trans hstarted) (h.frame.1.trans hclient) fun i => h.keeps closed_untouched (hnode i)
  | waiting hbegun d hscenario hleader rest hfollowers t hpending hcallback hfirst hcut hothers =>
    exact .waiting (hbegun.node h) d hscenario hleader rest hfollowers t (by rw [h.frame.1]; exact hpending)
      hcallback (h.keeps (closed_comes _) hfirst) (h.keeps (closed_adds _) hcut)
      fun i hi hi' => h.keeps closed_untouched (hothers i hi hi')
  | placed hbegun hpending hcomes =>
    refine .placed (hbegun.node h) (by rw [h.frame.1]; exact hpending) fun i hi => ?_
    obtain ⟨T, hT, hcut⟩ := hcomes i hi
    exact ⟨T, h.keeps (closed_comes T) hT, hcut⟩

theorem pending_schedule (timers : Timers ClientCallback) (cb : ClientCallback) :
    pending (timers.schedule cb) = pending timers ++ if isPending cb then [timers.handle cb] else [] := by
  show (timers.live ++ [timers.handle cb]).filter _ = _
  rw [List.filter_append]
  congr 1
  by_cases hcb : isPending cb = true
  · rw [if_pos hcb]
    exact List.filter_cons_of_pos hcb
  · rw [if_neg hcb]
    exact List.filter_cons_of_neg hcb

theorem comes_untouched : Comes (fun _ => False) {} [] := .adds adds_untouched

/-- A node that is told for the first time. -/
theorem comes_told (peers : List ℕ) : Comes (· ∈ peers) {} [.disconnectPeers peers false none] :=
  .told peers rfl rfl fun _ => Iff.rfl

/-- The first follower is a node, and not the leader. -/
theorem firstFollower_spec {rest : List ℕ} (h : followersOf c = firstFollower c :: rest) :
    firstFollower c ∈ c.nodes ∧ firstFollower c ≠ c.currentLeader := by
  have hmem : firstFollower c ∈ followersOf c := h ▸ List.mem_cons_self
  obtain ⟨hnode, hne⟩ := List.mem_filter.mp hmem
  exact ⟨hnode, of_decide_eq_true hne⟩

/-- The first messages to a node. -/
theorem comes_post {r : Client × List ClientOut} {i : ℕ} (hi : Untouched (s.node i) (s.inbox i))
    {T : ℕ → Prop} (h : Comes T {} (addressed i r.2)) : Comes T ((s.post r).node i) ((s.post r).inbox i) := by
  show Comes T (s.node i) (s.inbox i ++ addressed i r.2)
  rw [hi.1, hi.2, List.nil_append]
  exact h

theorem mem_nodes_ne {i j : ℕ} (hj : j ∈ c.nodes) : j ∈ c.nodes.filter (· ≠ i) ↔ j ≠ i := by
  rw [List.mem_filter, decide_eq_true_eq, and_iff_right hj]

/-- **The start of a scenario.** -/
theorem Phase.start {c' : Client} {outs : List ClientOut} {now : ℕ} (hnodup : c.nodes.Nodup)
    (hclean : pending c.timers = []) (hnode : ∀ i, Untouched (s.node i) (s.inbox i))
    (h : c.createPartition now = .ok (c', outs)) : Phase c (s.post (c', outs)) := by
  obtain ⟨hnodes, hleader, ⟨hscenario, htimers, rfl⟩ | ⟨rest, hfollowers, hcases⟩⟩ := createPartition_cases h
  · refine .placed ⟨rfl, hnodes⟩ ?_ fun i hi => ⟨fun _ => False, comes_post (hnode i) comes_untouched, ?_⟩
    · show pending c'.timers = []
      rw [htimers, hclean]
    · rw [hscenario]
      exact fun _ _ _ => Iff.rfl
  obtain ⟨hfirst, hne⟩ := firstFollower_spec hfollowers
  have hrecovery : pending (c.timers.schedule .recoverPartition) = [] := by
    rw [pending_schedule, hclean]
    rfl
  rcases hcases with ⟨d, hscenario, htimers, rfl⟩ | ⟨d, hscenario, htimers, rfl⟩ | ⟨d, hscenario, htimers, rfl⟩
  · refine .placed ⟨rfl, hnodes⟩ (htimers ▸ hrecovery) fun i hi => ?_
    rw [hscenario]
    by_cases hif : i = firstFollower c
    · refine ⟨fun _ => False, comes_post (hnode i) ?_, fun j _ _ => ?_⟩
      · rw [addressed_map (hnodup.filter _), if_neg (by simp [hif])]
        exact comes_untouched
      · exact ⟨False.elim, fun hcut => hcut.1 hif⟩
    · refine ⟨(· ∈ c.nodes.filter (· ≠ firstFollower c)), comes_post (hnode i) ?_, fun j hj _ => ?_⟩
      · rw [addressed_map (hnodup.filter _), if_pos ((mem_nodes_ne hi).mpr hif)]
        exact comes_told _
      · exact (mem_nodes_ne hj).trans ⟨fun hjf => ⟨hif, hjf⟩, And.right⟩
  · refine .waiting ⟨rfl, hnodes⟩ d hscenario hleader rest hfollowers
      (c.timers.handle (.disconnectNonLagging (followersOf c) (firstFollower c) c.currentLeader)) ?_ rfl ?_ ?_
      fun i hi hi' => ?_
    · show pending c'.timers = _
      rw [htimers, pending_schedule, pending_schedule, hclean]
      rfl
    · refine comes_post (hnode _) ?_
      rw [addressed_two hne, if_pos rfl]
      exact .told [c.currentLeader] rfl rfl fun p => List.mem_singleton.symm
    · show Adds _ (s.node _) (s.inbox _ ++ addressed _ _)
      rw [(hnode _).1, (hnode _).2, addressed_two hne, if_neg hne.symm, if_pos rfl]
      refine (adds_untouched.append (named_lagging [] false (firstFollower c))).congr fun p => ?_
      rw [false_or, List.mem_singleton]
    · refine ⟨(hnode i).1, ?_⟩
      show s.inbox i ++ addressed i _ = []
      rw [(hnode i).2, addressed_two hne, if_neg hi, if_neg hi']
      rfl
  · refine .placed ⟨rfl, hnodes⟩ (htimers ▸ hrecovery) fun i hi => ?_
    have haddressed := addressed_two hne (.disconnectPeers [c.currentLeader] false none)
      (.disconnectPeers [firstFollower c] false none) i
    rw [hscenario]
    by_cases hif : i = firstFollower c
    · refine ⟨(· ∈ [c.currentLeader]), comes_post (hnode i) ?_, fun j _ _ => ?_⟩
      · rw [haddressed, if_pos hif]
        exact comes_told _
      · refine List.mem_singleton.trans ⟨fun hj => Or.inr ⟨hif, hj⟩, fun hcut => ?_⟩
        exact hcut.elim (fun hcut => absurd (hif.symm.trans hcut.1) hne) And.right
    · by_cases hil : i = c.currentLeader
      · refine ⟨(· ∈ [firstFollower c]), comes_post (hnode i) ?_, fun j _ _ => ?_⟩
        · rw [haddressed, if_neg hif, if_pos hil]
          exact comes_told _
        · refine List.mem_singleton.trans ⟨fun hj => Or.inl ⟨hil, hj⟩, fun hcut => ?_⟩
          exact hcut.elim And.right fun hcut => absurd hcut.1 hif
      · refine ⟨fun _ => False, comes_post (hnode i) ?_, fun j _ _ => ?_⟩
        · rw [haddressed, if_neg hif, if_neg hil]
          exact comes_untouched
        · exact ⟨False.elim, fun hcut => hcut.elim (fun hcut => hil hcut.1) fun hcut => hif hcut.1⟩

/-- The second round, when its timer fires. -/
theorem timeout_cases {now id : ℕ} (h : s.timeout now id = some s')
    (hnot : s.client.timers.callbackOf id ≠ some .recoverPartition) :
    ∃ followers follower leader, ⟨id, .disconnectNonLagging followers follower leader⟩ ∈ s.client.timers.live ∧
      ∃ c₁ : Client, c₁.nodes = s.client.nodes ∧ c₁.timers = s.client.timers.remove id ∧
        s' = s.post (c₁, laterMessages s.client.nodes followers follower leader) := by
  unfold PartitionRun.timeout at h
  split at h
  · next hcb => exact absurd hcb hnot
  · next followers follower leader hcb =>
    refine ⟨followers, follower, leader, Timers.callbackOf_eq_some hcb, ?_⟩
    obtain ⟨r, hr, hpost⟩ := Option.bind_eq_some_iff.mp h
    unfold Client.handleTimeout at hr
    rw [hcb] at hr
    cases hr
    dsimp only at hpost
    rw [if_neg (by nofun)] at hpost
    obtain ⟨⟨c₁, outs⟩, hok, rfl⟩ := Option.map_eq_some_iff.mp hpost
    obtain ⟨rfl, rfl⟩ := disconnectNonLagging_eq (eq_ok_of_toOption hok)
    refine ⟨_, ?_, ?_, rfl⟩
    · rfl
    · rfl
  · cases h

/-- The messages of the second round, node by node. -/
theorem addressed_later (hnodup : c.nodes.Nodup) (hne : firstFollower c ≠ c.currentLeader) (i : ℕ) :
    addressed i (laterMessages c.nodes (followersOf c) (firstFollower c) c.currentLeader) =
      if i = firstFollower c then []
      else if i = c.currentLeader then
        [.disconnectPeers ((followersOf c).filter (· ≠ firstFollower c)) false (some (firstFollower c))]
      else if i ∈ c.nodes then
        [.disconnectPeers (c.nodes.filter fun p => p ≠ firstFollower c ∧ p ≠ i) false none]
      else [] := by
  have hmem : i ∈ (followersOf c).filter (· ≠ firstFollower c) ↔
      i ∈ c.nodes ∧ i ≠ c.currentLeader ∧ i ≠ firstFollower c := by
    rw [followersOf, List.mem_filter, List.mem_filter, decide_eq_true_eq, decide_eq_true_eq, and_assoc]
  have hnodup' : ((followersOf c).filter (· ≠ firstFollower c)).Nodup := (hnodup.filter _).filter _
  rw [laterMessages, addressed_append, addressed_map hnodup']
  by_cases hif : i = firstFollower c
  · rw [if_neg fun h => (hmem.mp h).2.2 hif, if_pos hif, hif, addressed_of_ne hne.symm]
    rfl
  rw [if_neg hif]
  by_cases hil : i = c.currentLeader
  · rw [if_neg fun h => (hmem.mp h).2.1 hil, if_pos hil, hil, addressed_self]
    rfl
  rw [if_neg hil, addressed_of_ne (Ne.symm hil), List.append_nil]
  by_cases hi : i ∈ c.nodes
  · rw [if_pos (hmem.mpr ⟨hi, hil, hif⟩), if_pos hi]
  · rw [if_neg fun h => hi (hmem.mp h).1, if_neg hi]

/-- **The second round.** -/
theorem Phase.timeout (hnodup : c.nodes.Nodup) (hp : Phase c s) {now id : ℕ} (h : s.timeout now id = some s')
    (hnot : s.client.timers.callbackOf id ≠ some .recoverPartition) (hclean : pending c.timers = []) :
    Phase c s' := by
  obtain ⟨followers, follower, leader, hlive, c₁, hnodes, htimers, rfl⟩ := timeout_cases h hnot
  have hmem : ⟨id, .disconnectNonLagging followers follower leader⟩ ∈ pending s.client.timers :=
    List.mem_filter.mpr ⟨hlive, rfl⟩
  cases hp with
  | fresh hstarted hclient hnode =>
    rw [hclient, hclean] at hmem
    cases hmem
  | placed hbegun hpending hcomes =>
    rw [hpending] at hmem
    cases hmem
  | waiting hbegun d hscenario hleader rest hfollowers t hpending hcallback hfirst hcut hothers =>
    obtain ⟨hnode, hne⟩ := firstFollower_spec hfollowers
    have ht := hmem
    rw [hpending] at ht
    obtain rfl := List.mem_singleton.mp ht
    cases hcallback
    have hgone : pending c₁.timers = [] := by
      refine List.eq_nil_iff_forall_not_mem.mpr fun u hu => ?_
      obtain ⟨hu, hpend⟩ := List.mem_filter.mp hu
      rw [htimers] at hu
      obtain ⟨hu, hid⟩ := Timers.mem_remove.mp hu
      have hu' : u ∈ pending s.client.timers := List.mem_filter.mpr ⟨hu, hpend⟩
      rw [hpending] at hu'
      exact hid (congrArg Timer.id (List.mem_singleton.mp hu'))
    rw [hbegun.nodes]
    refine .placed ⟨rfl, hnodes.trans hbegun.nodes⟩ hgone fun i hi => ?_
    rw [hscenario]
    have haddressed := addressed_later hnodup hne i
    by_cases hif : i = firstFollower c
    · refine ⟨(· = c.currentLeader), ?_, fun j _ _ => ⟨fun hj => Or.inr (Or.inl hj), fun hcut => ?_⟩⟩
      · show Comes _ (s.node i) (s.inbox i ++ addressed i _)
        rw [haddressed, if_pos hif, List.append_nil, hif]
        exact hfirst
      · rcases hcut with hcut | hcut | hcut
        · exact absurd (hif.symm.trans hcut) hne
        · exact hcut
        · exact absurd hif hcut.1
    by_cases hil : i = c.currentLeader
    · refine ⟨fun p => p = firstFollower c ∨ p ∈ firstFollower c :: (followersOf c).filter (· ≠ firstFollower c),
        .adds ?_, fun j hj hji => ⟨fun _ => Or.inl hil, fun _ => ?_⟩⟩
      · show Adds _ (s.node i) (s.inbox i ++ addressed i _)
        rw [haddressed, if_neg hif, if_pos hil, hil]
        exact hcut.append (named_lagging _ false _)
      · by_cases hjf : j = firstFollower c
        · exact Or.inl hjf
        · refine Or.inr (List.mem_cons_of_mem _ (List.mem_filter.mpr ⟨?_, decide_eq_true hjf⟩))
          exact List.mem_filter.mpr ⟨hj, decide_eq_true fun hjl => hji (hjl.trans hil.symm)⟩
    · refine ⟨(· ∈ c.nodes.filter fun p => p ≠ firstFollower c ∧ p ≠ i), comes_post (hothers i hif hil) ?_,
        fun j hj hji => ?_⟩
      · rw [haddressed, if_neg hif, if_neg hil, if_pos hi]
        exact comes_told _
      · refine List.mem_filter.trans ⟨fun ⟨_, hjf⟩ => ?_, fun hcut => ⟨hj, decide_eq_true ⟨?_, hji⟩⟩⟩
        · exact Or.inr (Or.inr ⟨hif, (of_decide_eq_true hjf).1⟩)
        · rcases hcut with hcut | hcut | hcut
          · exact absurd hcut hil
          · exact hcut ▸ hne.symm
          · exact hcut.2

theorem phase_of_reachable (hnodup : c.nodes.Nodup) (hclean : pending c.timers = [])
    (h : (partitionMachine c).ReachableUnder BeforeRecovery s) : Phase c s := by
  refine h.invariant (.fresh rfl rfl fun i => ⟨rfl, rfl⟩) fun s e s' _ hok hp hstep => ?_
  cases e with
  | start now =>
    cases hp with
    | fresh hstarted hclient hnode =>
      dsimp only [partitionMachine, PartitionRun.step] at hstep
      rw [hstarted, if_neg Bool.false_ne_true, hclient] at hstep
      obtain ⟨⟨c', outs⟩, hok, rfl⟩ := Option.map_eq_some_iff.mp hstep
      exact .start hnodup hclean hnode (eq_ok_of_toOption hok)
    | waiting hbegun =>
      dsimp only [partitionMachine, PartitionRun.step] at hstep
      rw [if_pos hbegun.started] at hstep
      cases hstep
    | placed hbegun =>
      dsimp only [partitionMachine, PartitionRun.step] at hstep
      rw [if_pos hbegun.started] at hstep
      cases hstep
  | timeout now id => exact hp.timeout hnodup hstep hok hclean
  | deliver i => exact hp.node (Or.inl ⟨i, hstep⟩)
  | fire i k => exact hp.node (Or.inr ⟨i, k, hstep⟩)

theorem pending_of_settled (hs : s.Settled) : pending s.client.timers = [] :=
  List.filter_eq_nil_iff.mpr fun t ht => by rw [hs.client t ht]; nofun

/-- What the nodes are disconnected from. -/
theorem cut_of_settled (hnodup : c.nodes.Nodup) (hclean : pending c.timers = [])
    (h : (partitionMachine c).ReachableUnder BeforeRecovery s) (hs : s.Settled) {i j : ℕ} (hi : i ∈ c.nodes)
    (hj : j ∈ c.nodes) (hji : j ≠ i) : j ∈ (s.node i).disconnectedPeers ↔
      Cut c.networkScenario c.currentLeader (firstFollower c) i j := by
  cases phase_of_reachable hnodup hclean h with
  | fresh hstarted =>
    rw [hs.started] at hstarted
    cases hstarted
  | waiting _ _ _ _ _ _ t hpending =>
    rw [pending_of_settled hs] at hpending
    cases hpending
  | placed hbegun _ hcomes =>
    obtain ⟨T, hT, hcut⟩ := hcomes i hi
    rw [← hbegun.nodes] at hi
    rw [hs.inbox i hi] at hT
    rw [hT.settled (hs.node i hi) j]
    exact hcut j hj hji

/-! ### Who is still connected -/

/-- The nodes that node `i` is connected to. -/
def links (nodes : List ℕ) (s : PartitionRun) (i : ℕ) : List ℕ :=
  nodes.filter fun j => j ≠ i ∧ j ∉ (s.node i).disconnectedPeers

/-- The scenarios that leave one node with a majority. -/
def LeavesOne : NetworkScenario → Prop
  | .quorumLoss _ | .constrainedElection _ => True
  | .chained _ | .periodicFull _ | .fullyConnected => False

theorem mem_links {nodes : List ℕ} {i j : ℕ} :
    j ∈ links nodes s i ↔ j ∈ nodes ∧ j ≠ i ∧ j ∉ (s.node i).disconnectedPeers := by
  rw [links, List.mem_filter, decide_eq_true_eq]

/-- With two nodes there is a first follower. -/
theorem firstFollower_of_two (hnodup : c.nodes.Nodup) (htwo : 2 ≤ c.nodes.length) :
    firstFollower c ∈ c.nodes ∧ firstFollower c ≠ c.currentLeader := by
  have hsub : c.nodes ⊆ c.currentLeader :: followersOf c := by
    intro j hj
    by_cases hjl : j = c.currentLeader
    · exact List.mem_cons.mpr (Or.inl hjl)
    · exact List.mem_cons_of_mem _ (List.mem_filter.mpr ⟨hj, decide_eq_true hjl⟩)
  have hlength := (hnodup.subperm hsub).length_le
  rw [List.length_cons] at hlength
  cases hfollowers : followersOf c with
  | nil =>
    rw [hfollowers, List.length_nil] at hlength
    omega
  | cons f rest =>
    have hf : firstFollower c = f := by
      show (followersOf c).headD 0 = f
      rw [hfollowers]
      rfl
    exact firstFollower_spec (hf ▸ hfollowers)

/-- Only the first follower is connected to a majority. -/
theorem majority_iff (hnodup : c.nodes.Nodup) (hclean : pending c.timers = [])
    (h : (partitionMachine c).ReachableUnder BeforeRecovery s) (hs : s.Settled)
    (hscenario : LeavesOne c.networkScenario) (hfour : 4 ≤ c.nodes.length) {i : ℕ} (hi : i ∈ c.nodes) :
    c.nodes.length / 2 + 1 ≤ (links c.nodes s i).length + 1 ↔ i = firstFollower c := by
  have hne := (firstFollower_of_two hnodup (by omega)).2
  have hcut : ∀ j ∈ c.nodes, j ≠ i → (j ∈ (s.node i).disconnectedPeers ↔
      Cut c.networkScenario c.currentLeader (firstFollower c) i j) := fun j hj hji =>
    cut_of_settled hnodup hclean h hs hi hj hji
  constructor
  · intro hmajority
    by_contra hif
    have hfew : links c.nodes s i ⊆ [firstFollower c] := by
      intro j hj
      obtain ⟨hj, hji, hnot⟩ := mem_links.mp hj
      rw [hcut j hj hji] at hnot
      by_contra hjf
      rw [List.mem_singleton] at hjf
      refine hnot ?_
      cases hc : c.networkScenario with
      | quorumLoss => exact ⟨hif, hjf⟩
      | constrainedElection => exact Or.inr (Or.inr ⟨hif, hjf⟩)
      | chained => rw [hc] at hscenario; exact hscenario.elim
      | periodicFull => rw [hc] at hscenario; exact hscenario.elim
      | fullyConnected => rw [hc] at hscenario; exact hscenario.elim
    have hlength : (links c.nodes s i).length ≤ 1 := ((hnodup.filter _).subperm hfew).length_le
    omega
  · rintro rfl
    have hmany : c.nodes ⊆ firstFollower c :: c.currentLeader :: links c.nodes s (firstFollower c) := by
      intro j hj
      by_cases hjf : j = firstFollower c
      · exact List.mem_cons.mpr (Or.inl hjf)
      by_cases hjl : j = c.currentLeader
      · exact List.mem_cons_of_mem _ (List.mem_cons.mpr (Or.inl hjl))
      refine List.mem_cons_of_mem _ (List.mem_cons_of_mem _ (mem_links.mpr ⟨hj, hjf, fun hmem => ?_⟩))
      rw [hcut j hj hjf] at hmem
      cases hc : c.networkScenario with
      | quorumLoss => rw [hc] at hmem; exact hmem.1 rfl
      | constrainedElection =>
        rw [hc] at hmem
        rcases hmem with hmem | hmem | hmem
        · exact hne hmem
        · exact hjl hmem
        · exact hmem.1 rfl
      | chained => rw [hc] at hscenario; exact hscenario.elim
      | periodicFull => rw [hc] at hscenario; exact hscenario.elim
      | fullyConnected => rw [hc] at hscenario; exact hscenario.elim
    have hlength := (hnodup.subperm hmany).length_le
    rw [List.length_cons, List.length_cons] at hlength
    omega

/-- **The partition is in place**: whatever the order of the messages and of the closures, in the end two
nodes are disconnected just when the scenario says so. -/
theorem partition_in_place (hnodup : c.nodes.Nodup) (hclean : pending c.timers = [])
    (h : (partitionMachine c).ReachableUnder BeforeRecovery s) (hs : s.Settled) :
    (∀ i ∈ c.nodes, ∀ j ∈ c.nodes, j ≠ i →
      (j ∈ (s.node i).disconnectedPeers ↔ Cut c.networkScenario c.currentLeader (firstFollower c) i j)) ∧
    (LeavesOne c.networkScenario → 4 ≤ c.nodes.length → ∀ i ∈ c.nodes,
      (c.nodes.length / 2 + 1 ≤ (links c.nodes s i).length + 1 ↔ i = firstFollower c)) :=
  ⟨fun _ hi _ hj hji => cut_of_settled hnodup hclean h hs hi hj hji,
    fun hscenario hfour _ hi => majority_iff hnodup hclean h hs hscenario hfour hi⟩

/-- A client of five nodes with leader 5. -/
def fiveNodes (scenario : NetworkScenario) : Client :=
  { Client.new .release [3, 1, 2, 4, 5] 1 [3, 1, 2, 4, 5] scenario none with currentLeader := 5, leaderRound := 1 }

/-- The quorum loss: the four nodes around node 3 are told whom to disconnect from. -/
def quorumLossEvents : List PartitionRunEvent :=
  [.start 0, .deliver 5, .deliver 4, .deliver 2, .deliver 1]

/-- The constrained election; node 5 runs its first closure before it is told of the others. -/
def constrainedEvents : List PartitionRunEvent :=
  [.start 0, .deliver 5, .timeout 1 0, .deliver 4, .fire 5 0, .deliver 5, .deliver 3, .deliver 1, .fire 5 0,
    .deliver 2]

theorem fiveNodes_constrained : ∃ s, (partitionMachine (fiveNodes (.constrainedElection 9))).run
      (partitionMachine (fiveNodes (.constrainedElection 9))).init constrainedEvents = some s ∧
    ((∀ i ∈ [3, 1, 2, 4, 5], ∀ j ∈ [3, 1, 2, 4, 5], j ≠ i →
      (j ∈ (s.node i).disconnectedPeers ↔ Cut (.constrainedElection 9) 5 3 i j)) ∧
    (LeavesOne (.constrainedElection 9) → 4 ≤ 5 → ∀ i ∈ [3, 1, 2, 4, 5],
      (5 / 2 + 1 ≤ (links [3, 1, 2, 4, 5] s i).length + 1 ↔ i = 3))) := by
  obtain ⟨s, hrun, hsettled⟩ : ∃ s, (partitionMachine (fiveNodes (.constrainedElection 9))).run
      (partitionMachine (fiveNodes (.constrainedElection 9))).init constrainedEvents = some s ∧ s.Settled :=
    ⟨_, rfl, by decide +kernel⟩
  exact ⟨s, hrun, partition_in_place (c := fiveNodes (.constrainedElection 9)) (by decide) rfl
    (Machine.ReachableUnder.init.run (by decide +kernel) hrun) hsettled⟩

end PartitionRun

end OmniPaxosBench.Experiment
