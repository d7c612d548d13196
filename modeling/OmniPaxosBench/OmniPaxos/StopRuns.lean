import OmniPaxosBench.OmniPaxos.StopTogether
import OmniPaxosBench.OmniPaxos.HoldBack

/-! # Runs with a reconfiguration and a shutdown

Each leader election and each replica should handle one stop of each of its peers, none of its own, and
answer once. Three things spoil it. A node that is stopped answers every `ReconfigInit` with a stop to all
nodes of the configuration, so with two nodes that continue its peers get two, and it gets its own. A node
that continues may end its first configuration when the components of the second have stopped and, as
they knew no peers, have answered. And a component that knows no peers yet and has heard of a stop counts
one peer too many when it is stopped, and never answers. `stopsRight_iff`: nothing else can go wrong. -/

namespace OmniPaxosBench.OmniPaxos

open LeaderElection OmniPaxosBench.Lib PaxosComp ConfigComps

namespace Shutdown

variable {P S M : Type} {D : Deployment P} {s t : Shutdown P S} {k i p : ℕ}

/-- **When an event does no harm to the handshake**: a node that is stopped gets no `ReconfigInit`; the
components that learn their peers have not stopped, or have heard from all of them; and a component that
stops has heard only from its peers. -/
def Orderly (D : Deployment P) (s : Shutdown P S) : ShutdownEvent S M → Prop
  | .deliver (.reconfigInit i _) => (s.comp i).stopped = false
  | .reconfig i _ _ => i ∈ D.reconfig.continuedNodes → s.HeardFrom i (D.reconfig.getPeersOf i)
  | .deliver (.bleStop k i _) => ∀ p ∈ (s.comps k i).ble.stoppedPeers, p ∈ (s.comps k i).ble.peers
  | .deliver (.replicaStop k i _) =>
    ∀ p ∈ (s.comps k i).replica.stoppedPeers, p ∈ (s.comps k i).replica.peers
  | _ => True

instance (D : Deployment P) (s : Shutdown P S) : ∀ e : ShutdownEvent S M, Decidable (Orderly D s e)
  | .deliver (.reconfigInit _ _) => inferInstanceAs (Decidable (_ = false))
  | .reconfig _ _ _ => inferInstanceAs (Decidable (_ → _))
  | .deliver (.bleStop k i _) =>
    inferInstanceAs (Decidable (∀ p ∈ (s.comps k i).ble.stoppedPeers, _))
  | .deliver (.replicaStop k i _) =>
    inferInstanceAs (Decidable (∀ p ∈ (s.comps k i).replica.stoppedPeers, _))
  | .deliver (.blePeer _ _ _) | .deliver (.sendStop _ _ _ _) | .deliver (.commPeer _ _ _)
  | .deliver (.stopMsg _ _ _) | .clientStop _ | .comp _ _ | .ble _ _ _ | .replica _ _ _
  | .communicator _ _ _ => inferInstanceAs (Decidable True)

/-! ### Steps -/

theorem setComps_alike {u : ConfigComps P} (h : Alike (s.comps k i) u) (k' j : ℕ) :
    Alike (s.comps k' j) ((s.setComps k i u).comps k' j) := by
  rw [setComps_comps]
  split_ifs with hkj
  · rw [hkj.1, hkj.2]; exact h
  · exact Alike.refl _

/-- The supervisor of node `i` has handled an event, and is who it was. -/
theorem update_comp {c : PaxosComp S} (hpid : c.pid = (s.comp i).pid)
    (hstopped : c.stopped = (s.comp i).stopped) (j : ℕ) :
    (Function.update s.comp i c j).pid = (s.comp j).pid ∧
      (Function.update s.comp i c j).stopped = (s.comp j).stopped := by
  by_cases hj : j = i
  · subst hj
    rw [Function.update_self]
    exact ⟨hpid, hstopped⟩
  · rw [Function.update_of_ne hj]
    exact ⟨rfl, rfl⟩

/-- The state `s'` is `s` but for a `ReconfigInit` that was delivered, and nodes that are finished. -/
structure Begun (s s' : Shutdown P S) : Prop where
  comps : s'.comps = s.comps
  comp : s'.comp = s.comp
  finished : ∀ j ∈ s.finished, j ∈ s'.finished
  flight : SameStops s s'
  sub : ∀ m ∈ s'.flight, m ∈ s.flight

/-- The supervisor sends nothing but the `ReconfigInit`s of the deployment. -/
theorem flight_calm {s' : Shutdown P S} {c : PaxosComp S} {out : List CompOut} (h : Inv D s)
    (hs : Begun s s') (hout : ∀ o ∈ out, IsCalm (Announces 2 D.reconfig) o)
    (hflight : t.flight = s'.flight ++ out.flatMap (c.packets i)) :
    SameStops s t ∧ ∀ m ∈ t.flight, Expected D m := by
  have hpackets := fun m hm => packets_calm (c := c) (i := i) (m := m) hout hm
  have hsame : SameStops s' t := sameStops_send hflight fun m hm => by
    obtain ⟨j, r, rfl, -⟩ := hpackets m hm
    exact ⟨j, r, rfl⟩
  refine ⟨fun q hq => (hsame q hq).trans (hs.flight q hq), fun m hm => ?_⟩
  rw [hflight] at hm
  rcases List.mem_append.mp hm with hm | hm
  · exact h.packets m (hs.sub m hm)
  · obtain ⟨j, r, rfl, hr⟩ := hpackets m hm
    exact hr

section Steps

variable [Paxos P S M]

/-- The supervisor has handled an event that sets no peers. -/
theorem inv_afterComp {s' : Shutdown P S} {r : After S} (h : Inv D s) (hs : Begun s s')
    (hpid : r.1.pid = (s.comp i).pid) (hstopped : r.1.stopped = (s.comp i).stopped)
    (hout : ∀ o ∈ r.2, IsCalm (Announces 2 D.reconfig) o) (ht : s'.afterComp i r = some t) :
    Inv D t := by
  obtain ⟨hcomp, hflight, hfinished, hcomps⟩ :=
    afterComp_framed (fun o ho => not_setsPeers_of_calm (hout o ho)) ht
  obtain ⟨hsame, hpackets⟩ := flight_calm h hs hout hflight
  unfold send at hcomp hcomps
  simp only [hs.comp, hs.comps] at hcomp hcomps
  refine inv_steady h hcomps (fun j => ?_) (fun j => ?_) (fun j hj => ?_) hsame hpackets
  · rw [hcomp]; exact (update_comp hpid hstopped j).1
  · rw [hcomp]; exact (update_comp hpid hstopped j).2
  · rw [hfinished]; exact hs.finished j hj

/-- The supervisor has handled an event that first sets the peers of the second configuration. -/
theorem inv_afterLearn {s' : Shutdown P S} {r : After S} {rest : List CompOut} {leader : Option Leader}
    (h : Inv D s) (hs : Begun s s') (hi : i ∈ D.conf 2)
    (hpid : r.1.pid = (s.comp i).pid) (hstopped : r.1.stopped = (s.comp i).stopped)
    (hr : r.2 = .setInitialState 2 (D.reconfig.getPeersOf i) leader :: rest)
    (hrest : ∀ o ∈ rest, IsCalm (Announces 2 D.reconfig) o)
    (hself : i ∈ D.initial → i ∈ s'.finished) (hheard : s.HeardFrom i (D.reconfig.getPeersOf i))
    (ht : s'.afterComp i r = some t) : Inv D t := by
  obtain ⟨u, hu, hcomp, hflight, hfinished, hcomps⟩ :=
    afterComp_learned hr (fun o ho => not_setsPeers_of_calm (hrest o ho)) ht
  obtain ⟨hsame, hpackets⟩ := flight_calm h hs hrest hflight
  have hcomp' : t.comp = Function.update s.comp i r.1 := by
    rw [hcomp, ← hs.comp]; rfl
  have hcomps' : ∀ k j, Alike (if k = 2 ∧ j = i then u else s.comps k j) (t.comps k j) := by
    intro k j
    have hkj := hcomps k j
    unfold send at hkj
    dsimp only at hkj
    rw [setComps_comps] at hkj
    dsimp only at hkj
    rw [hs.comps] at hkj
    exact hkj
  rw [hs.comps] at hu
  refine inv_learn h hi ?_ (fun k j hkj => ?_) (fun j => ?_) (fun j => ?_) (fun j hj => ?_)
    (fun hj => ?_) hsame hpackets hheard
  · have halike := hcomps' 2 i
    rw [if_pos ⟨rfl, rfl⟩] at halike
    exact hu.trans_alike halike
  · have halike := hcomps' k j
    rw [if_neg hkj] at halike
    exact halike
  · rw [hcomp']; exact (update_comp hpid hstopped j).1
  · rw [hcomp']; exact (update_comp hpid hstopped j).2
  · rw [hfinished]; exact hs.finished j hj
  · rw [hfinished]; exact hself hj

variable [SequenceTraits S]

/-- **The first configuration of a node ends.** -/
theorem inv_reconfig {finalSequence : S} {leader : Option Leader} {r : After S} (h : Inv D s)
    (hheard : i ∈ D.reconfig.continuedNodes → s.HeardFrom i (D.reconfig.getPeersOf i))
    (hr : (s.comp i).handleReconfig ⟨2, D.reconfig, finalSequence, leader⟩ = some r)
    (ht : { s with finished := i :: s.finished }.afterComp i r = some t) : Inv D t := by
  have hbegun : Begun s { s with finished := i :: s.finished } :=
    ⟨rfl, rfl, fun j hj => List.mem_cons_of_mem i hj, fun _ _ => rfl, fun _ hm => hm⟩
  obtain ⟨hpid, hstopped, rest, hcalm, hout⟩ := handleReconfig_eq hr
  dsimp only at hcalm hout
  rw [h.pid i] at hout
  split_ifs at hout with hstays
  · have hconf : i ∈ D.conf 2 := List.mem_append_left _ hstays
    exact inv_afterLearn h hbegun hconf hpid hstopped hout hcalm (fun _ => List.mem_cons_self)
      (hheard hstays) ht
  · rw [← hout] at hcalm
    exact inv_afterComp h hbegun hpid hstopped hcalm ht

/-- **A node that is not stopped gets a `ReconfigInit`.** -/
theorem inv_reconfigInit {m : ReconfigInit} {r : After S} (h : Inv D s)
    (hm : .reconfigInit i m ∈ s.flight) (hrun : (s.comp i).stopped = false)
    (hr : (s.comp i).handleReconfigInit m = some r)
    (ht : (s.without (.reconfigInit i m)).afterComp i r = some t) : Inv D t := by
  have hsame : SameStops s (s.without (.reconfigInit i m)) := by
    refine sameStops_deliver hm (List.append_nil _).symm fun _ hm => ?_
    cases hm
  have hbegun : Begun s (s.without (.reconfigInit i m)) :=
    ⟨rfl, rfl, fun _ hj => hj, hsame, fun _ hm => List.mem_of_mem_erase hm⟩
  obtain ⟨hnew, hid, hnodes⟩ : Announces 2 D.reconfig i m := h.packets _ hm
  obtain ⟨hpid, hstopped, hout⟩ := handleReconfigInit_eq hr
  rw [if_neg (by rw [hrun]; exact Bool.false_ne_true), hid, hnodes, h.pid i] at hout
  obtain ⟨rest, hcalm, hout | hout⟩ := hout
  · rw [← hout] at hcalm
    exact inv_afterComp h hbegun hpid hstopped (hcalm _) ht
  · have hconf : i ∈ D.conf 2 := List.mem_append_right _ hnew
    have hnot : i ∉ D.initial := by
      have := (List.mem_filter.mp hnew).2
      simpa using this
    have hble := h.ble.stops 2 i
    have hreplica := h.replica.stops 2 i
    rw [hrun, Bool.toNat_false] at hble hreplica
    refine inv_afterLearn h hbegun hconf hpid hstopped hout (hcalm _) (fun hi => absurd hi hnot) ?_ ht
    constructor
    · intro hstop
      rw [hstop, Bool.toNat_true] at hble
      omega
    · intro hstop
      rw [hstop, Bool.toNat_true] at hreplica
      omega

/-- **A packet is handled.** -/
theorem inv_deliver {m : Packet} (h : Inv D s) (hm : m ∈ s.flight)
    (hok : Orderly D s (.deliver m : ShutdownEvent S M)) (ht : (s.without m).handle m = some t) :
    Inv D t := by
  cases m with
  | reconfigInit i r =>
    obtain ⟨r', hr', ht⟩ := Option.bind_eq_some_iff.mp ht
    exact inv_reconfigInit h hm hok hr' ht
  | bleStop k i pid =>
    obtain rfl : pid = i := h.packets _ hm
    simp only [handle] at ht
    split_ifs at ht
    cases ht
    refine inv_ble h hm rfl ?_ (bleInv_stop h.ble hm hok)
    have hpeers := congrArg Handshake.peers (bleHandshake_stop (s.comps k pid) k pid).1
    rw [Handshake.stop_peers] at hpeers
    exact hpeers
  | replicaStop k i ackClient =>
    simp only [handle] at ht
    split_ifs at ht
    cases ht
    obtain ⟨hshake, hpackets⟩ := replicaHandshake_stop (S := S) (M := M) (s.comps k i) k i ackClient
    refine inv_replica h hm rfl ?_ (fun m hm => ?_) (replicaInv_stop h.replica hm hok)
    · have hpeers := congrArg Handshake.peers hshake
      rw [Handshake.stop_peers] at hpeers
      exact hpeers
    · have hm' : m ∈ ((s.comps k i).replica.handleStop ackClient : PaxosReplica.Result P S M).2.flatMap
          (ReplicaOut.packets k i) := hm
      rw [hpackets, List.mem_singleton] at hm'
      rw [hm']
      exact ⟨rfl, h.replica.pid k i⟩
  | blePeer k i p =>
    simp only [handle] at ht
    split_ifs at ht
    obtain ⟨r, hr, rfl⟩ := Option.map_eq_some_iff.mp ht
    obtain ⟨r', hr', hinv⟩ := bleInv_peerStop h.ble hm
    obtain rfl : r = r' := Option.some.inj (hr.symm.trans hr')
    exact inv_ble h hm rfl (packets_blePeerStop (k := k) hr).2 hinv
  | sendStop k i pid ackClient =>
    obtain rfl : pid = i := h.packets _ hm
    simp only [handle] at ht
    split_ifs at ht
    cases ht
    exact inv_communicator h hm rfl rfl (replicaInv_sendStop h.replica hm)
  | commPeer k i p =>
    simp only [handle] at ht
    split_ifs at ht
    cases ht
    exact inv_communicator h hm rfl rfl (replicaInv_commPeer h.replica hm)
  | stopMsg k i p =>
    simp only [handle] at ht
    split_ifs at ht
    obtain ⟨r, hr, rfl⟩ := Option.map_eq_some_iff.mp ht
    obtain ⟨r', hr', hinv⟩ := replicaInv_peerStop (M := M) h.replica hm
    obtain rfl : r = r' := Option.some.inj (hr.symm.trans hr')
    obtain ⟨hnone, -, hpeers⟩ := packets_replicaPeerStop (k := k) (i := i) hr
    refine inv_replica h hm rfl hpeers (fun m hm => ?_) hinv
    rw [hnone] at hm
    cases hm

/-- **Every step that meets `Orderly` keeps the invariant.** -/
theorem step_inv {e : ShutdownEvent S M} (h : Inv D s) (hok : Orderly D s e)
    (ht : s.step D e = some t) : Inv D t := by
  cases e with
  | clientStop i =>
    simp only [step] at ht
    split_ifs at ht with hstop
    obtain ⟨r, hr, ht⟩ := Option.bind_eq_some_iff.mp ht
    exact inv_clientStop h (Bool.eq_false_iff.mpr hstop) hr ht
  | reconfig i finalSequence leader =>
    simp only [step] at ht
    split_ifs at ht
    obtain ⟨r, hr, ht⟩ := Option.bind_eq_some_iff.mp ht
    exact inv_reconfig h hok hr ht
  | deliver m =>
    simp only [step] at ht
    split_ifs at ht with hm
    exact inv_deliver h hm hok ht
  | comp i e =>
    simp only [step] at ht
    split_ifs at ht with he
    obtain ⟨r, hr, ht⟩ := Option.bind_eq_some_iff.mp ht
    have hsteady := PaxosComp.handle_steady he hr
    have hbegun : Begun s s := ⟨rfl, rfl, fun _ hj => hj, fun _ _ => rfl, fun _ hm => hm⟩
    exact inv_afterComp h hbegun hsteady.pid hsteady.stopped (hsteady.outs _) ht
  | ble k i e =>
    simp only [step] at ht
    split_ifs at ht with he
    obtain ⟨r, hr, rfl⟩ := Option.map_eq_some_iff.mp ht
    have hsteady := bleHandle_steady he.2 hr
    have hflight : (s.afterBle k i r).flight = s.flight := by
      unfold afterBle send
      rw [hsteady.packets]
      exact List.append_nil _
    refine inv_steady h (setComps_alike (afterBle_alike hsteady)) (fun _ => rfl) (fun _ => rfl)
      (fun _ hj => hj) (fun q _ => by rw [hflight]) fun m hm => ?_
    rw [hflight] at hm
    exact h.packets m hm
  | replica k i e =>
    simp only [step] at ht
    split_ifs at ht with he
    obtain ⟨r, hr, rfl⟩ := Option.map_eq_some_iff.mp ht
    have hsteady := PaxosReplica.handle_steady he.2 hr
    have hflight : (s.afterReplica k i r).flight = s.flight := by
      unfold afterReplica send
      rw [hsteady.packets]
      exact List.append_nil _
    refine inv_steady h (setComps_alike (afterReplica_alike hsteady)) (fun _ => rfl) (fun _ => rfl)
      (fun _ hj => hj) (fun q _ => by rw [hflight]) fun m hm => ?_
    rw [hflight] at hm
    exact h.packets m hm
  | communicator k i e =>
    simp only [step] at ht
    split_ifs at ht with he
    obtain ⟨r, hr, rfl⟩ := Option.map_eq_some_iff.mp ht
    obtain ⟨hpeers, hnone⟩ := communicator_steady (k := k) (i := i) he.2 hr
    have hflight : (s.afterCommunicator k i r).flight = s.flight := by
      unfold afterCommunicator send
      rw [hnone]
      exact List.append_nil _
    refine inv_steady h (afterCommunicator_alike hpeers) (fun _ => rfl) (fun _ => rfl)
      (fun _ hj => hj) (fun q _ => by rw [hflight]) fun m hm => ?_
    rw [hflight] at hm
    exact h.packets m hm

end Steps

/-! ### The start -/

section Start

variable {c : PaxosComp S}

theorem createReplica_eq (k : ℕ) (nodes : Option (List ℕ))
    (hnodes : ∀ p ∈ nodes.getD [], 1 ≤ p ∧ p ≤ c.nodes) (hclient : c.cachedClient = true)
    (hble : c.leaderElection = .ble) : c.createReplica k nodes =
      some ({ c with replicas := c.replicas + 1 }, [.create k ((nodes.getD []).filter (· ≠ c.pid))]) := by
  unfold createReplica
  dsimp only
  rw [if_pos]
  refine ⟨fun p hp => ?_, hclient, fun hvr => absurd (hble.symm.trans hvr) (by decide)⟩
  rw [if_neg (by rw [hble]; simp)] at hp
  unfold getActorpath
  rw [if_pos (hnodes p (List.mem_of_mem_filter hp))]
  rfl

/-- What matters of a node that is being initialised. -/
structure Initialised (i : ℕ) (c : PaxosComp S) : Prop where
  pid : c.pid = i
  stopped : c.stopped = false
  client : c.cachedClient = true
  ble : c.leaderElection = .ble
  exp : c.isReconfigExp = true

theorem createInitial_eq (hc : Initialised i c)
    (hnodes : ∀ p ∈ c.initialConfiguration, 1 ≤ p ∧ p ≤ c.nodes) : ∃ c', Initialised i c' ∧
      c.createInitial = some (c', if i ∈ c.initialConfiguration then
        [.create 1 (c.initialConfiguration.filter (· ≠ i))] else []) := by
  obtain ⟨rfl, hstopped, hclient, hble, hexp⟩ := hc
  have hcreate := createReplica_eq (c := { c with nextConfigId := some 1 }) 1
    (some c.initialConfiguration) hnodes hclient hble
  unfold createInitial
  split_ifs with hi
  · dsimp only
    rw [hcreate]
    refine ⟨_, ?_, rfl⟩
    exact ⟨rfl, hstopped, hclient, hble, hexp⟩
  · exact ⟨c, ⟨rfl, hstopped, hclient, hble, hexp⟩, rfl⟩

theorem createSpare_eq (hc : Initialised i c) : ∃ c', Initialised i c' ∧
      c.createSpare = some (c', [.create 2 []]) := by
  unfold createSpare
  rw [if_pos hc.exp, createReplica_eq 2 none (by simp) hc.client hc.ble, Option.map_some]
  dsimp only
  split_ifs
  · refine ⟨_, ?_, rfl⟩
    exact ⟨hc.pid, hc.stopped, hc.client, hc.ble, hc.exp⟩
  · refine ⟨_, ?_, rfl⟩
    exact ⟨hc.pid, hc.stopped, hc.client, hc.ble, hc.exp⟩

theorem initNode_eq (D : Deployment P) (i : ℕ) : ∃ c : PaxosComp S, Initialised i c ∧
    D.initNode i = some (c, (if i ∈ D.initial then [.create 1 (D.initial.filter (· ≠ i))] else []) ++
      [.create 2 [], .initAck D.iterationId]) := by
  unfold Deployment.initNode PaxosComp.handleInit
  have hc : Initialised i
      { (PaxosComp.new D.initial true D.simulatePartition .ble : PaxosComp S).resetState with
        nodes := D.nodes, pid := i, iterationId := D.iterationId, cachedClient := true } :=
    ⟨rfl, rfl, rfl, rfl, rfl⟩
  obtain ⟨c₁, hc₁, heq₁⟩ := createInitial_eq hc (by exact D.initial_nodes)
  obtain ⟨c₂, hc₂, heq₂⟩ := createSpare_eq hc₁
  refine ⟨c₂, hc₂, ?_⟩
  dsimp only
  rw [heq₁]
  simp only [Option.bind_eq_bind, Option.bind_some, heq₂]
  simp only [Option.pure_def, List.append_assoc]
  rfl

theorem createdPeers_init (D : Deployment P) (k i : ℕ) :
    createdPeers k ((D.initNode (S := S) i).elim [] Prod.snd) =
      if k = 1 ∧ i ∈ D.initial then D.initial.filter (· ≠ i) else [] := by
  obtain ⟨c, -, heq⟩ := initNode_eq (S := S) D i
  rw [heq]
  unfold createdPeers
  by_cases hi : i ∈ D.initial
  · by_cases hk : k = 1
    · subst hk; simp [hi]
    · by_cases hk2 : k = 2
      · subst hk2; simp [hi]
      · simp [hi, hk, Ne.symm hk, Ne.symm hk2]
  · by_cases hk2 : k = 2
    · subst hk2; simp [hi]
    · simp [hi, Ne.symm hk2]

theorem inv_init (D : Deployment P) : Inv D (init D : Shutdown P S) := by
  have hcreated : ∀ k i, createdPeers k ((D.initNode (S := S) i).elim [] Prod.snd) = [] ∨
      i ∈ D.conf k ∧ createdPeers k ((D.initNode (S := S) i).elim [] Prod.snd) =
        (D.conf k).filter (· ≠ i) := by
    intro k i
    rw [createdPeers_init]
    split_ifs with hki
    · obtain ⟨rfl, hi⟩ := hki
      exact Or.inr ⟨hi, rfl⟩
    · exact Or.inl rfl
  have hcomp : ∀ i, Initialised i ((init D : Shutdown P S).comp i) := by
    intro i
    obtain ⟨c, hc, heq⟩ := initNode_eq (S := S) D i
    unfold init
    dsimp only
    rw [heq]
    exact hc
  refine ⟨⟨fun k => Consistent.start (hcreated k) (fun _ => rfl) fun _ _ => rfl, fun k i => Nat.zero_le _⟩,
    ⟨fun k => Consistent.start (hcreated k) (fun _ => rfl) fun i p => ?_, fun k i => Nat.zero_le _,
      fun k i => Nat.zero_le _, fun _ _ => rfl, fun _ _ => rfl⟩, fun i => (hcomp i).pid,
    fun m hm => (nomatch hm), fun i hi _ => ?_⟩
  · rw [replicaGroup_flight]
    split_ifs
    · rfl
    · rfl
  · have hnone := createdPeers_init (S := S) D 2 i
    rw [if_neg (by simp)] at hnone
    exact ⟨hnone, hnone⟩

end Start

/-! ### Runs -/

/-- A component at node `i` has handled no stop twice and none of its own; the stops in `next`, that it
may handle now, are of this kind, too, and it takes them; and its `Stop` ask was answered once if it has
stopped and all of its peers have told it so, and not at all before. -/
structure ComponentRight (i : ℕ) (h : Handshake ℕ) (next takes : ℕ → Prop) : Prop where
  once : h.stoppedPeers.Nodup
  notSelf : i ∉ h.stoppedPeers
  next : ∀ p, next p → p ∉ h.stoppedPeers ∧ p ≠ i ∧ takes p
  answered : h.answers = if h.stopped = true ∧ ∀ p ∈ h.peers, p ∈ h.stoppedPeers then 1 else 0

/-- **No duplicate or self stop**, at any leader election and any replica. -/
def StopsRight [Paxos P S M] (s : Shutdown P S) : Prop := ∀ k i,
  ComponentRight i (s.comps k i).bleHandshake (fun p => .blePeer k i p ∈ s.flight)
      (fun p => ((s.comps k i).ble.handlePeerStop p).isSome) ∧
    ComponentRight i (s.comps k i).replicaHandshake (fun p => .stopMsg k i p ∈ s.flight)
      (fun p => ((s.comps k i).replica.handlePeerStop p : Option (PaxosReplica.Result P S M)).isSome)

section Runs

variable [Paxos P S M]

theorem stopsRight_of_inv (h : Inv D s) : s.StopsRight := by
  intro k i
  constructor
  · refine ⟨(h.ble.group k).nodup_stoppedPeers i, (h.ble.group k).not_mem_self i, fun p hp => ?_,
      ((h.ble.group k).settled i).answers⟩
    have hpos : 0 < (s.bleGroup k).flight i p := List.count_pos_iff.mpr hp
    obtain ⟨hnew, hne, -⟩ := (h.ble.group k).fresh hpos
    obtain ⟨r, hr, -⟩ := bleInv_peerStop h.ble hp
    exact ⟨hnew, hne, by rw [hr]; rfl⟩
  · refine ⟨(h.replica.group k).nodup_stoppedPeers i, (h.replica.group k).not_mem_self i, fun p hp => ?_,
      ((h.replica.group k).settled i).answers⟩
    have hpos : 0 < (s.replicaGroup k).flight i p := by
      have hcount : 0 < s.flight.count (.stopMsg k i p) := List.count_pos_iff.mpr hp
      rw [replicaGroup_flight]
      omega
    obtain ⟨hnew, hne, -⟩ := (h.replica.group k).fresh hpos
    obtain ⟨r, hr, -⟩ := replicaInv_peerStop (M := M) h.replica hp
    exact ⟨hnew, hne, by rw [hr]; rfl⟩

/-- A node that is stopped answers a `ReconfigInit` with a stop to itself, too. -/
theorem not_stopped_of_right [SequenceTraits S] {m : ReconfigInit} (h : Inv D s)
    (hm : .reconfigInit i m ∈ s.flight)
    (ht : (s.without (.reconfigInit i m)).handle (.reconfigInit i m) = some t) (hright : t.StopsRight) :
    (s.comp i).stopped = false := by
  rw [Bool.eq_false_iff]
  intro hstop
  obtain ⟨hnew, hid, hnodes⟩ : Announces 2 D.reconfig i m := h.packets _ hm
  obtain ⟨r, hr, ht⟩ := Option.bind_eq_some_iff.mp ht
  obtain ⟨-, -, hout⟩ := handleReconfigInit_eq (c := s.comp i) hr
  rw [if_pos hstop, hid, hnodes, h.pid i] at hout
  have hsets : ∀ o ∈ r.2, ¬ SetsPeers o := by
    intro o ho
    rw [hout] at ho
    obtain ⟨p, -, rfl⟩ := List.mem_map.mp ho
    exact id
  have hflight := (afterComp_framed hsets ht).flight
  have hmem : .blePeer 2 i i ∈ t.flight := by
    rw [hflight]
    refine List.mem_append_right _ (List.mem_flatMap.mpr ⟨.stopPeer 2 i i, ?_, List.mem_cons_self⟩)
    rw [hout]
    exact List.mem_map.mpr ⟨i, List.mem_append_right _ hnew, rfl⟩
  exact ((hright 2 i).1.next i hmem).2.1 rfl

/-- A node whose components have stopped, and have answered, must have heard from all the peers that it
gives them then. -/
theorem heardFrom_of_right [SequenceTraits S] {finalSequence : S} {leader : Option Leader} {r : After S}
    (h : Inv D s) (hi : i ∈ D.initial) (hfin : i ∉ s.finished) (hstays : i ∈ D.reconfig.continuedNodes)
    (hr : (s.comp i).handleReconfig ⟨2, D.reconfig, finalSequence, leader⟩ = some r)
    (ht : { s with finished := i :: s.finished }.afterComp i r = some t) (hright : t.StopsRight) :
    s.HeardFrom i (D.reconfig.getPeersOf i) := by
  obtain ⟨-, -, rest, hcalm, hout⟩ := handleReconfig_eq hr
  dsimp only at hcalm hout
  rw [h.pid i, if_pos hstays] at hout
  obtain ⟨u, hu, hframed⟩ :=
    afterComp_learned hout (fun o ho => not_setsPeers_of_calm (hcalm o ho)) ht
  have halike := hframed.comps 2 i
  unfold send at halike
  dsimp only at halike
  rw [setComps_comps, if_pos ⟨rfl, rfl⟩] at halike
  have hlearned := hu.trans_alike halike
  obtain ⟨hb, hrep⟩ := h.unfinished i hi hfin
  have hble := (hright 2 i).1.answered
  have hreplica := (hright 2 i).2.answered
  rw [hlearned.ble] at hble
  rw [hlearned.replica] at hreplica
  constructor
  · exact Handshake.heard_of_answered ((h.ble.group 2).settled i) hb hble
  · exact Handshake.heard_of_answered ((h.replica.group 2).settled i) hrep hreplica

variable [SequenceTraits S]

/-- **A step that does not meet `Orderly` leads to a state in which something is wrong.** -/
theorem orderly_of_right {e : ShutdownEvent S M} (h : Inv D s) (ht : s.step D e = some t)
    (hright : t.StopsRight) : Orderly D s e := by
  cases e with
  | clientStop i => trivial
  | reconfig i finalSequence leader =>
    simp only [step] at ht
    split_ifs at ht with hi
    obtain ⟨r, hr, ht⟩ := Option.bind_eq_some_iff.mp ht
    exact fun hstays => heardFrom_of_right h hi.1 hi.2 hstays hr ht hright
  | deliver m =>
    simp only [step] at ht
    split_ifs at ht with hm
    cases m with
    | reconfigInit i r => exact not_stopped_of_right h hm ht hright
    | bleStop k i pid =>
      obtain rfl : pid = i := h.packets _ hm
      simp only [handle] at ht
      split_ifs at ht
      cases ht
      have hans := (hright k pid).1.answered
      rw [afterBle_comps, if_pos ⟨rfl, rfl⟩] at hans
      dsimp only at hans
      rw [(bleHandshake_stop (s.comps k pid) k pid).1] at hans
      exact (h.ble.group k).subset_of_answered (ble_running h.ble hm) hans
    | replicaStop k i ackClient =>
      simp only [handle] at ht
      split_ifs at ht
      cases ht
      have hans := (hright k i).2.answered
      rw [afterReplica_comps, if_pos ⟨rfl, rfl⟩] at hans
      dsimp only at hans
      rw [(replicaHandshake_stop (S := S) (M := M) (s.comps k i) k i ackClient).1] at hans
      exact (h.replica.group k).subset_of_answered (replica_running h.replica hm) hans
    | _ => trivial
  | comp i e => trivial
  | ble k i e => trivial
  | replica k i e => trivial
  | communicator k i e => trivial

/-- **No duplicate or self stop.** In a run from the initial state the stops of all leader elections and
replicas are right in every state just when every step of it is orderly: a node that is stopped handles
no `ReconfigInit`; a node that continues ends its first configuration while the components of the second
have not stopped, or have heard from all who are to be their peers; and a component handles its `Stop`
when it has heard only from its peers. -/
theorem stopsRight_iff (D : Deployment P) {es : List (ShutdownEvent S M)}
    (hrun : (machine D).run (machine D).init es = some t) :
    (machine D).AllStates StopsRight (machine D).init es ↔
      (machine D).AllSteps (Orderly D) (machine D).init es :=
  Machine.allStates_iff_of_run (J := Inv D) (fun _ h => stopsRight_of_inv h)
    (fun _ _ _ h hok hstep => step_inv h hok hstep)
    (fun _ _ _ h hstep hright => orderly_of_right h hstep hright) (inv_init D) hrun

end Runs

/-! ### A node is replaced -/

theorem nodup_three : [1, 2, 3].Nodup := by decide

/-- Nodes 1, 2 and 3, of which node 4 replaces the last. -/
def replaceThird : Deployment LeaderPaxos where
  nodes := 4
  initial := [1, 2, 3]
  next := [1, 2, 4]
  simulatePartition := false
  iterationId := 1
  paxos k i := Paxos.new k i [] none
  initial_nodup := nodup_three
  next_nodup := by decide
  initial_nodes := by decide
  next_nodes := by decide

/-- The `ReconfigInit` of node `p` to node 4; the log of the first configuration has only its stop sign. -/
def joinFrom (p : ℕ) : Packet := .reconfigInit 4 ⟨2, ⟨[1, 2], [4]⟩, ⟨1, 1⟩, p, none⟩

def finalLog : List Entry := [.stopSign ⟨2, [1, 2, 4], none⟩]

/-- Node 4 joins and is stopped; node 1 is told, and is stopped, too. -/
def joinThenStop : List (ShutdownEvent (List Entry) FollowerMsg) :=
  [.comp 1 .run, .comp 2 .run, .comp 3 .run, .reconfig 1 finalLog none, .reconfig 2 finalLog none,
    .deliver (joinFrom 1), .deliver (joinFrom 2), .clientStop 4, .deliver (.bleStop 2 4 4),
    .deliver (.blePeer 2 1 4), .clientStop 1, .deliver (.bleStop 2 1 1), .deliver (.blePeer 2 4 1)]

/-- Node 4 is stopped when the `ReconfigInit`s of the nodes that continue are still on their way. -/
def stopThenJoin : List (ShutdownEvent (List Entry) FollowerMsg) :=
  [.comp 1 .run, .comp 2 .run, .comp 3 .run, .clientStop 4, .deliver (.bleStop 2 4 4),
    .deliver (.replicaStop 2 4 true), .deliver (.sendStop 2 4 4 true), .reconfig 1 finalLog none,
    .reconfig 2 finalLog none, .deliver (joinFrom 1), .deliver (joinFrom 2), .deliver (.blePeer 2 1 4)]

theorem joinThenStop_right : ∃ t, (machine replaceThird).run (machine replaceThird).init joinThenStop =
    some t ∧ (t.comps 2 4).ble.stoppedPeers = [1] ∧ (t.comps 2 1).ble.stoppedPeers = [4] ∧
    (machine replaceThird).AllStates StopsRight (machine replaceThird).init joinThenStop := by
  have horderly : (machine replaceThird).AllSteps (Orderly replaceThird) (machine replaceThird).init
      joinThenStop := by decide
  obtain ⟨t, hrun, h4, h1⟩ : ∃ t, (machine replaceThird).run (machine replaceThird).init joinThenStop =
      some t ∧ (t.comps 2 4).ble.stoppedPeers = [1] ∧ (t.comps 2 1).ble.stoppedPeers = [4] :=
    ⟨_, rfl, by decide, by decide⟩
  exact ⟨t, hrun, h4, h1, (stopsRight_iff replaceThird hrun).mpr horderly⟩

/-- Node 4 has answered both `ReconfigInit`s: its stop has reached the leader election of node 1, and a
second one is on the way, which that cannot handle; another is on the way to node 4 itself. -/
theorem stopThenJoin_twice : ∃ s, (machine replaceThird).Reachable s ∧ (s.comps 2 1).started = true ∧
    .blePeer 2 1 4 ∈ s.flight ∧ 4 ∈ (s.comps 2 1).ble.stoppedPeers ∧
    (s.comps 2 1).ble.handlePeerStop 4 = none ∧ .blePeer 2 4 4 ∈ s.flight ∧ ¬ s.StopsRight := by
  obtain ⟨s, hrun, hstarted, hpeer, hheard, hnone, hself⟩ : ∃ s, (machine replaceThird).run
      (machine replaceThird).init stopThenJoin = some s ∧ (s.comps 2 1).started = true ∧
      .blePeer 2 1 4 ∈ s.flight ∧ 4 ∈ (s.comps 2 1).ble.stoppedPeers ∧
      ((s.comps 2 1).ble.handlePeerStop 4).isNone = true ∧ .blePeer 2 4 4 ∈ s.flight :=
    ⟨_, rfl, by decide, by decide, by decide, by decide, by decide⟩
  refine ⟨s, Machine.reachable_of_run hrun, hstarted, hpeer, hheard, Option.isNone_iff_eq_none.mp hnone,
    hself, fun hright => ?_⟩
  exact ((hright 2 1).1.next 4 hpeer).1 hheard

end Shutdown

end OmniPaxosBench.OmniPaxos
