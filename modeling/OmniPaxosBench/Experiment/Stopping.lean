import OmniPaxosBench.Experiment.Counting
import OmniPaxosBench.Experiment.Finishing
import OmniPaxosBench.Lib.Farewell

/-! # Stopping the clients

After `Stop` a client waits for each of its nodes to stop and then answers. A timer answers for it when
that takes too long, and callbacks that were left with the timer, late answers and proposals that come
back are still handled. `stop_answered_iff` is the exact condition, for both clients and every order of
these events, for one answer and no panic. -/

namespace OmniPaxosBench.Experiment

open OmniPaxosBench.Lib OmniPaxosBench.OmniPaxos

/-! ### The events after `Stop` -/

/-- The answers to the ask. -/
def stopReplies (outs : List ClientOut) : List MetaResults :=
  outs.filterMap fun
    | .replyStop results => some results
    | _ => none

/-- The node that an event says has stopped. -/
def peerOf : ℕ × ClientEvent → Option ℕ
  | (_, .peerStop pid) => some pid
  | _ => none

namespace BaseClient

/-- What may happen after `Stop`: a node has stopped, the kill timer or the timer of a proposal fires, and late
answers and proposals come in. -/
def Late (c : BaseClient) : ClientEvent → Prop
  | .peerStop _ => True
  | .timeout id => ∃ cb, c.timers.callbackOf id = some cb ∧ (cb = .kill ∨ ∃ k, cb = .proposalTimeout k)
  | .message (.proposalResp data _ _) => ∃ id, idOf data = .ok id
  | .message (.proposal p) => ∃ id, idOf p.data = .ok id
  | _ => False

/-- The data carries an id. -/
def decidableIdOf (data : Data) : Decidable (∃ id, idOf data = .ok id) :=
  match h : idOf data with
  | .ok id => isTrue ⟨id, rfl⟩
  | .error _ => isFalse (by simp)

instance (c : BaseClient) : ∀ e, Decidable (c.Late e)
  | .peerStop _ => isTrue trivial
  | .timeout id =>
    match h : c.timers.callbackOf id with
    | some .kill => isTrue ⟨_, h, Or.inl rfl⟩
    | some (.proposalTimeout k) => isTrue ⟨_, h, Or.inr ⟨k, rfl⟩⟩
    | some .reconfigTimeout | some .experimentTimeout | some .warmupDone | some .window | some .recoverPartition
    | some (.disconnectNonLagging _ _ _) | none => isFalse (by simp [Late, h])
  | .message (.proposalResp data _ _) => decidableIdOf data
  | .message (.proposal p) => decidableIdOf p.data
  | .run | .stop | .message (.leader _ _) | .message (.reconfigurationProposal _)
  | .message (.reconfigurationResp _ _ _) => isFalse id

/-- A reconfiguration that was started has ended. -/
def Ready (c : BaseClient) : Prop := c.reconfigStartTs = none ∨ c.reconfigEndTs ≠ none

/-- The answer is given if somebody waits for it and the reconfiguration has ended. -/
theorem replyStopAsk_cases (c : BaseClient) (numWarmupDecided : ℕ) (windowedResults : WindowedResult)
    (longestDownTime : ℕ) :
    (c.stopAsk = true ∧ c.Ready ∧ ∃ results, c.replyStopAsk numWarmupDecided windowedResults longestDownTime =
      .ok ({ c with stopAsk := false, responses := ∅, leaderChanges := [] }, [.replyStop results])) ∨
    (¬ (c.stopAsk = true ∧ c.Ready) ∧ ∃ m, c.replyStopAsk numWarmupDecided windowedResults longestDownTime = .error m) := by
  unfold replyStopAsk
  by_cases hask : c.stopAsk = true
  · rw [if_pos hask]
    split
    · rename_i startTs hstart hend
      refine Or.inr ⟨fun h => ?_, _, rfl⟩
      rcases h.2 with hnone | hsome
      · rw [hstart] at hnone
        cases hnone
      · exact hsome hend
    · rename_i hcases
      refine Or.inl ⟨hask, ?_, _, rfl⟩
      cases hstart : c.reconfigStartTs with
      | none => exact Or.inl hstart
      | some startTs => exact Or.inr fun hend => hcases startTs hstart hend
  · rw [if_neg hask]
    exact Or.inr ⟨fun h => hask h.1, _, rfl⟩

end BaseClient

/-! ### What is common to both clients -/

section Stopping

variable {C : Type} (base : C → BaseClient) (handle : C → ℕ → ClientEvent → Option (Except String (C × List ClientOut)))

/-- A client from `Stop` on, with the answers it has given. A panic ends the run. -/
def stopMachine (init : C) : Machine (C × List MetaResults) (ℕ × ClientEvent) where
  init := (init, [])
  step s e :=
    match handle s.1 e.1 e.2 with
    | some (.ok (t, outs)) => some (t, s.2 ++ stopReplies outs)
    | some (.error _) | none => none

/-- The view of a client that is stopping. -/
def stopView : FarewellView (C × List MetaResults) (ℕ × ClientEvent) ℕ where
  nodes s := (base s.1).nodes
  waiting s := (base s.1).stopAsk = true
  ready s := (base s.1).Ready
  replies s := s.2.length
  peer := peerOf

/-- No proposal is pending after `Stop`. -/
def NonePending (s : C × List MetaResults) : Prop := (base s.1).pendingProposals = ∅

variable {base handle} {init t : C} {s : C × List MetaResults} {e : ℕ × ClientEvent} {outs : List ClientOut}
  {m : String} {rest : List ℕ} {r : Except String (C × List ClientOut)}

theorem step_of_ok (h : handle s.1 e.1 e.2 = some (.ok (t, outs))) :
    (stopMachine handle init).step s e = some (t, s.2 ++ stopReplies outs) := by
  change (match handle s.1 e.1 e.2 with
    | some (.ok (t, outs)) => _
    | some (.error _) | none => _) = _
  rw [h]

theorem step_of_error (h : handle s.1 e.1 e.2 = some (.error m)) : (stopMachine handle init).step s e = none := by
  change (match handle s.1 e.1 e.2 with
    | some (.ok (t, outs)) => _
    | some (.error _) | none => _) = _
  rw [h]

/-- What the answer and the other events leave as it is. -/
structure Kept (b b' : BaseClient) : Prop where
  start : b'.reconfigStartTs = b.reconfigStartTs
  ended : b'.reconfigEndTs = b.reconfigEndTs
  pending : b'.pendingProposals = b.pendingProposals

theorem Kept.ready {b b' : BaseClient} (h : Kept b b') : b'.Ready ↔ b.Ready := by
  unfold BaseClient.Ready
  rw [h.start, h.ended]

/-- A client with other nodes and timers. -/
theorem kept_of_eq {b b' : BaseClient} {nodes : List ℕ} {timers : Timers ClientCallback}
    (h : b' = { b with nodes := nodes, timers := timers }) :
    b'.stopAsk = b.stopAsk ∧ Kept b b' ∧ b'.nodes = nodes := by
  rw [h]
  exact ⟨rfl, ⟨rfl, rfl, rfl⟩, rfl⟩

/-- A handler that answers nothing and keeps the ask. -/
theorem unchanged_of_ok (h : handle s.1 e.1 e.2 = some (.ok (t, outs))) (houts : stopReplies outs = [])
    (hs : NonePending base s) (hask : (base t).stopAsk = (base s.1).stopAsk) (hkept : Kept (base s.1) (base t))
    (hnodes : (base t).nodes = rest) :
    ∃ t', (stopMachine handle init).step s e = some t' ∧ (stopView base).nodes t' = rest ∧
      (stopView base).Unchanged (NonePending base) s t' := by
  refine ⟨_, step_of_ok h, hnodes, ?_, hkept.ready, ?_, hkept.pending.trans hs⟩
  · change (base t).stopAsk = true ↔ (base s.1).stopAsk = true
    rw [hask]
  · change (s.2 ++ stopReplies outs).length = s.2.length
    rw [houts, List.append_nil]

/-- The result of a handler that answers nothing: it keeps the nodes and the ask. -/
def Goes (base : C → BaseClient) (b : BaseClient) (r : Except String (C × List ClientOut)) : Prop :=
  ∃ t outs, r = .ok (t, outs) ∧ stopReplies outs = [] ∧ (base t).stopAsk = b.stopAsk ∧ Kept b (base t) ∧
    (base t).nodes = b.nodes

/-- The timers do not matter for that. -/
theorem Goes.of_timers {b : BaseClient} {timers : Timers ClientCallback}
    (h : Goes base { b with timers := timers } r) : Goes base b r := by
  obtain ⟨t, outs, rfl, houts, hask, hkept, hnodes⟩ := h
  exact ⟨t, outs, rfl, houts, hask, ⟨hkept.start, hkept.ended, hkept.pending⟩, hnodes⟩

theorem unchanged_of_goes (h : handle s.1 e.1 e.2 = some r) (hr : Goes base (base s.1) r)
    (hs : NonePending base s) :
    ∃ t', (stopMachine handle init).step s e = some t' ∧ (stopView base).nodes t' = (stopView base).nodes s ∧
      (stopView base).Unchanged (NonePending base) s t' := by
  obtain ⟨t, outs, rfl, houts, hask, hkept, hnodes⟩ := hr
  exact unchanged_of_ok h houts hs hask hkept hnodes

/-- What `reply_stop_ask` does: it answers the ask, or panics. -/
def Replies (base : C → BaseClient) (b : BaseClient) (r : Except String (C × List ClientOut)) : Prop :=
  (b.stopAsk = true ∧ b.Ready ∧ ∃ t results, r = .ok (t, [.replyStop results]) ∧ (base t).nodes = b.nodes ∧
    (base t).stopAsk = false ∧ (base t).pendingProposals = b.pendingProposals) ∨
  (¬ (b.stopAsk = true ∧ b.Ready) ∧ ∃ m, r = .error m)

/-- A handler that ends with `reply_stop_ask`. -/
theorem reply_of_replies {b : BaseClient} (h : handle s.1 e.1 e.2 = some r) (hr : Replies base b r)
    (hs : NonePending base s) (hask : b.stopAsk = (base s.1).stopAsk) (hkept : Kept (base s.1) b)
    (hnodes : b.nodes = rest) : (stopView base).Reply (stopMachine handle init) (NonePending base) s e rest := by
  rcases hr with ⟨hwait, hready, t, results, rfl, hn, hnone, hp⟩ | ⟨hbad, m, rfl⟩
  · refine Or.inl ⟨hask.symm.trans hwait, hkept.ready.mp hready, _, step_of_ok h, hn.trans hnodes, ?_, ?_,
      hp.trans (hkept.pending.trans hs)⟩
    · exact fun hc => Bool.false_ne_true (hnone.symm.trans hc)
    · exact List.length_append
  · exact Or.inr ⟨fun hc => hbad ⟨hask.trans hc.1, hkept.ready.mpr hc.2⟩, step_of_error h⟩

theorem erase_eq_nil_iff {l : List ℕ} {pid : ℕ} (hmem : pid ∈ l) : l.erase pid = [] ↔ l = [pid] := by
  refine ⟨fun hnil => ?_, fun h => by rw [h, List.erase_cons_head]⟩
  by_contra hne
  exact Farewell.erase_ne_nil hmem hne hnil

/-- The result of a handler that goes on just if `p` holds. -/
def GoesIf (base : C → BaseClient) (p : Prop) (b : BaseClient) (r : Except String (C × List ClientOut)) : Prop :=
  (p ∧ Goes base b r) ∨ (¬ p ∧ ∃ m, r = .error m)

theorem GoesIf.of_timers {p : Prop} {b : BaseClient} {timers : Timers ClientCallback}
    (h : GoesIf base p { b with timers := timers } r) : GoesIf base p b r :=
  h.imp_left fun h => ⟨h.1, h.2.of_timers⟩

theorem GoesIf.congr {p q : Prop} {b : BaseClient} (h : GoesIf base p b r) (hpq : p ↔ q) : GoesIf base q b r :=
  h.imp (fun h => ⟨hpq.mp h.1, h.2⟩) fun h => ⟨fun hq => h.1 (hpq.mpr hq), h.2⟩

/-- Nothing happens. -/
theorem goes_same (c : C) : Goes base (base c) (.ok (c, [])) := ⟨c, [], rfl, rfl, rfl, ⟨rfl, rfl, rfl⟩, rfl⟩

variable (base) in
/-- Proposing again works just if the leader is there. -/
theorem goesIf_retry (b : BaseClient) (id : ℕ) {f : ClientOut → Except String (C × List ClientOut)}
    (hf : ∀ node, Goes base b (f (.proposal .retry node id))) :
    GoesIf base (b.currentLeader ∈ b.nodes) b (b.proposeNormal .retry id >>= f) := by
  unfold BaseClient.proposeNormal
  by_cases hleader : b.currentLeader ∈ b.nodes
  · rw [if_pos hleader]
    exact Or.inl ⟨hleader, hf b.currentLeader⟩
  · rw [if_neg hleader]
    exact Or.inr ⟨hleader, _, rfl⟩

/-- The handlers of the events after `Stop`. A proposal may be proposed again if `mayRetry`, and an answer to
it may come if `mayAnswer`. -/
structure LateHandlers (base : C → BaseClient)
    (handle : C → ℕ → ClientEvent → Option (Except String (C × List ClientOut))) (mayRetry mayAnswer : C → ℕ → Prop) :
    Prop where
  peerStop : ∀ c now pid, pid ∈ (base c).nodes → ∃ d r, handle c now (.peerStop pid) = some r ∧
    base d = { base c with nodes := (base c).nodes.erase pid } ∧
      (((base d).nodes = [] ∧ Replies base (base d) r) ∨ ((base d).nodes ≠ [] ∧ r = .ok (d, [])))
  kill : ∀ c now timerId, (base c).timers.callbackOf timerId = some .kill → ∃ d r,
    handle c now (.timeout timerId) = some r ∧
      base d = { base c with timers := (base c).timers.remove timerId } ∧
      (((base c).nodes = [] ∧ r = .ok (d, [])) ∨ ((base c).nodes ≠ [] ∧ Replies base (base d) r))
  proposalTimeout : ∀ c now timerId id, (base c).timers.callbackOf timerId = some (.proposalTimeout id) → ∃ r,
    handle c now (.timeout timerId) = some r ∧ GoesIf base (mayRetry c id) (base c) r
  proposal : ∀ c now p id, idOf p.data = .ok id → ∃ r, handle c now (.message (.proposal p)) = some r ∧
    GoesIf base (mayRetry c id) (base c) r
  proposalResp : ∀ c now data latestLeader leaderRound id, (base c).pendingProposals = ∅ → idOf data = .ok id →
    ∃ r, handle c now (.message (.proposalResp data latestLeader leaderRound)) = some r ∧
      GoesIf base (mayAnswer c id) (base c) r

/-- The kill timer fires when all nodes have stopped, and what comes in may be handled. -/
def SafeLate (base : C → BaseClient) (mayRetry mayAnswer : C → ℕ → Prop) (c : C) : ClientEvent → Prop
  | .timeout timerId =>
    match (base c).timers.callbackOf timerId with
    | some .kill => (base c).nodes = []
    | some (.proposalTimeout id) => mayRetry c id
    | _ => True
  | .message (.proposal p) => ∀ id, idOf p.data = .ok id → mayRetry c id
  | .message (.proposalResp data _ _) => ∀ id, idOf data = .ok id → mayAnswer c id
  | _ => True

variable {mayRetry mayAnswer : C → ℕ → Prop}

/-- A condition on the id that the data carries. -/
def decidableForallIdOf (data : Data) {q : ℕ → Prop} [DecidablePred q] :
    Decidable (∀ id, idOf data = .ok id → q id) :=
  match h : idOf data with
  | .ok id => decidable_of_iff (q id) (by simp)
  | .error _ => isTrue (by simp)

instance [∀ c id, Decidable (mayRetry c id)] [∀ c id, Decidable (mayAnswer c id)] (c : C) :
    ∀ e, Decidable (SafeLate base mayRetry mayAnswer c e)
  | .timeout timerId =>
    match h : (base c).timers.callbackOf timerId with
    | some .kill => decidable_of_iff ((base c).nodes = []) (by simp [SafeLate, h])
    | some (.proposalTimeout id) => decidable_of_iff (mayRetry c id) (by simp [SafeLate, h])
    | some .reconfigTimeout | some .experimentTimeout | some .warmupDone | some .window | some .recoverPartition
    | some (.disconnectNonLagging _ _ _) | none => isTrue (by simp [SafeLate, h])
  | .message (.proposal p) => decidableForallIdOf p.data
  | .message (.proposalResp data _ _) => decidableForallIdOf data
  | .run | .stop | .peerStop _ | .message (.leader _ _) | .message (.reconfigurationProposal _)
  | .message (.reconfigurationResp _ _ _) => isTrue trivial

/-- An event whose handler goes on just if the event is safe. -/
theorem other_of_goesIf {p : Prop} (h : handle s.1 e.1 e.2 = some r) (hr : GoesIf base p (base s.1) r)
    (hs : NonePending base s) (hsafe : SafeLate base mayRetry mayAnswer s.1 e.2 ↔ p) :
    (SafeLate base mayRetry mayAnswer s.1 e.2 ∧ ∃ t, (stopMachine handle init).step s e = some t ∧
        (stopView base).nodes t = (stopView base).nodes s ∧ (stopView base).Unchanged (NonePending base) s t) ∨
      (¬ SafeLate base mayRetry mayAnswer s.1 e.2 ∧ (stopMachine handle init).step s e = none) ∨
      (¬ SafeLate base mayRetry mayAnswer s.1 e.2 ∧ (stopView base).nodes s ≠ [] ∧
        (stopView base).Reply (stopMachine handle init) (NonePending base) s e ((stopView base).nodes s)) := by
  rcases hr with ⟨hp, hgoes⟩ | ⟨hp, m, rfl⟩
  · exact Or.inl ⟨hsafe.mpr hp, unchanged_of_goes h hgoes hs⟩
  · exact Or.inr (Or.inl ⟨fun hc => hp (hsafe.mp hc), step_of_error h⟩)

theorem forall_idOf_iff {data : Data} {id : ℕ} {q : ℕ → Prop} (hid : idOf data = .ok id) :
    (∀ id, idOf data = .ok id → q id) ↔ q id :=
  ⟨fun h => h id hid, fun h _ hid' => Except.ok.inj (hid.symm.trans hid') ▸ h⟩

/-- **The events after `Stop`** are those of a good-bye. -/
theorem LateHandlers.farewell (h : LateHandlers base handle mayRetry mayAnswer) :
    Farewell (stopView base) (stopMachine handle init) (NonePending base) (fun s e => (base s.1).Late e.2)
      (fun s e => SafeLate base mayRetry mayAnswer s.1 e.2) where
  peer := by
    rintro s ⟨now, e⟩ pid hs hpeer hmem
    cases e with
    | peerStop pid' =>
      cases hpeer
      refine ⟨trivial, ?_⟩
      obtain ⟨d, r, hhandle, hd, hr⟩ := h.peerStop s.1 now pid hmem
      obtain ⟨hask, hkept, hnodes⟩ := kept_of_eq hd
      have hlast_iff : (base s.1).nodes.erase pid = [] ↔ (base s.1).nodes = [pid] := erase_eq_nil_iff hmem
      rw [hnodes, ne_eq, hlast_iff] at hr
      rcases hr with ⟨hlast, hreplies⟩ | ⟨hmore, rfl⟩
      · have hempty : (base d).nodes = [] := hnodes.trans (hlast_iff.mpr hlast)
        exact Or.inl ⟨hlast, reply_of_replies hhandle hreplies hs hask hkept hempty⟩
      · exact Or.inr ⟨hmore, unchanged_of_ok hhandle rfl hs hask hkept hnodes⟩
    | run => cases hpeer
    | stop => cases hpeer
    | message m => cases hpeer
    | timeout id => cases hpeer
  other := by
    rintro s ⟨now, e⟩ hs hlate hpeer
    cases e with
    | run => exact hlate.elim
    | stop => exact hlate.elim
    | peerStop pid => cases hpeer
    | timeout timerId =>
      obtain ⟨cb, hcb, rfl | ⟨id, rfl⟩⟩ := hlate
      · have hsafe : SafeLate base mayRetry mayAnswer s.1 (.timeout timerId) ↔ (base s.1).nodes = [] := by
          dsimp only [SafeLate]
          rw [hcb]
        obtain ⟨d, r, hhandle, hd, hr⟩ := h.kill s.1 now timerId hcb
        obtain ⟨hask, hkept, hsame⟩ := kept_of_eq hd
        rcases hr with ⟨hnodes, rfl⟩ | ⟨hnodes, hreplies⟩
        · exact Or.inl ⟨hsafe.mpr hnodes, unchanged_of_ok hhandle rfl hs hask hkept hsame⟩
        · exact Or.inr (Or.inr ⟨fun hc => hnodes (hsafe.mp hc), hnodes,
            reply_of_replies hhandle hreplies hs hask hkept hsame⟩)
      · obtain ⟨r, hhandle, hr⟩ := h.proposalTimeout s.1 now timerId id hcb
        refine other_of_goesIf hhandle hr hs ?_
        dsimp only [SafeLate]
        rw [hcb]
    | message m =>
      cases m with
      | leader pid round => exact hlate.elim
      | reconfigurationProposal rp => exact hlate.elim
      | reconfigurationResp latestLeader leaderRound currentConfiguration => exact hlate.elim
      | proposalResp data latestLeader leaderRound =>
        obtain ⟨id, hid⟩ := hlate
        obtain ⟨r, hhandle, hr⟩ := h.proposalResp s.1 now data latestLeader leaderRound id hs hid
        exact other_of_goesIf hhandle hr hs (forall_idOf_iff hid)
      | proposal p =>
        obtain ⟨id, hid⟩ := hlate
        obtain ⟨r, hhandle, hr⟩ := h.proposal s.1 now p id hid
        exact other_of_goesIf hhandle hr hs (forall_idOf_iff hid)

end Stopping

/-! ### The client -/

namespace Client

/-- The client from `Stop` on. -/
def stopping (c : Client) : Machine (Client × List MetaResults) (ℕ × ClientEvent) :=
  stopMachine handle { c with toBaseClient := c.toBaseClient.handleStop.1 }

/-- All events are handled, none with a panic, and the ask is answered once. -/
def AnsweredOnce (c : Client) (es : List (ℕ × ClientEvent)) : Prop :=
  ∃ s, c.stopping.run c.stopping.init es = some s ∧ s.2.length = 1

/-- The proposal is not proposed again, or the leader is still there. -/
def MayRetry (c : Client) (id : ℕ) : Prop := id ∈ c.responses ∨ c.state ≠ .running ∨ c.currentLeader ∈ c.nodes

instance (c : Client) (id : ℕ) : Decidable (c.MayRetry id) := inferInstanceAs (Decidable (_ ∨ _))

variable {c : Client} {now : ℕ}

theorem replies_replyStopAsk (c : Client) : Replies toBaseClient c.toBaseClient c.replyStopAsk := by
  unfold replyStopAsk
  rcases c.toBaseClient.replyStopAsk_cases c.warmupDecided c.windowedResult (c.longestDownTime.getD 0) with
    ⟨hwait, hready, results, hok⟩ | ⟨hbad, m, herr⟩
  · rw [hok]
    exact Or.inl ⟨hwait, hready, _, results, rfl, rfl, rfl, rfl⟩
  · rw [herr]
    exact Or.inr ⟨hbad, m, rfl⟩

theorem proposalTimeout_eq (c : Client) (id : ℕ) : c.proposalTimeout id =
    if id ∈ c.responses then .ok (c, [])
    else if c.state = .running then
      c.proposeNormal .retry id >>= fun out => .ok ({ c with
        numTimedOut := c.numTimedOut + 1, timers := c.timers.schedule (.proposalTimeout id) }, [out])
    else .ok ({ c with numTimedOut := c.numTimedOut + 1 }, []) := rfl

/-- The timer of a proposal. -/
theorem proposalTimeout_goesIf (c : Client) (id : ℕ) :
    GoesIf toBaseClient (c.MayRetry id) c.toBaseClient (c.proposalTimeout id) := by
  rw [proposalTimeout_eq]
  split_ifs with hanswered hrunning
  · exact Or.inl ⟨Or.inl hanswered, goes_same c⟩
  · have hmay : c.MayRetry id ↔ c.currentLeader ∈ c.nodes :=
      (or_iff_right hanswered).trans (or_iff_right (not_not_intro hrunning))
    refine GoesIf.congr (goesIf_retry toBaseClient c.toBaseClient id fun node => ?_) hmay.symm
    exact ⟨_, _, rfl, rfl, rfl, ⟨rfl, rfl, rfl⟩, rfl⟩
  · exact Or.inl ⟨Or.inr (Or.inl hrunning), _, _, rfl, rfl, rfl, ⟨rfl, rfl, rfl⟩, rfl⟩

theorem handleProposal_eq {data : Data} {id : ℕ} (hid : idOf data = .ok id) : c.handleProposal data =
    if id ∉ c.responses ∧ c.state = .running then
      c.proposeNormal .retry id >>= fun out => .ok ({ c with numRetried := c.numRetried + 1 }, [out])
    else .ok (c, []) := by
  unfold handleProposal
  rw [hid]
  rfl

/-- A proposal that comes back. -/
theorem handleProposal_goesIf {data : Data} {id : ℕ} (hid : idOf data = .ok id) :
    GoesIf toBaseClient (c.MayRetry id) c.toBaseClient (c.handleProposal data) := by
  rw [handleProposal_eq hid]
  split_ifs with hagain
  · have hmay : c.MayRetry id ↔ c.currentLeader ∈ c.nodes :=
      (or_iff_right hagain.1).trans (or_iff_right (not_not_intro hagain.2))
    refine GoesIf.congr (goesIf_retry toBaseClient c.toBaseClient id fun node => ?_) hmay.symm
    exact ⟨_, _, rfl, rfl, rfl, ⟨rfl, rfl, rfl⟩, rfl⟩
  · refine Or.inl ⟨?_, goes_same c⟩
    by_cases hanswered : id ∈ c.responses
    · exact Or.inl hanswered
    · exact Or.inr (Or.inl fun hrunning => hagain ⟨hanswered, hrunning⟩)

/-- A late answer finds no pending proposal. -/
theorem handleProposalResp_goes {data : Data} {id latestLeader leaderRound : ℕ} (hid : idOf data = .ok id)
    (hpending : c.pendingProposals = ∅) :
    Goes toBaseClient c.toBaseClient (c.handleProposalResp now data latestLeader leaderRound) := by
  unfold handleProposalResp
  split_ifs
  · exact goes_same c
  · rw [hid, hpending]
    exact goes_same c

theorem lateHandlers : LateHandlers toBaseClient handle MayRetry (fun _ _ => True) where
  peerStop c now pid hmem := by
    refine ⟨{ c with nodes := c.nodes.erase pid }, _, rfl, rfl, ?_⟩
    unfold handlePeerStop
    rw [if_pos hmem]
    dsimp only
    split_ifs with hlast
    · exact Or.inl ⟨hlast, replies_replyStopAsk { c with nodes := c.nodes.erase pid }⟩
    · exact Or.inr ⟨hlast, rfl⟩
  kill c now timerId hcb := by
    refine ⟨{ c with timers := c.timers.remove timerId },
      { c with timers := c.timers.remove timerId }.runCallback now .kill, ?_, rfl, ?_⟩
    · change (c.timers.callbackOf timerId).map _ = _
      rw [hcb]
      rfl
    · unfold runCallback
      dsimp only
      split_ifs with hnodes
      · exact Or.inl ⟨hnodes, rfl⟩
      · exact Or.inr ⟨hnodes, replies_replyStopAsk { c with timers := c.timers.remove timerId }⟩
  proposalTimeout c now timerId id hcb := by
    refine ⟨{ c with timers := c.timers.remove timerId }.proposalTimeout id, ?_, ?_⟩
    · change (c.timers.callbackOf timerId).map _ = _
      rw [hcb]
      rfl
    · exact (proposalTimeout_goesIf { c with timers := c.timers.remove timerId } id).of_timers
  proposal c now p id hid := ⟨_, rfl, handleProposal_goesIf hid⟩
  proposalResp c now data latestLeader leaderRound id hpending hid :=
    ⟨_, rfl, Or.inl ⟨trivial, handleProposalResp_goes hid hpending⟩⟩

end Client

/-! ### The client of the reconfiguration experiment -/

namespace ReconfigurationClient

/-- The client from `Stop` on. -/
def stopping (c : ReconfigurationClient) : Machine (ReconfigurationClient × List MetaResults) (ℕ × ClientEvent) :=
  stopMachine handle { c with toBaseClient := c.toBaseClient.handleStop.1 }

/-- All events are handled, none with a panic, and the ask is answered once. -/
def AnsweredOnce (c : ReconfigurationClient) (es : List (ℕ × ClientEvent)) : Prop :=
  ∃ s, c.stopping.run c.stopping.init es = some s ∧ s.2.length = 1

/-- The proposal is not proposed again, or the leader is still there. -/
def MayRetry (c : ReconfigurationClient) (id : ℕ) : Prop := id ∈ c.responses ∨ c.currentLeader ∈ c.nodes

/-- In a debug build: the answer is not counted as one to a preloaded proposal, or there is one to count. -/
def MayAnswer (c : ReconfigurationClient) (id : ℕ) : Prop :=
  c.build = .debug → id ≤ c.numPreloadedProposals → c.state = .setup → c.remPreloadedProposals ≠ 0

instance (c : ReconfigurationClient) (id : ℕ) : Decidable (c.MayRetry id) := inferInstanceAs (Decidable (_ ∨ _))

instance (c : ReconfigurationClient) (id : ℕ) : Decidable (c.MayAnswer id) := inferInstanceAs (Decidable (_ → _))

variable {c : ReconfigurationClient} {now : ℕ}

theorem replies_replyStopAsk (c : ReconfigurationClient) : Replies toBaseClient c.toBaseClient c.replyStopAsk := by
  unfold replyStopAsk
  rcases c.toBaseClient.replyStopAsk_cases 0 ⟨0, c.windows⟩ 0 with
    ⟨hwait, hready, results, hok⟩ | ⟨hbad, m, herr⟩
  · rw [hok]
    exact Or.inl ⟨hwait, hready, _, results, rfl, rfl, rfl, rfl⟩
  · rw [herr]
    exact Or.inr ⟨hbad, m, rfl⟩

theorem proposalTimeout_eq (c : ReconfigurationClient) (id : ℕ) : c.proposalTimeout id =
    if id ∈ c.responses then .ok (c, [])
    else c.proposeNormal .retry id >>= fun out => .ok ({ c with
      numTimedOut := c.numTimedOut + 1, timers := c.timers.schedule (.proposalTimeout id) }, [out]) := rfl

/-- The timer of a proposal. -/
theorem proposalTimeout_goesIf (c : ReconfigurationClient) (id : ℕ) :
    GoesIf toBaseClient (c.MayRetry id) c.toBaseClient (c.proposalTimeout id) := by
  rw [proposalTimeout_eq]
  split_ifs with hanswered
  · exact Or.inl ⟨Or.inl hanswered, goes_same c⟩
  · refine GoesIf.congr (goesIf_retry toBaseClient c.toBaseClient id fun node => ?_) (or_iff_right hanswered).symm
    exact ⟨_, _, rfl, rfl, rfl, ⟨rfl, rfl, rfl⟩, rfl⟩

theorem handleProposal_eq {data : Data} {id : ℕ} (hid : idOf data = .ok id) : c.handleProposal data =
    if id ∉ c.responses then
      c.proposeNormal .retry id >>= fun out => .ok ({ c with numRetried := c.numRetried + 1 }, [out])
    else .ok (c, []) := by
  unfold handleProposal
  rw [hid]
  rfl

/-- A proposal that comes back. -/
theorem handleProposal_goesIf {data : Data} {id : ℕ} (hid : idOf data = .ok id) :
    GoesIf toBaseClient (c.MayRetry id) c.toBaseClient (c.handleProposal data) := by
  rw [handleProposal_eq hid]
  split_ifs with hanswered
  · exact Or.inl ⟨Or.inl hanswered, goes_same c⟩
  · refine GoesIf.congr (goesIf_retry toBaseClient c.toBaseClient id fun node => ?_) (or_iff_right hanswered).symm
    exact ⟨_, _, rfl, rfl, rfl, ⟨rfl, rfl, rfl⟩, rfl⟩

/-- A late answer that is counted as one to a preloaded proposal. -/
theorem handlePreloadedResp_goesIf {id : ℕ} (hid : id ≤ c.numPreloadedProposals) (hsetup : c.state = .setup)
    (latestLeader leaderRound : ℕ) :
    GoesIf toBaseClient (c.MayAnswer id) c.toBaseClient (c.handlePreloadedResp latestLeader leaderRound) := by
  have hgoes : ∀ {n}, c.build.sub 64 c.remPreloadedProposals 1 = .ok n →
      Goes toBaseClient c.toBaseClient (c.handlePreloadedResp latestLeader leaderRound) := fun hsub =>
    ⟨_, _, handlePreloadedResp_of_sub hsub, rfl, rfl, ⟨rfl, rfl, rfl⟩, rfl⟩
  rcases Nat.eq_zero_or_pos c.remPreloadedProposals with hzero | hpos
  · rcases Build.sub_of_lt c.build 64 (Nat.lt_one_iff.mpr hzero) (by decide) with
      ⟨hdebug, hover⟩ | ⟨hrelease, n, hwrap, -⟩
    · refine Or.inr ⟨fun h => h hdebug hid hsetup hzero, "attempt to subtract with overflow", ?_⟩
      unfold handlePreloadedResp
      rw [hover]
      rfl
    · exact Or.inl ⟨fun hdebug => (nomatch hrelease.symm.trans hdebug), hgoes hwrap⟩
  · exact Or.inl ⟨fun _ _ _ => hpos.ne', hgoes (Build.sub_eq hpos)⟩

/-- A late answer finds no pending proposal, but may be one to a preloaded proposal. -/
theorem handleProposalResp_goesIf {data : Data} {id latestLeader leaderRound : ℕ} (hid : idOf data = .ok id)
    (hpending : c.pendingProposals = ∅) :
    GoesIf toBaseClient (c.MayAnswer id) c.toBaseClient (c.handleProposalResp now data latestLeader leaderRound) := by
  by_cases hfin : c.state = .finished
  · unfold handleProposalResp
    rw [if_pos hfin]
    refine Or.inl ⟨fun _ _ hsetup => ?_, goes_same c⟩
    rw [hfin] at hsetup
    cases hsetup
  · rw [handleProposalResp_of_none latestLeader leaderRound hfin hid (by rw [hpending, Finmap.lookup_empty])]
    split_ifs with hpre
    · exact handlePreloadedResp_goesIf hpre.1 hpre.2 latestLeader leaderRound
    · exact Or.inl ⟨fun _ hle hsetup => absurd ⟨hle, hsetup⟩ hpre, goes_same c⟩

theorem lateHandlers : LateHandlers toBaseClient handle MayRetry MayAnswer where
  peerStop c now pid hmem := by
    refine ⟨{ c with nodes := c.nodes.erase pid }, _, rfl, rfl, ?_⟩
    unfold handlePeerStop
    rw [if_pos hmem]
    dsimp only
    split_ifs with hlast
    · exact Or.inl ⟨hlast, replies_replyStopAsk { c with nodes := c.nodes.erase pid }⟩
    · exact Or.inr ⟨hlast, rfl⟩
  kill c now timerId hcb := by
    refine ⟨{ c with timers := c.timers.remove timerId },
      if c.nodes = [] then .ok ({ c with timers := c.timers.remove timerId }, [])
      else { c with timers := c.timers.remove timerId }.replyStopAsk, ?_, rfl, ?_⟩
    · change (c.timers.callbackOf timerId).bind _ = _
      rw [hcb]
      rfl
    · split_ifs with hnodes
      · exact Or.inl ⟨hnodes, rfl⟩
      · exact Or.inr ⟨hnodes, replies_replyStopAsk { c with timers := c.timers.remove timerId }⟩
  proposalTimeout c now timerId id hcb := by
    refine ⟨{ c with timers := c.timers.remove timerId }.proposalTimeout id, ?_, ?_⟩
    · change (c.timers.callbackOf timerId).bind _ = _
      rw [hcb]
      rfl
    · exact (proposalTimeout_goesIf { c with timers := c.timers.remove timerId } id).of_timers
  proposal c now p id hid := ⟨_, rfl, handleProposal_goesIf hid⟩
  proposalResp c now data latestLeader leaderRound id hpending hid := ⟨_, rfl, handleProposalResp_goesIf hid hpending⟩

end ReconfigurationClient

/-! ### Both clients -/

/-- **The exact condition for one answer and no panic after `Stop`**, for both clients, every state at
`Stop`, and every order of the events in which each node stops once: the reconfiguration has ended, if one
was started, and every event is safe where it happens. A release build asks nothing of the late answers. -/
theorem stop_answered_iff {c : Client} {r : ReconfigurationClient} {es fs : List (ℕ × ClientEvent)}
    (hc : c.nodes ≠ []) (hes : (es.filterMap peerOf).Perm c.nodes)
    (hces : c.stopping.AllSteps (fun s e => s.1.Late e.2) c.stopping.init es)
    (hr : r.nodes ≠ []) (hfs : (fs.filterMap peerOf).Perm r.nodes)
    (hrfs : r.stopping.AllSteps (fun s e => s.1.Late e.2) r.stopping.init fs) :
    (c.AnsweredOnce es ↔ c.Ready ∧ c.stopping.AllSteps
      (fun s e => SafeLate Client.toBaseClient Client.MayRetry (fun _ _ => True) s.1 e.2) c.stopping.init es) ∧
    (r.AnsweredOnce fs ↔ r.Ready ∧ r.stopping.AllSteps
      (fun s e => SafeLate ReconfigurationClient.toBaseClient ReconfigurationClient.MayRetry
        ReconfigurationClient.MayAnswer s.1 e.2) r.stopping.init fs) :=
  ⟨Client.lateHandlers.farewell.answered_once_iff rfl rfl hc hes hces,
    ReconfigurationClient.lateHandlers.farewell.answered_once_iff rfl rfl hr hfs hrfs⟩

/-- A client that is stopped while a proposal is in flight: the proposal is retried, the nodes stop one after
the other, and then the kill timer fires. -/
def stoppedEarly : Client :=
  { Client.new .release [1, 2] 1 [1, 2] .fullyConnected none with
    state := .running
    currentLeader := 1
    latestProposalId := 1
    timers := Timers.empty.schedule (.proposalTimeout 1) }

def stoppedEarlyReconfig : ReconfigurationClient :=
  { ReconfigurationClient.new .release [1, 2] 1 1 [1, 2] none 0 with
    state := .running
    currentLeader := 1
    latestProposalId := 1
    timers := Timers.empty.schedule (.proposalTimeout 1) }

def orderlyStop : List (ℕ × ClientEvent) :=
  [(0, .timeout 0), (1, .peerStop 2), (2, .message (.proposalResp (createRawProposal 1) 1 1)),
    (3, .message (.proposal ⟨createRawProposal 1⟩)), (4, .peerStop 1), (5, .timeout 1)]

theorem orderlyStop_answeredOnce :
    stoppedEarly.AnsweredOnce orderlyStop ∧ stoppedEarlyReconfig.AnsweredOnce orderlyStop := by
  obtain ⟨hc, hr⟩ := stop_answered_iff (c := stoppedEarly) (r := stoppedEarlyReconfig)
    (by decide) (by decide : (orderlyStop.filterMap peerOf).Perm [1, 2]) (by decide +kernel)
    (by decide) (by decide : (orderlyStop.filterMap peerOf).Perm [1, 2]) (by decide +kernel)
  exact ⟨hc.mpr ⟨Or.inl rfl, by decide +kernel⟩, hr.mpr ⟨Or.inl rfl, by decide +kernel⟩⟩

/-- A run that does not get through answers nothing once. -/
theorem not_answeredOnce {C : Type} {M : Machine (C × List MetaResults) (ℕ × ClientEvent)}
    {es : List (ℕ × ClientEvent)} (h : (M.run M.init es).isNone = true) :
    ¬ ∃ s, M.run M.init es = some s ∧ s.2.length = 1 := by
  rintro ⟨s, hs, -⟩
  rw [hs] at h
  cases h

/-- Two experiments that end regularly. After `Stop` the kill timer of the first client answers for its node,
whose word then finds nobody to answer. The second client has retried its proposal before the answer, so a
timer is left that proposes it again when the node has gone. -/
theorem stop_panics :
    (∃ s, (Client.observed (.new .release [1] 1 [1] .fullyConnected none)).run
        ⟨.new .release [1] 1 [1] .fullyConnected none, [], []⟩ [(0, .message (.leader 1 1)), (1, .run), (2, .timeout 2)] =
          some s ∧
      s.client.state = .finished ∧ s.client.nodes = [1] ∧
      s.client.stopping.AllSteps (fun s e => s.1.Late e.2) s.client.stopping.init [(3, .timeout 3), (4, .peerStop 1)] ∧
      ¬ s.client.AnsweredOnce [(3, .timeout 3), (4, .peerStop 1)]) ∧
    ∃ s, (ReconfigurationClient.observed (.new .release [1] 1 1 [1] none 0)).run ⟨.new .release [1] 1 1 [1] none 0, [], ∅, false⟩
        [(0, .message (.leader 1 1)), (1, .run), (2, .timeout 1),
          (3, .message (.proposalResp (createRawProposal 1) 1 1))] = some s ∧
      s.client.state = .finished ∧ s.client.nodes = [1] ∧
      s.client.stopping.AllSteps (fun s e => s.1.Late e.2) s.client.stopping.init [(4, .peerStop 1), (5, .timeout 2)] ∧
      ¬ s.client.AnsweredOnce [(4, .peerStop 1), (5, .timeout 2)] := by
  constructor
  · have hend : ((Client.observed (.new .release [1] 1 [1] .fullyConnected none)).run
        ⟨.new .release [1] 1 [1] .fullyConnected none, [], []⟩
        [(0, .message (.leader 1 1)), (1, .run), (2, .timeout 2)]).map (fun s =>
          (s.client.state, s.client.nodes,
            decide (s.client.stopping.AllSteps (fun s e => s.1.Late e.2) s.client.stopping.init
              [(3, .timeout 3), (4, .peerStop 1)]),
            (s.client.stopping.run s.client.stopping.init [(3, .timeout 3), (4, .peerStop 1)]).isNone)) =
        some (.finished, [1], true, true) := by
      decide +kernel
    obtain ⟨s, hrun, hs⟩ := Option.map_eq_some_iff.mp hend
    simp only [Prod.mk.injEq, decide_eq_true_eq] at hs
    exact ⟨s, hrun, hs.1, hs.2.1, hs.2.2.1, not_answeredOnce hs.2.2.2⟩
  · have hend : ((ReconfigurationClient.observed (.new .release [1] 1 1 [1] none 0)).run
        ⟨.new .release [1] 1 1 [1] none 0, [], ∅, false⟩
        [(0, .message (.leader 1 1)), (1, .run), (2, .timeout 1),
          (3, .message (.proposalResp (createRawProposal 1) 1 1))]).map (fun s =>
          (s.client.state, s.client.nodes,
            decide (s.client.stopping.AllSteps (fun s e => s.1.Late e.2) s.client.stopping.init
              [(4, .peerStop 1), (5, .timeout 2)]),
            (s.client.stopping.run s.client.stopping.init [(4, .peerStop 1), (5, .timeout 2)]).isNone)) =
        some (.finished, [1], true, true) := by
      decide +kernel
    obtain ⟨s, hrun, hs⟩ := Option.map_eq_some_iff.mp hend
    simp only [Prod.mk.injEq, decide_eq_true_eq] at hs
    exact ⟨s, hrun, hs.1, hs.2.1, hs.2.2.1, not_answeredOnce hs.2.2.2⟩

end OmniPaxosBench.Experiment
