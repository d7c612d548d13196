import OmniPaxosBench.OmniPaxos.TransferSteps

/-! # Reassembly of the transferred sequences

The handlers are put together from the parts of `TransferSteps`, and `transfer_reassembles` says what
follows for every run. -/

namespace OmniPaxosBench.OmniPaxos

open OmniPaxosBench.Lib PaxosComp

namespace LogTransfer

variable {S : Type} [SequenceTraits S] {J : Joining S} {s : LogTransfer S} {d : ℕ} {r : After S}

/-! ### Transfers -/

theorem inv_complete (h : Inv J s) (hlookup : s.comp.pendingSegments.lookup d = some [])
    (hactive : s.comp.activeConfig.id < d)
    (hr : s.comp.handleCompletedSequenceTransfer d = some r) : Good J s r := by
  unfold handleCompletedSequenceTransfer at hr
  obtain ⟨segments, hsegments, hr⟩ := Option.bind_eq_some_iff.mp hr
  obtain ⟨_, -, hr⟩ := Option.bind_eq_some_iff.mp hr
  obtain ⟨n, hnext, hr⟩ := Option.bind_eq_some_iff.mp hr
  have hrec : s.receivedOf d = segments := by
    unfold receivedOf
    rw [hsegments]; rfl
  have hfinish := inv_finish h hlookup hactive
    (congrArg SequenceTraits.newWithSequence (assemble_received h hlookup))
  rw [hrec] at hfinish
  split_ifs at hr with hlen
  · exact hfinish.trans rfl (inv_start hfinish.inv hnext hlen hr)
  · cases hr
    exact hfinish

/-- A segment that was transferred. -/
theorem inv_accept (h : Inv J s) {seg : SequenceSegment} (hactive : s.comp.activeConfig.id < d)
    (hr : s.comp.acceptSegment d seg = some r) (hasked : seg.idx ∈ s.requested d)
    (hnew : seg.idx ∉ (s.receivedOf d).map SequenceSegment.idx)
    (hentries : seg.entries = seg.idx.slice (J.final d)) : Good J s r := by
  unfold acceptSegment at hr
  obtain ⟨c, hc, hr⟩ := Option.bind_eq_some_iff.mp hr
  obtain ⟨pending, hpending, hr⟩ := Option.bind_eq_some_iff.mp hr
  have hseg := inv_segment h hc hasked hnew hentries
  have hactive' : c.activeConfig.id = s.comp.activeConfig.id := by
    obtain ⟨_, -, rfl⟩ := Option.map_eq_some_iff.mp hc
    rfl
  split_ifs at hr with hnil
  · rw [hnil] at hpending
    exact hseg.trans rfl (inv_complete hseg.inv hpending (hactive'.symm ▸ hactive) hr)
  · cases hr
    exact hseg

/-- The configuration before one that is pending is pulled. -/
theorem inv_pullPrevious (h : Inv J s) {metadata : SequenceMetaData}
    (hd : metadata.configId + 1 = d) (hin : d ∈ s.comp.pendingSegments)
    (hactive : s.comp.activeConfig.id < d) (hr : s.comp.pullPrevious metadata = some r) :
    Good J s r ∧ startsOf r.2 = [] ∧ r.1.activeConfig = s.comp.activeConfig ∧
      r.1.receivedSegments = s.comp.receivedSegments ∧ r.1.prevSequences = s.comp.prevSequences := by
  unfold pullPrevious at hr
  split_ifs at hr with hcond
  · obtain ⟨hzero, hprev, hpending⟩ := hcond
    obtain ⟨n, hnext⟩ : ∃ n, s.comp.nextConfigId = some n := by
      refine Option.ne_none_iff_exists'.mp fun hnone => ?_
      exact (h.phase.idle hnone).1 d hin
    have hlt : metadata.configId < n :=
      Nat.lt_trans (hd ▸ Nat.lt_succ_self _) ((h.phase.next n hnext).2.2 d (Or.inr hin))
    have hle : s.comp.activeConfig.id ≤ metadata.configId := by
      rw [← hd] at hactive
      exact Nat.le_of_lt_succ hactive
    obtain ⟨hgood, hstart⟩ :=
      inv_pull h hr hpending hprev (Nat.one_le_iff_ne_zero.mpr hzero) hnext hlt hle
    obtain ⟨-, hc, -⟩ := pullSequence_eq hr
    exact ⟨hgood, hstart, by rw [hc], by rw [hc], by rw [hc]⟩
  · cases hr
    refine ⟨inv_same h (Same.refl _) ?_ rfl, rfl, rfl, rfl, rfl⟩
    intro sr hsr; cases hsr

theorem inv_transfer (h : Inv J s) {st : SegmentTransfer} {rnd : ℕ}
    (hin : ∃ sr ∈ requestsOf s.outs, Answers (J.final sr.configId) sr st)
    (hr : s.comp.handleSegmentTransfer st rnd = some r) : Good J s r := by
  obtain ⟨sr, hsr, hans⟩ := hin
  have hasked : st.segment.idx ∈ s.requested st.configId :=
    mem_requested.mpr ⟨sr, hsr, hans.config.symm, hans.index.symm⟩
  unfold handleSegmentTransfer at hr
  by_cases hhandled : s.comp.hasHandledSegment st.configId st.segment.idx
  · rw [if_pos hhandled] at hr
    cases hr
    refine inv_same h (Same.refl _) ?_ rfl
    intro sr hsr; cases hsr
  rw [if_neg hhandled] at hr
  unfold hasHandledSegment at hhandled
  push Not at hhandled
  obtain ⟨hnew, hactive, hprev⟩ := hhandled
  have hpending : st.configId ∈ s.comp.pendingSegments :=
    (h.asked _ (List.ne_nil_of_mem hasked)).resolve_right hprev
  obtain ⟨⟨c₁, pull⟩, hpull, hr⟩ := Option.bind_eq_some_iff.mp hr
  obtain ⟨⟨c₂, out⟩, hout, hr⟩ := Option.bind_eq_some_iff.mp hr
  cases hr
  obtain ⟨hgood, hstart, hactive₁, hreceived₁, hprev₁⟩ :=
    inv_pullPrevious h (hans.metadata.trans hans.config.symm) hpending hactive hpull
  have hasked₁ : st.segment.idx ∈ (s.after (c₁, pull)).requested st.configId := by
    rw [requested_after]
    exact List.mem_append_left _ hasked
  suffices hfinal : Good J (s.after (c₁, pull)) (c₂, out) from hgood.trans hstart hfinal
  unfold handleOutcome at hout
  split_ifs at hout with hsucc
  · refine inv_accept hgood.inv (hactive₁.symm ▸ hactive) hout hasked₁ ?_ ?_
    · have hrec : (s.after (c₁, pull)).receivedOf st.configId = s.receivedOf st.configId := by
        show (c₁.receivedSegments.lookup _).getD [] = _
        rw [hreceived₁]; rfl
      rw [hrec]
      intro hmem
      obtain ⟨seg, hseg, heq⟩ := List.mem_map.mp hmem
      exact hnew seg hseg heq
    · rw [hans.entries hsucc, hans.index, hans.config]
  · obtain ⟨rfl, hstart', hreq⟩ := askAgain_eq hout
    refine inv_same hgood.inv (Same.refl _) (fun sr' hsr' => ?_) hstart'
    obtain ⟨hd, hidx⟩ := hreq sr' hsr'
    rw [hd, hidx]
    refine ⟨?_, hasked₁⟩
    -- a configuration that is asked for and has no sequence is pending
    refine (hgood.inv.asked _ (List.ne_nil_of_mem hasked₁)).resolve_right fun hmem => hprev ?_
    rw [← hprev₁]
    exact hmem

theorem inv_retry (h : Inv J s) {c : PaxosComp S} (hc : Same s.comp c)
    (hr : c.retryPendingSegments d = some r) : Good J s r := by
  obtain ⟨c', out⟩ := r
  obtain ⟨hsame, hstart, hreq⟩ := retryPendingSegments_eq hr
  refine inv_same h ⟨hsame.active.trans hc.active, hsame.next.trans hc.next, hsame.prev.trans hc.prev,
    hsame.pending.trans hc.pending, hsame.received.trans hc.received⟩ (fun sr hsr => ?_) hstart
  obtain ⟨rfl, hidx⟩ := hreq sr hsr
  rw [hc.pending] at hidx
  cases hl : s.comp.pendingSegments.lookup sr.configId with
  | none => rw [hl] at hidx; cases hidx
  | some pending =>
    rw [hl] at hidx
    refine ⟨HashMap.mem_of_lookup hl, ?_⟩
    exact (((h.pending _ pending hl).2.pending _).mp hidx).1

/-! ### Joining -/

/-- A next configuration is set; what is sent is no request and no start. -/
theorem inv_next (h : Inv J s) (hnone : s.comp.nextConfigId = none) {n : ℕ}
    (hlt : s.comp.activeConfig.id < n) (htwo : 2 ≤ n)
    (hsame : Same { s.comp with nextConfigId := some n } r.1) (hout : ∀ o ∈ r.2, IsOther o) :
    Good J s r := by
  obtain ⟨hreq, hstart⟩ := others_nil hout
  obtain ⟨hnopending, hprev⟩ := h.phase.idle hnone
  -- the state with the next configuration, before anything is sent
  set t : LogTransfer S := ⟨{ s.comp with nextConfigId := some n }, s.outs⟩ with ht
  have hinv : Inv J t := by
    refine ⟨⟨h.phase.starts, ?_, ?_, h.phase.low, h.phase.active, h.phase.pending⟩, h.pending,
      h.received, h.done, h.asked⟩
    · intro hfalse; cases hfalse
    · intro m hm
      cases hm
      refine ⟨htwo, hlt, fun d hd => ?_⟩
      rcases hd with hd | hd
      · exact lt_trans (hprev d hd) hlt
      · exact absurd hd (hnopending d)
  have hgood := inv_same hinv hsame (fun sr hsr => by rw [hreq] at hsr; cases hsr) hstart
  exact ⟨hgood.inv, hgood.keep, hgood.start⟩

/-- The first configuration ended with nothing in its log but the stop sign: its sequence is empty. -/
theorem inv_empty (h : Inv J s) (hpending : ∀ d, d ∉ s.comp.pendingSegments)
    (hprev : ∀ d, d ∉ s.comp.prevSequences) {n : ℕ} (hnext : s.comp.nextConfigId = some n) :
    Good J s ({ s.comp with
      prevSequences := s.comp.prevSequences.insert 1 (SequenceTraits.newWithSequence []) }, []) := by
  have hnone : ∀ d, s.requested d = [] := by
    intro d
    by_contra hne
    rcases h.asked d hne with hd | hd
    · exact hpending d hd
    · exact hprev d hd
  have hmem : ∀ d, d ∈ s.comp.prevSequences.insert 1 (SequenceTraits.newWithSequence []) ↔ d = 1 :=
    fun d => Finmap.mem_insert.trans (or_iff_left (hprev d))
  refine ⟨⟨⟨?_, ?_, ?_, ?_, ?_, h.phase.pending⟩, ?_, h.received, ?_, ?_⟩, ?_, Or.inl rfl⟩
  · rw [starts_after]
    exact (List.append_nil s.starts).symm ▸ h.phase.starts
  · intro hfalse
    cases hnext.symm.trans hfalse
  · intro m hm
    obtain ⟨h1, h2, -⟩ := h.phase.next m hm
    refine ⟨h1, h2, fun d hd => ?_⟩
    rcases hd with hd | hd
    · rw [(hmem d).mp hd]; exact h1
    · exact absurd hd (hpending d)
  · intro d hd
    rcases hd with hd | hd
    · rw [(hmem d).mp hd]
    · exact absurd hd (hpending d)
  · intro hin
    have hid : s.comp.activeConfig.id = 1 := (hmem _).mp hin
    rcases h.phase.starts with ⟨hzero, -⟩ | ⟨htwo, -⟩
    · omega
    · omega
  · intro d pending hl
    exact absurd (HashMap.mem_of_lookup hl) (hpending d)
  · intro d seq hl
    rw [requested_silent, hnone]
    have hl' : (s.comp.prevSequences.insert 1 (SequenceTraits.newWithSequence [])).lookup d =
      some seq := hl
    have hd := (hmem d).mp (HashMap.mem_of_lookup hl)
    rw [hd, Finmap.lookup_insert] at hl'
    cases hl'
    exact ⟨hpending d, rfl, Or.inr rfl⟩
  · intro d hne
    rw [requested_silent, hnone] at hne
    exact absurd rfl hne
  · intro d seq hl
    exact absurd (HashMap.mem_of_lookup hl) (hprev d)

theorem inv_direct (h : Inv J s) (hpending : ∀ d, d ∉ s.comp.pendingSegments)
    (hprev : ∀ d, d ∉ s.comp.prevSequences) {n : ℕ} (hnext : s.comp.nextConfigId = some n)
    (hn : n = 2) (hr : s.comp.startDirectly n 1 = some r) : Good J s r := by
  subst hn
  have hgood := inv_empty h hpending hprev hnext
  have hlen : HashMap.len
      (s.comp.prevSequences.insert 1 (SequenceTraits.newWithSequence [] : S)) + 1 = 2 := by
    have hkeys : (s.comp.prevSequences.insert 1 (SequenceTraits.newWithSequence [] : S)).keys = {1} := by
      ext d
      rw [Finmap.mem_keys, Finset.mem_singleton]
      exact Finmap.mem_insert.trans (or_iff_left (hprev d))
    rw [HashMap.len, hkeys]; rfl
  exact hgood.trans rfl (inv_start hgood.inv hnext hlen hr)

theorem inv_beginJoin (h : Inv J s) (hnone : s.comp.nextConfigId = none) {m : ReconfigInit}
    (hin : m.configId = m.seqMetadata.configId + 1) (hlow : 1 ≤ m.seqMetadata.configId)
    (hlt : s.comp.activeConfig.id < m.configId) (hr : s.comp.beginJoin m = some r) : Good J s r := by
  unfold beginJoin at hr
  obtain ⟨set, hset, hr⟩ := Option.bind_eq_some_iff.mp hr
  obtain ⟨⟨c₂, out⟩, hout, hr⟩ := Option.bind_eq_some_iff.mp hr
  cases hr
  have hothers : ∀ o ∈ set, IsOther o := by
    unfold setInitialReplicaStateAfterReconfig at hset
    split_ifs at hset
    cases hset
    intro o ho
    rw [List.mem_singleton.mp ho]; trivial
  have htwo : 2 ≤ m.configId := hin ▸ Nat.succ_le_succ hlow
  obtain ⟨hnopending, hprev⟩ := h.phase.idle hnone
  have hsame := addReadyPeer_same { s.comp with nextConfigId := some m.configId } m
  set c₁ := { s.comp with nextConfigId := some m.configId }.addReadyPeer m with hc₁
  have hgood : Good J s (c₁, set) := inv_next h hnone hlt htwo hsame hothers
  have hpending₁ : ∀ d, d ∉ c₁.pendingSegments := by rw [hsame.pending]; exact hnopending
  suffices hfinal : Good J (s.after (c₁, set)) (c₂, out) from
    hgood.trans (others_nil hothers).2 hfinal
  unfold startOrPull at hout
  split_ifs at hout with hone
  · have hn : m.configId = 2 := by rw [hin, hone.2]
    refine inv_direct hgood.inv hpending₁ (fun d hd => ?_) hsame.next hn (hone.2 ▸ hout)
    -- only the initial configuration is below 2, and it has no sequence before it
    have hd' : d ∈ s.comp.prevSequences := hsame.prev ▸ hd
    have hbelow := hprev d hd'
    rcases h.phase.starts with ⟨hzero, -⟩ | ⟨hactive, -⟩
    · rw [hzero] at hbelow
      exact absurd hbelow (Nat.not_lt_zero d)
    · rw [hn] at hlt
      exact absurd hlt (not_lt.mpr hactive)
  · have hle : s.comp.activeConfig.id ≤ m.seqMetadata.configId := by
      rw [hin] at hlt
      exact Nat.le_of_lt_succ hlt
    refine (inv_pull hgood.inv hout (hpending₁ _) ?_ hlow hsame.next ?_ ?_).1
    · show m.seqMetadata.configId ∉ c₁.prevSequences
      rw [hsame.prev]
      exact fun hd => absurd (hprev _ hd) (not_lt.mpr hle)
    · rw [hin]; exact Nat.lt_succ_self _
    · show c₁.activeConfig.id ≤ _
      rw [hsame.active]; exact hle

/-- Something that has nothing to do with the transfer. -/
theorem inv_other (h : Inv J s) (hsame : Same s.comp r.1) (hout : ∀ o ∈ r.2, IsOther o) : Good J s r := by
  obtain ⟨hreq, hstart⟩ := others_nil hout
  exact inv_same h hsame (fun sr hsr => by rw [hreq] at hsr; cases hsr) hstart

theorem inv_reconfigInit (h : Inv J s) {m : ReconfigInit}
    (hin : m.configId = m.seqMetadata.configId + 1) (hlow : 1 ≤ m.seqMetadata.configId)
    (hr : s.comp.handleReconfigInit m = some r) : Good J s r := by
  have hstay : Good J s (s.comp, []) := inv_other h (Same.refl _) fun o ho => by cases ho
  unfold handleReconfigInit at hr
  by_cases hstopped : s.comp.stopped = true
  · rw [if_pos hstopped] at hr
    dsimp only at hr
    split_ifs at hr
    cases hr
    refine inv_other h (Same.refl _) fun o ho => ?_
    obtain ⟨p, -, rfl⟩ := List.mem_map.mp ho
    trivial
  rw [if_neg hstopped] at hr
  by_cases hle : m.configId ≤ s.comp.activeConfig.id
  · rw [if_pos hle] at hr
    cases hr
    exact hstay
  rw [if_neg hle] at hr
  unfold join at hr
  split at hr
  · next hnone => exact inv_beginJoin h hnone hin hlow (not_le.mp hle) hr
  · split_ifs at hr
    · cases hr
      exact inv_other h (addReadyPeer_same _ _) fun o ho => by cases ho
    · cases hr
      exact hstay

/-! ### Runs -/

theorem inv_init (J : Joining S) : Inv J (init J) := by
  have hprev : ∀ d, d ∉ J.comp.prevSequences := by
    intro d
    rw [J.prev]; exact Finmap.notMem_empty
  have hpending : ∀ d, d ∉ J.comp.pendingSegments := by
    intro d
    rw [J.pending]; exact Finmap.notMem_empty
  refine ⟨⟨Or.inl ⟨J.active, rfl⟩, ?_, ?_, ?_, hprev _, ?_⟩, ?_, ?_, ?_, ?_⟩
  · exact fun _ => ⟨hpending, fun d hd => absurd hd (hprev d)⟩
  · intro n hn
    have hn' : J.comp.nextConfigId = some n := hn
    rw [J.next] at hn'; cases hn'
  · intro d hd
    exact absurd hd (not_or.mpr ⟨hprev d, hpending d⟩)
  · intro d hd
    exact absurd hd (hpending d)
  · intro d pending hl
    exact absurd (HashMap.mem_of_lookup hl) (hpending d)
  · intro d segments hl
    have hl' : J.comp.receivedSegments.lookup d = some segments := hl
    rw [J.received, Finmap.lookup_empty] at hl'; cases hl'
  · intro d seq hl
    exact absurd (HashMap.mem_of_lookup hl) (hprev d)
  · intro d hne
    exact absurd rfl hne

/-- Every handler goes well. -/
theorem good_handle (h : Inv J s) {e : CompEvent S} (hin : s.Input J e)
    (hr : s.comp.handle e = some r) : Good J s r := by
  have hstay : Good J s (s.comp, []) := inv_other h (Same.refl _) fun o ho => by cases ho
  cases e with
  | «local» m =>
    cases m with
    | leader configId pid round => exact inv_other h (handleLeader_other hr).1 (handleLeader_other hr).2
    | pendingReconfig data =>
      cases hr
      exact inv_other h ⟨rfl, rfl, rfl, rfl, rfl⟩ fun o ho => by cases ho
    | reconfig m => cases hin
    | killComponents => cases hin
  | atomicBroadcast m =>
    exact inv_other h (handleAtomicBroadcast_other hr).1 (handleAtomicBroadcast_other hr).2
  | init nodes pid iterationId => cases hin
  | run => cases hin
  | reconfigInit m => exact inv_reconfigInit h hin.1 hin.2 hr
  | segmentRequest sr requestor =>
    rcases handle_segmentRequest hr with rfl | hserve
    · exact hstay
    · exact inv_other h (handleSegmentRequest_other hserve).1 (handleSegmentRequest_other hserve).2
  | segmentTransfer st rnd =>
    rcases handle_segmentTransfer hr with rfl | hserve
    · exact hstay
    · exact inv_transfer h hin hserve
  | clientStop => cases hin
  | timeout id =>
    obtain ⟨⟨configId, timers⟩, -, hr⟩ := Option.bind_eq_some_iff.mp hr
    have hsame : Same s.comp { s.comp with timers := timers } := ⟨rfl, rfl, rfl, rfl, rfl⟩
    exact inv_retry h hsame hr

theorem step_good (h : Inv J s) {e : CompEvent S} {t : LogTransfer S} (hstep : s.step J e = some t) :
    ∃ r, t = s.after r ∧ Good J s r := by
  unfold step at hstep
  split_ifs at hstep with hin
  obtain ⟨r, hr, rfl⟩ := Option.map_eq_some_iff.mp hstep
  exact ⟨r, rfl, good_handle h hin hr⟩

theorem inv_of_reachable (h : (machine J).Reachable s) : Inv J s := by
  refine h.invariant (P := fun s => Inv J s) ?_ fun s e t _ hinv hstep => ?_
  · exact inv_init J
  · obtain ⟨r, rfl, hgood⟩ := step_good hinv hstep
    exact hgood.inv

/-- **Reassembly.** In every state: the sequence of a configuration, once it is there, consists of the
entries of its final sequence in the different segments asked for, by increasing first index, and
these are the segments of one pull, or none; its segments are no longer pending or kept; and no event
changes it. At most one replica is started, and only when there are as many sequences as earlier
configurations. -/
theorem transfer_reassembles {J : Joining S} {s : LogTransfer S} (h : (machine J).Reachable s) :
    (∀ d seq, s.comp.prevSequences.lookup d = some seq →
      seq = SequenceTraits.newWithSequence (assemble (J.final d) (s.requested d)) ∧
      (Pulled s d ∨ s.requested d = []) ∧
      d ∉ s.comp.pendingSegments ∧ d ∉ s.comp.receivedSegments ∧
      ∀ e t, s.step J e = some t → t.comp.prevSequences.lookup d = some seq) ∧
    s.starts.length ≤ 1 ∧
    ∀ e t, s.step J e = some t → t.starts = s.starts ∨
      ∃ n, t.starts = s.starts ++ [n] ∧ t.comp.prevSequences.len + 1 = n := by
  have hinv := inv_of_reachable h
  refine ⟨fun d seq hl => ?_, ?_, fun e t hstep => ?_⟩
  · obtain ⟨hpending, hseq, hpulled⟩ := hinv.done d seq hl
    refine ⟨hseq, hpulled, hpending, fun hmem => ?_, fun e t hstep => ?_⟩
    · obtain ⟨segments, hsegments⟩ := Finmap.mem_iff.mp hmem
      exact hpending (hinv.received d segments hsegments).1
    · obtain ⟨r, rfl, hgood⟩ := step_good hinv hstep
      exact hgood.keep d seq hl
  · rcases hinv.phase.starts with ⟨-, hstarts⟩ | ⟨-, hstarts⟩
    · rw [hstarts]; decide
    · rw [hstarts]; rfl
  · obtain ⟨r, rfl, hgood⟩ := step_good hinv hstep
    rw [starts_after]
    rcases hgood.start with hnone | ⟨n, hone, hlen⟩
    · exact Or.inl (by rw [hnone, List.append_nil])
    · exact Or.inr ⟨n, by rw [hone], hlen⟩

/-! ### A run -/

/-- Node 4 joins; the first configuration has four entries. -/
def fourth : Joining (List Entry) where
  comp := ((new [1, 2, 3] true false .ble).handleInit 4 4 0).elim (new [] true false .ble) Prod.fst
  final _ := [.normal [1], .normal [2], .normal [3], .stopSign ⟨2, [1, 2, 4], none⟩]
  active := rfl
  next := rfl
  prev := rfl
  pending := rfl
  received := rfl

/-- Nodes 1 and 2 continue. Node 2 answers first, and twice; node 1 fails, and answers when it is asked
again. -/
def twoSegments : List (CompEvent (List Entry)) :=
  let late := ⟨1, true, ⟨0, 0⟩, ⟨⟨2, 4⟩, [.normal [3], .stopSign ⟨2, [1, 2, 4], none⟩]⟩⟩
  [.reconfigInit ⟨2, ⟨[1, 2], [4]⟩, ⟨1, 4⟩, 1, none⟩, .segmentTransfer late 0, .segmentTransfer late 0,
    .segmentTransfer ⟨1, false, ⟨0, 0⟩, ⟨⟨0, 2⟩, []⟩⟩ 0, .timeout 0,
    .segmentTransfer ⟨1, true, ⟨0, 0⟩, ⟨⟨0, 2⟩, [.normal [1], .normal [2]]⟩⟩ 0, .segmentTransfer late 0]

theorem twoSegments_reassembled : ∃ s, (machine fourth).Reachable s ∧ s.starts = [2] ∧
    s.comp.prevSequences.lookup 1 = some (assemble (fourth.final 1) (s.requested 1)) ∧
    assemble (fourth.final 1) (s.requested 1) = fourth.final 1 := by
  obtain ⟨s, hrun, hstarts, hin, hfinal⟩ : ∃ s, (machine fourth).run (machine fourth).init twoSegments =
      some s ∧ s.starts = [2] ∧ (s.comp.prevSequences.lookup 1).isSome ∧
      assemble (fourth.final 1) (s.requested 1) = fourth.final 1 :=
    ⟨_, rfl, by decide, by decide, by decide⟩
  have hr := Machine.reachable_of_run hrun
  obtain ⟨seq, hseq⟩ := Option.isSome_iff_exists.mp hin
  have heq := ((transfer_reassembles hr).1 1 seq hseq).1
  exact ⟨s, hr, hstarts, by rw [hseq, heq]; rfl, hfinal⟩

end LogTransfer

end OmniPaxosBench.OmniPaxos
