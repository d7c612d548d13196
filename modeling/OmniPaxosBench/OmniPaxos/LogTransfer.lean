import OmniPaxosBench.OmniPaxos.Segments
import OmniPaxosBench.OmniPaxos.SupervisorChanges
import OmniPaxosBench.Lib.Machine
import Mathlib.Order.Interval.Finset.Nat

/-! # Log transfer

A node that joins pulls the final sequences of all earlier configurations. It gets `ReconfigInit`s from
the nodes that continue, answers to its own requests, each any number of times or never, and timeouts.
An answer has the entries asked for, or has failed; it names the configuration before, which is then
pulled too (`input_segmentTransfer`: nodes do answer so). `Run` and the stop of the client, which start
replicas for other reasons, come before and after.

The state records what the node has sent. `Inv` relates the three maps of the node to the requests: of
a configuration that is pending `Collecting` holds, a configuration that has been transferred is no
longer pending, and every request is of one or the other. `Phase` says how far the node is: the
sequences are those of configurations below the next one, and when there are enough of them there is
one for each. -/

namespace OmniPaxosBench.OmniPaxos

open OmniPaxosBench.Lib PaxosComp

variable {S : Type}

/-- The entries of `F` in a segment. -/
def SegmentIndex.slice (i : SegmentIndex) (F : List Entry) : List Entry :=
  (F.drop i.fromIdx).take (i.toIdx - i.fromIdx)

/-- The entries in the different segments of a list, by increasing first index. -/
def assemble (F : List Entry) (indices : List SegmentIndex) : List Entry :=
  (indices.dedup.insertionSort fun i j => i.fromIdx ≤ j.fromIdx).flatMap fun i => i.slice F

/-- An answer to a request, if `F` is the final sequence of its configuration. -/
structure Answers (F : List Entry) (sr : SegmentRequest) (st : SegmentTransfer) : Prop where
  config : st.configId = sr.configId
  index : st.segment.idx = sr.idx
  metadata : st.metadata.configId + 1 = sr.configId
  entries : st.succeeded = true → st.segment.entries = sr.idx.slice F

instance (F : List Entry) (sr : SegmentRequest) (st : SegmentTransfer) : Decidable (Answers F sr st) :=
  decidable_of_iff (st.configId = sr.configId ∧ st.segment.idx = sr.idx ∧
      st.metadata.configId + 1 = sr.configId ∧
      (st.succeeded = true → st.segment.entries = sr.idx.slice F))
    ⟨fun ⟨h1, h2, h3, h4⟩ => ⟨h1, h2, h3, h4⟩, fun ⟨h1, h2, h3, h4⟩ => ⟨h1, h2, h3, h4⟩⟩

/-- A node that can join, and the final sequences of the configurations. -/
structure Joining (S : Type) where
  comp : PaxosComp S
  final : ℕ → List Entry
  active : comp.activeConfig.id = 0
  next : comp.nextConfigId = none
  prev : comp.prevSequences = ∅
  pending : comp.pendingSegments = ∅
  received : comp.receivedSegments = ∅

/-- The requests among the outputs. -/
def requestsOf (out : List CompOut) : List SegmentRequest :=
  out.filterMap fun
    | .reconfiguration _ (.segmentRequest sr) => some sr
    | _ => none

/-- The replicas started among the outputs. -/
def startsOf (out : List CompOut) : List ℕ :=
  out.filterMap fun
    | .start configId => some configId
    | _ => none

/-- The joining node, and all it has sent and done. -/
structure LogTransfer (S : Type) where
  comp : PaxosComp S
  outs : List CompOut

namespace LogTransfer

variable (J : Joining S) (s : LogTransfer S)

def init : LogTransfer S := ⟨J.comp, []⟩

/-- The segments of a configuration that were asked for. -/
def requested (configId : ℕ) : List SegmentIndex :=
  ((requestsOf s.outs).filter fun sr => sr.configId = configId).map SegmentRequest.idx

/-- The replicas started. -/
def starts : List ℕ := startsOf s.outs

/-- A `ReconfigInit` is sent after the configuration before; a transfer answers a request. The other
events are clients and the messages of replicas that do not end a configuration. -/
def Input : CompEvent S → Prop
  | .reconfigInit r => r.configId = r.seqMetadata.configId + 1 ∧ 1 ≤ r.seqMetadata.configId
  | .segmentTransfer st _ => ∃ sr ∈ requestsOf s.outs, Answers (J.final sr.configId) sr st
  | .segmentRequest _ _ | .timeout _ | .atomicBroadcast _ => True
  | .local (.leader _ _ _) | .local (.pendingReconfig _) => True
  | _ => False

instance : ∀ e, Decidable (s.Input J e)
  | .reconfigInit _ => inferInstanceAs (Decidable (_ ∧ _))
  | .segmentTransfer _ _ => inferInstanceAs (Decidable (∃ sr ∈ requestsOf s.outs, _))
  | .segmentRequest _ _ | .timeout _ | .atomicBroadcast _ => inferInstanceAs (Decidable True)
  | .local (.leader _ _ _) | .local (.pendingReconfig _) => inferInstanceAs (Decidable True)
  | .local (.reconfig _) | .local .killComponents => inferInstanceAs (Decidable False)
  | .init _ _ _ | .run | .clientStop => inferInstanceAs (Decidable False)

/-- After a handler. -/
def after (r : After S) : LogTransfer S := ⟨r.1, s.outs ++ r.2⟩

section Machine

variable [SequenceTraits S]

def step (e : CompEvent S) : Option (LogTransfer S) :=
  if s.Input J e then (s.comp.handle e).map s.after else none

def machine : Machine (LogTransfer S) (CompEvent S) := ⟨init J, fun s e => s.step J e⟩

end Machine

/-! ### The invariant -/

/-- The segments of the configuration asked for are those of one pull. -/
def Pulled (configId : ℕ) : Prop :=
  ∃ seqLen fromNodes, fromNodes ≠ [] ∧ ∀ i, i ∈ s.requested configId ↔
    i ∈ (getNodeSegmentIdx seqLen fromNodes).map Prod.snd

/-- The segments of the configuration that have been received. -/
def receivedOf (configId : ℕ) : List SequenceSegment :=
  (s.comp.receivedSegments.lookup configId).getD []

/-- How far the node is. -/
structure Phase : Prop where
  starts : (s.comp.activeConfig.id = 0 ∧ s.starts = []) ∨
    (2 ≤ s.comp.activeConfig.id ∧ s.starts = [s.comp.activeConfig.id])
  idle : s.comp.nextConfigId = none → (∀ d, d ∉ s.comp.pendingSegments) ∧
    ∀ d ∈ s.comp.prevSequences, d < s.comp.activeConfig.id
  next : ∀ n, s.comp.nextConfigId = some n → 2 ≤ n ∧ s.comp.activeConfig.id < n ∧
    ∀ d, d ∈ s.comp.prevSequences ∨ d ∈ s.comp.pendingSegments → d < n
  low : ∀ d, d ∈ s.comp.prevSequences ∨ d ∈ s.comp.pendingSegments → 1 ≤ d
  active : s.comp.activeConfig.id ∉ s.comp.prevSequences
  pending : ∀ d ∈ s.comp.pendingSegments, s.comp.activeConfig.id ≤ d

structure Inv [SequenceTraits S] : Prop where
  phase : Phase s
  pending : ∀ d pending, s.comp.pendingSegments.lookup d = some pending →
    Pulled s d ∧ Collecting SequenceSegment.idx (s.requested d) pending (s.receivedOf d)
  received : ∀ d segments, s.comp.receivedSegments.lookup d = some segments →
    d ∈ s.comp.pendingSegments ∧ ∀ seg ∈ segments, seg.entries = seg.idx.slice (J.final d)
  done : ∀ d seq, s.comp.prevSequences.lookup d = some seq → d ∉ s.comp.pendingSegments ∧
    seq = SequenceTraits.newWithSequence (assemble (J.final d) (s.requested d)) ∧
    (Pulled s d ∨ s.requested d = [])
  asked : ∀ d, s.requested d ≠ [] → d ∈ s.comp.pendingSegments ∨ d ∈ s.comp.prevSequences

/-! ### What the handlers do -/

variable {J s} {c c' : PaxosComp S} {out : List CompOut} {d : ℕ} {r r' : After S}

theorem mem_requestsOf {sr : SegmentRequest} :
    sr ∈ requestsOf out ↔ ∃ pid, .reconfiguration pid (.segmentRequest sr) ∈ out := by
  unfold requestsOf
  rw [List.mem_filterMap]
  constructor
  · rintro ⟨o, ho, heq⟩
    split at heq
    · cases heq; exact ⟨_, ho⟩
    · cases heq
  · rintro ⟨pid, hpid⟩
    exact ⟨_, hpid, rfl⟩

theorem requestsOf_append (out out' : List CompOut) :
    requestsOf (out ++ out') = requestsOf out ++ requestsOf out' := List.filterMap_append

theorem startsOf_append (out out' : List CompOut) :
    startsOf (out ++ out') = startsOf out ++ startsOf out' := List.filterMap_append

/-- Neither a request nor a start. -/
def IsOther : CompOut → Prop
  | .reconfiguration _ (.segmentRequest _) | .start _ => False
  | _ => True

theorem others_nil (h : ∀ o ∈ out, IsOther o) : requestsOf out = [] ∧ startsOf out = [] := by
  unfold requestsOf startsOf
  rw [List.filterMap_eq_nil_iff, List.filterMap_eq_nil_iff]
  constructor
  · intro o ho
    have hother := h o ho
    split
    · cases hother
    · rfl
  · intro o ho
    have hother := h o ho
    split
    · cases hother
    · rfl

/-- What the transfer depends on has not changed. -/
structure Same (c c' : PaxosComp S) : Prop where
  active : c'.activeConfig.id = c.activeConfig.id
  next : c'.nextConfigId = c.nextConfigId
  prev : c'.prevSequences = c.prevSequences
  pending : c'.pendingSegments = c.pendingSegments
  received : c'.receivedSegments = c.receivedSegments

theorem Same.refl (c : PaxosComp S) : Same c c := ⟨rfl, rfl, rfl, rfl, rfl⟩

theorem request_eq {pid : ℕ} {idx : SegmentIndex} {o : CompOut} (h : c.request d pid idx = some o) :
    ∃ receiver, o = .reconfiguration receiver (.segmentRequest ⟨d, idx, c.pid⟩) := by
  obtain ⟨receiver, -, rfl⟩ := Option.map_eq_some_iff.mp h
  exact ⟨receiver, rfl⟩

/-- A pull asks for the segments and makes them pending. -/
theorem pullSequence_eq {seqLen : ℕ} {fromNodes : List ℕ}
    (h : c.pullSequence d seqLen fromNodes = some (c', out)) : fromNodes ≠ [] ∧
    c' = { c with
      timers := c.timers.schedule d
      pendingSegments :=
        c.pendingSegments.insert d ((getNodeSegmentIdx seqLen fromNodes).map Prod.snd) } ∧
    requestsOf out = ((getNodeSegmentIdx seqLen fromNodes).map Prod.snd).map (fun i => ⟨d, i, c.pid⟩) ∧
    startsOf out = [] := by
  have hout : out = (getNodeSegmentIdx seqLen fromNodes).map fun x =>
      .reconfiguration x.1 (.segmentRequest ⟨d, x.2, c.pid⟩) := by
    refine List.ext_getElem? fun k => ?_
    rw [getElem?_pullSequence h, List.getElem?_map]
  unfold pullSequence at h
  split_ifs at h with hne
  obtain ⟨out', -, heq⟩ := Option.bind_eq_some_iff.mp h
  cases heq
  refine ⟨hne, rfl, ?_, ?_⟩
  · rw [hout]
    unfold requestsOf
    rw [List.filterMap_map, List.map_map]
    exact congrFun List.filterMap_eq_map _
  · rw [hout]
    unfold startsOf
    rw [List.filterMap_map]
    exact List.filterMap_none _

/-- A retry asks for pending segments again. -/
theorem retryPendingSegments_eq (h : c.retryPendingSegments d = some (c', out)) :
    Same c c' ∧ startsOf out = [] ∧ ∀ sr ∈ requestsOf out, sr.configId = d ∧
      sr.idx ∈ (c.pendingSegments.lookup d).getD [] := by
  unfold retryPendingSegments at h
  obtain ⟨out', hmap, heq⟩ := Option.bind_eq_some_iff.mp h
  cases heq
  have hall : ∀ o ∈ out, ∃ receiver idx, o = .reconfiguration receiver (.segmentRequest ⟨d, idx, c.pid⟩) ∧
      idx ∈ (c.pendingSegments.lookup d).getD [] := by
    intro o ho
    obtain ⟨⟨idx, i⟩, hmem, hf⟩ := mem_of_mapM hmap ho
    obtain ⟨pid, -, hreq⟩ := Option.bind_eq_some_iff.mp hf
    obtain ⟨receiver, rfl⟩ := request_eq hreq
    exact ⟨receiver, idx, rfl, List.fst_mem_of_mem_zipIdx hmem⟩
  refine ⟨⟨rfl, rfl, rfl, rfl, rfl⟩, ?_, ?_⟩
  · refine List.filterMap_eq_nil_iff.mpr fun o ho => ?_
    obtain ⟨receiver, idx, rfl, -⟩ := hall o ho
    rfl
  · intro sr hsr
    obtain ⟨pid, hmem⟩ := mem_requestsOf.mp hsr
    obtain ⟨receiver, idx, heq, hidx⟩ := hall _ hmem
    cases heq
    exact ⟨rfl, hidx⟩

/-- After a failed transfer only its segment is asked for. -/
theorem askAgain_eq {idx : SegmentIndex} {rnd : ℕ} (h : c.askAgain d idx rnd = some (c', out)) :
    c' = c ∧ startsOf out = [] ∧ ∀ sr ∈ requestsOf out, sr.configId = d ∧ sr.idx = idx := by
  unfold askAgain at h
  split_ifs at h with hne
  · cases h
    exact ⟨rfl, rfl, fun sr hsr => by cases hsr⟩
  · obtain ⟨pid, -, hrest⟩ := Option.bind_eq_some_iff.mp h
    obtain ⟨o, hreq, heq⟩ := Option.bind_eq_some_iff.mp hrest
    cases heq
    obtain ⟨receiver, rfl⟩ := request_eq hreq
    refine ⟨rfl, rfl, fun sr hsr => ?_⟩
    obtain ⟨pid', hmem⟩ := mem_requestsOf.mp hsr
    cases List.mem_singleton.mp hmem
    exact ⟨rfl, rfl⟩

theorem addReadyPeer_same (c : PaxosComp S) (m : ReconfigInit) : Same c (c.addReadyPeer m) := by
  unfold addReadyPeer
  split_ifs
  · exact ⟨rfl, rfl, rfl, rfl, rfl⟩
  · exact Same.refl c

/-! ### Other messages -/

theorem isOther_of_proposing {o : CompOut} (h : IsProposing o) : IsOther o := by
  unfold IsProposing at h
  split at h
  · trivial
  · trivial
  · trivial
  · trivial
  · cases h

theorem handleLeader_other {pid round : ℕ} (h : c.handleLeader d pid round = some r) :
    Same c r.1 ∧ ∀ o ∈ r.2, IsOther o := by
  obtain ⟨leader, hb, heq, hout⟩ := handleLeader_changes h
  rw [heq]
  exact ⟨⟨rfl, rfl, rfl, rfl, rfl⟩, fun o ho => isOther_of_proposing (hout o ho)⟩

theorem handleAtomicBroadcast_other {m : AtomicBroadcastMsg}
    (h : c.handleAtomicBroadcast m = some r) : Same c r.1 ∧ ∀ o ∈ r.2, IsOther o := by
  obtain ⟨hb, heq, hout⟩ := handleAtomicBroadcast_changes h
  rw [heq]
  exact ⟨⟨rfl, rfl, rfl, rfl, rfl⟩, fun o ho => isOther_of_proposing (hout o ho)⟩

theorem handleSegmentRequest_other [SequenceTraits S] {sr : SegmentRequest} {requestor : ℕ}
    (h : c.handleSegmentRequest sr requestor = some r) : Same c r.1 ∧ ∀ o ∈ r.2, IsOther o := by
  obtain ⟨handled, heq, hout⟩ := handleSegmentRequest_changes h
  rw [heq]
  refine ⟨⟨rfl, rfl, rfl, rfl, rfl⟩, fun o ho => ?_⟩
  rcases hout o ho with ⟨st, rfl, -⟩ | ⟨idx, metadata, rfl⟩
  · trivial
  · trivial

/-- **What other nodes send**: the answer of a node to a request of this node, if the sequence it has is the
final one. -/
theorem input_segmentTransfer [SequenceTraits S] {sr : SegmentRequest} {requestor pid rnd : ℕ}
    {st : SegmentTransfer} (hasked : sr ∈ requestsOf s.outs) (h : c.handleSegmentRequest sr requestor = some r)
    (hlow : 1 ≤ sr.configId) (hhigh : sr.configId < 2 ^ 32)
    (hseq : ∀ seq, c.prevSequences.lookup sr.configId = some seq →
      SequenceTraits.getEntries seq sr.idx.fromIdx sr.idx.toIdx = sr.idx.slice (J.final sr.configId))
    (hst : .reconfiguration pid (.segmentTransfer st) ∈ r.2) : s.Input J (.segmentTransfer st rnd) := by
  have hprev : prevConfig sr.configId + 1 = sr.configId := by
    unfold prevConfig
    omega
  obtain ⟨handled, -, hout⟩ := handleSegmentRequest_changes h
  rcases hout _ hst with ⟨st', heq, hreplies⟩ | ⟨idx, metadata, heq⟩
  · cases heq
    refine ⟨sr, hasked, hreplies.config, hreplies.index, ?_, fun hsucc => ?_⟩
    · rw [hreplies.metadata]
      exact hprev
    · obtain ⟨seq, hl, hentries⟩ := hreplies.entries hsucc
      rw [hentries]
      exact hseq seq hl
  · cases heq

end LogTransfer

end OmniPaxosBench.OmniPaxos
