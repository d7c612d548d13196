import OmniPaxosBench.OmniPaxos.LogTransfer

/-! # Log transfer: steps of the invariant

Each part of a handler keeps `Inv`, keeps the sequences there are, and starts a replica only if there
is a sequence for each earlier configuration (`Good`); the parts compose (`Good.trans`). Here are the
parts: requests that are repeated, a pull, a segment that arrives, a sequence that is complete, and
the start of the replica. -/

namespace OmniPaxosBench.OmniPaxos

open OmniPaxosBench.Lib PaxosComp

namespace LogTransfer

section Outputs

variable {S : Type} {s : LogTransfer S} {d : ℕ} {r r' : After S}

theorem requested_after (r : After S) (d : ℕ) : (s.after r).requested d = s.requested d ++
    ((requestsOf r.2).filter fun sr => sr.configId = d).map SegmentRequest.idx := by
  unfold requested after
  rw [requestsOf_append, List.filter_append, List.map_append]

/-- Requests for other configurations do not matter. -/
theorem requested_after_of_ne (h : ∀ sr ∈ requestsOf r.2, sr.configId ≠ d) :
    (s.after r).requested d = s.requested d := by
  have hnil : (requestsOf r.2).filter (fun sr => sr.configId = d) = [] :=
    List.filter_eq_nil_iff.mpr fun sr hsr => by simpa using h sr hsr
  rw [requested_after, hnil, List.map_nil, List.append_nil]

/-- Without requests nothing changes in what was asked for. -/
theorem requested_silent (c : PaxosComp S) (d : ℕ) :
    (s.after (c, [])).requested d = s.requested d :=
  requested_after_of_ne fun sr hsr => by cases hsr

theorem starts_after (r : After S) : (s.after r).starts = s.starts ++ startsOf r.2 := startsOf_append ..

theorem after_after : (s.after r).after r' = s.after (r'.1, r.2 ++ r'.2) := by
  unfold after
  rw [List.append_assoc]

theorem mem_requested {i : SegmentIndex} :
    i ∈ s.requested d ↔ ∃ sr ∈ requestsOf s.outs, sr.configId = d ∧ sr.idx = i := by
  unfold requested
  simp only [List.mem_map, List.mem_filter, decide_eq_true_eq, and_assoc]

/-- What is asked for by the requests of a pull. -/
theorem requested_pull {indices : List SegmentIndex} {pid : ℕ}
    (hreq : requestsOf r.2 = indices.map fun i => ⟨d, i, pid⟩) :
    (s.after r).requested d = s.requested d ++ indices ∧
      ∀ d', d' ≠ d → (s.after r).requested d' = s.requested d' := by
  constructor
  · rw [requested_after, hreq, List.filter_eq_self.mpr, List.map_map]
    · exact congrArg (s.requested d ++ ·) (List.map_id _)
    · intro sr hsr
      obtain ⟨i, -, rfl⟩ := List.mem_map.mp hsr
      exact decide_eq_true rfl
  · intro d' hd'
    refine requested_after_of_ne fun sr hsr => ?_
    rw [hreq] at hsr
    obtain ⟨i, -, rfl⟩ := List.mem_map.mp hsr
    exact hd'.symm

/-- Different segments of a pull start at different indices. -/
theorem Pulled.key (h : Pulled s d) : ∀ i ∈ s.requested d, ∀ j ∈ s.requested d,
    i.fromIdx = j.fromIdx → i = j := by
  obtain ⟨seqLen, fromNodes, -, hsame⟩ := h
  intro i hi j hj heq
  obtain ⟨k, hk⟩ := List.getElem?_of_mem ((hsame i).mp hi)
  obtain ⟨l, hl⟩ := List.getElem?_of_mem ((hsame j).mp hj)
  obtain ⟨-, rfl⟩ := getElem?_indices.mp hk
  obtain ⟨-, rfl⟩ := getElem?_indices.mp hl
  have heq' : k * (seqLen / fromNodes.length) = l * (seqLen / fromNodes.length) := heq
  rw [Nat.succ_mul, Nat.succ_mul, heq']

/-- The phase depends on the keys of the maps only. -/
theorem Phase.congr (h : Phase s) {t : LogTransfer S}
    (hactive : t.comp.activeConfig.id = s.comp.activeConfig.id)
    (hnext : t.comp.nextConfigId = s.comp.nextConfigId) (hstarts : t.starts = s.starts)
    (hprev : ∀ d, d ∈ t.comp.prevSequences ↔ d ∈ s.comp.prevSequences)
    (hpending : ∀ d, d ∈ t.comp.pendingSegments ↔ d ∈ s.comp.pendingSegments) : Phase t := by
  refine ⟨?_, ?_, ?_, ?_, ?_, ?_⟩
  · rw [hactive, hstarts]; exact h.starts
  · simp only [hactive, hnext, hprev, hpending]; exact h.idle
  · simp only [hactive, hnext, hprev, hpending]; exact h.next
  · simp only [hprev, hpending]; exact h.low
  · rw [hactive, hprev]; exact h.active
  · simp only [hactive, hpending]; exact h.pending

/-- A pull adds its configuration to the pending ones. -/
theorem Phase.pull (h : Phase s) {t : LogTransfer S}
    (hactive : t.comp.activeConfig.id = s.comp.activeConfig.id)
    (hsame : t.comp.nextConfigId = s.comp.nextConfigId) (hstarts : t.starts = s.starts)
    (hprev : ∀ d', d' ∈ t.comp.prevSequences ↔ d' ∈ s.comp.prevSequences)
    (hmem : ∀ d', d' ∈ t.comp.pendingSegments ↔ d' = d ∨ d' ∈ s.comp.pendingSegments)
    (hlow : 1 ≤ d) {n : ℕ} (hnext : s.comp.nextConfigId = some n) (hn : d < n)
    (hle : s.comp.activeConfig.id ≤ d) : Phase t := by
  refine ⟨?_, ?_, ?_, ?_, ?_, ?_⟩
  · rw [hactive, hstarts]; exact h.starts
  · intro hnone
    rw [hsame, hnext] at hnone
    cases hnone
  · intro m hm
    rw [hsame, hnext] at hm
    cases hm
    obtain ⟨h1, h2, h3⟩ := h.next n hnext
    refine ⟨h1, hactive ▸ h2, fun d' hd' => ?_⟩
    rw [hprev, hmem] at hd'
    rcases hd' with hd' | rfl | hd'
    · exact h3 d' (Or.inl hd')
    · exact hn
    · exact h3 d' (Or.inr hd')
  · intro d' hd'
    rw [hprev, hmem] at hd'
    rcases hd' with hd' | rfl | hd'
    · exact h.low d' (Or.inl hd')
    · exact hlow
    · exact h.low d' (Or.inr hd')
  · rw [hactive, hprev]; exact h.active
  · intro d' hd'
    rw [hactive]
    rcases (hmem d').mp hd' with rfl | hd'
    · exact hle
    · exact h.pending d' hd'

/-- A configuration that was pending has its sequence. -/
theorem Phase.finish (h : Phase s) {t : LogTransfer S}
    (hactive : t.comp.activeConfig.id = s.comp.activeConfig.id)
    (hnext : t.comp.nextConfigId = s.comp.nextConfigId) (hstarts : t.starts = s.starts)
    (hprev : ∀ d', d' ∈ t.comp.prevSequences ↔ d' = d ∨ d' ∈ s.comp.prevSequences)
    (hmem : ∀ d', d' ∈ t.comp.pendingSegments → d' ∈ s.comp.pendingSegments)
    (hin : d ∈ s.comp.pendingSegments) (hlt : s.comp.activeConfig.id < d) : Phase t := by
  have hkeys : ∀ d', d' ∈ t.comp.prevSequences ∨ d' ∈ t.comp.pendingSegments →
      d' ∈ s.comp.prevSequences ∨ d' ∈ s.comp.pendingSegments := by
    rintro d' (hd' | hd')
    · rcases (hprev d').mp hd' with rfl | hd'
      · exact Or.inr hin
      · exact Or.inl hd'
    · exact Or.inr (hmem d' hd')
  refine ⟨?_, ?_, ?_, ?_, ?_, ?_⟩
  · rw [hactive, hstarts]; exact h.starts
  · intro hnone
    rw [hnext] at hnone
    exact absurd hin ((h.idle hnone).1 d)
  · intro n hn
    rw [hnext] at hn
    obtain ⟨h1, h2, h3⟩ := h.next n hn
    exact ⟨h1, hactive ▸ h2, fun d' hd' => h3 d' (hkeys d' hd')⟩
  · exact fun d' hd' => h.low d' (hkeys d' hd')
  · intro hd'
    rw [hactive] at hd'
    rcases (hprev _).mp hd' with heq | hd'
    · exact absurd heq hlt.ne
    · exact h.active hd'
  · intro d' hd'
    rw [hactive]
    exact h.pending d' (hmem d' hd')

theorem Pulled.congr (h : Pulled s d) (hsame : ∀ i, i ∈ (s.after r).requested d ↔ i ∈ s.requested d) :
    Pulled (s.after r) d := by
  obtain ⟨seqLen, fromNodes, hne, hmem⟩ := h
  exact ⟨seqLen, fromNodes, hne, fun i => (hsame i).trans (hmem i)⟩

/-- A step that sends nothing. -/
theorem Pulled.silent {c : PaxosComp S} (h : Pulled s d) : Pulled (s.after (c, [])) d :=
  h.congr fun i => by rw [requested_silent]

end Outputs

variable {S : Type} [SequenceTraits S] {J : Joining S} {s : LogTransfer S} {c : PaxosComp S}
  {d : ℕ} {r r' : After S}

/-- A part of a handler that leads from `s` to `r` goes well. -/
structure Good (J : Joining S) (s : LogTransfer S) (r : After S) : Prop where
  inv : Inv J (s.after r)
  keep : ∀ d seq, s.comp.prevSequences.lookup d = some seq → r.1.prevSequences.lookup d = some seq
  start : startsOf r.2 = [] ∨ ∃ n, startsOf r.2 = [n] ∧ r.1.prevSequences.len + 1 = n

theorem Good.trans (h : Good J s r) (hstart : startsOf r.2 = []) (h' : Good J (s.after r) r') :
    Good J s (r'.1, r.2 ++ r'.2) := by
  refine ⟨?_, fun d seq hseq => h'.keep d seq (h.keep d seq hseq), ?_⟩
  · rw [← after_after]
    exact h'.inv
  · rw [startsOf_append, hstart, List.nil_append]
    exact h'.start

/-- Requests that were made before, for segments still pending. -/
theorem inv_same (h : Inv J s) (hsame : Same s.comp r.1)
    (hreq : ∀ sr ∈ requestsOf r.2, sr.configId ∈ s.comp.pendingSegments ∧
      sr.idx ∈ s.requested sr.configId) (hstart : startsOf r.2 = []) : Good J s r := by
  have hmem : ∀ d i, i ∈ (s.after r).requested d ↔ i ∈ s.requested d := by
    intro d i
    rw [requested_after, List.mem_append, or_iff_left_of_imp]
    intro hi
    obtain ⟨sr, hsr, rfl⟩ := List.mem_map.mp hi
    obtain ⟨hsr, hd⟩ := List.mem_filter.mp hsr
    rw [← of_decide_eq_true hd]
    exact (hreq sr hsr).2
  have hstarts : (s.after r).starts = s.starts := by rw [starts_after, hstart, List.append_nil]
  obtain ⟨hactive, hnext, hprev, hpending, hreceived⟩ := hsame
  refine ⟨⟨?_, ?_, ?_, ?_, ?_⟩, ?_, Or.inl hstart⟩
  · refine h.phase.congr hactive hnext hstarts (fun d => ?_) fun d => ?_
    · show d ∈ r.1.prevSequences ↔ _
      rw [hprev]
    · show d ∈ r.1.pendingSegments ↔ _
      rw [hpending]
  · show ∀ d pending, r.1.pendingSegments.lookup d = some pending → _
    rw [hpending]
    intro d pending hlookup
    obtain ⟨hpulled, hcoll⟩ := h.pending d pending hlookup
    have hrec : (s.after r).receivedOf d = s.receivedOf d := by
      show (r.1.receivedSegments.lookup d).getD [] = _
      rw [hreceived]; rfl
    rw [hrec]
    exact ⟨hpulled.congr (hmem d), hcoll.congr (hmem d)⟩
  · show ∀ d segments, r.1.receivedSegments.lookup d = some segments → d ∈ r.1.pendingSegments ∧ _
    rw [hreceived, hpending]; exact h.received
  · show ∀ d seq, r.1.prevSequences.lookup d = some seq → d ∉ r.1.pendingSegments ∧ _
    rw [hprev, hpending]
    intro d seq hlookup
    obtain ⟨hnot, hseq, hpulled⟩ := h.done d seq hlookup
    have heq : (s.after r).requested d = s.requested d :=
      requested_after_of_ne fun sr hsr hd => hnot (hd ▸ (hreq sr hsr).1)
    rw [heq]
    exact ⟨hnot, hseq, hpulled.imp_left fun hp => hp.congr (hmem d)⟩
  · show ∀ d, _ → d ∈ r.1.pendingSegments ∨ d ∈ r.1.prevSequences
    rw [hprev, hpending]
    intro d hne
    obtain ⟨i, hi⟩ := List.exists_mem_of_ne_nil _ hne
    exact h.asked d (List.ne_nil_of_mem ((hmem d i).mp hi))
  · rw [hprev]
    intro d seq hseq
    exact hseq

/-- A configuration is pulled that has not been pulled before. -/
theorem inv_pull (h : Inv J s) {seqLen : ℕ} {fromNodes : List ℕ}
    (hr : s.comp.pullSequence d seqLen fromNodes = some r) (hpending : d ∉ s.comp.pendingSegments)
    (hprev : d ∉ s.comp.prevSequences) (hlow : 1 ≤ d) {n : ℕ}
    (hnext : s.comp.nextConfigId = some n) (hn : d < n) (hactive : s.comp.activeConfig.id ≤ d) :
    Good J s r ∧ startsOf r.2 = [] := by
  obtain ⟨c', out⟩ := r
  obtain ⟨hne, rfl, hreq, hstart⟩ := pullSequence_eq hr
  set indices := (getNodeSegmentIdx seqLen fromNodes).map Prod.snd with hindices
  set r : After S := ({ s.comp with
    timers := s.comp.timers.schedule d
    pendingSegments := s.comp.pendingSegments.insert d indices }, out) with hr'
  have hnone : s.requested d = [] := by
    by_contra hne'
    rcases h.asked d hne' with h' | h'
    · exact hpending h'
    · exact hprev h'
  obtain ⟨hnew, hold⟩ := requested_pull (s := s) (r := r) hreq
  rw [hnone, List.nil_append] at hnew
  have hmem : ∀ d', d' ∈ r.1.pendingSegments ↔ d' = d ∨ d' ∈ s.comp.pendingSegments := fun d' =>
    Finmap.mem_insert
  refine ⟨⟨⟨?_, ?_, ?_, ?_, ?_⟩, fun d' seq hseq => hseq, Or.inl hstart⟩, hstart⟩
  · refine h.phase.pull rfl rfl ?_ (fun d' => Iff.rfl) hmem hlow hnext hn hactive
    rw [starts_after, hstart, List.append_nil]
  · intro d' pending hlookup
    have hlookup' : (s.comp.pendingSegments.insert d indices).lookup d' = some pending := hlookup
    rw [HashMap.lookup_insert_ite] at hlookup'
    split_ifs at hlookup' with hd'
    · subst hd'
      cases hlookup'
      have hrec : (s.after r).receivedOf d' = [] := by
        show (s.comp.receivedSegments.lookup d').getD [] = []
        cases hl : s.comp.receivedSegments.lookup d' with
        | none => rfl
        | some segments => exact absurd (h.received d' segments hl).1 hpending
      rw [hrec, hnew]
      refine ⟨⟨seqLen, fromNodes, hne, fun i => ?_⟩, Collecting.start _⟩
      rw [hnew]
    · obtain ⟨hpulled, hcoll⟩ := h.pending d' pending hlookup'
      refine ⟨hpulled.congr fun i => by rw [hold d' hd'], ?_⟩
      rw [hold d' hd']
      exact hcoll
  · intro d' segments hlookup
    obtain ⟨h1, h2⟩ := h.received d' segments hlookup
    exact ⟨(hmem d').mpr (Or.inr h1), h2⟩
  · intro d' seq hlookup
    obtain ⟨h1, h2, h3⟩ := h.done d' seq hlookup
    have hd' : d' ≠ d := by
      rintro rfl
      exact hprev (HashMap.mem_of_lookup hlookup)
    rw [hold d' hd']
    refine ⟨fun hin => ?_, h2, h3.imp_left fun hp => hp.congr fun i => by rw [hold d' hd']⟩
    rcases (hmem d').mp hin with heq | hin
    · exact hd' heq
    · exact h1 hin
  · intro d' hne'
    by_cases hd' : d' = d
    · exact Or.inl ((hmem d').mpr (Or.inl hd'))
    · rw [hold d' hd'] at hne'
      exact (h.asked d' hne').imp_left fun hin => (hmem d').mpr (Or.inr hin)

/-- The segments received have the entries of the final sequence. -/
theorem Inv.entries (h : Inv J s) {seg : SequenceSegment} (hseg : seg ∈ s.receivedOf d) :
    seg.entries = seg.idx.slice (J.final d) := by
  unfold receivedOf at hseg
  cases hrec : s.comp.receivedSegments.lookup d with
  | none => rw [hrec] at hseg; cases hseg
  | some segments =>
    rw [hrec] at hseg
    exact (h.received d segments hrec).2 seg hseg

/-- A segment arrives that was asked for and is new. -/
theorem inv_segment (h : Inv J s) {seg : SequenceSegment}
    (hc : s.comp.handleSegment d seg = some c) (hasked : seg.idx ∈ s.requested d)
    (hnew : seg.idx ∉ (s.receivedOf d).map SequenceSegment.idx)
    (hentries : seg.entries = seg.idx.slice (J.final d)) : Good J s (c, []) := by
  obtain ⟨pending, hlookup, rfl⟩ := Option.map_eq_some_iff.mp hc
  have hin : d ∈ s.comp.pendingSegments := HashMap.mem_of_lookup hlookup
  have hmem : ∀ d' v, d' ∈ s.comp.pendingSegments.insert d v ↔ d' ∈ s.comp.pendingSegments := by
    intro d' v
    rw [Finmap.mem_insert]
    exact ⟨fun h' => h'.elim (fun heq => heq ▸ hin) id, Or.inr⟩
  refine ⟨⟨?_, ?_, ?_, ?_, ?_⟩, fun d' seq hseq => hseq, Or.inl rfl⟩
  · refine h.phase.congr rfl rfl ?_ (fun d' => Iff.rfl) fun d' => hmem d' _
    rw [starts_after]; exact List.append_nil _
  · intro d' pending' hlookup'
    have hl : (s.comp.pendingSegments.insert d (pending.filter (· ≠ seg.idx))).lookup d' =
      some pending' := hlookup'
    rw [HashMap.lookup_insert_ite] at hl
    rw [requested_silent]
    split_ifs at hl with hd'
    · subst hd'
      cases hl
      obtain ⟨hpulled, hcoll⟩ := h.pending d' pending hlookup
      refine ⟨hpulled.silent, ?_⟩
      unfold receivedOf after
      dsimp only
      rw [Finmap.lookup_insert]
      exact hcoll.receive hasked hnew
    · obtain ⟨hpulled, hcoll⟩ := h.pending d' pending' hl
      refine ⟨hpulled.silent, ?_⟩
      unfold receivedOf after
      dsimp only
      rw [Finmap.lookup_insert_of_ne _ hd']
      exact hcoll
  · intro d' segments hlookup'
    have hl : (s.comp.receivedSegments.insert d (s.receivedOf d ++ [seg])).lookup d' =
      some segments := hlookup'
    rw [HashMap.lookup_insert_ite] at hl
    split_ifs at hl with hd'
    · subst hd'
      cases hl
      refine ⟨(hmem _ _).mpr hin, fun seg' hseg' => ?_⟩
      rcases List.mem_append.mp hseg' with hold | hold
      · exact h.entries hold
      · rw [List.mem_singleton.mp hold]; exact hentries
    · obtain ⟨h1, h2⟩ := h.received d' segments hl
      exact ⟨(hmem _ _).mpr h1, h2⟩
  · intro d' seq hseq
    rw [requested_silent]
    obtain ⟨h1, h2, h3⟩ := h.done d' seq hseq
    exact ⟨fun hin' => h1 ((hmem _ _).mp hin'), h2, h3.imp_left Pulled.silent⟩
  · intro d' hne
    rw [requested_silent] at hne
    exact (h.asked d' hne).imp_left (hmem _ _).mpr

/-- The segments of a configuration for which nothing is pending give its sequence. -/
theorem assemble_received (h : Inv J s) (hlookup : s.comp.pendingSegments.lookup d = some []) :
    (sortSegments (s.receivedOf d)).flatMap SequenceSegment.entries =
      assemble (J.final d) (s.requested d) := by
  obtain ⟨hpulled, hcoll⟩ := h.pending d [] hlookup
  have hsorted := hcoll.sorted SegmentIndex.fromIdx hpulled.key
  have hentries : ∀ seg ∈ sortSegments (s.receivedOf d), seg.entries = seg.idx.slice (J.final d) :=
    fun seg hseg => h.entries ((List.mem_insertionSort _).mp hseg)
  unfold assemble
  rw [← hsorted, List.flatMap_map]
  exact List.flatMap_congr hentries

/-- The sequence of a configuration is complete. -/
theorem inv_finish (h : Inv J s) (hlookup : s.comp.pendingSegments.lookup d = some [])
    (hactive : s.comp.activeConfig.id < d) {seq : S}
    (hseq : seq = SequenceTraits.newWithSequence (assemble (J.final d) (s.requested d))) :
    Good J s ({ s.comp with
      receivedSegments := s.comp.receivedSegments.erase d
      prevSequences := s.comp.prevSequences.insert d seq
      pendingSegments := s.comp.pendingSegments.erase d }, []) := by
  have hin : d ∈ s.comp.pendingSegments := HashMap.mem_of_lookup hlookup
  have hprev : d ∉ s.comp.prevSequences := by
    intro hmem
    obtain ⟨seq', hl⟩ := Finmap.mem_iff.mp hmem
    exact (h.done d seq' hl).1 hin
  refine ⟨⟨?_, ?_, ?_, ?_, ?_⟩, ?_, Or.inl rfl⟩
  · refine h.phase.finish rfl rfl ?_ (fun d' => Finmap.mem_insert)
      (fun d' hd' => (Finmap.mem_erase.mp hd').2) hin hactive
    rw [starts_after]; exact List.append_nil _
  · intro d' pending hl
    have hl' : (s.comp.pendingSegments.erase d).lookup d' = some pending := hl
    rw [HashMap.lookup_erase_ite] at hl'
    split_ifs at hl' with hd'
    obtain ⟨hpulled, hcoll⟩ := h.pending d' pending hl'
    refine ⟨hpulled.silent, ?_⟩
    rw [requested_silent]
    unfold receivedOf after
    dsimp only
    rw [Finmap.lookup_erase_ne hd']
    exact hcoll
  · intro d' segments hl
    have hl' : (s.comp.receivedSegments.erase d).lookup d' = some segments := hl
    rw [HashMap.lookup_erase_ite] at hl'
    split_ifs at hl' with hd'
    obtain ⟨h1, h2⟩ := h.received d' segments hl'
    exact ⟨Finmap.mem_erase.mpr ⟨hd', h1⟩, h2⟩
  · intro d' seq' hl
    rw [requested_silent]
    have hl' : (s.comp.prevSequences.insert d seq).lookup d' = some seq' := hl
    rw [HashMap.lookup_insert_ite] at hl'
    split_ifs at hl' with hd'
    · subst hd'
      cases hl'
      refine ⟨fun hmem => (Finmap.mem_erase.mp hmem).1 rfl, hseq, Or.inl ?_⟩
      exact (h.pending d' [] hlookup).1.silent
    · obtain ⟨h1, h2, h3⟩ := h.done d' seq' hl'
      exact ⟨fun hmem => h1 (Finmap.mem_erase.mp hmem).2, h2, h3.imp_left Pulled.silent⟩
  · intro d' hne
    rw [requested_silent] at hne
    by_cases hd' : d' = d
    · exact Or.inr (Finmap.mem_insert.mpr (Or.inl hd'))
    · rcases h.asked d' hne with hmem | hmem
      · exact Or.inl (Finmap.mem_erase.mpr ⟨hd', hmem⟩)
      · exact Or.inr (Finmap.mem_insert.mpr (Or.inr hmem))
  · intro d' seq' hl
    have hd' : d' ≠ d := by
      rintro rfl
      exact hprev (HashMap.mem_of_lookup hl)
    show (s.comp.prevSequences.insert d seq).lookup d' = some seq'
    rw [Finmap.lookup_insert_of_ne _ hd']
    exact hl

/-- When there are as many sequences as earlier configurations, they are those of all of them, and no
replica has been started. -/
theorem complete_of_len (h : Inv J s) {n : ℕ} (hnext : s.comp.nextConfigId = some n)
    (hlen : s.comp.prevSequences.len + 1 = n) : s.comp.activeConfig.id = 0 ∧ s.starts = [] ∧
      s.comp.prevSequences.keys = Finset.Ico 1 n := by
  have hphase := h.phase
  obtain ⟨htwo, hlt, hbelow⟩ := hphase.next n hnext
  have hcard : s.comp.prevSequences.keys.card = n - 1 := by
    have : s.comp.prevSequences.keys.card + 1 = n := hlen
    omega
  have hsub : s.comp.prevSequences.keys ⊆ Finset.Ico 1 n := by
    intro d hd
    have hd' := Finmap.mem_keys.mp hd
    exact Finset.mem_Ico.mpr ⟨hphase.low d (Or.inl hd'), hbelow d (Or.inl hd')⟩
  have hkeys : s.comp.prevSequences.keys = Finset.Ico 1 n := by
    refine Finset.eq_of_subset_of_card_le hsub ?_
    rw [Nat.card_Ico, hcard]
  rcases hphase.starts with ⟨hzero, hstarts⟩ | ⟨hactive, -⟩
  · exact ⟨hzero, hstarts, hkeys⟩
  · -- the active configuration has no sequence
    have hmem : s.comp.activeConfig.id ∈ s.comp.prevSequences.keys := by
      rw [hkeys]
      exact Finset.mem_Ico.mpr ⟨le_trans (by decide) hactive, hlt⟩
    exact absurd (Finmap.mem_keys.mp hmem) hphase.active

/-- The replica is started. -/
theorem inv_start (h : Inv J s) {n : ℕ} (hnext : s.comp.nextConfigId = some n)
    (hlen : s.comp.prevSequences.len + 1 = n) (hr : s.comp.startReplica n = some r) : Good J s r := by
  obtain ⟨hzero, hstarts, hkeys⟩ := complete_of_len h hnext hlen
  have hprev : ∀ d, d ∈ s.comp.prevSequences ↔ 1 ≤ d ∧ d < n := by
    intro d
    rw [← Finmap.mem_keys, hkeys, Finset.mem_Ico]
  obtain ⟨htwo, -, hbelow⟩ := h.phase.next n hnext
  have hnone : ∀ d, d ∉ s.comp.pendingSegments := by
    intro d hd
    obtain ⟨seq, hl⟩ := Finmap.mem_iff.mp
      ((hprev d).mpr ⟨h.phase.low d (Or.inr hd), hbelow d (Or.inr hd)⟩)
    exact (h.done d seq hl).1 hd
  have hreq : ∀ d, (s.after ({ s.comp with
      activeConfig := .new n, nextConfigId := none }, [.start n])).requested d = s.requested d :=
    fun d => requested_after_of_ne fun sr hsr => by cases hsr
  rw [startReplica_eq hr]
  refine ⟨⟨⟨?_, ?_, ?_, ?_, ?_, ?_⟩, ?_, ?_, ?_, ?_⟩, fun d seq hl => hl, Or.inr ⟨n, rfl, hlen⟩⟩
  · refine Or.inr ⟨htwo, ?_⟩
    rw [starts_after, hstarts]
    rfl
  · exact fun _ => ⟨hnone, fun d hd => ((hprev d).mp hd).2⟩
  · intro m hm; cases hm
  · intro d hd
    rcases hd with hd | hd
    · exact ((hprev d).mp hd).1
    · exact absurd hd (hnone d)
  · intro hmem
    exact lt_irrefl n ((hprev n).mp hmem).2
  · intro d hd
    exact absurd hd (hnone d)
  · intro d pending hl
    exact absurd (HashMap.mem_of_lookup hl) (hnone d)
  · intro d segments hl
    exact absurd (h.received d segments hl).1 (hnone d)
  · intro d seq hl
    rw [hreq]
    obtain ⟨h1, h2, h3⟩ := h.done d seq hl
    exact ⟨h1, h2, h3.imp_left fun hp => hp.congr fun i => by rw [hreq]⟩
  · intro d hne
    rw [hreq] at hne
    exact h.asked d hne

end LogTransfer

end OmniPaxosBench.OmniPaxos
