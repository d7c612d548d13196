import OmniPaxosBench.Lib.Machine
import OmniPaxosBench.Storage.Refinement

/-! # Appends with failing writes

A call of `append_log` can return an error when a length is not written. If the call was to add
entries at the end of the log, the bytes it has written lie behind all entries, and the readers do not
see them. If it was to replace entries, they lie over entries that are still counted, and the cursor
is left among them. And a completed call can leave an entry beyond the part of the file that is
mapped, where no reader gets it.

`Careful` excludes these two, and `allOrNothing_of_careful` says that nothing else goes wrong: in a
run of careful calls an error leaves all reads as they were, and after a completed call the whole log
is read back. -/

namespace OmniPaxosBench.Storage

open OmniPaxosBench.Lib
open RaftLog (serialisedSize)

/-- One call of `append_log`, and the write that fails in it. -/
structure AppendCall (E : Type) where
  entries : List E
  fault : Option Fault

/-- The storage, and the list of the entries whose append has returned `Ok`. -/
structure Disk (E : Type) where
  store : DiskStorageCore
  log : RaftLog E

/-- The write of the fault takes place, and has more bytes than are written. -/
def Fault.Strikes {E : Type} [Raft E] (es : List E) : Fault → Prop
  | .length i written => i < es.length ∧ written < 8
  | .entry i written => ∃ e ∈ es[i]?, written < (Raft.writeToBytes e).length

instance {E : Type} [Raft E] (es : List E) : ∀ f : Fault, Decidable (f.Strikes es)
  | .length _ _ => inferInstanceAs (Decidable (_ ∧ _))
  | .entry _ _ => inferInstanceAs (Decidable (∃ _ ∈ _, _))

/-- The write is that of a length. -/
def Fault.ofLength : Fault → Bool
  | .length _ _ => true
  | .entry _ _ => false

namespace AppendCall

variable {E : Type} [Raft E] (call : AppendCall E)

/-- A write fails. -/
def Fails : Prop := ∃ f ∈ call.fault, f.Strikes call.entries

/-- The write of a length fails. -/
def LengthFails : Prop := ∃ f ∈ call.fault, f.Strikes call.entries ∧ f.ofLength

instance : Decidable call.Fails := inferInstanceAs (Decidable (∃ _ ∈ _, _))

instance : Decidable call.LengthFails := inferInstanceAs (Decidable (∃ _ ∈ _, _))

end AppendCall

/-- All reads of the log return the same. -/
structure SameReads (E : Type) [Raft E] (d d' : DiskStorageCore) : Prop where
  firstIndex : d'.firstIndex = d.firstIndex
  lastIndex : d'.lastIndex = d.lastIndex
  term : ∀ i, d'.term E i = d.term E i
  entries : ∀ lo hi, d.firstIndex ≤ lo → lo ≤ hi → hi ≤ d.lastIndex + 1 →
    d'.entries E lo hi none = d.entries E lo hi none

namespace Disk

variable {E : Type} [Raft E]

/-- One call; a call that panics has no state after it. -/
def step (s : Disk E) (call : AppendCall E) : Option (Disk E) :=
  if s.log.Accepts call.entries then
    match s.store.appendLog call.fault call.entries with
    | (d, .ok) => some ⟨d, s.log.append call.entries⟩
    | (d, .err) => some ⟨d, s.log⟩
    | (_, .panic) => none
  else none

/-- The storage from its creation on. -/
def machine (E : Type) [Raft E] : Machine (Disk E) (AppendCall E) where
  init := ⟨.newWithConfState, .empty⟩
  step := step

/-- An error leaves all reads as they were; after a completed call the whole log is read back. -/
def AllOrNothing (s : Disk E) (call : AppendCall E) : Prop :=
  match s.store.appendLog call.fault call.entries with
  | (d, .ok) => d.Agrees (s.log.append call.entries)
  | (d, .err) => SameReads E s.store d
  | (_, .panic) => True

/-- If a length is not written, then the call was to add entries at the end; and if all is written,
then within the part of the file that is mapped. -/
def Careful (s : Disk E) (call : AppendCall E) : Prop :=
  ∀ e ∈ call.entries.head?,
    (call.LengthFails → s.store.numEntries ≤ Raft.index e - s.store.firstIndex) ∧
    (¬ call.Fails → ∀ pos ∈ s.store.writePos (Raft.index e - s.store.firstIndex),
      pos + serialisedSize call.entries ≤ fileSize)

instance (s : Disk E) (call : AppendCall E) : Decidable (s.Careful call) :=
  inferInstanceAs (Decidable (∀ _ ∈ _, _))

end Disk

namespace DiskStorageCore

variable {E : Type} [Raft E] {d d' : DiskStorageCore} {fault : Option Fault} {es : List E}

/-- The loop ends only if no write fails. -/
theorem not_strikes_of_ok {fromLogIndex i : ℕ} (h : writeEntries fault fromLogIndex i es d = (d', .ok)) :
    (∀ j k, fault = some (.length (i + j) k) → j < es.length → 8 ≤ k) ∧
    ∀ j k e, fault = some (.entry (i + j) k) → es[j]? = some e → (Raft.writeToBytes e).length ≤ k := by
  induction es generalizing i d with
  | nil => exact ⟨fun _ _ _ hj => absurd hj (by simp), fun _ _ _ _ he => by simp at he⟩
  | cons e es ih =>
    simp only [writeEntries] at h
    obtain ⟨log₁, b₁, h₁⟩ : ∃ log b, d.log.writeAll (putU64 (Raft.writeToBytes e).length)
        (lengthRoom fault i) = (log, b) := ⟨_, _, rfl⟩
    simp only [h₁] at h
    cases b₁ with
    | false => cases h
    | true =>
      obtain ⟨log₂, b₂, h₂⟩ : ∃ log b, log₁.writeAll (Raft.writeToBytes e) (entryRoom fault i) =
          (log, b) := ⟨_, _, rfl⟩
      simp only [h₂] at h
      cases b₂ with
      | false => cases h
      | true =>
        dsimp only at h
        split at h
        · cases h
        · obtain ⟨hlen, hent⟩ := ih h
          constructor
          · rintro j k rfl hj
            cases j with
            | zero =>
              by_contra hk
              simp [lengthRoom, FileMmap.writeAll, not_le.mp hk] at h₁
            | succ j =>
              refine hlen j k ?_ (by simpa using hj)
              rw [Nat.add_assoc, Nat.add_comm 1 j]
          · rintro j k e' rfl he
            cases j with
            | zero =>
              cases he
              by_contra hk
              simp [entryRoom, FileMmap.writeAll, not_le.mp hk] at h₂
            | succ j =>
              refine hent j k e' ?_ he
              rw [Nat.add_assoc, Nat.add_comm 1 j]

variable {l : RaftLog E} {cells : List Cell} {e : E}

/-- A call that returns `Ok` has no failing write. -/
theorem Holds.not_fails (h : Holds d l cells) (ha : l.Accepts (e :: es))
    (heq : d.appendLog fault (e :: es) = (d', .ok)) : ¬ (⟨e :: es, fault⟩ : AppendCall E).Fails := by
  obtain ⟨pos, d₁, r₁, -, -, hloop, happ⟩ := h.appendLog_loop fault ha
  obtain rfl : r₁ = .ok := congrArg Prod.snd (happ.symm.trans heq)
  obtain ⟨hlen, hent⟩ := not_strikes_of_ok hloop
  rintro ⟨f, hf, hstrikes⟩
  cases f with
  | length i k =>
    obtain ⟨hi, hk⟩ := hstrikes
    exact absurd (hlen i k (by rw [Nat.zero_add]; exact hf) hi) (not_le.mpr hk)
  | entry i k =>
    obtain ⟨e', he, hk⟩ := hstrikes
    exact absurd (hent i k e' (by rw [Nat.zero_add]; exact hf) he) (not_le.mpr hk)

/-- A call that returns an error failed to write a length. -/
theorem Holds.lengthFails (h : Holds d l cells) (ha : l.Accepts (e :: es))
    (heq : d.appendLog fault (e :: es) = (d', .err)) :
    (⟨e :: es, fault⟩ : AppendCall E).LengthFails := by
  obtain ⟨pos, d₁, r₁, -, -, hloop, happ⟩ := h.appendLog_loop fault ha
  obtain rfl : r₁ = .err := congrArg Prod.snd (happ.symm.trans heq)
  obtain ⟨-, -, -, -, herr⟩ := writeEntries_spec hloop (by simp)
  obtain ⟨i, k, hf, hi, hk⟩ := herr rfl
  rw [Nat.zero_add] at hi
  exact ⟨_, hf, ⟨hi, hk⟩, rfl⟩

end DiskStorageCore

namespace Disk

variable {E : Type} [Raft E] {s t : Disk E} {call : AppendCall E}

open DiskStorageCore

/-- Two storages that agree with one list read the same. -/
theorem sameReads_of_agrees {d d' : DiskStorageCore} {l : RaftLog E} (h : Agrees d l)
    (h' : Agrees d' l) : SameReads E d d' where
  firstIndex := h'.firstIndex.trans h.firstIndex.symm
  lastIndex := h'.lastIndex.trans h.lastIndex.symm
  term i := (h'.term i).trans (h.term i).symm
  entries lo hi hlo hle hhi := by
    rw [h.firstIndex] at hlo
    rw [h.lastIndex] at hhi
    rw [h'.entries lo hi hlo hle hhi, h.entries lo hi hlo hle hhi]

/-- The entries of the list lie in the log file. -/
def Sound (s : Disk E) : Prop := ∃ cells, Holds s.store s.log cells

theorem sound_init : (machine E).init.Sound := ⟨_, packed_init.holds⟩

/-- **A careful call** keeps the invariant, whether it returns `Ok` or an error. -/
theorem Sound.append (hs : s.Sound) (ha : s.log.Accepts call.entries) (hc : s.Careful call)
    {d : DiskStorageCore} :
    (s.store.appendLog call.fault call.entries = (d, .ok) →
      Sound ⟨d, s.log.append call.entries⟩) ∧
    (s.store.appendLog call.fault call.entries = (d, .err) → Sound ⟨d, s.log⟩) := by
  obtain ⟨cells, h⟩ := hs
  obtain ⟨entries, fault⟩ := call
  cases entries with
  | nil =>
    constructor
    · intro heq
      cases heq
      exact ⟨cells, h⟩
    · intro heq
      cases heq
  | cons e es =>
    obtain ⟨hend, hfit⟩ := hc e rfl
    rw [h.firstIndex] at hend hfit
    constructor
    · intro heq
      obtain ⟨pos, -, -, hpos, -⟩ := h.appendLog_loop fault ha
      have hroom := hfit (h.not_fails ha heq) pos hpos
      exact ⟨_, (h.appendLog_ok ha heq hpos hroom).1⟩
    · intro heq
      exact ⟨cells, h.appendLog_err ha heq (hend (h.lengthFails ha heq))⟩

theorem step_cases (h : s.step call = some t) : s.log.Accepts call.entries ∧ ∃ d,
    (s.store.appendLog call.fault call.entries = (d, .ok) ∧ t = ⟨d, s.log.append call.entries⟩) ∨
    (s.store.appendLog call.fault call.entries = (d, .err) ∧ t = ⟨d, s.log⟩) := by
  unfold step at h
  split_ifs at h with ha
  refine ⟨ha, ?_⟩
  split at h
  · next d heq => exact ⟨d, Or.inl ⟨heq, (Option.some.inj h).symm⟩⟩
  · next d heq => exact ⟨d, Or.inr ⟨heq, (Option.some.inj h).symm⟩⟩
  · cases h

theorem sound_of_reachable (h : (machine E).ReachableUnder Careful s) : s.Sound := by
  refine h.invariant (P := Sound) sound_init fun s call t _ hc hs hstep => ?_
  obtain ⟨ha, d, ⟨heq, rfl⟩ | ⟨heq, rfl⟩⟩ := step_cases hstep
  · exact (hs.append ha hc).1 heq
  · exact (hs.append ha hc).2 heq

/-- **All or nothing**: in a run of careful calls, a call that returns an error leaves all reads as
they were, and after one that returns `Ok` the whole log is read back. -/
theorem allOrNothing_of_careful {E : Type} [Raft E] {s : Disk E}
    (h : (machine E).ReachableUnder Careful s) {call : AppendCall E}
    (ha : s.log.Accepts call.entries) (hc : s.Careful call) : s.AllOrNothing call := by
  have hs := sound_of_reachable h
  unfold AllOrNothing
  split
  · next d heq =>
    obtain ⟨cells, hnew⟩ := (hs.append ha hc).1 heq
    exact hnew.agrees
  · next d heq =>
    obtain ⟨cells, hnew⟩ := (hs.append ha hc).2 heq
    obtain ⟨cells₀, hold⟩ := hs
    exact sameReads_of_agrees hold.agrees hnew.agrees
  · trivial

/-- Two entries; an append at the end that fails in its second length; and the same append again. -/
def retry : List (AppendCall SmallEntry) :=
  [⟨[⟨1, 2, [], by decide⟩, ⟨2, 3, [], by decide⟩], none⟩,
    ⟨[⟨3, 4, [7], by decide⟩, ⟨3, 5, [], by decide⟩], some (.length 1 5)⟩,
    ⟨[⟨3, 4, [7], by decide⟩, ⟨3, 5, [], by decide⟩], none⟩]

theorem retry_allOrNothing : ∃ s, (machine SmallEntry).ReachableUnder Careful s ∧
    s.store.term SmallEntry 4 = some (.ok 3) ∧
    s.AllOrNothing ⟨[⟨5, 6, [], by decide⟩], some (.length 0 2)⟩ := by
  obtain ⟨s, hrun, hterm, hacc, hcareful⟩ : ∃ s, (machine SmallEntry).run (machine SmallEntry).init
      retry = some s ∧ s.store.term SmallEntry 4 = some (.ok 3) ∧
      s.log.Accepts [⟨5, 6, [], by decide⟩] ∧
      s.Careful ⟨[⟨5, 6, [], by decide⟩], some (.length 0 2)⟩ :=
    ⟨_, rfl, by rfl, by decide, by decide⟩
  have hr : (machine SmallEntry).ReachableUnder Careful s := .run .init (by decide) hrun
  exact ⟨s, hr, hterm, allOrNothing_of_careful hr hacc hcareful⟩

/-- Two entries are to be replaced. The first one is written, and the length of the second one is not:
the call returns an error, and the term at index 2 is another one. -/
theorem failed_overwrite_seen : ∃ s, (machine SmallEntry).Reachable s ∧
    s.log.Accepts [⟨9, 2, [], by decide⟩, ⟨9, 3, [], by decide⟩] ∧
    ¬ s.AllOrNothing ⟨[⟨9, 2, [], by decide⟩, ⟨9, 3, [], by decide⟩], some (.length 1 0)⟩ := by
  obtain ⟨s, hrun, hacc, d, herr, hbefore, hafter⟩ : ∃ s, (machine SmallEntry).run
      (machine SmallEntry).init [⟨[⟨2, 2, [], by decide⟩, ⟨3, 3, [], by decide⟩], none⟩] = some s ∧
      s.log.Accepts [⟨9, 2, [], by decide⟩, ⟨9, 3, [], by decide⟩] ∧ ∃ d, s.store.appendLog
        (some (.length 1 0)) [(⟨9, 2, [], by decide⟩ : SmallEntry), ⟨9, 3, [], by decide⟩] = (d, .err) ∧
      s.store.term SmallEntry 2 = some (.ok 2) ∧ d.term SmallEntry 2 = some (.ok 9) :=
    ⟨_, rfl, by decide, _, rfl, by rfl, by rfl⟩
  refine ⟨s, Machine.reachable_of_run hrun, hacc, fun h => ?_⟩
  simp only [AllOrNothing, herr] at h
  have hterm := h.term 2
  rw [hbefore, hafter] at hterm
  cases hterm

end Disk

end OmniPaxosBench.Storage
