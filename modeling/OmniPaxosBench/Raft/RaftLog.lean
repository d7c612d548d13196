import OmniPaxosBench.Raft.RaftReplica
import Mathlib.Data.List.Infix

/-! # Raft: the log of a node

The log as the replica sees it, and what it relies on: `RaftCrate.Lawful` is what is assumed of the crate. -/

namespace OmniPaxosBench.Raft.RaftCrate

variable (K : RaftCrate)

/-- The entry is a change of the given type. -/
def IsChange (changeType : ConfChangeType) (e : Entry) : Prop :=
  e.entryType = .entryConfChange ∧ e.data ≠ [] ∧
    ∃ cc, K.mergeFromBytes e.data = some cc ∧ cc.changeType = changeType

instance (changeType : ConfChangeType) (e : Entry) : Decidable (K.IsChange changeType e) :=
  match h : K.mergeFromBytes e.data with
  | none => isFalse fun hc => by
    obtain ⟨-, -, cc, hcc, -⟩ := hc
    rw [h] at hcc
    cases hcc
  | some cc => decidable_of_iff (e.entryType = .entryConfChange ∧ e.data ≠ [] ∧ cc.changeType = changeType) (by
    simp [IsChange, h])

/-- The log has the beginning of a membership change. -/
def HasBegin (entries : List Entry) : Prop := ∃ e ∈ entries, K.IsChange .beginMembershipChange e

instance (entries : List Entry) : Decidable (K.HasBegin entries) := inferInstanceAs (Decidable (∃ _ ∈ _, _))

/-- The log is as before, and may have got longer. -/
def Extends (r r' : K.RawNode) : Prop := K.allEntries r <+: K.allEntries r'

/-- **The raft crate**: a leader that proposes a membership change appends its beginning to the log. The
committed entries it hands out are in the log, and stay there. Only a message that conflicts with the log,
which may come from a later leader, overwrites entries, and none that are committed. -/
structure Lawful : Prop where
  proposeMembershipChange : ∀ r config r', K.leaderId r = K.id r →
    K.proposeMembershipChange r config = some r' →
    ∃ e, K.IsChange .beginMembershipChange e ∧ K.allEntries r' = K.allEntries r ++ [e]
  step : ∀ r m, K.conflict r m = none → K.Extends r (K.step r m)
  conflict : ∀ r m kept entries, K.conflict r m = some (kept, entries) →
    K.committed r ≤ kept ∧ K.allEntries (K.step r m) = (K.allEntries r).take kept ++ entries
  committedEntries : ∀ r entries, (K.ready r).1.committedEntries = some entries →
    ∀ e ∈ entries, e ∈ (K.allEntries r).take (K.committed r)
  ready : ∀ r, K.Extends r (K.ready r).2
  advance : ∀ r ready, K.Extends r (K.advance r ready)
  tick : ∀ r, K.Extends r (K.tick r)
  campaign : ∀ r, K.Extends r (K.campaign r)
  propose : ∀ r data r', K.propose r data = some r' → K.Extends r r'
  beginMembershipChange : ∀ r cc r', K.beginMembershipChange r cc = some r' → K.Extends r r'
  finalizeMembershipChange : ∀ r cc r', K.finalizeMembershipChange r cc = some r' → K.Extends r r'
  appendLog : ∀ r entries r', K.appendLog r entries = some r' → K.Extends r r'
  setConfState : ∀ r config, K.Extends r (K.setConfState r config)
  setHardState : ∀ r commit term r', K.setHardState r commit term = some r' → K.Extends r r'

/-- The message replaces the log from the first beginning of a membership change, or from before it, by
entries without one. -/
def Overwrites (r : K.RawNode) (m : K.Message) : Prop :=
  match K.conflict r m with
  | none => False
  | some (kept, entries) => ¬ K.HasBegin ((K.allEntries r).take kept) ∧ ¬ K.HasBegin entries

instance (r : K.RawNode) (m : K.Message) : Decidable (K.Overwrites r m) :=
  match h : K.conflict r m with
  | none => isFalse (by simp [Overwrites, h])
  | some (kept, entries) =>
    decidable_of_iff (¬ K.HasBegin ((K.allEntries r).take kept) ∧ ¬ K.HasBegin entries) (by simp [Overwrites, h])

variable {K}

theorem HasBegin.mono {l l' : List Entry} (h : K.HasBegin l) (hl : l <+: l') : K.HasBegin l' := by
  obtain ⟨e, he, hbegin⟩ := h
  exact ⟨e, hl.subset he, hbegin⟩

theorem hasBegin_append {l l' : List Entry} : K.HasBegin (l ++ l') ↔ K.HasBegin l ∨ K.HasBegin l' := by
  simp only [HasBegin, List.mem_append, or_and_right, exists_or]

theorem Extends.refl (r : K.RawNode) : K.Extends r r := List.prefix_rfl

theorem Extends.trans {r r' r'' : K.RawNode} (h : K.Extends r r') (h' : K.Extends r' r'') : K.Extends r r'' :=
  List.IsPrefix.trans h h'

/-- A log with the beginning of a membership change keeps it, unless the message overwrites it. -/
theorem Lawful.hasBegin_step (hK : K.Lawful) {r : K.RawNode} {m : K.Message} (h : K.HasBegin (K.allEntries r)) :
    K.HasBegin (K.allEntries (K.step r m)) ↔ ¬ K.Overwrites r m := by
  unfold Overwrites
  split
  · next hc => exact iff_of_true (h.mono (hK.step r m hc)) not_false
  · next kept entries hc => rw [(hK.conflict r m kept entries hc).2, hasBegin_append, ← not_or, not_not]

end OmniPaxosBench.Raft.RaftCrate
