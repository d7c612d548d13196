import OmniPaxosBench.Raft.RaftLog

/-! # Raft: a simple node

Elections and replication as in Raft, with the whole log in every append, every entry stable at once, and one
membership change at a time. It shows what a lawful crate may do: a later leader overwrites the entries that
are not committed (`overwrite`), and no others (`simpleRaft_lawful`). -/

namespace OmniPaxosBench.Raft

open OmniPaxosBench.OmniPaxos (Data)

inductive SimpleBody
  | requestVote (lastTerm lastIndex : ℕ)
  | voteGranted
  | append (entries : List Entry) (committed : ℕ)
  | appended (index : ℕ)
  | propose (data : Data)
  deriving DecidableEq, Repr

structure SimpleMessage where
  fromPid : ℕ
  toPid : ℕ
  term : ℕ
  body : SimpleBody
  deriving DecidableEq, Repr

structure SimpleNode where
  id : ℕ
  voters : List ℕ
  /-- The voters of the membership change that is going on. -/
  nextVoters : Option (List ℕ)
  term : ℕ
  leaderId : ℕ
  state : StateRole
  vote : ℕ
  granted : List ℕ
  /-- The acknowledgements a leader has got. -/
  matched : List (ℕ × ℕ)
  entries : List Entry
  committed : ℕ
  applied : ℕ
  elapsed : ℕ
  timeout : ℕ
  messages : List SimpleMessage
  deriving DecidableEq, Repr

namespace SimpleNode

/-! ### Membership changes as bytes -/

def encode (cc : ConfChange) : Data :=
  let tag : UInt8 := match cc.changeType with
    | .addNode => 0
    | .removeNode => 1
    | .addLearnerNode => 2
    | .beginMembershipChange => 3
    | .finalizeMembershipChange => 4
  tag :: UInt8.ofNat cc.startIndex :: cc.configuration.voters.map UInt8.ofNat

def decode : Data → Option ConfChange
  | tag :: startIndex :: voters =>
    let changeType : Option ConfChangeType :=
      if tag = 0 then some .addNode
      else if tag = 1 then some .removeNode
      else if tag = 2 then some .addLearnerNode
      else if tag = 3 then some .beginMembershipChange
      else if tag = 4 then some .finalizeMembershipChange
      else none
    changeType.map fun changeType => ⟨changeType, ⟨voters.map UInt8.toNat, []⟩, startIndex.toNat⟩
  | _ => none

/-! ### The node -/

def new (id : ℕ) (voters : List ℕ) (timeout : ℕ) : SimpleNode where
  id := id
  voters := voters
  nextVoters := none
  term := 0
  leaderId := 0
  state := .follower
  vote := 0
  granted := []
  matched := []
  entries := []
  committed := 0
  applied := 0
  elapsed := 0
  timeout := timeout
  messages := []

variable (r : SimpleNode)

/-- The nodes are a majority, of both sets of voters during a membership change. -/
def Quorum (pids : List ℕ) : Prop :=
  ∀ voters ∈ r.voters :: r.nextVoters.toList, voters.length < 2 * (voters.filter (· ∈ pids)).length

instance (pids : List ℕ) : Decidable (r.Quorum pids) := inferInstanceAs (Decidable (∀ _ ∈ _, _))

def send (toPid : ℕ) (body : SimpleBody) : SimpleNode :=
  { r with messages := r.messages ++ [⟨r.id, toPid, r.term, body⟩] }

def broadcast (body : SimpleBody) : SimpleNode :=
  let peers := (r.voters ++ r.nextVoters.getD []).dedup.filter (· ≠ r.id)
  { r with messages := r.messages ++ peers.map fun pid => SimpleMessage.mk r.id pid r.term body }

def replicate : SimpleNode := r.broadcast (.append r.entries r.committed)

/-- An entry of the leader's term that a majority has is committed. -/
def tryCommit (index : ℕ) : SimpleNode :=
  let pids := r.id :: (r.matched.filter fun p => index ≤ p.2).map Prod.fst
  if r.Quorum pids ∧ r.entries[index - 1]?.map Entry.term = some r.term then
    { r with committed := max r.committed index }
  else r

def appendEntry (entryType : EntryType) (data : Data) : SimpleNode :=
  let index := r.entries.length + 1
  ({ r with entries := r.entries ++ [Entry.mk entryType index r.term data] }.tryCommit index).replicate

def becomeFollower (term leaderId : ℕ) : SimpleNode :=
  { r with
    term := term
    leaderId := leaderId
    state := .follower
    vote := if term = r.term then r.vote else 0
    elapsed := 0 }

def becomeLeader : SimpleNode :=
  { r with leaderId := r.id, state := .leader, matched := [] }.appendEntry .entryNormal []

def campaign : SimpleNode :=
  let r := { r with
    term := r.term + 1
    leaderId := 0
    state := .candidate
    vote := r.id
    granted := [r.id]
    elapsed := 0 }
  if r.Quorum r.granted then r.becomeLeader
  else r.broadcast (.requestVote ((r.entries.getLast?.map Entry.term).getD 0) r.entries.length)

def tick : SimpleNode :=
  if r.state = .leader then r.replicate
  else if r.elapsed + 1 < r.timeout then { r with elapsed := r.elapsed + 1 }
  else r.campaign

/-! ### Messages -/

def UpToDate (lastTerm lastIndex : ℕ) : Prop :=
  let term := (r.entries.getLast?.map Entry.term).getD 0
  term < lastTerm ∨ term = lastTerm ∧ r.entries.length ≤ lastIndex

instance (lastTerm lastIndex : ℕ) : Decidable (r.UpToDate lastTerm lastIndex) :=
  inferInstanceAs (Decidable (_ ∨ _))

/-- The log after an append: that of the leader if there is a conflict, which is never with committed entries. -/
def overwrite (entries : List Entry) : List Entry :=
  if entries <+: r.entries then r.entries
  else if r.entries.take r.committed <+: entries then entries
  else r.entries

def handleAppend (fromPid : ℕ) (entries : List Entry) (committed : ℕ) : SimpleNode :=
  let r := { r.becomeFollower r.term fromPid with entries := r.overwrite entries }
  if entries <+: r.entries then
    { r with committed := max r.committed (min committed entries.length) }.send fromPid (.appended entries.length)
  else r

def stepBody (fromPid : ℕ) : SimpleBody → SimpleNode
  | .requestVote lastTerm lastIndex =>
    if (r.vote = 0 ∨ r.vote = fromPid) ∧ r.UpToDate lastTerm lastIndex then
      { r with vote := fromPid, elapsed := 0 }.send fromPid .voteGranted
    else r
  | .voteGranted =>
    if r.state = .candidate then
      let r := { r with granted := fromPid :: r.granted }
      if r.Quorum r.granted then r.becomeLeader else r
    else r
  | .append entries committed => r.handleAppend fromPid entries committed
  | .appended index =>
    if r.state = .leader then { r with matched := (fromPid, index) :: r.matched }.tryCommit index else r
  | .propose data => if r.state = .leader then r.appendEntry .entryNormal data else r

def step (m : SimpleMessage) : SimpleNode :=
  if m.term < r.term then r
  else if r.term < m.term then (r.becomeFollower m.term 0).stepBody m.fromPid m.body
  else r.stepBody m.fromPid m.body

/-- The part of the log that a message overwrites, as `overwrite` does: what is not committed. -/
def conflict (m : SimpleMessage) : Option (ℕ × List Entry) :=
  match m.body with
  | .append entries _ =>
    if r.term ≤ m.term ∧ ¬ entries <+: r.entries ∧ r.entries.take r.committed <+: entries then
      some (r.committed, entries.drop (r.entries.take r.committed).length)
    else none
  | _ => none

/-! ### Proposals and committed entries -/

def propose (data : Data) : Option SimpleNode :=
  if r.leaderId = 0 then none
  else if r.state = .leader then some (r.appendEntry .entryNormal data)
  else some (r.send r.leaderId (.propose data))

def proposeMembershipChange (config : Configuration) : Option SimpleNode :=
  if r.state = .leader ∧ r.nextVoters = none then
    some (r.appendEntry .entryConfChange (encode ⟨.beginMembershipChange, config, r.entries.length + 1⟩))
  else none

def ready : Ready SimpleMessage × SimpleNode :=
  ({ messages := r.messages
     entries := []
     committedEntries := some ((r.entries.take r.committed).drop r.applied) }, { r with messages := [] })

/-- The leader proposes the end of a membership change that has begun. -/
def advance : SimpleNode :=
  let r := { r with applied := r.committed }
  let finalize := encode ⟨.finalizeMembershipChange, ⟨r.nextVoters.getD [], []⟩, 0⟩
  if r.state = .leader ∧ r.nextVoters.isSome ∧ ∀ e ∈ r.entries, e.data ≠ finalize then
    r.appendEntry .entryConfChange finalize
  else r

def beginMembershipChange (cc : ConfChange) : Option SimpleNode :=
  if r.nextVoters = none then some { r with nextVoters := some cc.configuration.voters } else none

def finalizeMembershipChange : Option SimpleNode :=
  r.nextVoters.map fun voters => { r with voters := voters, nextVoters := none }

/-! ### The log -/

@[simp] theorem replicate_entries : r.replicate.entries = r.entries := rfl

@[simp] theorem tryCommit_entries (index : ℕ) : (r.tryCommit index).entries = r.entries := by
  unfold tryCommit
  dsimp only
  split_ifs
  · rfl
  · rfl

theorem appendEntry_entries (entryType : EntryType) (data : Data) : (r.appendEntry entryType data).entries =
    r.entries ++ [⟨entryType, r.entries.length + 1, r.term, data⟩] := by
  simp [appendEntry]

variable {l : List Entry}

theorem prefix_appendEntry (h : l <+: r.entries) (entryType : EntryType) (data : Data) :
    l <+: (r.appendEntry entryType data).entries := by
  rw [appendEntry_entries]
  exact h.trans (List.prefix_append _ _)

theorem prefix_becomeLeader (h : l <+: r.entries) : l <+: r.becomeLeader.entries := by
  unfold becomeLeader
  apply prefix_appendEntry
  exact h

theorem prefix_campaign (h : l <+: r.entries) : l <+: r.campaign.entries := by
  unfold campaign
  dsimp only
  split_ifs
  · exact prefix_becomeLeader _ h
  · exact h

theorem prefix_tick (h : l <+: r.entries) : l <+: r.tick.entries := by
  unfold tick
  split_ifs
  · exact h
  · exact h
  · exact r.prefix_campaign h

theorem prefix_propose {r r' : SimpleNode} {data : Data} (h : r.propose data = some r') : r.entries <+: r'.entries := by
  unfold propose at h
  split_ifs at h
  · cases h
    exact r.prefix_appendEntry List.prefix_rfl _ _
  · cases h
    exact List.prefix_rfl

theorem prefix_advance : r.entries <+: r.advance.entries := by
  unfold advance
  dsimp only
  split_ifs
  · apply prefix_appendEntry
    exact List.prefix_rfl
  · exact List.prefix_rfl

theorem handleAppend_entries (fromPid : ℕ) (entries : List Entry) (committed : ℕ) :
    (r.handleAppend fromPid entries committed).entries = r.overwrite entries := by
  unfold handleAppend
  dsimp only
  split_ifs
  · rfl
  · rfl

/-- Only an append overwrites anything. -/
theorem prefix_stepBody (fromPid : ℕ) {body : SimpleBody} (hbody : ∀ entries committed, body ≠ .append entries committed) :
    r.entries <+: (r.stepBody fromPid body).entries := by
  have hlog : r.entries <+: r.entries := List.prefix_rfl
  cases body with
  | requestVote lastTerm lastIndex =>
    simp only [stepBody]
    split_ifs
    · exact hlog
    · exact hlog
  | voteGranted =>
    simp only [stepBody]
    split_ifs
    · exact prefix_becomeLeader _ hlog
    · exact hlog
    · exact hlog
  | append entries committed => exact absurd rfl (hbody entries committed)
  | appended index =>
    simp only [stepBody]
    split_ifs
    · rw [tryCommit_entries]
    · exact hlog
  | propose data =>
    simp only [stepBody]
    split_ifs
    · exact r.prefix_appendEntry hlog _ _
    · exact hlog

theorem prefix_step {m : SimpleMessage} (hbody : ∀ entries committed, m.body ≠ .append entries committed) :
    r.entries <+: (r.step m).entries := by
  unfold step
  split_ifs
  · exact List.prefix_rfl
  · exact (r.becomeFollower m.term 0).prefix_stepBody m.fromPid hbody
  · exact r.prefix_stepBody m.fromPid hbody

theorem step_append {m : SimpleMessage} {entries : List Entry} {committed : ℕ}
    (hbody : m.body = .append entries committed) :
    (r.step m).entries = if m.term < r.term then r.entries else r.overwrite entries := by
  unfold step
  rw [hbody]
  split_ifs
  · rfl
  · exact (r.becomeFollower m.term 0).handleAppend_entries m.fromPid entries committed
  · exact r.handleAppend_entries m.fromPid entries committed

/-- A message without a conflict keeps the log. -/
theorem prefix_step_of_conflict {m : SimpleMessage} (h : r.conflict m = none) :
    r.entries <+: (r.step m).entries := by
  unfold conflict at h
  split at h
  · next entries committed hbody =>
    have hno := (ite_eq_right_iff.mp h).mt (Option.some_ne_none _)
    rw [r.step_append hbody, overwrite]
    split_ifs with hlt hold hconflict
    · exact List.prefix_rfl
    · exact List.prefix_rfl
    · exact absurd ⟨Nat.le_of_not_lt hlt, hold, hconflict⟩ hno
    · exact List.prefix_rfl
  · next hbody => exact r.prefix_step hbody

/-- A message with a conflict overwrites what is not committed. -/
theorem step_of_conflict {m : SimpleMessage} {kept : ℕ} {entries : List Entry} (h : r.conflict m = some (kept, entries)) :
    r.committed ≤ kept ∧ (r.step m).entries = r.entries.take kept ++ entries := by
  unfold conflict at h
  split at h
  · next log committed hbody =>
    split_ifs at h with hc
    cases h
    obtain ⟨hterm, hold, hconflict⟩ := hc
    refine ⟨le_rfl, ?_⟩
    rw [r.step_append hbody, if_neg (Nat.not_lt.mpr hterm), overwrite, if_neg hold, if_pos hconflict]
    exact List.prefix_append_drop hconflict
  · cases h

end SimpleNode

open SimpleNode in
def simpleRaft : RaftCrate where
  RawNode := SimpleNode
  Message := SimpleMessage
  receiver m := m.toPid
  id r := r.id
  leaderId r := r.leaderId
  leadTransferee _ := none
  term r := r.term
  state r := r.state
  configuration r := ⟨r.voters, []⟩
  isInMembershipChange r := r.nextVoters.isSome
  allEntries r := r.entries
  committed r := r.committed
  mergeFromBytes := decode
  tick := tick
  campaign := campaign
  step := step
  conflict := conflict
  propose := propose
  proposeMembershipChange := proposeMembershipChange
  hasReady r := r.messages ≠ [] ∨ r.applied < r.committed
  ready := ready
  advance r _ := r.advance
  beginMembershipChange := beginMembershipChange
  finalizeMembershipChange r _ := r.finalizeMembershipChange
  appendLog r _ := some r
  setConfState r _ := r
  setHardState r _ _ := some r

instance : DecidableEq simpleRaft.Message := inferInstanceAs (DecidableEq SimpleMessage)

open SimpleNode in
theorem simpleRaft_lawful : simpleRaft.Lawful where
  proposeMembershipChange r config r' _ h := by
    change proposeMembershipChange r config = some r' at h
    unfold proposeMembershipChange at h
    split_ifs at h
    cases h
    refine ⟨_, ⟨rfl, List.cons_ne_nil _ _, ⟨.beginMembershipChange, _, _⟩, rfl, rfl⟩, r.appendEntry_entries _ _⟩
  step r _ := r.prefix_step_of_conflict
  conflict r _ _ _ := r.step_of_conflict
  committedEntries r entries h e he := by
    cases h
    exact List.mem_of_mem_drop he
  ready r := List.prefix_rfl
  advance r _ := r.prefix_advance
  tick r := r.prefix_tick List.prefix_rfl
  campaign r := r.prefix_campaign List.prefix_rfl
  propose _ _ _ := prefix_propose
  beginMembershipChange r cc r' h := by
    change beginMembershipChange r cc = some r' at h
    unfold beginMembershipChange at h
    split_ifs at h
    cases h
    exact List.prefix_rfl
  finalizeMembershipChange r _ r' h := by
    obtain ⟨voters, -, rfl⟩ := Option.map_eq_some_iff.mp h
    exact List.prefix_rfl
  appendLog r _ r' h := by
    cases h
    exact List.prefix_rfl
  setConfState r _ := List.prefix_rfl
  setHardState r _ _ r' h := by
    cases h
    exact List.prefix_rfl

end OmniPaxosBench.Raft
