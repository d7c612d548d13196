import Mathlib.Data.List.Nodup
import Mathlib.Data.List.Perm.Subperm
import Mathlib.Logic.Function.Basic
import Mathlib.Order.Basic

/-! # Stopping together

The members of a group stop together: a member that is told to stop tells its peers, and answers when
all of its peers have told it. A second word from the same peer, or a word that completes the peers of
a member whom nobody waits for, is an error.

Members learn their peers late. `Consistent` is what then keeps the handshake right: a member knows
either no peers or the whole rest of the group; the words of `p` to `i`, on the way and arrived, are at
most one, and none unless `p` has stopped and has `i` for a peer; and the answer is given just when it
is due. The rules are `Consistent.stop`, `Consistent.receive` and `Consistent.learn`; in a family of groups
they apply to the one group that changes. -/

namespace OmniPaxosBench.Lib

universe u

/-- One member. -/
structure Handshake (ι : Type u) where
  peers : List ι
  stopped : Bool
  stoppedPeers : List ι
  /-- Somebody waits for the answer. -/
  stopAsk : Bool
  /-- How often it was answered. -/
  answers : ℕ

namespace Handshake

variable {ι : Type u} (h : Handshake ι)

/-- All peers have stopped. -/
def AllIn : Prop := ∀ p ∈ h.peers, p ∈ h.stoppedPeers

instance [DecidableEq ι] : Decidable h.AllIn := inferInstanceAs (Decidable (∀ p ∈ h.peers, p ∈ h.stoppedPeers))

/-- The member is told to stop. -/
def stop : Handshake ι :=
  if h.stoppedPeers.length = h.peers.length then
    { h with stopped := true, answers := h.answers + 1 }
  else { h with stopped := true, stopAsk := true }

/-- A peer is noted as stopped. -/
def hear (p : ι) : Handshake ι := { h with stoppedPeers := h.stoppedPeers ++ [p] }

/-- The answer is given. -/
def answer : Handshake ι := { h with stopAsk := false, answers := h.answers + 1 }

/-- A peer has stopped. -/
def peerStop [DecidableEq ι] (p : ι) : Option (Handshake ι) :=
  if p ∈ h.stoppedPeers then none
  else if h.stopped = true ∧ (h.hear p).stoppedPeers.length = h.peers.length then
    if h.stopAsk = true then some (h.hear p).answer else none
  else some (h.hear p)

/-- **The answer is given once, when it is due**: somebody waits for it just while it is not. -/
structure Settled [DecidableEq ι] : Prop where
  ask : h.stopAsk = true ↔ h.stopped = true ∧ ¬ h.AllIn
  answers : h.answers = if h.stopped = true ∧ h.AllIn then 1 else 0

variable {h}

section Settled

variable [DecidableEq ι]

theorem settled_running (hrun : h.stopped = false) :
    h.Settled ↔ h.stopAsk = false ∧ h.answers = 0 := by
  constructor
  · rintro ⟨hask, hans⟩
    simp [hrun] at hask hans
    exact ⟨hask, hans⟩
  · rintro ⟨hask, hans⟩
    constructor
    · simp [hrun, hask]
    · simp [hrun, hans]

theorem settled_allIn (hstop : h.stopped = true) (hin : h.AllIn) :
    h.Settled ↔ h.stopAsk = false ∧ h.answers = 1 := by
  constructor
  · rintro ⟨hask, hans⟩
    simp [hstop, hin] at hask hans
    exact ⟨hask, hans⟩
  · rintro ⟨hask, hans⟩
    constructor
    · simp [hin, hask]
    · simp [hstop, hin, hans]

theorem settled_waiting (hstop : h.stopped = true) (hin : ¬ h.AllIn) :
    h.Settled ↔ h.stopAsk = true ∧ h.answers = 0 := by
  constructor
  · rintro ⟨hask, hans⟩
    simp [hstop, hin] at hask hans
    exact ⟨hask, hans⟩
  · rintro ⟨hask, hans⟩
    constructor
    · simp [hstop, hin, hask]
    · simp [hin, hans]

/-- A member that knew nobody, and has answered when that is due with some peers, has heard from these. -/
theorem heard_of_answered {peers : List ι} (hs : h.Settled) (hnone : h.peers = [])
    (hans : h.answers = if h.stopped = true ∧ ∀ p ∈ peers, p ∈ h.stoppedPeers then 1 else 0)
    (hstop : h.stopped = true) : ∀ p ∈ peers, p ∈ h.stoppedPeers := by
  have hin : h.AllIn := by simp [AllIn, hnone]
  rw [((settled_allIn hstop hin).mp hs).2] at hans
  by_contra hnot
  rw [if_neg fun hc => hnot hc.2] at hans
  cases hans

end Settled

/-- Counting is enough if nobody but the peers has been heard. -/
theorem length_eq_iff_allIn (hpeers : h.peers.Nodup) (hheard : h.stoppedPeers.Nodup)
    (hsub : h.stoppedPeers ⊆ h.peers) : h.stoppedPeers.length = h.peers.length ↔ h.AllIn := by
  have hsubperm : h.stoppedPeers.Subperm h.peers := List.subperm_of_subset hheard hsub
  constructor
  · intro hlen p hp
    exact (hsubperm.perm_of_length_le (Nat.le_of_eq hlen.symm)).mem_iff.mpr hp
  · intro hall
    have hsubperm' : h.peers.Subperm h.stoppedPeers := List.subperm_of_subset hpeers hall
    exact Nat.le_antisymm hsubperm.length_le hsubperm'.length_le

@[simp] theorem stop_peers : h.stop.peers = h.peers := by
  unfold stop; split_ifs <;> rfl

@[simp] theorem stop_stopped : h.stop.stopped = true := by
  unfold stop; split_ifs <;> rfl

@[simp] theorem stop_stoppedPeers : h.stop.stoppedPeers = h.stoppedPeers := by
  unfold stop; split_ifs <;> rfl

theorem stop_allIn : h.stop.AllIn ↔ h.AllIn := by simp [AllIn]

theorem stop_settled [DecidableEq ι] (hs : h.Settled) (hrun : h.stopped = false)
    (hiff : h.stoppedPeers.length = h.peers.length ↔ h.AllIn) : h.stop.Settled := by
  obtain ⟨hask, hans⟩ := (settled_running hrun).mp hs
  by_cases hin : h.AllIn
  · rw [settled_allIn stop_stopped (stop_allIn.mpr hin), stop, if_pos (hiff.mpr hin)]
    exact ⟨hask, by simp [hans]⟩
  · rw [settled_waiting stop_stopped (mt stop_allIn.mp hin), stop, if_neg (mt hiff.mp hin)]
    exact ⟨rfl, hans⟩

theorem peerStop_eq [DecidableEq ι] {p : ι} {h' : Handshake ι} (heq : h.peerStop p = some h') :
    h' = h.hear p ∨ h' = (h.hear p).answer := by
  unfold peerStop at heq
  split_ifs at heq
  · cases heq; exact Or.inr rfl
  · cases heq; exact Or.inl rfl

theorem peerStop_same [DecidableEq ι] {p : ι} {h' : Handshake ι} (heq : h.peerStop p = some h') :
    h'.peers = h.peers ∧ h'.stopped = h.stopped := by
  rcases peerStop_eq heq with rfl | rfl
  · exact ⟨rfl, rfl⟩
  · exact ⟨rfl, rfl⟩

/-- **The word of a new peer is taken**, and the answer is given if it was the last one. -/
theorem peerStop_settled [DecidableEq ι] {p : ι} (hs : h.Settled) (hnew : p ∉ h.stoppedPeers)
    (hpeer : h.peers = [] ∨ p ∈ h.peers) (hiff : h.peers ≠ [] →
      ((h.hear p).stoppedPeers.length = h.peers.length ↔ (h.hear p).AllIn)) :
    ∃ h', h.peerStop p = some h' ∧ h'.Settled := by
  unfold peerStop
  rw [if_neg hnew]
  by_cases hstop : h.stopped = true
  · have hstop' : (h.hear p).stopped = true := hstop
    rcases hpeer with hnone | hp
    · -- a member that knows nobody has answered
      have hin : h.AllIn := by simp [AllIn, hnone]
      have hin' : (h.hear p).AllIn := by simp [AllIn, hear, hnone]
      rw [if_neg (by simp [hear, hnone])]
      exact ⟨_, rfl, (settled_allIn hstop' hin').mpr ((settled_allIn hstop hin).mp hs)⟩
    · have hwait : ¬ h.AllIn := fun hin => hnew (hin p hp)
      have hiff := hiff (List.ne_nil_of_mem hp)
      obtain ⟨hask, hans⟩ := (settled_waiting hstop hwait).mp hs
      by_cases hlen : (h.hear p).stoppedPeers.length = h.peers.length
      · rw [if_pos ⟨hstop, hlen⟩, if_pos hask]
        have hstop'' : (h.hear p).answer.stopped = true := hstop
        have hin'' : (h.hear p).answer.AllIn := hiff.mp hlen
        refine ⟨_, rfl, (settled_allIn hstop'' hin'').mpr ⟨rfl, ?_⟩⟩
        simp [answer, hear, hans]
      · rw [if_neg fun hc => hlen hc.2]
        exact ⟨_, rfl, (settled_waiting hstop' (mt hiff.mpr hlen)).mpr ⟨hask, hans⟩⟩
  · rw [if_neg fun hc => hstop hc.1]
    rw [Bool.not_eq_true] at hstop
    have hstop' : (h.hear p).stopped = false := hstop
    exact ⟨_, rfl, (settled_running hstop').mpr ((settled_running hstop).mp hs)⟩

end Handshake

/-- The members, and the number of words of `p` on the way to `i`. -/
@[ext]
structure StopGroup (ι : Type u) where
  member : ι → Handshake ι
  flight : ι → ι → ℕ

namespace StopGroup

variable {ι : Type u} [DecidableEq ι] (G : StopGroup ι)

/-- A member stops, and sends word to its peers. -/
def stop (i : ι) : StopGroup ι where
  member := Function.update G.member i (G.member i).stop
  flight j p := G.flight j p + if p = i ∧ j ∈ (G.member i).peers then 1 else 0

/-- The word of `p` has arrived at `i`, which is then `h`. -/
def receive (i p : ι) (h : Handshake ι) : StopGroup ι where
  member := Function.update G.member i h
  flight j q := G.flight j q - if q = p ∧ j = i then 1 else 0

end StopGroup

variable {ι : Type u} [DecidableEq ι]

/-- **What keeps the handshake right** in a group whose members are `conf`. -/
structure Consistent (conf : List ι) (G : StopGroup ι) : Prop where
  peers : ∀ i, (G.member i).peers = [] ∨ i ∈ conf ∧ (G.member i).peers = conf.filter (· ≠ i)
  once : ∀ i p, G.flight i p + (G.member i).stoppedPeers.count p ≤
    if (G.member p).stopped = true ∧ i ∈ (G.member p).peers then 1 else 0
  settled : ∀ i, (G.member i).Settled

namespace Consistent

variable {conf : List ι} {G : StopGroup ι} {i p : ι}

theorem nodup_peers (hG : Consistent conf G) (hconf : conf.Nodup) (i : ι) :
    (G.member i).peers.Nodup := by
  rcases hG.peers i with h | ⟨-, h⟩
  · rw [h]; exact List.nodup_nil
  · rw [h]; exact hconf.filter _

theorem mem_peers (hG : Consistent conf G) {j : ι} (hj : j ∈ (G.member i).peers) :
    i ∈ conf ∧ j ∈ conf ∧ j ≠ i := by
  rcases hG.peers i with h | ⟨hi, h⟩
  · rw [h] at hj; cases hj
  · rw [h, List.mem_filter, decide_eq_true_eq] at hj
    exact ⟨hi, hj⟩

theorem count_le_one (hG : Consistent conf G) (i p : ι) :
    G.flight i p + (G.member i).stoppedPeers.count p ≤ 1 := by
  have honce := hG.once i p
  split_ifs at honce
  · exact honce
  · omega

theorem nodup_stoppedPeers (hG : Consistent conf G) (i : ι) : (G.member i).stoppedPeers.Nodup := by
  rw [List.nodup_iff_count_le_one]
  intro p
  have := hG.count_le_one i p
  omega

/-- Who has been heard, or will be, has stopped and has this member for a peer. -/
theorem of_pos (hG : Consistent conf G)
    (hpos : 0 < G.flight i p + (G.member i).stoppedPeers.count p) :
    (G.member p).stopped = true ∧ i ∈ (G.member p).peers := by
  have honce := hG.once i p
  by_contra hnot
  rw [if_neg hnot] at honce
  omega

theorem of_mem (hG : Consistent conf G) (hp : p ∈ (G.member i).stoppedPeers) :
    (G.member p).stopped = true ∧ i ∈ (G.member p).peers := by
  have hpos : 0 < (G.member i).stoppedPeers.count p := List.count_pos_iff.mpr hp
  exact hG.of_pos (by omega)

/-- A member does not hear from itself. -/
theorem not_mem_self (hG : Consistent conf G) (i : ι) : i ∉ (G.member i).stoppedPeers :=
  fun hi => (hG.mem_peers (hG.of_mem hi).2).2.2 rfl

/-- **No word on the way is from the member itself, or a second one.** -/
theorem fresh (hG : Consistent conf G) (hpos : 0 < G.flight i p) :
    p ∉ (G.member i).stoppedPeers ∧ p ≠ i ∧ p ∈ conf := by
  obtain ⟨-, hmem⟩ := hG.of_pos (i := i) (p := p) (by omega)
  obtain ⟨hp, -, hne⟩ := hG.mem_peers hmem
  refine ⟨fun hheard => ?_, hne.symm, hp⟩
  have hcount : 0 < (G.member i).stoppedPeers.count p := List.count_pos_iff.mpr hheard
  have := hG.count_le_one i p
  omega

/-- A member that knows its peers has heard only from these. -/
theorem stoppedPeers_subset (hG : Consistent conf G) (hknows : (G.member i).peers ≠ []) :
    (G.member i).stoppedPeers ⊆ (G.member i).peers := by
  intro p hp
  obtain ⟨hpc, -, hne⟩ := hG.mem_peers (hG.of_mem hp).2
  obtain ⟨-, heq⟩ := (hG.peers i).resolve_left hknows
  rw [heq, List.mem_filter, decide_eq_true_eq]
  exact ⟨hpc, hne.symm⟩

/-! ### The rules -/

/-- Nothing has happened yet. -/
theorem start (hpeers : ∀ i, (G.member i).peers = [] ∨
      i ∈ conf ∧ (G.member i).peers = conf.filter (· ≠ i))
    (hmember : ∀ i, G.member i = ⟨(G.member i).peers, false, [], false, 0⟩)
    (hflight : ∀ i p, G.flight i p = 0) : Consistent conf G := by
  refine ⟨hpeers, fun i p => ?_, fun i => ?_⟩
  · rw [hflight, hmember i]
    exact Nat.zero_le _
  · rw [hmember i, Handshake.settled_running rfl]
    exact ⟨rfl, rfl⟩

/-- The handshake of one member changes: what is left to show is about that member, and about the words
that are counted. -/
theorem update (hG : Consistent conf G) {G' : StopGroup ι} {h : Handshake ι}
    (hmember : G'.member = Function.update G.member i h)
    (hpeers : h.peers = [] ∨ i ∈ conf ∧ h.peers = conf.filter (· ≠ i)) (hsettled : h.Settled)
    (honce : ∀ j p, G'.flight j p + (G'.member j).stoppedPeers.count p ≤
      if (G'.member p).stopped = true ∧ j ∈ (G'.member p).peers then 1 else 0) :
    Consistent conf G' := by
  have hself : G'.member i = h := by rw [hmember, Function.update_self]
  have hother : ∀ j, j ≠ i → G'.member j = G.member j := fun j hj => by
    rw [hmember, Function.update_of_ne hj]
  refine ⟨fun j => ?_, honce, fun j => ?_⟩
  · by_cases hj : j = i
    · rw [hj, hself]; exact hpeers
    · rw [hother j hj]; exact hG.peers j
  · by_cases hj : j = i
    · rw [hj, hself]; exact hsettled
    · rw [hother j hj]; exact hG.settled j

/-- **A member stops** that has heard only from its peers. -/
theorem stop (hG : Consistent conf G) (hconf : conf.Nodup) (hrun : (G.member i).stopped = false)
    (hsub : (G.member i).stoppedPeers ⊆ (G.member i).peers) : Consistent conf (G.stop i) := by
  have hiff := Handshake.length_eq_iff_allIn (hG.nodup_peers hconf i) (hG.nodup_stoppedPeers i) hsub
  have hheard : ∀ j, ((G.stop i).member j).stoppedPeers = (G.member j).stoppedPeers := by
    intro j
    by_cases hj : j = i
    · subst hj; simp [StopGroup.stop]
    · simp [StopGroup.stop, Function.update_of_ne hj]
  refine hG.update (i := i) rfl ?_ (Handshake.stop_settled (hG.settled i) hrun hiff) fun j p => ?_
  · rw [Handshake.stop_peers]; exact hG.peers i
  · have honce := hG.once j p
    rw [hheard j]
    by_cases hpi : p = i
    · -- the member has sent nothing before
      subst hpi
      rw [if_neg (by simp [hrun])] at honce
      simp only [StopGroup.stop, Function.update_self, Handshake.stop_peers, Handshake.stop_stopped,
        true_and]
      omega
    · simp only [StopGroup.stop, Function.update_of_ne hpi, hpi, false_and, if_false]
      exact honce

/-- If the answer is given when it is due, then a member that stops has heard only from its peers. -/
theorem subset_of_answered (hG : Consistent conf G) (hrun : (G.member i).stopped = false)
    (hans : (G.member i).stop.answers =
      if (G.member i).stop.stopped = true ∧ (G.member i).stop.AllIn then 1 else 0) :
    (G.member i).stoppedPeers ⊆ (G.member i).peers := by
  rcases eq_or_ne (G.member i).peers [] with hnone | hknows
  · have hin : (G.member i).stop.AllIn := by simp [Handshake.AllIn, hnone]
    rw [if_pos ⟨Handshake.stop_stopped, hin⟩] at hans
    have hzero := ((Handshake.settled_running hrun).mp (hG.settled i)).2
    unfold Handshake.stop at hans
    split_ifs at hans with hlen
    · rw [hnone, List.length_nil, List.length_eq_zero_iff] at hlen
      rw [hlen]
      exact List.nil_subset _
    · rw [hzero] at hans
      cases hans
  · exact hG.stoppedPeers_subset hknows

/-- **A word arrives**: the member takes it. -/
theorem receive (hG : Consistent conf G) (hconf : conf.Nodup) (hpos : 0 < G.flight i p) :
    ∃ h, (G.member i).peerStop p = some h ∧ Consistent conf (G.receive i p h) := by
  obtain ⟨hnew, hne, hp⟩ := hG.fresh hpos
  have hpeer : (G.member i).peers = [] ∨ p ∈ (G.member i).peers := by
    refine (hG.peers i).imp_right fun ⟨_, heq⟩ => ?_
    rw [heq, List.mem_filter, decide_eq_true_eq]
    exact ⟨hp, hne⟩
  have hiff : (G.member i).peers ≠ [] → (((G.member i).hear p).stoppedPeers.length =
      (G.member i).peers.length ↔ ((G.member i).hear p).AllIn) := by
    intro hknows
    have hpm := hpeer.resolve_left hknows
    refine Handshake.length_eq_iff_allIn (h := (G.member i).hear p) (hG.nodup_peers hconf i) ?_ ?_
    · unfold Handshake.hear
      rw [List.nodup_append]
      refine ⟨hG.nodup_stoppedPeers i, List.nodup_singleton p, ?_⟩
      rintro a ha b hb rfl
      rw [List.mem_singleton.mp hb] at ha
      exact hnew ha
    · refine List.append_subset.mpr ⟨hG.stoppedPeers_subset hknows, ?_⟩
      rintro q hq
      rw [List.mem_singleton.mp hq]
      exact hpm
  obtain ⟨h, heq, hsettled⟩ := Handshake.peerStop_settled (hG.settled i) hnew hpeer hiff
  obtain ⟨hpeers, hstopped⟩ := Handshake.peerStop_same heq
  have hheard : h.stoppedPeers = (G.member i).stoppedPeers ++ [p] := by
    rcases Handshake.peerStop_eq heq with rfl | rfl
    · rfl
    · rfl
  refine ⟨h, heq, hG.update (i := i) rfl ?_ hsettled fun j q => ?_⟩
  · rw [hpeers]; exact hG.peers i
  · have honce := hG.once j q
    have hq : ((G.receive i p h).member q).stopped = (G.member q).stopped ∧
        ((G.receive i p h).member q).peers = (G.member q).peers := by
      by_cases hqi : q = i
      · subst hqi; simp [StopGroup.receive, hpeers, hstopped]
      · simp [StopGroup.receive, Function.update_of_ne hqi]
    rw [hq.1, hq.2]
    by_cases hj : j = i
    · subst hj
      simp only [StopGroup.receive, Function.update_self, hheard, List.count_append, and_true]
      by_cases hqp : q = p
      · subst hqp
        simp only [if_true, List.count_singleton_self]
        omega
      · rw [if_neg hqp, List.count_singleton, if_neg (by simpa using Ne.symm hqp)]
        omega
    · simp only [StopGroup.receive, Function.update_of_ne hj, hj, and_false, if_false]
      omega

/-- **A member learns who its peers are.** It has not stopped, or they all have told it already; its
words on the way, `flight`, may change if they are still only those to its peers. -/
theorem learn (hG : Consistent conf G) (hi : i ∈ conf) {h : Handshake ι}
    (hh : h = { G.member i with peers := conf.filter (· ≠ i) })
    (hin : (G.member i).stopped = true → h.AllIn) {flight : ι → ι → ℕ}
    (hother : ∀ j p, p ≠ i → flight j p = G.flight j p)
    (hown : ∀ j, flight j i + (G.member j).stoppedPeers.count i ≤
      if (G.member i).stopped = true ∧ j ∈ conf.filter (· ≠ i) then 1 else 0) :
    Consistent conf ⟨Function.update G.member i h, flight⟩ := by
  have hpeers : h.peers = conf.filter (· ≠ i) := by rw [hh]
  have hstopped : h.stopped = (G.member i).stopped := by rw [hh]
  have hheard : ∀ j, (Function.update G.member i h j).stoppedPeers = (G.member j).stoppedPeers := by
    intro j
    by_cases hj : j = i
    · subst hj; rw [Function.update_self, hh]
    · rw [Function.update_of_ne hj]
  have hsettled : h.Settled := by
    cases hstop : (G.member i).stopped with
    | false =>
      rw [Handshake.settled_running (hstopped.trans hstop), hh]
      exact (Handshake.settled_running hstop).mp (hG.settled i)
    | true =>
      have hin := hin hstop
      have hall : (G.member i).AllIn := by
        rcases hG.peers i with hnone | ⟨-, heq⟩
        · simp [Handshake.AllIn, hnone]
        · rw [hh] at hin
          unfold Handshake.AllIn at hin ⊢
          rw [heq]
          exact hin
      rw [Handshake.settled_allIn (hstopped.trans hstop) hin, hh]
      exact (Handshake.settled_allIn hstop hall).mp (hG.settled i)
  refine hG.update (i := i) rfl (Or.inr ⟨hi, hpeers⟩) hsettled fun j p => ?_
  dsimp only
  rw [hheard j]
  by_cases hpi : p = i
  · subst hpi
    simp only [Function.update_self, hpeers, hstopped]
    exact hown j
  · simp only [hother j p hpi, Function.update_of_ne hpi]
    exact hG.once j p

theorem congr (hG : Consistent conf G) {G' : StopGroup ι} (hmember : ∀ i, G'.member i = G.member i)
    (hflight : ∀ i p, G'.flight i p = G.flight i p) : Consistent conf G' := by
  have heq : G' = G := StopGroup.ext (funext hmember) (funext₂ hflight)
  rw [heq]
  exact hG

/-! ### Families of groups, of which one member of one group changes -/

section Family

variable {κ : Type*} [DecidableEq κ] {conf : κ → List ι} {F F' : κ → StopGroup ι} {k : κ}
  {h : Handshake ι}

/-- What the change leaves alone is the same for all members. -/
theorem field_eq {α : Type*} (f : Handshake ι → α)
    (hmember : ∀ l j, (F' l).member j = if l = k ∧ j = i then h else (F l).member j)
    (hf : f h = f ((F k).member i)) (l : κ) (j : ι) : f ((F' l).member j) = f ((F l).member j) := by
  rw [hmember]
  split_ifs with hlj
  · rw [hlj.1, hlj.2]; exact hf
  · rfl

/-- **What is left to show is about that group.** -/
theorem family (hF : ∀ k, Consistent (conf k) (F k))
    (hmember : ∀ l j, (F' l).member j = if l = k ∧ j = i then h else (F l).member j)
    (hflight : ∀ l, l ≠ k → ∀ j p, (F' l).flight j p = (F l).flight j p)
    (hgroup : Consistent (conf k) ⟨Function.update (F k).member i h, (F' k).flight⟩) (l : κ) :
    Consistent (conf l) (F' l) := by
  by_cases hl : l = k
  · subst hl
    refine hgroup.congr (fun j => ?_) fun _ _ => rfl
    dsimp only
    rw [hmember, Function.update_apply]
    simp
  · refine (hF l).congr (fun j => ?_) (hflight l hl)
    rw [hmember, if_neg fun hc => hl hc.1]

theorem family_stop (hF : ∀ k, Consistent (conf k) (F k)) (hconf : (conf k).Nodup)
    (hmember : ∀ l j, (F' l).member j =
      if l = k ∧ j = i then ((F k).member i).stop else (F l).member j)
    (hflight : ∀ l j p, (F' l).flight j p =
      (F l).flight j p + if l = k ∧ p = i ∧ j ∈ ((F k).member i).peers then 1 else 0)
    (hrun : ((F k).member i).stopped = false)
    (hsub : ((F k).member i).stoppedPeers ⊆ ((F k).member i).peers) (l : κ) :
    Consistent (conf l) (F' l) := by
  refine family hF hmember (fun l hl j p => ?_) ?_ l
  · rw [hflight, if_neg fun hc => hl hc.1, Nat.add_zero]
  · refine ((hF k).stop hconf hrun hsub).congr (fun _ => rfl) fun j p => ?_
    dsimp only [StopGroup.stop]
    rw [hflight]
    simp only [true_and]

theorem family_receive (hF : ∀ k, Consistent (conf k) (F k))
    (hgroup : Consistent (conf k) ((F k).receive i p h))
    (hmember : ∀ l j, (F' l).member j = if l = k ∧ j = i then h else (F l).member j)
    (hflight : ∀ l j q, (F' l).flight j q + (if l = k ∧ q = p ∧ j = i then 1 else 0) =
      (F l).flight j q) (l : κ) : Consistent (conf l) (F' l) := by
  refine family hF hmember (fun l hl j q => ?_) ?_ l
  · rw [← hflight, if_neg fun hc => hl hc.1, Nat.add_zero]
  · refine hgroup.congr (fun _ => rfl) fun j q => ?_
    dsimp only [StopGroup.receive]
    rw [← hflight]
    simp only [true_and]
    omega

end Family

end Consistent

end OmniPaxosBench.Lib
