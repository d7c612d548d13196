import OmniPaxosBench.Lib.Machine
import Mathlib.Data.List.Perm.Basic

/-! # Answering once, when the last one has gone

A machine waits for a word of each of its nodes, and answers the one who waits when the last word has
come. A timer may make it answer before that, and further events may fail. `Farewell` says what the events
do; `Farewell.answered_once_iff` is the exact condition for an order of events, with one word of each node,
to go through with one answer. -/

namespace OmniPaxosBench.Lib

universe u v w

section Farewell

variable {σ : Type u} {ε : Type v} {ι : Type w} [DecidableEq ι]

/-- What a machine of this kind shows. -/
structure FarewellView (σ : Type u) (ε : Type v) (ι : Type w) where
  /-- The nodes whose word is still to come. -/
  nodes : σ → List ι
  /-- Somebody waits for the answer. -/
  waiting : σ → Prop
  /-- The answer can be given. -/
  ready : σ → Prop
  /-- How often it was given. -/
  replies : σ → ℕ
  /-- The node whose word an event is. -/
  peer : ε → Option ι

namespace FarewellView

variable (V : FarewellView σ ε ι) (M : Machine σ ε) (inv : σ → Prop)

/-- Nothing but the nodes has changed. -/
structure Unchanged (s t : σ) : Prop where
  waiting : V.waiting t ↔ V.waiting s
  ready : V.ready t ↔ V.ready s
  replies : V.replies t = V.replies s
  inv : inv t

/-- The answer is given, or the attempt fails. -/
def Reply (s : σ) (e : ε) (rest : List ι) : Prop :=
  (V.waiting s ∧ V.ready s ∧ ∃ t, M.step s e = some t ∧ V.nodes t = rest ∧ ¬ V.waiting t ∧
    V.replies t = V.replies s + 1 ∧ inv t) ∨
  (¬ (V.waiting s ∧ V.ready s) ∧ M.step s e = none)

end FarewellView

/-- What the events do: a word takes its node off, and the last one gives the answer; any other event that
is `safe` changes nothing, and one that is not fails or gives the answer too early. -/
structure Farewell (V : FarewellView σ ε ι) (M : Machine σ ε) (inv : σ → Prop) (late safe : σ → ε → Prop) :
    Prop where
  peer : ∀ s e pid, inv s → V.peer e = some pid → pid ∈ V.nodes s → safe s e ∧
    ((V.nodes s = [pid] ∧ V.Reply M inv s e []) ∨
      (V.nodes s ≠ [pid] ∧ ∃ t, M.step s e = some t ∧ V.nodes t = (V.nodes s).erase pid ∧ V.Unchanged inv s t))
  other : ∀ s e, inv s → late s e → V.peer e = none →
    (safe s e ∧ ∃ t, M.step s e = some t ∧ V.nodes t = V.nodes s ∧ V.Unchanged inv s t) ∨
    (¬ safe s e ∧ M.step s e = none) ∨
    (¬ safe s e ∧ V.nodes s ≠ [] ∧ V.Reply M inv s e (V.nodes s))

namespace Farewell

variable {V : FarewellView σ ε ι} {M : Machine σ ε} {inv : σ → Prop} {late safe : σ → ε → Prop}
  (hF : Farewell V M inv late safe) {s : σ} {e : ε} {es : List ε} {pid : ι}

theorem mem_of_perm (hpeer : V.peer e = some pid) (h : ((e :: es).filterMap V.peer).Perm (V.nodes s)) :
    pid ∈ V.nodes s ∧ (es.filterMap V.peer).Perm ((V.nodes s).erase pid) := by
  rw [List.filterMap_cons_some hpeer] at h
  exact ⟨h.subset List.mem_cons_self, (List.cons_perm_iff_perm_erase.mp h).2⟩

theorem erase_ne_nil {l : List ι} (hmem : pid ∈ l) (hne : l ≠ [pid]) : l.erase pid ≠ [] := by
  intro hnil
  have hlen := List.length_erase_of_mem hmem
  rw [hnil, List.length_nil] at hlen
  have hpos := List.length_pos_of_mem hmem
  obtain ⟨a, rfl⟩ := List.length_eq_one_iff.mp (show l.length = 1 by omega)
  exact hne (by rw [List.mem_singleton.mp hmem])

include hF

/-- If the answer cannot be given any more, the last word fails. -/
theorem run_eq_none (hinv : inv s) (hbad : ¬ (V.waiting s ∧ V.ready s)) (hnodes : V.nodes s ≠ [])
    (hperm : (es.filterMap V.peer).Perm (V.nodes s)) (hlate : M.AllSteps late s es) : M.run s es = none := by
  induction es generalizing s with
  | nil => exact absurd (List.nil_perm.mp hperm) hnodes
  | cons e es ih =>
    rw [Machine.run_cons]
    cases hpeer : V.peer e with
    | some pid =>
      obtain ⟨hmem, hrest⟩ := mem_of_perm hpeer hperm
      rcases (hF.peer s e pid hinv hpeer hmem).2 with ⟨-, ⟨hw, hr, -⟩ | ⟨-, hnone⟩⟩ | ⟨hne, t, ht, hnodes', hsame⟩
      · exact absurd ⟨hw, hr⟩ hbad
      · rw [hnone]
        rfl
      · rw [ht]
        refine ih hsame.inv ?_ ?_ ?_ (hlate.2 t ht)
        · rwa [hsame.waiting, hsame.ready]
        · rw [hnodes']
          exact erase_ne_nil hmem hne
        · rwa [hnodes']
    | none =>
      rw [List.filterMap_cons_none hpeer] at hperm
      rcases hF.other s e hinv hlate.1 hpeer with ⟨-, t, ht, hnodes', hsame⟩ | ⟨-, hnone⟩ |
        ⟨-, -, ⟨hw, hr, -⟩ | ⟨-, hnone⟩⟩
      · rw [ht]
        refine ih hsame.inv ?_ (by rwa [hnodes']) (by rwa [hnodes']) (hlate.2 t ht)
        rwa [hsame.waiting, hsame.ready]
      · rw [hnone]
        rfl
      · exact absurd ⟨hw, hr⟩ hbad
      · rw [hnone]
        rfl

/-- After the last word only the events that are not safe fail. -/
theorem gone_iff (hinv : inv s) (hnodes : V.nodes s = []) (hperm : (es.filterMap V.peer).Perm [])
    (hlate : M.AllSteps late s es) :
    (∃ t, M.run s es = some t ∧ V.replies t = V.replies s) ↔ M.AllSteps safe s es := by
  induction es generalizing s with
  | nil => exact iff_of_true ⟨s, rfl, rfl⟩ trivial
  | cons e es ih =>
    cases hpeer : V.peer e with
    | some pid => exact absurd (mem_of_perm hpeer (by rwa [hnodes])).1 (by simp [hnodes])
    | none =>
      rw [List.filterMap_cons_none hpeer] at hperm
      rw [Machine.run_cons]
      rcases hF.other s e hinv hlate.1 hpeer with ⟨hsafe, t, ht, hnodes', hsame⟩ | ⟨hrisky, hnone⟩ | ⟨-, hne, -⟩
      · rw [ht, Option.bind_some, ← hsame.replies,
          ih hsame.inv (hnodes'.trans hnodes) hperm (hlate.2 t ht), Machine.allSteps_cons_iff ht, and_iff_right hsafe]
      · refine iff_of_false ?_ fun h => hrisky h.1
        rintro ⟨t, ht, -⟩
        rw [hnone] at ht
        cases ht
      · exact absurd hnodes hne

/-- **The exact condition for one answer and no failure**: the answer can be given, and every event is safe
where it happens. -/
theorem answered_once_iff (hinv : inv s) (hwaiting : V.waiting s) (hnodes : V.nodes s ≠ [])
    (hperm : (es.filterMap V.peer).Perm (V.nodes s)) (hlate : M.AllSteps late s es) :
    (∃ t, M.run s es = some t ∧ V.replies t = V.replies s + 1) ↔ V.ready s ∧ M.AllSteps safe s es := by
  by_cases hready : V.ready s
  swap
  · refine iff_of_false ?_ fun h => hready h.1
    rintro ⟨t, ht, -⟩
    rw [hF.run_eq_none hinv (fun h => hready h.2) hnodes hperm hlate] at ht
    cases ht
  rw [and_iff_right hready]
  induction es generalizing s with
  | nil => exact absurd (List.nil_perm.mp hperm) hnodes
  | cons e es ih =>
    rw [Machine.run_cons]
    cases hpeer : V.peer e with
    | some pid =>
      obtain ⟨hmem, hrest⟩ := mem_of_perm hpeer hperm
      obtain ⟨hsafe, hcases⟩ := hF.peer s e pid hinv hpeer hmem
      rcases hcases with ⟨hlast, ⟨-, -, t, ht, hgone, -, hreplies, hinv'⟩ | ⟨hbad, -⟩⟩ | ⟨hne, t, ht, hnodes', hsame⟩
      · rw [hlast, List.erase_cons_head] at hrest
        rw [ht, Option.bind_some, ← hreplies, hF.gone_iff hinv' hgone hrest (hlate.2 t ht),
          Machine.allSteps_cons_iff ht, and_iff_right hsafe]
      · exact absurd ⟨hwaiting, hready⟩ hbad
      · rw [ht, Option.bind_some, ← hsame.replies]
        rw [ih hsame.inv (hsame.waiting.mpr hwaiting) (by rw [hnodes']; exact erase_ne_nil hmem hne)
          (by rwa [hnodes']) (hlate.2 t ht) (hsame.ready.mpr hready), Machine.allSteps_cons_iff ht,
          and_iff_right hsafe]
    | none =>
      rw [List.filterMap_cons_none hpeer] at hperm
      rcases hF.other s e hinv hlate.1 hpeer with ⟨hsafe, t, ht, hnodes', hsame⟩ | ⟨hrisky, hnone⟩ |
        ⟨hrisky, -, hreply⟩
      · rw [ht, Option.bind_some, ← hsame.replies]
        rw [ih hsame.inv (hsame.waiting.mpr hwaiting) (by rwa [hnodes']) (by rwa [hnodes']) (hlate.2 t ht)
          (hsame.ready.mpr hready), Machine.allSteps_cons_iff ht,
          and_iff_right hsafe]
      · refine iff_of_false ?_ fun h => hrisky h.1
        rintro ⟨t, ht, -⟩
        rw [hnone] at ht
        cases ht
      · -- an answer too early: nobody waits when the last word comes
        refine iff_of_false ?_ fun h => hrisky h.1
        rintro ⟨t, ht, -⟩
        rcases hreply with ⟨-, -, t', ht', hnodes', hgone, -, hinv'⟩ | ⟨hbad, -⟩
        · rw [ht', Option.bind_some, hF.run_eq_none hinv' (fun h => hgone h.1) (by rwa [hnodes'])
            (by rwa [hnodes']) (hlate.2 t' ht')] at ht
          cases ht
        · exact hbad ⟨hwaiting, hready⟩

end Farewell

end Farewell

end OmniPaxosBench.Lib
