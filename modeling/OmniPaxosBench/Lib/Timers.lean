import Mathlib.Data.List.Nodup
import Mathlib.Data.List.Basic

/-! # Timers

A table of scheduled callbacks. Scheduling returns a handle that can later be cancelled; a callback
fires only while its handle is in the table. A one-shot timer leaves the table when it fires
(`fire`), a periodic one stays (`callbackOf`). The fields `fresh` and `nodup` make handles unique,
so cancelling one timer never cancels another. -/

namespace OmniPaxosBench.Lib

/-- A handle together with the callback it was scheduled with. -/
structure Timer (α : Type*) where
  id : ℕ
  callback : α
  deriving DecidableEq, Repr

/-- The scheduled timers, with the next unused handle. -/
structure Timers (α : Type*) where
  live : List (Timer α)
  next : ℕ
  fresh : ∀ t ∈ live, t.id < next
  nodup : (live.map Timer.id).Nodup

namespace Timers

variable {α : Type*}

/-- No timer is scheduled. -/
def empty : Timers α where
  live := []
  next := 0
  fresh := by simp
  nodup := by simp

/-- Schedule a callback. -/
def schedule (T : Timers α) (cb : α) : Timers α where
  live := T.live ++ [⟨T.next, cb⟩]
  next := T.next + 1
  fresh t ht := by
    rcases List.mem_append.mp ht with h | h
    · have := T.fresh t h; omega
    · rw [List.mem_singleton.mp h]; simp
  nodup := by
    rw [List.map_append]
    refine List.nodup_append.mpr ⟨T.nodup, by simp, ?_⟩
    intro a ha b hb
    obtain ⟨t, ht, rfl⟩ := List.mem_map.mp ha
    have := T.fresh t ht
    simp only [List.map_cons, List.map_nil, List.mem_singleton] at hb
    omega

/-- The handle that `schedule` returns. -/
def handle (T : Timers α) (cb : α) : Timer α := ⟨T.next, cb⟩

/-- Take the timer with handle `id` off the table. -/
def remove (T : Timers α) (id : ℕ) : Timers α where
  live := T.live.filter fun t => t.id ≠ id
  next := T.next
  fresh t ht := T.fresh t (List.mem_of_mem_filter ht)
  nodup := T.nodup.sublist (List.filter_sublist.map _)

/-- Take the timers with the handles in `p` off the table. -/
def removeAll (T : Timers α) (p : ℕ → Prop) [DecidablePred p] : Timers α where
  live := T.live.filter fun t => ¬ p t.id
  next := T.next
  fresh t ht := T.fresh t (List.mem_of_mem_filter ht)
  nodup := T.nodup.sublist (List.filter_sublist.map _)

/-- Cancel a timer by its handle; nothing happens if it has fired or was cancelled before. -/
def cancel (T : Timers α) (t : Timer α) : Timers α := T.remove t.id

/-- The callback scheduled under `id`, if it is still scheduled. -/
def callbackOf (T : Timers α) (id : ℕ) : Option α :=
  (T.live.find? fun t => t.id = id).map Timer.callback

/-- Fire the one-shot timer `id`: its callback, and the table without it. -/
def fire (T : Timers α) (id : ℕ) : Option (α × Timers α) :=
  (T.callbackOf id).map fun cb => (cb, T.remove id)

theorem mem_schedule {T : Timers α} {cb : α} {t : Timer α} :
    t ∈ (T.schedule cb).live ↔ t ∈ T.live ∨ t = T.handle cb := by
  simp [schedule, handle]

theorem mem_remove {T : Timers α} {id : ℕ} {t : Timer α} :
    t ∈ (T.remove id).live ↔ t ∈ T.live ∧ t.id ≠ id := by
  simp [remove]

theorem mem_of_mem_cancel {T : Timers α} {t u : Timer α} (h : u ∈ (T.cancel t).live) :
    u ∈ T.live := (mem_remove.mp h).1

theorem callbackOf_eq_some {T : Timers α} {id : ℕ} {cb : α} (h : T.callbackOf id = some cb) :
    ⟨id, cb⟩ ∈ T.live := by
  obtain ⟨⟨i, c⟩, ht, rfl⟩ := Option.map_eq_some_iff.mp h
  have hid : i = id := by simpa using List.find?_some ht
  rw [← hid]
  exact List.mem_of_find?_eq_some ht

theorem fire_eq_some {T T' : Timers α} {id : ℕ} {cb : α} (h : T.fire id = some (cb, T')) :
    ⟨id, cb⟩ ∈ T.live ∧ T' = T.remove id := by
  obtain ⟨c, hc, he⟩ := Option.map_eq_some_iff.mp h
  cases he
  exact ⟨callbackOf_eq_some hc, rfl⟩

/-- Cancelling the kept handle leaves nothing, if it is the handle of every live timer. -/
theorem live_cancel {T : Timers α} {t : Timer α} (h : ∀ u ∈ T.live, some t = some u) :
    (T.cancel t).live = [] := by
  refine List.eq_nil_iff_forall_not_mem.mpr fun u hu => ?_
  obtain ⟨hu, hne⟩ := mem_remove.mp hu
  exact hne (congrArg Timer.id (Option.some.inj (h u hu))).symm

theorem live_schedule {T : Timers α} (h : T.live = []) (cb : α) :
    (T.schedule cb).live = [⟨T.next, cb⟩] := by
  change T.live ++ [_] = _
  rw [h]
  rfl

/-- Handles are unique, so a kept handle is the handle of one live timer at most. -/
theorem live_eq_singleton {T : Timers α} {kept : Option (Timer α)} (h : ∀ t ∈ T.live, kept = some t)
    (hne : T.live ≠ []) : ∃ t, T.live = [t] ∧ kept = some t := by
  obtain ⟨t, rest, heq⟩ := List.exists_cons_of_ne_nil hne
  rw [heq] at h
  have ht : kept = some t := h t List.mem_cons_self
  have hnodup := T.nodup
  rw [heq] at hnodup
  cases rest with
  | nil => exact ⟨t, heq, ht⟩
  | cons u rest =>
    have hu : kept = some u := h u (List.mem_cons_of_mem _ List.mem_cons_self)
    obtain rfl : t = u := Option.some.inj (ht.symm.trans hu)
    exact absurd List.mem_cons_self (List.nodup_cons.mp hnodup).1

/-- A timer that was just scheduled can fire. -/
theorem fire_schedule (T : Timers α) (cb : α) : ∃ T', (T.schedule cb).fire T.next = some (cb, T') := by
  have hold : (T.live.find? fun t => t.id = T.next) = none := by
    rw [List.find?_eq_none]
    intro t ht
    have := T.fresh t ht
    simp only [decide_eq_true_eq]
    omega
  have hnew : (T.schedule cb).callbackOf T.next = some cb := by
    unfold callbackOf schedule
    dsimp only
    rw [List.find?_append, hold, Option.none_or, List.find?_singleton]
    simp
  unfold fire
  rw [hnew]
  exact ⟨_, rfl⟩

end Timers

end OmniPaxosBench.Lib
