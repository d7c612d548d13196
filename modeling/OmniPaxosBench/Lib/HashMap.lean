import Mathlib.Data.Finmap

/-! # Hash maps

A hash map is a finite map without an order, Mathlib's `Finmap`. Iteration yields the entries in an
order the program cannot rely on: it is given as a list `order` of the keys, and every result about
`valuesIn` holds for all enumerations. -/

namespace OmniPaxosBench.Lib

/-- A finite map from `K` to `V`, without an order. -/
abbrev HashMap (K V : Type*) := Finmap fun _ : K => V

namespace HashMap

variable {K V : Type*} [DecidableEq K] {m : HashMap K V} {k k' : K} {v w : V} {order : List K}

/-- The number of entries. -/
def len (m : HashMap K V) : ℕ := m.keys.card

/-- `order` enumerates the keys of `m`. -/
def Enumerates (order : List K) (m : HashMap K V) : Prop := order.Nodup ∧ order.toFinset = m.keys

instance (order : List K) (m : HashMap K V) : Decidable (Enumerates order m) :=
  inferInstanceAs (Decidable (_ ∧ _))

/-- The values, in the order given by the list of keys. -/
def valuesIn (m : HashMap K V) (order : List K) : List V := order.filterMap m.lookup

theorem lookup_insert_ite : (m.insert k v).lookup k' = if k' = k then some v else m.lookup k' := by
  split_ifs with h
  · subst h; exact Finmap.lookup_insert m
  · exact Finmap.lookup_insert_of_ne m h

theorem lookup_erase_ite : (m.erase k).lookup k' = if k' = k then none else m.lookup k' := by
  split_ifs with h
  · subst h; exact Finmap.lookup_erase _ _
  · exact Finmap.lookup_erase_ne h

theorem mem_of_lookup (h : m.lookup k = some v) : k ∈ m := Finmap.mem_iff.mpr ⟨v, h⟩

theorem keys_insert : (m.insert k v).keys = insert k m.keys := by
  ext a
  rw [Finset.mem_insert, Finmap.mem_keys, Finmap.mem_keys, Finmap.mem_insert]

theorem mem_keys_iff : k ∈ m.keys ↔ ∃ v, m.lookup k = some v := by
  rw [Finmap.mem_keys, Finmap.mem_iff]

theorem mem_valuesIn (h : Enumerates order m) : v ∈ m.valuesIn order ↔ ∃ k, m.lookup k = some v := by
  rw [valuesIn, List.mem_filterMap]
  refine ⟨fun ⟨k, _, hk⟩ => ⟨k, hk⟩, fun ⟨k, hk⟩ => ⟨k, ?_, hk⟩⟩
  rw [← List.mem_toFinset, h.2]
  exact mem_keys_iff.mpr ⟨v, hk⟩

/-- If every value names its own key, the names of the values are the keys in the given order. -/
theorem map_valuesIn {key : V → K} (hkey : ∀ k v, m.lookup k = some v → key v = k)
    (horder : ∀ k ∈ order, k ∈ m.keys) : (m.valuesIn order).map key = order := by
  induction order with
  | nil => rfl
  | cons a l ih =>
    obtain ⟨v, hv⟩ := mem_keys_iff.mp (horder a (by simp))
    have ih' := ih fun k hk => horder k (by simp [hk])
    rw [valuesIn, List.filterMap_cons]
    simp only [hv, List.map_cons, hkey a v hv]
    exact congrArg (a :: ·) ih'

theorem Enumerates.mem_keys (h : Enumerates order m) : ∀ k ∈ order, k ∈ m.keys := fun k hk => by
  rw [← h.2]; exact List.mem_toFinset.mpr hk

theorem Enumerates.length (h : Enumerates order m) : order.length = m.len := by
  rw [len, ← h.2, List.toFinset_card_of_nodup h.1]

end HashMap

end OmniPaxosBench.Lib
