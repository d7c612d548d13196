import OmniPaxosBench.Lib.HashMap
import OmniPaxosBench.Lib.Linearizable
import Mathlib.Data.List.Sort
import Mathlib.Tactic.Linarith

/-! # The linearizability checker

`all_linearizable` of the shared test utilities takes the timestamps that the clients of an atomic
register have recorded, groups them by key, sorts every group by time and searches for a
linearization of it. The search `is_linearizable` tries the minimal operations of the history, those
invoked before the first response, as the first one, and recurses on the history without the sender
of the operation. The values written so far are a stack, whose last entry is the value a read must
return; `none` is a panic (`unwrap` of a missing value, the assertion of `remove_op`).

* `WellFormed` is what the recorded lists have in common, and `History` what this gives for the sorted
  timestamps of one key.
* `history_removeOp`, `operations_removeOp`: removing a sender removes one operation.
* `minimal_iff`: the minimal operations are those no other operation is before.
* `isLinearizable_spec`: the search decides linearizability, and leaves the stack alone if it fails. -/

namespace OmniPaxosBench.Shared.Linearizability

open OmniPaxosBench.Lib

inductive KVOperation
  | readInvokation
  | readResponse
  | writeInvokation
  | writeResponse
  deriving DecidableEq, Repr

structure KVTimestamp where
  key : UInt64
  operation : KVOperation
  value : Option UInt32
  time : Int64
  sender : UInt32
  deriving DecidableEq, Repr

/-! ### The program -/

/-- The invocations in front of the first response. -/
def getMinimalOps : List KVTimestamp → List KVTimestamp
  | [] => []
  | entry :: trace =>
    match entry.operation with
    | .readInvokation | .writeInvokation => entry :: getMinimalOps trace
    | _ => []

/-- The value a read has returned, or the one a write was called with. -/
def getResponseValue (invokation : KVTimestamp) (trace : List KVTimestamp) : Option UInt32 :=
  match invokation.operation with
  | .readInvokation =>
    match trace.find? fun x => x.operation = .readResponse ∧ x.sender = invokation.sender with
    | some ts => ts.value
    | none => none
  | _ => invokation.value

/-- The trace without the sender of `entry`; the source asserts that it gets shorter. -/
def removeOp (entry : KVTimestamp) (trace : List KVTimestamp) : Option (List KVTimestamp) :=
  let cloned := trace.filter fun x => x.sender ≠ entry.sender
  if cloned.length < trace.length then some cloned else none

theorem length_of_removeOp {entry : KVTimestamp} {trace removed : List KVTimestamp}
    (h : removeOp entry trace = some removed) : removed.length < trace.length := by
  unfold removeOp at h
  dsimp only at h
  split_ifs at h with hlt
  cases h
  exact hlt

mutual

/-- The search, with the stack `s` of values. It returns the stack as the source leaves it. -/
def isLinearizable (h : List KVTimestamp) (s : List UInt32) : Option (Bool × List UInt32) :=
  match h.isEmpty with
  | true => some (true, s)
  | false => tryMinimalOps h s (getMinimalOps h)
termination_by (h.length, (getMinimalOps h).length + 1)

/-- The loop of `is_linearizable` over the operations that may come first. -/
def tryMinimalOps (h : List KVTimestamp) (s : List UInt32) :
    List KVTimestamp → Option (Bool × List UInt32)
  | [] => some (false, s)
  | op :: ops => do
    let responseVal ← getResponseValue op h
    match op.operation with
    | .writeInvokation | .writeResponse =>
      match _hrem : removeOp op h with
      | none => none
      | some removedOpTrace =>
        -- push the value, and pop it if the rest is not linearizable
        let (found, s) ← isLinearizable removedOpTrace (s ++ [responseVal])
        if found then some (true, s) else tryMinimalOps h s.dropLast ops
    | .readInvokation | .readResponse =>
      match _hrem : removeOp op h with
      | none => none
      | some removedOpTrace =>
        let last ← s.getLast?
        if last = responseVal then do
          let (found, s) ← isLinearizable removedOpTrace s
          if found then some (true, s) else tryMinimalOps h s ops
        else tryMinimalOps h s ops
termination_by ops => (h.length, ops.length)
decreasing_by
  all_goals first
    | exact Prod.Lex.left _ _ (length_of_removeOp _hrem)
    | exact Prod.Lex.right _ (by simp)

end

/-- `into_group_map` of `itertools` as it is documented: the elements with each key, in the order in which
they come. -/
def intoGroupMap {K V : Type*} [DecidableEq K] (l : List (K × V)) : HashMap K (List V) :=
  l.foldl (fun m kv => m.insert kv.1 ((m.lookup kv.1).getD [] ++ [kv.2])) ∅

def sortByTime (trace : List KVTimestamp) : List KVTimestamp :=
  trace.mergeSort fun x y => x.time ≤ y.time

/-- The loop of `all_linearizable` over the groups. -/
def tracesLinearizable : List (List KVTimestamp) → Option Bool
  | [] => some true
  | trace :: traces => do
    let (found, _) ← isLinearizable (sortByTime trace) [0]
    if found then tracesLinearizable traces else some false

/-- The check of all keys; `order` is the order in which the hash map yields its keys. -/
def allLinearizable (order : List UInt64) (timestamps : List KVTimestamp) : Option Bool :=
  tracesLinearizable ((intoGroupMap (timestamps.map fun x => (x.key, x))).valuesIn order)

/-! ### Operations and histories -/

/-- An invocation with the response to it. -/
structure Operation where
  invokation : KVTimestamp
  response : KVTimestamp
  deriving DecidableEq, Repr

/-- A response of the kind of the invocation. Written and returned values are recorded. -/
def Matching (i r : KVTimestamp) : Prop :=
  (i.operation = .readInvokation ∧ r.operation = .readResponse ∧ r.value.isSome) ∨
    (i.operation = .writeInvokation ∧ r.operation = .writeResponse ∧ i.value.isSome)

instance (i r : KVTimestamp) : Decidable (Matching i r) := inferInstanceAs (Decidable (_ ∨ _))

/-- The operations recorded in a list. -/
def operations (h : List KVTimestamp) : Set Operation :=
  {o | o.invokation ∈ h ∧ o.response ∈ h ∧ o.invokation.sender = o.response.sender ∧
    Matching o.invokation o.response}

/-- The timestamps of one key. -/
def ofKey (key : UInt64) (timestamps : List KVTimestamp) : List KVTimestamp :=
  timestamps.filter fun x => x.key = key

/-- The first operation has returned when the second one is invoked. -/
def precedes (a b : Operation) : Prop := a.response.time < b.invokation.time

/-- **A register**: a read returns the value of the latest write. -/
def register : SequentialObject UInt32 Operation where
  accepts v o := o.invokation.operation = .readInvokation → o.response.value = some v
  effect v o := if o.invokation.operation = .writeInvokation then o.invokation.value.getD v else v

/-- **The lists the checker is made for**: no two timestamps have the same time, and a sender uses a
key for one operation, with one invocation and one later response. -/
structure WellFormed (timestamps : List KVTimestamp) : Prop where
  distinct : (timestamps.map KVTimestamp.time).Nodup
  paired : ∀ t ∈ timestamps, ∃ i r, Matching i r ∧ i.time < r.time ∧
    ((ofKey t.key timestamps).filter fun x => x.sender = t.sender).Perm [i, r]

/-- The timestamps of one key, sorted by time. -/
structure History (h : List KVTimestamp) : Prop where
  sorted : h.Pairwise fun x y => x.time < y.time
  paired : ∀ t ∈ h, ∃ o ∈ operations h, o.invokation.time < o.response.time ∧
    (t = o.invokation ∨ t = o.response)
  unique : ∀ o ∈ operations h, ∀ t ∈ h, t.sender = o.invokation.sender →
    t = o.invokation ∨ t = o.response

/-! ### The operations of a history -/

/-- An invocation is not a response. -/
theorem Matching.ne {i r i' r' : KVTimestamp} (h : Matching i r) (h' : Matching i' r') : i ≠ r' := by
  rintro rfl
  rcases h with ⟨hop, -⟩ | ⟨hop, -⟩ <;> rcases h' with ⟨-, hop', -⟩ | ⟨-, hop', -⟩ <;>
    rw [hop] at hop' <;> cases hop'

theorem mem_filter_sender {h : List KVTimestamp} {sender : UInt32} {t : KVTimestamp} :
    t ∈ h.filter (fun x => x.sender ≠ sender) ↔ t ∈ h ∧ t.sender ≠ sender := by
  rw [List.mem_filter, decide_eq_true_eq]

theorem operations_nil : operations [] = ∅ := by
  ext o
  simp [operations]

section History
variable {h : List KVTimestamp} {o o' : Operation} (hh : History h)
include hh

/-- A sender has one operation. -/
theorem History.operation_eq (ho : o ∈ operations h) (ho' : o' ∈ operations h)
    (hs : o'.invokation.sender = o.invokation.sender) : o' = o := by
  obtain ⟨hi, hr, hsame, hm⟩ := ho'
  have hinv : o'.invokation = o.invokation := by
    rcases hh.unique o ho _ hi hs with heq | heq
    · exact heq
    · exact absurd heq (hm.ne ho.2.2.2)
  have hresp : o'.response = o.response := by
    rcases hh.unique o ho _ hr (hsame ▸ hs) with heq | heq
    · exact absurd heq.symm (ho.2.2.2.ne hm)
    · exact heq
  cases o
  cases o'
  dsimp only at hinv hresp
  rw [hinv, hresp]

/-- The value that belongs to an operation is found. -/
theorem History.getResponseValue_eq (ho : o ∈ operations h) :
    getResponseValue o.invokation h =
      if o.invokation.operation = .readInvokation then o.response.value else o.invokation.value := by
  have ⟨hi, hr, hsame, hm⟩ := ho
  unfold getResponseValue
  rcases hm with ⟨hop, hop', -⟩ | ⟨hop, hop', -⟩
  · rw [if_pos hop, hop]
    cases hf : h.find? fun x => x.operation = .readResponse ∧ x.sender = o.invokation.sender with
    | none =>
      have := List.find?_eq_none.mp hf _ hr
      simp [hop', hsame] at this
    | some ts =>
      have hp := List.find?_some hf
      rw [decide_eq_true_eq] at hp
      rcases hh.unique o ho ts (List.mem_of_find?_eq_some hf) hp.2 with heq | heq
      · rw [heq, hop] at hp
        cases hp.1
      · rw [heq]
  · rw [if_neg (by rw [hop]; decide), hop]

/-- The recorded values are there. -/
theorem History.getResponseValue_isSome (ho : o ∈ operations h) :
    ∃ v, getResponseValue o.invokation h = some v := by
  rw [hh.getResponseValue_eq ho]
  rcases ho.2.2.2 with ⟨hop, -, hv⟩ | ⟨hop, -, hv⟩
  · rw [if_pos hop]
    exact Option.isSome_iff_exists.mp hv
  · rw [if_neg (by rw [hop]; decide)]
    exact Option.isSome_iff_exists.mp hv

/-! ### Removing an operation -/

/-- **Removing a sender removes one operation.** -/
theorem History.operations_filter (ho : o ∈ operations h) :
    operations (h.filter fun x => x.sender ≠ o.invokation.sender) = operations h \ {o} := by
  ext a
  constructor
  · rintro ⟨hi, hr, hsame, hm⟩
    obtain ⟨hi, hne⟩ := mem_filter_sender.mp hi
    refine ⟨⟨hi, (mem_filter_sender.mp hr).1, hsame, hm⟩, fun heq => hne ?_⟩
    rw [Set.mem_singleton_iff.mp heq]
  · rintro ⟨ha, hne⟩
    have hs : a.invokation.sender ≠ o.invokation.sender := fun hs => hne (hh.operation_eq ho ha hs)
    obtain ⟨hi, hr, hsame, hm⟩ := ha
    exact ⟨mem_filter_sender.mpr ⟨hi, hs⟩, mem_filter_sender.mpr ⟨hr, hsame ▸ hs⟩,
      hsame, hm⟩

omit hh in
theorem removeOp_eq (ho : o ∈ operations h) :
    removeOp o.invokation h = some (h.filter fun x => x.sender ≠ o.invokation.sender) := by
  unfold removeOp
  dsimp only
  rw [if_pos]
  refine List.length_filter_lt_length_iff_exists.mpr ⟨o.invokation, ho.1, by simp⟩

theorem History.filter (ho : o ∈ operations h) :
    History (h.filter fun x => x.sender ≠ o.invokation.sender) := by
  refine ⟨hh.sorted.filter _, fun t ht => ?_, fun a ha t ht hs => ?_⟩
  · obtain ⟨ht, hne⟩ := mem_filter_sender.mp ht
    obtain ⟨a, ha, hlt, hor⟩ := hh.paired t ht
    refine ⟨a, ?_, hlt, hor⟩
    rw [hh.operations_filter ho]
    refine ⟨ha, fun heq => hne ?_⟩
    rw [Set.mem_singleton_iff] at heq
    rcases hor with rfl | rfl
    · rw [heq]
    · rw [heq, ho.2.2.1]
  · rw [hh.operations_filter ho] at ha
    exact hh.unique a ha.1 t (mem_filter_sender.mp ht).1 hs

end History

/-! ### Minimal operations -/

theorem getMinimalOps_cons (entry : KVTimestamp) (trace : List KVTimestamp) :
    getMinimalOps (entry :: trace) =
      if entry.operation = .readInvokation ∨ entry.operation = .writeInvokation then
        entry :: getMinimalOps trace
      else [] := by
  cases hop : entry.operation <;> simp [getMinimalOps, hop]

theorem mem_getMinimalOps {h : List KVTimestamp} (hs : h.Pairwise fun x y => x.time < y.time)
    {t : KVTimestamp} :
    t ∈ getMinimalOps h ↔ t ∈ h ∧ ∀ x ∈ h, x.time ≤ t.time →
      x.operation = .readInvokation ∨ x.operation = .writeInvokation := by
  induction h with
  | nil => simp [getMinimalOps]
  | cons entry trace ih =>
    obtain ⟨hfirst, hrest⟩ := List.pairwise_cons.mp hs
    rw [getMinimalOps_cons]
    split_ifs with hop
    · rw [List.mem_cons, ih hrest]
      constructor
      · rintro (rfl | ⟨ht, hall⟩)
        · refine ⟨List.mem_cons_self, fun x hx hle => ?_⟩
          rcases List.mem_cons.mp hx with rfl | hx
          · exact hop
          · exact absurd (hfirst x hx) (Int64.not_lt.mpr hle)
        · refine ⟨List.mem_cons_of_mem _ ht, fun x hx hle => ?_⟩
          rcases List.mem_cons.mp hx with rfl | hx
          · exact hop
          · exact hall x hx hle
      · rintro ⟨ht, hall⟩
        rcases List.mem_cons.mp ht with rfl | ht
        · exact .inl rfl
        · exact .inr ⟨ht, fun x hx => hall x (List.mem_cons_of_mem _ hx)⟩
    · -- the first entry is a response, and nothing is earlier
      refine ⟨fun ht => absurd ht List.not_mem_nil, fun ht => ?_⟩
      refine absurd (ht.2 entry List.mem_cons_self ?_) hop
      rcases List.mem_cons.mp ht.1 with rfl | ht
      · exact Int64.le_refl _
      · exact Int64.le_of_lt (hfirst t ht)

/-- **The minimal operations** are those that no other operation precedes. -/
theorem History.minimal_iff {h : List KVTimestamp} (hh : History h) {o : Operation}
    (ho : o ∈ operations h) :
    o.invokation ∈ getMinimalOps h ↔ ∀ b ∈ operations h, b ≠ o → ¬ precedes b o := by
  rw [mem_getMinimalOps hh.sorted]
  constructor
  · rintro ⟨-, hall⟩ b hb - hlt
    have hop := hall b.response hb.2.1 (Int64.le_of_lt hlt)
    rcases hb.2.2.2 with ⟨-, hop', -⟩ | ⟨-, hop', -⟩ <;> rw [hop'] at hop <;> simp at hop
  · intro hmin
    refine ⟨ho.1, fun x hx hle => ?_⟩
    obtain ⟨b, hb, hlt, rfl | rfl⟩ := hh.paired x hx
    · rcases hb.2.2.2 with ⟨hop, -⟩ | ⟨hop, -⟩
      · exact .inl hop
      · exact .inr hop
    · -- a response that is not later than the invocation is earlier
      exfalso
      have hne : b ≠ o := by
        rintro rfl
        exact Int64.not_lt.mpr hle hlt
      refine hmin b hb hne (Int64.lt_of_le_of_ne hle fun heq => ?_)
      have hnd : (h.map KVTimestamp.time).Nodup :=
        List.pairwise_map.mpr (hh.sorted.imp fun hlt => Int64.ne_of_lt hlt)
      exact ho.2.2.2.ne hb.2.2.2 (List.inj_on_of_nodup_map hnd hx ho.1 heq).symm

/-- Every minimal operation is the invocation of an operation. -/
theorem History.exists_of_minimal {h : List KVTimestamp} (hh : History h) {t : KVTimestamp}
    (ht : t ∈ getMinimalOps h) : ∃ o ∈ operations h, o.invokation = t := by
  obtain ⟨ht, hall⟩ := (mem_getMinimalOps hh.sorted).mp ht
  obtain ⟨o, ho, -, rfl | rfl⟩ := hh.paired t ht
  · exact ⟨o, ho, rfl⟩
  · have hop := hall _ ht (Int64.le_refl _)
    rcases ho.2.2.2 with ⟨-, hop', -⟩ | ⟨-, hop', -⟩ <;> rw [hop'] at hop <;> simp at hop

/-! ### The search -/

/-- What the loop looks for among the operations that are left to try: one after which the rest is
linearizable. -/
def Succeeds (h : List KVTimestamp) (v : UInt32) (o : Operation) : Prop :=
  register.accepts v o ∧ Linearizable register precedes (register.effect v o) (operations h \ {o})

/-- The result of the search from a stack with the value `v` on top. -/
def Decides (result : Option (Bool × List UInt32)) (s : List UInt32) (P : Prop) : Prop :=
  ∃ found s', result = some (found, s') ∧ (found = true ↔ P) ∧ (found = false → s' = s)

/-- If the first search fails, it has left its stack to the next one. -/
theorem Decides.orElse {first : Option (Bool × List UInt32)} {s s₁ : List UInt32} {P Q : Prop}
    {k : List UInt32 → Option (Bool × List UInt32)} (hfirst : Decides first s₁ P)
    (hnext : Decides (k s₁) s Q) :
    Decides (first.bind fun r => if r.1 then some (true, r.2) else k r.2) s (P ∨ Q) := by
  obtain ⟨found, s', rfl, hiff, hstack⟩ := hfirst
  rw [Option.bind_some]
  cases found with
  | true => exact ⟨true, s', rfl, ⟨fun _ => .inl (hiff.mp rfl), fun _ => rfl⟩, by simp⟩
  | false =>
    obtain ⟨found, s'', hres, hiff', hstack'⟩ := hnext
    rw [hstack rfl]
    refine ⟨found, s'', hres, hiff'.trans ⟨.inr, ?_⟩, hstack'⟩
    rintro (hP | hQ)
    · cases hiff.mpr hP
    · exact hQ

theorem Decides.congr {result : Option (Bool × List UInt32)} {s : List UInt32} {P Q : Prop}
    (h : Decides result s P) (hPQ : P ↔ Q) : Decides result s Q := by
  rw [← propext hPQ]
  exact h

theorem tryMinimalOps_write {op : KVTimestamp} {ops h removed : List KVTimestamp} {s : List UInt32}
    {val : UInt32} (hop : op.operation = .writeInvokation) (hval : getResponseValue op h = some val)
    (hrem : removeOp op h = some removed) :
    tryMinimalOps h s (op :: ops) = (isLinearizable removed (s ++ [val])).bind fun r =>
      if r.1 then some (true, r.2) else tryMinimalOps h r.2.dropLast ops := by
  rw [tryMinimalOps, hval, Option.bind_eq_bind, Option.bind_some]
  simp only [hop]
  split
  · rename_i hnone
    rw [hrem] at hnone
    cases hnone
  · rename_i hsome
    obtain rfl := Option.some.inj (hrem.symm.trans hsome)
    rfl

theorem tryMinimalOps_read {op : KVTimestamp} {ops h removed : List KVTimestamp} {s : List UInt32}
    {val v : UInt32} (hop : op.operation = .readInvokation) (hval : getResponseValue op h = some val)
    (hrem : removeOp op h = some removed) (hv : s.getLast? = some v) :
    tryMinimalOps h s (op :: ops) =
      if v = val then (isLinearizable removed s).bind fun r =>
        if r.1 then some (true, r.2) else tryMinimalOps h r.2 ops
      else tryMinimalOps h s ops := by
  rw [tryMinimalOps, hval, Option.bind_eq_bind, Option.bind_some]
  simp only [hop]
  split
  · rename_i hnone
    rw [hrem] at hnone
    cases hnone
  · rename_i hsome
    obtain rfl := Option.some.inj (hrem.symm.trans hsome)
    rw [hv, Option.bind_some]
    rfl

theorem tryMinimalOps_spec {h : List KVTimestamp} (hh : History h) {s : List UInt32} {v : UInt32}
    (hv : s.getLast? = some v)
    (ih : ∀ removed : List KVTimestamp, removed.length < h.length → History removed →
      ∀ s w, s.getLast? = some w →
        Decides (isLinearizable removed s) s (Linearizable register precedes w (operations removed)))
    {ops : List KVTimestamp} (hops : ∀ t ∈ ops, ∃ o ∈ operations h, o.invokation = t) :
    Decides (tryMinimalOps h s ops) s (∃ o ∈ operations h, o.invokation ∈ ops ∧ Succeeds h v o) := by
  induction ops with
  | nil =>
    refine ⟨false, s, by rw [tryMinimalOps], ?_, fun _ => rfl⟩
    simp
  | cons op ops ihops =>
    obtain ⟨o, ho, rfl⟩ := hops op List.mem_cons_self
    have hnext := ihops fun t ht => hops t (List.mem_cons_of_mem _ ht)
    have hrem := removeOp_eq ho
    have hlen := length_of_removeOp hrem
    have hhist := hh.filter ho
    obtain ⟨val, hval⟩ := hh.getResponseValue_isSome ho
    have hsplit : (∃ a ∈ operations h, a.invokation ∈ o.invokation :: ops ∧ Succeeds h v a) ↔
        Succeeds h v o ∨ ∃ a ∈ operations h, a.invokation ∈ ops ∧ Succeeds h v a := by
      constructor
      · rintro ⟨a, ha, hin, hsucc⟩
        rcases List.mem_cons.mp hin with heq | hin
        · rw [hh.operation_eq ho ha (by rw [heq])] at hsucc
          exact .inl hsucc
        · exact .inr ⟨a, ha, hin, hsucc⟩
      · rintro (hsucc | ⟨a, ha, hin, hsucc⟩)
        · exact ⟨o, ho, List.mem_cons_self, hsucc⟩
        · exact ⟨a, ha, List.mem_cons_of_mem _ hin, hsucc⟩
    have hval' := hh.getResponseValue_eq ho
    rw [hsplit]
    rcases ho.2.2.2 with ⟨hop, -, -⟩ | ⟨hop, -, -⟩
    · rw [if_pos hop, hval] at hval'
      rw [tryMinimalOps_read hop hval hrem hv]
      split_ifs with heq
      · refine ((ih _ hlen hhist s v hv).congr ?_).orElse (k := fun s => tryMinimalOps h s ops) hnext
        rw [hh.operations_filter ho]
        simp [Succeeds, register, hop, ← hval', heq]
      · refine hnext.congr ⟨.inr, ?_⟩
        rintro (⟨hacc, -⟩ | hrest)
        · have := hval'.trans (hacc hop)
          exact absurd (Option.some.inj this).symm heq
        · exact hrest
    · rw [if_neg (by rw [hop]; decide), hval] at hval'
      rw [tryMinimalOps_write hop hval hrem]
      refine ((ih _ hlen hhist (s ++ [val]) val List.getLast?_concat).congr ?_).orElse
        (k := fun s => tryMinimalOps h s.dropLast ops) (by rw [List.dropLast_concat]; exact hnext)
      rw [hh.operations_filter ho]
      simp [Succeeds, register, hop, ← hval']

/-- **The search decides linearizability** of a history. -/
theorem isLinearizable_spec {h : List KVTimestamp} (hh : History h) {s : List UInt32} {v : UInt32}
    (hv : s.getLast? = some v) :
    Decides (isLinearizable h s) s (Linearizable register precedes v (operations h)) := by
  -- a search recurses on histories with one sender less
  induction hn : h.length using Nat.strong_induction_on generalizing h s v with
  | _ n ih =>
    subst hn
    cases h with
    | nil =>
      refine ⟨true, s, by rw [isLinearizable]; rfl, ?_, by simp⟩
      simp [operations_nil, linearizable_empty]
    | cons t l =>
      rw [isLinearizable]
      refine (tryMinimalOps_spec hh hv (fun removed hlt hr s w hw => ih _ hlt hr hw rfl)
        fun t ht => hh.exists_of_minimal ht).congr ?_
      obtain ⟨o, ho, -⟩ := hh.paired t List.mem_cons_self
      rw [linearizable_iff ⟨o, ho⟩]
      refine exists_congr fun a => and_congr_right fun ha => ?_
      rw [hh.minimal_iff ha]
      rfl

/-! ### The groups -/

theorem operations_congr {h h' : List KVTimestamp} (hsame : ∀ t, t ∈ h ↔ t ∈ h') :
    operations h = operations h' := by
  ext o
  unfold operations
  rw [Set.mem_ofPred_eq, Set.mem_ofPred_eq, hsame, hsame]

theorem sortByTime_perm (trace : List KVTimestamp) : (sortByTime trace).Perm trace :=
  List.mergeSort_perm _ _

theorem sortByTime_sorted {trace : List KVTimestamp} (h : (trace.map KVTimestamp.time).Nodup) :
    (sortByTime trace).Pairwise fun x y => x.time < y.time := by
  have hle : (sortByTime trace).Pairwise fun x y => decide (x.time ≤ y.time) = true := by
    refine List.pairwise_mergeSort (fun a b c hab hbc => ?_) (fun a b => ?_) trace
    · rw [decide_eq_true_eq] at hab hbc ⊢
      exact Int64.le_trans hab hbc
    · rw [Bool.or_eq_true, decide_eq_true_eq, decide_eq_true_eq]
      exact Int64.le_total _ _
  have hne : (sortByTime trace).Pairwise fun x y => x.time ≠ y.time :=
    List.pairwise_map.mp (((sortByTime_perm trace).map _).nodup_iff.mpr h)
  refine (hle.and hne).imp fun hxy => ?_
  exact Int64.lt_of_le_of_ne (decide_eq_true_eq.mp hxy.1) hxy.2

theorem mem_ofKey {key : UInt64} {timestamps : List KVTimestamp} {t : KVTimestamp} :
    t ∈ ofKey key timestamps ↔ t ∈ timestamps ∧ t.key = key := by
  rw [ofKey, List.mem_filter, decide_eq_true_eq]

/-- The sorted timestamps of a key are a history. -/
theorem WellFormed.history {timestamps : List KVTimestamp} (hw : WellFormed timestamps) (key : UInt64) :
    History (sortByTime (ofKey key timestamps)) := by
  have hmem (t : KVTimestamp) : t ∈ sortByTime (ofKey key timestamps) ↔ t ∈ ofKey key timestamps :=
    (sortByTime_perm _).mem_iff
  have hpair : ∀ t ∈ ofKey key timestamps, ∃ i r, Matching i r ∧ i.time < r.time ∧
      ∀ x, (x ∈ ofKey key timestamps ∧ x.sender = t.sender) ↔ x = i ∨ x = r := by
    intro t ht
    obtain ⟨hin, rfl⟩ := mem_ofKey.mp ht
    obtain ⟨i, r, hm, hlt, hperm⟩ := hw.paired t hin
    refine ⟨i, r, hm, hlt, fun x => ?_⟩
    have := hperm.mem_iff (a := x)
    simpa [List.mem_filter] using this
  refine ⟨sortByTime_sorted (hw.distinct.sublist (List.filter_sublist.map _)), fun t ht => ?_,
    fun o ho t ht hs => ?_⟩
  · rw [hmem] at ht
    obtain ⟨i, r, hm, hlt, hall⟩ := hpair t ht
    have hi := (hall i).mpr (.inl rfl)
    have hr := (hall r).mpr (.inr rfl)
    exact ⟨⟨i, r⟩, ⟨(hmem i).mpr hi.1, (hmem r).mpr hr.1, hi.2.trans hr.2.symm, hm⟩, hlt,
      (hall t).mp ⟨ht, rfl⟩⟩
  · rw [operations_congr hmem] at ho
    rw [hmem] at ht
    obtain ⟨hinv, hresp, hsame, hm'⟩ := ho
    obtain ⟨i, r, hm, -, hall⟩ := hpair _ hinv
    rcases (hall _).mp ⟨hinv, rfl⟩ with hi | hi
    · rcases (hall _).mp ⟨hresp, hsame.symm⟩ with hr | hr
      · exact absurd hr.symm (hm.ne hm')
      · rw [hi, hr]
        exact (hall t).mp ⟨ht, hs⟩
    · exact absurd hi (hm'.ne hm)

theorem lookup_intoGroupMap {K V : Type*} [DecidableEq K] (l : List (K × V)) (k : K) :
    (intoGroupMap l).lookup k =
      match (l.filter fun kv => kv.1 = k).map Prod.snd with
      | [] => none
      | v :: vs => some (v :: vs) := by
  induction l using List.reverseRecOn with
  | nil => rfl
  | append_singleton l kv ih =>
    rw [intoGroupMap, List.foldl_append, List.foldl_cons, List.foldl_nil, HashMap.lookup_insert_ite,
      List.filter_append, List.map_append]
    split_ifs with hk
    · subst hk
      change some (((intoGroupMap l).lookup kv.1).getD [] ++ [kv.2]) = _
      rw [ih]
      cases (l.filter fun x => x.1 = kv.1).map Prod.snd <;> simp
    · change (intoGroupMap l).lookup k = _
      rw [ih]
      simp [Ne.symm hk]

/-- The group of a key are its timestamps. -/
theorem lookup_groups {timestamps trace : List KVTimestamp} {key : UInt64} :
    (intoGroupMap (timestamps.map fun x => (x.key, x))).lookup key = some trace ↔
      trace = ofKey key timestamps ∧ trace ≠ [] := by
  have hgroup : ((timestamps.map fun x => (x.key, x)).filter fun kv => kv.1 = key).map Prod.snd =
      ofKey key timestamps := by
    rw [List.filter_map, List.map_map]
    exact List.map_id _
  rw [lookup_intoGroupMap, hgroup]
  cases h : ofKey key timestamps with
  | nil => simp +contextual
  | cons t l =>
    simp only [Option.some.injEq]
    constructor
    · rintro rfl
      exact ⟨rfl, List.cons_ne_nil _ _⟩
    · exact fun h => h.1.symm

/-- The loop over the groups stops at the first one that is not linearizable. -/
theorem tracesLinearizable_spec {traces : List (List KVTimestamp)}
    (hall : ∀ trace ∈ traces, History (sortByTime trace)) :
    ∃ b, tracesLinearizable traces = some b ∧
      (b = true ↔ ∀ trace ∈ traces, Linearizable register precedes 0 (operations trace)) := by
  induction traces with
  | nil => exact ⟨true, rfl, by simp⟩
  | cons trace traces ih =>
    obtain ⟨b, hb, hiff⟩ := ih fun t ht => hall t (List.mem_cons_of_mem _ ht)
    obtain ⟨found, s, hres, hfound, -⟩ := isLinearizable_spec (hall trace List.mem_cons_self)
      (s := [0]) (v := 0) rfl
    rw [operations_congr fun t => (sortByTime_perm trace).mem_iff] at hfound
    simp only [tracesLinearizable, hres, Option.bind_eq_bind, Option.bind_some, List.forall_mem_cons]
    cases found with
    | true => exact ⟨b, hb, by rw [hiff, and_iff_right (hfound.mp rfl)]⟩
    | false => exact ⟨false, rfl, by simp [← hfound]⟩

/-- **The checker decides linearizability**: it returns for every well-formed list and every order of
the keys, and returns true just when the operations of each key are linearizable as a register that
holds `0` at first. -/
theorem allLinearizable_iff {timestamps : List KVTimestamp} (hw : WellFormed timestamps)
    (order : List UInt64)
    (horder : HashMap.Enumerates order (intoGroupMap (timestamps.map fun x => (x.key, x)))) :
    ∃ b, allLinearizable order timestamps = some b ∧
      (b = true ↔ ∀ key, Linearizable register precedes 0 (operations (ofKey key timestamps))) := by
  have htraces (trace : List KVTimestamp) :=
    HashMap.mem_valuesIn horder (v := trace)
  simp only [lookup_groups] at htraces
  have hall : ∀ trace ∈ (intoGroupMap (timestamps.map fun x => (x.key, x))).valuesIn order,
      History (sortByTime trace) := by
    intro trace ht
    obtain ⟨key, rfl, -⟩ := (htraces trace).mp ht
    exact hw.history key
  obtain ⟨b, hb, hiff⟩ := tracesLinearizable_spec hall
  refine ⟨b, hb, hiff.trans ⟨fun h key => ?_, fun h trace ht => ?_⟩⟩
  · by_cases hnil : ofKey key timestamps = []
    · rw [hnil, operations_nil]
      exact linearizable_empty 0
    · exact h _ ((htraces _).mpr ⟨key, rfl, hnil⟩)
  · obtain ⟨key, rfl, -⟩ := (htraces trace).mp ht
    exact h key

/-- A read that overlaps with a write and returns its value. -/
def overlap : List KVTimestamp :=
  [⟨7, .writeInvokation, some 5, 1, 1⟩, ⟨7, .readResponse, some 5, 3, 2⟩,
    ⟨7, .readInvokation, none, 2, 2⟩, ⟨7, .writeResponse, none, 4, 1⟩]

theorem overlap_wellFormed : WellFormed overlap := by
  refine ⟨by decide, fun t ht => ?_⟩
  simp only [overlap, List.mem_cons, List.not_mem_nil, or_false] at ht
  rcases ht with rfl | rfl | rfl | rfl
  · exact ⟨_, _, by decide, by decide, List.Perm.refl [_, _]⟩
  · exact ⟨_, _, by decide, by decide, List.Perm.swap _ _ []⟩
  · exact ⟨_, _, by decide, by decide, List.Perm.swap _ _ []⟩
  · exact ⟨_, _, by decide, by decide, List.Perm.refl [_, _]⟩

/-- The write can come first. -/
theorem overlap_linearizable (key : UInt64) :
    Linearizable register precedes 0 (operations (ofKey key overlap)) := by
  by_cases hkey : key = 7
  · subst hkey
    refine ⟨[⟨⟨7, .writeInvokation, some 5, 1, 1⟩, ⟨7, .writeResponse, none, 4, 1⟩⟩,
      ⟨⟨7, .readInvokation, none, 2, 2⟩, ⟨7, .readResponse, some 5, 3, 2⟩⟩], by decide, fun o => ?_,
      by simp [KeepsOrder, precedes], ?_⟩
    · obtain ⟨i, r⟩ := o
      have hof : ofKey 7 overlap = overlap := by decide
      rw [hof]
      constructor
      · intro ho
        simp only [List.mem_cons, List.not_mem_nil, or_false, Operation.mk.injEq] at ho
        rcases ho with ⟨rfl, rfl⟩ | ⟨rfl, rfl⟩ <;> exact ⟨by decide, by decide, by decide, by decide⟩
      · rintro ⟨hi, hr, hs, hm⟩
        simp only [overlap, List.mem_cons, List.not_mem_nil, or_false] at hi hr
        rcases hi with rfl | rfl | rfl | rfl <;> rcases hr with rfl | rfl | rfl | rfl <;>
          first | exact absurd hm (by decide) | decide
    · rw [legal_cons, legal_cons]
      exact ⟨by simp [register], by simp [register], legal_nil _⟩
  · have hnil : ofKey key overlap = [] := by simp [ofKey, overlap, Ne.symm hkey]
    rw [hnil, operations_nil]
    exact linearizable_empty 0

theorem allLinearizable_overlap : allLinearizable [7] overlap = some true := by
  obtain ⟨b, hb, hiff⟩ := allLinearizable_iff overlap_wellFormed [7] (by decide)
  rw [hb, hiff.mpr overlap_linearizable]

end OmniPaxosBench.Shared.Linearizability
