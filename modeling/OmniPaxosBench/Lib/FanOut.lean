import Mathlib.Data.List.Nodup
import Mathlib.Data.List.Perm.Basic
import Mathlib.Logic.Function.Basic

/-! # Asking many servers and joining the answers

A caller sends a command to each of its servers and waits for all answers. Requests and responses are
delivered in any order, a request can be lost, and a call can fail at the caller whatever becomes of its
request. Every server works off its queue on its own.

`Joined` is what holds while the caller waits, if nothing was outstanding when it asked: every server
either still has the one command before it, and is as it was, or has none, and is as the answer says.
So once all answers are in, all servers are where the commands lead them (`Joined.done`). When the caller
gives up early, what is left is `Tidy`: at most one command for each server, which still fits. -/

namespace OmniPaxosBench.Lib

universe u v w

/-- Servers, and the messages to and from them. A command carries the number of its call. -/
structure FanOut (σ : Type u) (κ : Type v) (ρ : Type w) where
  server : ℕ → σ
  queue : ℕ → List (κ × ℕ)
  requests : List (ℕ × κ × ℕ)
  responses : List (ℕ × ρ)
  /-- The number of the next call. -/
  next : ℕ

/-- A call of the caller. -/
structure Call (ρ : Type w) where
  server : ℕ
  number : ℕ
  /-- `none` while the caller waits, `some none` if the call has failed. -/
  result : Option (Option ρ)

namespace FanOut

variable {σ : Type u} {κ : Type v} {ρ : Type w} (N : FanOut σ κ ρ)

/-! ### Operations -/

def send (cmd : κ) (i : ℕ) : FanOut σ κ ρ :=
  { N with requests := N.requests ++ [(i, cmd, N.next)], next := N.next + 1 }

def sendAll (N : FanOut σ κ ρ) (cmd : κ) : List ℕ → FanOut σ κ ρ × List (Call ρ)
  | [] => (N, [])
  | i :: is =>
    let (N', calls) := sendAll (N.send cmd i) cmd is
    (N', ⟨i, N.next, none⟩ :: calls)

/-- The request at place `k` reaches its server, which acknowledges commands of some kinds at once. -/
def deliver (ack : κ → Option ρ) (k : ℕ) : Option (FanOut σ κ ρ) :=
  N.requests[k]?.map fun r =>
    { N with
      requests := N.requests.eraseIdx k
      queue := Function.update N.queue r.1 (N.queue r.1 ++ [r.2])
      responses := N.responses ++ ((ack r.2.1).map fun a => (r.2.2, a)).toList }

def lose (k : ℕ) : Option (FanOut σ κ ρ) :=
  N.requests[k]?.map fun _ => { N with requests := N.requests.eraseIdx k }

/-- Server `i` has become `s`. -/
def setServer (i : ℕ) (s : σ) : FanOut σ κ ρ := { N with server := Function.update N.server i s }

/-- Server `i` runs the next command of its queue. -/
def execute (run : σ → κ → Option (σ × Option ρ)) (i : ℕ) : Option (FanOut σ κ ρ) :=
  match N.queue i with
  | [] => none
  | x :: rest => (run (N.server i) x.1).map fun (s, r) =>
    { N.setServer i s with
      queue := Function.update N.queue i rest
      responses := N.responses ++ (r.map fun r => (x.2, r)).toList }

/-- The response at place `k` reaches the caller, if one of its calls waits for it. -/
def respond (calls : List (Call ρ)) (k : ℕ) : Option (FanOut σ κ ρ × List (Call ρ)) :=
  N.responses[k]?.bind fun (number, r) =>
    if calls.any fun c => c.number = number ∧ c.result.isNone then
      some ({ N with responses := N.responses.eraseIdx k },
        calls.map fun c => if c.number = number then { c with result := some (some r) } else c)
    else none

end FanOut

namespace Call

variable {ρ : Type w}

/-- The call with this number fails. -/
def fail (calls : List (Call ρ)) (number : ℕ) : List (Call ρ) :=
  calls.map fun c => if c.number = number ∧ c.result.isNone then { c with result := some none } else c

/-- The call has failed, or the answer is not accepted. -/
def Failed {α : Type*} (accept : ρ → Option α) (c : Call ρ) : Prop :=
  c.result = some none ∨ ∃ r, c.result = some (some r) ∧ accept r = none

instance {α : Type*} (accept : ρ → Option α) (c : Call ρ) : Decidable (Failed accept c) :=
  match h : c.result with
  | none => isFalse (by simp [Failed, h])
  | some none => isTrue (Or.inl h)
  | some (some r) => decidable_of_iff ((accept r).isNone = true) (by simp [Failed, h])

/-- The accepted answers in the order of the calls, if all are in. -/
def answers {α : Type*} (accept : ρ → Option α) : List (Call ρ) → Option (List (ℕ × α))
  | [] => some []
  | c :: cs =>
    (c.result.join.bind accept).bind fun a => (answers accept cs).map ((c.server, a) :: ·)

/-- All calls are joined: `none` while the caller waits, `some none` if one of them fails. -/
def joinAll {α : Type*} (accept : ρ → Option α) (calls : List (Call ρ)) : Option (Option (List (ℕ × α))) :=
  if ∃ c ∈ calls, Failed accept c then some none else (answers accept calls).map some

theorem answers_eq_some {α : Type*} {accept : ρ → Option α} {calls : List (Call ρ)} {as : List (ℕ × α)}
    (h : answers accept calls = some as) : as.map Prod.fst = calls.map server ∧
      ∀ x ∈ as, ∃ c ∈ calls, c.server = x.1 ∧ ∃ r, c.result = some (some r) ∧ accept r = some x.2 := by
  induction calls generalizing as with
  | nil => cases h; exact ⟨rfl, fun x hx => absurd hx List.not_mem_nil⟩
  | cons c cs ih =>
    obtain ⟨a, ha, hrest⟩ := Option.bind_eq_some_iff.mp h
    obtain ⟨r, hr, hacc⟩ := Option.bind_eq_some_iff.mp ha
    obtain ⟨as', has', rfl⟩ := Option.map_eq_some_iff.mp hrest
    obtain ⟨hmap, hall⟩ := ih has'
    refine ⟨by rw [List.map_cons, List.map_cons, hmap], fun x hx => ?_⟩
    rcases List.mem_cons.mp hx with rfl | hx
    · exact ⟨c, List.mem_cons_self, rfl, r, Option.join_eq_some_iff.mp hr, hacc⟩
    · obtain ⟨c', hc', hrest'⟩ := hall x hx
      exact ⟨c', List.mem_cons_of_mem _ hc', hrest'⟩

theorem joinAll_cases {α : Type*} {accept : ρ → Option α} {calls : List (Call ρ)}
    {res : Option (List (ℕ × α))} (h : joinAll accept calls = some res) :
    (res = none ∧ ∃ c ∈ calls, Failed accept c) ∨ ∃ as, res = some as ∧ answers accept calls = some as := by
  unfold joinAll at h
  split_ifs at h with hfail
  · cases h; exact Or.inl ⟨rfl, hfail⟩
  · obtain ⟨as, has, rfl⟩ := Option.map_eq_some_iff.mp h
    exact Or.inr ⟨as, rfl, has⟩

end Call

namespace FanOut

variable {σ : Type u} {κ : Type v} {ρ : Type w} {N N' : FanOut σ κ ρ} {cmd : κ} {i k : ℕ}
  {calls calls' : List (Call ρ)} {before before' : σ → Prop} {after after' : ρ → σ → Prop}
  {fits : σ → κ → Prop} {run : σ → κ → Option (σ × Option ρ)} {ack : κ → Option ρ}

@[simp] theorem setServer_self (s : σ) : (N.setServer i s).server i = s := Function.update_self ..

theorem setServer_of_ne {j : ℕ} (h : j ≠ i) (s : σ) : (N.setServer i s).server j = N.server j :=
  Function.update_of_ne h ..

/-! ### What is outstanding -/

/-- The commands on the way to server `i`. -/
def toServer (i : ℕ) (requests : List (ℕ × κ × ℕ)) : List (κ × ℕ) :=
  (requests.filter fun r => r.1 = i).map Prod.snd

theorem toServer_cons (r : ℕ × κ × ℕ) (rs : List (ℕ × κ × ℕ)) :
    toServer i (r :: rs) = if r.1 = i then r.2 :: toServer i rs else toServer i rs := by
  unfold toServer
  by_cases h : r.1 = i <;> simp [h]

theorem toServer_append (rs rs' : List (ℕ × κ × ℕ)) :
    toServer i (rs ++ rs') = toServer i rs ++ toServer i rs' := by
  unfold toServer
  rw [List.filter_append, List.map_append]

/-- The commands server `i` has not run: on the way, and in its queue. -/
def outstanding (N : FanOut σ κ ρ) (i : ℕ) : List (κ × ℕ) := toServer i N.requests ++ N.queue i

/-- Nothing is outstanding. -/
def Quiet (N : FanOut σ κ ρ) : Prop := N.requests = [] ∧ ∀ i, N.queue i = []

theorem Quiet.outstanding (h : N.Quiet) (i : ℕ) : N.outstanding i = [] := by
  unfold FanOut.outstanding
  rw [h.1, h.2 i]; rfl

theorem quiet_iff : N.Quiet ↔ ∀ i, N.outstanding i = [] := by
  refine ⟨fun h => h.outstanding, fun h => ⟨?_, fun i => (List.append_eq_nil_iff.mp (h i)).2⟩⟩
  cases hreq : N.requests with
  | nil => rfl
  | cons r rs =>
    have hnil := (List.append_eq_nil_iff.mp (h r.1)).1
    rw [hreq, toServer_cons, if_pos rfl] at hnil
    cases hnil

theorem outstanding_send (j : ℕ) : (N.send cmd i).outstanding j =
    if i = j then toServer j N.requests ++ (cmd, N.next) :: N.queue j else N.outstanding j := by
  unfold outstanding send
  rw [toServer_append, toServer_cons, List.append_assoc]
  by_cases h : i = j
  · rw [if_pos h, if_pos h]; rfl
  · rw [if_neg h, if_neg h]; rfl

theorem perm_deliver (h : N.deliver ack k = some N') (j : ℕ) :
    (N'.outstanding j).Perm (N.outstanding j) := by
  obtain ⟨r, hr, rfl⟩ := Option.map_eq_some_iff.mp h
  obtain ⟨hk, rfl⟩ := List.getElem?_eq_some_iff.mp hr
  have hperm : (toServer j (N.requests[k] :: N.requests.eraseIdx k)).Perm (toServer j N.requests) :=
    ((List.getElem_cons_eraseIdx_perm hk).filter _).map _
  rw [toServer_cons] at hperm
  unfold outstanding
  by_cases hj : N.requests[k].1 = j
  · rw [if_pos hj] at hperm
    subst hj
    dsimp only
    rw [Function.update_self, ← List.append_assoc]
    exact List.perm_append_comm.trans (hperm.append_right _)
  · rw [if_neg hj] at hperm
    dsimp only
    rw [Function.update_of_ne (Ne.symm hj)]
    exact hperm.append_right _

theorem sublist_lose (h : N.lose k = some N') (j : ℕ) : (N'.outstanding j).Sublist (N.outstanding j) := by
  obtain ⟨r, -, rfl⟩ := Option.map_eq_some_iff.mp h
  exact (((List.eraseIdx_sublist _ _).filter _).map _).append_right _

/-- What a server does with its next command. -/
theorem execute_cases (h : N.execute run i = some N') : ∃ x s r, run (N.server i) x.1 = some (s, r) ∧
    x ∈ N.outstanding i ∧ (N.outstanding i = [x] → N'.outstanding i = []) ∧
    (N'.outstanding i).Sublist (N.outstanding i) ∧
    N'.server = Function.update N.server i s ∧
    N'.responses = N.responses ++ (r.map fun r => (x.2, r)).toList ∧ N'.next = N.next ∧
    ∀ j ≠ i, N'.outstanding j = N.outstanding j := by
  unfold execute at h
  split at h
  · cases h
  · next x rest hqueue =>
    obtain ⟨⟨s, r⟩, hrun, rfl⟩ := Option.map_eq_some_iff.mp h
    have hold : N.outstanding i = toServer i N.requests ++ x :: rest := by rw [outstanding, hqueue]
    refine ⟨x, s, r, hrun, ?_, fun hone => ?_, ?_, rfl, rfl, rfl, fun j hj => ?_⟩
    · rw [hold]; exact List.mem_append_right _ List.mem_cons_self
    · rw [hold] at hone
      unfold outstanding
      dsimp only [setServer]
      rw [Function.update_self]
      cases hreq : toServer i N.requests with
      | nil =>
        rw [hreq, List.nil_append, List.cons.injEq] at hone
        rw [hone.2]; rfl
      | cons y ys =>
        rw [hreq, List.cons_append, List.cons.injEq] at hone
        exact absurd hone.2 (List.append_ne_nil_of_right_ne_nil _ (List.cons_ne_nil _ _))
    · rw [hold]
      unfold outstanding
      dsimp only [setServer]
      rw [Function.update_self]
      exact (List.sublist_cons_self _ _).append_left _
    · unfold outstanding
      dsimp only [setServer]
      rw [Function.update_of_ne hj]

/-! ### Numbers -/

/-- All numbers used are below the next one. -/
structure Numbered (N : FanOut σ κ ρ) : Prop where
  commands : ∀ i, ∀ x ∈ N.outstanding i, x.2 < N.next
  responses : ∀ x ∈ N.responses, x.1 < N.next

theorem Numbered.of_subset (h : N.Numbered) (hout : ∀ i, N'.outstanding i ⊆ N.outstanding i)
    (hresp : N'.responses ⊆ N.responses) (hnext : N'.next = N.next) : N'.Numbered :=
  ⟨fun i x hx => hnext ▸ h.commands i x (hout i hx), fun x hx => hnext ▸ h.responses x (hresp hx)⟩

/-- The request that is delivered. -/
theorem deliver_cases (h : N.deliver ack k = some N') : ∃ r : ℕ × κ × ℕ, r.2 ∈ N.outstanding r.1 ∧
    N'.server = N.server ∧ N'.next = N.next ∧
    N'.responses = N.responses ++ ((ack r.2.1).map fun a => (r.2.2, a)).toList := by
  obtain ⟨r, hr, rfl⟩ := Option.map_eq_some_iff.mp h
  refine ⟨r, List.mem_append_left _ (List.mem_map.mpr ⟨r, ?_, rfl⟩), rfl, rfl, rfl⟩
  exact List.mem_filter.mpr ⟨List.mem_of_getElem? hr, decide_eq_true rfl⟩

theorem Numbered.deliver (h : N.Numbered) (hd : N.deliver ack k = some N') : N'.Numbered := by
  obtain ⟨r, hr, -, hnext, hresp⟩ := deliver_cases hd
  refine ⟨fun i x hx => hnext ▸ h.commands i x ((perm_deliver hd i).subset hx), fun x hx => ?_⟩
  rw [hnext]
  rw [hresp] at hx
  rcases List.mem_append.mp hx with hx | hx
  · exact h.responses x hx
  · cases hack : ack r.2.1 with
    | none => rw [hack] at hx; cases hx
    | some a => rw [hack] at hx; rw [List.mem_singleton.mp hx]; exact h.commands r.1 r.2 hr

theorem Numbered.lose (h : N.Numbered) (hl : N.lose k = some N') : N'.Numbered := by
  obtain ⟨r, -, heq⟩ := Option.map_eq_some_iff.mp hl
  exact h.of_subset (fun i => (sublist_lose hl i).subset) (by rw [← heq]; exact List.Subset.refl _)
    (by rw [← heq])

theorem Numbered.setServer (h : N.Numbered) (s : σ) : (N.setServer i s).Numbered := ⟨h.commands, h.responses⟩

theorem Numbered.execute (h : N.Numbered) (he : N.execute run i = some N') : N'.Numbered := by
  obtain ⟨x, s, r, -, hx, -, hsub, -, hresp, hnext, hother⟩ := execute_cases he
  refine ⟨fun j y hy => ?_, fun y hy => ?_⟩
  · rw [hnext]
    by_cases hj : j = i
    · subst hj; exact h.commands j y (hsub.subset hy)
    · rw [hother j hj] at hy; exact h.commands j y hy
  · rw [hnext]
    rw [hresp] at hy
    rcases List.mem_append.mp hy with hy | hy
    · exact h.responses y hy
    · cases r with
      | none => cases hy
      | some r => rw [List.mem_singleton.mp hy]; exact h.commands i x hx

/-- What becomes of a response. -/
theorem respond_cases (h : N.respond calls k = some (N', calls')) : ∃ number r,
    (number, r) ∈ N.responses ∧ N' = { N with responses := N.responses.eraseIdx k } ∧
    calls' = calls.map fun c => if c.number = number then { c with result := some (some r) } else c := by
  obtain ⟨⟨number, r⟩, hget, hrest⟩ := Option.bind_eq_some_iff.mp h
  dsimp only at hrest
  split_ifs at hrest
  cases hrest
  exact ⟨number, r, List.mem_of_getElem? hget, rfl, rfl⟩

/-- The servers of the calls stay as they are. -/
theorem servers_map {f : Call ρ → Call ρ} (hf : ∀ c, (f c).server = c.server) :
    (calls.map f).map Call.server = calls.map Call.server := by
  rw [List.map_map]
  exact List.map_congr_left fun c _ => hf c

theorem servers_respond (h : N.respond calls k = some (N', calls')) :
    calls'.map Call.server = calls.map Call.server := by
  obtain ⟨number, r, -, -, rfl⟩ := respond_cases h
  exact servers_map fun c => by split_ifs <;> rfl

theorem servers_fail (number : ℕ) : (Call.fail calls number).map Call.server = calls.map Call.server :=
  servers_map fun c => by split_ifs <;> rfl

theorem Numbered.respond (h : N.Numbered) (hr : N.respond calls k = some (N', calls')) : N'.Numbered := by
  obtain ⟨number, r, -, rfl, -⟩ := respond_cases hr
  exact ⟨h.commands, fun x hx => h.responses x (List.mem_of_mem_eraseIdx hx)⟩

/-! ### What is left behind -/

/-- Every server has at most one command before it, and it fits. -/
structure Tidy (fits : σ → κ → Prop) (N : FanOut σ κ ρ) : Prop where
  numbered : N.Numbered
  each : ∀ i, N.outstanding i = [] ∨ ∃ x, N.outstanding i = [x] ∧ fits (N.server i) x.1

theorem Quiet.tidy (h : N.Quiet) (hnumbered : N.Numbered) : N.Tidy fits :=
  ⟨hnumbered, fun i => Or.inl (h.outstanding i)⟩

theorem Tidy.deliver (h : N.Tidy fits) (hd : N.deliver ack k = some N') : N'.Tidy fits := by
  obtain ⟨r, -, hserver, -⟩ := deliver_cases hd
  refine ⟨h.numbered.deliver hd, fun i => ?_⟩
  have hperm := perm_deliver hd i
  rcases h.each i with hnil | ⟨x, hone, hfits⟩
  · rw [hnil] at hperm
    exact Or.inl hperm.eq_nil
  · rw [hone, List.perm_singleton] at hperm
    exact Or.inr ⟨x, hperm, by rw [hserver]; exact hfits⟩

theorem eq_of_sublist_singleton {α : Type*} {l : List α} {x : α} (h : l.Sublist [x]) : l = [] ∨ l = [x] := by
  rcases List.sublist_cons_iff.mp h with hnil | ⟨l', rfl, hnil⟩
  · exact Or.inl (List.sublist_nil.mp hnil)
  · exact Or.inr (congrArg (List.cons x) (List.sublist_nil.mp hnil))

theorem Tidy.lose (h : N.Tidy fits) (hl : N.lose k = some N') : N'.Tidy fits := by
  obtain ⟨r, -, heq⟩ := Option.map_eq_some_iff.mp hl
  refine ⟨h.numbered.lose hl, fun i => ?_⟩
  have hsub := sublist_lose hl i
  rcases h.each i with hnil | ⟨x, hone, hfits⟩
  · rw [hnil] at hsub
    exact Or.inl (List.sublist_nil.mp hsub)
  · rw [hone] at hsub
    exact (eq_of_sublist_singleton hsub).imp_right fun heq' => ⟨x, heq', by rw [← heq]; exact hfits⟩

theorem Tidy.setServer (h : N.Tidy fits) {s : σ} (hs : ∀ cmd, fits (N.server i) cmd → fits s cmd) :
    (N.setServer i s).Tidy fits := by
  refine ⟨h.numbered.setServer s, fun j => (h.each j).imp_right fun ⟨x, hone, hfits⟩ => ⟨x, hone, ?_⟩⟩
  by_cases hj : j = i
  · subst hj
    simp only [FanOut.setServer, Function.update_self]
    exact hs _ hfits
  · simp only [FanOut.setServer, Function.update_of_ne hj]
    exact hfits

/-- The command a server runs fits. -/
theorem Tidy.fits_of_execute (h : N.Tidy fits) {x : κ × ℕ} (hx : x ∈ N.outstanding i) :
    N.outstanding i = [x] ∧ fits (N.server i) x.1 := by
  rcases h.each i with hnil | ⟨y, hone, hfits⟩
  · rw [hnil] at hx; cases hx
  · rw [hone] at hx
    obtain rfl := List.mem_singleton.mp hx
    exact ⟨hone, hfits⟩

theorem Tidy.execute (h : N.Tidy fits) (he : N.execute run i = some N') : N'.Tidy fits := by
  refine ⟨h.numbered.execute he, fun j => ?_⟩
  obtain ⟨x, s, r, -, hx, hone, -, hserver, -, -, hother⟩ := execute_cases he
  by_cases hj : j = i
  · subst hj
    exact Or.inl (hone (h.fits_of_execute hx).1)
  · rw [hother j hj, hserver, Function.update_of_ne hj]
    exact h.each j

theorem Tidy.respond (h : N.Tidy fits) (hr : N.respond calls k = some (N', calls')) : N'.Tidy fits := by
  obtain ⟨number, r, -, rfl, -⟩ := respond_cases hr
  exact ⟨h.numbered.respond hr, h.each⟩

/-! ### While the caller waits -/

/-- The server of `c` has the command before it, and is as it was. -/
structure Waits (cmd : κ) (before : σ → Prop) (N : FanOut σ κ ρ) (c : Call ρ) : Prop where
  outstanding : N.outstanding c.server = [(cmd, c.number)]
  server : before (N.server c.server)
  responses : ∀ r, (c.number, r) ∉ N.responses
  result : ∀ r, c.result ≠ some (some r)

/-- The server of `c` has nothing before it, and is as the answer says, if there is one. -/
structure Ran (after : ρ → σ → Prop) (N : FanOut σ κ ρ) (c : Call ρ) : Prop where
  outstanding : N.outstanding c.server = []
  server : ∀ r, (c.number, r) ∈ N.responses ∨ c.result = some (some r) → after r (N.server c.server)

/-- The caller has asked the servers of `calls` to run `cmd`. -/
structure Joined (cmd : κ) (before : σ → Prop) (after : ρ → σ → Prop) (N : FanOut σ κ ρ)
    (calls : List (Call ρ)) : Prop where
  numbered : N.Numbered
  servers : (calls.map Call.server).Nodup
  numbers : (calls.map Call.number).Nodup
  others : ∀ i, i ∉ calls.map Call.server → N.outstanding i = []
  each : ∀ c ∈ calls, Waits cmd before N c ∨ Ran after N c

/-- A command that is outstanding is the one of the caller. -/
theorem Joined.eq_of_mem (h : Joined cmd before after N calls) {x : κ × ℕ} (hx : x ∈ N.outstanding i) :
    x.1 = cmd ∧ ∃ c ∈ calls, c.server = i ∧ x.2 = c.number ∧ Waits cmd before N c := by
  have hi : i ∈ calls.map Call.server := by
    by_contra hi
    rw [h.others i hi] at hx
    cases hx
  obtain ⟨c, hc, rfl⟩ := List.mem_map.mp hi
  have hw : Waits cmd before N c := (h.each c hc).resolve_right fun hr => by
    rw [hr.outstanding] at hx
    cases hx
  rw [hw.outstanding] at hx
  rw [List.mem_singleton.mp hx]
  exact ⟨rfl, c, hc, rfl, rfl, hw⟩

theorem Joined.deliver (h : Joined cmd before after N calls) (hd : N.deliver ack k = some N')
    (hack : ack cmd = none) : Joined cmd before after N' calls := by
  obtain ⟨r, hr, hserver, -, hresp⟩ := deliver_cases hd
  rw [(h.eq_of_mem hr).1, hack, Option.map_none, Option.toList_none, List.append_nil] at hresp
  refine ⟨h.numbered.deliver hd, h.servers, h.numbers, fun i hi => ?_, fun c hc => ?_⟩
  · exact List.perm_nil.mp (h.others i hi ▸ perm_deliver hd i)
  · rcases h.each c hc with hw | hr
    · refine Or.inl ⟨?_, by rw [hserver]; exact hw.server, by rw [hresp]; exact hw.responses, hw.result⟩
      exact List.perm_singleton.mp (hw.outstanding ▸ perm_deliver hd c.server)
    · refine Or.inr ⟨?_, by rw [hresp, hserver]; exact hr.server⟩
      exact List.perm_nil.mp (hr.outstanding ▸ perm_deliver hd c.server)

theorem Joined.lose (h : Joined cmd before after N calls) (hl : N.lose k = some N') :
    Joined cmd before after N' calls := by
  obtain ⟨r, -, heq⟩ := Option.map_eq_some_iff.mp hl
  have hserver : N'.server = N.server := by rw [← heq]
  have hresp : N'.responses = N.responses := by rw [← heq]
  refine ⟨h.numbered.lose hl, h.servers, h.numbers, fun i hi => ?_, fun c hc => ?_⟩
  · exact List.sublist_nil.mp (h.others i hi ▸ sublist_lose hl i)
  · rcases h.each c hc with hw | hr
    · rcases eq_of_sublist_singleton (hw.outstanding ▸ sublist_lose hl c.server) with hnil | hone
      · -- the request is lost, and there will be no answer
        refine Or.inr ⟨hnil, fun r hr => ?_⟩
        rw [hresp] at hr
        exact absurd hr (not_or_intro (hw.responses r) (hw.result r))
      · exact Or.inl ⟨hone, by rw [hserver]; exact hw.server, by rw [hresp]; exact hw.responses, hw.result⟩
    · refine Or.inr ⟨?_, by rw [hresp, hserver]; exact hr.server⟩
      exact List.sublist_nil.mp (hr.outstanding ▸ sublist_lose hl c.server)

theorem Joined.setServer (h : Joined cmd before after N calls) {s : σ}
    (hbefore : before (N.server i) → before s) (hafter : ∀ r, after r (N.server i) → after r s) :
    Joined cmd before after (N.setServer i s) calls := by
  have hserver : ∀ j, (N.setServer i s).server j = if j = i then s else N.server j := fun j =>
    Function.update_apply ..
  refine ⟨h.numbered.setServer s, h.servers, h.numbers, h.others, fun c hc => ?_⟩
  rcases h.each c hc with hw | hr
  · refine Or.inl ⟨hw.outstanding, ?_, hw.responses, hw.result⟩
    rw [hserver]
    split_ifs with hi
    · exact hbefore (hi ▸ hw.server)
    · exact hw.server
  · refine Or.inr ⟨hr.outstanding, fun r hr' => ?_⟩
    rw [hserver]
    split_ifs with hi
    · exact hafter r (hi ▸ hr.server r hr')
    · exact hr.server r hr'

/-- Calls with different servers have different numbers. -/
theorem Joined.number_ne (h : Joined cmd before after N calls) {c d : Call ρ} (hc : c ∈ calls)
    (hd : d ∈ calls) (hne : c.server ≠ d.server) : c.number ≠ d.number := fun heq =>
  hne (congrArg Call.server (List.inj_on_of_nodup_map h.numbers hc hd heq))

theorem Joined.execute (h : Joined cmd before after N calls) (he : N.execute run i = some N')
    (hrun : ∀ s s' r, before s → run s cmd = some (s', some r) → after r s') :
    Joined cmd before after N' calls := by
  obtain ⟨⟨x, number⟩, s, r, hx, hmem, hone, -, hserver, hresp, -, hother⟩ := execute_cases he
  obtain ⟨rfl, c, hc, rfl, rfl, hw⟩ := h.eq_of_mem hmem
  rw [hw.outstanding] at hone
  have hi : c.server ∈ calls.map Call.server := List.mem_map.mpr ⟨c, hc, rfl⟩
  refine ⟨h.numbered.execute he, h.servers, h.numbers, fun j hj => ?_, fun d hd => ?_⟩
  · have hjc : j ≠ c.server := fun heq => hj (heq ▸ hi)
    rw [hother j hjc]
    exact h.others j hj
  · by_cases hdc : d.server = c.server
    · obtain rfl := List.inj_on_of_nodup_map h.servers hd hc hdc
      refine Or.inr ⟨hone rfl, fun r' hr' => ?_⟩
      rw [hserver, Function.update_self]
      rw [hresp, List.mem_append] at hr'
      rcases hr' with (hr' | hr') | hr'
      · exact absurd hr' (hw.responses r')
      · cases r with
        | none => cases hr'
        | some r =>
          cases List.mem_singleton.mp hr'
          exact hrun _ _ _ hw.server hx
      · exact absurd hr' (hw.result r')
    · have hnumber := h.number_ne hd hc hdc
      have hmem' : ∀ r', (d.number, r') ∈ N'.responses → (d.number, r') ∈ N.responses := by
        intro r' hr'
        rw [hresp, List.mem_append] at hr'
        refine hr'.resolve_right fun hr' => ?_
        cases r with
        | none => cases hr'
        | some r =>
          exact absurd (congrArg Prod.fst (List.mem_singleton.mp hr')) hnumber
      rcases h.each d hd with hwd | hrd
      · refine Or.inl ⟨by rw [hother _ hdc]; exact hwd.outstanding, ?_,
          fun r' hr' => hwd.responses r' (hmem' r' hr'), hwd.result⟩
        rw [hserver, Function.update_of_ne hdc]
        exact hwd.server
      · refine Or.inr ⟨by rw [hother _ hdc]; exact hrd.outstanding, fun r' hr' => ?_⟩
        rw [hserver, Function.update_of_ne hdc]
        exact hrd.server r' (hr'.imp_left (hmem' r'))

/-- Calls that changed in their results only. -/
theorem Joined.map {f : Call ρ → Call ρ} (h : Joined cmd before after N calls) (hnumbered : N'.Numbered)
    (hserver : ∀ c, (f c).server = c.server) (hnumber : ∀ c, (f c).number = c.number)
    (hout : ∀ i, N'.outstanding i = N.outstanding i)
    (heach : ∀ c ∈ calls, (Waits cmd before N c ∨ Ran after N c) →
      Waits cmd before N' (f c) ∨ Ran after N' (f c)) :
    Joined cmd before after N' (calls.map f) := by
  have hservers : (calls.map f).map Call.server = calls.map Call.server := servers_map hserver
  have hnumbers : (calls.map f).map Call.number = calls.map Call.number := by
    rw [List.map_map]
    exact List.map_congr_left fun c _ => hnumber c
  refine ⟨hnumbered, hservers ▸ h.servers, hnumbers ▸ h.numbers, fun i hi => ?_, fun c hc => ?_⟩
  · rw [hout]
    exact h.others i (hservers ▸ hi)
  · obtain ⟨d, hd, rfl⟩ := List.mem_map.mp hc
    exact heach d hd (h.each d hd)

theorem Joined.respond (h : Joined cmd before after N calls) (hr : N.respond calls k = some (N', calls')) :
    Joined cmd before after N' calls' := by
  have hnumbered := h.numbered.respond hr
  obtain ⟨number, r, hmem, rfl, rfl⟩ := respond_cases hr
  refine h.map hnumbered (fun c => by split_ifs <;> rfl) (fun c => by split_ifs <;> rfl) (fun _ => rfl) ?_
  intro c hc hcase
  split_ifs with hnumber
  · subst hnumber
    have hran : Ran after N c := hcase.resolve_left fun hw => hw.responses r hmem
    refine Or.inr ⟨hran.outstanding, fun r' hr' => ?_⟩
    rcases hr' with hr' | hr'
    · exact hran.server r' (Or.inl (List.mem_of_mem_eraseIdx hr'))
    · cases hr'
      exact hran.server r (Or.inl hmem)
  · rcases hcase with hw | hran
    · exact Or.inl ⟨hw.outstanding, hw.server, fun r' hr' => hw.responses r' (List.mem_of_mem_eraseIdx hr'),
        hw.result⟩
    · exact Or.inr ⟨hran.outstanding, fun r' hr' =>
        hran.server r' (hr'.imp_left List.mem_of_mem_eraseIdx)⟩

theorem Joined.fail (h : Joined cmd before after N calls) (number : ℕ) :
    Joined cmd before after N (Call.fail calls number) := by
  refine h.map h.numbered (fun c => by split_ifs <;> rfl) (fun c => by split_ifs <;> rfl) (fun _ => rfl) ?_
  intro c hc hcase
  split_ifs with hnumber
  · rcases hcase with hw | hran
    · exact Or.inl ⟨hw.outstanding, hw.server, hw.responses, nofun⟩
    · exact Or.inr ⟨hran.outstanding, fun r hr => hran.server r (Or.inl (hr.resolve_right nofun))⟩
  · exact hcase

/-- What is left when the caller stops waiting. -/
theorem Joined.tidy (h : Joined cmd before after N calls) (hfits : ∀ s, before s → fits s cmd) :
    N.Tidy fits := by
  refine ⟨h.numbered, fun i => ?_⟩
  by_cases hi : i ∈ calls.map Call.server
  · obtain ⟨c, hc, rfl⟩ := List.mem_map.mp hi
    rcases h.each c hc with hw | hr
    · exact Or.inr ⟨_, hw.outstanding, hfits _ hw.server⟩
    · exact Or.inl hr.outstanding
  · exact Or.inl (h.others i hi)

/-- No call fails if none has failed at the caller and all answers are of the accepted kind. -/
theorem Joined.not_failed {α : Type*} {accept : ρ → Option α}
    (h : Joined cmd before (fun r _ => (accept r).isSome) N calls)
    (hnone : ∀ c ∈ calls, c.result ≠ some none) : ¬ ∃ c ∈ calls, Call.Failed accept c := by
  rintro ⟨c, hc, hfail | ⟨r, hr, hacc⟩⟩
  · exact hnone c hc hfail
  · rcases h.each c hc with hw | hran
    · exact hw.result r hr
    · have hsome := hran.server r (Or.inr hr)
      rw [hacc] at hsome
      cases hsome

/-- **All answers are in**: nothing is outstanding, and every server is as its answer says. -/
theorem Joined.done (h : Joined cmd before after N calls) {α : Type*} {accept : ρ → Option α}
    {as : List (ℕ × α)} (has : Call.answers accept calls = some as) :
    N.Quiet ∧ as.map Prod.fst = calls.map Call.server ∧
      ∀ x ∈ as, ∃ r, accept r = some x.2 ∧ after r (N.server x.1) := by
  obtain ⟨hmap, hall⟩ := Call.answers_eq_some has
  have hran : ∀ x ∈ as, ∃ c ∈ calls, c.server = x.1 ∧ Ran after N c ∧
      ∃ r, c.result = some (some r) ∧ accept r = some x.2 := by
    intro x hx
    obtain ⟨c, hc, hserver, r, hresult, hacc⟩ := hall x hx
    exact ⟨c, hc, hserver, (h.each c hc).resolve_left fun hw => hw.result _ hresult, r, hresult, hacc⟩
  refine ⟨quiet_iff.mpr fun i => ?_, hmap, fun x hx => ?_⟩
  · by_cases hi : i ∈ calls.map Call.server
    · rw [← hmap] at hi
      obtain ⟨x, hx, rfl⟩ := List.mem_map.mp hi
      obtain ⟨c, -, hserver, hr, -⟩ := hran x hx
      rw [← hserver]
      exact hr.outstanding
    · exact h.others i hi
  · obtain ⟨c, -, hserver, hr, r, hresult, hacc⟩ := hran x hx
    rw [← hserver]
    exact ⟨r, hacc, hr.server r (Or.inr hresult)⟩

/-! ### Asking -/

theorem sendAll_spec (N : FanOut σ κ ρ) (cmd : κ) (is : List ℕ) :
    (N.sendAll cmd is).1.server = N.server ∧ (N.sendAll cmd is).1.responses = N.responses ∧
      (N.sendAll cmd is).1.next = N.next + is.length ∧ (N.sendAll cmd is).2.map Call.server = is ∧
      (N.sendAll cmd is).2.map Call.number = List.range' N.next is.length ∧
      (∀ c ∈ (N.sendAll cmd is).2, c.result = none) ∧
      (∀ j, j ∉ is → (N.sendAll cmd is).1.outstanding j = N.outstanding j) ∧
      (is.Nodup → (∀ i ∈ is, N.outstanding i = []) → ∀ c ∈ (N.sendAll cmd is).2,
        (N.sendAll cmd is).1.outstanding c.server = [(cmd, c.number)]) := by
  induction is generalizing N with
  | nil => exact ⟨rfl, rfl, rfl, rfl, rfl, fun c hc => absurd hc List.not_mem_nil, fun _ _ => rfl,
      fun _ _ c hc => absurd hc List.not_mem_nil⟩
  | cons i is ih =>
    obtain ⟨h1, h2, h3, h4, h5, h6, h7, h8⟩ := ih (N.send cmd i)
    refine ⟨h1, h2, ?_, ?_, ?_, fun c hc => ?_, fun j hj => ?_, fun hnodup hnil c hc => ?_⟩
    · rw [sendAll, h3, List.length_cons]
      simp only [send]
      omega
    · rw [sendAll, List.map_cons, h4]
    · rw [sendAll, List.map_cons, h5, List.length_cons, List.range'_succ]
      rfl
    · rcases List.mem_cons.mp hc with rfl | hc
      · rfl
      · exact h6 c hc
    · obtain ⟨hji, hj⟩ := not_or.mp (mt List.mem_cons.mpr hj)
      rw [sendAll]
      exact (h7 j hj).trans ((outstanding_send j).trans (if_neg (Ne.symm hji)))
    · obtain ⟨hi, hnodup⟩ := List.nodup_cons.mp hnodup
      rw [sendAll] at hc ⊢
      have hself : (N.send cmd i).outstanding i = [(cmd, N.next)] := by
        have hparts := List.append_eq_nil_iff.mp (hnil i List.mem_cons_self)
        rw [outstanding_send, if_pos rfl, hparts.1, hparts.2]
        rfl
      rcases List.mem_cons.mp hc with rfl | hc
      · exact (h7 i hi).trans hself
      · refine h8 hnodup (fun j hj => ?_) c hc
        have hji : i ≠ j := fun heq => hi (heq ▸ hj)
        exact (outstanding_send j).trans ((if_neg hji).trans (hnil j (List.mem_cons_of_mem _ hj)))

/-- **Asking when nothing is outstanding.** -/
theorem Joined.sendAll (hnumbered : N.Numbered) (hquiet : N.Quiet) {is : List ℕ} (hnodup : is.Nodup)
    (hbefore : ∀ i ∈ is, before (N.server i)) :
    Joined cmd before after (N.sendAll cmd is).1 (N.sendAll cmd is).2 := by
  obtain ⟨h1, h2, h3, h4, h5, h6, h7, h8⟩ := sendAll_spec N cmd is
  have hone := h8 hnodup fun i _ => hquiet.outstanding i
  have hnumber : ∀ c ∈ (N.sendAll cmd is).2, N.next ≤ c.number ∧ c.number < N.next + is.length := by
    intro c hc
    have hmem : c.number ∈ List.range' N.next is.length := h5 ▸ List.mem_map.mpr ⟨c, hc, rfl⟩
    rwa [List.mem_range'_1] at hmem
  have hother : ∀ i, i ∉ is → (N.sendAll cmd is).1.outstanding i = [] := fun i hi =>
    (h7 i hi).trans (hquiet.outstanding i)
  refine ⟨⟨fun i x hx => ?_, fun x hx => ?_⟩, h4.symm ▸ hnodup, h5.symm ▸ List.nodup_range',
    fun i hi => hother i (h4 ▸ hi), fun c hc => Or.inl ⟨hone c hc, ?_, fun r hr => ?_, fun r => ?_⟩⟩
  · rw [h3]
    by_cases hi : i ∈ is
    · rw [← h4] at hi
      obtain ⟨c, hc, rfl⟩ := List.mem_map.mp hi
      rw [hone c hc] at hx
      rw [List.mem_singleton.mp hx]
      exact (hnumber c hc).2
    · rw [hother i hi] at hx
      cases hx
  · rw [h2] at hx
    rw [h3]
    exact Nat.lt_of_lt_of_le (hnumbered.responses x hx) (Nat.le_add_right _ _)
  · rw [h1]
    exact hbefore _ (h4 ▸ List.mem_map.mpr ⟨c, hc, rfl⟩)
  · rw [h2] at hr
    exact absurd (hnumbered.responses _ hr) (Nat.not_lt.mpr (hnumber c hc).1)
  · rw [h6 c hc]
    nofun

end FanOut

end OmniPaxosBench.Lib
