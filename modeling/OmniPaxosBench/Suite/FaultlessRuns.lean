import OmniPaxosBench.Suite.Lockstep

/-! # Runs without faults

No message is lost, no call fails, and every client can set up the tests. Then a client that checks in
is answered, so it is entered once, and a join ends with all answers, so nothing is outstanding when the
next test begins: such runs are orderly (`orderly_of_faultless`), and no distributed test is cancelled. -/

namespace OmniPaxosBench.Suite

open OmniPaxosBench.Lib BenchmarkClient

variable {τ : Type} {exceeds : List τ → Bool} {byLabel : String → Except NotImplementedError BenchKind}
  {n : ℕ} {d d' : Deployment τ} {e : HarnessEvent τ}

/-- The clients know the distributed test. -/
def Known (byLabel : String → Except NotImplementedError BenchKind) (label : String) : Bool :=
  match byLabel label with
  | .ok .distributed => true
  | .ok .local | .error _ => false

def isOk {ε α : Type} : Except ε α → Bool
  | .ok _ => true
  | .error _ => false

namespace Deployment

/-- The label of the next test, if it is a distributed one. -/
def nextLabel (d : Deployment τ) : Option String :=
  match d.benchQueue with
  | .invoke _ (.distributed label) :: _ => some label
  | _ => none

/-- No fault happens in the step. -/
def Faultless (byLabel : String → Except NotImplementedError BenchKind) (d : Deployment τ) :
    HarnessEvent τ → Prop
  | .checkIn _ outcome => outcome ≠ .unanswered
  | .take setup => ∀ label ∈ d.nextLabel, Known byLabel label ∧ isOk (setup d.numberOfClients)
  | .execute _ res => isOk res
  | .lose _ | .fail _ => False
  | _ => True

instance (d : Deployment τ) : ∀ e : HarnessEvent τ, Decidable (d.Faultless byLabel e)
  | .checkIn _ outcome => inferInstanceAs (Decidable (outcome ≠ .unanswered))
  | .take setup => inferInstanceAs
      (Decidable (∀ label ∈ d.nextLabel, Known byLabel label ∧ isOk (setup d.numberOfClients)))
  | .execute _ res => inferInstanceAs (Decidable (isOk res = true))
  | .lose _ | .fail _ => inferInstanceAs (Decidable False)
  | .checkInHandler | .enqueue _ | .enqueueShutdown | .localDone _ | .iterate _ _ | .join | .deliver _
  | .respond _ => inferInstanceAs (Decidable True)

/-- No call has failed. -/
def NoneFailed (calls : List (Call ClientResponse)) : Prop := ∀ c ∈ calls, c.result ≠ some none

/-- What holds in runs without faults, for each thing the master can be doing. -/
def Clean (byLabel : String → Except NotImplementedError BenchKind) (state : MasterState)
    (net : FanOut BenchmarkClient ClientCommand ClientResponse) : Task τ → Prop
  | .idle => state ≠ .stopped → net.Quiet
  | .local _ _ => net.Quiet
  | .setup t calls => Known byLabel t.label ∧ NoneFailed calls ∧
    FanOut.Joined (.setup t.label t.conf) (fun _ => True) (fun r _ => (acceptSetup r).isSome) net calls
  | .cleanup _ _ isFinal calls => NoneFailed calls ∧
    FanOut.Joined (.cleanup isFinal) (fun _ => True) (fun r _ => (acceptCleanup r).isSome) net calls
  | .iterating _ _ => net.Quiet
  | .shutdown _ | .panicked _ => True

/-- The clients that have reached the master do not check in any more. -/
structure CheckedIn (d : Deployment τ) : Prop where
  nodup : (d.clients ++ d.checkInQueue).Nodup
  state : ∀ i ∈ d.clients ++ d.checkInQueue, (d.net.server i).state ≠ .checkingIn

structure FaultlessInv (byLabel : String → Except NotImplementedError BenchKind) (d : Deployment τ) : Prop where
  checkedIn : d.CheckedIn
  clean : Clean byLabel d.state d.net d.task
  answered : ∀ a ∈ d.answers, ∀ label, a.benchmark = .distributed label → a.result ≠ none

variable {state : MasterState} {task : Task τ} {net : FanOut BenchmarkClient ClientCommand ClientResponse}
  {x : FanOut BenchmarkClient ClientCommand ClientResponse × List (Call ClientResponse)}

theorem eq_ok_of_isOk {ε α : Type} {r : Except ε α} (h : isOk r = true) : ∃ a, r = .ok a := by
  cases r with
  | ok a => exact ⟨a, rfl⟩
  | error => cases h

theorem eq_of_known {label : String} (h : Known byLabel label = true) : byLabel label = .ok .distributed := by
  unfold Known at h
  split at h
  · assumption
  · cases h
  · cases h

/-! ### Checking in -/

/-- A client that has not checked in has not done so before. -/
theorem checkingIn_netStep (h : d.netStep byLabel e = some x) {i : ℕ}
    (hi : (x.1.server i).state = .checkingIn) : (d.net.server i).state = .checkingIn := by
  rcases netStep_cases h with ⟨⟨k, hk⟩, -⟩ | ⟨⟨k, hk⟩, -⟩ | ⟨⟨j, res, -, hj⟩, -⟩ | ⟨k, hk⟩ | ⟨number, hnet, -⟩
  · obtain ⟨y, -, hserver, -⟩ := FanOut.deliver_cases hk
    rwa [hserver] at hi
  · obtain ⟨y, -, heq⟩ := Option.map_eq_some_iff.mp hk
    rwa [← heq] at hi
  · obtain ⟨y, c, r, hrun, -, -, -, hserver, -⟩ := FanOut.execute_cases hj
    rw [hserver] at hi
    by_cases hij : i = j
    · subst hij
      rw [Function.update_self] at hi
      exact absurd hi (handle_checkingIn hrun)
    · rwa [Function.update_of_ne hij] at hi
  · obtain ⟨number, r, -, heq, -⟩ := FanOut.respond_cases hk
    rwa [heq] at hi
  · rwa [hnet] at hi

theorem CheckedIn.checkIn (h : d.CheckedIn) {i : ℕ} {outcome : CheckIn} (hok : outcome ≠ .unanswered)
    (hd : d.checkIn i outcome = some d') : d'.CheckedIn := by
  obtain ⟨c, hc, rfl⟩ := Option.map_eq_some_iff.mp hd
  have hi : i ∉ d.clients ++ d.checkInQueue := fun hmem => h.state i hmem (checkin_cases hc).1
  have hother : ∀ j ∈ d.clients ++ d.checkInQueue, ((d.net.setServer i c).server j).state ≠ .checkingIn := by
    intro j hj
    have hji : j ≠ i := fun heq => hi (heq ▸ hj)
    rw [FanOut.setServer_of_ne hji]
    exact h.state j hj
  by_cases hreached : outcome ≠ .lost ∧ d.state = .init
  · -- the client is answered, as its request has reached the master
    have hanswered : outcome = .answered := by
      cases outcome with
      | lost => exact absurd rfl hreached.1
      | unanswered => exact absurd rfl hok
      | answered => rfl
    have hready : c.state ≠ .checkingIn := by
      rw [hanswered] at hc
      rw [ready_of_checkin hc]
      nofun
    refine ⟨?_, ?_⟩
    · dsimp only
      rw [if_pos hreached, ← List.append_assoc]
      refine List.nodup_append.mpr ⟨h.nodup, List.nodup_singleton i, fun a ha b hb heq => ?_⟩
      rw [List.mem_singleton.mp hb] at heq
      exact hi (heq ▸ ha)
    · dsimp only
      rw [if_pos hreached, ← List.append_assoc]
      intro j hj
      rcases List.mem_append.mp hj with hj | hj
      · exact hother j hj
      · rw [List.mem_singleton.mp hj, FanOut.setServer_self]
        exact hready
  · refine ⟨?_, ?_⟩
    · dsimp only
      rw [if_neg hreached]
      exact h.nodup
    · dsimp only
      rw [if_neg hreached]
      exact hother

theorem CheckedIn.checkInHandler (h : d.CheckedIn) (hd : d.checkInHandler = some d') : d'.CheckedIn := by
  unfold Deployment.checkInHandler at hd
  split at hd
  · next request rest hstate hqueue =>
    have happend : (d.clients ++ [request]) ++ rest = d.clients ++ d.checkInQueue := by
      rw [hqueue, List.append_assoc]
      rfl
    have hnodup := happend.symm ▸ h.nodup
    have hall := happend.symm ▸ h.state
    dsimp only at hd
    split_ifs at hd
    · obtain ⟨s, -, rfl⟩ := Option.map_eq_some_iff.mp hd
      exact ⟨hnodup, hall⟩
    · cases hd
      exact ⟨hnodup, hall⟩
  · cases hd

/-! ### Joins -/

theorem NoneFailed.netStep (h : NoneFailed d.task.calls) (hok : d.Faultless byLabel e)
    (hx : d.netStep byLabel e = some x) : NoneFailed x.2 := by
  cases e with
  | deliver k =>
    obtain ⟨net, -, rfl⟩ := Option.map_eq_some_iff.mp hx
    exact h
  | lose k => exact hok.elim
  | execute i res =>
    obtain ⟨net, -, rfl⟩ := Option.map_eq_some_iff.mp hx
    exact h
  | respond k =>
    have hx' : d.net.respond d.task.calls k = some (x.1, x.2) := hx
    obtain ⟨number, r, -, -, hcalls⟩ := FanOut.respond_cases hx'
    rw [hcalls]
    intro c hc
    obtain ⟨c₀, hc₀, rfl⟩ := List.mem_map.mp hc
    split_ifs
    · nofun
    · exact h c₀ hc₀
  | fail number => exact hok.elim
  | checkIn => cases hx
  | checkInHandler => cases hx
  | enqueue => cases hx
  | enqueueShutdown => cases hx
  | take => cases hx
  | localDone => cases hx
  | iterate => cases hx
  | join => cases hx

theorem Clean.netStep (h : Clean byLabel d.state d.net d.task) (hok : d.Faultless byLabel e)
    (hx : d.netStep byLabel e = some x) : Clean byLabel d.state x.1 (d.task.setCalls x.2) := by
  cases htask : d.task with
  | idle =>
    rw [htask] at h
    intro hstate
    rw [netStep_of_quiet (h hstate) (by rw [htask]; rfl) hx]
    exact h hstate
  | «local» =>
    rw [htask] at h
    rw [netStep_of_quiet h (by rw [htask]; rfl) hx]
    exact h
  | iterating t it =>
    rw [htask] at h
    rw [netStep_of_quiet h (by rw [htask]; rfl) hx]
    exact h
  | setup t calls =>
    rw [htask] at h
    obtain ⟨hknown, hnone, hjoined⟩ := h
    refine ⟨hknown, NoneFailed.netStep (by rw [htask]; exact hnone) hok hx, ?_⟩
    refine joined_netStep (by rw [htask]; exact hjoined) rfl (fun i res he c c' r _ hrun => ?_) hx
    subst he
    obtain ⟨data, hdata⟩ := eq_ok_of_isOk hok
    cases setup_of_ok (eq_of_known hknown) hdata hrun
    rfl
  | cleanup t it isFinal calls =>
    rw [htask] at h
    obtain ⟨hnone, hjoined⟩ := h
    refine ⟨NoneFailed.netStep (by rw [htask]; exact hnone) hok hx, ?_⟩
    refine joined_netStep (by rw [htask]; exact hjoined) rfl (fun i res _ c c' r _ hrun => ?_) hx
    cases cleanup_answer hrun
    rfl
  | shutdown => trivial
  | panicked => trivial

theorem Clean.setServer (h : Clean byLabel state net task) (i : ℕ) (c : BenchmarkClient) :
    Clean byLabel state (net.setServer i c) task := by
  cases task with
  | idle => exact h
  | «local» => exact h
  | iterating => exact h
  | setup => exact ⟨h.1, h.2.1, h.2.2.setServer id fun _ => id⟩
  | cleanup => exact ⟨h.1, h.2.setServer id fun _ => id⟩
  | shutdown => trivial
  | panicked => trivial

/-- Calls that are sent when nothing is outstanding. -/
theorem sendAll_clean (hnumbered : net.Numbered) (hquiet : net.Quiet) {clients : List ℕ}
    (hnodup : clients.Nodup) (cmd : ClientCommand) (after : ClientResponse → BenchmarkClient → Prop) :
    NoneFailed (net.sendAll cmd clients).2 ∧
      FanOut.Joined cmd (fun _ => True) after (net.sendAll cmd clients).1 (net.sendAll cmd clients).2 := by
  obtain ⟨-, -, -, -, -, hnone, -⟩ := FanOut.sendAll_spec net cmd clients
  refine ⟨fun c hc => ?_, FanOut.Joined.sendAll hnumbered hquiet hnodup fun _ _ => trivial⟩
  rw [hnone c hc]
  nofun

/-! ### Steps -/

theorem FaultlessInv.quiet_of_take (h : d.FaultlessInv byLabel) {setup : ℕ → Except BenchmarkError String}
    (hd : d.take setup = some d') : d.net.Quiet := by
  unfold Deployment.take at hd
  split at hd
  · next bench rest htask hstate hqueue =>
    have hclean := h.clean
    rw [htask] at hclean
    exact hclean (by rw [hstate]; nofun)
  · cases hd

/-- **A step that can happen is orderly.** -/
theorem FaultlessInv.orderly (h : d.FaultlessInv byLabel) (hd : d.step exceeds byLabel e = some d') :
    d.Orderly e := by
  cases e with
  | checkInHandler =>
    intro i hi hmem
    refine List.disjoint_of_nodup_append h.checkedIn.nodup hmem ?_
    exact List.mem_of_mem_head? hi
  | take setup => exact h.quiet_of_take hd
  | checkIn => trivial
  | enqueue => trivial
  | enqueueShutdown => trivial
  | localDone => trivial
  | iterate => trivial
  | join => trivial
  | deliver => trivial
  | lose => trivial
  | execute => trivial
  | respond => trivial
  | fail => trivial

/-- An answer that is not a cancelled distributed test. -/
theorem FaultlessInv.answer (h : d.FaultlessInv byLabel) (hquiet : d.net.Quiet) {id : ℕ}
    {benchmark : AbstractBench} {result : Option (TestResult τ)}
    (hresult : ∀ label, benchmark = .distributed label → result ≠ none) :
    (d.answer id benchmark result).FaultlessInv byLabel := by
  refine ⟨⟨h.checkedIn.nodup, h.checkedIn.state⟩, fun _ => hquiet, fun a ha label hlabel => ?_⟩
  rcases List.mem_append.mp ha with ha | ha
  · exact h.answered a ha label hlabel
  · rw [List.mem_singleton.mp ha] at hlabel ⊢
    exact hresult label hlabel

/-- The clients are as they were when commands are sent to them. -/
theorem CheckedIn.sendAll (h : d.CheckedIn) (cmd : ClientCommand) (is : List ℕ) :
    ∀ i ∈ d.clients ++ d.checkInQueue, ((d.net.sendAll cmd is).1.server i).state ≠ .checkingIn := by
  rw [(FanOut.sendAll_spec d.net cmd is).1]
  exact h.state

theorem FaultlessInv.take (h : d.FaultlessInv byLabel) (hlock : Lockstep exceeds n d)
    {setup : ℕ → Except BenchmarkError String} (hok : d.Faultless byLabel (.take setup))
    (hd : d.take setup = some d') : d'.FaultlessInv byLabel := by
  have hquiet := h.quiet_of_take hd
  unfold Deployment.take at hd
  split at hd
  · next bench rest htask hstate hqueue =>
    cases bench with
    | invoke id benchmark =>
      cases benchmark with
      | «local» label =>
        obtain ⟨s, -, rfl⟩ := Option.map_eq_some_iff.mp hd
        exact ⟨⟨h.checkedIn.nodup, h.checkedIn.state⟩, hquiet, h.answered⟩
      | distributed label =>
        obtain ⟨hknown, hsetup⟩ := hok label (by rw [nextLabel, hqueue]; rfl)
        obtain ⟨conf, hconf⟩ := eq_ok_of_isOk hsetup
        obtain ⟨s, -, rfl⟩ := Option.map_eq_some_iff.mp hd
        simp only [hconf]
        refine ⟨⟨h.checkedIn.nodup, h.checkedIn.sendAll _ _⟩, ⟨hknown, ?_⟩, h.answered⟩
        exact sendAll_clean hlock.task.tidy.numbered hquiet hlock.clients _ _
    | shutdown =>
      cases hd
      refine ⟨⟨(List.nodup_append.mp h.checkedIn.nodup).2.1, fun i hi => ?_⟩, trivial, h.answered⟩
      exact h.checkedIn.sendAll .shutdown d.clients i (List.mem_append_right _ hi)
  · cases hd

theorem FaultlessInv.iterate (h : d.FaultlessInv byLabel) (hlock : Lockstep exceeds n d) {prepared : Bool}
    {time : τ} (hd : d.iterate exceeds prepared time = some d') : d'.FaultlessInv byLabel := by
  unfold Deployment.iterate at hd
  split at hd
  · next t it htask =>
    have hiter : Iterating exceeds t it d.state d.clients d.net :=
      (htask ▸ hlock.task : InStep exceeds _ _ _ (.iterating t it))
    split_ifs at hd
    · obtain ⟨s, -, rfl⟩ := Option.map_eq_some_iff.mp hd
      refine ⟨⟨h.checkedIn.nodup, h.checkedIn.sendAll _ _⟩, ?_, h.answered⟩
      exact sendAll_clean hiter.numbered hiter.quiet (hiter.data ▸ hlock.clients) _ _
    · cases hd
      exact ⟨⟨h.checkedIn.nodup, h.checkedIn.state⟩, trivial, h.answered⟩
  · cases hd

theorem FaultlessInv.join (h : d.FaultlessInv byLabel) (hd : d.join = some d') :
    d'.FaultlessInv byLabel := by
  have hclean := h.clean
  unfold Deployment.join at hd
  split at hd
  · next t calls htask =>
    rw [htask] at hclean
    obtain ⟨-, hnone, hjoined⟩ := hclean
    obtain ⟨res, hres, hd⟩ := Option.bind_eq_some_iff.mp hd
    rcases Call.joinAll_cases hres with ⟨rfl, hfailed⟩ | ⟨data, rfl, hdata⟩
    · exact absurd hfailed (hjoined.not_failed hnone)
    · obtain ⟨s, -, rfl⟩ := Option.map_eq_some_iff.mp hd
      exact ⟨⟨h.checkedIn.nodup, h.checkedIn.state⟩, (hjoined.done hdata).1, h.answered⟩
  · next t it isFinal calls htask =>
    rw [htask] at hclean
    obtain ⟨hnone, hjoined⟩ := hclean
    obtain ⟨res, hres, hd⟩ := Option.bind_eq_some_iff.mp hd
    rcases Call.joinAll_cases hres with ⟨rfl, hfailed⟩ | ⟨as, rfl, has⟩
    · exact absurd hfailed (hjoined.not_failed hnone)
    · have hquiet := (hjoined.done has).1
      dsimp only [cleanupDone] at hd
      split_ifs at hd
      · obtain ⟨s, -, rfl⟩ := Option.map_eq_some_iff.mp hd
        have hrest : ({ d with state := s, finished := d.finished ++ [(t, it)] } : Deployment τ).FaultlessInv
            byLabel := ⟨⟨h.checkedIn.nodup, h.checkedIn.state⟩, by
          show Clean byLabel s d.net d.task
          rw [htask]
          exact ⟨hnone, hjoined⟩, h.answered⟩
        exact hrest.answer hquiet fun _ _ => nofun
      · obtain ⟨s, -, rfl⟩ := Option.map_eq_some_iff.mp hd
        exact ⟨⟨h.checkedIn.nodup, h.checkedIn.state⟩, hquiet, h.answered⟩
  · obtain ⟨res, -, rfl⟩ := Option.map_eq_some_iff.mp hd
    exact ⟨⟨h.checkedIn.nodup, h.checkedIn.state⟩, fun hstate => absurd rfl hstate, h.answered⟩
  · cases hd

theorem FaultlessInv.netStep (h : d.FaultlessInv byLabel) (hok : d.Faultless byLabel e)
    (hx : d.netStep byLabel e = some x) :
    ({ d with net := x.1, task := d.task.setCalls x.2 } : Deployment τ).FaultlessInv byLabel :=
  ⟨⟨h.checkedIn.nodup, fun i hi hstate => h.checkedIn.state i hi (checkingIn_netStep hx hstate)⟩,
    h.clean.netStep hok hx, h.answered⟩

theorem FaultlessInv.step (h : d.FaultlessInv byLabel) (hlock : Lockstep exceeds n d)
    (hok : d.Faultless byLabel e) (hd : d.step exceeds byLabel e = some d') : d'.FaultlessInv byLabel := by
  cases e with
  | checkIn i outcome =>
    have hchecked := h.checkedIn.checkIn hok hd
    obtain ⟨c, -, rfl⟩ := Option.map_eq_some_iff.mp hd
    exact ⟨hchecked, h.clean.setServer i c, h.answered⟩
  | checkInHandler =>
    have hchecked := h.checkedIn.checkInHandler hd
    dsimp only [Deployment.step] at hd
    unfold Deployment.checkInHandler at hd
    split at hd
    · next request rest hstate hqueue =>
      have hidle : d.task = .idle := (hstate ▸ hlock.task).of_init
      have hclean := h.clean
      rw [hidle] at hclean
      have hquiet : d.net.Quiet := hclean (by rw [hstate]; nofun)
      dsimp only at hd
      split_ifs at hd
      · obtain ⟨s, -, rfl⟩ := Option.map_eq_some_iff.mp hd
        refine ⟨hchecked, ?_, h.answered⟩
        show Clean byLabel s d.net d.task
        rw [hidle]
        exact fun _ => hquiet
      · cases hd
        exact ⟨hchecked, h.clean, h.answered⟩
    · cases hd
  | enqueue benchmark =>
    cases hd
    exact ⟨⟨h.checkedIn.nodup, h.checkedIn.state⟩, h.clean, h.answered⟩
  | enqueueShutdown =>
    cases hd
    exact ⟨⟨h.checkedIn.nodup, h.checkedIn.state⟩, h.clean, h.answered⟩
  | take setup => exact h.take hlock hok hd
  | localDone outcome =>
    dsimp only [Deployment.step] at hd
    unfold Deployment.localDone at hd
    split at hd
    · next id label htask =>
      have hclean := h.clean
      rw [htask] at hclean
      cases hd
      exact h.answer hclean fun _ hlabel => nomatch hlabel
    · cases hd
  | iterate prepared time => exact h.iterate hlock hd
  | join => exact h.join hd
  | deliver k => obtain ⟨x, hx, rfl⟩ := Option.map_eq_some_iff.mp hd; exact h.netStep hok hx
  | lose k => exact hok.elim
  | execute i res => obtain ⟨x, hx, rfl⟩ := Option.map_eq_some_iff.mp hd; exact h.netStep hok hx
  | respond k => obtain ⟨x, hx, rfl⟩ := Option.map_eq_some_iff.mp hd; exact h.netStep hok hx
  | fail number => exact hok.elim

theorem faultlessInv_new (n : ℕ) : (Deployment.new n : Deployment τ).FaultlessInv byLabel :=
  ⟨⟨List.nodup_nil, fun _ hi => absurd hi List.not_mem_nil⟩, fun _ => ⟨rfl, fun _ => rfl⟩,
    fun _ ha => absurd ha List.not_mem_nil⟩

end Deployment

open Deployment

/-- **Runs without faults are orderly.** -/
theorem orderly_of_faultless (h : (harness exceeds byLabel n).ReachableUnder (Faultless byLabel) d) :
    (harness exceeds byLabel n).ReachableUnder Orderly d ∧ d.FaultlessInv byLabel := by
  induction h with
  | init => exact ⟨.init, faultlessInv_new n⟩
  | step _ hok hstep ih =>
    obtain ⟨hreach, hinv⟩ := ih
    exact ⟨hreach.step (hinv.orderly hstep) hstep, hinv.step (lockstep hreach) hok hstep⟩

/-- The state after a run without faults. -/
theorem reachable_of_faultless_run {es : List (HarnessEvent τ)}
    (hrun : (harness exceeds byLabel n).run (.new n) es = some d)
    (hok : (harness exceeds byLabel n).AllSteps (Faultless byLabel) (.new n) es) :
    (harness exceeds byLabel n).ReachableUnder Orderly d :=
  (orderly_of_faultless (Machine.ReachableUnder.init.run hok hrun)).1

end OmniPaxosBench.Suite
