import OmniPaxosBench.Suite.FaultlessRuns

/-! # Runs of the harness

What the runner can rely on: the requests are answered in the order they came in, each at most once, and
a distributed test that is answered with a success has been run completely by the master and by every
client. Neither the master nor a client comes to a panic at a state that was not expected. -/

namespace OmniPaxosBench.Suite

open OmniPaxosBench.Lib BenchmarkClient Deployment

variable {τ : Type} {exceeds : List τ → Bool} {byLabel : String → Except NotImplementedError BenchKind}
  {n : ℕ} {d d' : Deployment τ} {e : HarnessEvent τ}

/-- A deployment of two clients that know every test. -/
def twoClients : Machine (Deployment ℕ) (HarnessEvent ℕ) :=
  harness (fun _ => false) (fun _ => .ok .distributed) 2

/-- Two clients check in and set up a test. -/
def setupEvents : List (HarnessEvent ℕ) :=
  [.checkIn 0 .answered, .checkIn 1 .answered, .checkInHandler, .checkInHandler, .enqueue (.distributed "AB"),
    .take fun _ => .ok "conf", .deliver 1, .deliver 0, .execute 1 (.ok "data"), .execute 0 (.ok "data"),
    .respond 0, .respond 0, .join]

/-- An iteration of the test. -/
def iterationEvents (time : ℕ) : List (HarnessEvent ℕ) :=
  [.iterate true time, .deliver 0, .deliver 0, .execute 0 (.ok ""), .execute 1 (.ok ""), .respond 1,
    .respond 0, .join]

def testEvents : List (HarnessEvent ℕ) := setupEvents ++ (List.range 10).flatMap iterationEvents

theorem twoClients_setup : ∃ d it, twoClients.run twoClients.init setupEvents = some d ∧
    d.task = .iterating ⟨0, "AB", "conf"⟩ it ∧ twoClients.ReachableUnder Orderly d := by
  have hrun : ∃ d it, twoClients.run twoClients.init setupEvents = some d ∧
      d.task = .iterating ⟨0, "AB", "conf"⟩ it := ⟨_, _, rfl, rfl⟩
  obtain ⟨d, it, hd, ht⟩ := hrun
  exact ⟨d, it, hd, ht, reachable_of_faultless_run hd (by decide +kernel)⟩

theorem twoClients_test : ∃ d, twoClients.run twoClients.init testEvents = some d ∧
    d.answers = [⟨0, .distributed "AB", some (.success 10 (List.range 10))⟩] ∧
    twoClients.ReachableUnder (Faultless fun _ => .ok .distributed) d := by
  have hanswers : (twoClients.run twoClients.init testEvents).map Deployment.answers =
      some [⟨0, .distributed "AB", some (.success 10 (List.range 10))⟩] := by decide +kernel
  obtain ⟨d, hd, heq⟩ := Option.map_eq_some_iff.mp hanswers
  exact ⟨d, hd, heq, Machine.ReachableUnder.init.run (by decide +kernel) hd⟩

/-! ### Lockstep -/

/-- **Between two iterations of a distributed test, all clients are prepared for the next one.** -/
theorem clients_prepared (h : (harness exceeds byLabel n).ReachableUnder Orderly d) {t : Test}
    {it : DistributedIteration τ} (ht : d.task = .iterating t it) :
    d.state = .run ∧ d.net.Quiet ∧ d.clients.Nodup ∧ d.clients.length = n ∧
      it.clientData.map Prod.fst = d.clients ∧ it.nRuns = it.results.length ∧
      ∀ i ∈ d.clients, Prepared t.label t.conf it.nRuns (d.net.server i) := by
  have hlock := lockstep h
  have hiter : Iterating exceeds t it d.state d.clients d.net :=
    (ht ▸ hlock.task : InStep exceeds _ _ _ (.iterating t it))
  have hcount := hlock.counted (by rw [hiter.state]; nofun) (by rw [hiter.state]; nofun) (by rw [ht]; nofun)
  exact ⟨hiter.state, hiter.quiet, hlock.clients, hcount.1, hiter.data, hiter.between.nRuns, hiter.prepared⟩

theorem twoClients_prepared : ∃ d it, twoClients.run twoClients.init setupEvents = some d ∧
    d.task = .iterating ⟨0, "AB", "conf"⟩ it ∧ d.state = .run ∧ d.net.Quiet ∧ d.clients.Nodup ∧
      d.clients.length = 2 ∧ it.clientData.map Prod.fst = d.clients ∧ it.nRuns = it.results.length ∧
      ∀ i ∈ d.clients, Prepared "AB" "conf" it.nRuns (d.net.server i) := by
  obtain ⟨d, it, hrun, htask, hreach⟩ := twoClients_setup
  exact ⟨d, it, hrun, htask, clients_prepared hreach htask⟩

/-! ### Panics -/

/-- What the code waits for before these steps. -/
def Deployment.Enabled (d : Deployment τ) : HarnessEvent τ → Prop
  | .checkInHandler => d.state = .init ∧ d.checkInQueue ≠ []
  | .take _ => d.task = .idle ∧ d.state = .ready ∧ d.benchQueue ≠ []
  | .localDone _ => ∃ id label, d.task = .local id label
  | .iterate _ _ => ∃ t it, d.task = .iterating t it
  | .join =>
    (∃ t calls, d.task = .setup t calls ∧ (Call.joinAll acceptSetup calls).isSome) ∨
    (∃ t it isFinal calls, d.task = .cleanup t it isFinal calls ∧ (Call.joinAll acceptCleanup calls).isSome) ∨
    ∃ calls, d.task = .shutdown calls ∧ (Call.joinAll acceptShutdown calls).isSome
  | .execute i _ => d.net.queue i ≠ [] ∧ (d.net.server i).state ≠ .checkingIn ∧
      (d.net.server i).state ≠ .stopped ∧ (d.net.server i).exited = false
  | _ => False

theorem join_isSome (h : InStep exceeds d.state d.clients d.net d.task)
    (he : d.Enabled (.join (τ := τ))) : d.join.isSome := by
  rcases he with ⟨t, calls, ht, hall⟩ | ⟨t, it, isFinal, calls, ht, hall⟩ | ⟨calls, ht, hall⟩
  · have hsetting : SettingUp t calls d.state d.clients d.net :=
      (ht ▸ h : InStep exceeds _ _ _ (.setup t calls))
    obtain ⟨res, hres⟩ := Option.isSome_iff_exists.mp hall
    unfold Deployment.join
    simp only [ht, hres, Option.bind_some]
    cases res with
    | none => rfl
    | some data =>
      unfold setupDone
      rw [hsetting.state, cas_self]
      rfl
  · have hcleaning : CleaningUp exceeds t it isFinal calls d.state d.clients d.net :=
      (ht ▸ h : InStep exceeds _ _ _ (.cleanup t it isFinal calls))
    obtain ⟨res, hres⟩ := Option.isSome_iff_exists.mp hall
    unfold Deployment.join
    simp only [ht, hres, Option.bind_some]
    cases res with
    | none => rfl
    | some as =>
      unfold cleanupDone
      rw [hcleaning.state]
      split_ifs
      · rw [cas_self]; rfl
      · rw [cas_self]; rfl
  · obtain ⟨res, hres⟩ := Option.isSome_iff_exists.mp hall
    unfold Deployment.join
    simp only [ht, hres]
    rfl

theorem execute_isSome (h : d.net.Tidy Fits) {i : ℕ} {res : Except BenchmarkError String}
    (he : d.Enabled (.execute (τ := τ) i res)) : (d.step exceeds byLabel (.execute i res)).isSome := by
  obtain ⟨hqueue, hcheckin, hstopped, hexited⟩ := he
  obtain ⟨x, rest, hx⟩ := List.exists_cons_of_ne_nil hqueue
  have hmem : x ∈ d.net.outstanding i := by
    rw [FanOut.outstanding, hx]
    exact List.mem_append_right _ List.mem_cons_self
  have hrun : ((d.net.server i).handle byLabel res x.1).isSome :=
    handle_isSome hcheckin hstopped hexited (h.fits_of_execute hmem).2
  obtain ⟨c, hc⟩ := Option.isSome_iff_exists.mp hrun
  unfold Deployment.step Deployment.netStep FanOut.execute
  simp only [hx, hc]
  rfl

theorem take_isSome (htask : d.task = .idle) (hstate : d.state = .ready) (hqueue : d.benchQueue ≠ [])
    (setup : ℕ → Except BenchmarkError String) : (d.take setup).isSome := by
  obtain ⟨bench, rest, hbench⟩ := List.exists_cons_of_ne_nil hqueue
  unfold Deployment.take
  simp only [htask, hstate, hbench]
  cases bench with
  | invoke id benchmark =>
    cases benchmark with
    | «local» => rfl
    | distributed => rfl
  | shutdown => rfl

/-- **No panics**: the master finds the state it expects, and the clients can do what they are told. -/
theorem step_isSome (h : (harness exceeds byLabel n).ReachableUnder Orderly d) (he : d.Enabled e) :
    (d.step exceeds byLabel e).isSome := by
  have htask := (lockstep h).task
  cases e with
  | checkInHandler =>
    obtain ⟨hstate, hqueue⟩ := he
    obtain ⟨request, rest, hrequest⟩ := List.exists_cons_of_ne_nil hqueue
    unfold Deployment.step Deployment.checkInHandler
    simp only [hstate, hrequest, cas_self]
    split_ifs <;> rfl
  | take setup => exact take_isSome he.1 he.2.1 he.2.2 setup
  | localDone outcome =>
    obtain ⟨id, label, ht⟩ := he
    unfold Deployment.step Deployment.localDone
    simp only [ht]
    rfl
  | iterate prepared time =>
    obtain ⟨t, it, ht⟩ := he
    have hiter : Iterating exceeds t it d.state d.clients d.net :=
      (ht ▸ htask : InStep exceeds _ _ _ (.iterating t it))
    unfold Deployment.step Deployment.iterate
    simp only [ht, hiter.state, cas_self]
    split_ifs <;> rfl
  | join => exact join_isSome htask he
  | execute i res => exact execute_isSome htask.tidy he
  | checkIn => exact he.elim
  | enqueue => exact he.elim
  | enqueueShutdown => exact he.elim
  | deliver => exact he.elim
  | lose => exact he.elim
  | respond => exact he.elim
  | fail => exact he.elim

theorem twoClients_step_isSome : ∃ d, twoClients.run twoClients.init setupEvents = some d ∧
    (d.step (fun _ => false) (fun _ => .ok .distributed) (.iterate true 5)).isSome := by
  obtain ⟨d, it, hrun, htask, hreach⟩ := twoClients_setup
  exact ⟨d, hrun, step_isSome hreach ⟨_, it, htask⟩⟩

/-! ### The order of the answers -/

/-- The requests that wait in the queue. -/
def Deployment.waiting (d : Deployment τ) : List (AbstractBench × ℕ) := d.benchQueue.filterMap BenchRequest.invoked

/-- What a step does about the requests. -/
inductive Booked (d d' : Deployment τ) : Prop
  | same (answers : d'.answers = d.answers) (finished : d'.finished = d.finished)
      (current : d'.task.current = d.task.current) (waiting : d'.waiting = d.waiting)
      (requests : d'.requests = d.requests)
  | enqueued (b : AbstractBench) (answers : d'.answers = d.answers) (finished : d'.finished = d.finished)
      (current : d'.task.current = d.task.current) (waiting : d'.waiting = d.waiting ++ [(b, d.requests.length)])
      (requests : d'.requests = d.requests ++ [b])
  | taken (b : AbstractBench) (id : ℕ) (answers : d'.answers = d.answers) (finished : d'.finished = d.finished)
      (idle : d.task.current = none) (current : d'.task.current = some (b, id))
      (waiting : d.waiting = (b, id) :: d'.waiting) (requests : d'.requests = d.requests)
  /-- The setup at the master has failed. -/
  | refused (b : AbstractBench) (id : ℕ) (answers : d'.answers = d.answers ++ [⟨id, b, none⟩])
      (finished : d'.finished = d.finished) (idle : d.task.current = none) (current : d'.task.current = none)
      (waiting : d.waiting = (b, id) :: d'.waiting) (requests : d'.requests = d.requests)
  | answered (b : AbstractBench) (id : ℕ) (result : Option (TestResult τ))
      (answers : d'.answers = d.answers ++ [⟨id, b, result⟩]) (current : d.task.current = some (b, id))
      (idle : d'.task.current = none) (waiting : d'.waiting = d.waiting) (requests : d'.requests = d.requests)
      (finished : d.finished ⊆ d'.finished)
      (complete : ∀ label res, b = .distributed label → result = some res →
        ∃ t it, (t, it) ∈ d'.finished ∧ t.id = id ∧ t.label = label ∧ res = .ofResult (.ok it.results))

theorem current_setCalls (task : Task τ) (cs : List (Call ClientResponse)) :
    (task.setCalls cs).current = task.current := by
  cases task <;> rfl

theorem booked_take {setup : ℕ → Except BenchmarkError String} (h : d.take setup = some d') : Booked d d' := by
  unfold Deployment.take at h
  split at h
  · next bench rest htask hstate hqueue =>
    have hidle : d.task.current = none := by rw [htask]; rfl
    cases bench with
    | invoke id benchmark =>
      have hwaiting : d.waiting = (benchmark, id) :: rest.filterMap BenchRequest.invoked := by
        rw [Deployment.waiting, hqueue]
        rfl
      cases benchmark with
      | «local» label =>
        obtain ⟨s, -, rfl⟩ := Option.map_eq_some_iff.mp h
        exact .taken (.local label) id rfl rfl hidle rfl hwaiting rfl
      | distributed label =>
        obtain ⟨s, -, rfl⟩ := Option.map_eq_some_iff.mp h
        split
        · exact .refused (.distributed label) id rfl rfl hidle rfl hwaiting rfl
        · exact .taken (.distributed label) id rfl rfl hidle rfl hwaiting rfl
    | shutdown =>
      cases h
      refine .same rfl rfl hidle.symm ?_ rfl
      rw [Deployment.waiting, Deployment.waiting, hqueue]
      rfl
  · cases h

theorem booked_join (h : d.join = some d') : Booked d d' := by
  unfold Deployment.join at h
  split at h
  · next t calls htask =>
    have hcurrent : d.task.current = some (.distributed t.label, t.id) := by rw [htask]; rfl
    obtain ⟨res, -, h⟩ := Option.bind_eq_some_iff.mp h
    cases res with
    | none =>
      cases h
      exact .answered (.distributed t.label) t.id none rfl hcurrent rfl rfl rfl (List.Subset.refl _)
        fun _ _ _ hres => nomatch hres
    | some data =>
      obtain ⟨s, -, rfl⟩ := Option.map_eq_some_iff.mp h
      exact .same rfl rfl hcurrent.symm rfl rfl
  · next t it isFinal calls htask =>
    have hcurrent : d.task.current = some (.distributed t.label, t.id) := by rw [htask]; rfl
    obtain ⟨res, -, h⟩ := Option.bind_eq_some_iff.mp h
    cases res with
    | none =>
      cases h
      exact .answered (.distributed t.label) t.id none rfl hcurrent rfl rfl rfl (List.Subset.refl _)
        fun _ _ _ hres => nomatch hres
    | some as =>
      dsimp only [cleanupDone] at h
      split_ifs at h
      · obtain ⟨s, -, rfl⟩ := Option.map_eq_some_iff.mp h
        refine .answered (.distributed t.label) t.id (some (.ofResult (.ok it.results))) rfl hcurrent rfl rfl rfl
          (List.subset_append_left _ _) fun label res hlabel hres => ⟨t, it, ?_, rfl, ?_, ?_⟩
        · exact List.mem_append_right _ (List.mem_singleton.mpr rfl)
        · exact AbstractBench.distributed.inj hlabel
        · exact (Option.some.inj hres).symm
      · obtain ⟨s, -, rfl⟩ := Option.map_eq_some_iff.mp h
        exact .same rfl rfl hcurrent.symm rfl rfl
  · next calls htask =>
    obtain ⟨res, -, rfl⟩ := Option.map_eq_some_iff.mp h
    exact .same rfl rfl (by rw [htask]; rfl) rfl rfl
  · cases h

theorem booked_step (h : d.step exceeds byLabel e = some d') : Booked d d' := by
  have hnet : ∀ {e}, (d.netStep byLabel e).map
      (fun x => { d with net := x.1, task := d.task.setCalls x.2 }) = some d' → Booked d d' := by
    intro e h
    obtain ⟨x, -, rfl⟩ := Option.map_eq_some_iff.mp h
    exact .same rfl rfl (current_setCalls _ _) rfl rfl
  cases e with
  | checkIn i outcome =>
    obtain ⟨c, -, rfl⟩ := Option.map_eq_some_iff.mp h
    exact .same rfl rfl rfl rfl rfl
  | checkInHandler =>
    dsimp only [Deployment.step] at h
    unfold Deployment.checkInHandler at h
    split at h
    · dsimp only at h
      split_ifs at h
      · obtain ⟨s, -, rfl⟩ := Option.map_eq_some_iff.mp h
        exact .same rfl rfl rfl rfl rfl
      · cases h
        exact .same rfl rfl rfl rfl rfl
    · cases h
  | enqueue benchmark =>
    cases h
    refine .enqueued benchmark rfl rfl rfl ?_ rfl
    exact List.filterMap_append
  | enqueueShutdown =>
    cases h
    refine .same rfl rfl rfl ?_ rfl
    exact List.filterMap_append.trans (List.append_nil _)
  | take setup => exact booked_take h
  | localDone outcome =>
    dsimp only [Deployment.step] at h
    unfold Deployment.localDone at h
    split at h
    · next id label htask =>
      cases h
      exact .answered (.local label) id _ rfl (by rw [htask]; rfl) rfl rfl rfl (List.Subset.refl _)
        fun _ _ hlabel => nomatch hlabel
    · cases h
  | iterate prepared time =>
    dsimp only [Deployment.step] at h
    unfold Deployment.iterate at h
    split at h
    · next t it htask =>
      have hcurrent : d.task.current = some (.distributed t.label, t.id) := by rw [htask]; rfl
      split_ifs at h
      · obtain ⟨s, -, rfl⟩ := Option.map_eq_some_iff.mp h
        exact .same rfl rfl hcurrent.symm rfl rfl
      · cases h
        exact .same rfl rfl hcurrent.symm rfl rfl
    · cases h
  | join => exact booked_join h
  | deliver k => exact hnet h
  | lose k => exact hnet h
  | execute i res => exact hnet h
  | respond k => exact hnet h
  | fail number =>
    cases h
    exact .same rfl rfl (current_setCalls _ _) rfl rfl

/-- **The requests are answered in order, each at most once.** -/
theorem answers_in_order (h : (harness exceeds byLabel n).Reachable d) :
    (d.answers.map fun a => (a.benchmark, a.id)) ++ d.task.current.toList ++ d.waiting =
      d.requests.zipIdx := by
  refine h.invariant (P := fun d => (d.answers.map fun a => (a.benchmark, a.id)) ++
    d.task.current.toList ++ d.waiting = d.requests.zipIdx) rfl fun s e s' _ ih hstep => ?_
  cases booked_step hstep with
  | same hanswers _ hcurrent hwaiting hrequests => rw [hanswers, hcurrent, hwaiting, hrequests, ih]
  | enqueued b hanswers _ hcurrent hwaiting hrequests =>
    rw [hanswers, hcurrent, hwaiting, hrequests, List.zipIdx_append, ← ih, ← List.append_assoc,
      Nat.zero_add]
    rfl
  | taken b id hanswers _ hidle hcurrent hwaiting hrequests =>
    rw [hidle, hwaiting] at ih
    rw [hanswers, hcurrent, hrequests, ← ih]
    simp only [Option.toList_some, Option.toList_none, List.append_assoc, List.cons_append, List.nil_append]
  | refused b id hanswers _ hidle hcurrent hwaiting hrequests =>
    rw [hidle, hwaiting] at ih
    rw [hanswers, hcurrent, hrequests, ← ih]
    simp only [List.map_append, List.map_cons, List.map_nil, Option.toList_none, List.append_assoc,
      List.cons_append, List.nil_append]
  | answered b id result hanswers hcurrent hidle hwaiting hrequests =>
    rw [hcurrent] at ih
    rw [hanswers, hidle, hwaiting, hrequests, ← ih]
    simp only [List.map_append, List.map_cons, List.map_nil, Option.toList_none, Option.toList_some,
      List.append_assoc, List.cons_append, List.nil_append]

theorem twoClients_in_order : ∃ d, twoClients.run twoClients.init testEvents = some d ∧
    (d.answers.map fun a => (a.benchmark, a.id)) ++ d.task.current.toList ++ d.waiting =
      d.requests.zipIdx := by
  obtain ⟨d, hrun, -⟩ := twoClients_test
  exact ⟨d, hrun, answers_in_order (Machine.reachable_of_run hrun)⟩

/-! ### Complete tests -/

/-- The distributed tests answered with a result have come to their end. -/
theorem finished_of_answered (h : (harness exceeds byLabel n).Reachable d) {a : Answer τ}
    (ha : a ∈ d.answers) {label : String} (hlabel : a.benchmark = .distributed label) {res : TestResult τ}
    (hres : a.result = some res) :
    ∃ t it, (t, it) ∈ d.finished ∧ t.id = a.id ∧ t.label = label ∧ res = .ofResult (.ok it.results) := by
  refine h.invariant (P := fun d => ∀ a ∈ d.answers, ∀ label res, a.benchmark = .distributed label →
    a.result = some res → ∃ t it, (t, it) ∈ d.finished ∧ t.id = a.id ∧ t.label = label ∧
      res = .ofResult (.ok it.results)) ?_ (fun s e s' _ ih hstep => ?_) a ha label res hlabel hres
  · exact fun a ha => absurd ha List.not_mem_nil
  intro a ha label res hlabel hres
  cases booked_step hstep with
  | same hanswers hfinished _ _ _ =>
    rw [hanswers] at ha
    rw [hfinished]
    exact ih a ha label res hlabel hres
  | enqueued b hanswers hfinished _ _ _ =>
    rw [hanswers] at ha
    rw [hfinished]
    exact ih a ha label res hlabel hres
  | taken b id hanswers hfinished _ _ _ _ =>
    rw [hanswers] at ha
    rw [hfinished]
    exact ih a ha label res hlabel hres
  | refused b id hanswers hfinished _ _ _ _ =>
    rw [hanswers] at ha
    rw [hfinished]
    rcases List.mem_append.mp ha with ha | ha
    · exact ih a ha label res hlabel hres
    · rw [List.mem_singleton.mp ha] at hres
      cases hres
  | answered b id result hanswers _ _ _ _ hsub hcomplete =>
    rw [hanswers] at ha
    rcases List.mem_append.mp ha with ha | ha
    · obtain ⟨t, it, hmem, hrest⟩ := ih a ha label res hlabel hres
      exact ⟨t, it, hsub hmem, hrest⟩
    · obtain rfl := List.mem_singleton.mp ha
      exact hcomplete label res hlabel hres

/-- **Without faults no distributed test is cancelled**, and every one answered has had ten runs. -/
theorem faultless_answered (h : (harness exceeds byLabel n).ReachableUnder (Faultless byLabel) d) {a : Answer τ}
    (ha : a ∈ d.answers) {label : String} (hlabel : a.benchmark = .distributed label) :
    ∃ rs, a.result = some (.success 10 rs) ∧ rs.length = 10 := by
  obtain ⟨hreach, hinv⟩ := orderly_of_faultless h
  obtain ⟨res, hres⟩ := Option.ne_none_iff_exists'.mp (hinv.answered a ha label hlabel)
  obtain ⟨t, it, hmem, -, -, rfl⟩ := finished_of_answered hreach.reachable ha hlabel hres
  have hlength : it.results.length = 10 := ((lockstep hreach).finished _ hmem).complete.series.length_eq
  refine ⟨it.results, ?_, hlength⟩
  rw [hres, TestResult.ofResult, hlength]

theorem twoClients_answered : ∃ d, twoClients.run twoClients.init testEvents = some d ∧
    ∃ a ∈ d.answers, ∃ rs, a.result = some (.success 10 rs) ∧ rs.length = 10 := by
  obtain ⟨d, hrun, hanswers, hreach⟩ := twoClients_test
  have hmem : (⟨0, .distributed "AB", some (.success 10 (List.range 10))⟩ : Answer ℕ) ∈ d.answers := by
    rw [hanswers]
    exact List.mem_singleton.mpr rfl
  exact ⟨d, hrun, _, hmem, faultless_answered hreach hmem rfl⟩

end OmniPaxosBench.Suite
