import OmniPaxosBench.Suite.BenchmarkMaster

/-! # Master and clients in lockstep

While the master runs iteration `n` of a distributed test, every client is prepared for iteration `n`
of that test, and nothing is outstanding: the joins after the setup and after each cleanup are barriers.
The invariant (`Lockstep`) says for each thing the master can be doing what it relies on. It needs that
no client is entered twice when it checks in again, and that no test is begun while commands of one that
failed are outstanding (`Orderly`); the code checks neither. -/

namespace OmniPaxosBench.Suite

open OmniPaxosBench.Lib BenchmarkClient

variable {τ : Type} (exceeds : List τ → Bool) {byLabel : String → Except NotImplementedError BenchKind}
  {n : ℕ} {d d' : Deployment τ} {e : HarnessEvent τ}

namespace Deployment

/-- A client is entered once, and a test or a shutdown begins when nothing is outstanding. -/
def Orderly (d : Deployment τ) : HarnessEvent τ → Prop
  | .checkInHandler => ∀ i ∈ d.checkInQueue.head?, i ∉ d.clients
  | .take _ => d.net.Quiet
  | _ => True

/-! ### The invariant -/

/-- How a client is after its setup was accepted. -/
def AfterSetup (t : Test) (r : ClientResponse) (c : BenchmarkClient) : Prop :=
  (acceptSetup r).isSome → Prepared t.label t.conf 0 c

/-- How a client is after it cleaned up after iteration `k`. -/
def AfterCleanup (t : Test) (k : ℕ) (isFinal : Bool) (c : BenchmarkClient) : Prop :=
  (isFinal = true → Through t.label t.conf k c) ∧ (isFinal = false → Prepared t.label t.conf (k + 1) c)

structure SettingUp (t : Test) (calls : List (Call ClientResponse)) (state : MasterState)
    (clients : List ℕ) (net : FanOut BenchmarkClient ClientCommand ClientResponse) : Prop where
  state : state = .setup
  servers : calls.map Call.server = clients
  joined : FanOut.Joined (.setup t.label t.conf) (fun _ => True) (AfterSetup t) net calls

/-- The master is between two iterations. -/
structure Iterating (t : Test) (it : DistributedIteration τ) (state : MasterState) (clients : List ℕ)
    (net : FanOut BenchmarkClient ClientCommand ClientResponse) : Prop where
  state : state = .run
  data : it.clientData.map Prod.fst = clients
  between : it.Between exceeds
  numbered : net.Numbered
  quiet : net.Quiet
  prepared : ∀ i ∈ clients, Prepared t.label t.conf it.nRuns (net.server i)

structure CleaningUp (t : Test) (it : DistributedIteration τ) (isFinal : Bool)
    (calls : List (Call ClientResponse)) (state : MasterState) (clients : List ℕ)
    (net : FanOut BenchmarkClient ClientCommand ClientResponse) : Prop where
  state : state = .cleanup
  servers : calls.map Call.server = clients
  data : it.clientData.map Prod.fst = clients
  complete : isFinal = true → it.Complete exceeds
  between : isFinal = false → it.Between exceeds
  joined : ∃ k, it.nRuns = k + 1 ∧ FanOut.Joined (.cleanup isFinal) (Prepared t.label t.conf k)
    (fun _ => AfterCleanup t k isFinal) net calls

/-- What the master relies on, for each thing it can be doing. -/
def InStep (state : MasterState) (clients : List ℕ)
    (net : FanOut BenchmarkClient ClientCommand ClientResponse) : Task τ → Prop
  | .idle => (state = .init ∨ state = .ready ∨ state = .stopped) ∧ net.Tidy Fits
  | .local _ _ | .panicked _ => state = .run ∧ net.Tidy Fits
  | .setup t calls => SettingUp t calls state clients net
  | .iterating t it => Iterating exceeds t it state clients net
  | .cleanup t it isFinal calls => CleaningUp exceeds t it isFinal calls state clients net
  | .shutdown _ => state = .ready ∧ net.Tidy Fits

/-- A test that has come to its end. -/
structure Finished (n : ℕ) (net : FanOut BenchmarkClient ClientCommand ClientResponse)
    (f : Test × DistributedIteration τ) : Prop where
  complete : f.2.Complete exceeds
  nodup : (f.2.clientData.map Prod.fst).Nodup
  length : f.2.clientData.length = n
  through : ∀ i ∈ f.2.clientData.map Prod.fst, Through f.1.label f.1.conf 9 (net.server i)

structure Lockstep (n : ℕ) (d : Deployment τ) : Prop where
  waitFor : d.waitFor = n
  clients : d.clients.Nodup
  count : d.state = .init ∨ d.state = .stopped ∨ (∃ calls, d.task = .shutdown calls) ∨
    (d.clients.length = n ∧ d.numberOfClients = n)
  task : InStep exceeds d.state d.clients d.net d.task
  finished : ∀ f ∈ d.finished, Finished exceeds n d.net f

variable {exceeds} {state : MasterState} {clients : List ℕ} {task : Task τ}
  {net net' : FanOut BenchmarkClient ClientCommand ClientResponse}

/-- Whatever the master is doing, every client has at most one command before it, and it fits. -/
theorem InStep.tidy (h : InStep exceeds state clients net task) : net.Tidy Fits := by
  cases task with
  | idle => exact h.2
  | «local» => exact h.2
  | panicked => exact h.2
  | setup t calls => exact h.joined.tidy fun _ _ => trivial
  | iterating t it => exact h.quiet.tidy h.numbered
  | cleanup t it isFinal calls =>
    obtain ⟨k, -, hjoined⟩ := h.joined
    exact hjoined.tidy fun _ hp => ⟨_, hp⟩
  | shutdown => exact h.2

theorem InStep.of_init (h : InStep exceeds .init clients net task) : task = .idle := by
  cases task with
  | idle => rfl
  | «local» => cases h.1
  | panicked => cases h.1
  | setup t calls => cases h.state
  | iterating t it => cases h.state
  | cleanup t it isFinal calls => cases h.state
  | shutdown => cases h.1

/-- A client that checks in is not in a test. -/
theorem InStep.setServer (h : InStep exceeds state clients net task) {i : ℕ} {c : BenchmarkClient}
    (hstate : (net.server i).state = .checkingIn) (hdropped : c.dropped = (net.server i).dropped) :
    InStep exceeds state clients (net.setServer i c) task := by
  have hnot : ∀ {label conf : String} {k : ℕ}, ¬ Prepared label conf k (net.server i) := by
    intro label conf k hp
    rw [Prepared, hstate] at hp
    cases hp
  have htidy : (net.setServer i c).Tidy Fits := by
    refine h.tidy.setServer fun cmd hfits => ?_
    cases cmd with
    | cleanup isFinal =>
      obtain ⟨b, hb⟩ := hfits
      rw [hstate] at hb
      cases hb
    | setup => trivial
    | shutdown => trivial
  cases task with
  | idle => exact ⟨h.1, htidy⟩
  | «local» => exact ⟨h.1, htidy⟩
  | panicked => exact ⟨h.1, htidy⟩
  | shutdown => exact ⟨h.1, htidy⟩
  | setup t calls =>
    refine ⟨h.state, h.servers, h.joined.setServer (fun _ => trivial) fun r hafter hr => ?_⟩
    exact absurd (hafter hr) hnot
  | iterating t it =>
    refine ⟨h.state, h.data, h.between, h.numbered.setServer c, h.quiet, fun j hj => ?_⟩
    have hji : j ≠ i := fun heq => hnot (heq ▸ h.prepared j hj)
    rw [FanOut.setServer_of_ne hji]
    exact h.prepared j hj
  | cleanup t it isFinal calls =>
    obtain ⟨k, hk, hjoined⟩ := h.joined
    refine ⟨h.state, h.servers, h.data, h.complete, h.between, k, hk, ?_⟩
    refine hjoined.setServer (fun hp => absurd hp hnot) fun _ hafter => ⟨fun hfinal => ?_, fun hgo => ?_⟩
    · rw [Through, hdropped]
      exact hafter.1 hfinal
    · exact absurd (hafter.2 hgo) hnot

/-! ### Steps of the network and of the clients -/

variable {x : FanOut BenchmarkClient ClientCommand ClientResponse × List (Call ClientResponse)}

theorem netStep_cases (h : d.netStep byLabel e = some x) :
    ((∃ k, d.net.deliver ack k = some x.1) ∧ x.2 = d.task.calls) ∨
    ((∃ k, d.net.lose k = some x.1) ∧ x.2 = d.task.calls) ∨
    ((∃ i res, e = .execute i res ∧ d.net.execute (fun c cmd => c.handle byLabel res cmd) i = some x.1) ∧
      x.2 = d.task.calls) ∨
    (∃ k, d.net.respond d.task.calls k = some (x.1, x.2)) ∨
    ∃ number, x.1 = d.net ∧ x.2 = Call.fail d.task.calls number := by
  unfold netStep at h
  split at h
  · obtain ⟨net, hnet, rfl⟩ := Option.map_eq_some_iff.mp h
    exact Or.inl ⟨⟨_, hnet⟩, rfl⟩
  · obtain ⟨net, hnet, rfl⟩ := Option.map_eq_some_iff.mp h
    exact Or.inr (Or.inl ⟨⟨_, hnet⟩, rfl⟩)
  · obtain ⟨net, hnet, rfl⟩ := Option.map_eq_some_iff.mp h
    exact Or.inr (Or.inr (Or.inl ⟨⟨_, _, rfl, hnet⟩, rfl⟩))
  · exact Or.inr (Or.inr (Or.inr (Or.inl ⟨_, h⟩)))
  · cases h
    exact Or.inr (Or.inr (Or.inr (Or.inr ⟨_, rfl, rfl⟩)))
  · cases h

theorem tidy_netStep (hd : d.net.Tidy Fits) (h : d.netStep byLabel e = some x) : x.1.Tidy Fits := by
  rcases netStep_cases h with ⟨⟨k, hk⟩, -⟩ | ⟨⟨k, hk⟩, -⟩ | ⟨⟨i, res, -, hi⟩, -⟩ | ⟨k, hk⟩ | ⟨number, hnet, -⟩
  · exact hd.deliver hk
  · exact hd.lose hk
  · exact hd.execute hi
  · exact hd.respond hk
  · rw [hnet]; exact hd

theorem joined_netStep {cmd : ClientCommand} {before : BenchmarkClient → Prop}
    {after : ClientResponse → BenchmarkClient → Prop}
    (hd : FanOut.Joined cmd before after d.net d.task.calls) (hack : ack cmd = none)
    (hrun : ∀ i res, e = .execute i res → ∀ c c' r, before c →
      c.handle byLabel res cmd = some (c', some r) → after r c')
    (h : d.netStep byLabel e = some x) : FanOut.Joined cmd before after x.1 x.2 := by
  rcases netStep_cases h with ⟨⟨k, hk⟩, hcalls⟩ | ⟨⟨k, hk⟩, hcalls⟩ | ⟨⟨i, res, he, hi⟩, hcalls⟩ | ⟨k, hk⟩ |
    ⟨number, hnet, hcalls⟩
  · rw [hcalls]; exact hd.deliver hk hack
  · rw [hcalls]; exact hd.lose hk
  · rw [hcalls]; exact hd.execute hi (hrun i res he)
  · exact hd.respond hk
  · rw [hnet, hcalls]; exact hd.fail number

/-- Nothing happens when nothing is outstanding and no call waits. -/
theorem netStep_of_quiet (hquiet : d.net.Quiet) (hcalls : d.task.calls = [])
    (h : d.netStep byLabel e = some x) : x.1 = d.net := by
  rcases netStep_cases h with ⟨⟨k, hk⟩, -⟩ | ⟨⟨k, hk⟩, -⟩ | ⟨⟨i, res, -, hi⟩, -⟩ | ⟨k, hk⟩ | ⟨number, hnet, -⟩
  · rw [FanOut.deliver, hquiet.1] at hk; cases hk
  · rw [FanOut.lose, hquiet.1] at hk; cases hk
  · obtain ⟨y, -, -, -, hy, -⟩ := FanOut.execute_cases hi
    rw [hquiet.outstanding] at hy; cases hy
  · obtain ⟨y, hy, hrest⟩ := Option.bind_eq_some_iff.mp hk
    rw [hcalls] at hrest; cases hrest
  · exact hnet

/-- A test a client has been through stays recorded. -/
theorem dropped_subset_netStep (h : d.netStep byLabel e = some x) (i : ℕ) :
    (d.net.server i).dropped ⊆ (x.1.server i).dropped := by
  have hsame : x.1.server = d.net.server → (d.net.server i).dropped ⊆ (x.1.server i).dropped := fun heq =>
    heq ▸ List.Subset.refl _
  rcases netStep_cases h with ⟨⟨k, hk⟩, -⟩ | ⟨⟨k, hk⟩, -⟩ | ⟨⟨j, res, -, hj⟩, -⟩ | ⟨k, hk⟩ | ⟨number, hnet, -⟩
  · obtain ⟨y, -, hserver, -⟩ := FanOut.deliver_cases hk
    exact hsame hserver
  · obtain ⟨y, -, heq⟩ := Option.map_eq_some_iff.mp hk
    exact hsame (by rw [← heq])
  · obtain ⟨y, c, r, hrun, -, -, -, hserver, -⟩ := FanOut.execute_cases hj
    rw [hserver]
    by_cases hij : i = j
    · subst hij
      rw [Function.update_self]
      exact dropped_subset_handle hrun
    · rw [Function.update_of_ne hij]
      exact List.Subset.refl _
  · obtain ⟨number, r, -, heq, -⟩ := FanOut.respond_cases hk
    exact hsame (by rw [heq])
  · exact hsame (by rw [hnet])

theorem servers_netStep (h : d.netStep byLabel e = some x) :
    x.2.map Call.server = d.task.calls.map Call.server := by
  rcases netStep_cases h with ⟨-, hcalls⟩ | ⟨-, hcalls⟩ | ⟨-, hcalls⟩ | ⟨k, hk⟩ | ⟨number, -, hcalls⟩
  · rw [hcalls]
  · rw [hcalls]
  · rw [hcalls]
  · exact FanOut.servers_respond hk
  · rw [hcalls]; exact FanOut.servers_fail number

theorem InStep.netStep (hd : InStep exceeds d.state d.clients d.net d.task)
    (h : d.netStep byLabel e = some x) : InStep exceeds d.state d.clients x.1 (d.task.setCalls x.2) := by
  have htidy := tidy_netStep hd.tidy h
  have hservers := servers_netStep h
  cases htask : d.task with
  | idle => rw [htask] at hd; exact ⟨hd.1, htidy⟩
  | «local» => rw [htask] at hd; exact ⟨hd.1, htidy⟩
  | panicked => rw [htask] at hd; exact ⟨hd.1, htidy⟩
  | shutdown => rw [htask] at hd; exact ⟨hd.1, htidy⟩
  | setup t calls =>
    rw [htask] at hd hservers
    refine ⟨hd.state, hservers.trans hd.servers, ?_⟩
    refine joined_netStep (by rw [htask]; exact hd.joined) rfl (fun i res _ c c' r _ hrun hr => ?_) h
    obtain ⟨data, hdata⟩ := Option.isSome_iff_exists.mp hr
    cases r with
    | setup result =>
      cases result with
      | error => cases hdata
      | ok => exact prepared_of_setup hrun
    | cleanup => cases hdata
    | shutdownAck => cases hdata
  | iterating t it =>
    rw [htask] at hd
    rw [netStep_of_quiet hd.quiet (by rw [htask]; rfl) h]
    exact hd
  | cleanup t it isFinal calls =>
    rw [htask] at hd hservers
    obtain ⟨k, hk, hjoined⟩ := hd.joined
    refine ⟨hd.state, hservers.trans hd.servers, hd.data, hd.complete, hd.between, k, hk, ?_⟩
    refine joined_netStep (by rw [htask]; exact hjoined) rfl (fun i res _ c c' r hp hrun => ?_) h
    exact handle_cleanup hp hrun

/-! ### Steps of the master -/

theorem cas_eq_some {s old new s' : MasterState} (h : s.cas old new = some s') : s = old ∧ s' = new := by
  unfold MasterState.cas at h
  split_ifs at h with heq
  cases h
  exact ⟨heq, rfl⟩

theorem cas_self (s new : MasterState) : s.cas s new = some new := if_pos rfl

/-- Tests that have come to their end stay so, as far as the clients record it. -/
theorem Finished.mono {f : Test × DistributedIteration τ} (hf : Finished exceeds n net f)
    (hsub : ∀ i, (net.server i).dropped ⊆ (net'.server i).dropped) : Finished exceeds n net' f :=
  ⟨hf.complete, hf.nodup, hf.length, fun i hi => hsub i (hf.through i hi)⟩

theorem InStep.setup (hnumbered : net.Numbered) (hquiet : net.Quiet) (hnodup : clients.Nodup) (t : Test) :
    InStep exceeds .setup clients (net.sendAll (.setup t.label t.conf) clients).1
      (.setup t (net.sendAll (.setup t.label t.conf) clients).2) := by
  obtain ⟨-, -, -, hservers, -⟩ := FanOut.sendAll_spec net (.setup t.label t.conf) clients
  exact ⟨rfl, hservers, FanOut.Joined.sendAll hnumbered hquiet hnodup fun _ _ => trivial⟩

theorem InStep.shutdown (hnumbered : net.Numbered) (hquiet : net.Quiet) (hnodup : clients.Nodup) :
    InStep exceeds .ready [] (net.sendAll .shutdown clients).1
      (.shutdown (net.sendAll .shutdown clients).2) := by
  have hjoined : FanOut.Joined .shutdown (fun _ => True) (fun (_ : ClientResponse) _ => True)
      (net.sendAll .shutdown clients).1 (net.sendAll .shutdown clients).2 :=
    FanOut.Joined.sendAll hnumbered hquiet hnodup fun _ _ => trivial
  exact ⟨rfl, hjoined.tidy fun _ _ => trivial⟩

/-- The setup is joined. -/
theorem SettingUp.done {t : Test} {calls : List (Call ClientResponse)} {data : List (ℕ × String)}
    (h : SettingUp t calls state clients net) (hdata : Call.answers acceptSetup calls = some data) :
    InStep exceeds .run clients net (.iterating t (.new [.setup] data)) := by
  obtain ⟨hquiet, hservers, hafter⟩ := h.joined.done hdata
  have hclients : data.map Prod.fst = clients := hservers.trans h.servers
  refine ⟨rfl, hclients, DistributedIteration.between_new data, h.joined.numbered, hquiet, fun i hi => ?_⟩
  rw [← hclients] at hi
  obtain ⟨y, hy, rfl⟩ := List.mem_map.mp hi
  obtain ⟨r, hr, hprepared⟩ := hafter y hy
  exact hprepared (hr ▸ rfl)

/-- An iteration. -/
theorem Iterating.iterate {t : Test} {it : DistributedIteration τ}
    (h : Iterating exceeds t it state clients net) (hnodup : clients.Nodup) (time : τ) :
    InStep exceeds .cleanup clients
      (net.sendAll (.cleanup ((it.prepare.run time).isFinal exceeds)) (it.clientData.map Prod.fst)).1
      (.cleanup t ((it.prepare.run time).cleanup exceeds) ((it.prepare.run time).isFinal exceeds)
        (net.sendAll (.cleanup ((it.prepare.run time).isFinal exceeds)) (it.clientData.map Prod.fst)).2) := by
  rw [h.data]
  obtain ⟨-, -, -, hservers, -⟩ :=
    FanOut.sendAll_spec net (.cleanup ((it.prepare.run time).isFinal exceeds)) clients
  obtain ⟨hcomplete, hbetween⟩ := h.between.iterate time
  exact ⟨rfl, hservers, h.data, hcomplete, hbetween, it.nRuns, rfl,
    FanOut.Joined.sendAll h.numbered h.quiet hnodup h.prepared⟩

/-- The cleanup after an iteration is joined. -/
theorem CleaningUp.done {t : Test} {it : DistributedIteration τ} {isFinal : Bool}
    {calls : List (Call ClientResponse)} {as : List (ℕ × Unit)}
    (h : CleaningUp exceeds t it isFinal calls state clients net)
    (has : Call.answers acceptCleanup calls = some as) :
    (isFinal = false → InStep exceeds .run clients net (.iterating t it)) ∧
    (isFinal = true → clients.Nodup → clients.length = n → Finished exceeds n net (t, it)) := by
  obtain ⟨k, hk, hjoined⟩ := h.joined
  obtain ⟨hquiet, hservers, hafter⟩ := hjoined.done has
  have hclients : ∀ i ∈ clients, AfterCleanup t k isFinal (net.server i) := by
    intro i hi
    rw [← hservers.trans h.servers] at hi
    obtain ⟨y, hy, rfl⟩ := List.mem_map.mp hi
    obtain ⟨r, -, hr⟩ := hafter y hy
    exact hr
  constructor
  · intro hgo
    refine ⟨rfl, h.data, h.between hgo, hjoined.numbered, hquiet, fun i hi => ?_⟩
    rw [hk]
    exact (hclients i hi).2 hgo
  · intro hfinal hnodup hlength
    have hcomplete := h.complete hfinal
    have hk9 : k = 9 := by
      have hruns := hcomplete.nRuns
      rw [hcomplete.series.length_eq, hk] at hruns
      omega
    refine ⟨hcomplete, h.data ▸ hnodup, ?_, fun i hi => ?_⟩
    · rw [← hlength, ← h.data, List.length_map]
    · exact hk9 ▸ (hclients i (h.data ▸ hi)).1 hfinal

/-- All clients the master waits for take part in a test. -/
theorem Lockstep.counted (h : Lockstep exceeds n d) (hinit : d.state ≠ .init) (hstopped : d.state ≠ .stopped)
    (htask : ∀ calls, d.task ≠ .shutdown calls) : d.clients.length = n ∧ d.numberOfClients = n := by
  rcases h.count with hs | hs | ⟨calls, hcalls⟩ | hcount
  · exact absurd hs hinit
  · exact absurd hs hstopped
  · exact absurd hcalls (htask calls)
  · exact hcount

theorem Lockstep.answer (h : Lockstep exceeds n d) (hcount : d.clients.length = n ∧ d.numberOfClients = n)
    {id : ℕ} {benchmark : AbstractBench} {result : Option (TestResult τ)} :
    Lockstep exceeds n (d.answer id benchmark result) :=
  ⟨h.waitFor, h.clients, Or.inr (Or.inr (Or.inr hcount)), ⟨Or.inr (Or.inl rfl), h.task.tidy⟩, h.finished⟩

theorem lockstep_new (n : ℕ) : Lockstep exceeds n (.new n) := by
  refine ⟨rfl, List.nodup_nil, Or.inl rfl, ⟨Or.inl rfl, ?_⟩, fun f hf => absurd hf List.not_mem_nil⟩
  refine FanOut.Quiet.tidy ⟨rfl, fun _ => rfl⟩ ⟨fun i x hx => absurd hx List.not_mem_nil, fun x hx => ?_⟩
  exact absurd hx List.not_mem_nil

theorem Lockstep.checkIn (h : Lockstep exceeds n d) {i : ℕ} {outcome : CheckIn}
    (hd : d.checkIn i outcome = some d') : Lockstep exceeds n d' := by
  obtain ⟨c, hc, rfl⟩ := Option.map_eq_some_iff.mp hd
  obtain ⟨hstate, hdropped⟩ := checkin_cases hc
  refine ⟨h.waitFor, h.clients, h.count, h.task.setServer hstate hdropped, fun f hf => ?_⟩
  refine (h.finished f hf).mono fun j => ?_
  by_cases hj : j = i
  · subst hj
    rw [FanOut.setServer_self, hdropped]
    exact List.Subset.refl _
  · rw [FanOut.setServer_of_ne hj]
    exact List.Subset.refl _

theorem Lockstep.checkInHandler (h : Lockstep exceeds n d) (hok : d.Orderly (.checkInHandler (τ := τ)))
    (hd : d.checkInHandler = some d') : Lockstep exceeds n d' := by
  unfold Deployment.checkInHandler at hd
  split at hd
  · next request rest hstate hqueue =>
    have hidle : d.task = .idle := (hstate ▸ h.task).of_init
    have hnodup : (d.clients ++ [request]).Nodup := by
      refine List.nodup_append.mpr ⟨h.clients, List.nodup_singleton _, fun a ha b hb heq => ?_⟩
      rw [List.mem_singleton.mp hb] at heq
      exact hok request (by rw [hqueue]; rfl) (heq ▸ ha)
    dsimp only at hd
    split_ifs at hd with hall
    · obtain ⟨s, hs, rfl⟩ := Option.map_eq_some_iff.mp hd
      obtain ⟨-, rfl⟩ := cas_eq_some hs
      rw [h.waitFor] at hall
      refine ⟨h.waitFor, hnodup, Or.inr (Or.inr (Or.inr ⟨hall, hall⟩)), ?_, h.finished⟩
      show InStep exceeds .ready _ d.net d.task
      rw [hidle]
      exact ⟨Or.inr (Or.inl rfl), h.task.tidy⟩
    · cases hd
      refine ⟨h.waitFor, hnodup, Or.inl hstate, ?_, h.finished⟩
      show InStep exceeds d.state _ d.net d.task
      rw [hidle]
      exact ⟨Or.inl hstate, h.task.tidy⟩
  · cases hd

theorem Lockstep.take (h : Lockstep exceeds n d) (hquiet : d.net.Quiet)
    {setup : ℕ → Except BenchmarkError String} (hd : d.take setup = some d') : Lockstep exceeds n d' := by
  unfold Deployment.take at hd
  split at hd
  · next bench rest htask hstate hqueue =>
    have hcount : d.clients.length = n ∧ d.numberOfClients = n :=
      h.counted (by rw [hstate]; nofun) (by rw [hstate]; nofun) (by rw [htask]; nofun)
    have hnumbered : d.net.Numbered := h.task.tidy.numbered
    cases bench with
    | invoke id benchmark =>
      cases benchmark with
      | «local» label =>
        obtain ⟨s, hs, rfl⟩ := Option.map_eq_some_iff.mp hd
        obtain ⟨-, rfl⟩ := cas_eq_some hs
        exact ⟨h.waitFor, h.clients, Or.inr (Or.inr (Or.inr hcount)), ⟨rfl, h.task.tidy⟩, h.finished⟩
      | distributed label =>
        obtain ⟨s, hs, rfl⟩ := Option.map_eq_some_iff.mp hd
        obtain ⟨-, rfl⟩ := cas_eq_some hs
        split
        · exact ⟨h.waitFor, h.clients, Or.inr (Or.inr (Or.inr hcount)), ⟨Or.inr (Or.inl rfl), h.task.tidy⟩,
            h.finished⟩
        · next conf hconf =>
          refine ⟨h.waitFor, h.clients, Or.inr (Or.inr (Or.inr hcount)),
            InStep.setup hnumbered hquiet h.clients ⟨id, label, conf⟩, fun f hf => ?_⟩
          refine (h.finished f hf).mono fun i => ?_
          rw [(FanOut.sendAll_spec d.net _ d.clients).1]
          exact List.Subset.refl _
    | shutdown =>
      cases hd
      refine ⟨h.waitFor, List.nodup_nil, Or.inr (Or.inr (Or.inl ⟨_, rfl⟩)), ?_, fun f hf => ?_⟩
      · exact hstate ▸ InStep.shutdown hnumbered hquiet h.clients
      · refine (h.finished f hf).mono fun i => ?_
        show _ ⊆ ((d.net.sendAll .shutdown d.clients).1.server i).dropped
        rw [(FanOut.sendAll_spec d.net _ d.clients).1]
        exact List.Subset.refl _
  · cases hd

theorem Lockstep.localDone (h : Lockstep exceeds n d) {outcome : LocalOutcome τ}
    (hd : d.localDone exceeds outcome = some d') : Lockstep exceeds n d' := by
  unfold Deployment.localDone at hd
  split at hd
  · next id label htask =>
    have hstate : d.state = .run := (htask ▸ h.task : InStep exceeds _ _ _ (.local id label)).1
    cases hd
    exact h.answer (h.counted (by rw [hstate]; nofun) (by rw [hstate]; nofun) (by rw [htask]; nofun))
  · cases hd

theorem Lockstep.iterate (h : Lockstep exceeds n d) {prepared : Bool} {time : τ}
    (hd : d.iterate exceeds prepared time = some d') : Lockstep exceeds n d' := by
  unfold Deployment.iterate at hd
  split at hd
  · next t it htask =>
    have hiter : Iterating exceeds t it d.state d.clients d.net :=
      (htask ▸ h.task : InStep exceeds _ _ _ (.iterating t it))
    have hcount : d.clients.length = n ∧ d.numberOfClients = n :=
      h.counted (by rw [hiter.state]; nofun) (by rw [hiter.state]; nofun) (by rw [htask]; nofun)
    split_ifs at hd
    · obtain ⟨s, hs, rfl⟩ := Option.map_eq_some_iff.mp hd
      obtain ⟨-, rfl⟩ := cas_eq_some hs
      refine ⟨h.waitFor, h.clients, Or.inr (Or.inr (Or.inr hcount)), hiter.iterate h.clients time,
        fun f hf => ?_⟩
      refine (h.finished f hf).mono fun i => ?_
      rw [(FanOut.sendAll_spec d.net _ _).1]
      exact List.Subset.refl _
    · cases hd
      exact ⟨h.waitFor, h.clients, Or.inr (Or.inr (Or.inr hcount)), ⟨hiter.state, h.task.tidy⟩, h.finished⟩
  · cases hd

theorem Lockstep.join (h : Lockstep exceeds n d) (hd : d.join = some d') : Lockstep exceeds n d' := by
  unfold Deployment.join at hd
  split at hd
  · next t calls htask =>
    have hsetting : SettingUp t calls d.state d.clients d.net :=
      (htask ▸ h.task : InStep exceeds _ _ _ (.setup t calls))
    have hcount : d.clients.length = n ∧ d.numberOfClients = n :=
      h.counted (by rw [hsetting.state]; nofun) (by rw [hsetting.state]; nofun) (by rw [htask]; nofun)
    obtain ⟨res, hres, hd⟩ := Option.bind_eq_some_iff.mp hd
    rcases Call.joinAll_cases hres with ⟨rfl, -⟩ | ⟨data, rfl, hdata⟩
    · cases hd
      exact h.answer hcount
    · obtain ⟨s, hs, rfl⟩ := Option.map_eq_some_iff.mp hd
      obtain ⟨-, rfl⟩ := cas_eq_some hs
      exact ⟨h.waitFor, h.clients, Or.inr (Or.inr (Or.inr hcount)), hsetting.done hdata, h.finished⟩
  · next t it isFinal calls htask =>
    have hcleaning : CleaningUp exceeds t it isFinal calls d.state d.clients d.net :=
      (htask ▸ h.task : InStep exceeds _ _ _ (.cleanup t it isFinal calls))
    have hcount : d.clients.length = n ∧ d.numberOfClients = n :=
      h.counted (by rw [hcleaning.state]; nofun) (by rw [hcleaning.state]; nofun) (by rw [htask]; nofun)
    obtain ⟨res, hres, hd⟩ := Option.bind_eq_some_iff.mp hd
    rcases Call.joinAll_cases hres with ⟨rfl, -⟩ | ⟨as, rfl, has⟩
    · cases hd
      exact h.answer hcount
    · obtain ⟨hgo, hfinal⟩ := hcleaning.done (n := n) has
      dsimp only [cleanupDone] at hd
      split_ifs at hd with hf
      · obtain ⟨s, hs, rfl⟩ := Option.map_eq_some_iff.mp hd
        refine ⟨h.waitFor, h.clients, Or.inr (Or.inr (Or.inr hcount)), ⟨Or.inr (Or.inl rfl), h.task.tidy⟩,
          fun f hmem => ?_⟩
        rcases List.mem_append.mp hmem with hmem | hmem
        · exact h.finished f hmem
        · rw [List.mem_singleton.mp hmem]
          exact hfinal hf h.clients hcount.1
      · obtain ⟨s, hs, rfl⟩ := Option.map_eq_some_iff.mp hd
        obtain ⟨-, rfl⟩ := cas_eq_some hs
        rw [Bool.not_eq_true] at hf
        exact ⟨h.waitFor, h.clients, Or.inr (Or.inr (Or.inr hcount)), hgo hf, h.finished⟩
  · obtain ⟨res, -, rfl⟩ := Option.map_eq_some_iff.mp hd
    exact ⟨h.waitFor, h.clients, Or.inr (Or.inl rfl), ⟨Or.inr (Or.inr rfl), h.task.tidy⟩, h.finished⟩
  · cases hd

theorem Lockstep.netStep (h : Lockstep exceeds n d) (hx : d.netStep byLabel e = some x) :
    Lockstep exceeds n { d with net := x.1, task := d.task.setCalls x.2 } := by
  refine ⟨h.waitFor, h.clients, ?_, h.task.netStep hx, fun f hf => ?_⟩
  · refine h.count.imp_right (Or.imp_right (Or.imp_left fun ⟨calls, hcalls⟩ => ⟨x.2, ?_⟩))
    rw [hcalls]
    rfl
  · exact (h.finished f hf).mono (dropped_subset_netStep hx)

theorem Lockstep.step (h : Lockstep exceeds n d) (hok : d.Orderly e)
    (hd : d.step exceeds byLabel e = some d') : Lockstep exceeds n d' := by
  cases e with
  | checkIn i outcome => exact h.checkIn hd
  | checkInHandler => exact h.checkInHandler hok hd
  | enqueue benchmark => cases hd; exact ⟨h.waitFor, h.clients, h.count, h.task, h.finished⟩
  | enqueueShutdown => cases hd; exact ⟨h.waitFor, h.clients, h.count, h.task, h.finished⟩
  | take setup => exact h.take hok hd
  | localDone outcome => exact h.localDone hd
  | iterate prepared time => exact h.iterate hd
  | join => exact h.join hd
  | deliver k => obtain ⟨x, hx, rfl⟩ := Option.map_eq_some_iff.mp hd; exact h.netStep hx
  | lose k => obtain ⟨x, hx, rfl⟩ := Option.map_eq_some_iff.mp hd; exact h.netStep hx
  | execute i res => obtain ⟨x, hx, rfl⟩ := Option.map_eq_some_iff.mp hd; exact h.netStep hx
  | respond k => obtain ⟨x, hx, rfl⟩ := Option.map_eq_some_iff.mp hd; exact h.netStep hx
  | fail number =>
    have hx : d.netStep byLabel (.fail number) = some (d.net, Call.fail d.task.calls number) := rfl
    cases hd
    exact h.netStep hx

end Deployment

open Deployment

variable {exceeds}

theorem lockstep (h : (harness exceeds byLabel n).ReachableUnder Orderly d) : Lockstep exceeds n d :=
  h.invariant (lockstep_new n) fun _ _ _ _ hok ih hstep => ih.step hok hstep

end OmniPaxosBench.Suite
