import OmniPaxosBench.Suite.BenchmarkRunner

/-! # The benchmark client

A client checks in with the master, and then works off the commands the master sends it: it sets up a
test, cleans up after every iteration and prepares the next one, until it is told to shut down. A
command to clean up when no test is set up is a panic. A forced shutdown ends the process, and is left
out. -/

namespace OmniPaxosBench.Suite

/-- The calls the client's part of a distributed test gets. -/
inductive ClientCall
  | setup (conf : String)
  | prepareIteration
  | cleanupIteration (last : Bool)
  deriving DecidableEq, Repr

/-- A test that is set up, with the calls it has got. -/
structure ActiveBench where
  label : String
  calls : List ClientCall
  deriving DecidableEq, Repr

namespace ActiveBench

variable (b : ActiveBench)

def prepare : ActiveBench := { b with calls := b.calls ++ [.prepareIteration] }

def cleanup (last : Bool) : ActiveBench := { b with calls := b.calls ++ [.cleanupIteration last] }

end ActiveBench

inductive ClientState
  | checkingIn
  | ready
  | running (b : ActiveBench)
  | stopped
  deriving DecidableEq, Repr

inductive ClientCommand
  | setup (label data : String)
  | cleanup (isFinal : Bool)
  | shutdown
  deriving DecidableEq, Repr

/-- The answers to the calls of the master. A failed setup is answered with the text of its error. -/
inductive ClientResponse
  | setup (res : Except BenchmarkError String)
  | cleanup
  | shutdownAck
  deriving Repr

/-- The two kinds of tests a `BenchmarkFactory` makes. -/
inductive BenchKind
  | local
  | distributed
  deriving DecidableEq, Repr

/-- `MAX_ATTEMPTS`. -/
def maxAttempts : ℕ := 5

structure BenchmarkClient where
  state : ClientState
  checkinAttempts : ℕ
  /-- The process has ended, as the master could not be reached. -/
  exited : Bool
  /-- The tests that were set up and given up again, with the calls they have got. -/
  dropped : List ActiveBench

namespace BenchmarkClient

def new : BenchmarkClient := ⟨.checkingIn, 0, false, []⟩

variable (c : BenchmarkClient)

/-- One attempt to check in; `answered` says whether the answer of the master has come. -/
def checkin (answered : Bool) : Option BenchmarkClient :=
  if c.state = .checkingIn ∧ c.exited = false then
    let c := { c with checkinAttempts := c.checkinAttempts + 1 }
    if answered then some { c with state := .ready }
    else some { c with exited := !decide (c.checkinAttempts < maxAttempts) }
  else none

/-- The test that was running is dropped, without a call. -/
def dropActive : BenchmarkClient :=
  match c.state with
  | .running b => { c with dropped := c.dropped ++ [b] }
  | _ => c

/-- A check-in that was answered wrongly is taken for answered. -/
def toReady : BenchmarkClient :=
  if c.state = .ready then c else { c.dropActive with state := .ready }

/-- `ClientCommand::Setup`; `byLabel` is that of the factory, and `res` what the setup of the test
returns. -/
def handleSetup (byLabel : String → Except NotImplementedError BenchKind) (label data : String)
    (res : Except BenchmarkError String) : BenchmarkClient × Except BenchmarkError String :=
  let c := c.toReady
  match byLabel label with
  | .error e => (c, .error (.notImplemented e))
  | .ok .local => (c, .error (.invalidTest s!"Test {label} is local!"))
  | .ok .distributed =>
    match res with
    | .error e => (c, .error e)
    | .ok clientData =>
      let activeBench : ActiveBench := ⟨label, [.setup data]⟩
      ({ c with state := .running activeBench.prepare }, .ok clientData)

/-- `ClientCommand::Cleanup`. -/
def handleCleanup (isFinal : Bool) : Option BenchmarkClient :=
  match c.state with
  | .running activeBench =>
    if isFinal then some { c with state := .ready, dropped := c.dropped ++ [activeBench.cleanup true] }
    else some { c with state := .running (activeBench.cleanup false).prepare }
  | _ => none

/-- The client takes a command from its queue; `none` while it checks in or after it has stopped, and if
it panics. -/
def handle (byLabel : String → Except NotImplementedError BenchKind) (res : Except BenchmarkError String)
    (cmd : ClientCommand) : Option (BenchmarkClient × Option ClientResponse) :=
  if c.state = .checkingIn ∨ c.state = .stopped ∨ c.exited then none
  else
    match cmd with
    | .setup label data => some ((c.handleSetup byLabel label data res).map id fun r => some (.setup r))
    | .cleanup isFinal => (c.handleCleanup isFinal).map fun c => (c, some .cleanup)
    | .shutdown => some ({ c.dropActive with state := .stopped }, none)

/-- The handler of the calls answers a shutdown itself, when it puts it into the queue. -/
def ack : ClientCommand → Option ClientResponse
  | .shutdown => some .shutdownAck
  | .setup _ _ | .cleanup _ => none

/-! ### The calls of a test -/

/-- The calls of a test that was set up and cleaned up `n` times, with another iteration to come. -/
def clientCalls (conf : String) (n : ℕ) : List ClientCall :=
  [.setup conf, .prepareIteration] ++ (List.replicate n [.cleanupIteration false, .prepareIteration]).flatten

/-- The client takes part in the test and is prepared for iteration `n`. -/
def Prepared (label conf : String) (n : ℕ) (c : BenchmarkClient) : Prop :=
  c.state = .running ⟨label, clientCalls conf n⟩

/-- The client has been through a whole test of `n + 1` iterations. -/
def Through (label conf : String) (n : ℕ) (c : BenchmarkClient) : Prop :=
  ⟨label, clientCalls conf n ++ [.cleanupIteration true]⟩ ∈ c.dropped

/-- A command to clean up needs a test that is set up. -/
def Fits (c : BenchmarkClient) : ClientCommand → Prop
  | .cleanup _ => ∃ b, c.state = .running b
  | _ => True

variable {c} {c' : BenchmarkClient} {byLabel : String → Except NotImplementedError BenchKind}
  {res : Except BenchmarkError String} {cmd : ClientCommand} {r : Option ClientResponse}

/-- **A client panics only at a command that does not fit.** -/
theorem handle_isSome (hcheckin : c.state ≠ .checkingIn) (hstopped : c.state ≠ .stopped)
    (hexited : c.exited = false) (hfits : c.Fits cmd) : (c.handle byLabel res cmd).isSome := by
  unfold handle
  rw [if_neg (by simp [hcheckin, hstopped, hexited])]
  cases cmd with
  | setup label data => rfl
  | cleanup isFinal =>
    obtain ⟨b, hb⟩ := hfits
    unfold handleCleanup
    rw [hb]
    cases isFinal <;> rfl
  | shutdown => rfl

theorem handle_setup {label data : String} (h : c.handle byLabel res (.setup label data) = some (c', r)) :
    c' = (c.handleSetup byLabel label data res).1 ∧
      r = some (.setup (c.handleSetup byLabel label data res).2) := by
  unfold handle at h
  split_ifs at h
  have heq := Option.some.inj h
  exact ⟨(congrArg Prod.fst heq).symm, (congrArg Prod.snd heq).symm⟩

/-- The end of the setup. -/
theorem handleSetup_cases (c : BenchmarkClient)
    (byLabel : String → Except NotImplementedError BenchKind) (res : Except BenchmarkError String)
    (label data : String) : (∃ e, (c.handleSetup byLabel label data res).2 = .error e) ∨
      ((∃ d, (c.handleSetup byLabel label data res).2 = .ok d) ∧
        Prepared label data 0 (c.handleSetup byLabel label data res).1) := by
  unfold handleSetup
  dsimp only
  split
  · exact Or.inl ⟨_, rfl⟩
  · exact Or.inl ⟨_, rfl⟩
  · split
    · exact Or.inl ⟨_, rfl⟩
    · exact Or.inr ⟨⟨_, rfl⟩, rfl⟩

theorem prepared_of_setup {label data d : String}
    (h : c.handle byLabel res (.setup label data) = some (c', some (.setup (.ok d)))) :
    Prepared label data 0 c' := by
  obtain ⟨rfl, hr⟩ := handle_setup h
  rcases handleSetup_cases c byLabel res label data with ⟨e, he⟩ | ⟨-, hp⟩
  · rw [he] at hr
    cases hr
  · exact hp

theorem clientCalls_succ (conf : String) (n : ℕ) : clientCalls conf (n + 1) =
    clientCalls conf n ++ [.cleanupIteration false, .prepareIteration] := by
  unfold clientCalls
  rw [List.replicate_succ', List.flatten_append, List.append_assoc]
  rfl

/-- What a command to clean up does to a prepared client. -/
theorem handle_cleanup {label conf : String} {n : ℕ} (hp : Prepared label conf n c) {isFinal : Bool}
    (h : c.handle byLabel res (.cleanup isFinal) = some (c', r)) :
    (isFinal = true → Through label conf n c') ∧ (isFinal = false → Prepared label conf (n + 1) c') := by
  unfold handle at h
  split_ifs at h
  obtain ⟨c₁, hc, heq⟩ := Option.map_eq_some_iff.mp h
  cases heq
  unfold handleCleanup at hc
  rw [hp] at hc
  cases isFinal with
  | true =>
    cases hc
    refine ⟨fun _ => List.mem_append_right _ ?_, nofun⟩
    exact List.mem_singleton.mpr rfl
  | false =>
    cases hc
    refine ⟨nofun, fun _ => ?_⟩
    unfold Prepared
    rw [clientCalls_succ]
    simp only [ActiveBench.cleanup, ActiveBench.prepare, List.append_assoc, List.cons_append, List.nil_append]

/-- The answer of a client that can set up the test. -/
theorem setup_of_ok {label data d : String} (hlabel : byLabel label = .ok .distributed) (hres : res = .ok d)
    (h : c.handle byLabel res (.setup label data) = some (c', r)) : r = some (.setup (.ok d)) := by
  obtain ⟨-, rfl⟩ := handle_setup h
  unfold handleSetup
  simp only [hlabel, hres]

theorem cleanup_answer {isFinal : Bool} (h : c.handle byLabel res (.cleanup isFinal) = some (c', r)) :
    r = some .cleanup := by
  unfold handle at h
  split_ifs at h
  obtain ⟨c₁, -, heq⟩ := Option.map_eq_some_iff.mp h
  exact (congrArg Prod.snd heq).symm

/-- A client that handles commands has checked in, and does not do so again. -/
theorem handle_checkingIn (h : c.handle byLabel res cmd = some (c', r)) : c'.state ≠ .checkingIn := by
  cases cmd with
  | setup label data =>
    obtain ⟨rfl, -⟩ := handle_setup h
    have hready : c.toReady.state = .ready := by
      unfold toReady
      split_ifs with hstate
      · exact hstate
      · rfl
    unfold handleSetup
    dsimp only
    split
    · rw [hready]; nofun
    · rw [hready]; nofun
    · split
      · rw [hready]; nofun
      · nofun
  | cleanup isFinal =>
    unfold handle at h
    split_ifs at h
    obtain ⟨c₁, hc, heq⟩ := Option.map_eq_some_iff.mp h
    cases heq
    unfold handleCleanup at hc
    split at hc
    · cases isFinal with
      | true => cases hc; nofun
      | false => cases hc; nofun
    · cases hc
  | shutdown =>
    unfold handle at h
    split_ifs at h
    cases h
    nofun

/-- A test a client has dropped stays recorded. -/
theorem dropped_subset_handle (h : c.handle byLabel res cmd = some (c', r)) : c.dropped ⊆ c'.dropped := by
  have hdrop : c.dropped ⊆ c.dropActive.dropped := by
    unfold dropActive
    split
    · exact List.subset_append_left _ _
    · exact List.Subset.refl _
  cases cmd with
  | setup label data =>
    obtain ⟨rfl, -⟩ := handle_setup h
    have hsetup : (c.handleSetup byLabel label data res).1.dropped = c.toReady.dropped := by
      unfold handleSetup
      dsimp only
      split
      · rfl
      · rfl
      · split <;> rfl
    rw [hsetup]
    unfold toReady
    split_ifs
    · exact List.Subset.refl _
    · exact hdrop
  | cleanup isFinal =>
    unfold handle at h
    split_ifs at h
    obtain ⟨c₁, hc, heq⟩ := Option.map_eq_some_iff.mp h
    cases heq
    unfold handleCleanup at hc
    split at hc
    · cases isFinal with
      | true => cases hc; exact List.subset_append_left _ _
      | false => cases hc; exact List.Subset.refl _
    · cases hc
  | shutdown =>
    unfold handle at h
    split_ifs at h
    cases h
    exact hdrop

theorem checkin_cases {answered : Bool} (h : c.checkin answered = some c') :
    c.state = .checkingIn ∧ c'.dropped = c.dropped := by
  unfold checkin at h
  split_ifs at h with hc ha
  · cases h; exact ⟨hc.1, rfl⟩
  · cases h; exact ⟨hc.1, rfl⟩

theorem ready_of_checkin (h : c.checkin true = some c') : c'.state = .ready := by
  unfold checkin at h
  dsimp only at h
  rw [if_pos rfl] at h
  split_ifs at h
  cases h
  rfl

end BenchmarkClient

end OmniPaxosBench.Suite
