import OmniPaxosBench.Lib.FanOut
import OmniPaxosBench.Lib.Machine
import OmniPaxosBench.Suite.BenchmarkClient

/-! # The benchmark master and its clients

The master waits for its clients to check in, and then works off the requests of the runner one after
the other. For a distributed test it asks all clients to set it up, and after each iteration to clean up,
and joins their answers every time. The clients, the messages to them and their answers are a `FanOut`;
together with the master they are a machine, the harness.

A panic of the master at a failed `cas` is a step that cannot happen; no reachable state comes to one
(`Lockstep`). A forced shutdown ends all processes, and is left out. -/

namespace OmniPaxosBench.Suite

open OmniPaxosBench.Lib

/-- `State`. -/
inductive MasterState
  | init
  | ready
  | setup
  | run
  | cleanup
  | finished
  | stopped
  deriving DecidableEq, Repr

/-- `StateHolder::cas`. -/
def MasterState.cas (s old new : MasterState) : Option MasterState := if s = old then some new else none

inductive AbstractBench
  | local (label : String)
  | distributed (label : String)
  deriving DecidableEq, Repr

/-- A request of the runner; `id` stands for its promise. -/
inductive BenchRequest
  | invoke (id : ℕ) (benchmark : AbstractBench)
  | shutdown
  deriving DecidableEq, Repr

/-- The test requested. -/
def BenchRequest.invoked : BenchRequest → Option (AbstractBench × ℕ)
  | .invoke id benchmark => some (benchmark, id)
  | .shutdown => none

inductive TestResult (τ : Type)
  | success (numberOfRuns : ℕ) (runResults : List τ)
  | failure (reason : BenchmarkError)
  deriving DecidableEq, Repr

/-- `impl From<Result<Vec<f64>, BenchmarkError>> for TestResult`. -/
def TestResult.ofResult {τ : Type} : Except BenchmarkError (List τ) → TestResult τ
  | .ok data => .success data.length data
  | .error e => .failure e

/-- What becomes of a request; the result is `none` if its promise is dropped. -/
structure Answer (τ : Type) where
  id : ℕ
  benchmark : AbstractBench
  result : Option (TestResult τ)
  deriving DecidableEq, Repr

/-- A distributed test, with the configuration for its clients. -/
structure Test where
  id : ℕ
  label : String
  conf : String
  deriving DecidableEq, Repr

/-- What the master is doing. -/
inductive Task (τ : Type)
  | idle
  | local (id : ℕ) (label : String)
  | setup (t : Test) (calls : List (Call ClientResponse))
  | iterating (t : Test) (it : DistributedIteration τ)
  | cleanup (t : Test) (it : DistributedIteration τ) (isFinal : Bool) (calls : List (Call ClientResponse))
  | shutdown (calls : List (Call ClientResponse))
  /-- The data of the clients could not be read. -/
  | panicked (t : Test)

namespace Task

variable {τ : Type}

/-- The calls the master waits for. -/
def calls : Task τ → List (Call ClientResponse)
  | .setup _ cs | .cleanup _ _ _ cs | .shutdown cs => cs
  | .idle | .local _ _ | .iterating _ _ | .panicked _ => []

def setCalls (cs : List (Call ClientResponse)) : Task τ → Task τ
  | .setup t _ => .setup t cs
  | .cleanup t it isFinal _ => .cleanup t it isFinal cs
  | .shutdown _ => .shutdown cs
  | task => task

/-- The request that is worked on. -/
def current : Task τ → Option (AbstractBench × ℕ)
  | .local id label => some (.local label, id)
  | .setup t _ | .iterating t _ | .cleanup t _ _ _ | .panicked t => some (.distributed t.label, t.id)
  | .idle | .shutdown _ => none

end Task

/-- The master with its queues, and the clients. -/
structure Deployment (τ : Type) where
  waitFor : ℕ
  clients : List ℕ
  state : MasterState
  /-- The number of clients in the metadata. -/
  numberOfClients : ℕ
  checkInQueue : List ℕ
  benchQueue : List BenchRequest
  task : Task τ
  net : FanOut BenchmarkClient ClientCommand ClientResponse
  /-- The tests requested so far. -/
  requests : List AbstractBench
  answers : List (Answer τ)
  /-- The distributed tests that have come to their end. -/
  finished : List (Test × DistributedIteration τ)

/-- What becomes of an attempt to check in. -/
inductive CheckIn
  | lost
  | unanswered
  | answered
  deriving DecidableEq, Repr

/-- How a local test ends. -/
inductive LocalOutcome (τ : Type)
  | panics
  | invalid (message : String)
  | runs (time : ℕ → τ)

/-- The answers that are accepted by the joins. -/
def acceptSetup : ClientResponse → Option String
  | .setup (.ok data) => some data
  | .setup (.error _) | .cleanup | .shutdownAck => none

def acceptCleanup : ClientResponse → Option Unit
  | .cleanup => some ()
  | .setup _ | .shutdownAck => none

def acceptShutdown : ClientResponse → Option Unit
  | .shutdownAck => some ()
  | .setup _ | .cleanup => none

namespace Deployment

variable {τ : Type} (d : Deployment τ)

def new (waitFor : ℕ) : Deployment τ where
  waitFor := waitFor
  clients := []
  state := .init
  numberOfClients := 0
  checkInQueue := []
  benchQueue := []
  task := .idle
  net := ⟨fun _ => BenchmarkClient.new, fun _ => [], [], [], 0⟩
  requests := []
  answers := []
  finished := []

/-! ### Checking in -/

/-- Client `i` tries to check in. The handler of the master ignores late check-ins. -/
def checkIn (i : ℕ) (outcome : CheckIn) : Option (Deployment τ) :=
  ((d.net.server i).checkin (outcome = .answered)).map fun c =>
    { d with
      net := d.net.setServer i c
      checkInQueue :=
        if outcome ≠ .lost ∧ d.state = .init then d.checkInQueue ++ [i] else d.checkInQueue }

def checkInHandler : Option (Deployment τ) :=
  match d.state, d.checkInQueue with
  | .init, request :: rest =>
    let clients := d.clients ++ [request]
    if clients.length = d.waitFor then
      (d.state.cas .init .ready).map fun s =>
        { d with state := s, clients := clients, checkInQueue := rest, numberOfClients := clients.length }
    else some { d with clients := clients, checkInQueue := rest }
  | _, _ => none

/-! ### Requests -/

/-- `RunnerHandler::ready`. -/
def ready : Bool := d.state = .ready

def enqueue (benchmark : AbstractBench) : Deployment τ :=
  { d with
    benchQueue := d.benchQueue ++ [.invoke d.requests.length benchmark]
    requests := d.requests ++ [benchmark] }

/-- `RunnerHandler::shutdown`. -/
def enqueueShutdown : Deployment τ := { d with benchQueue := d.benchQueue ++ [.shutdown] }

/-- The end of `bench_request_handler`; the state was assigned before. -/
def answer (id : ℕ) (benchmark : AbstractBench) (result : Option (TestResult τ)) : Deployment τ :=
  { d with state := .ready, task := .idle, answers := d.answers ++ [⟨id, benchmark, result⟩] }

def runLocalBenchmark (id : ℕ) (label : String) : Option (Deployment τ) :=
  (d.state.cas .ready .run).map fun s => { d with state := s, task := .local id label }

/-- Up to the calls to the clients; `setup` is that of the test's master, which gets the metadata. -/
def runDistributedBenchmark (setup : ℕ → Except BenchmarkError String) (id : ℕ) (label : String) :
    Option (Deployment τ) :=
  (d.state.cas .ready .setup).map fun s =>
    match setup d.numberOfClients with
    | .error _ => d.answer id (.distributed label) none
    | .ok conf =>
      let (net, calls) := d.net.sendAll (.setup label conf) d.clients
      { d with state := s, net := net, task := .setup ⟨id, label, conf⟩ calls }

def shutdownClients : Deployment τ :=
  let (net, calls) := d.net.sendAll .shutdown d.clients
  { d with clients := [], net := net, task := .shutdown calls }

/-- The master takes the next request. -/
def take (setup : ℕ → Except BenchmarkError String) : Option (Deployment τ) :=
  match d.task, d.state, d.benchQueue with
  | .idle, .ready, bench :: rest =>
    let d := { d with benchQueue := rest }
    match bench with
    | .invoke id (.local label) => d.runLocalBenchmark id label
    | .invoke id (.distributed label) => d.runDistributedBenchmark setup id label
    | .shutdown => some d.shutdownClients
  | _, _, _ => none

variable (exceeds : List τ → Bool)

def localDone (outcome : LocalOutcome τ) : Option (Deployment τ) :=
  match d.task with
  | .local id label => some <| d.answer id (.local label) <|
    match outcome with
    | .panics => none
    | .invalid message => some (.ofResult (.error (.invalidMessage message)))
    | .runs time => some (.ofResult (run exceeds time).2)
  | _ => none

/-! ### Distributed tests -/

/-- An iteration, up to the calls to the clients. -/
def iterate (prepared : Bool) (time : τ) : Option (Deployment τ) :=
  match d.task with
  | .iterating t it =>
    if prepared then
      (d.state.cas .run .cleanup).map fun s =>
        let it := it.prepare.run time
        let isFinal := it.isFinal exceeds
        let it := it.cleanup exceeds
        let (net, calls) := d.net.sendAll (.cleanup isFinal) (it.clientData.map Prod.fst)
        { d with state := s, net := net, task := .cleanup t it isFinal calls }
    else some { d with task := .panicked t }
  | _ => none

/-- All clients have set up the test. -/
def setupDone (t : Test) (clientData : List (ℕ × String)) : Option (Deployment τ) :=
  (d.state.cas .setup .run).map fun s => { d with state := s, task := .iterating t (.new [.setup] clientData) }

/-- All clients have cleaned up. -/
def cleanupDone (t : Test) (it : DistributedIteration τ) (isFinal : Bool) : Option (Deployment τ) :=
  if isFinal then
    (d.state.cas .cleanup .finished).map fun s =>
      { d with state := s, finished := d.finished ++ [(t, it)] }.answer t.id (.distributed t.label)
        (some (.ofResult (.ok it.results)))
  else (d.state.cas .cleanup .run).map fun s => { d with state := s, task := .iterating t it }

/-- The calls are joined. -/
def join : Option (Deployment τ) :=
  match d.task with
  | .setup t calls => (Call.joinAll acceptSetup calls).bind fun res =>
    match res with
    | none => some (d.answer t.id (.distributed t.label) none)
    | some clientData => d.setupDone t clientData
  | .cleanup t it isFinal calls => (Call.joinAll acceptCleanup calls).bind fun res =>
    match res with
    | none => some (d.answer t.id (.distributed t.label) none)
    | some _ => d.cleanupDone t it isFinal
  | .shutdown calls => (Call.joinAll acceptShutdown calls).map fun _ =>
    { d with state := .stopped, task := .idle }
  | _ => none

end Deployment

/-! ### The harness -/

inductive HarnessEvent (τ : Type)
  | checkIn (i : ℕ) (outcome : CheckIn)
  | checkInHandler
  | enqueue (benchmark : AbstractBench)
  | enqueueShutdown
  | take (setup : ℕ → Except BenchmarkError String)
  | localDone (outcome : LocalOutcome τ)
  | iterate (prepared : Bool) (time : τ)
  | join
  /-- The request at place `k` reaches its client, or is lost. -/
  | deliver (k : ℕ)
  | lose (k : ℕ)
  /-- Client `i` works off its next command; `res` is what the setup of a test returns. -/
  | execute (i : ℕ) (res : Except BenchmarkError String)
  /-- The response at place `k` reaches the master. -/
  | respond (k : ℕ)
  /-- A call fails at the master. -/
  | fail (number : ℕ)

variable {τ : Type} (exceeds : List τ → Bool) (byLabel : String → Except NotImplementedError BenchKind)

namespace Deployment

/-- A step of the network or of a client. -/
def netStep (d : Deployment τ) : HarnessEvent τ →
    Option (FanOut BenchmarkClient ClientCommand ClientResponse × List (Call ClientResponse))
  | .deliver k => (d.net.deliver BenchmarkClient.ack k).map fun net => (net, d.task.calls)
  | .lose k => (d.net.lose k).map fun net => (net, d.task.calls)
  | .execute i res =>
    (d.net.execute (fun c cmd => c.handle byLabel res cmd) i).map fun net => (net, d.task.calls)
  | .respond k => d.net.respond d.task.calls k
  | .fail number => some (d.net, Call.fail d.task.calls number)
  | _ => none

def step (d : Deployment τ) : HarnessEvent τ → Option (Deployment τ)
  | .checkIn i outcome => d.checkIn i outcome
  | .checkInHandler => d.checkInHandler
  | .enqueue benchmark => some (d.enqueue benchmark)
  | .enqueueShutdown => some d.enqueueShutdown
  | .take setup => d.take setup
  | .localDone outcome => d.localDone exceeds outcome
  | .iterate prepared time => d.iterate exceeds prepared time
  | .join => d.join
  | e => (d.netStep byLabel e).map fun x => { d with net := x.1, task := d.task.setCalls x.2 }

end Deployment

/-- The master waits for `waitFor` clients. -/
def harness (waitFor : ℕ) : Machine (Deployment τ) (HarnessEvent τ) :=
  ⟨.new waitFor, Deployment.step exceeds byLabel⟩

end OmniPaxosBench.Suite
