import OmniPaxosBench.Lib.HashMap
import OmniPaxosBench.OmniPaxos.Messages

/-! # The benchmark master

The master validates the request of an experiment, and prepares each of its iterations: it decides which
of the available nodes take part and under which pids, and builds the `PartitioningActor` that
initialises them.

Texts are compared in lower case. All words they are compared with are of ASCII letters other than `k`,
so lowering the ASCII letters decides the same. -/

namespace OmniPaxosBench.Experiment

open OmniPaxosBench.Lib OmniPaxosBench.OmniPaxos

/-! ### Texts -/

def toLowercase (s : String) : String := String.ofList (s.toList.map Char.toLower)

/-- The value of a list of decimal digits, after `acc` was read. -/
def digitsFrom (acc : ℕ) : List Char → Option ℕ
  | [] => some acc
  | d :: ds => if d.isDigit then digitsFrom (acc * 10 + (d.toNat - '0'.toNat)) ds else none

/-- `str::parse` for unsigned numbers of the given number of bits; a leading plus sign is allowed. -/
def parseUint (bits : ℕ) (s : String) : Option ℕ :=
  let digits := match s.toList with
    | '+' :: ds => ds
    | ds => ds
  if digits = [] then none
  else (digitsFrom 0 digits).bind fun n => if n < 2 ^ bits then some n else none

/-- `str::split` at a character. -/
def split (s : String) (sep : Char) : List String := (s.toList.splitOn sep).map String.ofList

/-- The characters `str::trim` removes. -/
def isWhitespace (c : Char) : Bool :=
  let n := c.toNat
  (9 ≤ n && n ≤ 13) || n == 0x20 || n == 0x85 || n == 0xA0 || n == 0x1680 || (0x2000 ≤ n && n ≤ 0x200A) ||
    n == 0x2028 || n == 0x2029 || n == 0x202F || n == 0x205F || n == 0x3000

def trim (s : String) : String :=
  String.ofList ((s.toList.dropWhile isWhitespace).reverse.dropWhile isWhitespace).reverse

theorem digitsFrom_eq_some {ds : List Char} {acc n : ℕ} :
    digitsFrom acc ds = some n ↔ (∀ d ∈ ds, d.isDigit) ∧ Nat.ofDigitChars 10 ds acc = n := by
  induction ds generalizing acc with
  | nil => simp [digitsFrom]
  | cons d ds ih =>
    rw [digitsFrom, List.forall_mem_cons, Nat.ofDigitChars_cons, Nat.mul_comm 10 acc]
    split_ifs with hd
    · rw [ih, and_iff_right hd]
    · exact ⟨nofun, fun h => absurd h.1.1 hd⟩

/-- A number is parsed from its decimal digits. -/
theorem parseUint_toString {bits n : ℕ} (h : n < 2 ^ bits) : parseUint bits (toString n) = some n := by
  have hdigit : ∀ d ∈ Nat.toDigits 10 n, d.isDigit := fun d hd =>
    Nat.isDigit_of_mem_toDigits (by decide) (by decide) hd
  have hvalue : digitsFrom 0 (Nat.toDigits 10 n) = some n :=
    digitsFrom_eq_some.mpr ⟨hdigit, Nat.ofDigitChars_ten_toDigits⟩
  have hne : Nat.toDigits 10 n ≠ [] := Nat.toDigits_ne_nil
  unfold parseUint
  rw [Nat.toString_eq_repr, Nat.toList_repr]
  generalize Nat.toDigits 10 n = digits at hdigit hvalue hne
  dsimp only
  split
  · exact absurd (hdigit '+' List.mem_cons_self) (by decide)
  · rw [if_neg hne, hvalue, Option.bind_some, if_pos h]

/-- What is parsed has digits only, after the sign. -/
theorem isDigit_of_parseUint {bits n : ℕ} {s : String} (h : parseUint bits s = some n) {d : Char}
    (hd : d ∈ s.toList) : d = '+' ∨ d.isDigit := by
  unfold parseUint at h
  dsimp only at h
  split_ifs at h
  obtain ⟨value, hvalue, -⟩ := Option.bind_eq_some_iff.mp h
  have hdigits := (digitsFrom_eq_some.mp hvalue).1
  split at hdigits
  · next ds heq =>
    rw [heq] at hd
    exact (List.mem_cons.mp hd).imp_right (hdigits d)
  · exact .inr (hdigits d hd)

/-! ### Requests -/

structure AtomicBroadcastRequest where
  algorithm : String
  numberOfNodes : ℕ
  durationSecs : ℕ
  concurrentProposals : ℕ
  reconfiguration : String
  reconfigPolicy : String
  networkScenario : String
  electionTimeoutMs : ℕ
  deriving DecidableEq, Repr

inductive BenchmarkError
  | invalidMessage (message : String)
  | invalidTest (message : String)
  deriving DecidableEq, Repr

/-- The durations are in seconds. -/
inductive NetworkScenario
  | fullyConnected
  | quorumLoss (duration : ℕ)
  | constrainedElection (duration : ℕ)
  | chained (duration : ℕ)
  | periodicFull (duration : ℕ)
  deriving DecidableEq, Repr

/-- `get_reconfig_nodes`. -/
def getReconfigNodes (s : String) (n : ℕ) : Except BenchmarkError (Option (List ℕ)) :=
  let lower := toLowercase s
  if lower = "off" then .ok none
  else if lower = "single" then .ok (some [n + 1])
  else if lower = "majority" then .ok (some (List.range' (n + 1) (n / 2 + 1)))
  else .error (.invalidMessage "Got unknown reconfiguration parameter")

/-- What the master remembers of the request, and the number of iterations prepared. -/
structure AtomicBroadcastMaster where
  numNodesNeeded : Option ℕ := none
  reconfiguration : Option (ReconfigurationPolicy × List ℕ) := none
  networkScenario : Option NetworkScenario := none
  iterationId : ℕ := 0
  deriving DecidableEq, Repr

/-- The network scenario of a request: `fully_connected`, or a name and a duration in seconds. -/
def getNetworkScenario (c : AtomicBroadcastRequest) : Except BenchmarkError NetworkScenario :=
  let text := toLowercase c.networkScenario
  let nodes := c.numberOfNodes
  let scenario := c.networkScenario
  let unimplemented : Except BenchmarkError NetworkScenario :=
    .error (.invalidTest s!"Unimplemented network scenario for {nodes} nodes: {scenario}")
  if text = "fully_connected" then .ok .fullyConnected
  else match split text '-' with
    | [name, secs] =>
      match parseUint 64 secs with
      | none => .error (.invalidTest s!"Invalid duration for network scenario {scenario}")
      | some d =>
        if name = "quorum_loss" ∧ c.numberOfNodes = 5 then .ok (.quorumLoss d)
        else if name = "constrained_election" ∧ c.numberOfNodes = 5 then .ok (.constrainedElection d)
        else if name = "chained" ∧ c.numberOfNodes = 3 then .ok (.chained d)
        else if name = "periodic_full" then .ok (.periodicFull d)
        else unimplemented
    | _ => unimplemented

def checkAlgorithm (c : AtomicBroadcastRequest) : Except BenchmarkError Unit :=
  let algorithm := c.algorithm
  if toLowercase algorithm ∈ ["paxos", "raft", "vr", "multi-paxos", "raft_pv_qc"] then .ok ()
  else .error (.invalidTest s!"Unimplemented atomic broadcast algorithm: {algorithm}")

def getPolicy (c : AtomicBroadcastRequest) : Except BenchmarkError ReconfigurationPolicy :=
  let policy := c.reconfigPolicy
  if toLowercase policy = "replace-follower" then .ok .replaceFollower
  else if toLowercase policy = "replace-leader" then .ok .replaceLeader
  else .error (.invalidTest s!"Unimplemented reconfiguration policy: {policy}")

theorem checkAlgorithm_ok {c : AtomicBroadcastRequest} (h : checkAlgorithm c = .ok ()) :
    toLowercase c.algorithm ∈ ["paxos", "raft", "vr", "multi-paxos", "raft_pv_qc"] := by
  unfold checkAlgorithm at h
  dsimp only at h
  split_ifs at h with hin
  exact hin

/-- The texts of a network scenario. -/
theorem getNetworkScenario_ok {c : AtomicBroadcastRequest} {scenario : NetworkScenario}
    (h : getNetworkScenario c = .ok scenario) : toLowercase c.networkScenario = "fully_connected" ∨
      ∃ name secs d, split (toLowercase c.networkScenario) '-' = [name, secs] ∧
        parseUint 64 secs = some d ∧
        name ∈ ["quorum_loss", "constrained_election", "chained", "periodic_full"] := by
  unfold getNetworkScenario at h
  dsimp only at h
  split_ifs at h with hfull
  · exact .inl hfull
  · right
    split at h
    · next name secs hsplit =>
      split at h
      · cases h
      · next d hd =>
        refine ⟨name, secs, d, hsplit, hd, ?_⟩
        split_ifs at h with h1 h2 h3 h4
        · simp [h1.1]
        · simp [h2.1]
        · simp [h3.1]
        · simp [h4]
    · cases h

namespace AtomicBroadcastMaster

/-- The result of a method that can fail, and the master after it. -/
abbrev Result := AtomicBroadcastMaster × Except BenchmarkError Unit

variable (m : AtomicBroadcastMaster)

/-- The branch of `validate_experiment_params` for `single` and `majority`. -/
def validateReconfigNodes (c : AtomicBroadcastRequest) (numClients : ℕ) : Result :=
  let algorithm := c.algorithm
  if toLowercase algorithm = "multi-paxos" then
    (m, .error (.invalidTest s!"Reconfiguration is not implemented for: {algorithm}"))
  else match getPolicy c with
    | .error e => (m, .error e)
    | .ok policy =>
      match getReconfigNodes c.reconfiguration c.numberOfNodes with
      | .error e => (m, .error e)
      | .ok reconfig =>
        let n := c.numberOfNodes + (reconfig.elim 0 List.length)
        if numClients < n then
          (m, .error (.invalidTest s!"Not enough clients: {numClients}, Required: {n}"))
        else
          ({ m with reconfiguration := reconfig.map (policy, ·), numNodesNeeded := some n }, .ok ())

/-- The part of `validate_experiment_params` about the reconfiguration. A reconfiguration that was set
before is kept if the request has none. -/
def validateReconfiguration (c : AtomicBroadcastRequest) (numClients : ℕ) : Result :=
  let reconfiguration := c.reconfiguration
  let policy := c.reconfigPolicy
  if toLowercase reconfiguration = "off" then
    let m := { m with numNodesNeeded := some c.numberOfNodes }
    if toLowercase policy = "none" then (m, .ok ())
    else (m, .error (.invalidTest
      s!"Reconfiguration is off, transfer policy should be none, but found: {policy}"))
  else if toLowercase reconfiguration = "single" ∨ toLowercase reconfiguration = "majority" then
    m.validateReconfigNodes c numClients
  else (m, .error (.invalidTest s!"Unimplemented reconfiguration: {reconfiguration}"))

def validateExperimentParams (c : AtomicBroadcastRequest) (numClients : ℕ) : Result :=
  let nodes := c.numberOfNodes
  if numClients < nodes then
    (m, .error (.invalidTest s!"Not enough clients: {numClients}, Required: {nodes}"))
  else match checkAlgorithm c with
    | .error e => (m, .error e)
    | .ok () => match m.validateReconfiguration c numClients with
      | (m, .error e) => (m, .error e)
      | (m, .ok ()) => match getNetworkScenario c with
        | .error e => (m, .error e)
        | .ok scenario => ({ m with networkScenario := some scenario }, .ok ())

/-! ### What an accepted request leaves behind -/

variable {m} {m' : AtomicBroadcastMaster} {c : AtomicBroadcastRequest} {numClients : ℕ}

/-- The new nodes of an accepted reconfiguration. -/
theorem validateReconfigNodes_ok (h : m.validateReconfigNodes c numClients = (m', .ok ())) :
    ∃ policy reconfig, getPolicy c = .ok policy ∧
      getReconfigNodes c.reconfiguration c.numberOfNodes = .ok reconfig ∧
      c.numberOfNodes + reconfig.elim 0 List.length ≤ numClients ∧
      m' = { m with
        reconfiguration := reconfig.map (policy, ·)
        numNodesNeeded := some (c.numberOfNodes + reconfig.elim 0 List.length) } := by
  unfold validateReconfigNodes at h
  dsimp only at h
  split_ifs at h with hmp
  · cases h
  split at h
  · cases h
  · next policy hpolicy =>
    split at h
    · cases h
    · next reconfig hreconfig =>
      split_ifs at h with hlt
      · cases h
      · cases h
        exact ⟨policy, reconfig, hpolicy, hreconfig, not_lt.mp hlt, rfl⟩

/-- An accepted request has passed the checks one after the other. -/
theorem validateExperimentParams_ok (h : m.validateExperimentParams c numClients = (m', .ok ())) :
    c.numberOfNodes ≤ numClients ∧ checkAlgorithm c = .ok () ∧
    ∃ m₁ scenario, m.validateReconfiguration c numClients = (m₁, .ok ()) ∧
      getNetworkScenario c = .ok scenario ∧ m' = { m₁ with networkScenario := some scenario } := by
  unfold validateExperimentParams at h
  dsimp only at h
  split_ifs at h with hlt
  · cases h
  split at h
  · cases h
  · next halgorithm =>
    split at h
    · cases h
    · next m₁ hm₁ =>
      split at h
      · cases h
      · next scenario hscenario =>
        cases h
        exact ⟨not_lt.mp hlt, halgorithm, m₁, scenario, hm₁, hscenario, rfl⟩

theorem validateReconfiguration_ok (h : m.validateReconfiguration c numClients = (m', .ok ())) :
    (toLowercase c.reconfiguration = "off" ∧ m' = { m with numNodesNeeded := some c.numberOfNodes }) ∨
    (toLowercase c.reconfiguration = "single" ∨ toLowercase c.reconfiguration = "majority") ∧
      m.validateReconfigNodes c numClients = (m', .ok ()) := by
  unfold validateReconfiguration at h
  dsimp only at h
  split_ifs at h with hoff hnone hnodes
  · cases h
    exact Or.inl ⟨hoff, rfl⟩
  · cases h
  · exact Or.inr ⟨hnodes, h⟩
  · cases h

/-- There are enough clients for the nodes that are needed. -/
theorem numNodesNeeded_le (h : m.validateExperimentParams c numClients = (m', .ok ())) :
    ∃ needed, m'.numNodesNeeded = some needed ∧ needed ≤ numClients := by
  obtain ⟨hle, -, m₁, scenario, hm₁, -, rfl⟩ := validateExperimentParams_ok h
  rcases validateReconfiguration_ok hm₁ with ⟨-, rfl⟩ | ⟨-, hnodes⟩
  · exact ⟨_, rfl, hle⟩
  · obtain ⟨policy, reconfig, -, -, hle, rfl⟩ := validateReconfigNodes_ok hnodes
    exact ⟨_, rfl, hle⟩

end AtomicBroadcastMaster

end OmniPaxosBench.Experiment
