import OmniPaxosBench.Experiment.Master
import OmniPaxosBench.Lib.Fields

/-! # The parameters of the clients

The master packs the parameters of an experiment into one text of seven fields, and each client unpacks it.
The fields are separated by commas and nothing is escaped, so the text can be unpacked just when no field
has a comma in it (`getDeserClientparamsAndSubdir_new`). Of the texts of a request the validation lets only
such through, and then the run id decides (`setup_clientParams`). -/

namespace OmniPaxosBench.Experiment

open OmniPaxosBench.Lib

/-! ### Packing -/

structure ClientParamsDeser where
  algorithm : String
  numNodes : ℕ
  concurrentProposals : ℕ
  isReconfigExp : Bool
  electionTimeoutMs : ℕ
  runId : String
  scenario : String
  deriving DecidableEq, Repr

structure ClientParams where
  experimentStr : String
  deriving DecidableEq, Repr

/-- `ClientParams::with`. -/
def ClientParams.new (c : ClientParamsDeser) (reconfig : String) : ClientParams :=
  ⟨",".intercalate [c.algorithm, toString c.numNodes, toString c.concurrentProposals, reconfig,
    toString c.electionTimeoutMs, c.runId, c.scenario]⟩

def createMetaresultsSubDir (numberOfNodes concurrentProposals : ℕ) (reconfiguration : String) : String :=
  s!"{numberOfNodes}-{concurrentProposals}-{reconfiguration}"

namespace AtomicBroadcastMaster

/-- Forget the request. -/
def clearState (m : AtomicBroadcastMaster) : AtomicBroadcastMaster :=
  { m with numNodesNeeded := none, reconfiguration := none, networkScenario := none, iterationId := 0 }

/-- The parameters of a request for the clients, `cpd` of the source. -/
def clientParams (m : AtomicBroadcastMaster) (c : AtomicBroadcastRequest) (runId : String) : ClientParamsDeser where
  algorithm := c.algorithm
  numNodes := c.numberOfNodes
  concurrentProposals := c.concurrentProposals
  isReconfigExp := m.reconfiguration.isSome
  electionTimeoutMs := c.electionTimeoutMs
  runId := runId
  scenario := c.networkScenario

/-- Validate a request, and pack what the clients are given. -/
def setup (m : AtomicBroadcastMaster) (c : AtomicBroadcastRequest) (numClients : ℕ) (runId : String) :
    AtomicBroadcastMaster × Except BenchmarkError ClientParams :=
  match m.validateExperimentParams c numClients with
  | (m, .error e) => (m, .error e)
  | (m, .ok ()) => (m, .ok (ClientParams.new (m.clientParams c runId) c.reconfiguration))

end AtomicBroadcastMaster

/-! ### Unpacking -/

/-- The panics of a client; the assertion on the number of the fields prints them. -/
inductive Panic
  | assertion (split : List String)
  | message (text : String)
  deriving DecidableEq, Repr

/-- A `u64`, or the panic with the message of the field. -/
def parseField (text what : String) : Except Panic ℕ :=
  match parseUint 64 text with
  | some n => .ok n
  | none => .error (.message (text ++ "' does not represent " ++ what))

def parseReconfig (reconfig : String) : Except Panic Bool :=
  if reconfig = "off" then .ok false
  else if reconfig = "single" ∨ reconfig = "majority" then .ok true
  else .error (.message ("Got unexpected reconfiguration: " ++ reconfig))

/-- The text before the unit. -/
def beforeMs (text : String) : String :=
  String.ofList ((splitAtText ['m', 's'] 0 [] text.toList).headD [])

def getDeserClientparamsAndSubdir (s : String) : Except Panic (ClientParamsDeser × String) :=
  match split s ',' with
  | [algorithm, numNodes, concurrentProposals, reconfig, electionTimeout, runId, scenario] => do
    let numNodes ← parseField numNodes "a node id"
    let concurrentProposals ← parseField concurrentProposals "concurrent proposals"
    let isReconfigExp ← parseReconfig (toLowercase reconfig)
    let electionTimeoutMs ← parseField (beforeMs electionTimeout) "election timeout"
    let cp : ClientParamsDeser :=
      { algorithm := toLowercase algorithm
        numNodes := numNodes
        concurrentProposals := concurrentProposals
        isReconfigExp := isReconfigExp
        electionTimeoutMs := electionTimeoutMs
        runId := runId
        scenario := toLowercase scenario }
    .ok (cp, createMetaresultsSubDir numNodes concurrentProposals (toLowercase reconfig))
  | fields => .error (.assertion fields)

/-! ### Fields without commas -/

variable {s : String}

theorem toList_eq_intercalate_split (s : String) (sep : Char) :
    s.toList = [sep].intercalate ((split s sep).map String.toList) := by
  unfold split
  simp [Function.comp_def]

/-- A printed number has digits only. -/
theorem notMem_toString {d : Char} (hd : ¬ d.isDigit) (n : ℕ) : d ∉ (toString n).toList := by
  rw [Nat.toString_eq_repr, Nat.toList_repr]
  intro h
  exact hd (Nat.isDigit_of_mem_toDigits (by decide) (by decide) h)

/-- Lowering a text keeps its commas. -/
theorem comma_notMem_of_toLowercase (h : ',' ∉ (toLowercase s).toList) : ',' ∉ s.toList := by
  intro hin
  refine h ?_
  rw [toLowercase, String.toList_ofList]
  exact List.mem_map_of_mem (f := Char.toLower) hin

theorem comma_notMem_algorithm {c : AtomicBroadcastRequest} (h : checkAlgorithm c = .ok ()) :
    ',' ∉ c.algorithm.toList := by
  have hwords : ∀ w ∈ ["paxos", "raft", "vr", "multi-paxos", "raft_pv_qc"], ',' ∉ w.toList := by decide
  exact comma_notMem_of_toLowercase (hwords _ (checkAlgorithm_ok h))

theorem comma_notMem_networkScenario {c : AtomicBroadcastRequest} {scenario : NetworkScenario}
    (h : getNetworkScenario c = .ok scenario) : ',' ∉ c.networkScenario.toList := by
  refine comma_notMem_of_toLowercase ?_
  rcases getNetworkScenario_ok h with hfull | ⟨name, secs, d, hsplit, hd, hname⟩
  · rw [hfull]
    decide
  · have hnames : ∀ w ∈ ["quorum_loss", "constrained_election", "chained", "periodic_full"],
        ',' ∉ w.toList := by decide
    have hsecs : ',' ∉ secs.toList := fun hin => by
      rcases isDigit_of_parseUint hd hin with hplus | hdigit
      · exact absurd hplus (by decide)
      · exact absurd hdigit (by decide)
    rw [toList_eq_intercalate_split _ '-', hsplit, List.map_cons, List.map_singleton,
      List.intercalate_cons_cons, List.intercalate_singleton, List.mem_append, List.mem_append]
    rintro ((hin | hin) | hin)
    · exact hnames name hname hin
    · exact absurd hin (by decide)
    · exact hsecs hin

theorem comma_notMem_reconfig {reconfig : String} {b : Bool} (h : parseReconfig (toLowercase reconfig) = .ok b) :
    ',' ∉ reconfig.toList := by
  refine comma_notMem_of_toLowercase ?_
  unfold parseReconfig at h
  split_ifs at h with hoff hnodes
  · rw [hoff]
    decide
  · rcases hnodes with hw | hw <;> rw [hw] <;> decide

/-! ### The way from the master to a client -/

theorem comma_toList : ",".toList = [','] := rfl

theorem split_intercalate {fields : List String} (hne : fields ≠ []) (h : ∀ f ∈ fields, ',' ∉ f.toList) :
    split (",".intercalate fields) ',' = fields := by
  have htexts : ∀ l ∈ fields.map String.toList, ',' ∉ l := by
    intro l hl
    obtain ⟨f, hf, rfl⟩ := List.mem_map.mp hl
    exact h f hf
  unfold split
  rw [String.toList_intercalate, comma_toList, List.splitOn_intercalate ',' htexts (by simpa using hne)]
  simp [Function.comp_def]

theorem length_split_intercalate_ne {fields : List String} {f : String} (hf : f ∈ fields) (hcomma : ',' ∈ f.toList) :
    (split (",".intercalate fields) ',').length ≠ fields.length := by
  unfold split
  rw [String.toList_intercalate, comma_toList, List.length_map]
  have hlen := length_splitOn_intercalate_ne (List.mem_map_of_mem (f := String.toList) hf) hcomma
  rwa [List.length_map] at hlen

/-- A printed number has no unit. -/
theorem beforeMs_toString (n : ℕ) : beforeMs (toString n) = toString n := by
  unfold beforeMs
  rw [splitAtText_of_notMem (notMem_toString (by decide) n), List.headD_cons, List.nil_append, String.ofList_toList]

theorem parseField_toString {n : ℕ} (h : n < 2 ^ 64) (what : String) : parseField (toString n) what = .ok n := by
  unfold parseField
  rw [parseUint_toString h]

/-- The numbers of the parameters are `u64`s. -/
structure ClientParamsDeser.Fits (c : ClientParamsDeser) : Prop where
  numNodes : c.numNodes < 2 ^ 64
  concurrentProposals : c.concurrentProposals < 2 ^ 64
  electionTimeoutMs : c.electionTimeoutMs < 2 ^ 64

variable {c : ClientParamsDeser} {reconfig : String} {isReconfigExp : Bool}

theorem getDeserClientparamsAndSubdir_of_length (h : (split s ',').length ≠ 7) :
    getDeserClientparamsAndSubdir s = .error (.assertion (split s ',')) := by
  unfold getDeserClientparamsAndSubdir
  split
  · next heq =>
    rw [heq] at h
    exact absurd rfl h
  · rfl

/-- **A client unpacks what was packed** if no field has a comma. -/
theorem getDeserClientparamsAndSubdir_new (hfits : c.Fits) (halgorithm : ',' ∉ c.algorithm.toList)
    (hreconfig : parseReconfig (toLowercase reconfig) = .ok isReconfigExp)
    (hscenario : ',' ∉ c.scenario.toList) (hrun : ',' ∉ c.runId.toList) :
    getDeserClientparamsAndSubdir (ClientParams.new c reconfig).experimentStr =
      .ok ({ c with
          algorithm := toLowercase c.algorithm
          isReconfigExp := isReconfigExp
          scenario := toLowercase c.scenario },
        createMetaresultsSubDir c.numNodes c.concurrentProposals (toLowercase reconfig)) := by
  have hsplit : split (ClientParams.new c reconfig).experimentStr ',' = [c.algorithm, toString c.numNodes,
      toString c.concurrentProposals, reconfig, toString c.electionTimeoutMs, c.runId, c.scenario] := by
    refine split_intercalate (List.cons_ne_nil _ _) ?_
    simp only [List.forall_mem_cons, List.not_mem_nil, false_imp_iff, implies_true, and_true]
    have hnumber : ∀ n : ℕ, ',' ∉ (toString n).toList := notMem_toString (by decide)
    exact ⟨halgorithm, hnumber _, hnumber _, comma_notMem_reconfig hreconfig, hnumber _, hrun, hscenario⟩
  unfold getDeserClientparamsAndSubdir
  rw [hsplit]
  dsimp only
  rw [parseField_toString hfits.numNodes, parseField_toString hfits.concurrentProposals, hreconfig,
    beforeMs_toString, parseField_toString hfits.electionTimeoutMs]
  rfl

/-- A comma in the run id makes an eighth field. -/
theorem getDeserClientparamsAndSubdir_new_comma (hrun : ',' ∈ c.runId.toList) (reconfig : String) :
    ∃ fields, getDeserClientparamsAndSubdir (ClientParams.new c reconfig).experimentStr =
      .error (.assertion fields) := by
  refine ⟨_, getDeserClientparamsAndSubdir_of_length ?_⟩
  exact length_split_intercalate_ne (f := c.runId) (by simp) hrun

namespace AtomicBroadcastMaster

variable {m m' : AtomicBroadcastMaster} {c : AtomicBroadcastRequest} {numClients : ℕ}

/-- After a request is accepted by a cleared master, a client reads from the text of its reconfiguration
whether the master holds one. -/
theorem parseReconfig_reconfiguration (h : m.clearState.validateReconfiguration c numClients = (m', .ok ())) :
    parseReconfig (toLowercase c.reconfiguration) = .ok m'.reconfiguration.isSome := by
  unfold parseReconfig
  rcases validateReconfiguration_ok h with ⟨hoff, rfl⟩ | ⟨hnodes, haccepted⟩
  · rw [if_pos hoff]
    rfl
  · obtain ⟨policy, reconfig, -, hreconfig, -, rfl⟩ := validateReconfigNodes_ok haccepted
    have hoff : toLowercase c.reconfiguration ≠ "off" := by
      rintro hoff
      rw [hoff] at hnodes
      exact absurd hnodes (by decide)
    have hsome : reconfig.isSome := by
      unfold getReconfigNodes at hreconfig
      dsimp only at hreconfig
      rw [if_neg hoff] at hreconfig
      rcases hnodes with hw | hw
      · rw [if_pos hw] at hreconfig
        cases hreconfig
        rfl
      · rw [if_neg (by rw [hw]; decide), if_pos hw] at hreconfig
        cases hreconfig
        rfl
    rw [if_neg hoff, if_pos hnodes, Option.isSome_map, hsome]

/-- **The parameters survive the way from the master to a client** just when the run id has no comma. The
request is any that a cleared master accepts, and its numbers are machine words. -/
theorem setup_clientParams (h : m.clearState.validateExperimentParams c numClients = (m', .ok ()))
    (hclients : numClients < 2 ^ 32) (hproposals : c.concurrentProposals < 2 ^ 64)
    (htimeout : c.electionTimeoutMs < 2 ^ 64) (runId : String) :
    ∃ params, m.clearState.setup c numClients runId = (m', .ok params) ∧
      ((∃ r, getDeserClientparamsAndSubdir params.experimentStr = .ok r) ↔ ',' ∉ runId.toList) ∧
      ∀ cp subdir, getDeserClientparamsAndSubdir params.experimentStr = .ok (cp, subdir) →
        cp =
          { algorithm := toLowercase c.algorithm
            numNodes := c.numberOfNodes
            concurrentProposals := c.concurrentProposals
            isReconfigExp := m'.reconfiguration.isSome
            electionTimeoutMs := c.electionTimeoutMs
            runId := runId
            scenario := toLowercase c.networkScenario } := by
  obtain ⟨hle, halgorithm, m₁, scenario, hm₁, hscenario, rfl⟩ := validateExperimentParams_ok h
  have hreconfig := parseReconfig_reconfiguration hm₁
  refine ⟨_, by rw [setup, h], ?_⟩
  by_cases hrun : ',' ∈ runId.toList
  · obtain ⟨fields, hfields⟩ := getDeserClientparamsAndSubdir_new_comma
      (c := clientParams { m₁ with networkScenario := some scenario } c runId) hrun c.reconfiguration
    rw [hfields]
    exact ⟨⟨nofun, fun hno => absurd hrun hno⟩, nofun⟩
  · have hfits : (clientParams { m₁ with networkScenario := some scenario } c runId).Fits :=
      ⟨hle.trans_lt (hclients.trans (by decide)), hproposals, htimeout⟩
    rw [getDeserClientparamsAndSubdir_new hfits (comma_notMem_algorithm halgorithm) hreconfig
      (comma_notMem_networkScenario hscenario) hrun]
    refine ⟨⟨fun _ => hrun, fun _ => ⟨_, rfl⟩⟩, fun cp subdir heq => ?_⟩
    cases heq
    rfl

/-- A request for five nodes of which one is replaced. -/
def quorumLossRequest : AtomicBroadcastRequest :=
  ⟨"Paxos", 5, 60, 500, "Single", "replace-follower", "Quorum_Loss-20", 5000⟩

theorem quorumLossRequest_clientParams : ∃ m' params subdir,
    ({} : AtomicBroadcastMaster).clearState.setup quorumLossRequest 6 "run-1" = (m', .ok params) ∧
      getDeserClientparamsAndSubdir params.experimentStr =
        .ok (⟨"paxos", 5, 500, true, 5000, "run-1", "quorum_loss-20"⟩, subdir) := by
  have hvalid : ({} : AtomicBroadcastMaster).clearState.validateExperimentParams quorumLossRequest 6 =
      (⟨some 6, some (.replaceFollower, [6]), some (.quorumLoss 20), 0⟩, .ok ()) := by decide
  obtain ⟨params, hparams, hiff, hvalue⟩ := setup_clientParams hvalid (by decide) (by decide) (by decide) "run-1"
  obtain ⟨⟨cp, subdir⟩, hcp⟩ := hiff.mpr (by decide)
  refine ⟨_, params, subdir, hparams, ?_⟩
  rw [hcp, hvalue cp subdir hcp]
  rfl

end AtomicBroadcastMaster

end OmniPaxosBench.Experiment
