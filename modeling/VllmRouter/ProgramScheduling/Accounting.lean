import VllmRouter.ProgramScheduling.State

/-!
# Capacity accounting and binding candidates (`program_scheduling/scheduler.rs`)

What a rank is taken to use, from fresh backend observations or from the
router's own ledger, the candidates of an initial binding, and the observation
epochs that rebase the ledger.
-/

namespace VllmRouter.ProgramScheduling

/-! ## Observations -/

structure ObservationCheckpoint where
  ledgerCheckpoint : Rat
  activeReasoningPrograms : Nat
  activeReasoningRequests : Nat
  activeReasoningPrivateTokens : Rat
  activeActingPrivateTokens : Rat

/-- Router-side fence captured before backend observation I/O. -/
structure BackendObservationEpoch where
  targetSnapshotRevision : Nat
  checkpoints : Dict TargetId ObservationCheckpoint

/-- One raw backend observation. -/
structure BackendObservation where
  targetId : TargetId
  kvCacheUsage : Option Rat
  runningRequests : Option Nat
  waitingRequests : Option Nat
  observedAt : Instant

namespace ProgramScheduler

variable (self : ProgramScheduler)

/-- Private tokens as the policy accounts them. -/
def tokensOf (decision : ProgramDecisionState) : Rat :=
  decision.privateTokens self.config.progressTtl.decodeBufferTokens

/-! ## Usage of a rank -/

def observationIsFresh (observation : RankObservationState) (now : Instant) : Bool :=
  observation.observedAt.any fun observedAt =>
    decide (now.saturatingDurationSince observedAt ≤ self.config.metricsInterval * 3)

variable (env : Env) (s : ProgramSchedulerState)

def observedTargetUsage (targetId : TargetId) (now : Instant) : Option Rat :=
  ((s.observations.lookup targetId).filter fun o => self.observationIsFresh o now).bind fun o =>
    o.estimatedActiveProgramTokens.map fun tokens => max (tokens + o.activeProgramTokenDelta) 0

/-- The Active Programs placed on a rank. -/
def activeOn (targetId : TargetId) : List RuntimeProgramView :=
  (s.runtime.iterViews env.programOrder).filter fun program =>
    decide (program.state = .active ∧ program.placement = some targetId)

def targetUsage (targetId : TargetId) (now : Instant) : Rat :=
  match self.observedTargetUsage s targetId now with
  | some tokens => tokens
  | none => ((activeOn env s targetId).filterMap fun program =>
      (s.decisions.lookup program.reference).map self.tokensOf).sum

def capacityAccountingSource (observation : Option RankObservationState) (now : Instant) :
    CapacityAccountingSource :=
  match observation with
  | none => .routerLedgerMissingObservation
  | some observation =>
    match observation.observedAt with
    | none => .routerLedgerMissingObservation
    | some observedAt =>
      if self.config.metricsInterval * 3 < now.saturatingDurationSince observedAt then
        .routerLedgerStaleObservation
      else if observation.estimatedActiveProgramTokens = none then
        .routerLedgerMissingTokenEstimate
      else .backendObservation

/-- The keys of a sorted map, in order. -/
def sortedKeys {V : Type} (m : Dict String V) : List String := m.keys.insertionSort (· ≤ ·)

def reportCapacityAccountingTransitions (now : Instant) : ProgramSchedulerState :=
  (sortedKeys s.targets).foldl (fun s targetId =>
    let source := self.capacityAccountingSource (s.observations.lookup targetId) now
    s.modifyObservation targetId fun o => { o with reportedCapacitySource := some source }) s

/-! ## Initial binding -/

structure BindingRuntimeSummary where
  accountedPrograms : Nat
  accountedTokens : Rat
  pendingNewProgramTokens : Rat
  activePrograms : Nat
  routerUsage : Rat

/-- The load that the live Programs put on one target. -/
def bindingSummary (views : List RuntimeProgramView) (targetId : TargetId) :
    BindingRuntimeSummary :=
  let placed := views.filter fun program =>
    decide (program.state = .active ∧ program.placement = some targetId)
  let bound := views.filterMap fun program =>
    ((s.decisions.lookup program.reference).filter fun decision =>
      decide (decision.lastTarget = some targetId)).map fun decision => (program, decision)
  let accounted := bound.filter fun (program, _) =>
    decide (program.state = .active ∨ program.status = .reasoning)
  let pending := bound.filter fun (program, decision) =>
    decide (program.state = .paused ∧ program.status = .reasoning ∧ program.placement = none
      ∧ 0 < program.waitingRequests ∧ decision.completedRequests = 0)
  { accountedPrograms := accounted.length
    accountedTokens := (accounted.map fun (_, decision) => self.tokensOf decision).sum
    pendingNewProgramTokens := (pending.map fun (_, decision) => self.tokensOf decision).sum
    activePrograms := placed.length
    routerUsage := (placed.filterMap fun program =>
      (s.decisions.lookup program.reference).map self.tokensOf).sum }

variable (identity : ProgramIdentity)

/-- One candidate per target of the Program's model pool. -/
def bindingCandidates (now : Instant) : List ProgramBindingCandidate :=
  match s.modelTargets.lookup identity.modelPool with
  | none => []
  | some targetIds =>
    let views := s.runtime.iterViews env.programOrder
    let estimatedContextTokens := ((views.filter fun program =>
      decide (program.reference.modelPool = identity.modelPool
        ∧ program.reference.programId = identity.programId)).getLast?.map
          RuntimeProgramView.estimatedContextTokens).getD 0
    let requiredTokens : Rat :=
      ((estimatedContextTokens + self.config.progressTtl.decodeBufferTokens : Nat) : Rat)
    let capacity := self.config.progressTtl.tokenCapacity
    targetIds.map fun targetId =>
      let summary := self.bindingSummary s views targetId
      let targetUsage := (self.observedTargetUsage s targetId now).getD summary.routerUsage
      { targetId := targetId
        accountedPrograms := summary.accountedPrograms
        accountedTokens := summary.accountedTokens
        capacityTokens := capacity
        kvPressure := match capacity with
          | none => 0
          | some capacity =>
            if capacity = 0 then 1
            else min (max ((targetUsage + summary.pendingNewProgramTokens) / capacity) 0) 1
        immediatelyAdmissible :=
          decide (summary.activePrograms + 1 ≤ self.config.maxActiveProgramsPerTarget) &&
            capacity.all fun capacity =>
              decide (targetUsage + requiredTokens
                ≤ capacity * self.config.progressTtl.lowWatermarkRatio) }

/-- Bind a Program of the pool, with the oracle of this lock section. -/
def bind (routingText : Option String) (now : Instant) :
    ProgramSchedulerState × Option TargetId :=
  let candidates := self.bindingCandidates env s identity now
  let (bindings, target) :=
    s.bindings.bind ⟨self.fbiHash, env.matchedChars⟩ identity candidates routingText
  ({ s with bindings := bindings }, target)

/-- Refresh the decision of a known Program. -/
def refreshed (estimatedContextTokens : Nat)
    (decision : ProgramDecisionState) : ProgramDecisionState :=
  let decision := if decision.estimatedContextTokens ≤ estimatedContextTokens then
      { decision with
        estimatedContextTokens := estimatedContextTokens, contextShrinkObservations := 0 }
    else decision
  { decision with outputTokenReservation := identity.requestHints.expectedOutputTokens }

/-- The decision of a new Program. -/
def freshDecision (homeTarget : Option TargetId)
    (estimatedContextTokens : Nat) (now : Instant) : ProgramDecisionState :=
  { ProgramDecisionState.new identity.placementKey identity.placementHashKey homeTarget
      estimatedContextTokens now with
    outputTokenReservation := identity.requestHints.expectedOutputTokens }

/-- Refresh the decision of a known Program, or bind a new one. -/
def ensureDecisionState (reference : ProgramRef)
    (estimatedContextTokens : Nat) (now : Instant) (routingText : Option String) :
    ProgramSchedulerState :=
  match s.decisions.lookup reference with
  | some decision =>
    { s with
      decisions := s.decisions.insert reference
        (refreshed identity estimatedContextTokens decision) }
  | none =>
    let (s, homeTarget) := self.bind env s identity routingText now
    { s with
      decisions := s.decisions.insert reference
        (freshDecision identity homeTarget estimatedContextTokens now) }

/-! ## Observation epochs -/

/-- What the router knows about a rank before the scrape. -/
def checkpoint (targetId : TargetId) : ObservationCheckpoint :=
  let active := activeOn env s targetId
  let reasoning := active.filter fun program => decide (program.status = .reasoning)
  let acting := active.filter fun program => decide (program.status = .acting)
  let tokens (programs : List RuntimeProgramView) : Rat := (programs.filterMap fun program =>
    (s.decisions.lookup program.reference).map self.tokensOf).sum
  { ledgerCheckpoint :=
      ((s.observations.lookup targetId).map RankObservationState.activeProgramTokenDelta).getD 0
    activeReasoningPrograms := reasoning.length
    activeReasoningRequests := (reasoning.map RuntimeProgramView.inFlightRequests).sum
    activeReasoningPrivateTokens := tokens reasoning
    activeActingPrivateTokens := tokens acting }

/-- Capture the router ledger before a metrics scrape begins. -/
def beginObservation (targets : List ProgramTarget) : BackendObservationEpoch where
  targetSnapshotRevision := s.targetSnapshotRevision
  checkpoints := targets.foldl (fun checkpoints target =>
    checkpoints.insert target.id (self.checkpoint env s target.id)) ∅

/-- Install one raw observation over its checkpoint. -/
def applyObservation (checkpoint : ObservationCheckpoint) (raw : BackendObservation) :
    ProgramSchedulerState :=
  let nativeUsedTokens : Option Rat := match raw.kvCacheUsage,
      self.config.progressTtl.tokenCapacity with
    | some usage, some capacity => some (usage * capacity)
    | _, _ => none
  let estimatedReasoningTokens : Option Rat := nativeUsedTokens.map fun nativeUsed =>
    let running := raw.runningRequests.getD 0
    if 0 < running then
      nativeUsed * ((max checkpoint.activeReasoningPrograms running : Nat) : Rat) / running
    else if 0 < checkpoint.activeReasoningPrograms then checkpoint.activeReasoningPrivateTokens
    else nativeUsed
  s.modifyObservation raw.targetId fun o =>
    { o with
      activeProgramTokenDelta := o.activeProgramTokenDelta - checkpoint.ledgerCheckpoint
      kvCacheUsage := raw.kvCacheUsage
      runningRequests := raw.runningRequests
      waitingRequests := raw.waitingRequests
      routerActiveReasoningPrograms := checkpoint.activeReasoningPrograms
      routerActiveReasoningRequests := checkpoint.activeReasoningRequests
      estimatedActiveReasoningTokens := estimatedReasoningTokens
      estimatedActiveProgramTokens := estimatedReasoningTokens.map fun reasoning =>
        reasoning + checkpoint.activeActingPrivateTokens
      observedAt := some raw.observedAt }

/-- Install raw observations; an epoch of another target topology is dropped. -/
def applyObservations (epoch : BackendObservationEpoch) (observations : List BackendObservation) :
    ProgramSchedulerState :=
  if epoch.targetSnapshotRevision ≠ s.targetSnapshotRevision then s
  else
    observations.foldl (fun s raw =>
      match epoch.checkpoints.lookup raw.targetId with
      | none => s
      | some checkpoint =>
        if (s.targets.lookup raw.targetId).isNone then s
        else self.applyObservation s checkpoint raw) s

end ProgramScheduler

end VllmRouter.ProgramScheduling
