import Mathlib.Data.List.Basic

/-!
# Derived Program ids (`program_scheduling/identity.rs`)

A request names its Program through its context or through headers of the agent
framework. Without an explicit id the Program is named by the task or session and
the agent, joined by a colon. Ids are lists of characters; they are trimmed and not
empty when they get here, and the limit on their length is left out.
-/

namespace VllmRouter.ProgramScheduling

open List

abbrev Ident := List Char

def lead : Ident := "lead".toList

def subagent : Ident := "subagent".toList

def scopedProgramId (sessionId : Ident) (actorId : Option Ident) : Ident :=
  if sessionId ++ [':'] <+: actorId.getD lead then actorId.getD lead
  else sessionId ++ ':' :: actorId.getD lead

def normalizedAgentComponent (taskId agentId : Option Ident) : Except String (Option Ident) :=
  match agentId, taskId with
  | none, _ => .ok none
  | some agentId, none => .ok (some agentId)
  | some agentId, some taskId =>
    if taskId ++ [':'] <+: agentId then
      if agentId.drop (taskId.length + 1) = [] then
        .error "agent_id must include an agent component"
      else .ok (some (agentId.drop (taskId.length + 1)))
    else .ok (some agentId)

def relatedProgramId (programId : Ident) (agentId : Option Ident) (relatedAgentId : Ident)
    (taskId : Option Ident) : Option Ident :=
  match agentId with
  | some agentId =>
    if ':' :: agentId <:+ programId then
      some (programId.take (programId.length - (agentId.length + 1)) ++ ':' :: relatedAgentId)
    else taskId.map fun taskId => scopedProgramId taskId (some relatedAgentId)
  | none => taskId.map fun taskId => scopedProgramId taskId (some relatedAgentId)

/-- What the context says. The session, the agent and the parent agent are those of
the framework headers where the context has none. -/
structure IdentityContext where
  programId : Option Ident
  taskId : Option Ident
  /-- the context has the key, perhaps with a null -/
  hasTaskId : Bool
  sessionId : Option Ident
  agentId : Option Ident
  agentRole : Option Ident
  parentProgramId : Option Ident
  parentAgentId : Option Ident
  blocksParent : Option Bool
deriving DecidableEq, Repr

structure ResolvedIdentity where
  programId : Ident
  taskId : Option Ident
  agentId : Option Ident
  agentRole : Option Ident
  parentProgramId : Option Ident
  blocksParent : Bool
deriving DecidableEq, Repr

namespace IdentityContext

def resolvedTaskId (c : IdentityContext) : Option Ident :=
  if c.taskId.isSome || (c.programId.isSome && c.hasTaskId) then c.taskId
  else c.sessionId

/-- The agent before it is normalized. -/
def givenAgentId (c : IdentityContext) : Option Ident :=
  c.agentId.or (c.resolvedTaskId.map fun _ => lead)

end IdentityContext

def checkParent (i : ResolvedIdentity) : Except String (Option ResolvedIdentity) :=
  if i.parentProgramId = some i.programId then
    .error "parent_program_id must differ from program_id"
  else if i.blocksParent && i.parentProgramId.isNone then
    .error "blocks_parent requires parent_program_id"
  else .ok (some i)

def canonicalIdentity (c : IdentityContext) : Except String (Option ResolvedIdentity) :=
  let taskId := c.resolvedTaskId
  match normalizedAgentComponent taskId c.givenAgentId with
  | .error error => .error error
  | .ok agentId =>
    match c.programId.or (taskId.bind fun t => agentId.map fun a => scopedProgramId t (some a)) with
    | none => .ok none
    | some programId =>
      match normalizedAgentComponent taskId c.parentAgentId with
      | .error error => .error error
      | .ok parentAgentId =>
        let role := c.agentRole.or (agentId.map fun a => if a = lead then lead else subagent)
        let parentProgramId := (c.parentProgramId.or
          (parentAgentId.bind fun p => relatedProgramId programId agentId p taskId)).or
            (if role = some subagent then relatedProgramId programId agentId lead taskId else none)
        checkParent ⟨programId, taskId, agentId, role, parentProgramId,
          c.blocksParent.getD (role = some subagent)⟩

/-- The identity of a request without a context, from its headers. -/
def headerIdentity (sessionId : Ident) (actorId parentActorId : Option Ident) :
    Except String (Option ResolvedIdentity) :=
  match normalizedAgentComponent (some sessionId) actorId,
    normalizedAgentComponent (some sessionId) parentActorId with
  | .error error, _ | _, .error error => .error error
  | .ok actorId, .ok parentId =>
    let role := if actorId.getD lead = lead then lead else subagent
    .ok (some ⟨scopedProgramId sessionId actorId, some sessionId, actorId, some role,
      (parentId.map fun p => scopedProgramId sessionId (some p)).or
        (if role = subagent then some (scopedProgramId sessionId (some lead)) else none),
      role = subagent⟩)

/-- Where the identity of a request comes from. An `agent_hint` is left out: its
Program is named by the session alone. -/
inductive IdentitySource where
  | context (c : IdentityContext)
  | headers (sessionId : Ident) (actorId parentActorId : Option Ident)
deriving DecidableEq, Repr

namespace IdentitySource

def identity : IdentitySource → Except String (Option ResolvedIdentity)
  | .context c => canonicalIdentity c
  | .headers sessionId actorId parentActorId => headerIdentity sessionId actorId parentActorId

end IdentitySource

/-! ## Programs of different agents -/

lemma relatedProgramId_scoped (t a p : Ident) :
    relatedProgramId (scopedProgramId t (some a)) (some a) p (some t) =
      some (if t ++ [':'] <+: a then scopedProgramId t (some p) else t ++ ':' :: p) := by
  have hlong : ¬ ':' :: a <:+ a := fun h => Nat.not_succ_le_self _ h.length_le
  unfold relatedProgramId
  by_cases ha : t ++ [':'] <+: a
  · simp [scopedProgramId, ha, hlong]
  · simp [scopedProgramId, ha]

lemma eq_of_checkParent (h : checkParent i = .ok (some j)) : j = i := by
  unfold checkParent at h
  split_ifs at h
  cases h
  rfl

/-- What an accepted context without an explicit id resolves to. -/
lemma canonicalIdentity_derived (h : canonicalIdentity c = .ok (some i))
    (hno : c.programId = none) : ∃ t a, i.taskId = some t ∧ i.agentId = some a ∧
      i.programId = scopedProgramId t (some a) ∧
      normalizedAgentComponent (some t) c.givenAgentId = .ok (some a) ∧
      (c.parentProgramId = none → ∀ p,
        normalizedAgentComponent (some t) c.parentAgentId = .ok (some p) →
        i.parentProgramId =
          some (if t ++ [':'] <+: a then scopedProgramId t (some p) else t ++ ':' :: p)) := by
  unfold canonicalIdentity at h
  simp only [hno, Option.none_or] at h
  split at h
  · cases h
  rename_i agentId hagent
  split at h
  · cases h
  rename_i programId hderived
  obtain ⟨t, ht, hmap⟩ := Option.bind_eq_some_iff.1 hderived
  obtain ⟨a, rfl, rfl⟩ := Option.map_eq_some_iff.1 hmap
  rw [ht] at hagent h
  split at h
  · cases h
  rename_i parentAgentId hparent
  obtain rfl := eq_of_checkParent h
  refine ⟨t, a, rfl, rfl, rfl, hagent, fun hnone p hp => ?_⟩
  rw [hparent] at hp
  cases hp
  simp [hnone, relatedProgramId_scoped]

/-- A request that gives its task and its agents only. -/
def taskAgent (task agent : String) (parent : Option String) : IdentityContext :=
  ⟨none, some task.toList, true, none, some agent.toList, none, none, parent.map String.toList,
    none⟩

/-- The ids of a Program and its parent. -/
def programIds (r : IdentitySource) : Option (String × Option String) :=
  (r.identity.toOption.bind id).map fun i => (.ofList i.programId, i.parentProgramId.map .ofList)

/-- **Parent links.** The link of an agent names the Program of its parent, except
when the parent starts with the task and a colon once more and the agent does not. -/
theorem parent_link_iff {child parent : IdentityContext} {i j : ResolvedIdentity}
    (hchild : canonicalIdentity child = .ok (some i))
    (hparent : canonicalIdentity parent = .ok (some j)) (hno : child.programId = none)
    (hno' : parent.programId = none) (hlink : child.parentProgramId = none)
    (htask : i.taskId = j.taskId) (hagent : child.parentAgentId = parent.givenAgentId) :
    i.parentProgramId = some j.programId ↔ ∀ t ∈ i.taskId, ∀ a ∈ i.agentId, ∀ p ∈ j.agentId,
      t ++ [':'] <+: p → t ++ [':'] <+: a := by
  obtain ⟨t, a, ht, ha, -, -, hrelated⟩ := canonicalIdentity_derived hchild hno
  obtain ⟨t', p, ht', hp, hj, hnorm, -⟩ := canonicalIdentity_derived hparent hno'
  obtain rfl : t = t' := Option.some.inj (ht.symm.trans (htask.trans ht'))
  rw [hrelated hlink p (hagent ▸ hnorm), hj, ht, ha, hp]
  have hlong : t ++ ':' :: p ≠ p := fun h => by
    have := congrArg length h
    simp only [length_append, length_cons] at this
    omega
  by_cases ha : t ++ [':'] <+: a <;> by_cases hp : t ++ [':'] <+: p <;>
    simp [scopedProgramId, ha, hp, hlong]

theorem parent_link_lead : ∃ i j,
    canonicalIdentity (taskAgent "t" "x" (some "lead")) = .ok (some i) ∧
      canonicalIdentity (taskAgent "t" "lead" none) = .ok (some j) ∧
      i.parentProgramId = some j.programId := by
  have hchild : canonicalIdentity (taskAgent "t" "x" (some "lead")) = .ok (some ⟨"t:x".toList,
    some ['t'], some ['x'], some subagent, some "t:lead".toList, true⟩) := by decide
  have hparent : canonicalIdentity (taskAgent "t" "lead" none) = .ok (some ⟨"t:lead".toList,
    some ['t'], some lead, some lead, none, false⟩) := by decide
  exact ⟨_, _, hchild, hparent, (parent_link_iff hchild hparent rfl rfl rfl rfl rfl).2 (by decide)⟩

/-- The parent `t:t:y` of task `t` has the id `t:y`, and is linked as `t:t:y`. -/
theorem parent_link_broken :
    programIds (.context (taskAgent "t" "x" (some "t:t:y"))) = some ("t:x", some "t:t:y") ∧
      programIds (.context (taskAgent "t" "t:t:y" none)) = some ("t:y", some "t:lead") := by
  decide

end VllmRouter.ProgramScheduling
