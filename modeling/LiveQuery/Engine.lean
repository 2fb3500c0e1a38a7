import LiveQuery.Draw.ChaCha
import LiveQuery.Network.Cache
import LiveQuery.Network.Change
import LiveQuery.Plan.Planner
import LiveQuery.Schedule.Firing

/-!
# The rule engine

An engine joins a network and a scheduler.  Matches that appear or disappear in the network are
reported to the rules on their query, and the changes that jobs ask for go back into the network.
What the checks of the network answer may depend on the host of the jobs.
-/

namespace LiveQuery

/-- A network and a scheduler, with the rules on every query in the order of their addition. -/
structure Engine (σ : Type) where
  network : Network
  hints : Hints
  matchers : MatcherCache
  scheduler : Scheduler σ
  routes : Table QueryId (List RuleId)

/-- The event that an appearing or disappearing match is for a rule. -/
def EventKind.ofMatch : MatchEventKind → EventKind
  | .appeared => .appeared
  | .disappeared => .disappeared

/-- Reports one event to some rules, in order. -/
def Scheduler.notifyAll {σ : Type} (scheduler : Scheduler σ) (rules : List RuleId)
    (tuple : Tuple) (event : EventKind) : Except Error (Scheduler σ) :=
  rules.foldlM (fun scheduler rule => scheduler.notify rule tuple event) scheduler

/-- Reports events of the network to the rules on their queries, in order. -/
def Scheduler.route {σ : Type} (routes : Table QueryId (List RuleId)) (scheduler : Scheduler σ)
    (events : List MatchEvent) : Except Error (Scheduler σ) :=
  events.foldlM (fun scheduler event =>
    scheduler.notifyAll ((routes.get? event.query).getD []) event.tuple (.ofMatch event.kind))
    scheduler

namespace Engine

variable {σ : Type}

/-- An engine without queries, rules and facts. -/
def new [Draw.Generator] (network : NetworkId) (hints : Hints) (policy : Policy)
    (order : BucketOrder) (host : σ) : Engine σ where
  network := .new network
  hints := hints
  matchers := .empty
  scheduler := .new policy order host
  routes := .empty

/-- Installs the query of some bodies, unless it is known already. -/
def installQuery (checks : σ → Checks) (engine : Engine σ) (bodies : List Body) :
    Engine σ × Except Error QueryId :=
  let (matchers, network, query) := engine.matchers.getOrInstall (checks engine.scheduler.host)
    engine.network bodies (Plan.ofBodies engine.hints)
  ({ engine with matchers, network }, query)

/-- The query that a rule names: one that was installed by the engine, or else any query of the
network. -/
def findQuery? (engine : Engine σ) (name : String) : Option QueryId :=
  (engine.matchers.find? engine.network.id name).or (engine.network.findQuery? name)

/-- Adds a rule, for which every present match of its query appears. -/
def addRule (engine : Engine σ) (rule : Rule σ) : Except Error (Engine σ × RuleId) := do
  let some query := engine.findQuery? rule.query | throw (.unknownQuery rule.query)
  let present ← engine.network.matchesOf query
  let (scheduler, id) := engine.scheduler.addRule rule
  let scheduler ← present.toList.foldlM (·.notify id · .appeared) scheduler
  let routes := engine.routes.insert query ((engine.routes.get? query).getD [] ++ [id])
  return ({ engine with scheduler, routes }, id)

/-- Applies changes to a network until one fails, and reports the events of those before it. -/
def applyRouted (checks : σ → Checks) (routes : Table QueryId (List RuleId)) :
    Scheduler.Applier Network σ := fun network scheduler changes =>
  let (network, events, failure) := network.applyUntilFailure (checks scheduler.host) changes
  match scheduler.route routes events with
  | .error error => (network, scheduler, .error error)
  | .ok scheduler => (network, scheduler, match failure with
    | some error => .error error
    | none => .ok ())

/-- Applies changes one at a time until one fails; the rules learn of those before it. -/
def apply (checks : σ → Checks) (engine : Engine σ) (changes : List FactChange) :
    Engine σ × Except Error Unit :=
  let (network, scheduler, result) :=
    applyRouted checks engine.routes engine.network engine.scheduler changes
  ({ engine with network, scheduler }, result)

/-- Rebuilds the network and reports the difference to the rules. -/
def reset (checks : σ → Checks) (engine : Engine σ) : Engine σ × Except Error Unit :=
  match engine.network.reset (checks engine.scheduler.host) with
  | (network, .error error) => ({ engine with network }, .error error)
  | (network, .ok events) =>
    match engine.scheduler.route engine.routes events with
    | .error error => ({ engine with network }, .error error)
    | .ok scheduler => ({ engine with network, scheduler }, .ok ())

/-- Fires activations until none is left; the changes of each job are applied right after it, and
the activations that they cause fire in the same run. -/
def fireAll (turns : Nat) (checks : σ → Checks) (engine : Engine σ) : Engine σ × RunOutcome :=
  let (network, scheduler, outcome) := Scheduler.runWith turns (applyRouted checks engine.routes)
    engine.network engine.scheduler
  ({ engine with network, scheduler }, outcome)

end Engine
end LiveQuery
