import LiveQuery.Engine
import LiveQuery.Proofs.Engine.Routing
import LiveQuery.Proofs.Network.Install
import LiveQuery.Proofs.Plan.Exact

/-!
# Rules and the names of their queries

A rule names its query.  An engine remembers every query under its name (`Engine.Named`), so that
the name of a rule always leads to the query that the rule was put on, whatever is installed later.

A query has the name that its plans have, which is the name of their bodies (`name_of_install`,
`Plan.query_of_ofBodies`), and it is the same name that the cache was asked for when the query was
installed.  An install either finds the name and changes nothing, or puts the new query under a name
that led nowhere before (`installQuery_cases`), so no name ever leads to another query than it did
(`Named.install`).  A rule is put on the query that its name leads to at that time (`addRule_ok`).
-/

namespace LiveQuery

/-! ## The name of an installed query -/

namespace Network

variable {checks : Checks} {network changed : Network} {plans : List Plan} {query : QueryId}

theorem build_registers (checks : Checks) (network : Network) (name : String) (arity : Nat)
    (plans : List Plan) :
    (build checks name arity plans).Ensures network
      (fun _ changed => ∃ earlier production,
        changed.queries = earlier ++ [(⟨name, production, arity⟩ : InstalledQuery)])
      (fun _ _ => True) := by
  have ends {α : Type} (computation : Building α) (network : Network) :
      computation.Ensures network (fun _ _ => True) (fun _ _ => True) := by
    unfold Building.Ensures
    split <;> trivial
  refine Building.Ensures.bind (ends _ _) fun tops changed _ => ?_
  refine Building.Ensures.bind (ends _ _) fun production final _ => ?_
  exact ⟨final.queries, production, rfl⟩

theorem name_of_install (wired : network.Wired)
    (installed : network.install checks plans = (changed, .ok query)) :
    ∃ first added, plans.head? = some first ∧ changed.id = network.id ∧
      changed.queries = network.queries ++ [added] ∧ added.name = first.body.query := by
  obtain ⟨name, production, arity, fields, _⟩ := (Installed.of_install wired installed).installed
  have queries : changed.queries = network.queries ++ [⟨name, production, arity⟩] := by rw [fields]
  obtain ⟨demandedName, demandedArity, demanded, ran⟩ := run_of_install installed
  obtain ⟨earlier, registered, same⟩ :=
    (build_registers checks network demandedName demandedArity plans).of_ok ran
  rw [queries] at same
  have last := (List.append_inj' same rfl).2
  cases last
  obtain ⟨first, head, rfl, _⟩ := head_of_demandInstall demanded
  exact ⟨first, _, head, by rw [fields], queries, rfl⟩

end Network

theorem Plan.query_of_ofBodies {hints : Hints} {bodies : List Body} {plans : List Plan}
    (planned : Plan.ofBodies hints bodies = .ok plans) {first : Body} {head : Plan}
    (body : bodies.head? = some first) (plan : plans.head? = some head) :
    head.body.query = first.query := by
  unfold Plan.ofBodies at planned
  cases bodies with
  | nil => cases body
  | cons only rest =>
    cases body
    obtain ⟨_, _, planned⟩ := ok_of_bind planned
    rw [List.mapM_cons] at planned
    obtain ⟨firstPlan, firstPlanned, planned⟩ := ok_of_bind planned
    obtain ⟨others, _, planned⟩ := ok_of_bind planned
    cases planned
    cases plan
    obtain ⟨_, _, sameBody, _⟩ := ofBodyAdorned_ok firstPlanned
    rw [sameBody]

namespace Engine

variable {σ : Type} {engine : Engine σ}

/-- The name of every rule leads to the query that it was put on. -/
structure Named (engine : Engine σ) : Prop where
  cached : ∀ place query, engine.network.queries[place]? = some query →
    engine.matchers.find? engine.network.id query.name = some ⟨place⟩
  inside : ∀ name query, engine.matchers.find? engine.network.id name = some query →
    query.index < engine.network.queries.length
  routed : ∀ number rule, engine.scheduler.rule? number = some rule → ∃ query,
    engine.matchers.find? engine.network.id rule.query = some query ∧
      number ∈ Scheduler.routedTo engine.routes query

theorem named_new [Draw.Generator] (network : NetworkId) (hints : Hints) (policy : Policy)
    (order : BucketOrder) (host : σ) : (new network hints policy order host).Named where
  cached place query found := by cases found
  inside name query found := by cases found
  routed number rule found := by cases found

/-- A name is looked up in the same way wherever it is found. -/
theorem Named.findQuery?_eq_some (named : engine.Named) {name : String} {query : QueryId} :
    engine.findQuery? name = some query ↔
      engine.matchers.find? engine.network.id name = some query := by
  unfold findQuery?
  rw [Option.or_eq_some_iff, or_iff_left]
  rintro ⟨unknown, found⟩
  obtain ⟨place, located, rfl⟩ := Option.map_eq_some_iff.mp found
  obtain ⟨inside, same, _⟩ := List.findIdx?_eq_some_iff_getElem.mp located
  have cached := named.cached place _ (List.getElem?_eq_getElem inside)
  rw [of_decide_eq_true same, unknown] at cached
  cases cached

/-- Names do not depend on activations, facts and matches. -/
theorem Named.congr (named : engine.Named) {after : Engine σ}
    (network : after.network.id = engine.network.id ∧ after.network.queries = engine.network.queries)
    (matchers : after.matchers = engine.matchers) (routes : after.routes = engine.routes)
    (rules : after.scheduler.rules = engine.scheduler.rules) : after.Named := by
  obtain ⟨cached, inside, routed⟩ := named
  unfold Scheduler.rule? at routed
  rw [← network.1, ← matchers] at cached inside routed
  rw [← network.2] at cached inside
  rw [← routes, ← rules] at routed
  exact ⟨cached, inside, routed⟩

/-- What installing a query does to an engine: nothing, or the network has one more query, which is
remembered under its name. -/
theorem installQuery_cases (checks : σ → Checks) (wired : engine.network.Wired)
    (bodies : List Body) :
    (engine.installQuery checks bodies).1 = engine ∨
    ∃ plans network query cached added, (engine.installQuery checks bodies).1 =
        { engine with
          network := network
          matchers := engine.matchers.insert (engine.network.id, added.name) cached } ∧
      engine.network.install (checks engine.scheduler.host) plans = (network, .ok query) ∧
      cached.query = ⟨engine.network.queries.length⟩ ∧
      engine.matchers.find? engine.network.id added.name = none ∧
      network.id = engine.network.id ∧
      network.queries = engine.network.queries ++ [added] := by
  unfold installQuery MatcherCache.getOrInstall
  cases head : bodies.head? with
  | none => exact .inl rfl
  | some first =>
    dsimp only
    cases known : engine.matchers.get? (engine.network.id, first.query) with
    | some cached =>
      dsimp only
      split <;> exact .inl rfl
    | none =>
      dsimp only
      cases planned : Plan.ofBodies engine.hints bodies with
      | error error => exact .inl rfl
      | ok plans =>
        dsimp only
        cases installed : engine.network.install (checks engine.scheduler.host) plans with
        | mk network answer =>
          cases answer with
          | error error =>
            have spec := Network.install_spec (checks engine.scheduler.host) wired plans
            rw [installed] at spec
            subst spec
            exact .inl rfl
          | ok query =>
            obtain ⟨plan, added, plansHead, sameId, queries, name⟩ :=
              Network.name_of_install wired installed
            have spec := Network.install_spec (checks engine.scheduler.host) wired plans
            rw [installed] at spec
            rw [Plan.query_of_ofBodies planned head plansHead] at name
            refine .inr ⟨plans, network, query, ⟨query, bodies.map Body.signature⟩, added, ?_,
              installed, spec.query, ?_, sameId, queries⟩
            · rw [name]
            · rw [name, MatcherCache.find?, known]
              rfl

theorem find?_insert (matchers : MatcherCache) (network : NetworkId) (name other : String)
    (cached : CachedQuery) :
    MatcherCache.find? (matchers.insert (network, name) cached) network other =
      if other = name then some cached.query else matchers.find? network other := by
  unfold MatcherCache.find?
  rw [Table.get?_insert]
  simp only [Prod.mk.injEq, true_and]
  split <;> rfl

theorem Named.install (named : engine.Named) {network : Network} {cached : CachedQuery}
    {added : InstalledQuery} (place : cached.query = ⟨engine.network.queries.length⟩)
    (unknown : engine.matchers.find? engine.network.id added.name = none)
    (id : network.id = engine.network.id)
    (queries : network.queries = engine.network.queries ++ [added]) :
    Named { engine with
      network := network
      matchers := engine.matchers.insert (engine.network.id, added.name) cached } where
  cached index query found := by
    dsimp only at found ⊢
    rw [queries] at found
    rw [id, find?_insert]
    rcases Nat.lt_or_ge index engine.network.queries.length with old | new
    · rw [List.getElem?_append_left old] at found
      have known := named.cached index query found
      rw [if_neg fun same => ?_, known]
      rw [← same, known] at unknown
      cases unknown
    · rw [List.getElem?_append_right new, List.getElem?_singleton] at found
      split at found
      next last =>
        cases found
        rw [if_pos rfl, place, show index = engine.network.queries.length by omega]
      next => cases found
  inside name query found := by
    dsimp only at found ⊢
    rw [id, find?_insert] at found
    rw [queries, List.length_append]
    split at found
    · cases found
      rw [place]
      exact Nat.lt_succ_self _
    · exact Nat.lt_succ_of_lt (named.inside name query found)
  routed number rule known := by
    obtain ⟨query, found, listed⟩ := named.routed number rule known
    refine ⟨query, ?_, listed⟩
    dsimp only
    rw [id, find?_insert, if_neg fun same => ?_, found]
    rw [← same, found] at unknown
    cases unknown

/-! ## The names of rules -/

/-- A rule that is added is told of the present matches of its query. -/
theorem addRule_ok {after : Engine σ} {rule : Rule σ} {number : RuleId}
    (added : engine.addRule rule = .ok (after, number)) :
    ∃ query present told, engine.findQuery? rule.query = some query ∧
      engine.network.matchesOf query = .ok present ∧
      present.toList.foldlM (·.notify (engine.scheduler.addRule rule).2 · .appeared)
        (engine.scheduler.addRule rule).1 = .ok told ∧
      after = { engine with
        scheduler := told
        routes := engine.routes.insert query (Scheduler.routedTo engine.routes query ++
          [(engine.scheduler.addRule rule).2]) } := by
  unfold addRule at added
  cases found : engine.findQuery? rule.query with
  | none => rw [found] at added; cases added
  | some query =>
    rw [found] at added
    obtain ⟨present, current, added⟩ := ok_of_bind added
    obtain ⟨told, reached, added⟩ := ok_of_bind added
    cases added
    exact ⟨query, present, told, rfl, current, reached, rfl⟩

theorem Named.addRule (named : engine.Named) {rule : Rule σ} {query : QueryId}
    {told : Scheduler σ} (found : engine.findQuery? rule.query = some query)
    (rules : told.rules = engine.scheduler.rules ++ [rule]) :
    Named { engine with
      scheduler := told
      routes := engine.routes.insert query (Scheduler.routedTo engine.routes query ++
        [(engine.scheduler.addRule rule).2]) } where
  cached := named.cached
  inside := named.inside
  routed number other known := by
    have known : (engine.scheduler.addRule rule).1.rule? number = some other := by
      rw [← known, Scheduler.rule?, Scheduler.rule?]
      exact congrArg (·[number.index]?) rules.symm
    dsimp only
    rcases Scheduler.rule?_addRule_cases known with old | ⟨rfl, rfl⟩
    · obtain ⟨about, named, listed⟩ := named.routed number other old
      exact ⟨about, named, Scheduler.mem_routedTo_insert.mpr (.inl listed)⟩
    · refine ⟨query, named.findQuery?_eq_some.mp found, ?_⟩
      exact Scheduler.mem_routedTo_insert.mpr (.inr ⟨rfl, rfl⟩)

end Engine
end LiveQuery
