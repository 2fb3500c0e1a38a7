import LiveQuery.Proofs.Pattern.Signature

/-!
# Repeated requests

A cache that answered a request knows the query under the name and the signatures of its bodies,
and keeps knowing it until the network is evicted (`MatcherCache.Knows.uses`).  A later request
under the name is refused or gets that query.  Signatures are all that is compared, so the query is
the right one as long as they tell the bodies apart (`MatcherCache.request_again`): names have to be
plain, and every check needs a name of its own (`MatcherCache.request_otherCheck`).
-/

namespace LiveQuery

theorem Table.get?_filter {κ ν : Type} [DecidableEq κ] (table : Table κ ν) {key : κ}
    {test : κ × ν → Bool} (kept : ∀ value, test (key, value) = true) :
    Table.get? ⟨table.entries.filter test⟩ key = table.get? key := by
  unfold Table.get?
  rw [List.find?_filter]
  congr 2
  funext entry
  by_cases same : entry.1 = key
  · subst same
    simp [kept entry.2]
  · simp [same]

/-- The lists of bodies denote the same query: bodies in the same places have the same number of
parameters, and the same tuples match one of the bodies, whatever the facts are. -/
structure SameQuery (checks : Checks) (first second : List Body) : Prop where
  arities : first.map (·.parameters.length) = second.map (·.parameters.length)
  matched : ∀ facts tuple, (∃ body ∈ first, body.Matches checks facts .empty [] tuple) ↔
    ∃ body ∈ second, body.Matches checks facts .empty [] tuple

/-- Plain bodies are told apart by their signatures if checks are told apart by their names. -/
theorem sameQuery_of_signatures (checks : Checks) {meaning : String → CheckId}
    {first second : List Body} (plain : ∀ body ∈ first ++ second, body.Plain)
    (calls : ∀ body ∈ first ++ second, body.Calls meaning)
    (same : first.map Body.signature = second.map Body.signature) :
    SameQuery checks first second := by
  induction first generalizing second with
  | nil =>
    rw [List.map_nil, eq_comm, List.map_eq_nil_iff] at same
    subst same
    exact ⟨rfl, fun _ _ => .rfl⟩
  | cons body rest ih =>
    cases second with
    | nil => cases same
    | cons other others =>
      obtain ⟨signature, signatures⟩ := List.cons.inj same
      have later := ih (fun body member => plain body (by grind))
        (fun body member => calls body (by grind)) signatures
      have here := Body.matches_iff_of_signature checks (plain body (by simp))
        (plain other (by simp)) (calls body (by simp)) (calls other (by simp)) signature
      refine ⟨?_, fun facts tuple => ?_⟩
      · rw [List.map_cons, List.map_cons, here.1, later.arities]
      · simp only [List.exists_mem_cons_iff, here.2 facts tuple, later.matched facts tuple]

namespace MatcherCache

/-! ## Requests -/

section Requests

variable {checks : Checks} {cache : MatcherCache} {network : Network} {bodies : List Body}
  {plan : List Body → Except Error (List Plan)} {body : Body} {query : QueryId}

/-- Under a known name, the signatures decide between the known query and a refusal. -/
theorem getOrInstall_known (head : bodies.head? = some body) {cached : CachedQuery}
    (found : cache.get? (network.id, body.query) = some cached) :
    cache.getOrInstall checks network bodies plan = (cache, network,
      if cached.signature = bodies.map Body.signature then .ok cached.query
      else .error (.invalidBody
        s!"query {body.query} is already installed with different bodies")) := by
  unfold getOrInstall
  rw [head]
  dsimp only
  rw [found]
  dsimp only
  split <;> rfl

/-- Under an unknown name, nothing is remembered of a request that fails. -/
theorem getOrInstall_unknown (checks : Checks) (plan : List Body → Except Error (List Plan))
    (head : bodies.head? = some body)
    (unknown : cache.get? (network.id, body.query) = none) :
    (∃ error, (cache.getOrInstall checks network bodies plan).2.2 = .error error ∧
      (cache.getOrInstall checks network bodies plan).1 = cache) ∨
    ∃ query, (cache.getOrInstall checks network bodies plan).2.2 = .ok query ∧
      (cache.getOrInstall checks network bodies plan).1 =
        cache.insert (network.id, body.query) ⟨query, bodies.map Body.signature⟩ := by
  unfold getOrInstall
  rw [head]
  dsimp only
  rw [unknown]
  dsimp only
  split
  next error _ => exact .inl ⟨error, rfl, rfl⟩
  next plans _ =>
    split
    next changed error _ => exact .inl ⟨error, rfl, rfl⟩
    next changed query _ => exact .inr ⟨query, rfl, rfl⟩

/-- The cache knows the query under the name and the signatures of the bodies. -/
def Knows (cache : MatcherCache) (network : NetworkId) (bodies : List Body) (query : QueryId) :
    Prop :=
  ∃ body, bodies.head? = some body ∧
    cache.get? (network, body.query) = some ⟨query, bodies.map Body.signature⟩

theorem knows_of_answered
    (answered : (cache.getOrInstall checks network bodies plan).2.2 = .ok query) :
    Knows (cache.getOrInstall checks network bodies plan).1 network.id bodies query := by
  cases head : bodies.head? with
  | none =>
    unfold getOrInstall at answered
    rw [head] at answered
    cases answered
  | some body =>
    refine ⟨body, head, ?_⟩
    cases found : cache.get? (network.id, body.query) with
    | some cached =>
      rw [getOrInstall_known head found] at answered ⊢
      dsimp only at answered ⊢
      split at answered
      next same =>
        cases answered
        rw [found, ← same]
      next => cases answered
    | none =>
      rcases getOrInstall_unknown checks plan head found with
        ⟨error, failed, _⟩ | ⟨other, done, known⟩
      · rw [failed] at answered
        cases answered
      · rw [done] at answered
        cases answered
        rw [known, Table.get?_insert, if_pos rfl]

end Requests

/-! ## Between two requests -/

/-- What is done with a cache. -/
inductive Use where
  | request (checks : Checks) (network : Network) (bodies : List Body)
      (plan : List Body → Except Error (List Plan))
  | evict (network : NetworkId)

/-- The cache after it is used. -/
def after (cache : MatcherCache) : Use → MatcherCache
  | .request checks network bodies plan => (cache.getOrInstall checks network bodies plan).1
  | .evict network => cache.evict network

variable {cache : MatcherCache} {network : NetworkId} {bodies first second : List Body}
  {query : QueryId}

/-- Nothing but the eviction of its network makes a cache forget a query. -/
theorem Knows.after (knows : cache.Knows network bodies query) {use : Use}
    (kept : use ≠ .evict network) : (cache.after use).Knows network bodies query := by
  obtain ⟨body, head, found⟩ := knows
  refine ⟨body, head, ?_⟩
  cases use with
  | evict other =>
    rw [← found]
    exact Table.get?_filter cache fun _ => decide_eq_true fun same => kept (congrArg _ same.symm)
  | request checks other others plan =>
    unfold MatcherCache.after
    dsimp only
    cases next : others.head? with
    | none =>
      unfold getOrInstall
      rwa [next]
    | some start =>
      cases known : cache.get? (other.id, start.query) with
      | some cached =>
        rw [getOrInstall_known next known]
        exact found
      | none =>
        rcases getOrInstall_unknown checks plan next known with
          ⟨_, _, same⟩ | ⟨_, _, same⟩
        · rwa [same]
        · rw [same, Table.get?_insert, if_neg, found]
          intro equal
          rw [equal, known] at found
          cases found

theorem Knows.uses (knows : cache.Knows network bodies query) (uses : List Use)
    (kept : .evict network ∉ uses) :
    (uses.foldl MatcherCache.after cache).Knows network bodies query := by
  induction uses generalizing cache with
  | nil => exact knows
  | cons use rest ih =>
    exact ih (knows.after fun same => kept (same ▸ List.mem_cons_self))
      fun member => kept (List.mem_cons_of_mem _ member)

/-! ## Repeated requests -/

/-- A request under the name of a query that was answered is refused or gets the same query.  If the
names of variables and checks tell them apart, it gets the query only if its bodies denote it. -/
theorem request_again {checks : Checks} {network : Network}
    {plan : List Body → Except Error (List Plan)}
    (answered : (cache.getOrInstall checks network first plan).2.2 = .ok query)
    (uses : List Use) (kept : .evict network.id ∉ uses)
    (laterChecks : Checks) (later : Network) (sameNetwork : later.id = network.id)
    (second : List Body) (sameName : second.head?.map (·.query) = first.head?.map (·.query))
    (laterPlan : List Body → Except Error (List Plan))
    {meaning : String → CheckId} (plain : ∀ body ∈ first ++ second, body.Plain)
    (calls : ∀ body ∈ first ++ second, body.Calls meaning) :
    let known := uses.foldl MatcherCache.after (cache.getOrInstall checks network first plan).1
    known.getOrInstall laterChecks later second laterPlan = (known, later, .ok query) ∧
        (∀ checks, SameQuery checks first second) ∨
      ∃ detail, known.getOrInstall laterChecks later second laterPlan =
        (known, later, .error (.invalidBody detail)) := by
  intro known
  obtain ⟨body, head, found⟩ := (knows_of_answered answered).uses uses kept
  rw [head, Option.map_some] at sameName
  obtain ⟨other, otherHead, name⟩ := Option.map_eq_some_iff.mp sameName
  rw [← name, ← sameNetwork] at found
  rw [getOrInstall_known otherHead found]
  split
  next same => exact .inl ⟨rfl, fun checks => sameQuery_of_signatures checks plain calls same⟩
  next => exact .inr ⟨_, rfl⟩

/-- The edges of a relation. -/
def edges : Body :=
  ⟨⟨"edges", 0, ["x", "y"], [.relation ⟨0⟩ [⟨0⟩, ⟨1⟩] []], [⟨0⟩, ⟨1⟩], {}⟩, by decide⟩

/-- The edges of the relation again, with a key and with the variables the other way round. -/
def keyedEdges : Body :=
  ⟨⟨"edges", 0, ["y", "x"], [.relation ⟨0⟩ [⟨1⟩, ⟨0⟩] [0]], [⟨1⟩, ⟨0⟩], {}⟩, by decide⟩

theorem plain_edges : ∀ body ∈ [edges] ++ [keyedEdges], body.Plain := by
  have first : IsName "x" := isName_of_head (by decide) (by decide) (by simp)
  have second : IsName "y" := isName_of_head (by decide) (by decide) (by simp)
  have ends : edges.Plain :=
    ⟨by decide, by simp [edges, first, second], by simp [edges]⟩
  have keyed : keyedEdges.Plain :=
    ⟨by decide, by simp [keyedEdges, first, second], by simp [keyedEdges]⟩
  simp [ends, keyed]

/-- The first request, in a network without facts. -/
def edgesRequest : MatcherCache × Network × Except Error QueryId :=
  getOrInstall (fun _ _ => .ok true) .empty (.new ⟨0⟩) [edges] (Plan.ofBodies {})

theorem request_again_edges : edgesRequest.2.2 = .ok ⟨0⟩ ∧
    ((edgesRequest.1.evict ⟨1⟩).getOrInstall (fun _ _ => .ok true) edgesRequest.2.1 [keyedEdges]
      (Plan.ofBodies {})).2.2 = .ok ⟨0⟩ ∧
    ∀ checks, SameQuery checks [edges] [keyedEdges] := by
  have answered : edgesRequest.2.2 = .ok ⟨0⟩ := of_decide_eq_true (by decide +kernel)
  have hit : ((edgesRequest.1.evict ⟨1⟩).getOrInstall (fun _ _ => .ok true) edgesRequest.2.1
      [keyedEdges] (Plan.ofBodies {})).2.2 = .ok ⟨0⟩ := of_decide_eq_true (by decide +kernel)
  have sameNetwork : edgesRequest.2.1.id = (Network.new ⟨0⟩).id :=
    of_decide_eq_true (by decide +kernel)
  have calls : ∀ body ∈ [edges] ++ [keyedEdges], body.Calls fun _ => ⟨0⟩ := by
    simp [Body.Calls, edges, keyedEdges]
  have again := request_again answered [.evict ⟨1⟩] (by simp [Network.new]) (fun _ _ => .ok true)
    edgesRequest.2.1 sameNetwork [keyedEdges] rfl (Plan.ofBodies {}) plain_edges calls
  refine ⟨answered, hit, (again.resolve_right ?_).2⟩
  rintro ⟨detail, refused⟩
  have failed := hit.symm.trans (congrArg (fun result => result.2.2) refused)
  cases failed

/-- The values of a relation that pass a check called positive. -/
def positive (check : CheckId) : Body :=
  ⟨⟨"k", 0, ["x"], [.relation ⟨0⟩ [⟨0⟩] [], .check "positive" check [⟨0⟩]], [⟨0⟩], {}⟩, rfl⟩

/-- The first check accepts what is greater than zero, all others what is greater than five. -/
def limits : Checks := fun check row =>
  .ok (match row with
    | [.int number] => if check = ⟨0⟩ then decide (0 < number) else decide (5 < number)
    | _ => false)

/-- A check with the name of another one is taken for it: the request gets a query that its bodies
do not denote. -/
theorem request_otherCheck : ∃ known network,
    getOrInstall limits .empty (.new ⟨0⟩) [positive ⟨0⟩] (Plan.ofBodies {}) =
      (known, network, .ok ⟨0⟩) ∧
    (known.getOrInstall limits network [positive ⟨1⟩] (Plan.ofBodies {})).2.2 = .ok ⟨0⟩ ∧
    ¬SameQuery limits [positive ⟨0⟩] [positive ⟨1⟩] := by
  have answered : (getOrInstall limits .empty (.new ⟨0⟩) [positive ⟨0⟩] (Plan.ofBodies {})).2.2 =
      .ok ⟨0⟩ := of_decide_eq_true (by decide +kernel)
  refine ⟨_, _, Prod.ext rfl (Prod.ext rfl answered), of_decide_eq_true (by decide +kernel), ?_⟩
  rintro ⟨_, matched⟩
  -- three is greater than zero and not greater than five
  have three : (positive ⟨0⟩).Matches limits ⟨[⟨⟨0⟩, [.int 3]⟩]⟩ .empty [] [.int 3] := by
    refine ⟨fun _ => .int 3, ?_, .nil, rfl⟩
    simp [positive, Constraint.Holds, FactStore.Has, limits]
  obtain ⟨body, listed, values, holds, _, same⟩ :=
    (matched ⟨[⟨⟨0⟩, [.int 3]⟩]⟩ [.int 3]).mp ⟨_, List.mem_singleton.mpr rfl, three⟩
  obtain rfl := List.mem_singleton.mp listed
  have value : Value.int 3 = values ⟨0⟩ := (List.cons.inj same).1
  have accepted := holds (.check "positive" ⟨1⟩ [⟨0⟩]) (by simp [positive])
  simp [Constraint.Holds, limits, ← value] at accepted

end MatcherCache
end LiveQuery
