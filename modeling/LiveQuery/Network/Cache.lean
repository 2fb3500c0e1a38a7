import LiveQuery.Network.Install

/-!
# The cache of installed queries

Remembers which queries were installed into which network, so that a repeated request for a query
reuses its production.  A request under a known name must bring bodies of the same signature, which
is the written form of their parameters and constraints.
-/

namespace LiveQuery

/-- A query with the signature of the bodies it was installed from. -/
structure CachedQuery where
  query : QueryId
  signature : List String
  deriving DecidableEq, Repr

/-- The queries known by network and name. -/
abbrev MatcherCache := Table (NetworkId × String) CachedQuery

/-- The written form of the parameters and constraints of a body. -/
def Body.signature (body : Body) : String :=
  "[" ++ body.listNames body.parameters ++ "] " ++
    ", ".intercalate (body.numbered.map fun (id, _) => body.describe id)

namespace MatcherCache

/-- The query known under a name in a network. -/
def find? (cache : MatcherCache) (network : NetworkId) (name : String) : Option QueryId :=
  (cache.get? (network, name)).map CachedQuery.query

/-- The query that some bodies define: the known one, or a new one that is planned, installed and
remembered. -/
def getOrInstall (checks : Checks) (cache : MatcherCache) (network : Network) (bodies : List Body)
    (plan : List Body → Except Error (List Plan)) :
    MatcherCache × Network × Except Error QueryId :=
  match bodies.head? with
  | none => (cache, network, .error (.invalidBody "a query needs at least one body"))
  | some first =>
    let key := (network.id, first.query)
    let signature := bodies.map Body.signature
    match cache.get? key with
    | some cached =>
      if cached.signature = signature then (cache, network, .ok cached.query)
      else (cache, network,
        .error (.invalidBody s!"query {first.query} is already installed with different bodies"))
    | none =>
      match plan bodies with
      | .error error => (cache, network, .error error)
      | .ok plans =>
        match network.install checks plans with
        | (network, .error error) => (cache, network, .error error)
        | (network, .ok query) => (cache.insert key ⟨query, signature⟩, network, .ok query)

/-- Forgets the queries of a network. -/
def evict (cache : MatcherCache) (network : NetworkId) : MatcherCache :=
  ⟨cache.entries.filter fun entry => entry.1.1 ≠ network⟩

end MatcherCache
end LiveQuery
