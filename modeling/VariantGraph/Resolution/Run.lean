import VariantGraph.ConflictReport
import VariantGraph.Resolution.Decision

/-!
# Resolving a request

A resolution runs passes until one is stable. Between two passes it fetches the module data and the
version listings that the next pass needs; the fetches of a batch may complete in any order, and
their results are applied in key order, module data first.
-/

namespace VariantGraph

/-- A source of module data and of version listings. -/
structure Provider (ε : Type) where
  /-- The data of a module version, or `none` if there is no such version. -/
  fetch : Coordinates → Except ε (Option ModuleData)
  /-- The known versions of a module. -/
  versions : ModuleId → Except ε (List String)

/-- A call that a resolution made to its provider. -/
inductive Provider.Call where
  | fetch (id : Coordinates)
  | versions (module : ModuleId)
deriving DecidableEq, Repr

/-- The result of a resolution. -/
structure Resolution where
  graph : Graph
  conflicts : List VersionConflict
  /-- The number of passes that were run. -/
  passes : Nat
deriving DecidableEq

/-- What a resolution is run with. -/
structure Resolver (ε : Type) where
  provider : Provider ε
  schema : Schema := Schema.standard
  rules : Rules := {}
  /-- The number of passes after which a resolution gives up. -/
  maxPasses : Nat := 64
  /-- Whether the resolution is cancelled once some calls have been made. -/
  cancelled : List Provider.Call → Bool := fun _ => false

namespace Resolution

/-! ## Batches of fetches -/

/-- A completed fetch. -/
inductive Completion (ε : Type) where
  | module (id : Coordinates) (result : Except ε (Option ModuleData))
  | listing (module : ModuleId) (result : Except ε (List String))

/-- The results of a batch, in key order. -/
structure Batch (ε : Type) where
  modules : Table Coordinates (Except ε (Option ModuleData)) := Table.empty
  listings : Table ModuleId (Except ε (List String)) := Table.empty

variable {ε : Type}

/-- Files a completed fetch under its key. -/
def Batch.add (b : Batch ε) : Completion ε → Batch ε
  | .module id result => { b with modules := b.modules.insert id result }
  | .listing m result => { b with listings := b.listings.insert m result }

/-- The results of some completed fetches. -/
def gather (l : List (Completion ε)) : Batch ε := l.foldl Batch.add {}

/-- Remembers one fetched module version, after the rules on metadata. -/
def storeModule (rules : Rules) (c : Cache) (e : Coordinates × Except ε (Option ModuleData)) :
    Except ε Cache :=
  e.2.map fun data => c.insertModule e.1 (data.map rules.reviseMetadata)

/-- Remembers one listing. -/
def storeListing (c : Cache) (e : ModuleId × Except ε (List String)) : Except ε Cache :=
  e.2.map fun versions => c.insertListing e.1 versions

/-- Remembers the results of a batch; the first failure in key order is the error. -/
def Batch.store (b : Batch ε) (rules : Rules) (c : Cache) : Except ε Cache :=
  (b.modules.toList.foldlM (storeModule rules) c).bind fun c =>
    b.listings.toList.foldlM storeListing c

/-- Fetches some module versions and some listings. -/
def completions (p : Provider ε) (modules : List Coordinates) (listings : List ModuleId) :
    List (Completion ε) :=
  (modules.map fun id => .module id (p.fetch id)) ++
    listings.map fun m => .listing m (p.versions m)

/-- The calls of a batch. -/
def batchCalls (modules : List Coordinates) (listings : List ModuleId) : List Provider.Call :=
  modules.map .fetch ++ listings.map .versions

/-! ## Passes -/

/-- What a resolution has found out between two passes. -/
structure Progress where
  selections : Table ModuleId SelectedVersion := Table.empty
  cache : Cache := {}
  redirects : Table ModuleId Redirect := Table.empty
  /-- The calls made so far. -/
  calls : List Provider.Call := []

/-- How a resolution goes on after a pass. -/
inductive Step (ε : Type) where
  | done (result : Except (ResolutionError ε) Resolution)
  | again

end Resolution

open Resolution

namespace Resolver

variable {ε : Type}

/-- What the next pass depends on. -/
def situation (r : Resolver ε) (request : ResolveRequest) (p : Progress) : Situation :=
  { request := request
    schema := r.schema
    rules := r.rules
    selections := p.selections
    cache := p.cache
    redirects := p.redirects }

/-- Fetches what a walk needs and takes over the versions that it chose. -/
def fetchNeeded (r : Resolver ε) (s : Situation) (w : Walk) (p : Progress) : Progress × Step ε :=
  let modules := s.neededModules w
  let listings := s.neededListings w
  let p := { p with
    selections := s.newSelections w
    calls := p.calls ++ batchCalls modules listings }
  match (gather (completions r.provider modules listings)).store r.rules p.cache with
  | .error e => (p, .done (.error (.provider e)))
  | .ok cache => ({ p with cache := cache }, .again)

/-- Ends the resolution with the graph of a stable walk, or goes on with redirects. -/
def conclude (r : Resolver ε) (s : Situation) (w : Walk) (p : Progress) (passes : Nat) :
    Progress × Step ε :=
  match s.failure? w with
  | some e => (p, .done (.error e))
  | none =>
    match capabilityRedirects r.rules w with
    | .error e => (p, .done (.error e))
    | .ok redirects =>
      if redirects.isEmpty then
        (p, .done (.ok ⟨s.graph w, ConflictReport.ofGraph (s.graph w), passes⟩))
      else ({ p with redirects := p.redirects.merge redirects }, .again)

/-- Runs one pass, which is the one of a given number. -/
def pass (r : Resolver ε) (request : ResolveRequest) (p : Progress) (number : Nat) :
    Progress × Step ε :=
  let s := r.situation request p
  let w := s.traverse
  if s.isStable w then r.conclude s w p number else r.fetchNeeded s w p

/-- Runs passes until the resolution ends, at most a number of them. -/
def loop (r : Resolver ε) (request : ResolveRequest) :
    Nat → Progress → Except (ResolutionError ε) Resolution × List Provider.Call
  | left, p =>
    if r.cancelled p.calls then (.error .cancelled, p.calls)
    else
      match left with
      | 0 => (.error (.unstable r.maxPasses), p.calls)
      | n + 1 =>
        match r.pass request p (r.maxPasses - n) with
        | (p, .done result) => (result, p.calls)
        | (p, .again) => loop r request n p

/-- Resolves a request. The calls made to the provider come with the result. -/
def run (r : Resolver ε) (request : ResolveRequest) :
    Except (ResolutionError ε) Resolution × List Provider.Call :=
  r.loop request r.maxPasses {}

/-- Resolves a request: the whole graph, or an error and no graph. -/
def resolve (r : Resolver ε) (request : ResolveRequest) :
    Except (ResolutionError ε) Resolution :=
  (r.run request).1

end Resolver

end VariantGraph
