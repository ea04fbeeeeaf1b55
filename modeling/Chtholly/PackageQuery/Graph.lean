import Mathlib.Algebra.Group.Nat.Defs
import Chtholly.Scanning.Text
import Mathlib.Data.List.Basic
import Mathlib.Data.List.Sort

/-!
# The graph of package queries

A build asks one query for each package.  The queries and their dependencies are the nodes of a
graph.  Workers take ready nodes and report how their queries ended, and the graph finds out which
nodes become ready.

## Main definitions

* `PackageQuery.CompilerPackageQueryGraph` — the graph with the state of its nodes.
* `PackageQuery.CompilerPackageQueryGraph.verify` — the checks of a graph.
* `initializeGraph`, `takeReadyQuery`, `markSucceeded`, `markFailed`, `blockUnfinished` — the calls.
* `PackageQuery.CompilerPackageQueryGraph.perform` — one of the calls after the first.
-/

set_option autoImplicit false

namespace Chtholly

namespace PackageQuery

/-- The place of a node in the vector.  The source keeps it in 32 bits; the largest value names no
node. -/
abbrev PackageQueryId := ℕ

def invalidIndex : PackageQueryId := 2 ^ 32 - 1

/-- The names of packages as bytes. -/
abbrev Name := List Char

inductive PackageQueryState
  | pending
  | ready
  | running
  | succeeded
  | failed
  | blocked
  deriving DecidableEq

structure PackageQueryNode where
  packageName : Name
  dependencies : List PackageQueryId := []
  dependents : List PackageQueryId := []
  remainingDependencies : ℕ := 0
  state : PackageQueryState := .pending
  deriving DecidableEq

/-- The members of `ready_`. -/
abbrev ReadyEntry := Name × PackageQueryId

/-- The order of `std::pair`. -/
def ReadyEntry.le (a b : ReadyEntry) : Bool :=
  decide (a.1 < b.1) || (decide (a.1 = b.1) && decide (a.2 ≤ b.2))

/-- `std::set::emplace`, with the set as a sorted list. -/
def emplace (entry : ReadyEntry) (ready : List ReadyEntry) : List ReadyEntry :=
  if entry ∈ ready then ready else ready.orderedInsert (fun a b => ReadyEntry.le a b = true) entry

structure CompilerPackageQueryGraph where
  nodes : List PackageQueryNode
  ready : List ReadyEntry := []
  completedCount : ℕ := 0
  initialized : Bool := false
  deriving DecidableEq

namespace CompilerPackageQueryGraph

def node (graph : CompilerPackageQueryGraph) (id : PackageQueryId) : PackageQueryNode :=
  graph.nodes.getD id { packageName := [] }

def setNode (graph : CompilerPackageQueryGraph) (id : PackageQueryId) (node : PackageQueryNode) :
    CompilerPackageQueryGraph :=
  { graph with nodes := graph.nodes.set id node }

def validId (graph : CompilerPackageQueryGraph) (id : PackageQueryId) : Bool :=
  decide (id ≠ invalidIndex) && decide (id < graph.nodes.length)

/-! ## The checks -/

/-- The dependencies of the node `id`, where `unique` are those before. -/
def checkDependencies (graph : CompilerPackageQueryGraph) (id : PackageQueryId) :
    List PackageQueryId → List PackageQueryId → Bool
  | _, [] => true
  | unique, dependency :: rest =>
    if graph.validId dependency = false ∨ dependency = id ∨ dependency ∈ unique then false
    else graph.checkDependencies id (dependency :: unique) rest

/-- The nodes from `index` on, where `packageNames` are the names before. -/
def checkNodes (graph : CompilerPackageQueryGraph) :
    List Name → PackageQueryId → List PackageQueryNode → Except String Unit
  | _, _, [] => .ok ()
  | packageNames, index, node :: rest =>
    if node.packageName = [] ∨
        node.packageName.any (fun ch => ch == '\t' || ch == '\r' || ch == '\n') = true ∨
        node.packageName ∈ packageNames then
      .error "compiler package query graph has an invalid package identity"
    else if graph.checkDependencies index [] node.dependencies = false then
      .error "compiler package query graph contains an invalid dependency"
    else graph.checkNodes (node.packageName :: packageNames) (index + 1) rest

/-- `dependents[dependency].push_back(id)` for each dependency of a node. -/
def pushDependents (id : PackageQueryId) (dependents : List (List PackageQueryId))
    (dependencies : List PackageQueryId) : List (List PackageQueryId) :=
  dependencies.foldl (fun dependents dependency =>
    dependents.modify dependency (· ++ [id])) dependents

/-- The reverse edges. -/
def dependentsOf : List PackageQueryNode → PackageQueryId → List (List PackageQueryId) →
    List (List PackageQueryId)
  | [], _, dependents => dependents
  | node :: rest, index, dependents =>
    dependentsOf rest (index + 1) (pushDependents index dependents node.dependencies)

/-- One node of the walk of `verify`: its dependents count down. -/
def countDown (graph : CompilerPackageQueryGraph) :
    List PackageQueryId → List ℕ → List ReadyEntry → List ℕ × List ReadyEntry
  | [], remaining, ready => (remaining, ready)
  | dependent :: rest, remaining, ready =>
    let left := remaining.getD dependent 0 - 1
    graph.countDown rest (remaining.set dependent left)
      (if left = 0 then emplace ((graph.node dependent).packageName, dependent) ready else ready)

/-- The walk of `verify` over the nodes that are ready.  Every turn visits a node, so the number of
nodes bounds the turns. -/
def walk (graph : CompilerPackageQueryGraph) (dependents : List (List PackageQueryId)) :
    ℕ → List ℕ → List ReadyEntry → ℕ → Option ℕ
  | _, _, [], visited => some visited
  | 0, _, _ :: _, _ => none
  | turns + 1, remaining, (_, id) :: ready, visited =>
    let next := graph.countDown (dependents.getD id []) remaining ready
    graph.walk dependents turns next.1 next.2 (visited + 1)

/-- The nodes of a range that nothing is missing for. -/
def readyAtFirst (graph : CompilerPackageQueryGraph) (remaining : PackageQueryId → ℕ) :
    List PackageQueryId → List ReadyEntry → List ReadyEntry
  | [], ready => ready
  | id :: rest, ready =>
    graph.readyAtFirst remaining rest
      (if remaining id = 0 then emplace ((graph.node id).packageName, id) ready else ready)

/-- `verify`.  The reverse edges are collected in the loop of the checks in the source. -/
def verify (graph : CompilerPackageQueryGraph) : Except String Unit :=
  if 2 ^ 32 - 1 < graph.nodes.length then
    .error "compiler package query graph has too many nodes"
  else
    match graph.checkNodes [] 0 graph.nodes with
    | .error message => .error message
    | .ok _ =>
      let dependents := dependentsOf graph.nodes 0 (List.replicate graph.nodes.length [])
      let remaining := graph.nodes.map fun node => node.dependencies.length
      let ready := graph.readyAtFirst (fun id => remaining.getD id 0)
        (List.range graph.nodes.length) []
      if graph.walk dependents graph.nodes.length remaining ready 0 = some graph.nodes.length then
        .ok ()
      else .error "compiler package query graph contains a dependency cycle"

/-! ## The calls -/

/-- The node before its query may be asked. -/
def reset (node : PackageQueryNode) : PackageQueryNode :=
  { node with
    dependents := []
    remainingDependencies := node.dependencies.length
    state := .pending }

/-- A node is ready when it waits for nothing. -/
def makeReady (graph : CompilerPackageQueryGraph) : List PackageQueryId →
    CompilerPackageQueryGraph
  | [] => graph
  | id :: rest =>
    let node := graph.node id
    if node.remainingDependencies = 0 then
      makeReady
        { graph.setNode id { node with state := .ready } with
          ready := emplace (node.packageName, id) graph.ready } rest
    else makeReady graph rest

/-- `nodes_[dependency].dependents_.push_back(id)` for each node. -/
def connect (nodes : List PackageQueryNode) : List PackageQueryNode :=
  let dependents := dependentsOf nodes 0 (List.replicate nodes.length [])
  nodes.zipWith (fun node dependents => { node with dependents := dependents }) dependents

/-- `initialize`. -/
def initializeGraph (graph : CompilerPackageQueryGraph) :
    CompilerPackageQueryGraph × Except String Unit :=
  if graph.initialized = true then
    (graph, .error "compiler package query graph is already initialized")
  else
    match graph.verify with
    | .error message => (graph, .error message)
    | .ok _ =>
      let next : CompilerPackageQueryGraph :=
        { nodes := connect (graph.nodes.map reset)
          ready := []
          completedCount := 0
          initialized := false }
      ({ next.makeReady (List.range graph.nodes.length) with initialized := true }, .ok ())

def takeReadyQuery (graph : CompilerPackageQueryGraph) :
    CompilerPackageQueryGraph × Option PackageQueryId :=
  match graph.initialized, graph.ready with
  | true, (_, id) :: ready =>
    ({ graph.setNode id { graph.node id with state := .running } with ready := ready }, some id)
  | _, _ => (graph, none)

/-- The walk of `markSucceeded` over the dependents.  It stops at the first that is not pending. -/
def release (graph : CompilerPackageQueryGraph) : List PackageQueryId →
    CompilerPackageQueryGraph × Except String Unit
  | [] => (graph, .ok ())
  | dependent :: rest =>
    let node := graph.node dependent
    if node.state ≠ .pending ∨ node.remainingDependencies = 0 then
      (graph, .error "compiler package query graph has an invalid dependency state")
    else
      let left := node.remainingDependencies - 1
      if left = 0 then
        release
          { graph.setNode dependent { node with remainingDependencies := left, state := .ready } with
            ready := emplace (node.packageName, dependent) graph.ready } rest
      else release (graph.setNode dependent { node with remainingDependencies := left }) rest

/-- The node of a query that ended. -/
def complete (graph : CompilerPackageQueryGraph) (id : PackageQueryId) (state : PackageQueryState) :
    CompilerPackageQueryGraph :=
  { graph.setNode id { graph.node id with state := state } with
    completedCount := graph.completedCount + 1 }

def markSucceeded (graph : CompilerPackageQueryGraph) (id : PackageQueryId) :
    CompilerPackageQueryGraph × Except String Unit :=
  if graph.initialized = false ∨ graph.validId id = false ∨ (graph.node id).state ≠ .running then
    (graph, .error "compiler package query graph rejected an invalid success transition")
  else (graph.complete id .succeeded).release (graph.node id).dependents

def markFailed (graph : CompilerPackageQueryGraph) (id : PackageQueryId) :
    CompilerPackageQueryGraph × Except String Unit :=
  if graph.initialized = false ∨ graph.validId id = false ∨ (graph.node id).state ≠ .running then
    (graph, .error "compiler package query graph rejected an invalid failure transition")
  else (graph.complete id .failed, .ok ())

/-- A node that cannot be taken any more. -/
def block (node : PackageQueryNode) : PackageQueryNode :=
  if node.state = .pending ∨ node.state = .ready then { node with state := .blocked } else node

def blockUnfinished (graph : CompilerPackageQueryGraph) : CompilerPackageQueryGraph :=
  { graph with ready := [], nodes := graph.nodes.map block }

/-- The calls after `initializeGraph`. -/
inductive Call
  | takeReadyQuery
  | markSucceeded (id : PackageQueryId)
  | markFailed (id : PackageQueryId)
  | blockUnfinished
  deriving DecidableEq

/-- What a call returns. -/
inductive Reply
  | taken (id : Option PackageQueryId)
  | done
  | refused (message : String)
  deriving DecidableEq

def Reply.ofResult : Except String Unit → Reply
  | .ok _ => .done
  | .error message => .refused message

def perform (graph : CompilerPackageQueryGraph) : Call → CompilerPackageQueryGraph × Reply
  | .takeReadyQuery => (graph.takeReadyQuery.1, .taken graph.takeReadyQuery.2)
  | .markSucceeded id => ((graph.markSucceeded id).1, .ofResult (graph.markSucceeded id).2)
  | .markFailed id => ((graph.markFailed id).1, .ofResult (graph.markFailed id).2)
  | .blockUnfinished => (graph.blockUnfinished, .done)

end CompilerPackageQueryGraph

end PackageQuery

end Chtholly
