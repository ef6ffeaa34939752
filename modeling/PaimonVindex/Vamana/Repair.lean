import PaimonVindex.Lib.SearchTree
import PaimonVindex.Scalar
import PaimonVindex.Vamana.Adjacency

/-! The repair of the connectivity of a Vamana graph. Nodes that cannot be reached
from the entry node are hung below reachable ones, into a free slot or in the place
of an edge that the search tree does not use. -/

namespace PaimonVindex.Vamana

open Checked SearchTree

structure VamanaGraph (nodeCount capacity : Nat) where
  entryNode : Nat
  adjacency : CompactAdjacency nodeCount capacity

/-- `Vec::swap_remove`. -/
def swapRemoveAt (l : List Nat) (i : Nat) : List Nat :=
  (l.set i (l.getD (l.length - 1) 0)).dropLast

def derivedSeed (seed stream : UInt64) : UInt64 :=
  let value := seed ^^^ (stream * 0x9E3779B97F4A7C15)
  let value := (value ^^^ (value >>> 30)) * 0xBF58476D1CE4E5B9
  let value := (value ^^^ (value >>> 27)) * 0x94D049BB133111EB
  value ^^^ (value >>> 31)

def connectivitySourceSampleSize : Nat := 64

structure ConnectivityRepairStats where
  fullReachabilityTraversals : Nat
  sourceDistanceEvaluations : Nat
  edgesAdded : Nat

section Model

variable {nodeCount capacity : Nat}

def reachabilityTree (graph : VamanaGraph nodeCount capacity) : Traversal Nat :=
  drain graph.adjacency.neighbors nodeCount (start graph.entryNode)

def isRepairSource (adjacency : CompactAdjacency nodeCount capacity) (maxDegree : Nat)
    (parent : Nat → Option Nat) (source : Nat) : Bool :=
  decide ((adjacency.neighbors source).length < maxDegree) ||
    (adjacency.neighbors source).any fun neighbor => decide (parent neighbor ≠ some source)

variable {K : Type} [Scalar K] (distance : Nat → Nat → K)

structure Sample (K : Type) where
  best : Option (Nat × Nat × K)
  evaluations : Nat

/-- `distance.total_cmp(&best_distance).then_with(|| source.cmp(&best_source)).is_lt()`. -/
def betterSource (source : Nat) (value : K) : Option (Nat × Nat × K) → Bool
  | none => true
  | some (_, bestSource, bestDistance) =>
    Scalar.totalLt value bestDistance ||
      (!Scalar.totalLt bestDistance value && decide (source < bestSource))

section

variable (adjacency : CompactAdjacency nodeCount capacity)

def sampleSource (maxDegree : Nat) (parent : Nat → Option Nat) (eligible : List Nat)
    (target start : Nat) (sample : Sample K) (offset : Nat) : Sample K :=
  let index := (start + offset) % eligible.length
  let source := eligible.getD index 0
  if isRepairSource adjacency maxDegree parent source then
    let value := distance source target
    { best := if betterSource source value sample.best then some (index, source, value)
        else sample.best
      evaluations := sample.evaluations + 1 }
  else sample

def noReplaceableEdge :
    IoError := invalidData "Vamana connectivity repair found no replaceable edge"

/-- The index and the source, with the number of distances evaluated. -/
def selectRepairSource (maxDegree : Nat) (parent : Nat → Option Nat) (eligible : List Nat)
    (target edgesAdded : Nat) : IoResult ((Nat × Nat) × Nat) := do
  rejectIf (eligible = []) noReplaceableEdge
  let sampleSize := min connectivitySourceSampleSize eligible.length
  let start := (derivedSeed (UInt64.ofNat target) (UInt64.ofNat edgesAdded)).toNat % eligible.length
  let sample := (List.range sampleSize).foldl
    (sampleSource distance adjacency maxDegree parent eligible target start) ⟨none, 0⟩
  match sample.best with
  | some (index, source, _) => return ((index, source), sample.evaluations)
  | none =>
    let found := eligible.zipIdx.find? fun entry =>
      isRepairSource adjacency maxDegree parent entry.1
    match found with
    | some (source, index) => return ((index, source), sample.evaluations)
    | none => .error noReplaceableEdge

/-- The last among the largest, by distance and then by slot. -/
def fartherSlot (left right : Nat × K) : Bool :=
  Scalar.totalLt right.2 left.2 || (!Scalar.totalLt left.2 right.2 && decide (right.1 < left.1))

def maxSlot : List (Nat × K) → Option (Nat × K)
  | [] => none
  | first :: rest =>
    some (rest.foldl (fun best slot => if fartherSlot best slot then best else slot) first)

def removableSlots (neighbors : List Nat) (parent : Nat → Option Nat) (source : Nat) :
    List (Nat × K) :=
  (neighbors.zipIdx.filter fun entry => decide (parent entry.1 ≠ some source)).map fun entry =>
    (entry.2, distance entry.1 source)

/-- A full source gives up its farthest neighbour that is not its child. -/
def makeRoom (maxDegree : Nat) (parent : Nat → Option Nat) (source : Nat) :
    IoResult (CompactAdjacency nodeCount capacity) :=
  if (adjacency.neighbors source).length = maxDegree then do
    let removable ←
      okOr (maxSlot (removableSlots distance (adjacency.neighbors source) parent source))
      (panicked "eligible full source has a non-tree edge")
    adjacency.swapRemove source removable.1
  else .ok adjacency

end

structure RepairState (nodeCount capacity : Nat) where
  adjacency : CompactAdjacency nodeCount capacity
  tree : Traversal Nat
  eligibleSources : List Nat
  targetCursor : Nat
  stats : ConnectivityRepairStats

def startRepair (graph : VamanaGraph nodeCount capacity) (maxDegree : Nat) :
    RepairState nodeCount capacity :=
  let tree := reachabilityTree graph
  { adjacency := graph.adjacency
    tree := tree
    eligibleSources := (List.range nodeCount).filter fun node =>
      tree.visited node && isRepairSource graph.adjacency maxDegree tree.parent node
    targetCursor := 0
    stats := ⟨1, 0, 0⟩ }

/-- The cursor moves over at most `remaining` visited nodes. -/
def advance (visited : Nat → Bool) : (remaining cursor : Nat) → Nat
  | 0, cursor => cursor
  | remaining + 1, cursor =>
    if visited cursor then advance visited remaining (cursor + 1) else cursor

def nextTarget (s : RepairState nodeCount capacity) : Nat :=
  advance s.tree.visited (nodeCount - s.targetCursor) s.targetCursor

/-- The search is continued from the target, and the source and all newly reached
nodes are listed if they can take another edge. -/
def afterEdge (maxDegree : Nat) (s : RepairState nodeCount capacity)
    (target index source evaluations : Nat) (adjacency : CompactAdjacency nodeCount capacity) :
    RepairState nodeCount capacity :=
  let tree := drain adjacency.neighbors nodeCount (graft s.tree source target)
  { adjacency := adjacency
    tree := tree
    eligibleSources := swapRemoveAt s.eligibleSources index ++
      (source :: tree.reached).filter (isRepairSource adjacency maxDegree tree.parent)
    targetCursor := target
    stats := { s.stats with
      sourceDistanceEvaluations := s.stats.sourceDistanceEvaluations + evaluations
      edgesAdded := s.stats.edgesAdded + 1 } }

def repairTarget (maxDegree : Nat) (s : RepairState nodeCount capacity) (target : Nat) :
    IoResult (RepairState nodeCount capacity) := do
  let ((index, source), evaluations) ← selectRepairSource distance s.adjacency maxDegree
    s.tree.parent s.eligibleSources target s.stats.edgesAdded
  let roomy ← makeRoom distance s.adjacency maxDegree s.tree.parent source
  let adjacency ← roomy.push source target
  return afterEdge maxDegree s target index source evaluations adjacency

/-- `none` is a loop that is not over after `rounds` rounds. -/
def repairLoop (maxDegree : Nat) :
    (rounds : Nat) → RepairState nodeCount capacity →
    IoResult (Option (RepairState nodeCount capacity))
  | 0, _ => .ok none
  | rounds + 1, s =>
    if nextTarget s = nodeCount then .ok (some s)
    else do
      let s ← repairTarget distance maxDegree s (nextTarget s)
      repairLoop maxDegree rounds s

def repairConnectivityWithStats (graph : VamanaGraph nodeCount capacity) (maxDegree rounds : Nat) :
    IoResult (Option (VamanaGraph nodeCount capacity × ConnectivityRepairStats)) := do
  let finished ← repairLoop distance maxDegree rounds (startRepair graph maxDegree)
  return finished.map fun s => (⟨graph.entryNode, s.adjacency⟩, s.stats)

end Model

end PaimonVindex.Vamana
