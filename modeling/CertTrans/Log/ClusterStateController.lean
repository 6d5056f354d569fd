import Mathlib.Data.Rat.Defs
import Mathlib.Data.String.Basic
import CertTrans.Keyed.OrderedMap
import CertTrans.Log.EtcdConsistentStore
import CertTrans.Numeric.Binary64

/-!
`ClusterStateController` (`cluster_state_controller-inl.h`): every node keeps
the newest STH each node of the cluster reports, and from them calculates the
STH the cluster can serve (`CalculateServingSTH`); the master then sets it as
the cluster's serving STH (`ClusterServingSTHUpdater` and
`EtcdConsistentStore::SetServingSTH`).

The controller is a state machine over the callbacks of its watches: node
states that join, change or leave (`OnClusterStateUpdated`), a new
`ClusterConfig` (`OnClusterConfigUpdated`), a new serving STH
(`OnServingSthUpdated`), and changes of mastership.  A `std::map` is its
entries sorted by key (`Keyed.alterD`, `List.kerase`).  The serving fraction
is the quotient rounded to a double (`Binary64.toNearest`), compared with the
value of the `double` flag.

A node whose host or port changes gets a new `ClusterPeer`; either way its
entry holds the new state, which is all `CalculateServingSTH` reads, so the
peers are their states.  The local database's tree heads, which
`OnServingSthUpdated` compares with the new serving STH and writes, are not
modelled.
-/

namespace CertTrans

/-- `ct::ClusterNodeState`, with the field the controller reads. -/
structure ClusterNodeState where
  newestSth : Option SignedTreeHead := none
deriving DecidableEq, Repr

/-- `ct::ClusterConfig`: the `int32` minimum number of serving nodes and the
value of the `double` minimum serving fraction. -/
structure ClusterConfig where
  minimumServingNodes : Int := 0
  minimumServingFraction : ℚ := 0
deriving DecidableEq, Repr

namespace ClusterStateController

open Keyed

structure State where
  clusterConfig : ClusterConfig := {}
  allPeers : List (Σ _ : String, ClusterNodeState) := []
  calculatedServingSth : Option SignedTreeHead := none
  actualServingSth : Option SignedTreeHead := none
  updateRequired : Bool := false
  /-- What `election_->IsMaster()` answers. -/
  isMaster : Bool := false
deriving DecidableEq

def toInt32 (x : Int) : Int := x.bmod (2 ^ 32)

/-- `num_nodes_by_sth_size` and `sth_by_size`. -/
abbrev Tally := List (Σ _ : Int, Nat) × List (Σ _ : Int, SignedTreeHead)

def tallyNode (tally : Tally) (node : Σ _ : String, ClusterNodeState) : Except String Tally :=
  match node.2.newestSth with
  | none => return tally
  | some newest =>
      if ¬ 0 ≤ newest.treeSize then throw "Check failed: 0 <= tree_size"
      -- the `uint64` timestamp read into an `int64_t`
      else if ¬ newest.timestamp < 2 ^ 63 then throw "Check failed: 0 <= timestamp"
      else
        return (alterD newest.treeSize 0 (· + 1) tally.1,
          alterD newest.treeSize {}
            (fun sth => if newest.timestamp > sth.timestamp then newest else sth) tally.2)

def selectServingSth (config : ClusterConfig) (numPeers : Nat) (actual : Option SignedTreeHead)
    (currentTreeSize : Int) (sthBySize : List (Σ _ : Int, SignedTreeHead)) :
    Nat → List (Σ _ : Int, Nat) → Option SignedTreeHead
  | _, [] => none
  | numNodesSeen, ⟨size, numNodes⟩ :: rest =>
      if size < currentTreeSize then none
      else
        let numNodesSeen := numNodesSeen + numNodes
        let servingFraction := Binary64.toNearest (numNodesSeen / numPeers)
        if config.minimumServingFraction ≤ servingFraction ∧
            config.minimumServingNodes ≤ numNodesSeen then
          let candidate := (sthBySize.dlookup size).getD {}
          match actual with
          | some a =>
              -- not newer than the serving STH: `continue`
              if candidate.timestamp ≤ a.timestamp then
                selectServingSth config numPeers actual currentTreeSize sthBySize numNodesSeen rest
              else some candidate
          | none => some candidate
        else selectServingSth config numPeers actual currentTreeSize sthBySize numNodesSeen rest

def calculateServingSTH (s : State) : Except String State := do
  let (numNodesBySthSize, sthBySize) ← s.allPeers.foldlM tallyNode ([], [])
  let currentTreeSize := toInt32 ((s.calculatedServingSth.map (·.treeSize)).getD 0)
  if ¬ 0 ≤ currentTreeSize then throw "Check failed: 0 <= current_tree_size"
  match selectServingSth s.clusterConfig s.allPeers.length s.actualServingSth currentTreeSize
      sthBySize 0 numNodesBySthSize.reverse with
  | some candidate =>
      return { s with
        calculatedServingSth := some candidate
        updateRequired := s.updateRequired || s.isMaster }
  | none => return s

def updateNode (allPeers : List (Σ _ : String, ClusterNodeState)) :
    String × Option ClusterNodeState → Except String (List (Σ _ : String, ClusterNodeState))
  | (nodeId, some state) => return alterD nodeId state (fun _ => state) allPeers
  | (nodeId, none) =>
      if nodeId ∈ allPeers.keys then return allPeers.kerase nodeId
      else throw "Check failed: static_cast<size_t>(1) == all_peers_.erase(node_id)"

def onClusterStateUpdated (s : State) (updates : List (String × Option ClusterNodeState)) :
    Except String State := do
  let allPeers ← updates.foldlM updateNode s.allPeers
  calculateServingSTH { s with allPeers }

def onClusterConfigUpdated (s : State) : Option ClusterConfig → Except String State
  | none => return s
  | some config => calculateServingSTH { s with clusterConfig := config }

/-- `OnServingSthUpdated`: a serving STH of timestamp `0` is ignored. -/
def onServingSthUpdated (s : State) : Option SignedTreeHead → State
  | none => { s with actualServingSth := none }
  | some sth => if sth.timestamp = 0 then s else { s with actualServingSth := some sth }

inductive Event
  | clusterStateUpdated (updates : List (String × Option ClusterNodeState))
  | clusterConfigUpdated (config : Option ClusterConfig)
  | servingSthUpdated (sth : Option SignedTreeHead)
  | masterChanged (isMaster : Bool)
deriving DecidableEq

def step (s : State) : Event → Except String State
  | .clusterStateUpdated updates => onClusterStateUpdated s updates
  | .clusterConfigUpdated config => onClusterConfigUpdated s config
  | .servingSthUpdated sth => return onServingSthUpdated s sth
  | .masterChanged isMaster => return { s with isMaster }

def run (s : State) (events : List Event) : Except String State :=
  events.foldlM step s

def clusterServingSTHUpdater (s : State) (store : EtcdState) : Except String (State × EtcdState) :=
  if ¬ s.updateRequired then return (s, store)
  else
    match s.calculatedServingSth with
    | none => throw "'calculated_serving_sth_.get()' Must be non NULL"
    | some localSth => do
        let s := { s with updateRequired := false }
        if s.isMaster then
          match ← EtcdConsistentStore.setServingSTH store localSth with
          | .ok store => return (s, store)
          | .error _ => return (s, store)
        else return (s, store)

end ClusterStateController

end CertTrans
