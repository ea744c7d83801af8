import HermesRun.Lib.Bitfield

namespace HermesRun

open Bitfield

abbrev NodeId := ℕ

/-- `hash_` is copied and serialised but compared by no operation, so it is left out. -/
structure UniqueId where
  nodeId : NodeId
  unique : ℕ
  deriving DecidableEq, Repr

def UniqueId.isNull (i : UniqueId) : Bool := i.nodeId == 0

def UniqueId.getNull : UniqueId := ⟨0, 0⟩

abbrev TaskStateId := UniqueId
abbrev QueueId := UniqueId
abbrev TaskId := UniqueId

structure DomainId where
  flags : Flags
  id : NodeId
  deriving DecidableEq, Repr

namespace DomainId

def kLocal : Flags := bitOpt 0
def kGlobal : Flags := bitOpt 1
def kSet : Flags := bitOpt 2
def kNode : Flags := bitOpt 3

def isRemote (d : DomainId) (numHosts : ℕ) (thisNode : NodeId) : Bool :=
  if numHosts = 1 then false
  else any d.flags (kGlobal ||| kSet) || (any d.flags kNode && d.id != thisNode)

def isNode (d : DomainId) : Bool := any d.flags kNode
def isGlobal (d : DomainId) : Bool := any d.flags kGlobal
def isSet (d : DomainId) : Bool := any d.flags kSet

def getLocal : DomainId := ⟨setBits 0#32 kLocal, 0⟩
def getNode (k : NodeId) : DomainId := ⟨setBits 0#32 kNode, k⟩
def getNodeWithLocal (k : NodeId) : DomainId := ⟨setBits 0#32 kLocal, k⟩
def getGlobal : DomainId := ⟨setBits 0#32 kGlobal, 0⟩
def getSet (s : NodeId) : DomainId := ⟨setBits 0#32 kSet, s⟩
def getSetWithLocal (s : NodeId) : DomainId := ⟨setBits 0#32 (kSet ||| kLocal), s⟩

theorem isRemote_getNode (n k this : ℕ) :
    (getNode k).isRemote n this = true ↔ n ≠ 1 ∧ k ≠ this := by
  have h1 : any (setBits 0#32 kNode) (kGlobal ||| kSet) = false := by decide
  have h2 : any (setBits 0#32 kNode) kNode = true := by decide
  simp [isRemote, getNode, h1, h2]

theorem isRemote_getLocal (n this : ℕ) : getLocal.isRemote n this = false := by
  have h1 : any (setBits 0#32 kLocal) (kGlobal ||| kSet) = false := by decide
  have h2 : any (setBits 0#32 kLocal) kNode = false := by decide
  simp [isRemote, getLocal, h1, h2]

theorem isRemote_getGlobal (n this : ℕ) : getGlobal.isRemote n this = true ↔ n ≠ 1 := by
  have h1 : any (setBits 0#32 kGlobal) (kGlobal ||| kSet) = true := by decide
  simp [isRemote, getGlobal, h1]

end DomainId

/-- `Runtime::ResolveDomainId` over the hosts `1..n`; named sets resolve to nothing. -/
def resolveDomainId (n : ℕ) (d : DomainId) : List DomainId :=
  if d.isGlobal then (List.range n).map (fun k => DomainId.getNode (k + 1))
  else if d.isNode then [d]
  else []

theorem resolveDomainId_getGlobal (n : ℕ) :
    resolveDomainId n DomainId.getGlobal = (List.range n).map (fun k => DomainId.getNode (k + 1)) := by
  have h : DomainId.getGlobal.isGlobal = true := by decide
  rw [resolveDomainId, if_pos h]

theorem resolveDomainId_getNode (n k : ℕ) : resolveDomainId n (DomainId.getNode k) = [DomainId.getNode k] := by
  have h1 : any (setBits 0#32 DomainId.kNode) DomainId.kGlobal = false := by decide
  have h2 : any (setBits 0#32 DomainId.kNode) DomainId.kNode = true := by decide
  simp [resolveDomainId, DomainId.isGlobal, DomainId.isNode, DomainId.getNode, h1, h2]

end HermesRun
