import Cmusic.MempoolLinks
import Cmusic.Lib.CachedWalk

/-! The statistics that the entries of the memory pool keep about their ancestors and descendants. -/
namespace Cmusic

open Std

/-- The number of transactions of a package, their virtual size and their modified fees. -/
@[ext] structure PackageStats where
  count : Int
  size : Int
  modFees : CAmount
  deriving DecidableEq

namespace PackageStats

instance : Add PackageStats :=
  ⟨fun a b => ⟨a.count + b.count, a.size + b.size, a.modFees + b.modFees⟩⟩

instance : Zero PackageStats := ⟨⟨0, 0, 0⟩⟩

instance : Neg PackageStats := ⟨fun a => ⟨-a.count, -a.size, -a.modFees⟩⟩

instance : AddCommGroup PackageStats where
  add_assoc a b c := PackageStats.ext (Int.add_assoc _ _ _) (Int.add_assoc _ _ _)
    (Int64.add_assoc _ _ _)
  zero_add a := PackageStats.ext (Int.zero_add _) (Int.zero_add _) (Int64.zero_add _)
  add_zero a := PackageStats.ext (Int.add_zero _) (Int.add_zero _) (Int64.add_zero _)
  neg_add_cancel a := PackageStats.ext (Int.add_left_neg _) (Int.add_left_neg _)
    (Int64.add_left_neg _)
  add_comm a b := PackageStats.ext (Int.add_comm _ _) (Int.add_comm _ _) (Int64.add_comm _ _)
  nsmul := nsmulRec
  zsmul := zsmulRec

end PackageStats

def getVirtualTransactionSize (nBytesPerSigOp nWeight nSigOpCost : Nat) : Nat :=
  (max nWeight (nSigOpCost * nBytesPerSigOp) + 3) / 4

/-- `CTxMemPoolEntry`: the fee, the weight and the signature operations of a transaction, and what is
known about its package. `nTxSize` is what `GetTxSize` returns. -/
structure CTxMemPoolEntry where
  nFee : CAmount
  feeDelta : CAmount
  nTxWeight : Nat
  sigOpCost : Nat
  nTxSize : Nat
  weight_le : nTxWeight ≤ 4 * nTxSize
  withDescendants : PackageStats
  withAncestors : PackageStats
  nSigOpCostWithAncestors : Int
  deriving DecidableEq

namespace CTxMemPoolEntry

/-- The constructor: the package is the transaction itself. -/
def create (nBytesPerSigOp : Nat) (nFee : CAmount) (nTxWeight sigOpCost : Nat) : CTxMemPoolEntry where
  nFee
  feeDelta := 0
  nTxWeight
  sigOpCost
  nTxSize := getVirtualTransactionSize nBytesPerSigOp nTxWeight sigOpCost
  weight_le := by
    unfold getVirtualTransactionSize
    omega
  withDescendants := ⟨1, getVirtualTransactionSize nBytesPerSigOp nTxWeight sigOpCost, nFee⟩
  withAncestors := ⟨1, getVirtualTransactionSize nBytesPerSigOp nTxWeight sigOpCost, nFee⟩
  nSigOpCostWithAncestors := sigOpCost

variable (entry : CTxMemPoolEntry)

def getModifiedFee : CAmount := entry.nFee + entry.feeDelta

/-- What the transaction adds to the packages it belongs to. -/
def own : PackageStats := ⟨1, entry.nTxSize, entry.getModifiedFee⟩

def ownCost : PackageStats × Int := (entry.own, entry.sigOpCost)

/-- The statistics of the ancestors, with their signature operations. -/
def ancestorCost : PackageStats × Int := (entry.withAncestors, entry.nSigOpCostWithAncestors)

def updateFeeDelta (newFeeDelta : CAmount) : CTxMemPoolEntry :=
  { entry with
    withDescendants := { entry.withDescendants with
      modFees := entry.withDescendants.modFees + (newFeeDelta - entry.feeDelta) }
    withAncestors := { entry.withAncestors with
      modFees := entry.withAncestors.modFees + (newFeeDelta - entry.feeDelta) }
    feeDelta := newFeeDelta }

def updateDescendantState (modify : PackageStats) : CTxMemPoolEntry :=
  { entry with withDescendants := entry.withDescendants + modify }

def updateAncestorState (modify : PackageStats × Int) : CTxMemPoolEntry :=
  { entry with
    withAncestors := entry.withAncestors + modify.1
    nSigOpCostWithAncestors := entry.nSigOpCostWithAncestors + modify.2 }

end CTxMemPoolEntry

/-- The pool with the entries that `mapTx` keeps beside the transactions. -/
structure MeasuredPool where
  pool : CTxMemPool := {}
  entries : TreeMap UInt256 CTxMemPoolEntry := ∅
  mapDeltas : TreeMap UInt256 CAmount := ∅
  nBytesPerSigOp : Nat := 20

/-- `modify` on each of a list of entries. -/
def modifyEach (entries : TreeMap UInt256 CTxMemPoolEntry) (hashes : List UInt256)
    (change : CTxMemPoolEntry → CTxMemPoolEntry) : TreeMap UInt256 CTxMemPoolEntry :=
  hashes.foldl (fun entries hash => entries.modify hash change) entries

/-- `CalculateMemPoolAncestors` without limits, along the links of an entry. -/
def CTxMemPool.memPoolAncestors (pool : CTxMemPool) (hash : UInt256) : TreeSet UInt256 :=
  Walk.walk (fun hash => (pool.linksOf hash).parents) pool.mapTx.size (pool.linksOf hash).parents ∅

namespace MeasuredPool

variable (s : MeasuredPool)

/-- A figure of an entry; nothing where there is none. -/
def figure {M : Type} [Zero M] (f : CTxMemPoolEntry → M) (hash : UInt256) : M :=
  (s.entries[hash]?.map f).getD 0

/-- The entries with a new one, and with the fee delta of an earlier `PrioritiseTransaction`. -/
def insertEntry (hash : UInt256) (entry : CTxMemPoolEntry) : MeasuredPool :=
  let entries := s.entries.insertIfNew hash entry
  match s.mapDeltas[hash]? with
  | some delta =>
    { s with entries := if delta ≠ 0 then entries.modify hash (·.updateFeeDelta delta) else entries }
  | none => { s with entries }

/-- `addUnchecked`, given the ancestors of the transaction. -/
def addUnchecked (tx : CTransaction) (entry : CTxMemPoolEntry) (setAncestors : TreeSet UInt256) :
    MeasuredPool :=
  let s := { s.insertEntry tx.hash entry with pool := s.pool.addUnchecked tx }
  let s := { s with
    entries := modifyEach s.entries setAncestors.toList
      (·.updateDescendantState (s.figure CTxMemPoolEntry.own tx.hash)) }
  { s with
    entries := s.entries.modify tx.hash
      (·.updateAncestorState (setAncestors.toList.map (s.figure CTxMemPoolEntry.ownCost)).sum) }

/-- `RemoveStaged` with `UpdateForRemoveFromMempool`: the descendants lose an ancestor, where that is
asked for, and the ancestors a descendant. -/
def removeStaged (stage : List UInt256) (updateDescendants : Bool) : MeasuredPool :=
  let entries :=
    if updateDescendants then
      stage.foldl (fun entries removed =>
        modifyEach entries ((s.pool.calculateDescendants removed ∅).erase removed).toList
          (·.updateAncestorState (-s.figure CTxMemPoolEntry.ownCost removed))) s.entries
    else s.entries
  let entries := stage.foldl (fun entries removed =>
    modifyEach entries (s.pool.memPoolAncestors removed).toList
      (·.updateDescendantState (-s.figure CTxMemPoolEntry.own removed))) entries
  { s with
    pool := s.pool.removeStaged stage
    entries := stage.foldl (fun entries removed => entries.erase removed) entries }

def removeRecursive (origTx : CTransaction) : MeasuredPool :=
  let txToRemove := if s.pool.mapTx.contains origTx.hash then [origTx.hash]
    else origTx.outpoints.filterMap fun (outpoint, _) =>
      s.pool.mapNextTx[outpoint]?.map CTransaction.hash
  s.removeStaged (s.pool.withDescendants txToRemove) false

/-- The entries that spend an output of a transaction, as `mapNextTx` has them. -/
def spenders (hash : UInt256) : List UInt256 :=
  ((s.pool.mapNextTx.toList.filter fun next => next.1.hash = hash).map fun next => next.2.hash).dedup

/-- The first half of a turn of `UpdateTransactionsFromBlock`: the links to the children that were in
the pool before. -/
def linkChildren (setAlreadyIncluded : List UInt256) (hash : UInt256) : MeasuredPool :=
  let children := (s.spenders hash).filter fun child => child ∉ setAlreadyIncluded
  { s with
    pool := { s.pool with
      mapLinks := children.foldl (fun links child =>
        CTxMemPool.updateParent (CTxMemPool.updateChild links hash (·.insert child)) child
          (·.insert hash)) s.pool.mapLinks } }

/-- `UpdateForDescendants`. -/
def updateForDescendants (cachedDescendants : TreeMap UInt256 (TreeSet UInt256))
    (setExclude : List UInt256) (updated : UInt256) :
    MeasuredPool × TreeMap UInt256 (TreeSet UInt256) :=
  let children := fun hash => (s.pool.linksOf hash).children
  let setAllDescendants :=
    CachedWalk.walk children cachedDescendants s.pool.mapTx.size (children updated) ∅
  let descendants := setAllDescendants.toList.filter fun hash => hash ∉ setExclude
  let modify := (descendants.map (s.figure CTxMemPoolEntry.own)).sum
  let entries := modifyEach s.entries descendants
    (·.updateAncestorState (s.figure CTxMemPoolEntry.ownCost updated))
  ({ s with entries := entries.modify updated (·.updateDescendantState modify) },
    descendants.foldl (fun cached hash =>
      cached.insert updated ((cached.getD updated ∅).insert hash)) cachedDescendants)

/-- The descendants that an update of an entry finds. -/
def foundBelow (cached : TreeMap UInt256 (TreeSet UInt256))
    (setExclude : List UInt256) (x : UInt256) : List UInt256 :=
  (CachedWalk.walk (fun hash => (s.pool.linksOf hash).children) cached s.pool.mapTx.size
    (s.pool.linksOf x).children ∅).toList.filter fun hash => hash ∉ setExclude

/-- `UpdateTransactionsFromBlock`, from the last transaction to the first. -/
def updateTransactionsFromBlock (hashes : List UInt256) : MeasuredPool :=
  (hashes.foldr (fun hash updating =>
    if updating.1.pool.mapTx.contains hash then
      (updating.1.linkChildren hashes hash).updateForDescendants updating.2 hashes hash
    else updating) (s, (∅ : TreeMap UInt256 (TreeSet UInt256)))).1

end MeasuredPool

/-- A transaction to be added: its fee, weight and signature operations, and its ancestors in the
pool. -/
structure PoolAddition where
  tx : CTransaction
  nFee : CAmount
  nTxWeight : Nat
  sigOpCost : Nat
  setAncestors : TreeSet UInt256 := ∅

/-- The complete operations on the pool. -/
inductive PoolOperation where
  | add (addition : PoolAddition)
  | removeRecursive (origTx : CTransaction)
  | removeStaged (stage : TreeSet UInt256)
  | confirm (hash : UInt256)
  | readd (block : List PoolAddition)

namespace MeasuredPool

variable (s : MeasuredPool)

def add (addition : PoolAddition) : MeasuredPool :=
  s.addUnchecked addition.tx (CTxMemPoolEntry.create s.nBytesPerSigOp addition.nFee addition.nTxWeight
    addition.sigOpCost) addition.setAncestors

/-- The transactions of a disconnected block come back in order, and then their hashes are updated. -/
def readd (block : List PoolAddition) : MeasuredPool :=
  (block.foldl add s).updateTransactionsFromBlock (block.map fun addition => addition.tx.hash)

def apply : PoolOperation → MeasuredPool
  | .add addition => s.add addition
  | .removeRecursive origTx => s.removeRecursive origTx
  | .removeStaged stage => s.removeStaged stage.toList false
  | .confirm hash => s.removeStaged [hash] true
  | .readd block => s.readd block

def run (operations : List PoolOperation) : MeasuredPool := operations.foldl apply s

end MeasuredPool

end Cmusic
