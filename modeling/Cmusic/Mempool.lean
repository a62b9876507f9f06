import Cmusic.ConnectBlock
import Cmusic.Lib.TwoWayIndex
import Cmusic.Lib.Walk

/-! The memory pool: its transactions, the links between them and the asset maps beside them. -/
namespace Cmusic

open Std

/-- The entries of the pool an entry spends from, and those that spend from it. -/
structure TxLinks where
  parents : TreeSet UInt256 := ∅
  children : TreeSet UInt256 := ∅

/-- A map of the pool from keys to transactions together with the map the other way. -/
abbrev PoolIndex := TwoWayIndex Str UInt256 compare compare

abbrev PoolPairIndex := TwoWayIndex (Str × Str) UInt256 pairCmp compare

/-- `CTxMemPool` with the two global maps of reissues. Each index stands for two maps of the source,
which are named beside it. -/
structure CTxMemPool extends MempoolAssets where
  mapTx : TreeMap UInt256 CTransaction := ∅
  mapNextTx : TreeMap COutPoint CTransaction := ∅
  mapLinks : TreeMap UInt256 TxLinks := ∅
  mapReissuedTx : TreeMap UInt256 Str := ∅
  mapHashToAsset : TreeMap UInt256 Str := ∅
  /-- `mapAddressesMarkedFrozen` and `mapHashToAddressMarkedFrozen`. -/
  addressesMarkedFrozen : PoolPairIndex := {}
  /-- `mapAssetMarkedGlobalFrozen` and `mapHashMarkedGlobalFrozen`. -/
  assetMarkedGlobalFrozen : PoolIndex := {}
  /-- `mapAddressesQualifiersChanged` and `mapHashQualifiersChanged`. -/
  qualifiersChanged : PoolIndex := {}
  /-- `mapAssetVerifierChanged` and `mapHashVerifierChanged`. -/
  verifierChanged : PoolIndex := {}
  /-- `mapGlobalFreezingAssetTransactions` and `mapHashGlobalFreezingAssetTransactions`. -/
  globalFreezing : PoolIndex := {}
  /-- `mapGlobalUnFreezingAssetTransactions` and `mapHashGlobalUnFreezingAssetTransactions`. -/
  globalUnFreezing : PoolIndex := {}
  /-- `mapAddressAddedTag` and `mapHashToAddressAddedTag`. -/
  addressAddedTag : PoolPairIndex := {}
  /-- `mapAddressRemoveTag` and `mapHashToAddressRemoveTag`. -/
  addressRemoveTag : PoolPairIndex := {}

namespace CTxMemPool

variable (pool : CTxMemPool)

/-- `exists`. -/
def existsTx (hash : UInt256) : Bool := pool.mapTx.contains hash

def linksOf (hash : UInt256) : TxLinks := pool.mapLinks.getD hash {}

/-- `CCoinsViewMemPool::GetCoin`; an entry of the pool hides the coins of the view below. -/
def getCoin (tip : CCoinsViewCache) (outpoint : COutPoint) : Option Coin :=
  match pool.mapTx[outpoint.hash]? with
  | some tx => tx.vout[outpoint.n.toNat]?.map fun out => ⟨out, 0x7fffffff, false⟩
  | none => tip.getCoin outpoint

def updateLinks (mapLinks : TreeMap UInt256 TxLinks) (entry : UInt256)
    (change : TxLinks → TxLinks) : TreeMap UInt256 TxLinks :=
  mapLinks.insert entry (change (mapLinks.getD entry {}))

def updateParent (mapLinks : TreeMap UInt256 TxLinks) (entry : UInt256)
    (change : TreeSet UInt256 → TreeSet UInt256) : TreeMap UInt256 TxLinks :=
  updateLinks mapLinks entry fun links => { links with parents := change links.parents }

def updateChild (mapLinks : TreeMap UInt256 TxLinks) (entry : UInt256)
    (change : TreeSet UInt256 → TreeSet UInt256) : TreeMap UInt256 TxLinks :=
  updateLinks mapLinks entry fun links => { links with children := change links.children }

/-- The entries of the pool whose outputs a transaction spends. -/
def parentsOf (tx : CTransaction) : List UInt256 :=
  ((tx.vin.map fun txin => txin.prevout.hash).filter pool.mapTx.contains).dedup

def addUnchecked (tx : CTransaction) : CTxMemPool :=
  let mapTx := pool.mapTx.insertIfNew tx.hash tx
  let parents := { pool with mapTx }.parentsOf tx
  let mapLinks := pool.mapLinks.insertIfNew tx.hash {}
  let mapLinks := parents.foldl (fun links parent => updateParent links tx.hash (·.insert parent))
    mapLinks
  { pool with
    mapTx
    mapNextTx := tx.vin.foldl (fun next txin => next.insertIfNew txin.prevout tx) pool.mapNextTx
    mapLinks := parents.foldl (fun links parent => updateChild links parent (·.insert tx.hash))
      mapLinks }

/-- What `removeUnchecked` does to the maps of reissues; the transaction stays in one of them when
the other does not know its asset. -/
def unlockReissue (hash : UInt256) : CTxMemPool :=
  match pool.mapReissuedTx[hash]? with
  | none => pool
  | some name =>
    if pool.mapReissuedAssets.contains name then
      { pool with
        mapReissuedAssets := pool.mapReissuedAssets.erase name
        mapReissuedTx := pool.mapReissuedTx.erase hash }
    else pool

def eraseAssetName (hash : UInt256) : CTxMemPool :=
  match pool.mapHashToAsset[hash]? with
  | none => pool
  | some name =>
    { pool with
      mapAssetToHash := pool.mapAssetToHash.erase name
      mapHashToAsset := pool.mapHashToAsset.erase hash }

/-- The rest of `removeUnchecked`. The sets of the first four maps stay when they are empty, and the
tags of a transaction stay in the map from transactions to tags. -/
def eraseRestricted (hash : UInt256) : CTxMemPool :=
  { pool with
    addressesMarkedFrozen := pool.addressesMarkedFrozen.unfile false true hash
    assetMarkedGlobalFrozen := pool.assetMarkedGlobalFrozen.unfile false true hash
    qualifiersChanged := pool.qualifiersChanged.unfile false true hash
    verifierChanged := pool.verifierChanged.unfile false true hash
    globalFreezing := pool.globalFreezing.unfile true true hash
    globalUnFreezing := pool.globalUnFreezing.unfile true true hash
    addressAddedTag := pool.addressAddedTag.unfile true false hash
    addressRemoveTag := pool.addressRemoveTag.unfile true false hash }

/-- The part of `removeUnchecked` that concerns the transaction itself. -/
def eraseEntry (hash : UInt256) (tx : CTransaction) : CTxMemPool :=
  { pool with
    mapNextTx := tx.vin.foldl (fun next txin => next.erase txin.prevout) pool.mapNextTx
    mapLinks := pool.mapLinks.erase hash
    mapTx := pool.mapTx.erase hash }

def removeUnchecked (hash : UInt256) : CTxMemPool :=
  match pool.mapTx[hash]? with
  | none => pool
  | some tx =>
    (((pool.eraseEntry hash tx).unlockReissue hash).eraseAssetName hash).eraseRestricted hash

/-- The links that `UpdateForRemoveFromMempool` leaves: first the parents of the removed entries
lose their child, then the children their parent. -/
def updateForRemoveFromMempool (entriesToRemove : List UInt256) : CTxMemPool :=
  let mapLinks := entriesToRemove.foldl (fun links hash =>
    (pool.linksOf hash).parents.toList.foldl (fun links parent =>
      updateChild links parent (·.erase hash)) links) pool.mapLinks
  { pool with
    mapLinks := entriesToRemove.foldl (fun links hash =>
      (links.getD hash {}).children.toList.foldl (fun links child =>
        updateParent links child (·.erase hash)) links) mapLinks }

def removeStaged (stage : List UInt256) : CTxMemPool :=
  stage.foldl removeUnchecked (pool.updateForRemoveFromMempool stage)

/-- `CalculateDescendants`; the walk takes at most one step for each entry. -/
def calculateDescendants (entry : UInt256) (setDescendants : TreeSet UInt256) : TreeSet UInt256 :=
  let stage : TreeSet UInt256 :=
    if setDescendants.contains entry then ∅ else (∅ : TreeSet UInt256).insert entry
  Walk.walk (fun hash => (pool.linksOf hash).children) pool.mapTx.size stage setDescendants

/-- The entries with everything that descends from them. -/
def withDescendants (entries : List UInt256) : List UInt256 :=
  (entries.foldl (fun set entry => pool.calculateDescendants entry set) ∅).toList

/-- `removeRecursive`: a transaction with its descendants, or without it those that spend from
it. -/
def removeRecursive (origTx : CTransaction) : CTxMemPool :=
  let txToRemove := if pool.mapTx.contains origTx.hash then [origTx.hash]
    else origTx.outpoints.filterMap fun (outpoint, _) =>
      pool.mapNextTx[outpoint]?.map CTransaction.hash
  pool.removeStaged (pool.withDescendants txToRemove)

/-- One turn of `removeConflicts`: the entry that spends the outpoint of an input goes, unless it is
the transaction itself. -/
def removeConflict (tx : CTransaction) (txin : CTxIn) : CTxMemPool :=
  match pool.mapNextTx[txin.prevout]? with
  | some txConflict => if txConflict.hash ≠ tx.hash then pool.removeRecursive txConflict else pool
  | none => pool

/-- `removeConflicts`: the transactions that spend an input of another one, and what descends from
them. -/
def removeConflicts (tx : CTransaction) : CTxMemPool :=
  tx.vin.foldl (fun pool txin => pool.removeConflict tx txin) pool

/-- A property that the loss of an entry keeps, and that does not look at the links. -/
structure KeptByRemoval (P : CTxMemPool → Prop) : Prop where
  links : ∀ (pool : CTxMemPool) (mapLinks : TreeMap UInt256 TxLinks), P pool →
    P { pool with mapLinks }
  entry : ∀ (pool : CTxMemPool) (hash : UInt256) (tx : CTransaction), pool.mapTx[hash]? = some tx →
    P pool → P ((((pool.eraseEntry hash tx).unlockReissue hash).eraseAssetName hash).eraseRestricted
      hash)

namespace KeptByRemoval

variable {P Q : CTxMemPool → Prop} {pool : CTxMemPool}

theorem and (hP : KeptByRemoval P) (hQ : KeptByRemoval Q) :
    KeptByRemoval fun pool => P pool ∧ Q pool where
  links pool mapLinks h := ⟨hP.links pool mapLinks h.1, hQ.links pool mapLinks h.2⟩
  entry pool hash tx htx h := ⟨hP.entry pool hash tx htx h.1, hQ.entry pool hash tx htx h.2⟩

theorem foldl {α : Type} {step : CTxMemPool → α → CTxMemPool}
    (hstep : ∀ pool a, P pool → P (step pool a)) (items : List α) (hp : P pool) :
    P (items.foldl step pool) := by
  induction items generalizing pool with
  | nil => exact hp
  | cons a items ih => exact ih (hstep pool a hp)

theorem removeUnchecked (h : KeptByRemoval P) (hp : P pool) (hash : UInt256) :
    P (pool.removeUnchecked hash) := by
  unfold CTxMemPool.removeUnchecked
  split
  · exact hp
  next tx htx => exact h.entry pool hash tx htx hp

theorem removeStaged (h : KeptByRemoval P) (hp : P pool) (stage : List UInt256) :
    P (pool.removeStaged stage) := by
  exact foldl (P := P) (fun _ hash hq => h.removeUnchecked hq hash) stage (h.links pool _ hp)

theorem removeConflicts (h : KeptByRemoval P) (hp : P pool) (tx : CTransaction) :
    P (pool.removeConflicts tx) := by
  refine foldl (P := P) (fun q txin hq => ?_) tx.vin hp
  unfold removeConflict
  split
  · split
    · exact h.removeStaged hq _
    · exact hq
  · exact hq

end KeptByRemoval

end CTxMemPool

end Cmusic
