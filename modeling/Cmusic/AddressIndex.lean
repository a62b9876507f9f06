import Cmusic.DisconnectBlock
import Cmusic.Lib.Batch

/-! The indexes of addresses and of spent outputs, which a block changes on its way in and out. -/
namespace Cmusic

open Fallible

/-- A public key of either length; the byte that pushes it is not looked at. -/
def CScript.isPayToPublicKey (script : CScript) : Bool :=
  if script.length = 35 then
    (byteAt script 1 = 0x02 || byteAt script 1 = 0x03) && byteAt script 34 = opCheckSig
  else if script.length = 67 then byteAt script 1 = 0x04 && byteAt script 66 = opCheckSig
  else false

/-- The asset under which the index files plain coins. -/
def cmusicai : Str := str "cmusicai"

structure CAddressIndexKey where
  type : Nat
  hashBytes : Str
  asset : Str
  blockHeight : Nat
  txindex : Nat
  txhash : UInt256
  index : UInt32
  spending : Bool
  deriving DecidableEq

structure CAddressUnspentKey where
  type : Nat
  hashBytes : Str
  asset : Str
  txhash : UInt256
  index : UInt32
  deriving DecidableEq

structure CAddressUnspentValue where
  satoshis : CAmount := -1
  script : CScript := []
  blockHeight : Nat := 0
  deriving DecidableEq

namespace CAddressUnspentValue

def isNull (value : CAddressUnspentValue) : Bool := value.satoshis = -1

/-- A null value stands for the row that is erased. -/
def row (value : CAddressUnspentValue) : Option CAddressUnspentValue :=
  if value.isNull then none else some value

end CAddressUnspentValue

structure CSpentIndexKey where
  txid : UInt256
  outputIndex : UInt32
  deriving DecidableEq

structure CSpentIndexValue where
  txid : UInt256 := 0
  inputIndex : UInt32 := 0
  blockHeight : Nat := 0
  satoshis : CAmount := 0
  addressType : Nat := 0
  addressHash : Str := List.replicate 20 0
  deriving DecidableEq

namespace CSpentIndexValue

def isNull (value : CSpentIndexValue) : Bool := value.txid = 0

def row (value : CSpentIndexValue) : Option CSpentIndexValue :=
  if value.isNull then none else some value

end CSpentIndexValue

/-- The kinds of scripts that the index of addresses tells apart. -/
inductive IndexedKind where
  | scriptHash
  | pubKeyHash
  | pubKey
  | asset
  deriving DecidableEq

/-- What the index of addresses reads out of an output. -/
structure IndexedOut where
  kind : IndexedKind
  hashBytes : Str
  asset : Str := cmusicai
  amount : CAmount
  deriving DecidableEq

namespace IndexedOut

variable (a : IndexedOut)

def type : Nat := if a.kind = .scriptHash then 2 else 1

def indexKey (nHeight txindex : Nat) (txhash : UInt256) (index : Nat) (spending : Bool) :
    CAddressIndexKey :=
  ⟨a.type, a.hashBytes, a.asset, nHeight, txindex, txhash, UInt32.ofNat index, spending⟩

def unspentKey (outpoint : COutPoint) : CAddressUnspentKey :=
  ⟨a.type, a.hashBytes, a.asset, outpoint.hash, outpoint.n⟩

def unspentValue (script : CScript) (nHeight : Nat) : CAddressUnspentValue :=
  ⟨a.amount, script, nHeight⟩

end IndexedOut

/-- The switches `-addressindex` and `-spentindex`. -/
structure IndexFlags where
  fAddressIndex : Bool
  fSpentIndex : Bool

/-- The updates that `ConnectBlock` and `DisconnectBlock` collect. -/
structure IndexUpdates where
  addressIndex : List (CAddressIndexKey × CAmount) := []
  addressUnspentIndex : List (CAddressUnspentKey × CAddressUnspentValue) := []
  spentIndex : List (CSpentIndexKey × CSpentIndexValue) := []

namespace IndexUpdates

def append (u v : IndexUpdates) : IndexUpdates where
  addressIndex := u.addressIndex ++ v.addressIndex
  addressUnspentIndex := u.addressUnspentIndex ++ v.addressUnspentIndex
  spentIndex := u.spentIndex ++ v.spentIndex

/-- The updates of a loop, turn by turn. -/
def concat (turns : List IndexUpdates) : IndexUpdates where
  addressIndex := turns.flatMap addressIndex
  addressUnspentIndex := turns.flatMap addressUnspentIndex
  spentIndex := turns.flatMap spentIndex

end IndexUpdates

/-- The rows of the block tree database that belong to the indexes. -/
structure IndexRows where
  addressIndex : CAddressIndexKey → Option CAmount := fun _ => none
  addressUnspentIndex : CAddressUnspentKey → Option CAddressUnspentValue := fun _ => none
  spentIndex : CSpentIndexKey → Option CSpentIndexValue := fun _ => none

namespace IndexRows

variable (rows : IndexRows) (updates : IndexUpdates)

def writeAddressIndex : IndexRows := { rows with
  addressIndex := Batch.write rows.addressIndex (updates.addressIndex.map fun u => (u.1, some u.2)) }

def eraseAddressIndex : IndexRows := { rows with
  addressIndex := Batch.write rows.addressIndex (updates.addressIndex.map fun u => (u.1, none)) }

def updateAddressUnspentIndex : IndexRows := { rows with
  addressUnspentIndex := Batch.write rows.addressUnspentIndex
    (updates.addressUnspentIndex.map fun u => (u.1, u.2.row)) }

def updateSpentIndex : IndexRows := { rows with
  spentIndex := Batch.write rows.spentIndex (updates.spentIndex.map fun u => (u.1, u.2.row)) }

end IndexRows

section

variable (flags : IndexFlags) (env : Env)

/-- `ParseAssetScript`: the name and the amount of an asset script, and the bytes behind its first
three, whatever kind of script they belong to. -/
def parseAssetScript (script : CScript) : Option (Str × Str × CAmount) :=
  ((CScript.isAssetScript script).bind fun s =>
    match s.nType with
    | .newAsset =>
      if s.fIsOwner then (ownerAssetFromScript env script).map fun p => (p.1, ownerAssetAmount)
      else (assetFromScript env script).map fun p => (p.1.strName, p.1.nAmount)
    | .reissueAsset => (reissueAssetFromScript env script).map fun p => (p.1.strName, p.1.nAmount)
    | .transferAsset => (transferAssetFromScript env script).map fun p => (p.1.strName, p.1.nAmount)
    | _ => none).map fun p => ((script.drop 3).take 20, p.1, p.2)

/-- The branches by which all four loops classify an output. -/
def indexedOut (out : CTxOut) : Option IndexedOut :=
  let script := out.scriptPubKey
  if CScript.isPayToScriptHash script then
    some { kind := .scriptHash, hashBytes := (script.drop 2).take 20, amount := out.nValue }
  else if CScript.isPayToPublicKeyHash script then
    some { kind := .pubKeyHash, hashBytes := (script.drop 3).take 20, amount := out.nValue }
  else if CScript.isPayToPublicKey script then
    some { kind := .pubKey, hashBytes := env.hash160 ((script.drop 1).dropLast), amount := out.nValue }
  else if env.areAssetsDeployed then
    (parseAssetScript env script).map fun (hashBytes, assetName, assetAmount) =>
      { kind := .asset, hashBytes, asset := assetName, amount := assetAmount }
  else none

variable (nHeight i : Nat) (txhash : UInt256)

/-- An input of a connected transaction: the spending, the row that is gone, and the spent output. -/
def spendUpdate (j : Nat) (input : COutPoint) (prevout : CTxOut) : IndexUpdates where
  addressIndex := if flags.fAddressIndex then
      (indexedOut env prevout).toList.map fun a => (a.indexKey nHeight i txhash j true, a.amount * -1)
    else []
  addressUnspentIndex := if flags.fAddressIndex then
      (indexedOut env prevout).toList.map fun a => (a.unspentKey input, {})
    else []
  spentIndex := if flags.fSpentIndex then
      [(⟨input.hash, input.n⟩, {
        txid := txhash
        inputIndex := UInt32.ofNat j
        blockHeight := nHeight
        satoshis := prevout.nValue
        addressType := ((indexedOut env prevout).map IndexedOut.type).getD 0
        addressHash := ((indexedOut env prevout).map IndexedOut.hashBytes).getD (List.replicate 20 0) })]
    else []

/-- An output of a connected transaction. -/
def receiveUpdate (k : Nat) (out : CTxOut) : IndexUpdates where
  addressIndex :=
    (indexedOut env out).toList.map fun a => (a.indexKey nHeight i txhash k false, a.amount)
  addressUnspentIndex := (indexedOut env out).toList.map fun a =>
    (a.unspentKey ⟨txhash, UInt32.ofNat k⟩, a.unspentValue out.scriptPubKey nHeight)

/-- An output of a transaction that is taken back. -/
def undoReceiveUpdate (k : Nat) (out : CTxOut) : IndexUpdates where
  addressIndex :=
    (indexedOut env out).toList.map fun a => (a.indexKey nHeight i txhash k false, a.amount)
  addressUnspentIndex :=
    (indexedOut env out).toList.map fun a => (a.unspentKey ⟨txhash, UInt32.ofNat k⟩, {})

/-- An input of a transaction that is taken back. The branch for a public key does what the one for
an output does. -/
def undoSpendUpdate (j : Nat) (input : COutPoint) (prevout : CTxOut) (undoHeight : Nat) :
    IndexUpdates where
  addressIndex := if flags.fAddressIndex then
      (indexedOut env prevout).toList.map fun a =>
        if a.kind = .pubKey then (a.indexKey nHeight i txhash j false, a.amount)
        else (a.indexKey nHeight i txhash j true, a.amount * -1)
    else []
  addressUnspentIndex := if flags.fAddressIndex then
      (indexedOut env prevout).toList.map fun a =>
        if a.kind = .pubKey then (a.unspentKey ⟨txhash, UInt32.ofNat j⟩, {})
        else (a.unspentKey input, a.unspentValue prevout.scriptPubKey undoHeight)
    else []
  spentIndex := if flags.fSpentIndex then [(⟨input.hash, input.n⟩, {})] else []

def spendUpdates (view : CCoinsViewCache) (tx : CTransaction) : IndexUpdates :=
  if tx.isCoinBase then {}
  else .concat (tx.vin.zipIdx.map fun (txin, j) =>
    spendUpdate flags env nHeight i tx.hash j txin.prevout (view.accessCoin txin.prevout).out)

def receiveUpdates (tx : CTransaction) : IndexUpdates :=
  if flags.fAddressIndex then
    .concat (tx.vout.zipIdx.map fun (out, k) => receiveUpdate env nHeight i tx.hash k out)
  else {}

/-- The outputs are taken back from the last to the first. -/
def undoReceiveUpdates (tx : CTransaction) : IndexUpdates :=
  if flags.fAddressIndex then
    .concat (tx.vout.zipIdx.reverse.map fun (out, k) => undoReceiveUpdate env nHeight i tx.hash k out)
  else {}

end

section Connect

variable (flags : IndexFlags) (rules : BlockRules) (env : Env) (g : AssetGlobals)
  (mempool : MempoolAssets)

/-- One turn of the loop of `ConnectBlock`, with the updates. -/
def connectTxIndexed (nHeight : Nat) (blockHash : UInt256) (acc : Connected × IndexUpdates)
    (item : CTransaction × Nat) : Checked (Connected × IndexUpdates) := do
  let conn ← connectTx rules env g mempool nHeight blockHash (item.2 > 0) acc.1 item.1
  -- the inputs are read from the view before the coins of the transaction change
  return (conn, (acc.2.append (spendUpdates flags env nHeight item.2 acc.1.st.view item.1)).append
    (receiveUpdates flags env nHeight item.2 item.1))

/-- `ConnectBlock` with the indexes; they are written after all checks. -/
def connectBlockIndexed (node : NodeState) (nHeight : Nat) (st : CoinState) (block : CBlock)
    (rows : IndexRows) : Checked (Connected × IndexRows) := do
  checkBlock rules env node block
  let blockHash := block.header.getHash rules.params
  if blockHash = rules.params.hashGenesisBlock then return ({ st }, rows)
  else
    match block.vtx with
    | [] => throw aborted
    | coinbase :: rest =>
      let (conn, updates) ← (coinbase :: rest).zipIdx.foldlM
        (connectTxIndexed flags rules env g mempool nHeight blockHash) ({ st }, {})
      checkReward rules env nHeight conn.nFees coinbase
      let rows := if flags.fAddressIndex then
          (rows.writeAddressIndex updates).updateAddressUnspentIndex updates
        else rows
      return (conn, if flags.fSpentIndex then rows.updateSpentIndex updates else rows)

end Connect

section Disconnect

variable (flags : IndexFlags) (env : Env) (g : AssetGlobals)

/-- One input that is restored, with the updates; its coin is read from the view after it. -/
def restoreInputIndexed (nHeight i : Nat) (txhash : UInt256) (acc : (CoinState × Bool) × IndexUpdates)
    (item : (CTxIn × Coin) × Nat) : Option ((CoinState × Bool) × IndexUpdates) := do
  let ((txin, undo), j) := item
  let restored ← restoreInput env g acc.1 (txin, undo)
  let undoHeight := ((completeUndo acc.1.1.view txin.prevout undo).getD undo).nHeight
  return (restored, acc.2.append (undoSpendUpdate flags env nHeight i txhash j txin.prevout
    (restored.1.view.accessCoin txin.prevout).out undoHeight))

def restoreInputsIndexed (nHeight i : Nat) (d : Disconnected) (updates : IndexUpdates)
    (tx : CTransaction) (txundo : CTxUndo) : Option (Disconnected × IndexUpdates) := do
  if txundo.length ≠ tx.vin.length then none
  else
    let ((st, fClean), updates) ← (tx.vin.zip txundo).zipIdx.reverse.foldlM
      (restoreInputIndexed flags env g nHeight i tx.hash) ((d.st, d.fClean), updates)
    return ({ d with st, fClean }, updates)

/-- One turn of the loop of `DisconnectBlock`, with the updates. -/
def disconnectTxIndexed (nHeight : Nat) (vUndoData : List (Str × CBlockAssetUndo))
    (acc : Disconnected × IndexUpdates) (item : (CTransaction × Option CTxUndo) × Nat) :
    Option (Disconnected × IndexUpdates) := do
  let ((tx, txundo), i) := item
  let updates := acc.2.append (undoReceiveUpdates flags env nHeight i tx)
  let d := undoOuts env g nHeight acc.1 tx
  let cache ← removeTxAssets env g d.st.cache tx vUndoData
  let d := { d with st := ⟨d.st.view, cache⟩ }
  match txundo with
  | none => return (d, updates)
  | some txundo => restoreInputsIndexed flags env g nHeight i d updates tx txundo

def disconnectTransactionsIndexed (nHeight : Nat) (st : CoinState) (vtx : List CTransaction)
    (vtxundo : List CTxUndo) (vUndoData : List (Str × CBlockAssetUndo)) :
    Option (Disconnected × IndexUpdates) :=
  if vtxundo.length + 1 ≠ vtx.length then none
  else (vtx.zip (none :: vtxundo.map some)).zipIdx.reverse.foldlM
    (disconnectTxIndexed flags env g nHeight vUndoData) ({ st, tempCache := st.cache }, {})

/-- `DisconnectBlock` with the indexes. The updates of the spent outputs are collected, and that is
all that happens to them. -/
def disconnectBlockIndexed (nHeight : Nat) (st : CoinState) (block : CBlock) (vtxundo : List CTxUndo)
    (vUndoData : List (Str × CBlockAssetUndo)) (rows : IndexRows) : DisconnectResult × IndexRows :=
  match disconnectTransactionsIndexed flags env g nHeight st block.vtx vtxundo vUndoData with
  | none => (.failed, rows)
  | some (d, updates) =>
    (if d.fClean then .ok d.st else .unclean d.st, if flags.fAddressIndex then
        (rows.eraseAddressIndex updates).updateAddressUnspentIndex updates
      else rows)

end Disconnect

namespace IndexUpdates

variable {u v w : IndexUpdates} {turns turns' : List IndexUpdates}

theorem append_assoc : (u.append v).append w = u.append (v.append w) := by
  simp [append]

theorem append_empty : u.append {} = u := by
  simp [append]

theorem concat_append : concat (turns ++ turns') = (concat turns).append (concat turns') := by
  simp [concat, append]

theorem concat_singleton : concat [u] = u := by
  simp [concat]

end IndexUpdates

section Projection

variable {flags : IndexFlags} {rules : BlockRules} {env : Env} {g : AssetGlobals}
  {mempool : MempoolAssets} {nHeight : Nat} {blockHash : UInt256} {node : NodeState}
  {st : CoinState} {block : CBlock} {rows rows' : IndexRows} {conn : Connected}
  {vUndoData : List (Str × CBlockAssetUndo)}

/-- A loop without what it collects on the way. -/
theorem fst_foldlM {m : Type → Type} [Monad m] [LawfulMonad m] {σ τ α β : Type}
    {step : σ × τ → α → m (σ × τ)} {p : σ → β → m σ} {f : α → β}
    (h : ∀ acc item, Prod.fst <$> step acc item = p acc.1 (f item)) {items : List α} {acc : σ × τ} :
    Prod.fst <$> items.foldlM step acc = (items.map f).foldlM p acc.1 := by
  induction items generalizing acc with
  | nil => exact map_pure ..
  | cons item items ih =>
    rw [List.map_cons, List.foldlM_cons, List.foldlM_cons, map_bind, ← h, bind_map_left]
    exact bind_congr fun _ => ih

theorem foldlM_zipIdx_connectTx {vtx : List CTransaction} {k : Nat} (hk : 0 < k) {conn : Connected} :
    (vtx.zipIdx k).foldlM (fun conn item =>
        connectTx rules env g mempool nHeight blockHash (item.2 > 0) conn item.1) conn =
      vtx.foldlM (connectTx rules env g mempool nHeight blockHash true) conn := by
  induction vtx generalizing k conn with
  | nil => rfl
  | cons tx vtx ih =>
    rw [List.zipIdx_cons, List.foldlM_cons, List.foldlM_cons, decide_eq_true hk]
    simp only [ih (Nat.succ_pos k)]

/-- What a successful `ConnectBlock` with the indexes consists of. -/
theorem connectBlockIndexed_eq_ok
    (hg : block.header.getHash rules.params ≠ rules.params.hashGenesisBlock)
    (h : connectBlockIndexed flags rules env g mempool node nHeight st block rows = .ok (conn, rows')) :
    checkBlock rules env node block = .ok () ∧ ∃ updates,
      block.vtx.zipIdx.foldlM (connectTxIndexed flags rules env g mempool nHeight
        (block.header.getHash rules.params)) ({ st }, {}) = .ok (conn, updates) ∧
      rows' = (fun rows => if flags.fSpentIndex then rows.updateSpentIndex updates else rows)
        (if flags.fAddressIndex then
          (rows.writeAddressIndex updates).updateAddressUnspentIndex updates else rows) := by
  obtain ⟨_, hc, h⟩ := bind_eq_ok.1 h
  simp only [if_neg hg] at h
  refine ⟨hc, ?_⟩
  split at h
  · cases h
  next coinbase rest hv =>
    obtain ⟨⟨last, updates⟩, hl, h⟩ := bind_eq_ok.1 h
    obtain ⟨_, -, h⟩ := bind_eq_ok.1 h
    cases h
    exact ⟨updates, hv ▸ hl, rfl⟩

/-- Without the indexes the loop is that of `ConnectBlock`. -/
theorem connectBlock_of_indexed
    (h : connectBlockIndexed flags rules env g mempool node nHeight st block rows = .ok (conn, rows')) :
    connectBlock rules env g mempool node nHeight st block = .ok conn := by
  obtain ⟨_, hc, h⟩ := bind_eq_ok.1 h
  refine bind_eq_ok.2 ⟨_, hc, ?_⟩
  dsimp only at h ⊢
  split at h
  next hg =>
    cases h
    exact if_pos hg
  next hg =>
    rw [if_neg hg]
    split at h
    · cases h
    next coinbase rest hv =>
      obtain ⟨⟨last, updates⟩, hl, h⟩ := bind_eq_ok.1 h
      obtain ⟨_, hre, h⟩ := bind_eq_ok.1 h
      cases h
      have hplain := congrArg (Prod.fst <$> ·) hl
      rw [fst_foldlM (f := id) (p := fun conn (item : CTransaction × Nat) => connectTx rules env g mempool
          nHeight (block.header.getHash rules.params) (item.2 > 0) conn item.1)
        (fun acc item => by simp [connectTxIndexed]), List.map_id, List.zipIdx_cons,
        List.foldlM_cons] at hplain
      obtain ⟨first, hfirst, hr⟩ := bind_eq_ok.1 hplain
      rw [foldlM_zipIdx_connectTx (Nat.succ_pos 0)] at hr
      rw [hv]
      exact bind_eq_ok.2 ⟨first, hfirst, bind_eq_ok.2 ⟨_, hr, bind_eq_ok.2 ⟨_, hre, rfl⟩⟩⟩

theorem fst_restoreInputsIndexed {i : Nat} {d : Disconnected} {updates : IndexUpdates}
    {tx : CTransaction} {txundo : CTxUndo} :
    Prod.fst <$> restoreInputsIndexed flags env g nHeight i d updates tx txundo =
      restoreInputs env g d tx txundo := by
  unfold restoreInputsIndexed restoreInputs
  split
  · rfl
  · have hstep : ∀ acc item, Prod.fst <$> restoreInputIndexed flags env g nHeight i tx.hash acc item =
        restoreInput env g acc.1 item.1 := fun acc item => by simp [restoreInputIndexed]
    have hl := @fst_foldlM _ _ _ _ _ _ _ _ _ _ hstep (tx.vin.zip txundo).zipIdx.reverse
      ((d.st, d.fClean), updates)
    rw [List.map_reverse, List.zipIdx_map_fst] at hl
    rw [← hl, map_bind, bind_map_left]
    rfl

theorem fst_disconnectTxIndexed (acc : Disconnected × IndexUpdates)
    (item : (CTransaction × Option CTxUndo) × Nat) :
    Prod.fst <$> disconnectTxIndexed flags env g nHeight vUndoData acc item =
      disconnectTx env g nHeight vUndoData acc.1 item.1 := by
  obtain ⟨⟨tx, txundo⟩, i⟩ := item
  unfold disconnectTxIndexed disconnectTx
  rw [map_bind]
  refine bind_congr fun cache => ?_
  cases txundo with
  | none => rfl
  | some txundo => exact fst_restoreInputsIndexed

/-- Without the indexes the loop is that of `DisconnectBlock`. -/
theorem fst_disconnectBlockIndexed {vtxundo : List CTxUndo} :
    (disconnectBlockIndexed flags env g nHeight st block vtxundo vUndoData rows).1 =
      disconnectBlock env g nHeight st block vtxundo vUndoData := by
  have hl : Prod.fst <$> disconnectTransactionsIndexed flags env g nHeight st block.vtx vtxundo
      vUndoData = disconnectTransactions env g nHeight st block.vtx vtxundo vUndoData := by
    unfold disconnectTransactionsIndexed disconnectTransactions
    split
    · rfl
    · rw [fst_foldlM fst_disconnectTxIndexed, List.map_reverse, List.zipIdx_map_fst]
  unfold disconnectBlockIndexed disconnectBlock
  rw [← hl]
  cases disconnectTransactionsIndexed flags env g nHeight st block.vtx vtxundo vUndoData <;> rfl

end Projection

end Cmusic
