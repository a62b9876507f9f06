import Cmusic.IndexRoundTrip

/-! What the index of spent outputs holds once a block has been connected and disconnected again. -/
namespace Cmusic

open Fallible Std

section Block

variable {flags : IndexFlags} {rules : BlockRules} {env : Env} {g g' : AssetGlobals}
  {mempool : MempoolAssets} {node : NodeState} {nHeight : Nat} {blockHash : UInt256}
  {st st' : CoinState} {block : CBlock} {conn : Connected} {rows rows' rows'' : IndexRows}
  {vtx : List CTransaction} {vtxundo : List CTxUndo} {vUndoData : List (Str × CBlockAssetUndo)}
  {result : DisconnectResult}

def COutPoint.spentKey (outpoint : COutPoint) : CSpentIndexKey := ⟨outpoint.hash, outpoint.n⟩

/-- A transaction of the block spends the output of the key. -/
def SpentIn (vtx : List CTransaction) (key : CSpentIndexKey) : Prop :=
  ∃ tx ∈ vtx, tx.isCoinBase = false ∧ ∃ txin ∈ tx.vin, key = txin.prevout.spentKey

/-- What the index of spent outputs is to hold once the block is gone. -/
structure SpentIndexRestored (vtx : List CTransaction) (rows rows' : IndexRows) : Prop where
  removed : ∀ key, SpentIn vtx key → rows'.spentIndex key = none
  kept : ∀ key, ¬ SpentIn vtx key → rows'.spentIndex key = rows.spentIndex key

/-- The spent outputs of a block, each with the transaction that spends it. -/
def spentOutputs (vtx : List CTransaction) : List (CSpentIndexKey × UInt256) :=
  vtx.flatMap fun tx =>
    if tx.isCoinBase then [] else tx.vin.map fun txin => (txin.prevout.spentKey, tx.hash)

theorem mem_spentOutputs {u : CSpentIndexKey × UInt256} :
    u ∈ spentOutputs vtx ↔ ∃ tx ∈ vtx, tx.isCoinBase = false ∧ ∃ txin ∈ tx.vin,
      u = (txin.prevout.spentKey, tx.hash) := by
  simp only [spentOutputs, List.mem_flatMap]
  refine exists_congr fun tx => and_congr_right fun _ => ?_
  cases tx.isCoinBase with
  | true => simp
  | false => simp [eq_comm]

theorem spentIn_iff {key : CSpentIndexKey} : SpentIn vtx key ↔ key ∈ (spentOutputs vtx).map Prod.fst := by
  simp only [List.mem_map, mem_spentOutputs, SpentIn]
  constructor
  · rintro ⟨tx, htx, hcb, txin, ht, rfl⟩
    exact ⟨_, ⟨tx, htx, hcb, txin, ht, rfl⟩, rfl⟩
  · rintro ⟨_, ⟨tx, htx, hcb, txin, ht, rfl⟩, rfl⟩
    exact ⟨tx, htx, hcb, txin, ht, rfl⟩

theorem spentIndex_spendUpdates (hf : flags.fSpentIndex = true) {view : CCoinsViewCache}
    {tx : CTransaction} {i : Nat} :
    (spendUpdates flags env nHeight i view tx).spentIndex.map (fun u => (u.1, u.2.txid)) =
      spentOutputs [tx] := by
  unfold spendUpdates spentOutputs
  rw [List.flatMap_singleton]
  split
  · rfl
  · simp only [IndexUpdates.concat, spendUpdate, hf, if_true, List.flatMap_map, List.map_flatMap,
      List.map_singleton]
    rw [← List.map_eq_flatMap]
    conv_rhs => rw [← List.zipIdx_map_fst 0 tx.vin, List.map_map]
    rfl

theorem vin_ne_nil_of_checkTransaction {tx : CTransaction} {fCheckDuplicateInputs fMempoolCheck
    fBlockCheck : Bool}
    (h : checkTransaction env tx fCheckDuplicateInputs fMempoolCheck fBlockCheck = .ok ()) :
    tx.vin ≠ [] := by
  simp only [checkTransaction, rejectIf, failIf_bind_eq_ok] at h
  simpa using h.1

/-- The loop of `ConnectBlock` files every spent output under the transaction that spends it. -/
theorem spentIndex_of_foldlM (hf : flags.fSpentIndex = true) {updates : IndexUpdates}
    (h : vtx.zipIdx.foldlM (connectTxIndexed flags rules env g mempool nHeight blockHash)
      ({ st }, {}) = .ok (conn, updates)) :
    updates.spentIndex.map (fun u => (u.1, u.2.txid)) = spentOutputs vtx := by
  have hru := foldlM_invariant (fun pre (acc : Connected × IndexUpdates) =>
    acc.2.spentIndex.map (fun u => (u.1, u.2.txid)) = spentOutputs (pre.map Prod.fst)) h rfl ?_
  · rwa [List.zipIdx_map_fst] at hru
  · rintro pre ⟨tx, i⟩ ⟨c, u⟩ ⟨c', u'⟩ hp hstep
    obtain ⟨_, -, hre⟩ := bind_eq_ok.1 hstep
    cases hre
    have hr : (receiveUpdates flags env nHeight i tx).spentIndex = [] := by
      unfold receiveUpdates
      split
      · exact List.flatMap_eq_nil_iff.2 fun turn ht => by
          obtain ⟨_, -, rfl⟩ := List.mem_map.1 ht
          rfl
      · rfl
    dsimp only [IndexUpdates.append] at hp ⊢
    rw [hr, List.append_nil, List.map_append, hp, spentIndex_spendUpdates hf,
      List.map_append, spentOutputs, spentOutputs, spentOutputs, List.flatMap_append]
    rfl

/-- `DisconnectBlock` leaves the index of spent outputs alone. -/
theorem spentIndex_disconnectBlockIndexed :
    (disconnectBlockIndexed flags env g nHeight st block vtxundo vUndoData rows).2.spentIndex =
      rows.spentIndex := by
  unfold disconnectBlockIndexed
  split
  · rfl
  · dsimp only
    split <;> rfl

/-- Taking a block back restores the index of spent outputs exactly when the block spends none. -/
theorem spentIndex_disconnectBlock_iff (hflag : flags.fSpentIndex = true)
    (hgenesis : block.header.getHash rules.params ≠ rules.params.hashGenesisBlock)
    (hids : ∀ tx ∈ block.vtx, tx.hash ≠ 0)
    (hconn : connectBlockIndexed flags rules env g mempool node nHeight st block rows =
      .ok (conn, rows'))
    (hdisc : disconnectBlockIndexed flags env g' nHeight st' block vtxundo vUndoData rows' =
      (result, rows'')) :
    SpentIndexRestored block.vtx rows rows'' ↔ ∀ tx ∈ block.vtx, tx.isCoinBase = true := by
  obtain ⟨hch, updates, hl, hr'⟩ := connectBlockIndexed_eq_ok hgenesis hconn
  obtain ⟨-, -, htxs⟩ := transactions_of_checkBlock hch
  have hsp := spentIndex_of_foldlM hflag hl
  have hf : rows''.spentIndex = Batch.write rows.spentIndex
      (updates.spentIndex.map fun u => (u.1, u.2.row)) := by
    have hsa := @spentIndex_disconnectBlockIndexed flags env g' nHeight st' block rows' vtxundo vUndoData
    rw [hdisc] at hsa
    rw [hsa, hr', hflag]
    dsimp only
    rw [if_pos rfl]
    split <;> rfl
  have hke : ∀ key, key ∈ (updates.spentIndex.map fun u => (u.1, u.2.row)).map Prod.fst ↔
      SpentIn block.vtx key := by
    intro key
    rw [spentIn_iff, ← hsp, List.map_map, List.map_map]
    rfl
  constructor
  · intro hr tx htx
    by_contra hcb
    rw [Bool.not_eq_true] at hcb
    obtain ⟨txin, ht⟩ := List.exists_mem_of_ne_nil tx.vin (vin_ne_nil_of_checkTransaction (htxs tx htx))
    have hin : SpentIn block.vtx txin.prevout.spentKey := ⟨tx, htx, hcb, txin, ht, rfl⟩
    have hn := hr.removed _ hin
    rw [hf] at hn
    obtain ⟨op, hop, -, hv⟩ := @Batch.exists_of_write _ _ _ rows.spentIndex _ _ ((hke _).2 hin)
    obtain ⟨u, hu, rfl⟩ := List.mem_map.1 hop
    -- no id is null, so the row is a written one
    have hm : (u.1, u.2.txid) ∈ spentOutputs block.vtx :=
      hsp ▸ List.mem_map_of_mem (f := fun u => (u.1, u.2.txid)) hu
    obtain ⟨tx', ht', -, _, -, heq⟩ := mem_spentOutputs.1 hm
    have hid : u.2.txid ≠ 0 := (Prod.mk.inj heq).2 ▸ hids tx' ht'
    rw [hn, CSpentIndexValue.row, CSpentIndexValue.isNull, decide_eq_false hid] at hv
    cases hv
  · intro hc
    have hno : ∀ key, ¬ SpentIn block.vtx key := by
      rintro key ⟨tx, htx, hcb, -⟩
      rw [hc tx htx] at hcb
      cases hcb
    refine ⟨fun key hkey => (hno key hkey).elim, fun key hkey => ?_⟩
    rw [hf, Batch.write_of_notMem (fun hm => hkey ((hke key).1 hm))]

end Block

/-- A block with nothing but its coinbase. -/
def coinbaseBlock : CBlock := ⟨sampleHeader, [sampleCoinbase]⟩

theorem spentIndex_disconnectBlock_iff_coinbaseBlock :
    ∃ rows, indexesAfter twoCoins coinbaseBlock = some rows ∧
      (SpentIndexRestored coinbaseBlock.vtx { addressUnspentIndex := unspentRows sampleEnv twoCoins } rows ↔
        ∀ tx ∈ coinbaseBlock.vtx, tx.isCoinBase = true) := by
  have hru : (indexesAfter twoCoins coinbaseBlock).isSome = true := by decide +kernel
  obtain ⟨rows, hr⟩ := Option.isSome_iff_exists.1 hru
  obtain ⟨conn, rows', result, hc, hd, -⟩ := exists_of_indexesAfter hr
  exact ⟨rows, hr, spentIndex_disconnectBlock_iff rfl (by decide +kernel) (by decide +kernel) hc hd⟩

/-- The payments are gone, but their inputs are still reported as spent. -/
theorem payBlock_leaves_spent : ∃ rows, indexesAfter twoCoins payBlock = some rows ∧
      (rows.spentIndex sampleOutPoint.spentKey).map CSpentIndexValue.txid = some 31 ∧
      ¬ SpentIndexRestored payBlock.vtx { addressUnspentIndex := unspentRows sampleEnv twoCoins }
        rows := by
  have hru : ((indexesAfter twoCoins payBlock).any fun rows =>
      (rows.spentIndex sampleOutPoint.spentKey).map CSpentIndexValue.txid = some 31) = true := by
    decide +kernel
  obtain ⟨rows, hro, hl⟩ := (Option.any_eq_true _ _).1 hru
  rw [decide_eq_true_eq] at hl
  refine ⟨rows, hro, hl, fun hr => ?_⟩
  have hin : SpentIn payBlock.vtx sampleOutPoint.spentKey :=
    ⟨payTx 31 sampleOutPoint (900 * coin), List.mem_cons_of_mem _ List.mem_cons_self, rfl, _,
      List.mem_singleton_self _, rfl⟩
  rw [hr.removed _ hin] at hl
  cases hl

end Cmusic
