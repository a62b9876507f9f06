import Cmusic.Inflation

/-! What the memory pool of a node can change in its verdict on a block. -/
namespace Cmusic

open Fallible Std

/-- The asset that an output reissues. -/
def reissuedBy (env : Env) (out : CTxOut) : Option Str :=
  match (CScript.isAssetScript out.scriptPubKey).map CScript.AssetScript.nType with
  | some .reissueAsset => (reissueAssetFromScript env out.scriptPubKey).map fun p => p.1.strName
  | _ => none

/-- The pool remembers another transaction as the one that reissues the asset. -/
def outConflict (env : Env) (mempool : MempoolAssets) (txid : UInt256) (out : CTxOut) : Bool :=
  (reissuedBy env out).any fun name => mempool.mapReissuedAssets[name]?.any fun hash => hash ≠ txid

def txConflict (env : Env) (mempool : MempoolAssets) (tx : CTransaction) : Bool :=
  env.areAssetsDeployed && !tx.isCoinBase && tx.vout.any (outConflict env mempool tx.hash)

/-- A reissue in the block competes with one that the pool remembers. -/
def blockConflict (rules : BlockRules) (env : Env) (mempool : MempoolAssets) (block : CBlock) :
    Bool :=
  block.header.getHash rules.params ≠ rules.params.hashGenesisBlock &&
    block.vtx.any (txConflict env mempool)

variable {env : Env} {g : AssetGlobals} {cache : CAssetsCache} {mempool : MempoolAssets}
  {txid : UInt256} {outs outs₀ : AssetOutputs} {totals : StrMap CAmount} {out : CTxOut}

theorem noteReissue_iff {name : Str} (h : outs.totalOutputs = outs₀.totalOutputs) :
    (∃ r, noteReissue mempool txid outs name = .ok r ∧ r.totalOutputs = totals) ↔
      (mempool.mapReissuedAssets[name]?.any fun hash => hash ≠ txid) = false ∧
        ∃ r, noteReissue {} txid outs₀ name = .ok r ∧ r.totalOutputs = totals := by
  have he : ∃ r, noteReissue {} txid outs₀ name = .ok r ∧ r.totalOutputs = outs₀.totalOutputs := by
    simp [noteReissue, pure, Except.pure]
  have ht : ∀ {mempool outs r}, noteReissue mempool txid outs name = .ok r →
      r.totalOutputs = outs.totalOutputs := fun hr => noteReissue_totalOutputs hr
  constructor
  · rintro ⟨r, hr, rfl⟩
    obtain ⟨r₀, hr₀, heq⟩ := he
    refine ⟨?_, r₀, hr₀, by rw [heq, ht hr, h]⟩
    unfold noteReissue at hr
    split at hr
    next hash hh =>
      simp only [rejectIf, failIf_bind_eq_ok] at hr
      simpa [hh] using hr.1
    next hn => simp [hn]
  · rintro ⟨hf, r₀, hr₀, rfl⟩
    unfold noteReissue
    cases hm : mempool.mapReissuedAssets[name]? with
    | none => exact ⟨_, rfl, by rw [ht hr₀, h]⟩
    | some hash =>
      rw [hm, Option.any_some] at hf
      refine ⟨outs, ?_, by rw [ht hr₀, h]⟩
      simp only [rejectIf, failIf_bind_eq_ok, pure_eq_ok, and_true]
      exact hf

/-- What the output loop does with the kind of an output, after the checks that all share. -/
def scanKind (env : Env) (g : AssetGlobals) (cache : CAssetsCache) (mempool : MempoolAssets)
    (txid : UInt256) (outs : AssetOutputs) (out : CTxOut) (r : AssetOutputs) :
    Option TxnOutType → Prop
  | some .transferAsset => ∃ transfer address,
      transferAssetFromScript env out.scriptPubKey = some (transfer, address) ∧
      contextualCheckTransferAsset env g cache transfer address = .ok () ∧
      checkTransferUnits g cache transfer = .ok () ∧
      { outs with totalOutputs :=
          Totals.add outs.totalOutputs transfer.strName transfer.nAmount } = r
  | some .reissueAsset => ∃ reissue address,
      reissueAssetFromScript env out.scriptPubKey = some (reissue, address) ∧
      noteReissue mempool txid outs reissue.strName = .ok r
  | _ => outs = r

theorem scanAssetOutput_eq_ok {r : AssetOutputs} :
    scanAssetOutput env g cache mempool txid outs out = .ok r ↔
      ((CScript.isAssetScript out.scriptPubKey).isSome && !env.areAssetsDeployed) = false ∧
      checkNullAssetOut env g cache out = .ok () ∧
      scanKind env g cache mempool txid outs out r
        ((CScript.isAssetScript out.scriptPubKey).map CScript.AssetScript.nType) := by
  simp only [scanAssetOutput, rejectIf, failIf_bind_eq_ok]
  refine and_congr_right fun _ => ?_
  rw [bind_eq_ok, Unique.exists_iff]
  refine and_congr_right fun _ => ?_
  generalize (CScript.isAssetScript out.scriptPubKey).map CScript.AssetScript.nType = type
  split
  · simp only [scanKind, bind_eq_ok, payloadOr_eq_ok, pure_eq_ok, Prod.exists, rejectWith, mapError_eq_ok]
    constructor
    · rintro ⟨transfer, address, hp, _, hc, _, hu, hr⟩
      exact ⟨transfer, address, hp, hc, hu, hr⟩
    · rintro ⟨transfer, address, hp, hc, hu, hr⟩
      exact ⟨transfer, address, hp, (), hc, (), hu, hr⟩
  · simp only [scanKind, bind_eq_ok, payloadOr_eq_ok, Prod.exists]
  next ht hreissue =>
    unfold scanKind
    split
    · exact absurd rfl ht
    · exact absurd rfl hreissue
    · rw [pure_eq_ok]

/-- One turn of the output loop: the pool can only refuse a reissue. -/
theorem scanAssetOutput_iff (h : outs.totalOutputs = outs₀.totalOutputs) :
    (∃ r, scanAssetOutput env g cache mempool txid outs out = .ok r ∧ r.totalOutputs = totals) ↔
      outConflict env mempool txid out = false ∧
        ∃ r, scanAssetOutput env g cache {} txid outs₀ out = .ok r ∧ r.totalOutputs = totals := by
  simp only [scanAssetOutput_eq_ok, outConflict, reissuedBy]
  cases hty : (CScript.isAssetScript out.scriptPubKey).map CScript.AssetScript.nType with
  | none => simp [scanKind, h]
  | some type =>
    cases type with
    | reissueAsset =>
      cases hp : reissueAssetFromScript env out.scriptPubKey with
      | none => simp [scanKind, hp]
      | some p =>
        obtain ⟨reissue, address⟩ := p
        have hno : (∃ r, noteReissue mempool txid outs reissue.strName = .ok r ∧
            r.totalOutputs = totals) ↔ _ := noteReissue_iff h
        simp only [scanKind, hp, Option.some.injEq, Prod.mk.injEq, Option.map_some, Option.any_some]
        constructor
        · rintro ⟨r, ⟨ha, hn, _, _, ⟨rfl, rfl⟩, hr⟩, ht⟩
          obtain ⟨hf, r₀, hr₀, htotals₀⟩ := hno.1 ⟨r, hr, ht⟩
          exact ⟨hf, r₀, ⟨ha, hn, _, _, ⟨rfl, rfl⟩, hr₀⟩, htotals₀⟩
        · rintro ⟨hf, r₀, ⟨ha, hn, _, _, ⟨rfl, rfl⟩, hr₀⟩, htotals₀⟩
          obtain ⟨r, hr, ht⟩ := hno.2 ⟨hf, r₀, hr₀, htotals₀⟩
          exact ⟨r, ⟨ha, hn, _, _, ⟨rfl, rfl⟩, hr⟩, ht⟩
    | transferAsset =>
      simp only [scanKind, Option.any_none, true_and]
      constructor
      · rintro ⟨_, ⟨ha, hn, t, a, hp, hc, hu, rfl⟩, rfl⟩
        exact ⟨_, ⟨ha, hn, t, a, hp, hc, hu, rfl⟩, by rw [h]⟩
      · rintro ⟨_, ⟨ha, hn, t, a, hp, hc, hu, rfl⟩, rfl⟩
        exact ⟨_, ⟨ha, hn, t, a, hp, hc, hu, rfl⟩, by rw [h]⟩
    | _ => simp [scanKind, h]

/-- The whole output loop. -/
theorem foldlM_scanAssetOutput_iff {vout : List CTxOut} (h : outs.totalOutputs = outs₀.totalOutputs) :
    (∃ r, vout.foldlM (scanAssetOutput env g cache mempool txid) outs = .ok r ∧
        r.totalOutputs = totals) ↔
      vout.any (outConflict env mempool txid) = false ∧
        ∃ r, vout.foldlM (scanAssetOutput env g cache {} txid) outs₀ = .ok r ∧
          r.totalOutputs = totals := by
  induction vout generalizing outs outs₀ with
  | nil => simp [h]
  | cons out vout ih =>
    simp only [List.foldlM_cons, bind_eq_ok, List.any_cons, Bool.or_eq_false_iff]
    constructor
    · rintro ⟨r, ⟨mid, hstep, hr⟩, ht⟩
      obtain ⟨hf, mid₀, hstep₀, heq⟩ := (scanAssetOutput_iff h).1 ⟨mid, hstep, rfl⟩
      obtain ⟨hf', r₀, hrest₀, htotals₀⟩ := (ih heq.symm).1 ⟨r, hr, ht⟩
      exact ⟨⟨hf, hf'⟩, r₀, ⟨mid₀, hstep₀, hrest₀⟩, htotals₀⟩
    · rintro ⟨⟨hf, hf'⟩, r₀, ⟨mid₀, hstep₀, hrest₀⟩, htotals₀⟩
      obtain ⟨mid, hstep, heq⟩ := (scanAssetOutput_iff h).2 ⟨hf, mid₀, hstep₀, rfl⟩
      obtain ⟨r, hr, ht⟩ := (ih heq).2 ⟨hf', r₀, hrest₀, htotals₀⟩
      exact ⟨r, ⟨mid, hstep, hr⟩, ht⟩

theorem contextualCheckNewAsset_mempool (mempool : MempoolAssets) (asset : CNewAsset) :
    contextualCheckNewAsset env g cache asset mempool false =
      contextualCheckNewAsset env g cache asset {} false := by
  simp [contextualCheckNewAsset]

theorem contextualCheckAssetClass_mempool (tx : CTransaction) :
    contextualCheckAssetClass env g cache tx mempool false =
      contextualCheckAssetClass env g cache tx {} false := by
  simp only [contextualCheckAssetClass, contextualCheckUniqueAssetTx, contextualCheckRestrictedTx,
    contextualCheckNewAsset_mempool mempool]

/-- The asset checks of a transaction pass with a pool exactly when they pass without one and the
pool does not remember a competing reissue. -/
theorem checkTxAssets_iff {tx : CTransaction} {view : CCoinsViewCache} :
    (∃ r, checkTxAssets env g cache tx view mempool false = .ok r) ↔
      tx.vout.any (outConflict env mempool tx.hash) = false ∧
        ∃ r, checkTxAssets env g cache tx view {} false = .ok r := by
  simp only [checkTxAssets, rejectIf, bind_eq_ok, pure_eq_ok, contextualCheckAssetClass_mempool]
  constructor
  · rintro ⟨_, _, hi, ins, hin, outs, hout, _, hclass, _, ht, -⟩
    obtain ⟨hf, outs₀, hout₀, heq⟩ := (foldlM_scanAssetOutput_iff rfl).1 ⟨outs, hout, rfl⟩
    exact ⟨hf, _, (), hi, ins, hin, outs₀, hout₀, (), hclass, (), heq ▸ ht, rfl⟩
  · rintro ⟨hf, _, _, hi, ins, hin, outs₀, hout₀, _, hclass, _, ht, -⟩
    obtain ⟨outs, hout, heq⟩ := (foldlM_scanAssetOutput_iff rfl).2 ⟨hf, outs₀, hout₀, rfl⟩
    exact ⟨_, (), hi, ins, hin, outs, hout, (), hclass, (), heq ▸ ht, rfl⟩

section Block

variable {rules : BlockRules} {nHeight : Nat} {blockHash : UInt256} {tx : CTransaction}
  {conn conn' : Connected} {vtx : List CTransaction}

theorem connectAssets_iff {st : CoinState} (hcb : tx.isCoinBase = false) :
    connectAssets env g mempool st tx = .ok () ↔
      txConflict env mempool tx = false ∧ connectAssets env g {} st tx = .ok () := by
  cases ha : env.areAssetsDeployed with
  | false => simp [connectAssets, txConflict, ha]
  | true =>
    have hc : ∀ mempool, connectAssets env g mempool st tx = .ok () ↔
        ∃ r, checkTxAssets env g st.cache tx st.view mempool false = .ok r := by
      intro mempool
      simp only [connectAssets, ha, Bool.not_true, Bool.false_eq_true, if_false, bind_eq_ok,
        pure_eq_ok, and_true]
    rw [hc, hc, checkTxAssets_iff, txConflict, ha, hcb, Bool.not_false,
      Bool.true_and, Bool.true_and]

/-- A transaction is connected with a pool exactly when it is without one and does not compete;
the state after it is the same. -/
theorem connectTx_iff {fUndo : Bool} :
    connectTx rules env g mempool nHeight blockHash fUndo conn tx = .ok conn' ↔
      txConflict env mempool tx = false ∧
        connectTx rules env g {} nHeight blockHash fUndo conn tx = .ok conn' := by
  cases hcb : tx.isCoinBase with
  | true =>
    have hf : txConflict env mempool tx = false := by simp [txConflict, hcb]
    simp [connectTx_eq_ok, hcb, hf]
  | false =>
    simp only [connectTx_eq_ok, connectInputs_eq_ok, hcb, Bool.false_eq_true, if_false]
    constructor
    · rintro ⟨nFees, st, txundo, undo, ⟨txfee, hfe, hr, ha, hl⟩, hre⟩
      obtain ⟨hf, ha⟩ := (connectAssets_iff hcb).1 ha
      exact ⟨hf, nFees, st, txundo, undo, ⟨txfee, hfe, hr, ha, hl⟩, hre⟩
    · rintro ⟨hf, nFees, st, txundo, undo, ⟨txfee, hfe, hr, ha, hl⟩, hre⟩
      have ha := (connectAssets_iff hcb).2 ⟨hf, ha⟩
      exact ⟨nFees, st, txundo, undo, ⟨txfee, hfe, hr, ha, hl⟩, hre⟩

theorem foldlM_connectTx_iff :
    vtx.foldlM (connectTx rules env g mempool nHeight blockHash true) conn = .ok conn' ↔
      vtx.any (txConflict env mempool) = false ∧
        vtx.foldlM (connectTx rules env g {} nHeight blockHash true) conn = .ok conn' := by
  induction vtx generalizing conn with
  | nil => simp
  | cons tx vtx ih =>
    simp only [List.foldlM_cons, bind_eq_ok, List.any_cons, Bool.or_eq_false_iff]
    constructor
    · rintro ⟨mid, hstep, hr⟩
      obtain ⟨hf, hstep⟩ := connectTx_iff.1 hstep
      obtain ⟨hf', hr⟩ := ih.1 hr
      exact ⟨⟨hf, hf'⟩, mid, hstep, hr⟩
    · rintro ⟨⟨hf, hf'⟩, mid, hstep, hr⟩
      exact ⟨mid, connectTx_iff.2 ⟨hf, hstep⟩, ih.2 ⟨hf', hr⟩⟩

theorem connectTransactions_iff {st : CoinState} :
    connectTransactions rules env g mempool nHeight blockHash st vtx = .ok conn ↔
      vtx.any (txConflict env mempool) = false ∧
        connectTransactions rules env g {} nHeight blockHash st vtx = .ok conn := by
  cases vtx with
  | nil => simp [connectTransactions]
  | cons coinbase rest =>
    simp only [connectTransactions, bind_eq_ok, List.any_cons, Bool.or_eq_false_iff]
    constructor
    · rintro ⟨first, hfirst, last, hl, hr⟩
      obtain ⟨hf, hfirst⟩ := connectTx_iff.1 hfirst
      obtain ⟨hf', hl⟩ := foldlM_connectTx_iff.1 hl
      exact ⟨⟨hf, hf'⟩, first, hfirst, last, hl, hr⟩
    · rintro ⟨⟨hf, hf'⟩, first, hfirst, last, hl, hr⟩
      exact ⟨first, connectTx_iff.2 ⟨hf, hfirst⟩, last, foldlM_connectTx_iff.2 ⟨hf', hl⟩, hr⟩

variable {node : NodeState} {st : CoinState} {block : CBlock}

/-- What a pool can change: it refuses the blocks with a competing reissue, and nothing else. -/
theorem connectBlock_iff : connectBlock rules env g mempool node nHeight st block = .ok conn ↔
      blockConflict rules env mempool block = false ∧
        connectBlock rules env g {} node nHeight st block = .ok conn := by
  simp only [connectBlock, bind_eq_ok, blockConflict]
  by_cases hg : block.header.getHash rules.params = rules.params.hashGenesisBlock
  · simp [hg]
  · simp only [hg, if_false, ne_eq, not_false_eq_true, decide_true, Bool.true_and]
    constructor
    · rintro ⟨_, hch, hc⟩
      obtain ⟨hf, hc⟩ := connectTransactions_iff.1 hc
      exact ⟨hf, (), hch, hc⟩
    · rintro ⟨hf, _, hch, hc⟩
      exact ⟨(), hch, connectTransactions_iff.2 ⟨hf, hc⟩⟩

/-- The verdict of a node with the given pool. -/
def accepts (rules : BlockRules) (env : Env) (g : AssetGlobals) (node : NodeState) (nHeight : Nat)
    (st : CoinState) (block : CBlock) (mempool : MempoolAssets) : Prop :=
  ∃ conn, connectBlock rules env g mempool node nHeight st block = .ok conn

theorem accepts_iff_empty : accepts rules env g node nHeight st block mempool ↔
    blockConflict rules env mempool block = false ∧
      accepts rules env g node nHeight st block {} := by
  constructor
  · rintro ⟨conn, hc⟩
    obtain ⟨hf, hc⟩ := connectBlock_iff.1 hc
    exact ⟨hf, conn, hc⟩
  · rintro ⟨hf, conn, hc⟩
    exact ⟨conn, connectBlock_iff.2 ⟨hf, hc⟩⟩

/-- Two pools give the same verdict on every block with which they compete alike; a block that
some node accepts gets the same verdict from no others. -/
theorem accepts_eq_iff_blockConflict (mempool mempool' : MempoolAssets) :
    ((blockConflict rules env mempool block = blockConflict rules env mempool' block) →
      (accepts rules env g node nHeight st block mempool ↔
        accepts rules env g node nHeight st block mempool')) ∧
    ((∃ other, accepts rules env g node nHeight st block other) →
      (accepts rules env g node nHeight st block mempool ↔
        accepts rules env g node nHeight st block mempool') →
      blockConflict rules env mempool block = blockConflict rules env mempool' block) := by
  constructor
  · intro hsa
    rw [accepts_iff_empty, hsa, ← accepts_iff_empty]
  · rintro ⟨other, ho⟩ hv
    have he := (accepts_iff_empty.1 ho).2
    have hf : ∀ pool, accepts rules env g node nHeight st block pool ↔
        blockConflict rules env pool block = false := fun pool =>
      accepts_iff_empty.trans (and_iff_left he)
    rw [hf, hf] at hv
    exact Bool.eq_iff_iff.2 (by simpa using not_congr hv)

end Block

/-- A block with one ordinary reissue. -/
def reissueBlock : CBlock := ⟨sampleHeader, [sampleCoinbase, payingReissue 0 sampleReissue]⟩

/-- A pool that remembers another transaction as the one that reissues the asset. -/
def competingPool : MempoolAssets where
  mapReissuedAssets := (∅ : StrMap UInt256).insert (str "MUSIC") 99

/-- The verdict of a regtest node on the block. -/
def acceptsReissue (mempool : MempoolAssets) : Prop :=
  accepts sampleRules sampleEnv ownedGlobals sampleNode 10
    { view := { base := ownedBase }, cache := {} } reissueBlock mempool

theorem acceptsReissue_empty : acceptsReissue {} := by
  have ht : totalAfter (connectBlock sampleRules sampleEnv ownedGlobals {} sampleNode 10
      { view := { base := ownedBase }, cache := {} } reissueBlock) = some (310 * 100000000) := by
    decide +kernel
  obtain ⟨conn, hc, -⟩ := exists_of_totalAfter ht
  exact ⟨conn, hc⟩

/-- A pool that remembers the reissue of another asset. -/
def unrelatedPool : MempoolAssets where
  mapReissuedAssets := (∅ : StrMap UInt256).insert (str "DANCE") 99

theorem accepts_eq_iff_blockConflict_reissueBlock :
    blockConflict sampleRules sampleEnv {} reissueBlock =
        blockConflict sampleRules sampleEnv unrelatedPool reissueBlock ∧
      (acceptsReissue {} ↔ acceptsReissue unrelatedPool) := by
  have hsa : blockConflict sampleRules sampleEnv {} reissueBlock =
      blockConflict sampleRules sampleEnv unrelatedPool reissueBlock := by decide +kernel
  exact ⟨hsa, (accepts_eq_iff_blockConflict {} unrelatedPool).1 hsa⟩

/-- The same chain state and the same block, but two pools and two verdicts. -/
theorem reissueBlock_verdict_differs : acceptsReissue {} ∧ ¬acceptsReissue competingPool := by
  have hc : blockConflict sampleRules sampleEnv competingPool reissueBlock = true := by
    decide +kernel
  refine ⟨acceptsReissue_empty, fun ha => ?_⟩
  have hf := (accepts_iff_empty.1 ha).1
  cases hf

end Cmusic
