import Cmusic.CheckTxAssets

/-! Asset amounts through an accepted transaction: what the running totals stand for. -/
namespace Cmusic

open Fallible Totals

variable (env : Env) (g : AssetGlobals) (cache : CAssetsCache) (view : CCoinsViewCache)
  {script : CScript} {entries : List (Str × CAmount)} {mempool : MempoolAssets} {txid : UInt256}
  {outs outs' : AssetOutputs} {tx : CTransaction}

/-- The asset name and amount carried by the coin an input spends. -/
def spentAsset (txin : CTxIn) : Option (Str × CAmount) := do
  let coin ← view.getCoin txin.prevout
  let data ← getAssetData env coin.out.scriptPubKey
  return (data.assetName, data.nAmount)

def spentAssets (tx : CTransaction) : List (Str × CAmount) :=
  tx.vin.filterMap (spentAsset env view)

/-- The asset name and amount of a transfer output. -/
def transferredAsset (out : CTxOut) : Option (Str × CAmount) :=
  (transferAssetFromScript env out.scriptPubKey).map fun (transfer, _) =>
    (transfer.strName, transfer.nAmount)

def transferredAssets (tx : CTransaction) : List (Str × CAmount) :=
  tx.vout.filterMap (transferredAsset env)

variable {env g cache view}

theorem getAssetData_eq_none (h : CScript.isAssetScript script = none) :
    getAssetData env script = none := by
  simp [getAssetData, h]

theorem transferAssetFromScript_eq_none
    (h : (CScript.isAssetScript script).map CScript.AssetScript.nType ≠ some .transferAsset) :
    transferAssetFromScript env script = none := by
  cases hs : CScript.isAssetScript script with
  | none => simp [transferAssetFromScript, CScript.isScriptTransferAsset, CScript.assetScriptOf, hs]
  | some s =>
    have hne : s.nType ≠ .transferAsset := by simpa [hs] using h
    simp [transferAssetFromScript, CScript.isScriptTransferAsset, CScript.assetScriptOf, hs, hne]

theorem scanAssetInput_collects {totals totals' : StrMap CAmount} {txin : CTxIn}
    (h : Collects entries totals)
    (hsc : scanAssetInput env g cache view totals txin = .ok totals') :
    Collects (entries ++ (spentAsset env view txin).toList) totals' := by
  simp only [scanAssetInput, rejectIf, bind_eq_ok, payloadOr_eq_ok] at hsc
  obtain ⟨coin, hc, hsc⟩ := hsc
  cases hs : CScript.isAssetScript coin.out.scriptPubKey with
  | none =>
    have hn : spentAsset env view txin = none := by
      simp [spentAsset, hc, getAssetData_eq_none hs]
    have ht : totals = totals' := by simpa [hs] using hsc
    simpa [hn, ← ht] using h
  | some s =>
    simp only [hs, Option.isSome_some, if_true, bind_eq_ok, payloadOr_eq_ok, pure_eq_ok] at hsc
    obtain ⟨data, hd, -, -, rfl⟩ := hsc
    simpa [spentAsset, hc, hd] using h.add data.assetName data.nAmount

theorem noteReissue_totalOutputs {name : Str} (h : noteReissue mempool txid outs name = .ok outs') :
    outs'.totalOutputs = outs.totalOutputs := by
  cases hname : mempool.mapReissuedAssets[name]? with
  | none =>
    simp only [noteReissue, hname, pure_eq_ok] at h
    rw [← h]
  | some hash =>
    simp only [noteReissue, hname, rejectIf, failIf_bind_eq_ok, pure_eq_ok] at h
    rw [h.2]

theorem scanAssetOutput_collects {txout : CTxOut} (h : Collects entries outs.totalOutputs)
    (hsc : scanAssetOutput env g cache mempool txid outs txout = .ok outs') :
    Collects (entries ++ (transferredAsset env txout).toList) outs'.totalOutputs := by
  simp only [scanAssetOutput, rejectIf, bind_eq_ok] at hsc
  obtain ⟨-, -, -, -, hsc⟩ := hsc
  split at hsc
  case h_1 =>
    simp only [bind_eq_ok, payloadOr_eq_ok, pure_eq_ok] at hsc
    obtain ⟨⟨transfer, address⟩, ht, -, -, -, -, rfl⟩ := hsc
    simpa [transferredAsset, ht] using h.add transfer.strName transfer.nAmount
  case h_2 heq =>
    have hn : transferAssetFromScript env txout.scriptPubKey = none :=
      transferAssetFromScript_eq_none (by rw [heq]; simp)
    simp only [bind_eq_ok, payloadOr_eq_ok] at hsc
    obtain ⟨⟨reissue, _⟩, -, hno⟩ := hsc
    simpa [transferredAsset, hn, noteReissue_totalOutputs hno] using h
  case h_3 hne _ =>
    have hn : transferAssetFromScript env txout.scriptPubKey = none :=
      transferAssetFromScript_eq_none hne
    have ho : outs = outs' := by simpa using hsc
    simpa [transferredAsset, hn, ← ho] using h

theorem compareTotals_agree {ins outs : StrMap CAmount} (h : compareTotals ins outs = .ok ()) :
    Agree ins outs := by
  simp only [compareTotals, bind_eq_ok, forM_eq_ok, rejectIf, failIf_eq_ok] at h
  obtain ⟨-, ha, hsi⟩ := h
  refine ⟨fun key total hout => ?_, by simpa using hsi⟩
  have hkey := ha (key, total) (Std.TreeMap.mem_toList_iff_getElem?_eq_some.2 hout)
  cases hin : ins[key]? with
  | none => simp [hin] at hkey
  | some total' =>
    have heq : total' = total := by simpa [hin] using hkey
    rw [heq]

/-- An accepted transaction's running totals collect its inputs and its transfers, and agree. -/
theorem checkTxAssets_collects {fCheckMempool : Bool} {reissues : List (Str × UInt256)}
    (h : checkTxAssets env g cache tx view mempool fCheckMempool = .ok reissues) :
    ∃ ins outs : StrMap CAmount, Collects (spentAssets env view tx) ins ∧
      Collects (transferredAssets env tx) outs ∧ Agree ins outs := by
  simp only [checkTxAssets, bind_eq_ok] at h
  obtain ⟨-, -, ins, hin, outs, hout, -, -, _, hc, -⟩ := h
  refine ⟨ins, outs.totalOutputs, ?_, ?_, compareTotals_agree hc⟩
  · exact collects_foldlM id hin collects_nil
      fun _ _ _ _ => scanAssetInput_collects
  · exact collects_foldlM AssetOutputs.totalOutputs hout collects_nil
      fun _ _ _ _ => scanAssetOutput_collects

variable (env g cache view)

/-- A transaction that spends coins of the view and passes both checks, under some flags and next
to some memory pool. -/
structure Accepted (tx : CTransaction) : Prop where
  notCoinBase : tx.isCoinBase = false
  transaction : ∃ fCheckDuplicateInputs fMempoolCheck fBlockCheck,
    checkTransaction env tx fCheckDuplicateInputs fMempoolCheck fBlockCheck = .ok ()
  assets : ∃ mempool fCheckMempool reissues,
    checkTxAssets env g cache tx view mempool fCheckMempool = .ok reissues

/-- Each asset leaves the transaction in the amount in which it came. -/
def Conserves (tx : CTransaction) : Prop :=
  ∀ name, exactSum (spentAssets env view tx) name = exactSum (transferredAssets env tx) name

/-- Adding up the amounts of an asset overflows equally often on both sides. -/
def OverflowsAlike (tx : CTransaction) : Prop :=
  ∀ name, overflows (spentAssets env view tx) name = overflows (transferredAssets env tx) name

variable {env g cache view}

/-- What an accepted transaction transfers it also spends, and the other way round. -/
theorem Accepted.mem_spent_iff (h : Accepted env g cache view tx) (name : Str) :
    name ∈ (spentAssets env view tx).map Prod.fst ↔
      name ∈ (transferredAssets env tx).map Prod.fst := by
  obtain ⟨_, _, _, ha⟩ := h.assets
  obtain ⟨ins, outs, hin, hout, hag⟩ := checkTxAssets_collects ha
  rw [← hin.mem_iff, ← hout.mem_iff, hag.mem_iff]

/-- Assets are conserved exactly when the running totals overflow alike: the amounts of the
outputs are only required to be positive, so nothing keeps their sum below `2 ^ 63`. -/
theorem conserves_iff_overflowsAlike {tx : CTransaction} (h : Accepted env g cache view tx) :
    Conserves env view tx ↔ OverflowsAlike env view tx := by
  obtain ⟨_, _, _, ha⟩ := h.assets
  obtain ⟨ins, outs, hin, hout, hag⟩ := checkTxAssets_collects ha
  exact forall_congr' fun name => hag.exactSum_eq_iff hin hout name

/-- The key hash of the address to which regtest burns the fee of a message channel. -/
def channelBurnKey : Str :=
  [221, 163, 210, 23, 165, 155, 15, 85, 13, 105, 235, 59, 226, 189, 207, 40, 131, 185, 69, 139]

/-- The key hash of the address to which regtest burns the fee of a reissue. -/
def reissueBurnKey : Str :=
  [218, 97, 196, 122, 219, 173, 74, 129, 229, 241, 78, 31, 171, 179, 209, 103, 165, 28, 164, 72]

/-- The first bytes of the double SHA-256 of the regtest key hashes used in the samples. -/
def sampleChecksums : List (Str × Str) :=
  [(111 :: List.replicate 20 1, [152, 213, 111, 209]), (111 :: channelBurnKey, [62, 124, 130, 220]),
    (111 :: reissueBurnKey, [135, 250, 201, 54])]

/-- The regtest network with everything deployed. -/
def sampleEnv : Env where
  params := regTestParams
  hash160 := id
  hash256 payload := (sampleChecksums.lookup payload).getD []
  areAssetsDeployed := true
  areMessagesDeployed := true
  areRestrictedAssetsDeployed := true
  areTransferScriptsSizeDeployed := true
  areEnforcedValuesDeployed := true
  areCoinbaseCheckAssetsDeployed := true
  fAssetIndex := true
  fReindex := false

/-- The same network, with the checksum of another key hash. -/
def burnEnv (key checksum : Str) : Env :=
  { sampleEnv with hash256 := fun payload =>
      (((111 :: key, checksum) :: sampleChecksums).lookup payload).getD [] }

def sampleScript : CScript := CScript.payToPubKeyHash (List.replicate 20 1)

/-- An output that transfers an amount of an asset. -/
def sampleTransfer (name : String) (nAmount : CAmount) : CTxOut :=
  ⟨0, CAssetTransfer.constructTransaction { strName := str name, nAmount } sampleScript⟩

def emptyDB : AssetDB where
  assetData _ := none
  assetAddressQuantity _ := none
  verifier _ := none
  addressQualifier _ := false
  addressRootQualifier _ := false
  restrictedAddress _ := false
  globalRestriction _ := false

/-- Databases that know one asset. -/
def sampleGlobals (asset : CNewAsset) : AssetGlobals where
  passets := {}
  db := { emptyDB with
    assetData := fun name => if name = asset.strName then some ⟨asset, 1, 1⟩ else none }

def sampleOutPoint : COutPoint := ⟨7, 0⟩

/-- A view holding one coin, of the given output. -/
def sampleView (out : CTxOut) : CCoinsViewCache where
  base := (∅ : Std.TreeMap COutPoint Coin).insert sampleOutPoint ⟨out, 1, false⟩

/-- A transaction that spends the coin of the view. -/
def sampleTx (vout : List CTxOut) : CTransaction where
  hash := 9
  nVersion := 2
  vin := [⟨sampleOutPoint, [], 0xffffffff⟩]
  vout := vout
  nLockTime := 0

/-- One unit in, `2 ^ 64 + 1` units out. -/
def wrappingTx : CTransaction :=
  sampleTx [sampleTransfer "MUSIC" Int64.maxValue, sampleTransfer "MUSIC" Int64.maxValue,
    sampleTransfer "MUSIC" 3]

def sampleMusic : CNewAsset := { strName := str "MUSIC", nAmount := 100000000, units := 8 }

theorem accepted_of_checks (hcb : tx.isCoinBase = false)
    (htx : (checkTransaction env tx true false true).isOk = true)
    (ha : (checkTxAssets env g cache tx view {} false).isOk = true) :
    Accepted env g cache view tx := by
  obtain ⟨_, htx⟩ := isOk_iff.1 htx
  exact ⟨hcb, ⟨true, false, true, htx⟩, {}, false, isOk_iff.1 ha⟩

theorem accepted_wrappingTx :
    Accepted sampleEnv (sampleGlobals sampleMusic) {} (sampleView (sampleTransfer "MUSIC" 1))
      wrappingTx :=
  accepted_of_checks (by decide) (by decide +kernel) (by decide +kernel)

theorem conserves_iff_overflowsAlike_wrappingTx : let view := sampleView (sampleTransfer "MUSIC" 1)
    Accepted sampleEnv (sampleGlobals sampleMusic) {} view wrappingTx ∧
      (Conserves sampleEnv view wrappingTx ↔ OverflowsAlike sampleEnv view wrappingTx) :=
  ⟨accepted_wrappingTx, conserves_iff_overflowsAlike accepted_wrappingTx⟩

/-- An accepted transaction that turns one unit of an asset into `2 ^ 64 + 1` units. -/
theorem wrappingTx_not_conserves : let view := sampleView (sampleTransfer "MUSIC" 1)
    Accepted sampleEnv (sampleGlobals sampleMusic) {} view wrappingTx ∧
      exactSum (spentAssets sampleEnv view wrappingTx) (str "MUSIC") = 1 ∧
      exactSum (transferredAssets sampleEnv wrappingTx) (str "MUSIC") = 2 ^ 64 + 1 ∧
      ¬ Conserves sampleEnv view wrappingTx := by
  intro view
  have hin : exactSum (spentAssets sampleEnv view wrappingTx) (str "MUSIC") = 1 := by
    decide +kernel
  have hout : exactSum (transferredAssets sampleEnv wrappingTx) (str "MUSIC") = 2 ^ 64 + 1 := by
    decide +kernel
  refine ⟨accepted_wrappingTx, hin, hout, fun h => ?_⟩
  have heq := h (str "MUSIC")
  omega

end Cmusic
