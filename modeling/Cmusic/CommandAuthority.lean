import Cmusic.Authority
import Cmusic.QualifierNames

/-! The token a transaction must spend in order to tag an address or to freeze a restricted asset. -/
namespace Cmusic

open Fallible Pattern

variable (env : Env) {script : CScript} {fMempoolCheck fBlockCheck : Bool}

/-- What the outputs read so far have left in the sets of `CheckTransaction`. -/
structure NullScanned (outs : List CTxOut) (scan : TxOutScan) : Prop where
  data : ∀ out ∈ outs, ∀ data address,
    assetNullDataFromScript env out.scriptPubKey = some (data, address) →
      (data.assetName, address) ∈ scan.setNullDataTx
  globals : ∀ out ∈ outs, ∀ data, globalAssetNullDataFromScript out.scriptPubKey = some data →
    data.assetName ∈ scan.setNullGlobalAssetChanges
  transfers : ∀ name ∈ scan.setAssetTransferNames,
    name ∈ (outs.filterMap (transferredAsset env)).map Prod.fst

variable {env} {outs : List CTxOut} {scan scan' : TxOutScan} {txout : CTxOut}

theorem isNullAssetTxDataScript_of_data {p : CNullAssetTxData × Str}
    (h : assetNullDataFromScript env script = some p) :
    CScript.isNullAssetTxDataScript script = true := by
  by_contra hn
  simp [assetNullDataFromScript, hn] at h

theorem isNullGlobal_of_data {data : CNullAssetTxData}
    (h : globalAssetNullDataFromScript script = some data) :
    CScript.isNullGlobalRestrictionAssetTxDataScript script = true ∧
      CScript.isNullAssetTxDataScript script = false := by
  have hg : CScript.isNullGlobalRestrictionAssetTxDataScript script = true := by
    by_contra hn
    simp [globalAssetNullDataFromScript, hn] at h
  refine ⟨hg, ?_⟩
  -- the second byte tells the two kinds apart
  simp only [CScript.isNullGlobalRestrictionAssetTxDataScript, Bool.and_eq_true,
    decide_eq_true_eq] at hg
  have hne : opReserved ≠ 0x14 := by decide
  simp [CScript.isNullAssetTxDataScript, hg.1.2, hne]

/-- The null-data part of the loop notes what the output says. -/
theorem of_scanNullAsset (h : scanNullAsset env scan txout = .ok scan') :
    (∀ data address, assetNullDataFromScript env txout.scriptPubKey = some (data, address) →
      (data.assetName, address) ∈ scan'.setNullDataTx) ∧
    (∀ data, globalAssetNullDataFromScript txout.scriptPubKey = some data →
      data.assetName ∈ scan'.setNullGlobalAssetChanges) ∧
    (∀ pair ∈ scan.setNullDataTx, pair ∈ scan'.setNullDataTx) ∧
    (∀ name ∈ scan.setNullGlobalAssetChanges, name ∈ scan'.setNullGlobalAssetChanges) ∧
    scan'.setAssetTransferNames = scan.setAssetTransferNames := by
  unfold scanNullAsset at h
  dsimp only at h
  split at h
  next hd =>
    have hg : globalAssetNullDataFromScript txout.scriptPubKey = none := by
      by_contra hso
      obtain ⟨data, hr⟩ := Option.ne_none_iff_exists'.1 hso
      rw [(isNullGlobal_of_data hr).2] at hd
      cases hd
    split at h
    · cases h
    next data address hr =>
      simp only [rejectIf, bind_eq_ok, pure_eq_ok] at h
      obtain ⟨-, -, -, -, rfl⟩ := h
      simp only [hr, hg, Std.TreeSet.mem_insert]
      refine ⟨?_, by simp, fun pair hp => Or.inr hp, fun name hname => hname, trivial⟩
      rintro data' address' hsa
      cases hsa
      exact Or.inl Std.ReflCmp.compare_self
  next hd =>
    have hno : assetNullDataFromScript env txout.scriptPubKey = none := by
      by_contra hso
      obtain ⟨data, hr⟩ := Option.ne_none_iff_exists'.1 hso
      exact hd (isNullAssetTxDataScript_of_data hr)
    split at h
    next hg =>
      split at h
      · cases h
      next data hr =>
        simp only [rejectIf, bind_eq_ok, pure_eq_ok] at h
        obtain ⟨-, -, -, -, rfl⟩ := h
        simp only [hr, hno, Std.TreeSet.mem_insert]
        refine ⟨by simp, ?_, fun pair hp => hp, fun name hname => Or.inr hname, trivial⟩
        rintro data' hsa
        cases hsa
        exact Or.inl Std.ReflCmp.compare_self
    next hg =>
      have hn : globalAssetNullDataFromScript txout.scriptPubKey = none := by
        by_contra hso
        obtain ⟨data, hr⟩ := Option.ne_none_iff_exists'.1 hso
        exact hg (isNullGlobal_of_data hr).1
      simp only [hno, hn]
      split at h
      · simp only [rejectIf, bind_eq_ok, pure_eq_ok] at h
        obtain ⟨-, -, -, -, rfl⟩ := h
        exact ⟨by simp, by simp, fun _ h => h, fun _ h => h, rfl⟩
      · cases h
        exact ⟨by simp, by simp, fun _ h => h, fun _ h => h, rfl⟩

/-- The asset part notes a transfer. -/
theorem of_scanAsset (h : scanAsset env fMempoolCheck fBlockCheck scan txout = .ok scan') :
    scan'.setNullDataTx = scan.setNullDataTx ∧
    scan'.setNullGlobalAssetChanges = scan.setNullGlobalAssetChanges ∧
    ∀ name ∈ scan'.setAssetTransferNames, name ∈ scan.setAssetTransferNames ∨
      (transferredAsset env txout).map Prod.fst = some name := by
  have hsa : scan' = scan → scan'.setNullDataTx = scan.setNullDataTx ∧
      scan'.setNullGlobalAssetChanges = scan.setNullGlobalAssetChanges ∧
      ∀ name ∈ scan'.setAssetTransferNames, name ∈ scan.setAssetTransferNames ∨
        (transferredAsset env txout).map Prod.fst = some name := by
    rintro rfl
    exact ⟨rfl, rfl, fun name hname => Or.inl hname⟩
  unfold scanAsset at h
  split at h
  · exact hsa (pure_eq_ok.1 h).symm
  · split at h
    · split at h
      · cases h
      next transfer address hr =>
        simp only [bind_eq_ok, pure_eq_ok] at h
        obtain ⟨-, -, rfl⟩ := h
        refine ⟨rfl, rfl, fun name hname => ?_⟩
        rcases Maps.mem_set_insert.1 hname with rfl | ho
        · exact Or.inr (by simp [transferredAsset, hr])
        · exact Or.inl ho
    · simp only [rejectIf, bind_eq_ok, pure_eq_ok] at h
      obtain ⟨-, -, rfl⟩ := h
      exact hsa rfl
    · simp only [rejectIf, bind_eq_ok, pure_eq_ok] at h
      obtain ⟨-, -, -, -, rfl⟩ := h
      exact hsa rfl
    · cases h

theorem nullScanned_step (hsc : NullScanned env outs scan)
    (h : scanTxOut env fMempoolCheck fBlockCheck scan txout = .ok scan') :
    NullScanned env (outs ++ [txout]) scan' := by
  simp only [scanTxOut, rejectIf, bind_eq_ok] at h
  obtain ⟨-, -, -, -, -, -, mid, hnu, ha⟩ := h
  obtain ⟨hd, hg, hkee, hke, hn⟩ := of_scanNullAsset hnu
  obtain ⟨hsam, hsa, ht⟩ := of_scanAsset ha
  refine ⟨?_, ?_, ?_⟩
  · intro out hout data address hr
    rw [hsam]
    rcases List.mem_append.1 hout with ho | hnew
    · exact hkee _ (hsc.data out ho data address hr)
    · obtain rfl := List.mem_singleton.1 hnew
      exact hd data address hr
  · intro out hout data hr
    rw [hsa]
    rcases List.mem_append.1 hout with ho | hnew
    · exact hke _ (hsc.globals out ho data hr)
    · obtain rfl := List.mem_singleton.1 hnew
      exact hg data hr
  · intro name hname
    rw [List.filterMap_append, List.map_append, List.mem_append]
    rcases ht name hname with ho | hnew
    · rw [hn] at ho
      exact Or.inl (hsc.transfers name ho)
    · obtain ⟨p, hp, rfl⟩ := Option.map_eq_some_iff.1 hnew
      exact Or.inr (by simp [hp])

variable {tx : CTransaction}

/-- The token that `CheckTransaction` asks for is among the transfers. -/
theorem transferred_of_checkTransaction {fCheckDuplicateInputs : Bool}
    (h : checkTransaction env tx fCheckDuplicateInputs fMempoolCheck fBlockCheck = .ok ()) :
    ∀ out ∈ tx.vout,
      (∀ data address, assetNullDataFromScript env out.scriptPubKey = some (data, address) →
        (if data.assetName.headD 0 = restrictedChar then data.assetName.drop 1 ++ ownerTag
          else data.assetName) ∈ (transferredAssets env tx).map Prod.fst) ∧
      ∀ data, globalAssetNullDataFromScript out.scriptPubKey = some data →
        data.assetName.drop 1 ++ ownerTag ∈ (transferredAssets env tx).map Prod.fst := by
  simp only [checkTransaction, bind_eq_ok] at h
  obtain ⟨-, -, -, -, -, -, scan, hsca, -, -, _, ha, -⟩ := h
  have hsc : NullScanned env tx.vout scan := by
    refine foldlM_invariant (NullScanned env) hsca ⟨by simp, by simp, ?_⟩
      fun _ _ _ _ => nullScanned_step
    exact fun name hname => absurd hname Std.TreeSet.not_mem_emptyc
  simp only [checkNullDataAuthority, bind_eq_ok, forM_eq_ok] at ha
  obtain ⟨_, hd, hg⟩ := ha
  intro out hout
  refine ⟨fun data address hr => ?_, fun data hr => ?_⟩
  · have hc := hd _ (Std.TreeSet.mem_toList.2 (hsc.data out hout data address hr))
    split at hc
    next hh =>
      rw [if_pos hh]
      refine hsc.transfers _ ?_
      simpa [rejectIf] using hc
    next hh =>
      rw [if_neg hh]
      refine hsc.transfers _ ?_
      simpa [rejectIf] using hc
  · have hc := hg _ (Std.TreeSet.mem_toList.2 (hsc.globals out hout data hr))
    obtain ⟨_, -, hc⟩ := hc
    refine hsc.transfers _ ?_
    simpa [rejectIf] using hc

theorem head_of_isAssetNameAQualifier {name : Str} (h : isAssetNameAQualifier name false = true) :
    name.headD 0 ≠ restrictedChar := by
  have hsi : ∃ rest, name = 35 :: rest := by
    simp only [isAssetNameAQualifier, Bool.false_eq_true, if_false, Bool.and_eq_true,
      Bool.or_eq_true] at h
    rcases h.2 with hr | hsu
    · simp only [qualifierIndicator, matches_cons, matches_nil, accepts_atLeast, accepts_one] at hr
      obtain ⟨_, _, rfl, ⟨c, rfl, hc⟩, -⟩ := hr
      have hc : c = 35 := by simpa [isOneOf, str] using hc
      exact ⟨_, by rw [hc]; rfl⟩
    · obtain ⟨root, tag, rfl, -⟩ := exists_of_matches_subQualifierIndicator hsu
      exact ⟨_, rfl⟩
  obtain ⟨rest, rfl⟩ := hsi
  exact (by decide : (35 : UInt8) ≠ restrictedChar)

variable (env)

/-- The tokens behind the null data of an output are spent. -/
structure CommandAuthorised (view : CCoinsViewCache) (tx : CTransaction) (out : CTxOut) : Prop where
  tag : ∀ data address, assetNullDataFromScript env out.scriptPubKey = some (data, address) →
    isAssetNameAQualifier data.assetName false = true →
      data.assetName ∈ (spentAssets env view tx).map Prod.fst
  freeze : ∀ data address root,
    assetNullDataFromScript env out.scriptPubKey = some (data, address) →
      data.assetName = restrictedChar :: root →
        root ++ ownerTag ∈ (spentAssets env view tx).map Prod.fst
  globalFreeze : ∀ data root, globalAssetNullDataFromScript out.scriptPubKey = some data →
    data.assetName = restrictedChar :: root →
      root ++ ownerTag ∈ (spentAssets env view tx).map Prod.fst

variable {env} {g : AssetGlobals} {cache : CAssetsCache} {view : CCoinsViewCache}

/-- Only who spends the qualifier can tag with it, and only who spends the owner token can freeze. -/
theorem commandAuthorised_of_accepted (h : Accepted env g cache view tx) :
    ∀ out ∈ tx.vout, CommandAuthorised env view tx out := by
  obtain ⟨_, _, _, htx⟩ := h.transaction
  intro out hout
  obtain ⟨hd, hg⟩ := transferred_of_checkTransaction htx out hout
  refine ⟨fun data address hr hqualifier => ?_, fun data address root hr hname => ?_,
    fun data root hr hname => ?_⟩
  · have ht := hd data address hr
    rw [if_neg (head_of_isAssetNameAQualifier hqualifier)] at ht
    exact (h.mem_spent_iff _).2 ht
  · have ht := hd data address hr
    rw [hname] at ht
    exact (h.mem_spent_iff _).2 ht
  · have ht := hg data hr
    rw [hname] at ht
    exact (h.mem_spent_iff _).2 ht

/-- Freezes an asset at an address and as a whole, and spends nothing but the owner token. -/
def freezingTx : CTransaction :=
  sampleTx [sampleTransfer "MUSIC!" ownerAssetAmount,
    ⟨0, CNullAssetTxData.constructTransaction ⟨str "$MUSIC", 1⟩
      (getScriptForNullAssetDataDestination (List.replicate 20 1))⟩,
    ⟨0, CNullAssetTxData.constructGlobalRestrictionTransaction ⟨str "$MUSIC", 1⟩⟩]

theorem commandAuthorised_of_accepted_freezingTx :
    let view := sampleView (sampleTransfer "MUSIC!" ownerAssetAmount)
    Accepted sampleEnv (sampleGlobals sampleMusic) {} view freezingTx ∧
      ∀ out ∈ freezingTx.vout, CommandAuthorised sampleEnv view freezingTx out := by
  have ha : Accepted sampleEnv (sampleGlobals sampleMusic) {}
      (sampleView (sampleTransfer "MUSIC!" ownerAssetAmount)) freezingTx :=
    accepted_of_checks (by decide) (by decide +kernel) (by decide +kernel)
  exact ⟨ha, commandAuthorised_of_accepted ha⟩

end Cmusic
