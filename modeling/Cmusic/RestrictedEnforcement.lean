import Cmusic.Inflation
import Cmusic.QualifierNames

/-! The rules of a restricted asset over the transactions of an accepted block. -/
namespace Cmusic

open Fallible

variable (env : Env) (g : AssetGlobals) {script : CScript} {transfer : CAssetTransfer}
  {address : Str} {u : Unit} {mempool : MempoolAssets} {fCheckMempool : Bool}
  {reissues : List (Str × UInt256)}

/-- The verifier evaluates to true with the tags that the address has at the tip. -/
def VerifierHolds (verifier address : Str) : Prop :=
  verifier = str "true" ∨ ∃ found, checkVerifierString verifier = .ok found ∧
    LibBoolEE.resolve verifier (fun q =>
      if found.contains q then some (g.hasQualifier (qualifierChar :: q) address) else none) =
      some true

/-- What a transaction that moves the restricted asset `name` keeps to, all of it read at the tip. -/
structure RestrictedEnforced (view : CCoinsViewCache) (tx : CTransaction) (name : Str) : Prop where
  notGloballyFrozen : g.globallyFrozen name = false
  inputs : ∀ txin ∈ tx.vin, ∀ coin data, view.getCoin txin.prevout = some coin →
    getAssetData env coin.out.scriptPubKey = some data → data.assetName = name →
      g.frozen name data.address = false
  outputs : ∀ out ∈ tx.vout, ∀ transfer address,
    transferAssetFromScript env out.scriptPubKey = some (transfer, address) →
      transfer.strName = name →
        ∃ verifier, g.verifierString name = some verifier ∧ VerifierHolds g verifier address

variable {env g} {cache : CAssetsCache} {view : CCoinsViewCache} {tx : CTransaction}

theorem isAssetScript_of_transfer {p : CAssetTransfer × Str}
    (h : transferAssetFromScript env script = some p) :
    ∃ s, CScript.isAssetScript script = some s ∧ s.nType = .transferAsset := by
  by_contra hn
  rw [transferAssetFromScript_eq_none] at h
  · cases h
  · intro ht
    obtain ⟨s, hs, hki⟩ := Option.map_eq_some_iff.1 ht
    exact hn ⟨s, hs, hki⟩

theorem length_of_isAssetScript {s : CScript.AssetScript}
    (h : CScript.isAssetScript script = some s) : 31 < script.length := by
  unfold CScript.isAssetScript at h
  split at h
  next hl =>
    simp only [gt_iff_lt, Bool.and_eq_true, decide_eq_true_eq] at hl
    exact hl.1
  · cases h

/-- An asset script always has an address: the key hash is read without looking at the rest. -/
theorem address_ne_nil_of_transfer
    (h : transferAssetFromScript env script = some (transfer, address)) : address ≠ [] := by
  obtain ⟨s, hs, ht⟩ := isAssetScript_of_transfer h
  have hl := length_of_isAssetScript hs
  have hn : CScript.isPayToScriptHash script = false := by
    have hne : script.length ≠ 23 := by omega
    simp [CScript.isPayToScriptHash, hne]
  have hd : extractDestination env script = some (.keyID ((script.drop 3).take 20)) := by
    simp [extractDestination, CScript.solver, hn, hs, ht]
  have ha : address = scriptAddress env script := by
    simp only [transferAssetFromScript, Option.bind_eq_bind, Option.bind_eq_some_iff] at h
    obtain ⟨_, -, _, -, hp⟩ := h
    cases hp
    rfl
  rw [ha, scriptAddress, hd]
  refine encodeBase58_ne_nil ?_
  have hkey : (script.drop 3).take 20 ≠ [] := by
    intro hni
    have hz := congrArg List.length hni
    simp at hz
    omega
  simp [hkey]

theorem verifierHolds_of_check {verifier : Str} (ha : address ≠ [])
    (h : contextualCheckVerifierString env g cache verifier address = .ok u) :
    VerifierHolds g verifier address := by
  unfold contextualCheckVerifierString at h
  split at h
  next ht => exact Or.inl ht
  · obtain ⟨found, hf, h⟩ := bind_eq_ok.1 h
    obtain ⟨_, -, h⟩ := bind_eq_ok.1 h
    refine Or.inr ⟨found, hf, ?_⟩
    dsimp only at h
    split at h
    · cases h
    next ret hr =>
      have ht : ret = true := by simpa using h
      rw [ht] at hr
      exact hr

/-- The part of the check of a transfer that a restricted asset reaches. -/
theorem of_restrictedChecks {fChannel : Bool} {channel inactive frozen : Str} {lost : Str → Str}
    {last : Except Str Unit}
    (h : (do
      failIf fChannel channel
      failIf (!env.areRestrictedAssetsDeployed) inactive
      failIf (cache.checkForGlobalRestriction g transfer.strName true) frozen
      (transfer.contextualCheckAgainstVerifyString env g cache address).mapError lost
      last) = .ok u) :
    g.globallyFrozen transfer.strName = false ∧
      ∃ verifier u, g.verifierString transfer.strName = some verifier ∧
        contextualCheckVerifierString env g cache verifier address = .ok u := by
  simp only [failIf_bind_eq_ok] at h
  obtain ⟨-, -, hf, h⟩ := h
  obtain ⟨u, hverify, -⟩ := bind_eq_ok.1 h
  have hverify := mapError_eq_ok.1 hverify
  refine ⟨hf, ?_⟩
  unfold CAssetTransfer.contextualCheckAgainstVerifyString at hverify
  split at hverify
  · cases hverify
  next verifier hst => exact ⟨verifier, u, hst, hverify⟩

theorem of_contextualCheckTransferAsset
    (h : contextualCheckTransferAsset env g cache transfer address = .ok u)
    (ht : assetNameType transfer.strName = some .restricted) :
    g.globallyFrozen transfer.strName = false ∧
      ∃ verifier u, g.verifierString transfer.strName = some verifier ∧
        contextualCheckVerifierString env g cache verifier address = .ok u := by
  simp only [contextualCheckTransferAsset, ht, if_true] at h
  split at h
  · obtain ⟨-, h⟩ := failIf_bind_eq_ok.1 h
    obtain ⟨-, h⟩ := failIf_bind_eq_ok.1 h
    split at h
    · obtain ⟨_, -, h⟩ := bind_eq_ok.1 h
      exact of_restrictedChecks h
    · exact of_restrictedChecks h
  · exact of_restrictedChecks h

/-- Every transfer of an accepted transaction was checked against the asset state. -/
theorem exists_checkTransfer {out : CTxOut}
    (h : checkTxAssets env g cache tx view mempool fCheckMempool = .ok reissues)
    (hout : out ∈ tx.vout)
    (htr : transferAssetFromScript env out.scriptPubKey = some (transfer, address)) :
    contextualCheckTransferAsset env g cache transfer address = .ok () := by
  simp only [checkTxAssets, rejectIf, failIf_bind_eq_ok] at h
  obtain ⟨-, h⟩ := h
  obtain ⟨ins, -, h⟩ := bind_eq_ok.1 h
  obtain ⟨outs, hsc, -⟩ := bind_eq_ok.1 h
  obtain ⟨before, after, hstep⟩ := step_ok_of_foldlM hsc out hout
  obtain ⟨s, hs, ht⟩ := isAssetScript_of_transfer htr
  simp only [scanAssetOutput, rejectIf, hs, Option.map_some, ht, htr] at hstep
  obtain ⟨-, hstep⟩ := failIf_bind_eq_ok.1 hstep
  obtain ⟨_, -, hstep⟩ := bind_eq_ok.1 hstep
  obtain ⟨_, hp, hstep⟩ := bind_eq_ok.1 hstep
  cases hp
  obtain ⟨_, hc, -⟩ := bind_eq_ok.1 hstep
  exact mapError_eq_ok.1 hc

/-- A coin of a restricted asset is not spent from a frozen address. -/
theorem not_frozen_of_checkTxAssets {txin : CTxIn} {coin : Coin} {data : CAssetOutputEntry}
    (h : checkTxAssets env g cache tx view mempool fCheckMempool = .ok reissues)
    (hin : txin ∈ tx.vin) (hc : view.getCoin txin.prevout = some coin)
    (hd : getAssetData env coin.out.scriptPubKey = some data)
    (hname : isAssetNameAnRestricted data.assetName = true) :
    g.frozen data.assetName data.address = false := by
  simp only [checkTxAssets, rejectIf, failIf_bind_eq_ok] at h
  obtain ⟨-, h⟩ := h
  obtain ⟨ins, hsc, -⟩ := bind_eq_ok.1 h
  obtain ⟨before, after, hstep⟩ := step_ok_of_foldlM hsc txin hin
  have ha : (CScript.isAssetScript coin.out.scriptPubKey).isSome = true := by
    cases hs : CScript.isAssetScript coin.out.scriptPubKey with
    | none => rw [getAssetData_eq_none hs] at hd; cases hd
    | some s => rfl
  obtain ⟨coin', hr, hstep⟩ := bind_eq_ok.1 hstep
  rw [payloadOr_eq_ok, hc] at hr
  cases hr
  rw [if_pos ha] at hstep
  obtain ⟨data', hr, hstep⟩ := bind_eq_ok.1 hstep
  rw [payloadOr_eq_ok, hd] at hr
  cases hr
  obtain ⟨hn, -⟩ := failIf_bind_eq_ok.1 hstep
  rw [hname, Bool.true_and] at hn
  exact hn

/-- A transaction that spends a restricted asset also transfers it, so one check covers both. -/
theorem restrictedEnforced_of_accepted {name : Str} (h : Accepted env g cache view tx)
    (hty : assetNameType name = some .restricted)
    (hmoves : name ∈ (spentAssets env view tx).map Prod.fst ∨
      name ∈ (transferredAssets env tx).map Prod.fst) :
    RestrictedEnforced env g view tx name := by
  obtain ⟨mempool, fCheckMempool, reissues, ha⟩ := h.assets
  have hc : ∀ out ∈ tx.vout, ∀ transfer address,
      transferAssetFromScript env out.scriptPubKey = some (transfer, address) →
        transfer.strName = name → g.globallyFrozen name = false ∧
          ∃ verifier, g.verifierString name = some verifier ∧ VerifierHolds g verifier address := by
    rintro out hout transfer address ht rfl
    have hch := exists_checkTransfer ha hout ht
    obtain ⟨hf, verifier, u, hst, hverify⟩ := of_contextualCheckTransferAsset hch hty
    exact ⟨hf, verifier, hst, verifierHolds_of_check (address_ne_nil_of_transfer ht) hverify⟩
  have htr : name ∈ (transferredAssets env tx).map Prod.fst := by
    rcases hmoves with hsp | htr
    · exact (h.mem_spent_iff name).1 hsp
    · exact htr
  refine ⟨?_, ?_, fun out hout transfer address ht hname =>
    (hc out hout transfer address ht hname).2⟩
  · simp only [transferredAssets, transferredAsset, List.mem_map, List.mem_filterMap,
      Option.map_eq_some_iff] at htr
    obtain ⟨_, ⟨out, hout, ⟨transfer, address⟩, ht, rfl⟩, hname⟩ := htr
    exact (hc out hout transfer address ht hname).1
  · rintro txin hin coin data hco hd rfl
    exact not_frozen_of_checkTxAssets ha hin hco hd (isAssetNameAnRestricted_of_type hty).2

section Blocks

variable {rules : BlockRules} {mempool : MempoolAssets} {node : NodeState} {nHeight : Nat}
  {blockHash : UInt256} {block : CBlock} {conn conn' : Connected}

/-- A connected transaction has passed both checks on the state it was connected to. -/
theorem accepted_of_connectTx {fUndo : Bool} (hd : env.areAssetsDeployed = true)
    (hcb : tx.isCoinBase = false) (htx : checkTransaction env tx true false true = .ok ())
    (h : connectTx rules env g mempool nHeight blockHash fUndo conn tx = .ok conn') :
    Accepted env g conn.st.cache conn.st.view tx := by
  obtain ⟨nFees, st, txundo, undo, hi, -⟩ := connectTx_eq_ok.1 h
  rw [hcb] at hi
  obtain ⟨txfee, -, -, ha, -⟩ := connectInputs_eq_ok.1 hi
  simp only [connectAssets, hd, Bool.not_true, Bool.false_eq_true, if_false] at ha
  obtain ⟨reissues, hc, -⟩ := bind_eq_ok.1 ha
  exact ⟨hcb, ⟨true, false, true, htx⟩, mempool, false, reissues, hc⟩

/-- In an accepted block, each transaction that spends or transfers a restricted asset keeps to the
rules of the asset as they are at the parent tip, whatever the block itself changes. -/
theorem restrictedEnforced_of_connectBlock {st : CoinState} (hdeployed : env.areAssetsDeployed = true)
    (hgenesis : block.header.getHash rules.params ≠ rules.params.hashGenesisBlock)
    (hconnect : connectBlock rules env g mempool node nHeight st block = .ok conn)
    {pre post : List CTransaction} (hsplit : block.vtx = pre ++ tx :: post)
    (hcb : tx.isCoinBase = false) :
    ∃ before, connectLoop rules env g mempool nHeight (block.header.getHash rules.params) st pre =
        .ok before ∧
      ∀ name, assetNameType name = some .restricted →
        (name ∈ (spentAssets env before.st.view tx).map Prod.fst ∨
          name ∈ (transferredAssets env tx).map Prod.fst) →
        RestrictedEnforced env g before.st.view tx name := by
  obtain ⟨_, hch, hc⟩ := bind_eq_ok.1 hconnect
  simp only [if_neg hgenesis] at hc
  obtain ⟨-, -, hal⟩ := transactions_of_checkBlock hch
  have hl := connectLoop_of_connectTransactions hc
  rw [hsplit] at hl hal
  obtain ⟨before, after, hb, htx⟩ := exists_connectTx_of_connectLoop hl
  have ha := accepted_of_connectTx hdeployed hcb (hal tx (by simp)) htx
  exact ⟨before, hb, fun name ht hmoves =>
    restrictedEnforced_of_accepted ha ht hmoves⟩

end Blocks

def restrictedCoin : CTxOut := sampleTransfer "$MUSIC" coin

/-- A restricted asset whose verifier asks for a tag that every address has. -/
def restrictedGlobals : AssetGlobals where
  passets := {}
  db := { emptyDB with
    assetData := fun name =>
      if name = str "$MUSIC" then some ⟨{ sampleMusic with strName := str "$MUSIC" }, 1, 1⟩
      else if name = str "#KYC" then some ⟨{ sampleMusic with strName := str "#KYC" }, 1, 1⟩
      else none
    assetAddressQuantity := fun pair => if pair.1 = str "$MUSIC" then some coin else none
    verifier := fun name => if name = str "$MUSIC" then some (str "KYC") else none
    addressQualifier := fun pair => pair.1 = str "#KYC" }

def restrictedBase : Std.TreeMap COutPoint Coin :=
  (∅ : Std.TreeMap COutPoint Coin).insert sampleOutPoint ⟨restrictedCoin, 1, false⟩

def restrictedTx : CTransaction := sampleTx [restrictedCoin]

def restrictedBlock : CBlock := ⟨sampleHeader, [sampleCoinbase, restrictedTx]⟩

def connectRestricted : Checked Connected :=
  connectBlock sampleRules sampleEnv restrictedGlobals {} sampleNode 10
    ⟨{ base := restrictedBase }, {}⟩ restrictedBlock

theorem restrictedEnforced_of_connectBlock_restrictedBlock :
    ∃ before, connectLoop sampleRules sampleEnv restrictedGlobals {} 10
        (restrictedBlock.header.getHash sampleRules.params) ⟨{ base := restrictedBase }, {}⟩
        [sampleCoinbase] = .ok before ∧
      RestrictedEnforced sampleEnv restrictedGlobals before.st.view restrictedTx (str "$MUSIC") := by
  obtain ⟨conn, hc⟩ : ∃ conn, connectRestricted = .ok conn := isOk_iff.1 (by decide +kernel)
  have hsp : restrictedBlock.vtx = [sampleCoinbase] ++ restrictedTx :: [] := rfl
  obtain ⟨before, hb, he⟩ := restrictedEnforced_of_connectBlock rfl
    (by decide +kernel) hc hsp (by decide)
  refine ⟨before, hb, he (str "$MUSIC") (by decide +kernel) (Or.inr ?_)⟩
  decide +kernel

end Cmusic
